import CryptoBot.ControlPlane.InternalApi

/-!
# What an accepted write means

Whatever requests overlap, are repeated, killed or refused: where a write was accepted, by its action
or from the ledger of requests, its message is in the mirror, and stays there. Once the ledger holds
the answer to a request id, no request that begins after that executes the write again.
-/

namespace CryptoBot

open Lib

namespace InternalApi

variable {setup : ApiSetup} {r : InternalRequest}

/-! ## The laws of the service -/

theorem act_within {W : ApiLabel → ApiStore → ApiStore → Prop}
    {f : ApiState → Option (ResponseBody × ApiState)} (hrefl : ∀ s, W (.handle r .record) s s)
    (hf : ∀ s body app, f s.app = some (body, app) → W (.handle r .record) s { s with app }) :
    (act r f).Within W := by
  refine fun s => ⟨?_, trivial⟩
  dsimp only
  split
  · next body app h => exact hf s body app h
  · exact hrefl s

/-- The steps of a write: each is the action on a state of the application. -/
theorem handler_within {W : ApiLabel → ApiStore → ApiStore → Prop}
    (hrefl : ∀ m s, W (.handle r m) s s)
    (hrecord : ∀ body, r.body = some body → valid setup r body → ∀ s x app,
      record setup.cols r.routeInstance r.requestId s.app body.message = some (x, app) →
      W (.handle r .record) s { s with app })
    (hfill : ∀ body, r.body = some body → valid setup r body → ∀ d, body.message = .fill d →
      ∀ order s,
      W (.handle r .record) s { s with
        app.mirror := (s.app.mirror.insertFill setup.cols r.routeInstance order d).2 }) :
    (handler setup r).Within W := by
  intro fails
  cases fails with
  | true => exact trivial
  | false =>
    change Prog.Within W (if r.endpoint = .control ∨ r.endpoint = .heartbeat then _ else _)
    split
    · exact trivial
    · cases hb : r.body with
      | none => exact trivial
      | some body =>
        change Prog.Within W (if valid setup r body then write setup r body else pure invalidPayload)
        split
        · next hvalid =>
          have hact : (act r fun s =>
              record setup.cols r.routeInstance r.requestId s body.message).Within W :=
            act_within (hrefl _) fun s x app h => hrecord body hb hvalid s x app h
          unfold write
          split
          · next d hd =>
            refine fun s => ⟨hrefl _ _, ?_⟩
            dsimp only [Prog.bind]
            refine act_within (hrefl _) fun s x app h => ?_
            obtain ⟨-, rfl⟩ := Prod.mk.inj (Option.some.inj h)
            exact hfill body hb hvalid d hd _ s
          · exact hact
        · exact trivial

theorem not_accepted {x : Response} (hx : x.status ≠ .ok) : ¬ (service setup).accepted x := by
  refine Bool.eq_false_iff.1 (decide_eq_false ?_)
  exact mt HttpStatus.code_lt_iff.1.1 hx

theorem service_lawful : (service setup).Lawful where
  front r := by
    refine fun now s => ⟨⟨rfl, rfl⟩, ?_⟩
    dsimp only [Prog.bind]
    split
    · exact trivial
    · rintro (_ | _) <;> exact trivial
  fronted r h s := by
    refine fun s₁ _ => ⟨trivial, fun now _ s₂ _ => ⟨trivial, ?_⟩⟩
    dsimp only [Prog.bind]
    split
    · next x hx =>
      refine ⟨?_, nofun⟩
      rintro _ ⟨⟩
      exact Bool.eq_false_iff.2 (not_accepted (BotInternal.handle_status hx))
    · next hx =>
      refine fun s₃ _ => ⟨trivial, fun throttled _ => ?_⟩
      cases throttled with
      | true =>
        refine ⟨?_, nofun⟩
        rintro _ ⟨⟩
        rfl
      | false => exact ⟨nofun, fun _ => BotInternal.handle_eq_none hx⟩
  handler r _ := by
    refine handler_within (fun m s => ⟨⟨m, rfl⟩, rfl⟩) ?_ ?_
    · exact fun _ _ _ _ _ _ _ => ⟨⟨_, rfl⟩, rfl⟩
    · exact fun _ _ _ _ _ _ _ => ⟨⟨_, rfl⟩, rfl⟩
  conflict := rfl
  replayed _ := rfl

/-! ## What a message comes to -/

/-- The message, sent by the bot under the request id, is in the mirror: an order in its version or a
later one, a fill as the row of its key, which may be that of another bot, and a position as a row of
its second or a later one, which may be an older snapshot of the same second. -/
def Applied (bot requestId : String) (s : ApiState) : OutboxMessage → Prop
  | .signal id .. => (s.mirror.signal? id).isSome
  | .order o _ => ∃ row, s.mirror.order? bot o.clientOrderId = some row ∧
      o.version ≤ row.columns.engineVersion
  | .fill f => (s.mirror.fill? f.eventKey).isSome
  | .position p => ∃ row t u, s.mirror.positions bot p.symbol = some row ∧ p.updatedAt = some t ∧
      row.engineUpdatedAt = some u ∧ wholeSeconds t ≤ u
  | .event .. => ∃ row ∈ s.events.rows, row.idempotencyKey = requestId
  | .reconciliation run .. => ∃ row ∈ s.runs.rows, row.runKey = run.runKey
  | .telegram .. => True

/-- Nothing that is in the mirror is lost. -/
def Grows (s s' : ApiState) : Prop :=
  ∀ bot requestId d, Applied bot requestId s d → Applied bot requestId s' d

section
variable {cols : ColumnLib} {bot : String} {m m' : Mirror} {s s' : ApiState}

/-- The row of an order never goes back, and reaches the version of the message. -/
theorem le_orderAfter {o : Order} {signalId : Option SignalId} :
    o.version ≤ (Mirror.orderAfter cols bot o signalId m).columns.engineVersion ∧
    ∀ row, m.order? bot o.clientOrderId = some row →
      row.columns.engineVersion ≤ (Mirror.orderAfter cols bot o signalId m).columns.engineVersion := by
  unfold Mirror.orderAfter
  cases hrow : m.order? bot o.clientOrderId with
  | none =>
    dsimp only [Mirror.orderColumns]
    exact ⟨le_rfl, fun _ h => (by cases h)⟩
  | some row =>
    dsimp only
    split
    · next hv =>
      refine ⟨hv, ?_⟩
      rintro _ ⟨⟩
      exact le_rfl
    · next hv =>
      dsimp only [Mirror.orderColumns]
      refine ⟨le_rfl, ?_⟩
      rintro _ ⟨⟩
      exact (not_le.1 hv).le

theorem recordSignal_positions {id : SignalId} {price : ℚ} {reasons : List String}
    {mode : TradingMode} {t : Time} (h : m.recordSignal cols bot id price reasons mode t = some m') :
    m'.positions = m.positions := by
  unfold Mirror.recordSignal at h
  split at h
  · cases h
    rfl
  · obtain ⟨_, -, rfl⟩ := Option.map_eq_some_iff.1 h
    rfl

theorem recordOrder_positions {o : Order} {signalId : Option SignalId}
    (h : m.recordOrder cols bot o signalId = some m') : m'.positions = m.positions := by
  unfold Mirror.recordOrder at h
  split at h
  · split at h
    · cases h
      rfl
    · obtain ⟨_, -, rfl⟩ := Option.map_eq_some_iff.1 h
      rfl
  · obtain ⟨_, -, rfl⟩ := Option.map_eq_some_iff.1 h
    rfl

/-- The position of the bot reaches the second of an instant. -/
def Reached (m : Mirror) (bot : String) (symbol : Symbol) (t : Time) : Prop :=
  ∃ row u, m.positions bot symbol = some row ∧ row.engineUpdatedAt = some u ∧ wholeSeconds t ≤ u

theorem applied_position_iff {requestId : String} {p : Position} :
    Applied bot requestId s (.position p) ↔
      ∃ t, p.updatedAt = some t ∧ Reached s.mirror bot p.symbol t := by
  constructor
  · rintro ⟨row, t, u, hrow, ht, hu, hle⟩
    exact ⟨t, ht, row, u, hrow, hu, hle⟩
  · rintro ⟨t, ht, row, u, hrow, hu, hle⟩
    exact ⟨row, t, u, hrow, ht, hu, hle⟩

theorem wholeSeconds_wholeSeconds {t : Int} : wholeSeconds (wholeSeconds t) = wholeSeconds t := by
  show (t / 1000000 * 1000000 / 1000000 * 1000000 : Int) = t / 1000000 * 1000000
  omega

theorem wholeSeconds_le {t : Int} : wholeSeconds t ≤ t := by
  show (t / 1000000 * 1000000 : Int) ≤ t
  omega

/-- A snapshot brings its position to its second, and takes none back. -/
theorem recordPosition_reached {d : Mirror.PositionRequest} :
    Reached (m.recordPosition cols bot d) bot d.data.symbol d.updatedAt ∧
    ∀ b symbol t, Reached m b symbol t → Reached (m.recordPosition cols bot d) b symbol t := by
  unfold Mirror.recordPosition
  split
  · next hold =>
    refine ⟨?_, fun _ _ _ h => h⟩
    cases hrow : m.positions bot d.data.symbol with
    | none => simp [hrow] at hold
    | some row =>
      cases hu : row.engineUpdatedAt with
      | none => simp [hrow, hu] at hold
      | some u =>
        have hlt : d.updatedAt < u := by simpa [hrow, hu] using hold
        exact ⟨row, u, hrow, hu, wholeSeconds_le.trans hlt.le⟩
  · next hnew =>
    have hself : Reached { m with
        positions := Function.update m.positions bot
          (Function.update (m.positions bot) d.data.symbol (some (Mirror.positionRow cols d))) }
        bot d.data.symbol d.updatedAt :=
      ⟨Mirror.positionRow cols d, _, by simp, rfl, le_rfl⟩
    refine ⟨hself, ?_⟩
    rintro b symbol t ⟨row, u, hrow, hu, hle⟩
    by_cases hkey : b = bot ∧ symbol = d.data.symbol
    · obtain ⟨rfl, rfl⟩ := hkey
      obtain ⟨row', u', hrow', hu', hle'⟩ := hself
      refine ⟨row', u', hrow', hu', le_trans ?_ hle'⟩
      have hnot : ¬ d.updatedAt < u := by simpa [hrow, hu] using hnew
      rw [← wholeSeconds_wholeSeconds]
      exact Mirror.wholeSeconds_mono (hle.trans (not_lt.1 hnot))
    · refine ⟨row, u, ?_, hu, hle⟩
      rw [← hrow]
      by_cases hb : b = bot
      · subst hb
        have hsym : symbol ≠ d.data.symbol := fun h => hkey ⟨rfl, h⟩
        simp [Function.update_of_ne hsym]
      · simp [Function.update_of_ne hb]

/-- A delivery to the mirror leaves what is in it, the orders at no older version. -/
theorem grows_of_delivered {d : OutboxMessage} (h : Mirror.Delivered cols bot d s.mirror m')
    (hpos : ∀ b symbol t, Reached s.mirror b symbol t → Reached m' b symbol t) :
    Grows s { s with mirror := m' } := by
  intro b rid d' hd'
  cases d' with
  | signal id =>
    change (m'.signal? id).isSome
    rw [h.signals, Option.isSome_or]
    exact Bool.or_eq_true_iff.2 (.inl hd')
  | order o signalId =>
    obtain ⟨row, hrow, hv⟩ := hd'
    change ∃ row, m'.order? b o.clientOrderId = some row ∧ _
    rw [h.orders]
    cases d with
    | order o' signalId' =>
      unfold Mirror.orderRow
      dsimp only
      split
      · next hkey =>
        obtain ⟨rfl, hc⟩ := Prod.mk.inj hkey
        rw [← hc] at hrow
        exact ⟨_, rfl, hv.trans (le_orderAfter.2 row hrow)⟩
      · exact ⟨row, hrow, hv⟩
    | signal | fill | position | event | reconciliation | telegram => exact ⟨row, hrow, hv⟩
  | fill f =>
    change (m'.fill? f.eventKey).isSome
    rw [h.fills, Option.isSome_or]
    exact Bool.or_eq_true_iff.2 (.inl hd')
  | position p =>
    obtain ⟨t, ht, hreached⟩ := applied_position_iff.1 hd'
    exact applied_position_iff.2 ⟨t, ht, hpos _ _ _ hreached⟩
  | event | reconciliation | telegram => exact hd'

/-- An execution is there after its message, and the others are as before. -/
theorem insertFill_fill? {order : Option String} {d : Fill} {k : String} :
    ((m.insertFill cols bot order d).2.fill? k).isSome ↔ (m.fill? k).isSome ∨ d.eventKey = k := by
  unfold Mirror.insertFill
  split
  · next fills hins =>
    change (fills.rows.find? _).isSome ↔ _
    rw [Mirror.find?_insert hins, Option.isSome_or, Bool.or_eq_true_iff]
    refine or_congr Iff.rfl ?_
    by_cases hk : d.eventKey = k <;> simp [hk]
  · next hins =>
    refine ⟨.inl, ?_⟩
    rintro (h | rfl)
    · exact h
    · rw [← Option.not_isSome_iff_eq_none, Table.insert?_isSome] at hins
      by_contra hno
      refine hins fun r hr he => hno ?_
      rw [Mirror.fill?, List.find?_isSome]
      exact ⟨r, hr, decide_eq_true he⟩

theorem insertFill_frame {order : Option String} {d : Fill} :
    (m.insertFill cols bot order d).2.signals = m.signals ∧
    (m.insertFill cols bot order d).2.orders = m.orders ∧
    (m.insertFill cols bot order d).2.positions = m.positions := by
  unfold Mirror.insertFill
  split <;> exact ⟨rfl, rfl, rfl⟩

theorem grows_insertFill {order : Option String} {d : Fill} :
    Grows s { s with mirror := (s.mirror.insertFill cols bot order d).2 } := by
  obtain ⟨hsignals, horders, hpositions⟩ := @insertFill_frame cols bot s.mirror order d
  intro b rid d' hd'
  cases d' with
  | signal id => simpa [Applied, Mirror.signal?, hsignals] using hd'
  | order o _ => simpa [Applied, Mirror.order?, horders] using hd'
  | fill f => exact insertFill_fill?.2 (.inl hd')
  | position p => simpa [Applied, hpositions] using hd'
  | event | reconciliation | telegram => exact hd'

theorem grows_recordEvent {requestId : String} {type : EventType} {severity : EventSeverity}
    {message : String} {payload : EventPayload} {t : Time} :
    Grows s (recordEvent bot requestId type severity message payload t s) ∧
    ∃ row ∈ (recordEvent bot requestId type severity message payload t s).events.rows,
      row.idempotencyKey = requestId := by
  unfold recordEvent
  split
  · next events hins =>
    have hrows := Table.insert?_eq_some.1 hins
    refine ⟨fun b rid d' hd' => ?_, _, by rw [hrows]; exact List.mem_append_right _ (.head _), rfl⟩
    cases d' with
    | event =>
      obtain ⟨row, hrow, hkey⟩ := hd'
      exact ⟨row, by rw [hrows]; exact List.mem_append_left _ hrow, hkey⟩
    | signal | order | fill | position | reconciliation | telegram => exact hd'
  · next hins =>
    refine ⟨fun _ _ _ h => h, ?_⟩
    rw [← Option.not_isSome_iff_eq_none, Table.insert?_isSome] at hins
    by_contra hno
    exact hins fun row hrow he => hno ⟨row, hrow, he⟩

theorem grows_recordRun {d : ReconciliationRequest} :
    Grows s (recordRun bot d s) ∧
    ∃ row ∈ (recordRun bot d s).runs.rows, row.runKey = d.run.runKey := by
  unfold recordRun
  split
  · next runs hins =>
    have hrows := Table.insert?_eq_some.1 hins
    refine ⟨fun b rid d' hd' => ?_, _, by rw [hrows]; exact List.mem_append_right _ (.head _), rfl⟩
    cases d' with
    | reconciliation =>
      obtain ⟨row, hrow, hkey⟩ := hd'
      exact ⟨row, by rw [hrows]; exact List.mem_append_left _ hrow, hkey⟩
    | signal | order | fill | position | event | telegram => exact hd'
  · next hins =>
    refine ⟨fun _ _ _ h => h, ?_⟩
    rw [← Option.not_isSome_iff_eq_none, Table.insert?_isSome] at hins
    by_contra hno
    exact hins fun row hrow he => hno ⟨row, hrow, he⟩

/-- An action loses nothing, and its message is in the mirror after it. -/
theorem grows_record {requestId : String} {d : OutboxMessage} {x : ResponseBody}
    (h : record cols bot requestId s d = some (x, s')) :
    Grows s s' ∧ Applied bot requestId s' d := by
  cases d with
  | signal id price reasons mode t =>
    obtain ⟨m', hm, he⟩ := Option.map_eq_some_iff.1 h
    obtain ⟨-, rfl⟩ := Prod.mk.inj he
    have hdel : Mirror.Delivered cols bot (.signal id price reasons mode t) s.mirror m' :=
      Mirror.deliver_delivered hm
    refine ⟨grows_of_delivered hdel fun _ _ _ hr => ?_, ?_⟩
    · simpa only [Reached, recordSignal_positions hm] using hr
    · change (m'.signal? id).isSome
      rw [hdel.signals, Option.isSome_or]
      exact Bool.or_eq_true_iff.2 (.inr (by simp [Mirror.newSignal]))
  | order o signalId =>
    obtain ⟨m', hm, he⟩ := Option.map_eq_some_iff.1 h
    obtain ⟨-, rfl⟩ := Prod.mk.inj he
    have hdel : Mirror.Delivered cols bot (.order o signalId) s.mirror m' :=
      Mirror.deliver_delivered hm
    refine ⟨grows_of_delivered hdel fun _ _ _ hr => ?_, _, (hdel.orders _ _).trans (if_pos rfl),
      le_orderAfter.1⟩
    simpa only [Reached, recordOrder_positions hm] using hr
  | position p =>
    obtain ⟨m', hm, he⟩ := Option.map_eq_some_iff.1 h
    obtain ⟨-, rfl⟩ := Prod.mk.inj he
    have hdel := Mirror.deliver_delivered hm
    unfold Mirror.deliver at hm
    dsimp only at hm
    split at hm
    · next t ht =>
      obtain rfl := Option.some.inj hm
      obtain ⟨hself, hothers⟩ := @recordPosition_reached cols bot s.mirror ⟨p, t, ht⟩
      exact ⟨grows_of_delivered hdel hothers, applied_position_iff.2 ⟨t, ht, hself⟩⟩
    · cases hm
  | event type severity message payload t =>
    obtain ⟨-, rfl⟩ := Prod.mk.inj (Option.some.inj h)
    exact grows_recordEvent
  | reconciliation run detail finishedAt =>
    obtain ⟨-, rfl⟩ := Prod.mk.inj (Option.some.inj h)
    exact grows_recordRun
  | fill | telegram => cases h

end

/-! ## Accepted writes -/

section
variable {sent : InternalRequest → Prop} {bot requestId : String} {e : Endpoint}
  {d : OutboxMessage}

/-- Whoever holds the token and sends a write of the bot to the endpoint under the request id sends
the message. -/
def Speaks (setup : ApiSetup) (sent : InternalRequest → Prop) (bot requestId : String)
    (e : Endpoint) (d : OutboxMessage) : Prop :=
  ∀ r, sent r → r.bearerToken = setup.cfg.internalToken → r.routeInstance = bot →
    r.requestId = requestId → r.endpoint = e → ∀ body, r.body = some body → body.message = d

theorem kept_applied : (service setup).Kept sent fun s => Applied bot requestId s d := by
  intro r b _ _
  refine handler_within (fun _ _ h => h) ?_ ?_
  · exact fun body _ _ s x app h hs => (grows_record h).1 _ _ _ hs
  · exact fun body _ _ f _ order s hs => grows_insertFill _ _ _ hs

/-- The action of a write, under any contract that asks nothing of it. -/
theorem wp_write {C : Contract ApiStore ApiLabel ApiAns} {r : InternalRequest} {body : ApiBody}
    {h : History ApiLabel ApiAns} {s : ApiStore} (hstep : ∀ h l s s', C.step h l s s') :
    (write setup r body).wp C (fun x _ s => (service setup).accepted x →
      Applied r.routeInstance r.requestId s.app body.message) h s := by
  unfold write
  split
  · next f hf =>
    refine fun s₁ _ => ⟨hstep _ _ _ _, fun s₂ _ => ⟨hstep _ _ _ _, fun _ => ?_⟩⟩
    rw [hf]
    exact insertFill_fill?.2 (.inr rfl)
  · refine fun s₁ _ => ⟨hstep _ _ _ _, ?_⟩
    dsimp only [act]
    split
    · next x app h => exact fun _ => (grows_record h).2
    · exact fun hacc => absurd hacc (not_accepted (x := serverError) nofun)

/-- A write that the action accepts has its message in the mirror. -/
theorem does_applied (hspeaks : Speaks setup sent bot requestId e d) (hwrite : e ≠ .control ∧ e ≠ .heartbeat) :
    (service setup).Does sent (bot, requestId) e fun s => Applied bot requestId s d where
  kept := kept_applied
  done := by
    rintro r - hsent ⟨htoken, -⟩ hkey he h s
    obtain ⟨rfl, rfl⟩ := Prod.mk.inj hkey
    refine fun s₁ _ => ⟨trivial, fun fails _ => ?_⟩
    cases fails with
    | true => exact fun hacc => absurd hacc (not_accepted (x := serverError) nofun)
    | false =>
      change Prog.wp _ (if r.endpoint = .control ∨ r.endpoint = .heartbeat then _ else _) _ _ _
      split
      · next hor =>
        have he : r.endpoint = e := he
        rw [he] at hor
        exact absurd hor (not_or.2 hwrite)
      · cases hb : r.body with
        | none => exact fun hacc => absurd hacc (not_accepted (x := invalidPayload) nofun)
        | some body =>
          obtain rfl := hspeaks r hsent htoken rfl rfl he body hb
          change Prog.wp _ (if valid setup r body then write setup r body
            else pure invalidPayload) _ _ _
          split
          · exact wp_write fun _ _ _ _ => trivial
          · exact fun hacc => absurd hacc (not_accepted (x := invalidPayload) nofun)

variable {τ : Type} [DecidableEq τ] {app : ApiState}
  {P P' : ApiPool τ} {i : τ}

/-- In every run of the API whose clock has not passed the retention of a stored answer: a request
that begins when the answer is stored and is a write under the same id runs no action, and when it
succeeds it is one for the same endpoint, answered with the stored response and the mark of a
replay. -/
theorem executed_once {T : Int} {p : StoredAnswer ApiKey Endpoint Response}
    (hrun : Pool.Run ((service setup).Starts sent) ((service setup).ClockBy T)
      (Service.idle { app }) P)
    (hp : p ∈ P.state.stored.rows) (hT : T ≤ p.createdAt + seconds (setup.cfg.retentionDays * 86400))
    (hrun' : Pool.Run ((service setup).Starts sent) ((service setup).ClockBy T) P P')
    {tr : List (Act τ ApiLabel ApiAns)} (htr : P'.trace = tr ++ P.trace) (hi : .start i ∈ tr)
    (hwrite : r.endpoint ≠ .control ∧ r.endpoint ≠ .heartbeat)
    (hkey : (r.routeInstance, r.requestId) = p.key) :
    (∀ m P'', ¬ Pool.Step ((service setup).Starts sent) P' (.event i (.step (.handle r m))) P'') ∧
    ∀ x, P'.prog i = .done (some (r, x)) → x.status = .ok →
      p.endpoint = r.endpoint ∧ x = { p.answer with replay := true } := by
  obtain ⟨-, hhandle, hanswer⟩ :=
    Service.not_handled_again service_lawful hrun hp hT hrun' htr hi
  have hled : (service setup).ledgered r := decide_eq_true hwrite
  refine ⟨fun m P'' hs => hhandle r m P'' hs hled hkey, fun x hx hok => ?_⟩
  have hacc : (service setup).accepted x := decide_eq_true (HttpStatus.code_lt_iff.1.2 hok)
  have heq := hanswer r x hx hled hkey hacc
  unfold Service.replay at heq
  split at heq
  · next he => exact ⟨he, heq⟩
  · rw [heq] at hok
    cases hok

end

/-! ## A request that is sent twice -/

def sampleSetup : ApiSetup where
  cfg := { internalToken := "0123456789abcdef0123456789abcdef" }
  cols := ⟨fun _ _ x => x⟩
  rules _ := true

def haltEvent : OutboxMessage := .event .reconciliationHalted .critical "halted" .empty 0

def haltRequest : InternalRequest where
  routeInstance := "bot"
  endpoint := .events
  bearerToken := sampleSetup.cfg.internalToken
  botInstance := "bot"
  timestamp := "0"
  requestId := "event:01"
  body := some ⟨"bot", haltEvent⟩

/-- Nothing fails, and no time passes. -/
def smoothEnv : Prog.Env ApiLabel ApiAns
  | _, .now => (0 : Int)
  | _, .throttled | _, .fails => false

/-- The request is sent again. -/
def resend (P : ApiPool Unit) : ApiPool Unit :=
  (P.restart () ((service sampleSetup).serve haltRequest)).go smoothEnv () 20

/-- The API after the request was sent once. -/
def servedOnce : ApiPool Unit := resend (Service.idle { app := { bots := ["bot"] } })

theorem run_resend {ok : ApiPool Unit → Act Unit ApiLabel ApiAns → Prop} {P : ApiPool Unit}
    (hstart : ok P (.start ())) (hstep : ∀ P l, ok P (.event () (.step l)))
    (hcall : ∀ P h q, ok P (.event () (.call q (smoothEnv h q)))) :
    Pool.Run ((service sampleSetup).Starts (· = haltRequest)) ok P (resend P) := by
  refine (Pool.run_restart () (.serve _ rfl) hstart).trans
    (Pool.run_go_answered _ _ hstep (fun P q _ => hcall P _ q) 20 ?_)
  dsimp only [Pool.restart]
  rw [Function.update_self]
  exact trivial

theorem run_resend_clockBy {P : ApiPool Unit} :
    Pool.Run ((service sampleSetup).Starts (· = haltRequest)) ((service sampleSetup).ClockBy 0) P
      (resend P) := by
  refine run_resend nofun (fun _ _ => nofun) fun P h q => ?_
  rintro _ _ ⟨⟩
  exact le_rfl

/-- The second time, the request is answered from the ledger. -/
theorem haltEvent_executed_once :
    (resend servedOnce).prog () = .done (some (haltRequest, ⟨.ok, .ok, true⟩)) ∧
    (resend servedOnce).state.app.events.rows.length = 1 ∧
    ∀ m P, ¬ Pool.Step ((service sampleSetup).Starts (· = haltRequest)) (resend servedOnce)
      (.event () (.step (.handle haltRequest m))) P := by
  refine ⟨rfl, rfl, ?_⟩
  have hstarted : .start () ∈ (resend servedOnce).trace.take 5 :=
    .tail _ (.tail _ (.tail _ (.tail _ (.head _))))
  exact (@executed_once sampleSetup haltRequest _ _ _ _ servedOnce (resend servedOnce) () 0
    ⟨("bot", "event:01"), .events, ⟨.ok, .ok, false⟩, 0⟩ run_resend_clockBy (.head _) (by decide)
    run_resend_clockBy _ rfl hstarted (by decide) rfl).1

end InternalApi

end CryptoBot
