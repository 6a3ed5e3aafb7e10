import CryptoBot.Application.Handover
import CryptoBot.Application.Journal
import CryptoBot.ControlPlane.AcceptedWrites

/-!
# From the ledger to the mirror

The engine's programs, the dispatchers of its outbox and the internal API as one system. The engine
and the dispatchers share the ledger; a dispatcher hands a row to the control plane by a request of
its own, whose response may be lost. Requests of anybody who does not hold the token, and of the
engines of other bots, arrive beside them.

A row is marked as sent only after a request that carries it has been answered with success, and an
answer with success means that the message is in the mirror (`InternalApi.accepted_applied`), where
it stays. The mirror has nothing about an order but what the outbox held, so when the newest message
about an order is sent, the mirror shows the order as it is stored.
-/

namespace CryptoBot

open Lib InternalApi
open OutboxDispatcher (FlushProgram Ordered Marks Taken telling)

/-! ## The client -/

/-- The path `ControlPlaneClient.post` sends the messages of a kind to. -/
def OutboxKind.endpoint : OutboxKind → Option Endpoint
  | .signals => some .signals
  | .orders => some .orders
  | .fills => some .fills
  | .reconciliation => some .reconciliation
  | .events => some .events
  | .positions => some .positions
  | .telegram => none

theorem OutboxKind.endpoint_write {kind : OutboxKind} {e : Endpoint}
    (h : kind.endpoint = some e) : e ≠ .control ∧ e ≠ .heartbeat := by
  cases kind <;> cases h <;> decide

theorem OutboxMessage.endpoint_write {d : OutboxMessage} {e : Endpoint}
    (h : d.endpoint = some e) : e ≠ .control ∧ e ≠ .heartbeat := by
  cases d <;> cases h <;> decide

namespace ControlPlaneClient

def unavailable (text : String) : Exn := .external "ControlPlaneUnavailable" text

/-- A permanent rejection: the same payload can never succeed. -/
def rejected (text : String) : Exn := .external "ControlPlaneRejected" text

/-- What `_send` makes of a response; `text` is the text of the exception it may raise. -/
def outcome (text : String) (x : Response) : Except Exn Unit :=
  if x.status.code ∈ [400, 409, 422] then .error (rejected text)
  else if 400 ≤ x.status.code then .error (unavailable text)
  else .ok ()

theorem outcome_ok {text : String} {x : Response} (h : outcome text x = .ok ()) :
    x.status.code < 400 := by
  unfold outcome at h
  split at h
  · cases h
  · split at h
    · cases h
    · next hcode => exact not_le.1 hcode

end ControlPlaneClient

/-! ## The system -/

abbrev EnginePool (τ : Type) : Type 1 := Pool τ Ledger Label Ans

abbrev DispatchPool (υ : Type) : Type 1 := Pool υ OutboxStore OutboxDispatcher.Label OutboxDispatcher.Ans

/-- The engine, its dispatchers and the API, each with the processes it runs. The ledger is that of
the dispatchers' store. -/
structure Stack (τ υ ω : Type) : Type 1 where
  core : EnginePool τ
  dispatch : DispatchPool υ
  api : ApiPool ω

namespace Stack

variable {τ υ ω : Type}

def ledger (S : Stack τ υ ω) : Ledger := S.dispatch.state.ledger

/-- The engine as it finds the ledger. -/
def engine (S : Stack τ υ ω) : EnginePool τ := { S.core with state := S.ledger }

/-- The engine has come to `core`, and the ledger with it. -/
def withCore (S : Stack τ υ ω) (core : EnginePool τ) : Stack τ υ ω :=
  { S with
    core
    dispatch := { S.dispatch with state := { S.dispatch.state with ledger := core.state } } }

/-- A system with an empty ledger, in which nothing has been started. -/
def idle (app : ApiState) : Stack τ υ ω := ⟨.idle {}, .idle {}, Service.idle { app }⟩

end Stack

inductive StackAct (τ υ ω : Type)
  | core (act : Act τ Label Ans)
  | dispatch (act : Act υ OutboxDispatcher.Label OutboxDispatcher.Ans)
  | api (act : Act ω ApiLabel ApiAns)

/-- What the engine and the API are run with: their settings, and the texts of the outbox keys, which
are the request ids. -/
structure Link where
  engine : Config
  api : ApiSetup
  keyText : OutboxKey → String

namespace Link

variable {τ υ ω : Type} (link : Link)

/-- The request that carries a row. -/
def Carries (row : OutboxRow) (r : InternalRequest) : Prop :=
  r.routeInstance = link.engine.bot ∧ row.kind.endpoint = some r.endpoint ∧
    r.requestId = link.keyText row.key ∧ r.body = some ⟨link.engine.bot, row.message⟩

/-- What reaches the API: a write for the bot with the token carries a row of the outbox. -/
def Authentic (s : Ledger) (r : InternalRequest) : Prop :=
  r.bearerToken = link.api.cfg.internalToken → r.routeInstance = link.engine.bot →
    r.endpoint ≠ .control ∧ r.endpoint ≠ .heartbeat → ∃ row ∈ s.outbox, link.Carries row r

/-- What a dispatcher may hear of a row: what the client makes of the response to a request that
carries it, or that there was no response it could read. -/
inductive Hears (api : ApiPool ω) (row : OutboxRow) : Except Exn Unit → Prop
  | answered {j : ω} {r : InternalRequest} {x : Response} (text : String)
      (hj : api.prog j = .done (some (r, x))) (hr : link.Carries row r) :
      Hears api row (ControlPlaneClient.outcome text x)
  | lost (text : String) : Hears api row (.error (ControlPlaneClient.unavailable text))

/-- The requests that a dispatcher may hear of. -/
def Heard (api : ApiPool ω) (act : Act υ OutboxDispatcher.Label OutboxDispatcher.Ans) : Prop :=
  ∀ i row a, act = .event i (.call (.post row) a) → link.Hears api row a

/-- The texts of the keys in the outbox tell the keys apart. -/
def Distinct (s : Ledger) : Prop :=
  ∀ a ∈ s.outbox, ∀ b ∈ s.outbox, link.keyText a.key = link.keyText b.key → a.key = b.key

variable [DecidableEq τ] [DecidableEq υ] [DecidableEq ω]

/-- One step of the system: any of its processes takes its next event, or is started anew. -/
inductive Step (S : Stack τ υ ω) : StackAct τ υ ω → Stack τ υ ω → Prop
  | core {act : Act τ Label Ans} {core : EnginePool τ}
      (hs : Pool.Step (EngineProgram link.engine fun _ => True) S.engine act core) :
      Step S (.core act) (S.withCore core)
  | dispatch {act : Act υ OutboxDispatcher.Label OutboxDispatcher.Ans} {dispatch : DispatchPool υ}
      (hs : Pool.Step FlushProgram S.dispatch act dispatch) (hheard : link.Heard S.api act) :
      Step S (.dispatch act) { S with dispatch }
  | api {act : Act ω ApiLabel ApiAns} {api : ApiPool ω}
      (hs : Pool.Step ((service link.api).Starts (link.Authentic S.ledger)) S.api act api) :
      Step S (.api act) { S with api }

/-- A run of the system. -/
abbrev Run : Stack τ υ ω → Stack τ υ ω → Prop := Runs link.Step fun _ _ => True

end Link

/-! ## The contents of the outbox -/

section
variable {s s' : Ledger} {h : History OutboxDispatcher.Label OutboxDispatcher.Ans}

/-- A row is found again, as far as what it says. -/
theorem Ledger.exists_of_contents (hs : s.contents <+: s'.contents) {r : OutboxRow}
    (hr : r ∈ s.outbox) : ∃ r' ∈ s'.outbox, r'.content = r.content :=
  List.mem_map.1 (hs.subset (List.mem_map_of_mem hr))

theorem OutboxRow.content_inj {r r' : OutboxRow} (h : r'.content = r.content) :
    r'.id = r.id ∧ r'.kind = r.kind ∧ r'.key = r.key ∧ r'.message = r.message := by
  obtain ⟨hid, hrest⟩ := Prod.mk.inj h
  obtain ⟨hkind, hrest⟩ := Prod.mk.inj hrest
  obtain ⟨hkey, hmessage⟩ := Prod.mk.inj hrest
  exact ⟨hid, hkind, hkey, hmessage⟩

theorem Grown.contents (hs : Grown s s') : s.contents <+: s'.contents := by
  obtain ⟨more, hmore, -⟩ := hs.rows
  rw [Ledger.contents, Ledger.contents, hmore, List.map_append]
  exact List.prefix_append _ _

/-- What the rows say about the orders does not depend on how far they have come. -/
theorem Published.marks (hs : Published s) (hm : Marks h s s') : Published s' := by
  have horders : s'.orders = s.orders := by rw [hm.rest]
  have hintents : s'.intents = s.intents := by rw [hm.rest]
  have hpre : s.contents <+: s'.contents := hm.contents.symm ▸ List.prefix_rfl
  have hback {r' : OutboxRow} (hr' : r' ∈ s'.outbox) : ∃ r ∈ s.outbox, r.content = r'.content :=
    List.mem_map.1 (hm.contents ▸ List.mem_map_of_mem hr' : r'.content ∈ s.contents)
  refine ⟨fun o ho hid => ?_, fun r' hr' c v hk => ?_, fun r' hr' o signalId hmsg => ?_, ?_, ?_⟩
  · obtain ⟨r, hr, hkind, hkey, hmsg⟩ := hs.newest o (horders ▸ ho) hid
    obtain ⟨r', hr', he⟩ := Ledger.exists_of_contents hpre hr
    obtain ⟨-, hk, hy, hms⟩ := OutboxRow.content_inj he
    refine ⟨r', hr', hk.trans hkind, hy.trans hkey, hms.trans (hmsg.trans ?_)⟩
    rw [Ledger.intentSignalId, Ledger.intentSignalId, hintents]
  · obtain ⟨r, hr, he⟩ := hback hr'
    obtain ⟨o, ho, hrest⟩ := hs.past r hr c v ((OutboxRow.content_inj he).2.2.1.trans hk)
    exact ⟨o, horders.symm ▸ ho, hrest⟩
  · obtain ⟨r, hr, he⟩ := hback hr'
    obtain ⟨-, -, hy, hms⟩ := OutboxRow.content_inj he
    exact hy.symm.trans (hs.shape r hr o signalId (hms.trans hmsg))
  · have hkeys : s'.outbox.map (·.key) = s.outbox.map (·.key) := by
      have := congrArg (List.map fun c => c.2.2.1) hm.contents
      rwa [Ledger.contents, Ledger.contents, List.map_map, List.map_map] at this
    exact List.pairwise_map.1 (hkeys ▸ List.pairwise_map.2 hs.keys)
  · rw [horders, hintents]
    exact hs.intents

theorem FillsTold.marks (hs : FillsTold s) (hm : Marks h s s') : FillsTold s' := by
  have hfills : s'.fills = s.fills := by rw [hm.rest]
  have hpre : s.contents <+: s'.contents := hm.contents.symm ▸ List.prefix_rfl
  have hback {r' : OutboxRow} (hr' : r' ∈ s'.outbox) : ∃ r ∈ s.outbox, r.content = r'.content :=
    List.mem_map.1 (hm.contents ▸ List.mem_map_of_mem hr' : r'.content ∈ s.contents)
  refine ⟨fun f hf => ?_, fun r' hr' k hk => ?_, fun r' hr' f hmsg => ?_⟩
  · obtain ⟨r, hr, hkind, hkey, hmsg⟩ := hs.told f (hfills ▸ hf)
    obtain ⟨r', hr', he⟩ := Ledger.exists_of_contents hpre hr
    obtain ⟨-, hk, hy, hms⟩ := OutboxRow.content_inj he
    exact ⟨r', hr', hk.trans hkind, hy.trans hkey, hms.trans hmsg⟩
  · obtain ⟨r, hr, he⟩ := hback hr'
    rw [hfills]
    exact hs.recorded r hr k ((OutboxRow.content_inj he).2.2.1.trans hk)
  · obtain ⟨r, hr, he⟩ := hback hr'
    rw [hfills]
    exact hs.shape r hr f ((OutboxRow.content_inj he).2.2.2.trans hmsg)

end

namespace Link

section
variable {link : Link} {s s' : Ledger} {r : InternalRequest} {row row' : OutboxRow}

theorem Carries.congr (hc : row'.content = row.content) (hr : link.Carries row r) :
    link.Carries row' r := by
  obtain ⟨-, hkind, hkey, hmessage⟩ := OutboxRow.content_inj hc
  unfold Carries
  rwa [hkind, hkey, hmessage]

theorem Authentic.mono (hs : s.contents <+: s'.contents) (hr : link.Authentic s r) :
    link.Authentic s' r := by
  intro htoken hbot hwrite
  obtain ⟨row, hrow, hcarries⟩ := hr htoken hbot hwrite
  obtain ⟨row', hrow', hc⟩ := Ledger.exists_of_contents hs hrow
  exact ⟨row', hrow', hcarries.congr hc⟩

theorem Distinct.mono (hs : s.contents <+: s'.contents) (hd : link.Distinct s') :
    link.Distinct s := by
  intro a ha b hb h
  obtain ⟨a', ha', hac⟩ := Ledger.exists_of_contents hs ha
  obtain ⟨b', hb', hbc⟩ := Ledger.exists_of_contents hs hb
  obtain ⟨-, -, hka, -⟩ := OutboxRow.content_inj hac
  obtain ⟨-, -, hkb, -⟩ := OutboxRow.content_inj hbc
  rw [← hka, ← hkb]
  exact hd a' ha' b' hb' (by rw [hka, hkb, h])

/-- A request id stands for one message: that of the row whose key it is. -/
theorem speaks (hs : Published s) (hd : link.Distinct s) (hrow : row ∈ s.outbox) {e : Endpoint}
    (he : row.kind.endpoint = some e) : Speaks link.api (link.Authentic s) link.engine.bot
      (link.keyText row.key) e row.message := by
  intro r hr htoken hbot hid hend body hbody
  obtain ⟨row', hrow', -, -, hid', hbody'⟩ :=
    hr htoken hbot (hend ▸ OutboxKind.endpoint_write he)
  have hkey : row'.key = row.key := hd _ hrow' _ hrow (hid'.symm.trans hid)
  have hnodup : (s.outbox.map (·.key)).Nodup := List.pairwise_map.2 hs.keys
  obtain rfl := List.inj_on_of_nodup_map hnodup hrow' hrow hkey
  rw [hbody'] at hbody
  cases hbody
  rfl

end

/-! ## What the system keeps -/

section
variable {τ υ ω : Type} [DecidableEq τ] [DecidableEq υ] [DecidableEq ω] {link : Link}
  {app : ApiState} {S S' : Stack τ υ ω} {act : StackAct τ υ ω}

/-- What a program of the engine does to the outbox. -/
def Posting (_ : Label) (s s' : Ledger) : Prop :=
  Grown s s' ∧ (Published s → Published s') ∧ (FillsTold s → FillsTold s')

theorem posting_within {p : Prog Ledger Label Ans PUnit}
    (hp : EngineProgram link.engine (fun _ => True) p) : p.Within Posting :=
  (grown_journal.program hp).and ((published_journal.program hp).and (fillsTold_journal.program hp))

/-- The three parts go by their rules, and the API has been sent nothing but what the outbox holds. -/
structure Wired (link : Link) (app : ApiState) (S : Stack τ υ ω) : Prop where
  core : ∀ i, (S.core.prog i).Within Posting
  dispatch : S.dispatch.Sound telling
  ordered : Ordered S.dispatch.state
  published : Published S.ledger
  fills : FillsTold S.ledger
  api : Pool.Run ((service link.api).Starts (link.Authentic S.ledger)) (fun _ _ => True)
    (Service.idle { app }) S.api

omit [DecidableEq τ] [DecidableEq υ] in
theorem wired_idle : Wired link app (.idle app : Stack τ υ ω) where
  core _ := trivial
  dispatch := Pool.sound_idle _ _
  ordered := .nil
  published := published_empty
  fills := .empty
  api := .refl

omit [DecidableEq υ] in
/-- One step of the engine. -/
theorem Wired.core_step (hS : Wired link app S) {act : Act τ Label Ans} {core : EnginePool τ}
    (hs : Pool.Step (EngineProgram link.engine fun _ => True) S.engine act core) :
    (∀ i, (core.prog i).Within Posting) ∧ Grown S.ledger core.state ∧
      Published core.state ∧ FillsTold core.state :=
  Pool.Run.within (R := Posting) (P := S.engine)
    (I := fun s => Grown S.ledger s ∧ Published s ∧ FillsTold s) posting_within
    (fun hstep h => ⟨h.1.trans hstep.1, hstep.2.1 h.2.1, hstep.2.2 h.2.2⟩) hS.core
    ⟨.of_outbox rfl, hS.published, hS.fills⟩ (Runs.tail (.refl : Runs _ (fun _ _ => True) _ _) trivial hs)

/-- One step: the outbox keeps what its rows say. -/
theorem Wired.step (hS : Wired link app S) (hs : link.Step S act S') :
    Wired link app S' ∧ S.ledger.contents <+: S'.ledger.contents := by
  have hsent {s' : Ledger} (hpre : S.ledger.contents <+: s'.contents) :
      Pool.Run ((service link.api).Starts (link.Authentic s')) (fun _ _ => True)
        (Service.idle { app }) S.api := by
    refine Pool.Run.mono_start (fun p hp => ?_) hS.api
    cases hp with
    | serve r hr => exact .serve r (hr.mono hpre)
    | cleanup => exact .cleanup
  cases hs with
  | @core act core hs =>
    obtain ⟨hcore, hgrown, hpublished, hfills⟩ := hS.core_step hs
    have hordered : Ordered (S.withCore core).dispatch.state := hgrown.ordered hS.ordered
    refine ⟨⟨hcore, ?_, hordered, hpublished, hfills, hsent hgrown.contents⟩, hgrown.contents⟩
    exact hS.dispatch.disturbed OutboxDispatcher.telling_stable (fun _ _ _ _ _ _ _ => trivial)
      fun _ => ⟨hgrown.contents, hordered⟩
  | @dispatch act dispatch hs _ =>
    rcases hS.dispatch.step_cases OutboxDispatcher.telling_stable hS.ordered hs with
      ⟨i, l, -, -, hm, hsound⟩ | ⟨i, q, a, -, hst, -, -, hsound⟩ | ⟨i, p, -, hp, hst, -, hsound⟩
    · have hpre : S.ledger.contents <+: dispatch.state.ledger.contents :=
        hm.contents.symm ▸ List.prefix_rfl
      have hordered := hm.ordered hS.ordered
      exact ⟨⟨hS.core, hsound fun _ _ => ⟨hpre, hordered⟩, hordered, hS.published.marks hm,
        hS.fills.marks hm, hsent hpre⟩, hpre⟩
    · have hpre : S.ledger.contents <+: dispatch.state.ledger.contents := hst ▸ List.prefix_rfl
      have hpublished : Published dispatch.state.ledger := hst ▸ hS.published
      have hfills : FillsTold dispatch.state.ledger := hst ▸ hS.fills
      exact ⟨⟨hS.core, hsound trivial, hst ▸ hS.ordered, hpublished, hfills, hsent hpre⟩, hpre⟩
    · have hpre : S.ledger.contents <+: dispatch.state.ledger.contents := hst ▸ List.prefix_rfl
      have hpublished : Published dispatch.state.ledger := hst ▸ hS.published
      have hfills : FillsTold dispatch.state.ledger := hst ▸ hS.fills
      exact ⟨⟨hS.core, hsound (hp.wp hS.ordered), hst ▸ hS.ordered, hpublished, hfills, hsent hpre⟩,
        hpre⟩
  | @api act api hs => exact ⟨{ hS with api := hS.api.tail trivial hs }, List.prefix_rfl⟩

/-- What has been taken, and what is marked as sent, is in the mirror. -/
structure Carried (link : Link) (S : Stack τ υ ω) : Prop where
  taken : ∀ i row, .call (.post row) (.ok ()) ∈ S.dispatch.hist i →
    Applied link.engine.bot (link.keyText row.key) S.api.state.app row.message
  sent : ∀ r ∈ S.ledger.outbox, r.kind.isCp → r.status = .sent →
    Applied link.engine.bot (link.keyText r.key) S.api.state.app r.message

omit [DecidableEq ω] in
/-- A row whose delivery raises nothing has been accepted. -/
theorem Hears.accepted {api : ApiPool ω} {row : OutboxRow} {a : Except Exn Unit}
    (hh : link.Hears api row a) (ha : a = .ok ()) : ∃ j r x, api.prog j = .done (some (r, x)) ∧
      link.Carries row r ∧ x.status.code < 400 := by
  cases hh with
  | answered text hj hr => exact ⟨_, _, _, hj, hr, ControlPlaneClient.outcome_ok ha⟩
  | lost text => cases ha

omit [DecidableEq τ] [DecidableEq υ] in
/-- A row of the outbox whose delivery raises nothing is in the mirror. -/
theorem Wired.applied (hS : Wired link app S) (hd : link.Distinct S.ledger) {row : OutboxRow}
    (hrow : row.content ∈ S.ledger.contents) (hh : link.Hears S.api row (.ok ())) :
    Applied link.engine.bot (link.keyText row.key) S.api.state.app row.message := by
  obtain ⟨j, r, x, hj, hr, hx⟩ := hh.accepted rfl
  obtain ⟨row', hrow', hc⟩ := List.mem_map.1 hrow
  obtain ⟨-, -, hkey, hmessage⟩ := OutboxRow.content_inj hc
  obtain ⟨hbot, hend, hid, -⟩ := hr.congr hc
  rw [← hkey, ← hmessage]
  have hdoes := does_applied (speaks hS.published hd hrow' hend) (OutboxKind.endpoint_write hend)
  have haccepted : (service link.api).accepted x :=
    decide_eq_true (HttpStatus.code_lt_iff.1.2 (HttpStatus.code_lt_iff.2.1 hx))
  exact Service.accepted_done service_lawful hdoes (fun _ h => (by cases h)) hS.api hj
    (Prod.ext hbot hid) rfl haccepted

theorem Carried.step (hS : Wired link app S) (hC : Carried link S) (hd : link.Distinct S.ledger)
    (hs : link.Step S act S') : Carried link S' := by
  cases hs with
  | @core act core hs =>
    obtain ⟨-, hgrown, -, -⟩ := hS.core_step hs
    obtain ⟨more, hmore, hpending⟩ := hgrown.rows
    refine ⟨hC.taken, fun r hr hcp hsent => ?_⟩
    have hr : r ∈ core.state.outbox := hr
    rw [hmore] at hr
    rcases List.mem_append.1 hr with hr | hr
    · exact hC.sent r hr hcp hsent
    · rw [hpending r hr] at hsent
      cases hsent
  | @dispatch act dispatch hs hheard =>
    rcases hS.dispatch.step_cases OutboxDispatcher.telling_stable hS.ordered hs with
      ⟨i, l, -, hhist, hm, -⟩ | ⟨i, q, a, hact, hst, hhist, hguard, -⟩ | ⟨i, p, -, -, hst, hhist, -⟩
    · refine ⟨fun j row hcall => ?_, fun r hr hcp hsent => ?_⟩
      · change _ ∈ dispatch.hist j at hcall
        rw [hhist] at hcall
        by_cases hj : j = i
        · subst hj
          rw [Function.update_self] at hcall
          exact hC.taken j row ((List.mem_cons.1 hcall).resolve_left nofun)
        · rw [Function.update_of_ne hj] at hcall
          exact hC.taken j row hcall
      · rcases hm.sent r hr hsent with ⟨r₀, hr₀, hc, hsent₀⟩ | htaken
        · obtain ⟨-, hkind, hkey, hmessage⟩ := OutboxRow.content_inj hc
          rw [← hkey, ← hmessage]
          exact hC.sent r₀ hr₀ (hkind ▸ hcp) hsent₀
        · obtain ⟨row, hc, hcall⟩ := htaken hcp
          obtain ⟨-, -, hkey, hmessage⟩ := OutboxRow.content_inj hc
          rw [← hkey, ← hmessage]
          exact hC.taken i row hcall
    · have hledger : dispatch.state.ledger = S.ledger := congrArg OutboxStore.ledger hst
      refine ⟨fun j row hcall => ?_, fun r hr => hC.sent r (hledger ▸ hr)⟩
      change _ ∈ dispatch.hist j at hcall
      rw [hhist] at hcall
      by_cases hj : j = i
      · subst hj
        rw [Function.update_self] at hcall
        rcases List.mem_cons.1 hcall with he | hcall
        · cases he
          exact hS.applied hd (hguard row rfl) (hheard j row _ hact)
        · exact hC.taken j row hcall
      · rw [Function.update_of_ne hj] at hcall
        exact hC.taken j row hcall
    · have hledger : dispatch.state.ledger = S.ledger := congrArg OutboxStore.ledger hst
      refine ⟨fun j row hcall => ?_, fun r hr => hC.sent r (hledger ▸ hr)⟩
      change _ ∈ dispatch.hist j at hcall
      rw [hhist] at hcall
      by_cases hj : j = i
      · subst hj
        rw [Function.update_self] at hcall
        cases hcall
      · rw [Function.update_of_ne hj] at hcall
        exact hC.taken j row hcall
  | @api act api hs =>
    have hkept {requestId : String} {d : OutboxMessage}
        (h : Applied link.engine.bot requestId S.api.state.app d) :
        Applied link.engine.bot requestId api.state.app d :=
      (Service.step_kept service_lawful kept_applied
        (Service.run_kept service_lawful kept_applied hS.api).1 hs).2 h
    exact ⟨fun j row hcall => hkept (hC.taken j row hcall),
      fun r hr hcp hsent => hkept (hC.sent r hr hcp hsent)⟩

/-- A run of the system keeps all of it. -/
theorem wired_of_run (hrun : link.Run (.idle app) S) : Wired link app S :=
  hrun.invariant (fun hS _ hs => (hS.step hs).1) wired_idle

theorem carried_of_run (hrun : link.Run (.idle app) S) (hd : link.Distinct S.ledger) :
    Carried link S := by
  have h : Wired link app S ∧ (link.Distinct S.ledger → Carried link S) := by
    refine hrun.invariant (I := fun S => Wired link app S ∧ (link.Distinct S.ledger → Carried link S))
      ?_ ⟨wired_idle, fun _ => ⟨fun _ _ h => (by cases h), fun _ h => (by cases h)⟩⟩
    rintro S act S' ⟨hS, hC⟩ - hs
    obtain ⟨hS', hpre⟩ := hS.step hs
    exact ⟨hS', fun hd => (hC (hd.mono hpre)).step hS (hd.mono hpre) hs⟩
  exact h.2 hd

omit [DecidableEq τ] [DecidableEq υ] [DecidableEq ω] in
/-- An action leaves of the orders what its message makes of them. -/
theorem record_order? {cols : ColumnLib} {bot requestId : String} {s s' : ApiState}
    {d : OutboxMessage} {x : ResponseBody} (h : record cols bot requestId s d = some (x, s'))
    (b c : String) : s'.mirror.order? b c = Mirror.orderRow cols bot s.mirror b c d := by
  have hdeliver {f : Option Mirror} {y : ResponseBody} (hf : ∀ m, f = some m →
      Mirror.Delivered cols bot d s.mirror m)
      (h : f.map (fun mirror => (y, { s with mirror })) = some (x, s')) :
      s'.mirror.order? b c = Mirror.orderRow cols bot s.mirror b c d := by
    obtain ⟨m, hm, he⟩ := Option.map_eq_some_iff.1 h
    obtain ⟨-, rfl⟩ := Prod.mk.inj he
    exact (hf m hm).orders b c
  cases d with
  | signal | order | position => exact hdeliver (fun _ hm => Mirror.deliver_delivered hm) h
  | event =>
    obtain ⟨-, rfl⟩ := Prod.mk.inj (Option.some.inj h)
    unfold recordEvent
    split <;> rfl
  | reconciliation =>
    obtain ⟨-, rfl⟩ := Prod.mk.inj (Option.some.inj h)
    unfold recordRun
    split <;> rfl
  | fill | telegram => cases h

/-- What the mirror shows of an order of the bot was in a message of the outbox. -/
def Sourced (link : Link) (s : Ledger) (c : String) (a : ApiState) : Prop :=
  ∀ row, a.mirror.order? link.engine.bot c = some row → ∃ r ∈ s.outbox, ∃ o signalId,
    r.message = .order o signalId ∧ o.clientOrderId = c ∧
      row.columns = Mirror.orderColumns link.api.cols o

omit [DecidableEq τ] [DecidableEq υ] [DecidableEq ω] in
/-- A message of the outbox leaves what the mirror shows sourced. -/
theorem Sourced.orderRow {s : Ledger} {c bot : String} {a a' : ApiState} {d : OutboxMessage}
    (ha : link.Sourced s c a) (hd : bot = link.engine.bot → ∃ r ∈ s.outbox, r.message = d)
    (ha' : a'.mirror.order? link.engine.bot c =
      Mirror.orderRow link.api.cols bot a.mirror link.engine.bot c d) : link.Sourced s c a' := by
  intro row hrow
  rw [ha'] at hrow
  cases d with
  | order o signalId =>
    unfold Mirror.orderRow at hrow
    dsimp only at hrow
    split at hrow
    · next hkey =>
      obtain ⟨hbot, rfl⟩ := Prod.mk.inj hkey
      have hrow := Option.some.inj hrow
      unfold Mirror.orderAfter at hrow
      obtain ⟨r, hr, hmsg⟩ := hd hbot
      split at hrow
      · next row₀ hrow₀ =>
        split at hrow
        · exact ha row (hrow ▸ hbot ▸ hrow₀)
        · exact ⟨r, hr, o, signalId, hmsg, rfl, hrow ▸ rfl⟩
      · exact ⟨r, hr, o, signalId, hmsg, rfl, hrow ▸ rfl⟩
    · exact ha row hrow
  | _ => exact ha row hrow

omit [DecidableEq τ] [DecidableEq υ] [DecidableEq ω] in
/-- A valid write of the bot carries a message of the outbox. -/
theorem message_of_authentic {s : Ledger} {r : InternalRequest} {body : ApiBody}
    (hr : link.Authentic s r) (htoken : r.bearerToken = link.api.cfg.internalToken)
    (hb : r.body = some body) (hvalid : valid link.api r body)
    (hbot : r.routeInstance = link.engine.bot) : ∃ row ∈ s.outbox, row.message = body.message := by
  have hend : body.message.endpoint = some r.endpoint :=
    (of_decide_eq_true (Bool.and_eq_true_iff.1 hvalid).1).2
  obtain ⟨row, hrow, -, -, -, hbody⟩ := hr htoken hbot (OutboxMessage.endpoint_write hend)
  rw [hb] at hbody
  exact ⟨row, hrow, (congrArg ApiBody.message (Option.some.inj hbody)).symm⟩

omit [DecidableEq τ] [DecidableEq υ] [DecidableEq ω] in
/-- No action shows anything of an order that was not in the outbox. -/
theorem kept_sourced {s : Ledger} {c : String} :
    (service link.api).Kept (link.Authentic s) (link.Sourced s c) := by
  rintro r - hr ⟨htoken, -⟩
  refine handler_within (fun _ _ h => h) ?_ ?_
  · exact fun body hb hvalid t x app h ha =>
      ha.orderRow (message_of_authentic hr htoken hb hvalid) (record_order? h link.engine.bot c)
  · intro body hb hvalid f hf order t ha row hrow
    refine ha row ?_
    rwa [Mirror.order?, insertFill_frame.2.1] at hrow

omit [DecidableEq τ] [DecidableEq υ] in
/-- The mirror shows an order whose newest message is sent. -/
theorem Wired.order_shown (hS : Wired link app S) (hC : Carried link S) {o : Order}
    (ho : o ∈ S.ledger.orders.rows) (happ : app.mirror.order? link.engine.bot o.clientOrderId = none)
    {row : OutboxRow} (hrow : row ∈ S.ledger.outbox)
    (hkey : row.key = .order o.clientOrderId o.version) (hsent : row.status = .sent) :
    (S.api.state.app.mirror.order? link.engine.bot o.clientOrderId).map (·.columns) =
      some (Mirror.orderColumns link.api.cols o) := by
  have hnodup : (S.ledger.outbox.map (·.key)).Nodup := List.pairwise_map.2 hS.published.keys
  obtain ⟨row', hrow', hkind, hkey', hmsg⟩ := hS.published.newest o ho nofun
  obtain rfl := List.inj_on_of_nodup_map hnodup hrow' hrow (hkey'.trans hkey.symm)
  have hcp : row'.kind.isCp := by
    rw [hkind]
    rfl
  obtain ⟨shown, hshown, hversion⟩ : ∃ shown,
      S.api.state.app.mirror.order? link.engine.bot o.clientOrderId = some shown ∧
        o.version ≤ shown.columns.engineVersion := by
    have h := hC.sent row' hrow hcp hsent
    rwa [hmsg] at h
  have hsourced : link.Sourced S.ledger o.clientOrderId app := fun row h => by
    rw [happ] at h
    cases h
  obtain ⟨r, hr, x, signalId, hx, hc, hcolumns⟩ :=
    (Service.run_kept service_lawful kept_sourced hS.api).2 hsourced shown hshown
  -- the message shown is about the current version, so it is the message of `row'`
  have hxkey := hS.published.shape r hr x signalId hx
  obtain ⟨y, hy, hyc, hle⟩ := hS.published.past r hr _ _ hxkey
  obtain rfl := Ledger.eq_of_clientOrderId hy ho (hyc.trans hc)
  have hxv : x.version = y.version := le_antisymm hle (by rwa [hcolumns] at hversion)
  rw [hc, hxv, ← hkey'] at hxkey
  obtain rfl := List.inj_on_of_nodup_map hnodup hr hrow' hxkey
  rw [hx] at hmsg
  cases hmsg
  rw [hshown, Option.map_some, hcolumns]

/-- In every run of the system: when the message with the current version of an order is marked as
sent, the mirror shows the order as it is stored in the ledger of the engine. -/
theorem mirror_current (hrun : link.Run (.idle app) S) (hd : link.Distinct S.ledger) {o : Order}
    (ho : o ∈ S.ledger.orders.rows) (happ : app.mirror.order? link.engine.bot o.clientOrderId = none)
    {row : OutboxRow} (hrow : row ∈ S.ledger.outbox)
    (hkey : row.key = .order o.clientOrderId o.version) (hsent : row.status = .sent) :
    (S.api.state.app.mirror.order? link.engine.bot o.clientOrderId).map (·.columns) =
      some (Mirror.orderColumns link.api.cols o) :=
  (wired_of_run hrun).order_shown (carried_of_run hrun hd) ho happ hrow hkey hsent

end

/-! ## Scheduled runs -/

section
variable {τ υ ω : Type} [DecidableEq τ] [DecidableEq υ] [DecidableEq ω] {link : Link}
  {S : Stack τ υ ω}

/-- The engine runs for a while. -/
theorem run_core {core : EnginePool τ} (hS : S.core.state = S.ledger)
    (hrun : Pool.Run (EngineProgram link.engine fun _ => True) (fun _ _ => True) S.core core) :
    link.Run S (S.withCore core) := by
  induction hrun with
  | refl =>
    have hself : S.withCore S.core = S := by
      rw [Stack.withCore, hS]
      rfl
    rw [hself]
    exact .refl
  | tail _ h ih =>
    obtain ⟨act, -, hs⟩ := h
    exact ih.tail trivial (.core hs)

/-- The dispatchers run for a while. -/
theorem run_dispatch {dispatch : DispatchPool υ}
    (hrun : Pool.Run FlushProgram (fun _ => link.Heard S.api) S.dispatch dispatch) :
    link.Run S { S with dispatch } := by
  induction hrun with
  | refl => exact .refl
  | tail _ h ih =>
    obtain ⟨act, hheard, hs⟩ := h
    exact ih.tail trivial (.dispatch hs hheard)

/-- The API runs for a while. -/
theorem run_api {api : ApiPool ω}
    (hrun : Pool.Run ((service link.api).Starts (link.Authentic S.ledger)) (fun _ _ => True) S.api
      api) : link.Run S { S with api } := by
  induction hrun with
  | refl => exact .refl
  | tail _ h ih =>
    obtain ⟨act, -, hs⟩ := h
    exact ih.tail trivial (.api hs)

end

/-! ## Deliveries of a sample bot -/

def sampleKeyText : OutboxKey → String
  | .order c v => s!"order:{c}:v{v}"
  | .fill k => "fill:" ++ k
  | .positionFill symbol k => "position:" ++ symbol.text ++ ":fill:" ++ k
  | .positionRecon symbol k => "position:" ++ symbol.text ++ ":recon:" ++ k.nonce
  | .recon k => "recon:" ++ k.nonce
  | .signal id => "signal:" ++ id.candleTs
  | _ => "another"

def sampleLink : Link := ⟨sampleConfig, sampleSetup, sampleKeyText⟩

def sampleApp : ApiState := { bots := ["default"] }

/-- A clean reconciliation, and a cycle up to the call that sends an entry. -/
def enteredCore : EnginePool Unit :=
  let P := ((Pool.idle {}).restart () (ReconciliationService.run sampleConfig "startup"
    false).run.forget).go (exchangeEnv (listing (.ok []))) () 100
  (P.restart () (TradingCycle.runOnce sampleConfig).run.forget).go
    (exchangeEnv (marketAnswers .buy (listing (.ok [])))) () 27

theorem run_enteredCore : Pool.Run (EngineProgram sampleConfig fun _ => True) (fun _ _ => True)
    (Pool.idle {}) enteredCore :=
  (Pool.run_restart () (.run _ _) trivial).trans <| (Pool.run_go_any _ _ _ _).trans <|
    (Pool.run_restart () .runOnce trivial).trans <| Pool.run_go_any _ _ _ _

/-- The first events of a flush. -/
def flushFrom (answer : OutboxRow → Except Exn Unit) (n : Nat) (S : Stack Unit Unit Unit) :
    Stack Unit Unit Unit where
  core := S.core
  dispatch := (S.dispatch.restart () (OutboxDispatcher.flush OutboxDispatcher.tradingDispatcher
    200).run.forget).go (OutboxDispatcher.dispatchEnv (seconds 1735689600) answer) () n
  api := S.api

def lost : OutboxRow → Except Exn Unit := fun _ => .error (ControlPlaneClient.unavailable "timed out")

/-- A flush whose requests get lost is a run, whatever it sends. -/
theorem run_flushFrom {link : Link} {n : Nat} {S : Stack Unit Unit Unit} :
    link.Run S (flushFrom lost n S) := by
  refine run_dispatch ((Pool.run_restart () (.flush _ _) fun _ _ _ h => (by cases h)).trans
    (Pool.run_go_answered _ _ (fun _ _ _ _ _ h => (by cases h)) (fun P q _ => ?_) n ?_))
  · rintro _ row _ ⟨⟩
    exact .lost _
  · dsimp only [Pool.restart]
    rw [Function.update_self]
    exact trivial

/-- The row that the dispatcher is about to hand over. -/
def posting (S : Stack Unit Unit Unit) : OutboxRow :=
  match S.dispatch.prog () with
  | .call (.post row) _ => row
  | _ => OutboxDispatcher.eventRow 1

def requestOf (requestId : String) (row : OutboxRow) : InternalRequest where
  routeInstance := "default"
  endpoint := row.kind.endpoint.getD .control
  bearerToken := sampleSetup.cfg.internalToken
  botInstance := "default"
  timestamp := "0"
  requestId := requestId
  body := some ⟨"default", row.message⟩

def takenEnv : Prog.Env OutboxDispatcher.Label OutboxDispatcher.Ans :=
  OutboxDispatcher.dispatchEnv (seconds 1735689600) fun _ => .ok ()

/-- The row goes out under its request id, the API answers, and the dispatcher hears it. -/
def deliver (requestId : String) (S : Stack Unit Unit Unit) : Stack Unit Unit Unit where
  core := S.core
  dispatch := S.dispatch.go takenEnv () 4
  api := (S.api.restart () ((service sampleSetup).serve (requestOf requestId (posting S)))).go
    smoothEnv () 20

/-- What a dispatcher hands over is the row, and it hears that it is taken. -/
def posts (row : OutboxRow) : Act Unit OutboxDispatcher.Label OutboxDispatcher.Ans → Bool
  | .event _ (.call (.post r) (.ok _)) => decide (r.content = row.content)
  | .event _ (.call (.post _) (.error _)) => false
  | _ => true

/-- The row is of the outbox, the request carries it, and it is answered with success. -/
def delivers (requestId : String) (S : Stack Unit Unit Unit) : Bool :=
  let row := posting S
  decide (row ∈ S.ledger.outbox ∧ row.kind.endpoint.isSome ∧ requestId = sampleKeyText row.key) &&
    decide (((deliver requestId S).api.prog ()).result?.map (Option.map fun p => (p.1, p.2.status)) =
      some (some (requestOf requestId row, .ok))) &&
    (S.dispatch.scheduled takenEnv () 4).all fun x => posts row x.2

theorem run_deliver {requestId : String} {S : Stack Unit Unit Unit} (h : delivers requestId S) :
    sampleLink.Run S (deliver requestId S) := by
  obtain ⟨h, hposts⟩ := Bool.and_eq_true_iff.1 h
  obtain ⟨hrow, hanswer⟩ := Bool.and_eq_true_iff.1 h
  obtain ⟨hmem, hendpoint, hid⟩ := of_decide_eq_true hrow
  obtain ⟨e, he⟩ := Option.isSome_iff_exists.1 hendpoint
  have hcarries : sampleLink.Carries (posting S) (requestOf requestId (posting S)) := by
    refine ⟨rfl, ?_, hid, rfl⟩
    change _ = some ((posting S).kind.endpoint.getD .control)
    rw [he, Option.getD_some]
  obtain ⟨a, ha, hmap⟩ := Option.map_eq_some_iff.1 (of_decide_eq_true hanswer)
  obtain ⟨⟨r, x⟩, rfl, hx⟩ := Option.map_eq_some_iff.1 hmap
  obtain ⟨rfl, hstatus⟩ := Prod.mk.inj hx
  refine (run_api (S := S) ?_).trans (run_dispatch (S := { S with api := (deliver requestId S).api })
    (Pool.run_go_of_scheduled _ _ _ fun y hy => ?_))
  · exact (Pool.run_restart () (.serve _ fun _ _ _ => ⟨_, hmem, hcarries⟩) trivial).trans
      (Pool.run_go_any _ _ _ _)
  · have hpost := List.all_eq_true.1 hposts y hy
    rintro i row a hact
    rw [hact] at hpost
    cases a with
    | error => cases hpost
    | ok =>
      have hok : ControlPlaneClient.outcome "" x = .ok () := by
        unfold ControlPlaneClient.outcome
        rw [hstatus]
        rfl
      exact hok ▸ .answered "" (Prog.eq_done_of_result? ha) (hcarries.congr (of_decide_eq_true hpost))

/-- The messages before that of the order are put off. -/
def offering : Stack Unit Unit Unit :=
  flushFrom lost 6 (flushFrom lost 40 (flushFrom lost 40 (flushFrom lost 40
    ((Stack.idle sampleApp).withCore enteredCore))))

/-- The order is delivered. -/
def sentStack : Stack Unit Unit Unit :=
  deliver "order:cb1-721ab8c17c89f1c57c2a438c5f7c3913:v1" offering

theorem run_sentStack : sampleLink.Run (Stack.idle sampleApp) sentStack :=
  (run_core rfl run_enteredCore).trans <| run_flushFrom.trans <| run_flushFrom.trans <|
    run_flushFrom.trans <| run_flushFrom.trans (run_deliver (by decide +kernel))

instance {link : Link} {s : Ledger} : Decidable (link.Distinct s) := by
  unfold Distinct; infer_instance

/-- The row of the order, as it is after the flush. -/
def sentRow : OutboxRow :=
  (sentStack.ledger.outbox.find? fun r => decide (r.kind = .orders)).getD (OutboxDispatcher.eventRow 1)

def sentOrder : Order := (sentStack.ledger.orders.rows.head?).getD (sampleRow sampleEntry .buy 1 "4711")

theorem sentRow_facts : sentRow ∈ sentStack.ledger.outbox ∧ sentRow.kind.isCp ∧
    sentRow.status = .sent ∧ sentRow.key = .order sentOrder.clientOrderId sentOrder.version ∧
    sentOrder ∈ sentStack.ledger.orders.rows ∧ sampleLink.Distinct sentStack.ledger := by
  decide +kernel

/-- The mirror shows the order that was sent. -/
theorem sentOrder_current :
    (sentStack.api.state.app.mirror.order? "default" sentOrder.clientOrderId).map (·.columns) =
      some (Mirror.orderColumns sampleSetup.cols sentOrder) :=
  @mirror_current Unit Unit Unit _ _ _ sampleLink sampleApp sentStack run_sentStack
    sentRow_facts.2.2.2.2.2 sentOrder sentRow_facts.2.2.2.2.1 rfl sentRow sentRow_facts.1
    sentRow_facts.2.2.2.1 sentRow_facts.2.2.1

end Link

end CryptoBot
