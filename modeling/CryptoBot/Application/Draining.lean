import CryptoBot.Application.Dispatch
import CryptoBot.Lib.Disturbed

/-!
# The outbox after an outage

While the services are away, deliveries fail, rows are delayed and some are given up, and whatever
the dispatchers do in that time, the outbox stays fit to be delivered: no row waits for more than
512 seconds, nobody holds the lease for more than a minute, and a dead row was rejected or tried as
often as it may be. Once deliveries are taken again, the flushes of one worker's loop send everything that
was not given up, each row once and in the order of the ids, while the engine goes on enqueueing.
-/

namespace CryptoBot

open Lib

namespace OutboxDispatcher

open OutboxStore

/-! ## The worker's loop -/

/-- The flushes of `n` rounds of a worker's `main`, which logs what a flush raises and goes on. -/
def flushes (d : Dispatcher) (limit : Nat) : Nat → Dispatch Unit
  | 0 => pure ()
  | n + 1 => do
    let _ ← (flush d limit).attempt
    flushes d limit n

/-! ## What is given up -/

/-- The row whose delivery an event says has failed, and with what. -/
def failure : Event Label Ans → Option (OutboxRow × Exn)
  | .call (.post row) (.error exc) | .call (.send row) (.error exc) => some (row, exc)
  | _ => none

/-- A delivery of the row has failed, and it was rejected or the row has been tried `M` times. -/
def GivenUp (M : Nat) (es : History Label Ans) (r : OutboxRow) : Prop :=
  ∃ e ∈ es, ∃ row exc, failure e = some (row, exc) ∧ row.id = r.id ∧
    (isRejected exc ∨ M ≤ r.attempts)

theorem GivenUp.mono {M : Nat} {es es' : History Label Ans} {r : OutboxRow} (h : es ⊆ es')
    (hr : GivenUp M es r) : GivenUp M es' r := by
  obtain ⟨e, he, hr⟩ := hr
  exact ⟨e, h he, hr⟩

/-! ## The outage -/

/-- No attempt is put off by more than 512 seconds: the cap of 600 is never reached. -/
theorem delay_le (attempts : Nat) : delay attempts ≤ 512 := by
  have h : (2 : Int) ^ min attempts 9 ≤ 2 ^ 9 :=
    pow_le_pow_right₀ (by norm_num) (Nat.min_le_right _ _)
  exact (min_le_right _ _).trans (h.trans (by norm_num))

/-- By the time `T` no row waits for longer than a failure at `T` makes it wait, and no lease lasts
longer than one taken at `T`. -/
structure Within (T : Time) (s : OutboxStore) : Prop where
  rows : ∀ r ∈ s.rows, r.nextAttemptAt ≤ T + seconds 512
  lease : ∀ l, s.leases leaseName = some l → l.expiresAt ≤ T + seconds leaseTtlSeconds

/-- What any process may do to the outbox while another one holds a list of its rows. -/
structure Steady (T : Time) (s s' : OutboxStore) : Prop where
  ordered : Ordered s'
  within : Within T s → Within T s'
  aged : ∀ r ∈ s.rows, ∃ r' ∈ s'.rows, r'.id = r.id ∧ r.attempts ≤ r'.attempts

theorem Steady.refl {T : Time} {s : OutboxStore} (hs : Ordered s) : Steady T s s :=
  ⟨hs, id, fun r hr => ⟨r, hr, rfl, le_rfl⟩⟩

theorem Steady.trans {T : Time} {s s' s'' : OutboxStore} (h : Steady T s s')
    (h' : Steady T s' s'') : Steady T s s'' := by
  refine ⟨h'.ordered, h'.within ∘ h.within, fun r hr => ?_⟩
  obtain ⟨r', hr', hid, hle⟩ := h.aged r hr
  obtain ⟨r'', hr'', hid', hle'⟩ := h'.aged r' hr'
  exact ⟨r'', hr'', hid'.trans hid, hle.trans hle'⟩

/-- Under this contract a process knows of the clock only that it does not pass `T`, and kills a row
only when it is given up. -/
def outage (T : Time) (M : Nat) : Contract OutboxStore Label Ans where
  rely _ s s' := Steady T s s'
  ans _ q _ a := match q, a with
    | .now, t => t ≤ T
    | .post _, _ | .send _, _ => True
  step h _ s s' := Steady T s s' ∧
    ∀ r ∈ s'.rows, r.status = .dead → r ∈ s.rows ∨ GivenUp M h r
  guard _ _ _ := True

section
variable {T : Time} {M : Nat} {s s' : OutboxStore} {h : History Label Ans}

theorem outage_stable : (outage T M).Stable Ordered where
  refl _ _ hs := .refl hs
  trans := Steady.trans

/-- A step that leaves the rows, and leases no longer than one taken at `T`. -/
theorem outage_step_of_rows {l : Label} (hs : Ordered s) (hrows : s'.rows = s.rows)
    (hlease : Within T s → ∀ l, s'.leases leaseName = some l →
      l.expiresAt ≤ T + seconds leaseTtlSeconds) : (outage T M).step h l s s' := by
  refine ⟨⟨?_, fun hw => ⟨fun r hr => hw.rows r (hrows ▸ hr), hlease hw⟩, fun r hr => ?_⟩,
    fun r hr _ => .inl (hrows ▸ hr)⟩
  · rw [Ordered, hrows]
    exact hs
  · exact ⟨r, hrows ▸ hr, rfl, le_rfl⟩

theorem seconds_mono {a b : Int} (h : a ≤ b) : seconds a ≤ seconds b := by
  unfold seconds
  omega

/-- A statement that changes one row, which it leaves alive, or kills because it is given up. -/
theorem outage_step_update {l : Label} {id : Nat} {f : OutboxRow → OutboxRow} (hs : Ordered s)
    (hid : ∀ r, (f r).id = r.id) (hage : ∀ r, r.attempts ≤ (f r).attempts)
    (hnext : ∀ r, r.nextAttemptAt ≤ T + seconds 512 → (f r).nextAttemptAt ≤ T + seconds 512)
    (hdead : ∀ r ∈ s.rows, r.id = id → (f r).status = .dead → GivenUp M h (f r)) :
    (outage T M).step h l s (s.setRows (s.rows.map fun r => if r.id = id then f r else r)) := by
  refine ⟨⟨ordered_update hid hs, fun hw => ⟨fun r hr => ?_, hw.lease⟩, fun r hr => ?_⟩,
    fun r hr hstatus => ?_⟩
  · rcases mem_update.1 hr with ⟨x, hx, -, rfl⟩ | ⟨hr, -⟩
    · exact hnext x (hw.rows x hx)
    · exact hw.rows r hr
  · by_cases hr' : r.id = id
    · exact ⟨f r, mem_update.2 (.inl ⟨r, hr, hr', rfl⟩), hid r, hage r⟩
    · exact ⟨r, mem_update.2 (.inr ⟨hr, hr'⟩), rfl, le_rfl⟩
  · rcases mem_update.1 hr with ⟨x, hx, hxid, rfl⟩ | ⟨hr, -⟩
    · exact .inr (hdead x hx hxid hstatus)
    · exact .inl hr

/-- Who asks for a lease is turned down while another owner's lasts, or has it from now on. -/
theorem acquireLease_cases (name owner : String) (ttl : Int) (now : Time) (s : OutboxStore) :
    ((s.acquireLease name owner ttl now).1 = false ∧ (s.acquireLease name owner ttl now).2 = s ∧
      ∃ l, s.leases name = some l ∧ l.owner ≠ owner ∧ now < l.expiresAt) ∨
    (s.acquireLease name owner ttl now).1 = true ∧
      (s.acquireLease name owner ttl now).2.leases name = some ⟨owner, now + seconds ttl⟩ := by
  unfold acquireLease
  split
  · next l hl =>
    split
    · next h => exact .inl ⟨rfl, rfl, l, hl, h⟩
    · exact .inr ⟨rfl, Function.update_self ..⟩
  · exact .inr ⟨rfl, Function.update_self ..⟩

/-- Renewing the lease. -/
theorem outage_acquire {d : Dispatcher}
    {Φ : Except Exn Bool → History Label Ans → OutboxStore → Prop}
    (hΦ : ∀ b h' s', Steady T s s' → Φ (.ok b) h' s') :
    Proc.wp (outage T M) (acquire d) Φ h s := by
  refine (Proc.wp_bind _ _ _ _ _).2 fun s₁ hr => ⟨trivial, fun now hnow s₂ hr' => ?_⟩
  have hstep : ∀ h, (outage T M).step h .lease s₂
      (s₂.acquireLease leaseName d.owner leaseTtlSeconds now).2 := by
    refine fun h => outage_step_of_rows hr'.ordered acquireLease_rows fun hw l hl => ?_
    obtain ⟨-, heq, -⟩ | ⟨-, hlease⟩ := acquireLease_cases leaseName d.owner leaseTtlSeconds now s₂
    · exact hw.lease l (heq ▸ hl)
    · obtain rfl := Option.some.inj (hlease.symm.trans hl)
      exact Int.add_le_add_right (hnow : now ≤ T) _
  exact ⟨hstep _, hΦ _ _ _ ((hr.trans hr').trans (hstep []).1)⟩

/-- Handing a row over: what fails is in the history. -/
theorem outage_deliver {d : Dispatcher} {row : OutboxRow}
    {Φ : Except Exn (Except Exn Unit) → History Label Ans → OutboxStore → Prop} (hs : Ordered s)
    (hok : ∀ h' s', Steady T s s' → Φ (.ok (.ok ())) h' s')
    (herror : ∀ exc e h' s', Steady T s s' → e ∈ h' → failure e = some (row, exc) →
      Φ (.ok (.error exc)) h' s') :
    Proc.wp (outage T M) (deliver d row).attempt Φ h s := by
  refine (Proc.wp_attempt _ _ _ _).2 ?_
  unfold OutboxDispatcher.deliver
  split
  · refine fun s₁ hr => ⟨trivial, fun a _ => ?_⟩
    cases a with
    | ok => exact hok _ _ hr
    | error exc => exact herror exc _ _ _ hr (.head _) rfl
  · split
    · refine fun s₁ hr => ⟨trivial, fun a _ => ?_⟩
      cases a with
      | ok => exact hok _ _ hr
      | error exc => exact herror exc _ _ _ hr (.head _) rfl
    · exact hok _ _ (.refl hs)

/-- What a flush knows of a row it has read: the row is still there, and has not been tried less. -/
def Aged (row : OutboxRow) (s : OutboxStore) : Prop :=
  ∃ r ∈ s.rows, r.id = row.id ∧ row.attempts ≤ r.attempts

theorem Aged.steady {row : OutboxRow} (hrow : Aged row s) (hs : Steady T s s') : Aged row s' := by
  obtain ⟨r, hr, hid, hle⟩ := hrow
  obtain ⟨r', hr', hid', hle'⟩ := hs.aged r hr
  exact ⟨r', hr', hid'.trans hid, hle.trans hle'⟩

/-- Marking the row whose delivery has just failed. -/
theorem outage_failed {row : OutboxRow} {exc : Exn} {e : Event Label Ans} {t : Time} {dead : Bool}
    {l : Label} (hs : Ordered s) (he : e ∈ h) (hfailed : failure e = some (row, exc))
    (ht : t ≤ T + seconds 512) (hrow : Aged row s)
    (hdead : dead → isRejected exc ∨ M ≤ row.attempts + 1) :
    (outage T M).step h l s (s.markOutboxFailed row.id t dead) := by
  refine outage_step_update hs (fun _ => rfl) (fun r => Nat.le_succ _) (fun _ _ => ht) ?_
  intro r hr hid hstatus
  have hd : dead := by
    cases dead with
    | true => rfl
    | false => cases hstatus
  obtain ⟨r', hr', hid', hle⟩ := hrow
  obtain rfl := hs.eq_of_id hr hr' (hid.trans hid'.symm)
  exact ⟨e, he, row, exc, hfailed, hid.symm, (hdead hd).imp_right fun hM =>
    hM.trans (Nat.succ_le_succ hle)⟩

/-- The rows of a flush. -/
theorem outage_flushRows {d : Dispatcher} {rows : List OutboxRow} {n : Nat} (hd : M ≤ d.maxAttempts)
    (hs : Ordered s) (hrows : ∀ row ∈ rows, Aged row s) :
    Proc.wp (outage T M) (flushRows d rows n) (fun _ _ _ => True) h s := by
  induction rows generalizing n h s with
  | nil => exact trivial
  | cons row rows ih =>
    have hrest {s'} (hsteady : Steady T s s') : ∀ row ∈ rows, Aged row s' :=
      fun r hr => (hrows r (.tail _ hr)).steady hsteady
    refine (Proc.wp_bind _ _ _ _ _).2 (outage_acquire fun b h₁ s₁ hs₁ => ?_)
    cases b with
    | false => exact trivial
    | true =>
      refine (Proc.wp_bind _ _ _ _ _).2 (outage_deliver hs₁.ordered (fun h₂ s₂ hs₂ => ?_) ?_)
      · refine (Proc.wp_bind _ _ _ _ _).2 fun s₃ hs₃ => ?_
        have hstep : (outage T M).step h₂ (.sent row.id) s₃ (s₃.markOutboxSent row.id) :=
          outage_step_update hs₃.ordered (fun _ => rfl) (fun _ => le_rfl) (fun _ h => h)
            fun _ _ _ hdead => (by cases hdead)
        exact ⟨hstep, ih hstep.1.ordered (hrest (((hs₁.trans hs₂).trans hs₃).trans hstep.1))⟩
      · intro exc e h₂ s₂ hs₂ he hfailed
        have hfailed (t : Time) (dead : Bool) (ht : t ≤ T + seconds 512)
            (hdead : dead → isRejected exc ∨ M ≤ row.attempts + 1) {s₃ s₄ h₃} (hs₃ : Steady T s₂ s₃)
            (hs₄ : Steady T s₃ s₄) (hh : h₂ ⊆ h₃) :
            (outage T M).step h₃ (.failed row.id) s₄ (s₄.markOutboxFailed row.id t dead) ∧
              ∀ r ∈ rows, Aged r (s₄.markOutboxFailed row.id t dead) := by
          have hs' := ((hs₁.trans hs₂).trans hs₃).trans hs₄
          have hstep : (outage T M).step h₃ (.failed row.id) s₄
              (s₄.markOutboxFailed row.id t dead) :=
            outage_failed hs₄.ordered (hh he) hfailed ht ((hrows row (.head _)).steady hs') hdead
          exact ⟨hstep, hrest (hs'.trans hstep.1)⟩
        dsimp only
        split
        · next hrej =>
          refine (Proc.wp_bind _ _ _ _ _).2 fun s₃ hs₃ => ⟨trivial, fun now hnow => ?_⟩
          refine (Proc.wp_bind _ _ _ _ _).2 fun s₄ hs₄ => ?_
          obtain ⟨hstep, haged⟩ := hfailed now true (le_add_of_le_of_nonneg hnow (by decide))
            (fun _ => .inl hrej) hs₃ hs₄ (List.subset_cons_self _ _)
          exact ⟨hstep, ih hstep.1.ordered haged⟩
        · refine (Proc.wp_bind _ _ _ _ _).2 fun s₃ hs₃ => ⟨trivial, fun now hnow => ?_⟩
          refine (Proc.wp_bind _ _ _ _ _).2 fun s₄ hs₄ => ?_
          obtain ⟨hstep, haged⟩ := hfailed (now + seconds (delay (row.attempts + 1)))
            (decide (d.maxAttempts ≤ row.attempts + 1))
            (Int.add_le_add (hnow : now ≤ T) (seconds_mono (delay_le _)))
            (fun hdead => .inr (hd.trans (of_decide_eq_true hdead))) hs₃ hs₄
            (List.subset_cons_self _ _)
          refine ⟨hstep, ?_⟩
          dsimp only
          split
          · exact trivial
          · exact ih hstep.1.ordered haged

/-- A transaction that leaves a message. -/
theorem outage_enqueue {kind : OutboxKind} {key : OutboxKey} {message : OutboxMessage} {now : Time}
    {ledger : Ledger} {l : Label} (hs : Ordered s) (hnow : now ≤ T)
    (henq : Store.enqueue kind key message now s.ledger = .ok (⟨⟩, ledger)) :
    (outage T M).step h l s { s with ledger } := by
  obtain ⟨hordered, -⟩ := enqueue_rows hs henq
  unfold Store.enqueue at henq
  split at henq
  · cases henq
    exact ⟨.refl hs, fun r hr _ => .inl hr⟩
  · cases henq
    refine ⟨⟨hordered, fun hw => ⟨fun r hr => ?_, hw.lease⟩, fun r hr => ?_⟩, fun r hr hdead => ?_⟩
    · rcases List.mem_append.1 hr with hr | hr
      · exact hw.rows r hr
      · rw [List.mem_singleton.1 hr]
        exact le_add_of_le_of_nonneg hnow (by decide)
    · exact ⟨r, List.mem_append_left _ hr, rfl, le_rfl⟩
    · rcases List.mem_append.1 hr with hr | hr
      · exact .inl hr
      · rw [List.mem_singleton.1 hr] at hdead
        cases hdead

/-- The programs of the outage: flushes of dispatchers that try a row at least `M` times, and
transactions that leave a message. -/
inductive Programs (T : Time) (M : Nat) : Prog OutboxStore Label Ans PUnit → Prop
  | flush (d : Dispatcher) (limit : Nat) (hd : M ≤ d.maxAttempts) :
      Programs T M (OutboxDispatcher.flush d limit).run.forget
  | enqueue (kind : OutboxKind) (key : OutboxKey) (message : OutboxMessage) (now : Time)
      (hnow : now ≤ T) : Programs T M (OutboxDispatcher.enqueue kind key message now).run.forget

theorem outage_programs {p : Prog OutboxStore Label Ans PUnit} (hp : Programs T M p) :
    p.wp (outage T M) (fun _ _ _ => True) h s := by
  cases hp with
  | flush d limit hd =>
    refine Prog.wp_forget (Φ := fun _ _ _ => True) ?_
    refine (Proc.wp_bind _ _ _ _ _).2 (outage_acquire fun b h₁ s₁ hs₁ => ?_)
    cases b with
    | false => exact trivial
    | true =>
      refine (Proc.wp_bind _ _ _ _ _).2 fun s₂ hs₂ => ⟨trivial, fun now hnow => ?_⟩
      refine (Proc.wp_bind _ _ _ _ _).2 fun s₃ hs₃ => ?_
      refine ⟨⟨.refl hs₃.ordered, fun r hr _ => .inl hr⟩, ?_⟩
      exact outage_flushRows hd hs₃.ordered fun row hrow =>
        ⟨row, (mem_of_pendingOutbox hs₃.ordered hrow).1, rfl, le_rfl⟩
  | enqueue kind key message now hnow =>
    refine Prog.wp_forget (Φ := fun _ _ _ => True) fun s₁ hs₁ => ?_
    dsimp only
    split
    · next u ledger henq => exact ⟨outage_enqueue hs₁.ordered hnow henq, trivial⟩
    · exact ⟨⟨.refl hs₁.ordered, fun r hr _ => .inl hr⟩, trivial⟩

/-- By the time `T`: no process reads a later time off its clock. -/
def Until {τ : Type} (T : Time) (_ : Pool τ OutboxStore Label Ans) : Act τ Label Ans → Prop
  | .event _ (.call .now t) => t ≤ T
  | _ => True

/-- What an outage up to the time `T` leaves of the outbox. -/
theorem outage_run {τ : Type} [DecidableEq τ] {s₀ : OutboxStore} {P : Pool τ OutboxStore Label Ans}
    (hs₀ : Ordered s₀) (hw : Within T s₀)
    (hrun : Pool.Run (Programs T M) (Until T) (.idle s₀) P) :
    Ordered P.state ∧ Within T P.state ∧ ∀ r ∈ P.state.rows, r.status = .dead →
      r ∈ s₀.rows ∨ GivenUp M (Pool.events P.trace) r := by
  refine (Pool.Run.sound (J := fun h s => Within T s ∧ ∀ r ∈ s.rows, r.status = .dead →
    r ∈ s₀.rows ∨ GivenUp M h r) outage_stable (fun hstep => hstep.1.ordered)
    (fun hstep _ => hstep.1) (fun hp _ _ => outage_programs hp) ?_ ?_ ?_ hs₀
    ⟨hw, fun r hr _ => .inl hr⟩ hrun).2
  · intro P i q a hok
    cases q with
    | now => exact hok
    | post | send => exact trivial
  · exact fun hh ⟨hw, hdead⟩ => ⟨hw, fun r hr hd => (hdead r hr hd).imp_right (.mono hh)⟩
  · rintro h h' l s s' hh ⟨hsteady, hnew⟩ ⟨hw, hdead⟩
    refine ⟨hsteady.within hw, fun r hr hd => ?_⟩
    rcases hnew r hr hd with hr | hr
    · exact hdead r hr hd
    · exact .inr (hr.mono hh)

end

/-! ## Deliveries are taken -/

/-- Every delivery is taken, and the clock has passed `T`. -/
def TakenSince (T : Time) (_ : History Label Ans) : (q : Req) → OutboxStore → Ans q → Prop
  | .now, _, t => T ≤ t
  | .post _, _, x | .send _, _, x => x = .ok ()

/-- What the engine does beside the dispatcher: it leaves messages. -/
def Appends (s s' : OutboxStore) : Prop := Ordered s' ∧ Extends s s' ∧ s'.leases = s.leases

/-- The contract of the dispatcher that delivers. -/
def taking (T : Time) : Contract OutboxStore Label Ans where
  rely _ s s' := Appends s s'
  ans h q s a := TakenSince T h q s a
  step _ _ _ s' := Ordered s'
  guard _ _ _ := True

theorem Extends.rfl {s : OutboxStore} : Extends s s := ⟨[], (List.append_nil _).symm⟩

theorem Extends.trans {s s' s'' : OutboxStore} (h : Extends s s') (h' : Extends s' s'') :
    Extends s s'' := by
  obtain ⟨more, h⟩ := h
  obtain ⟨more', h'⟩ := h'
  exact ⟨more ++ more', by rw [h', h, List.append_assoc]⟩

theorem Appends.trans {s s' s'' : OutboxStore} (h : Appends s s') (h' : Appends s' s'') :
    Appends s s'' := ⟨h'.1, h.2.1.trans h'.2.1, h'.2.2.trans h.2.2⟩

theorem Appends.refl {s : OutboxStore} (hs : Ordered s) : Appends s s := ⟨hs, .rfl, rfl⟩

theorem taking_stable {T : Time} : (taking T).Stable Ordered where
  refl _ _ := .refl
  trans := Appends.trans

/-- The rows that were handed over, oldest first. -/
def handed (h : History Label Ans) : List OutboxRow :=
  h.reverse.filterMap fun
    | .call q _ => q.row
    | .step _ => none

@[simp] theorem handed_step (l : Label) (h : History Label Ans) :
    handed (.step l :: h) = handed h := by
  simp [handed]

@[simp] theorem handed_call (q : Req) (a : Ans q) (h : History Label Ans) :
    handed (.call q a :: h) = handed h ++ q.row.toList := by
  cases hq : q.row <;> simp [handed, hq]

/-- Whether a dispatcher has somebody to hand the row to. -/
def Dispatcher.reaches (d : Dispatcher) (row : OutboxRow) : Bool := row.kind.isCp || d.notifier

/-- No other owner holds the lease at `T`. -/
def Free (owner : String) (T : Time) (s : OutboxStore) : Prop :=
  ∀ l, s.leases leaseName = some l → l.owner = owner ∨ l.expiresAt ≤ T

/-- A row after those of the list were marked. -/
def marked (rows : List OutboxRow) (r : OutboxRow) : OutboxRow :=
  if r.id ∈ rows.map (·.id) then { r with status := .sent } else r

@[simp] theorem marked_nextAttemptAt (rows : List OutboxRow) (r : OutboxRow) :
    (marked rows r).nextAttemptAt = r.nextAttemptAt := by
  unfold marked
  split <;> rfl

theorem marked_nil : marked [] = id := by
  funext r
  exact if_neg List.not_mem_nil

theorem marked_cons (row : OutboxRow) (rows : List OutboxRow) (r : OutboxRow) :
    marked rows (if r.id = row.id then { r with status := .sent } else r) =
      marked (row :: rows) r := by
  unfold marked
  by_cases hr : r.id = row.id
  · simp [hr]
  · simp [hr]

/-- The rows have been handed over and marked; others may have followed. -/
structure Handled (d : Dispatcher) (T : Time) (rows : List OutboxRow) (h : History Label Ans)
    (s : OutboxStore) (h' : History Label Ans) (s' : OutboxStore) : Prop where
  ordered : Ordered s'
  free : Free d.owner T s'
  handed : handed h' = handed h ++ rows.filter d.reaches
  rows : ∃ more, s'.rows = s.rows.map (marked rows) ++ more

section
variable {T : Time} {d : Dispatcher} {s s' s'' : OutboxStore} {h h' h'' : History Label Ans}

theorem Free.appends {owner : String} (hs : Free owner T s) (hs' : Appends s s') :
    Free owner T s' := fun l hl => hs l (hs'.2.2 ▸ hl)

/-- The lease is renewed. -/
theorem taking_acquire {Φ : Except Exn Bool → History Label Ans → OutboxStore → Prop}
    (hfree : Free d.owner T s)
    (hΦ : ∀ h' s', handed h' = handed h → Ordered s' → Extends s s' → Free d.owner T s' →
      Φ (.ok true) h' s') : Proc.wp (taking T) (acquire d) Φ h s := by
  refine (Proc.wp_bind _ _ _ _ _).2 fun s₁ hs₁ => ⟨trivial, fun now hnow s₂ hs₂ => ?_⟩
  have hs₂ := hs₁.trans hs₂
  dsimp only
  have hrows : (s₂.acquireLease leaseName d.owner leaseTtlSeconds now).2.rows = s₂.rows :=
    acquireLease_rows
  obtain ⟨-, -, l, hl, howner, hlast⟩ | ⟨htrue, hlease⟩ :=
    acquireLease_cases leaseName d.owner leaseTtlSeconds now s₂
  · rcases hfree.appends hs₂ l hl with hmine | hexpired
    · exact absurd hmine howner
    · exact absurd (hexpired.trans hnow) (not_le.2 hlast)
  · have hordered : Ordered (s₂.acquireLease leaseName d.owner leaseTtlSeconds now).2 := by
      rw [Ordered, hrows]
      exact hs₂.1
    rw [htrue]
    refine ⟨hordered, hΦ _ _ (by simp [Req.row]) hordered ?_ fun l hl => .inl ?_⟩
    · obtain ⟨more, hmore⟩ := hs₂.2.1
      exact ⟨more, hrows.trans hmore⟩
    · obtain rfl := Option.some.inj (hlease.symm.trans hl)
      rfl

/-- A row is handed over. -/
theorem taking_deliver {row : OutboxRow}
    {Φ : Except Exn (Except Exn Unit) → History Label Ans → OutboxStore → Prop} (hs : Ordered s)
    (hΦ : ∀ h' s', handed h' = handed h ++ [row].filter d.reaches → Appends s s' →
      Φ (.ok (.ok ())) h' s') : Proc.wp (taking T) (deliver d row).attempt Φ h s := by
  refine (Proc.wp_attempt _ _ _ _).2 ?_
  unfold OutboxDispatcher.deliver
  split
  · next hcp =>
    refine fun s₁ hs₁ => ⟨trivial, fun a ha => ?_⟩
    obtain rfl : a = .ok () := ha
    exact hΦ _ _ (by simp [Req.row, Dispatcher.reaches, hcp]) hs₁
  · next hcp =>
    split
    · next hn =>
      refine fun s₁ hs₁ => ⟨trivial, fun a ha => ?_⟩
      obtain rfl : a = .ok () := ha
      exact hΦ _ _ (by simp [Req.row, Dispatcher.reaches, hn]) hs₁
    · next hn =>
      exact hΦ _ _ (by simp [Dispatcher.reaches, hcp, hn]) (.refl hs)

/-- The rows of a flush. -/
theorem taking_flushRows {rows : List OutboxRow} {n : Nat} (hs : Ordered s)
    (hfree : Free d.owner T s) :
    Proc.wp (taking T) (flushRows d rows n) (fun _ h' s' => Handled d T rows h s h' s') h s := by
  induction rows generalizing n h s with
  | nil => exact ⟨hs, hfree, (List.append_nil _).symm, [], by simp [marked_nil]⟩
  | cons row rows ih =>
    refine (Proc.wp_bind _ _ _ _ _).2 (taking_acquire hfree fun h₁ s₁ hh₁ hs₁ hext₁ hfree₁ => ?_)
    refine (Proc.wp_bind _ _ _ _ _).2 (taking_deliver hs₁ fun h₂ s₂ hh₂ hs₂ => ?_)
    refine (Proc.wp_bind _ _ _ _ _).2 fun s₃ hs₃ => ?_
    have hordered : Ordered (s₃.markOutboxSent row.id) := ordered_markSent hs₃.1
    refine ⟨hordered, Proc.wp_mono (p := flushRows d rows (n + 1)) (ih hordered ?_)
      fun _ h' s' hdone => ?_⟩
    · exact fun l hl => (hfree₁.appends hs₂).appends hs₃ l hl
    · obtain ⟨more, hmore⟩ := hdone.rows
      obtain ⟨more₃, hmore₃⟩ := (hext₁.trans hs₂.2.1).trans hs₃.2.1
      refine ⟨hdone.ordered, hdone.free, ?_, more₃.map (marked (row :: rows)) ++ more, ?_⟩
      · rw [hdone.handed, handed_step, hh₂, hh₁, List.append_assoc, ← List.filter_append]
        rfl
      · rw [hmore, ← List.append_assoc, ← List.map_append, ← hmore₃]
        unfold OutboxStore.markOutboxSent
        rw [rows_setRows, List.map_map]
        simp only [Function.comp_def, marked_cons]

/-- What a flush does: it reads what is due at some time, and hands all of it over. -/
theorem taking_flush {limit : Nat} (hfree : Free d.owner T s) :
    Proc.wp (taking T) (flush d limit) (fun _ h' s' => ∃ s₁ now, T ≤ now ∧ Ordered s₁ ∧
      Extends s s₁ ∧ Handled d T (s₁.pendingOutbox limit now) h s₁ h' s') h s := by
  refine (Proc.wp_bind _ _ _ _ _).2 (taking_acquire hfree fun h₁ s₁ hh₁ hs₁ hext₁ hfree₁ => ?_)
  refine (Proc.wp_bind _ _ _ _ _).2 fun s₂ hs₂ => ⟨trivial, fun now hnow => ?_⟩
  refine (Proc.wp_bind _ _ _ _ _).2 fun s₃ hs₃ => ⟨hs₃.1, ?_⟩
  have hs₃' := hs₂.trans hs₃
  refine Proc.wp_mono (p := flushRows d (s₃.pendingOutbox limit now) 0)
    (taking_flushRows hs₃.1 (hfree₁.appends hs₃')) fun _ h' s' hdone => ?_
  refine ⟨s₃, now, hnow, hs₃.1, hext₁.trans hs₃'.2.1, hdone.ordered, hdone.free, ?_, hdone.rows⟩
  rw [hdone.handed, handed_step, handed_call, hh₁]
  simp [Req.row]

end

/-! ## The backlog -/

/-- The pending ones of the first `n` rows. -/
def backlog (n : Nat) (s : OutboxStore) : List OutboxRow :=
  (s.rows.take n).filter fun r => decide (r.status = .pending)

/-- What becomes of a row when deliveries are taken. -/
def Settled (r r' : OutboxRow) : Prop :=
  r' = r ∨ r.status = .pending ∧ r' = { r with status := .sent }

theorem Settled.id_eq {r r' : OutboxRow} (h : Settled r r') : r'.id = r.id := by
  rcases h with rfl | ⟨-, rfl⟩ <;> rfl

theorem Settled.trans {r r' r'' : OutboxRow} (h : Settled r r') (h' : Settled r' r'') :
    Settled r r'' := by
  rcases h with rfl | ⟨hr, rfl⟩
  · exact h'
  · rcases h' with rfl | ⟨-, rfl⟩ <;> exact .inr ⟨hr, rfl⟩

section
variable {n limit : Nat} {now : Time} {s s' : OutboxStore}

/-- What is due begins with the backlog, and goes on with newer rows only where that is no more than
the limit. -/
theorem due_eq (hs : Ordered s) (hdue : ∀ r ∈ s.rows.take n, r.nextAttemptAt ≤ now) :
    ∃ newer, s.pendingOutbox limit now = (backlog n s).take limit ++ newer ∧
      (∀ r ∈ newer, r ∈ s.rows.drop n) ∧ (newer = [] ∨ (backlog n s).length ≤ limit) := by
  have hbacklog : (s.rows.take n).filter
      (fun r => decide (r.status = .pending ∧ r.nextAttemptAt ≤ now)) = backlog n s :=
    List.filter_congr fun r hr => by simp [hdue r hr]
  rw [pendingOutbox_eq hs]
  conv in s.rows => rw [← List.take_append_drop n s.rows]
  rw [List.filter_append, hbacklog, List.take_append]
  refine ⟨_, rfl, fun r hr => List.mem_of_mem_filter (List.mem_of_mem_take hr), ?_⟩
  rcases Nat.le_total (backlog n s).length limit with hle | hle
  · exact .inr hle
  · rw [Nat.sub_eq_zero_of_le hle]
    exact .inl List.take_zero

/-- The rows that are still pending after some were marked. -/
theorem filter_marked (rows l : List OutboxRow) :
    (l.map (marked rows)).filter (fun r => decide (r.status = .pending)) =
      (l.filter fun r => decide (r.status = .pending)).filter
        fun r => decide (r.id ∉ rows.map (·.id)) := by
  induction l with
  | nil => rfl
  | cons r l ih =>
    rw [List.map_cons, List.filter_cons, List.filter_cons, ih]
    by_cases hr : r.id ∈ rows.map (·.id)
    · have hmarked : marked rows r = { r with status := .sent } := if_pos hr
      rw [hmarked, if_neg (by simp)]
      split
      · rw [List.filter_cons_of_neg (by simpa using hr)]
      · rfl
    · rw [marked, if_neg hr]
      split
      · rw [List.filter_cons_of_pos (by simpa using hr)]
      · rfl

end

/-- How far a dispatcher has come with the first `n` rows: the first `k` of their backlog were
handed over and are sent, and newer rows only after all of it. -/
structure Progress (d : Dispatcher) (T : Time) (n k : Nat) (h : History Label Ans) (s : OutboxStore)
    (h' : History Label Ans) (s' : OutboxStore) : Prop where
  ordered : Ordered s'
  free : Free d.owner T s'
  length : n ≤ s'.rows.length
  due : ∀ r ∈ s'.rows.take n, r.nextAttemptAt ≤ T
  backlog : backlog n s' = (backlog n s).drop k
  settled : ∀ r ∈ s.rows.take n, ∃ r' ∈ s'.rows.take n, Settled r r'
  handed : ∃ newer, handed h' =
      handed h ++ ((OutboxDispatcher.backlog n s).take k).filter d.reaches ++ newer ∧
    (∀ r ∈ newer, ∀ b ∈ s.rows.take n, b.id < r.id) ∧
    (newer = [] ∨ (OutboxDispatcher.backlog n s).length ≤ k)

section
variable {d : Dispatcher} {T : Time} {n k limit : Nat} {now : Time} {s s' s'' : OutboxStore}
  {h h' h'' : History Label Ans}

/-- What others append changes nothing of the first rows. -/
theorem take_extends (hn : n ≤ s.rows.length) (hext : Extends s s') :
    s'.rows.take n = s.rows.take n := by
  obtain ⟨more, hmore⟩ := hext
  rw [hmore, List.take_append_of_le_length hn]

/-- A list by ids without the first rows of it and newer ones. -/
theorem filter_without {l newer : List OutboxRow} (hl : l.Pairwise fun a b => a.id < b.id)
    (hnewer : ∀ r ∈ newer, ∀ b ∈ l, b.id < r.id) :
    l.filter (fun r => decide (r.id ∉ (l.take k ++ newer).map (·.id))) = l.drop k := by
  have hsplit := hl
  rw [← List.take_append_drop k l] at hsplit
  have hlt := (List.pairwise_append.1 hsplit).2.2
  calc l.filter (fun r => decide (r.id ∉ (l.take k ++ newer).map (·.id)))
      = (l.take k ++ l.drop k).filter
          (fun r => decide (r.id ∉ (l.take k ++ newer).map (·.id))) := by
        rw [List.take_append_drop]
    _ = [] ++ l.drop k := by
        rw [List.filter_append]
        congr 1
        · refine List.filter_eq_nil_iff.2 fun r hr => ?_
          have hmem : r.id ∈ (l.take k ++ newer).map (·.id) :=
            List.mem_map_of_mem (List.mem_append_left _ hr)
          exact fun hnot => of_decide_eq_true hnot hmem
        · refine List.filter_eq_self.2 fun r hr => decide_eq_true fun hmem => ?_
          obtain ⟨r', hr', hid⟩ := List.mem_map.1 hmem
          rcases List.mem_append.1 hr' with hr' | hr'
          · have := hlt r' hr' r hr
            omega
          · have := hnewer r' hr' r (List.mem_of_mem_drop hr)
            omega
    _ = l.drop k := List.nil_append _

/-- The step of the loop: the rows of one flush. -/
theorem Handled.progress (hs : Ordered s) (hn : n ≤ s.rows.length)
    (hdue : ∀ r ∈ s.rows.take n, r.nextAttemptAt ≤ T) (hnow : T ≤ now)
    (hdone : Handled d T (s.pendingOutbox limit now) h s h' s') :
    Progress d T n limit h s h' s' := by
  obtain ⟨newer, heq, hnewer, hfull⟩ := due_eq hs fun r hr => (hdue r hr).trans hnow
  obtain ⟨more, hmore⟩ := hdone.rows
  have htake : s'.rows.take n = (s.rows.take n).map (marked (s.pendingOutbox limit now)) := by
    rw [hmore, List.take_append_of_le_length (by rw [List.length_map]; exact hn), List.map_take]
  have hparts : ∀ a ∈ s.rows.take n, ∀ b ∈ s.rows.drop n, a.id < b.id := by
    have hs' := hs
    rw [Ordered, ← List.take_append_drop n s.rows] at hs'
    exact (List.pairwise_append.1 hs').2.2
  have hnewer : ∀ r ∈ newer, ∀ b ∈ s.rows.take n, b.id < r.id :=
    fun r hr b hb => hparts b hb r (hnewer r hr)
  refine ⟨hdone.ordered, hdone.free, ?_, ?_, ?_, ?_, newer.filter d.reaches, ?_, ?_, ?_⟩
  · rw [hmore, List.length_append, List.length_map]
    exact hn.trans (Nat.le_add_right _ _)
  · rw [htake]
    intro r hr
    obtain ⟨r₀, hr₀, rfl⟩ := List.mem_map.1 hr
    rw [marked_nextAttemptAt]
    exact hdue r₀ hr₀
  · rw [OutboxDispatcher.backlog, htake, filter_marked, heq]
    exact filter_without ((List.Pairwise.sublist (List.take_sublist _ _) hs).filter _)
      fun r hr b hb => hnewer r hr b (List.mem_of_mem_filter hb)
  · rw [htake]
    refine fun r hr => ⟨_, List.mem_map_of_mem hr, ?_⟩
    unfold marked
    split
    · next hmem =>
      obtain ⟨r', hr', hid⟩ := List.mem_map.1 hmem
      have hr' := mem_of_pendingOutbox hs hr'
      obtain rfl := hs.eq_of_id hr'.1 (List.mem_of_mem_take hr) hid
      exact .inr ⟨hr'.2.1, rfl⟩
    · exact .inl rfl
  · rw [hdone.handed, heq, List.filter_append, List.append_assoc]
  · exact fun r hr => hnewer r (List.mem_of_mem_filter hr)
  · exact hfull.imp_left fun hnil => by rw [hnil, List.filter_nil]

/-- One flush after others. -/
theorem Progress.trans {k' : Nat} (h₁ : Progress d T n k h s h' s')
    (h₂ : Progress d T n k' h' s' h'' s'') : Progress d T n (k + k') h s h'' s'' := by
  obtain ⟨newer, heq, hnewer, hfull⟩ := h₁.handed
  obtain ⟨newer', heq', hnewer', hfull'⟩ := h₂.handed
  refine ⟨h₂.ordered, h₂.free, h₂.length, h₂.due, ?_, ?_, newer ++ newer', ?_, ?_, ?_⟩
  · rw [h₂.backlog, h₁.backlog, List.drop_drop]
  · intro r hr
    obtain ⟨r', hr', hsettled⟩ := h₁.settled r hr
    obtain ⟨r'', hr'', hsettled'⟩ := h₂.settled r' hr'
    exact ⟨r'', hr'', hsettled.trans hsettled'⟩
  · rw [heq', heq, h₁.backlog, List.take_add, List.filter_append]
    rcases hfull with rfl | hfull
    · simp only [List.append_assoc, List.append_nil, List.nil_append]
    · rw [List.drop_eq_nil_of_le hfull]
      simp only [List.take_nil, List.filter_nil, List.append_assoc, List.append_nil]
  · intro r hr b hb
    rcases List.mem_append.1 hr with hr | hr
    · exact hnewer r hr b hb
    · obtain ⟨b', hb', hsettled⟩ := h₁.settled b hb
      rw [← hsettled.id_eq]
      exact hnewer' r hr b' hb'
  · rw [h₁.backlog, List.length_drop] at hfull'
    rcases hfull with rfl | hfull
    · exact hfull'.imp_right fun hle => by omega
    · exact .inr (hfull.trans (Nat.le_add_right _ _))

theorem Progress.appends (h₁ : Progress d T n k h s h' s') (hs : Appends s' s'') :
    Progress d T n k h s h' s'' := by
  have htake := take_extends h₁.length hs.2.1
  refine ⟨hs.1, h₁.free.appends hs, ?_, htake ▸ h₁.due, ?_, htake ▸ h₁.settled, h₁.handed⟩
  · obtain ⟨more, hmore⟩ := hs.2.1
    rw [hmore, List.length_append]
    exact h₁.length.trans (Nat.le_add_right _ _)
  · rw [← h₁.backlog, OutboxDispatcher.backlog, htake]
    rfl

/-- Only the first rows count. -/
theorem Progress.of_take {s₀ : OutboxStore} (h₁ : Progress d T n k h s₀ h' s')
    (htake : s₀.rows.take n = s.rows.take n) : Progress d T n k h s h' s' := by
  have hbacklog : OutboxDispatcher.backlog n s₀ = OutboxDispatcher.backlog n s := by
    rw [OutboxDispatcher.backlog, htake]
    rfl
  exact ⟨h₁.ordered, h₁.free, h₁.length, h₁.due, hbacklog ▸ h₁.backlog, htake ▸ h₁.settled,
    htake ▸ hbacklog ▸ h₁.handed⟩

theorem Progress.refl (hs : Ordered s) (hfree : Free d.owner T s) (hn : n ≤ s.rows.length)
    (hdue : ∀ r ∈ s.rows.take n, r.nextAttemptAt ≤ T) : Progress d T n 0 h s h s := by
  refine ⟨hs, hfree, hn, hdue, rfl, fun r hr => ⟨r, hr, .inl rfl⟩, [], ?_, ?_, .inl rfl⟩
  · simp
  · exact fun r hr => (by cases hr)

/-- The flushes of the loop: each of them takes the next rows of the backlog. -/
theorem taking_flushes {m : Nat} (hs : Ordered s) (hfree : Free d.owner T s)
    (hn : n ≤ s.rows.length) (hdue : ∀ r ∈ s.rows.take n, r.nextAttemptAt ≤ T) :
    Proc.wp (taking T) (flushes d limit m)
      (fun _ h' s' => Progress d T n (m * limit) h s h' s') h s := by
  induction m generalizing h s with
  | zero =>
    change Progress d T n (0 * limit) h s h s
    rw [Nat.zero_mul]
    exact .refl hs hfree hn hdue
  | succ m ih =>
    refine (Proc.wp_bind _ _ _ _ _).2 ((Proc.wp_attempt _ _ _ _).2 ?_)
    refine Proc.wp_mono (taking_flush hfree) fun _ h₁ s₁ hflush => ?_
    obtain ⟨s₀, now, hnow, hs₀, hext, hdone⟩ := hflush
    have htake := take_extends hn hext
    have hlength : n ≤ s₀.rows.length := by
      obtain ⟨more, hmore⟩ := hext
      rw [hmore, List.length_append]
      exact hn.trans (Nat.le_add_right _ _)
    have hfirst : Progress d T n limit h s h₁ s₁ :=
      (hdone.progress hs₀ hlength (htake ▸ hdue) hnow).of_take htake
    refine Proc.wp_mono (p := flushes d limit m)
      (ih hfirst.ordered hfirst.free hfirst.length hfirst.due) fun _ h' s' hrest => ?_
    rw [Nat.succ_mul, Nat.add_comm]
    exact hfirst.trans hrest

/-! ## Nothing is lost -/

/-- After an outage that lasts until `T`, in which any number of dispatchers may flush, fail and be
killed, let 512 seconds pass. Then, while the engine goes on leaving messages and every delivery is
taken, as many flushes of one dispatcher as hold the pending rows send every row that is not dead,
and hand the pending ones over once each and in the order of the ids, before any newer row; and a
dead row was dead before, or has been rejected, or has failed `M` times. -/
theorem nothing_lost {τ : Type} [DecidableEq τ] {M m : Nat} {s₀ : OutboxStore}
    {P : Pool τ OutboxStore Label Ans} {r : Except Exn Unit} (hs₀ : Ordered s₀) (hw : Within T s₀)
    (hrun : Pool.Run (Programs T M) (Until T) (.idle s₀) P)
    (hcourse : Course (TakenSince (T + seconds 512)) Appends ⟨(flushes d limit m).run, [], P.state⟩
      ⟨.done r, h, s⟩)
    (hm : (P.state.rows.countP fun r => decide (r.status = .pending)) ≤ m * limit) :
    (∀ row ∈ P.state.rows, row.status ≠ .dead → { row with status := .sent } ∈ s.rows) ∧
    (∀ row ∈ P.state.rows, row.status = .dead → row ∈ s.rows ∧
      (row ∈ s₀.rows ∨ GivenUp M (Pool.events P.trace) row)) ∧
    ∃ newer, handed h = (P.state.rows.filter fun row => decide (row.status = .pending)).filter
        d.reaches ++ newer ∧
      ∀ row ∈ newer, ∀ row' ∈ P.state.rows, row'.id < row.id := by
  obtain ⟨hs, hwithin, hdead⟩ := outage_run hs₀ hw hrun
  have hfree : Free d.owner (T + seconds 512) P.state := fun l hl =>
    .inr ((hwithin.lease l hl).trans (Int.add_le_add_left (by decide) T))
  have hfirst {l : List OutboxRow} : l.take l.length = l := List.take_length
  have hprogress : Progress d (T + seconds 512) P.state.rows.length (m * limit) [] P.state h s := by
    have hwp : Proc.wp (taking (T + seconds 512)) (flushes d limit m) _ [] P.state :=
      taking_flushes hs hfree le_rfl fun r hr => hwithin.rows r (List.mem_of_mem_take hr)
    exact (Course.wp (x := ⟨(flushes d limit m).run, [], P.state⟩) taking_stable
      (fun _ _ _ _ hp hr => hp.appends hr) (fun hstep => hstep) (fun hs => hs.1)
      (fun _ _ _ hs => hs) (fun _ _ _ _ ha => ha) hwp hs hcourse).1
  have hbacklog : backlog P.state.rows.length P.state =
      P.state.rows.filter fun r => decide (r.status = .pending) := by
    rw [backlog, hfirst]
  have hall : (P.state.rows.filter fun r => decide (r.status = .pending)).length ≤ m * limit := by
    rwa [← List.countP_eq_length_filter]
  have hempty : backlog P.state.rows.length s = [] := by
    rw [hprogress.backlog, hbacklog]
    exact List.drop_eq_nil_of_le hall
  obtain ⟨newer, hhanded, hnewer, -⟩ := hprogress.handed
  have hsettled (row : OutboxRow) (hrow : row ∈ P.state.rows) :
      (row.status ≠ .pending → row ∈ s.rows) ∧
        (row.status = .pending → { row with status := .sent } ∈ s.rows) := by
    obtain ⟨row', hrow', hsettled⟩ := hprogress.settled row (hfirst.symm ▸ hrow)
    have hmem := List.mem_of_mem_take hrow'
    rcases hsettled with rfl | ⟨hpending, rfl⟩
    · refine ⟨fun _ => hmem, fun hpending => ?_⟩
      have : row' ∈ backlog P.state.rows.length s :=
        List.mem_filter.2 ⟨hrow', decide_eq_true hpending⟩
      rw [hempty] at this
      cases this
    · exact ⟨fun hnot => absurd hpending hnot, fun _ => hmem⟩
  refine ⟨fun row hrow hnot => ?_, fun row hrow hd => ?_, newer, ?_, ?_⟩
  · cases hstatus : row.status with
    | pending => exact (hsettled row hrow).2 hstatus
    | sent =>
      have := (hsettled row hrow).1 (by rw [hstatus]; decide)
      rwa [← hstatus]
    | dead => exact absurd hstatus hnot
  · exact ⟨(hsettled row hrow).1 (by rw [hd]; decide), hdead row hrow hd⟩
  · rw [hhanded, hbacklog, List.take_of_length_le hall]
    rfl
  · exact fun row hrow row' hrow' => hnewer row hrow row' (hfirst.symm ▸ hrow')

end

/-! ## A control plane that was away -/

/-- The first delivery fails, and the flush ends. -/
def awayPool : Pool Unit OutboxStore Label Ans :=
  ((Pool.idle twoRows).restart () (flush tradingDispatcher 200).run.forget).go
    (dispatchEnv 0 fun _ => .error unreachable) () 20

/-- A flush 512 seconds later. -/
def backPoint : Point OutboxStore Label Ans (Except Exn Unit) :=
  Point.go (dispatchEnv (seconds 512) fun _ => .ok ()) 40
    ⟨(flushes tradingDispatcher 200 1).run, [], awayPool.state⟩

theorem backPoint_sends : awayPool.state.rows.map (·.attempts) = [1, 0] ∧
    ∀ row ∈ awayPool.state.rows, row.status ≠ .dead →
      { row with status := .sent } ∈ backPoint.state.rows := by
  refine ⟨by decide +kernel, ?_⟩
  have hrun : Pool.Run (Programs 0 50) (Until 0) (.idle twoRows) awayPool := by
    refine (Pool.run_restart () (.flush tradingDispatcher 200 (by decide)) trivial).trans
      (Pool.run_go_answered _ _ (fun _ _ => trivial) (fun _ q _ => ?_) 20 trivial)
    cases q with
    | now => exact Int.le_refl 0
    | post | send => exact trivial
  obtain ⟨r, hr⟩ := Prog.exists_of_isDone (p := backPoint.prog) (by decide +kernel)
  have hcourse : Course (TakenSince (0 + seconds 512)) Appends
      ⟨(flushes tradingDispatcher 200 1).run, [], awayPool.state⟩
      ⟨.done r, backPoint.hist, backPoint.state⟩ := by
    rw [← hr]
    refine Course.of_path (Point.path_go (fun _ q _ => ?_) _ _)
    cases q with
    | now => exact le_rfl
    | post | send => rfl
  exact (nothing_lost (by decide) ⟨by decide, fun _ h => (by cases h)⟩ hrun hcourse
    (by decide +kernel)).1

end OutboxDispatcher

end CryptoBot
