import CryptoBot.Application.Outbox

/-!
# What becomes of a row

A flush works on the list it read and looks at no row again. As long as it is the last to have read,
the rows of its list that it has not reached are as they were: it hands over no row that is already
sent, and marks none. With two flushes at work, one of them works on a stale list.
-/

namespace CryptoBot

open Lib

namespace OutboxDispatcher

open OutboxStore

/-! ## Rows under the steps -/

/-- Row ids grow, as `AUTOINCREMENT` assigns them. -/
def Ordered (s : OutboxStore) : Prop := s.rows.Pairwise fun a b => a.id < b.id

instance (s : OutboxStore) : Decidable (Ordered s) := by unfold Ordered; infer_instance

/-- The rows of `s` are still there as they were; others may have followed. -/
def Extends (s s' : OutboxStore) : Prop := ∃ more, s'.rows = s.rows ++ more

section
variable {s s' : OutboxStore} {id : Nat} {t : Time} {dead : Bool}

theorem Ordered.eq_of_id (hs : Ordered s) {a b : OutboxRow} (ha : a ∈ s.rows) (hb : b ∈ s.rows)
    (h : a.id = b.id) : a = b := by
  have hnodup : (s.rows.map (·.id)).Nodup := (List.pairwise_map.2 hs).imp fun h => h.ne
  exact List.inj_on_of_nodup_map hnodup ha hb h

/-- What follows the rows of an ordered outbox has larger ids. -/
theorem Extends.mem_of_id (h : Extends s s') (hs' : Ordered s') {a b : OutboxRow} (ha : a ∈ s.rows)
    (hb : b ∈ s'.rows) (hid : b.id ≤ a.id) : b ∈ s.rows := by
  obtain ⟨more, hrows⟩ := h
  rw [hrows] at hb
  rcases List.mem_append.1 hb with hb | hb
  · exact hb
  · rw [Ordered, hrows] at hs'
    have := (List.pairwise_append.1 hs').2.2 a ha b hb
    omega

theorem Extends.mem (h : Extends s s') {a : OutboxRow} (ha : a ∈ s.rows) : a ∈ s'.rows := by
  obtain ⟨more, hrows⟩ := h
  exact hrows ▸ List.mem_append_left _ ha

/-- A statement that changes the rows with one id, and no ids. -/
theorem ordered_update {f : OutboxRow → OutboxRow} (hf : ∀ r, (f r).id = r.id) (hs : Ordered s) :
    Ordered (s.setRows (s.rows.map fun r => if r.id = id then f r else r)) := by
  refine List.pairwise_map.2 (hs.imp fun {a b} h => ?_)
  have hid (r : OutboxRow) : (if r.id = id then f r else r).id = r.id := by
    split
    · exact hf r
    · rfl
  rw [hid, hid]
  exact h

theorem mem_update {f : OutboxRow → OutboxRow} {r : OutboxRow} :
    r ∈ (s.setRows (s.rows.map fun r => if r.id = id then f r else r)).rows ↔
      (∃ x ∈ s.rows, x.id = id ∧ r = f x) ∨ r ∈ s.rows ∧ r.id ≠ id := by
  rw [rows_setRows, List.mem_map]
  constructor
  · rintro ⟨x, hx, rfl⟩
    split
    · next h => exact .inl ⟨x, hx, h, rfl⟩
    · next h => exact .inr ⟨hx, h⟩
  · rintro (⟨x, hx, h, rfl⟩ | ⟨hr, h⟩)
    · exact ⟨x, hx, if_pos h⟩
    · exact ⟨r, hr, if_neg h⟩

theorem ordered_markSent (hs : Ordered s) : Ordered (s.markOutboxSent id) :=
  ordered_update (fun _ => rfl) hs

theorem ordered_markFailed (hs : Ordered s) : Ordered (s.markOutboxFailed id t dead) :=
  ordered_update (fun _ => rfl) hs

/-- Marking a row leaves every other row as it is. -/
theorem mem_markSent {r : OutboxRow} : r ∈ (s.markOutboxSent id).rows ↔
    (∃ x ∈ s.rows, x.id = id ∧ r = { x with status := .sent }) ∨ r ∈ s.rows ∧ r.id ≠ id :=
  mem_update

theorem mem_markFailed {r : OutboxRow} : r ∈ (s.markOutboxFailed id t dead).rows ↔
    (∃ x ∈ s.rows, x.id = id ∧ r = { x with
      attempts := x.attempts + 1, nextAttemptAt := t
      status := if dead then .dead else .pending }) ∨ r ∈ s.rows ∧ r.id ≠ id :=
  mem_update

theorem acquireLease_rows {name owner : String} {ttl : Int} {now : Time} :
    (s.acquireLease name owner ttl now).2.rows = s.rows := by
  unfold acquireLease
  split
  · split <;> rfl
  · rfl

theorem enqueue_rows {kind : OutboxKind} {key : OutboxKey} {message : OutboxMessage} {now : Time}
    {ledger : Ledger} (hs : Ordered s)
    (h : Store.enqueue kind key message now s.ledger = .ok (⟨⟩, ledger)) :
    Ordered { s with ledger } ∧ Extends s { s with ledger } := by
  unfold Store.enqueue at h
  split at h
  · cases h
    exact ⟨hs, [], (List.append_nil _).symm⟩
  · cases h
    refine ⟨List.pairwise_append.2 ⟨hs, List.pairwise_singleton _ _, fun a ha b hb => ?_⟩, _, rfl⟩
    rw [List.mem_singleton.1 hb]
    exact Store.lt_nextId (List.mem_map_of_mem ha)

/-! ## The list of a flush -/

theorem pendingOutbox_eq {limit : Nat} {now : Time} (hs : Ordered s) :
    s.pendingOutbox limit now =
      (s.rows.filter fun r => decide (r.status = .pending ∧ r.nextAttemptAt ≤ now)).take limit := by
  unfold pendingOutbox
  rw [List.Pairwise.insertionSort_eq]
  exact (hs.filter _).imp fun h => h.le

theorem pendingOutbox_ordered {limit : Nat} {now : Time} (hs : Ordered s) :
    (s.pendingOutbox limit now).Pairwise fun a b => a.id < b.id := by
  rw [pendingOutbox_eq hs]
  exact (hs.filter _).sublist (List.take_sublist _ _)

theorem mem_of_pendingOutbox {limit : Nat} {now : Time} (hs : Ordered s) {r : OutboxRow}
    (h : r ∈ s.pendingOutbox limit now) :
    r ∈ s.rows ∧ r.status = .pending ∧ r.nextAttemptAt ≤ now := by
  rw [pendingOutbox_eq hs] at h
  simpa using List.mem_of_mem_take h

/-- A due row before a listed one is listed. -/
theorem mem_pendingOutbox_of_lt {limit : Nat} {now : Time} (hs : Ordered s) {r row : OutboxRow}
    (hrow : row ∈ s.pendingOutbox limit now) (hr : r ∈ s.rows) (hpending : r.status = .pending)
    (hdue : r.nextAttemptAt ≤ now) (hlt : r.id < row.id) : r ∈ s.pendingOutbox limit now := by
  rw [pendingOutbox_eq hs] at hrow ⊢
  have hmem : r ∈ s.rows.filter fun r => decide (r.status = .pending ∧ r.nextAttemptAt ≤ now) :=
    List.mem_filter.2 ⟨hr, decide_eq_true ⟨hpending, hdue⟩⟩
  have hsorted := hs.filter fun r => decide (r.status = .pending ∧ r.nextAttemptAt ≤ now)
  rw [← List.take_append_drop limit
    (s.rows.filter fun r => decide (r.status = .pending ∧ r.nextAttemptAt ≤ now))] at hmem hsorted
  rcases List.mem_append.1 hmem with hmem | hmem
  · exact hmem
  · have := (List.pairwise_append.1 hsorted).2.2 row hrow r hmem
    omega

end

/-! ## The loop of a flush -/

/-- What a contract must put up with for `J`, of the rows still to come, to be an invariant of the
loop. -/
structure LoopRule (C : Contract OutboxStore Label Ans) (J : List OutboxRow → OutboxStore → Prop) :
    Prop where
  rely : ∀ {h rows s s'}, J rows s → C.rely h s s' → J rows s'
  now : ∀ h s, C.guard h .now s
  lease : ∀ {rows s leases}, J rows s →
    (∀ h, C.step h .lease s { s with leases }) ∧ J rows { s with leases }
  post : ∀ {h row rows s}, J (row :: rows) s → row.kind.isCp → C.guard h (.post row) s
  send : ∀ {h row rows s}, J (row :: rows) s → C.guard h (.send row) s
  sent : ∀ {row rows s}, J (row :: rows) s →
    (∀ h, C.step h (.sent row.id) s (s.markOutboxSent row.id)) ∧ J rows (s.markOutboxSent row.id)
  failed : ∀ {row rows s t dead}, J (row :: rows) s →
    (∀ h, C.step h (.failed row.id) s (s.markOutboxFailed row.id t dead)) ∧
      (dead ∨ row.kind.isCp = false → J rows (s.markOutboxFailed row.id t dead))

namespace LoopRule

variable {C : Contract OutboxStore Label Ans} {J : List OutboxRow → OutboxStore → Prop}
  {d : Dispatcher} {h : History Label Ans} {s : OutboxStore}

/-- Renewing the lease. -/
theorem acquire (hJ : LoopRule C J) {rows : List OutboxRow} (hs : J rows s)
    {Φ : Except Exn Bool → History Label Ans → OutboxStore → Prop}
    (hΦ : ∀ b h s, J rows s → Φ (.ok b) h s) : Proc.wp C (acquire d) Φ h s := by
  refine (Proc.wp_bind _ _ _ _ _).2 fun s₁ hr => ⟨hJ.now _ _, fun now _ s₂ hr' => ?_⟩
  have hs₂ := hJ.rely (hJ.rely hs hr) hr'
  have hleases : ∃ b leases, s₂.acquireLease leaseName d.owner leaseTtlSeconds now =
      (b, { s₂ with leases }) := by
    unfold acquireLease
    split
    · split <;> exact ⟨_, _, rfl⟩
    · exact ⟨_, _, rfl⟩
  obtain ⟨b, leases, heq⟩ := hleases
  obtain ⟨hstep, hs₃⟩ := hJ.lease hs₂
  dsimp only
  rw [heq]
  exact ⟨hstep _, hΦ b _ _ hs₃⟩

/-- Handing a row over. -/
theorem deliver (hJ : LoopRule C J) {row : OutboxRow} {rows : List OutboxRow}
    (hs : J (row :: rows) s)
    {Φ : Except Exn (Except Exn Unit) → History Label Ans → OutboxStore → Prop}
    (hΦ : ∀ r h s, J (row :: rows) s → Φ (.ok r) h s) :
    Proc.wp C (deliver d row).attempt Φ h s := by
  refine (Proc.wp_attempt _ _ _ _).2 ?_
  unfold OutboxDispatcher.deliver
  split
  · next hcp => exact fun s₁ hr => ⟨hJ.post (hJ.rely hs hr) hcp, fun a _ => hΦ _ _ _ (hJ.rely hs hr)⟩
  · split
    · exact fun s₁ hr => ⟨hJ.send (hJ.rely hs hr), fun a _ => hΦ _ _ _ (hJ.rely hs hr)⟩
    · exact hΦ _ _ _ hs

/-- The rows of a flush, one after the other. -/
theorem flushRows (hJ : LoopRule C J) {rows : List OutboxRow} {n : Nat} (hs : J rows s) :
    Proc.wp C (flushRows d rows n) (fun _ _ _ => True) h s := by
  induction rows generalizing n h s with
  | nil => exact trivial
  | cons row rows ih =>
    refine (Proc.wp_bind _ _ _ _ _).2 (hJ.acquire hs fun b h s hs => ?_)
    cases b with
    | false => exact trivial
    | true =>
      refine (Proc.wp_bind _ _ _ _ _).2 (hJ.deliver hs fun r h s hs => ?_)
      cases r with
      | ok _ =>
        refine (Proc.wp_bind _ _ _ _ _).2 fun s₁ hr => ?_
        obtain ⟨hstep, hrest⟩ := hJ.sent (hJ.rely hs hr)
        exact ⟨hstep _, ih hrest⟩
      | error exc =>
        dsimp only
        split
        · refine (Proc.wp_bind _ _ _ _ _).2 fun s₁ hr => ⟨hJ.now _ _, fun now _ => ?_⟩
          refine (Proc.wp_bind _ _ _ _ _).2 fun s₂ hr' => ?_
          obtain ⟨hstep, hrest⟩ := hJ.failed (hJ.rely (hJ.rely hs hr) hr')
          exact ⟨hstep _, ih (hrest (.inl rfl))⟩
        · refine (Proc.wp_bind _ _ _ _ _).2 fun s₁ hr => ⟨hJ.now _ _, fun now _ => ?_⟩
          refine (Proc.wp_bind _ _ _ _ _).2 fun s₂ hr' => ?_
          obtain ⟨hstep, hrest⟩ := hJ.failed (hJ.rely (hJ.rely hs hr) hr')
          refine ⟨hstep _, ?_⟩
          dsimp only
          split
          · exact trivial
          · next hcp => exact ih (hrest (.inr (by simpa using hcp)))

end LoopRule

/-! ## The fence of a flush -/

/-- What a process of the outbox runs: a flush, or a transaction that leaves a message. -/
inductive OutboxProgram : Prog OutboxStore Label Ans PUnit → Prop
  | flush (d : Dispatcher) (limit : Nat) : OutboxProgram (flush d limit).run.forget
  | enqueue (kind : OutboxKind) (key : OutboxKey) (message : OutboxMessage) (now : Time) :
      OutboxProgram (enqueue kind key message now).run.forget

def Label.isRead : Label → Bool
  | .read .. => true
  | _ => false

/-- What a flush does with a row of its list: it hands it over, or marks it. -/
def acts : Event Label Ans → Bool
  | .step (.sent _) | .step (.failed _) => true
  | .step _ => false
  | .call q _ => q.row.isSome

/-- A flush reads under the condition `gate`; from then on it relies on its rows, and owes `step` at
the marks and `guard` at the deliveries. -/
def fence (gate : Label → OutboxStore → Prop) (step : OutboxStore → OutboxStore → Prop)
    (guard : Req → OutboxStore → Prop) : Fence OutboxStore Label Ans where
  enter := Label.isRead
  gate := gate
  acts := acts
  contract :=
    { rely := fun _ s s' => Ordered s' ∧ Extends s s'
      ans := fun _ _ _ _ => True
      step := fun _ _ => step
      guard := fun _ => guard }

section
variable {gate : Label → OutboxStore → Prop} {step : OutboxStore → OutboxStore → Prop}
  {guard : Req → OutboxStore → Prop}

theorem fence_stable : (fence gate step guard).contract.Stable Ordered where
  refl _ _ hs := ⟨hs, [], (List.append_nil _).symm⟩
  trans := by
    rintro _ s s' s'' ⟨-, more, h⟩ ⟨hs, more', h'⟩
    exact ⟨hs, more ++ more', by rw [h', h, List.append_assoc]⟩

/-- A step that leaves the rows alone. -/
theorem harmless_of_rows {l : Label} {s s' : OutboxStore} (h : s'.rows = s.rows) :
    (fence gate step guard).Harmless Ordered l s s' := by
  intro hs
  have hs' : Ordered s' := by rw [Ordered, h]; exact hs
  exact ⟨hs', fun _ _ => ⟨hs', [], by rw [h, List.append_nil]⟩⟩

theorem acquire_harmless {d : Dispatcher} :
    (acquire d).Within ((fence gate step guard).Harmless Ordered) :=
  (Proc.within_ask _ _).bind fun _ => Proc.within_step fun _ => harmless_of_rows acquireLease_rows

theorem flushRows_harmless {d : Dispatcher} {rows : List OutboxRow} {n : Nat} :
    (flushRows d rows n).Within ((fence gate step guard).Harmless Ordered) := by
  have hfailed (row : OutboxRow) (t : Time) (dead : Bool) :
      (markFailed row t dead).Within ((fence gate step guard).Harmless Ordered) :=
    Proc.within_step fun s hs => ⟨ordered_markFailed hs, fun h => (by cases h)⟩
  induction rows generalizing n with
  | nil => exact Proc.within_pure _
  | cons row rows ih =>
    refine acquire_harmless.bind fun b => ?_
    cases b with
    | false => exact Proc.within_pure _
    | true =>
      refine (Proc.Within.attempt ?_).bind fun r => ?_
      · unfold deliver
        split
        · exact Proc.within_ask _ _
        · exact .ite (Proc.within_ask _ _) (Proc.within_pure _)
      · cases r with
        | ok _ =>
          refine (Proc.within_step fun s hs => ?_).bind fun _ => ih
          exact ⟨ordered_markSent hs, fun h => (by cases h)⟩
        | error exc =>
          dsimp only
          split
          · exact (Proc.within_ask _ _).bind fun _ => (hfailed _ _ _).bind fun _ => ih
          · exact (Proc.within_ask _ _).bind fun _ => (hfailed _ _ _).bind fun _ =>
              .ite (Proc.within_pure _) ih

/-- No program of the loop reads again. -/
theorem enters_of_within {α : Type} {W : Prog OutboxStore Label Ans α → OutboxStore → Prop}
    {p : Prog OutboxStore Label Ans α} (h : p.Within fun l _ _ => l.isRead = false) :
    p.Enters Label.isRead gate W := by
  induction p with
  | done a => exact trivial
  | atomic l f k ih =>
    intro s
    refine ⟨fun hl => ?_, ih _ (h s).2⟩
    rw [(h s).1] at hl
    cases hl
  | call q k ih => exact fun a => ih a (h a)

theorem acquire_reads {d : Dispatcher} : (acquire d).Within fun l _ _ => l.isRead = false :=
  (Proc.within_ask _ _).bind fun _ => Proc.within_step fun _ => rfl

theorem flushRows_reads {d : Dispatcher} {rows : List OutboxRow} {n : Nat} :
    (flushRows d rows n).Within fun l _ _ => l.isRead = false := by
  induction rows generalizing n with
  | nil => exact Proc.within_pure _
  | cons row rows ih =>
    refine acquire_reads.bind fun b => ?_
    cases b with
    | false => exact Proc.within_pure _
    | true =>
      refine (Proc.Within.attempt ?_).bind fun r => ?_
      · unfold deliver
        split
        · exact Proc.within_ask _ _
        · exact .ite (Proc.within_ask _ _) (Proc.within_pure _)
      · cases r with
        | ok _ => exact (Proc.within_step fun _ => rfl).bind fun _ => ih
        | error exc =>
          dsimp only
          split
          · exact (Proc.within_ask _ _).bind fun _ => (Proc.within_step fun _ => rfl).bind
              fun _ => ih
          · exact (Proc.within_ask _ _).bind fun _ => (Proc.within_step fun _ => rfl).bind
              fun _ => .ite (Proc.within_pure _) ih

/-- A loop that keeps an invariant which holds of every list read makes every program admitted. -/
theorem admits {J : List OutboxRow → OutboxStore → Prop}
    (hJ : LoopRule (fence gate step guard).contract J)
    (hread : ∀ {limit now s}, Ordered s → gate (.read limit now) s → J (s.pendingOutbox limit now) s)
    {p : Prog OutboxStore Label Ans PUnit} (hp : OutboxProgram p) :
    (fence gate step guard).Admits Ordered p := by
  cases hp with
  | flush d limit =>
    constructor
    · intro now s
      refine ⟨fun h => (by cases h), ?_⟩
      dsimp only
      generalize (s.acquireLease leaseName d.owner leaseTtlSeconds now).1 = b
      cases b with
      | false => exact trivial
      | true =>
        intro now s
        refine ⟨fun _ hgate hs h => ?_, enters_of_within (Prog.Within.forget flushRows_reads)⟩
        exact Prog.wp_forget (hJ.flushRows (hread hs hgate))
    · refine Prog.Within.forget (acquire_harmless.bind fun b => ?_)
      cases b with
      | false => exact Proc.within_pure _
      | true =>
        exact (Proc.within_ask _ _).bind fun _ =>
          (Proc.within_step fun _ => harmless_of_rows rfl).bind fun _ => flushRows_harmless
  | enqueue kind key message now =>
    constructor
    · exact fun s => ⟨fun h => (by cases h), trivial⟩
    · refine Prog.Within.forget (Proc.within_step fun s hs => ?_)
      cases henq : Store.enqueue kind key message now s.ledger with
      | error e => exact ⟨hs, fun _ _ => ⟨hs, [], (List.append_nil _).symm⟩⟩
      | ok r =>
        have hrows := enqueue_rows hs henq
        exact ⟨hrows.1, fun _ _ => hrows⟩

end

/-! ## Sent rows -/

/-- No row of the id is sent. -/
def Unsent (id : Nat) (s : OutboxStore) : Prop := ∀ r ∈ s.rows, r.id = id → r.status ≠ .sent

/-- Every sent row is still sent. -/
def SentKept (s s' : OutboxStore) : Prop :=
  ∀ r ∈ s.rows, r.status = .sent → ∃ r' ∈ s'.rows, r'.id = r.id ∧ r'.status = .sent

/-- The rows still to come are in the outbox, each once, and none of them is sent. -/
structure Untouched (rows : List OutboxRow) (s : OutboxStore) : Prop where
  ordered : Ordered s
  distinct : rows.Pairwise fun a b => a.id < b.id
  present : ∀ row ∈ rows, ∃ r ∈ s.rows, r.id = row.id
  unsent : ∀ row ∈ rows, Unsent row.id s

/-- The fence under which sent rows are final: whoever reads. -/
def sentFence : Fence OutboxStore Label Ans :=
  fence (fun _ _ => True) SentKept fun q s => ∀ row, q.row = some row → Unsent row.id s

section
variable {rows : List OutboxRow} {row : OutboxRow} {s s' : OutboxStore}

theorem Untouched.extend (h : Untouched rows s) (hs' : Ordered s') (hext : Extends s s') :
    Untouched rows s' := by
  refine ⟨hs', h.distinct, fun row hrow => ?_, fun row hrow r hr hid => ?_⟩
  · obtain ⟨r, hr, hid⟩ := h.present row hrow
    exact ⟨r, hext.mem hr, hid⟩
  · obtain ⟨x, hx, hxid⟩ := h.present row hrow
    exact h.unsent row hrow r (hext.mem_of_id hs' hx hr (by omega)) hid

/-- Marking the first row, with whatever status, leaves the others untouched. -/
theorem Untouched.mark {f : OutboxRow → OutboxRow} (hf : ∀ r, (f r).id = r.id)
    (h : Untouched (row :: rows) s) :
    Untouched rows (s.setRows (s.rows.map fun r => if r.id = row.id then f r else r)) := by
  obtain ⟨hlt, hdistinct⟩ := List.pairwise_cons.1 h.distinct
  refine ⟨ordered_update hf h.ordered, hdistinct, fun x hx => ?_, fun x hx r hr hid => ?_⟩
  · obtain ⟨r, hr, hid⟩ := h.present x (.tail _ hx)
    have := hlt x hx
    exact ⟨r, mem_update.2 (.inr ⟨hr, by omega⟩), hid⟩
  · have := hlt x hx
    rcases mem_update.1 hr with ⟨y, hy, hyid, rfl⟩ | ⟨hr, hne⟩
    · rw [hf] at hid
      omega
    · exact h.unsent x (.tail _ hx) r hr hid

theorem sent_markSent : SentKept s (s.markOutboxSent row.id) := by
  intro r hr hsent
  by_cases hid : r.id = row.id
  · exact ⟨{ r with status := .sent }, mem_markSent.2 (.inl ⟨r, hr, hid, rfl⟩), rfl, rfl⟩
  · exact ⟨r, mem_markSent.2 (.inr ⟨hr, hid⟩), rfl, hsent⟩

theorem sent_markFailed {t : Time} {dead : Bool} (h : Unsent row.id s) :
    SentKept s (s.markOutboxFailed row.id t dead) := by
  intro r hr hsent
  have hid : r.id ≠ row.id := fun hid => h r hr hid hsent
  exact ⟨r, mem_markFailed.2 (.inr ⟨hr, hid⟩), rfl, hsent⟩

theorem SentKept.of_extends (h : Extends s s') : SentKept s s' :=
  fun r hr hsent => ⟨r, h.mem hr, rfl, hsent⟩

theorem untouched_rule : LoopRule sentFence.contract Untouched where
  rely h hr := h.extend hr.1 hr.2
  now _ _ _ h := by cases h
  lease h := ⟨fun _ => .of_extends ⟨[], (List.append_nil _).symm⟩,
    h.ordered, h.distinct, h.present, h.unsent⟩
  post h _ row hrow := by
    cases hrow
    exact h.unsent _ (.head _)
  send h row hrow := by
    cases hrow
    exact h.unsent _ (.head _)
  sent h := ⟨fun _ => sent_markSent, h.mark fun _ => rfl⟩
  failed h := ⟨fun _ => sent_markFailed (h.unsent _ (.head _)), fun _ => h.mark fun _ => rfl⟩

theorem untouched_read {limit : Nat} {now : Time} (hs : Ordered s) :
    Untouched (s.pendingOutbox limit now) s where
  ordered := hs
  distinct := pendingOutbox_ordered hs
  present row hrow := ⟨row, (mem_of_pendingOutbox hs hrow).1, rfl⟩
  unsent row hrow r hr hid hsent := by
    obtain ⟨hmem, hpending, -⟩ := mem_of_pendingOutbox hs hrow
    rw [hs.eq_of_id hr hmem hid, hpending] at hsent
    cases hsent

end

section
variable {τ : Type} [DecidableEq τ] {P P' : Pool τ OutboxStore Label Ans} {act : Act τ Label Ans}
  {s : OutboxStore}

/-- In every interleaving of flushes and messages, with restarts at any point, in which no flush
hands over or marks a row after another flush has read its list: a sent row stays sent, and no row
is handed over that is sent. -/
theorem sent_final (hs : Ordered s) (hrun : Pool.Run OutboxProgram sentFence.Met (.idle s) P)
    (hmet : sentFence.Met P act) (hstep : Pool.Step OutboxProgram P act P') :
    SentKept P.state P'.state ∧
    ∀ i q a row, act = .event i (.call q a) → q.row = some row → Unsent row.id P.state := by
  have hsound : sentFence.Sound Ordered P :=
    Fence.sound_of_run fence_stable (fun _ _ _ _ => trivial)
      (fun hp => admits untouched_rule (fun hs _ => untouched_read hs) hp) hs hrun
  obtain ⟨hmarks, hcalls⟩ := hsound.keeps fence_stable hmet hstep
  refine ⟨?_, fun i q a row hact hrow => ?_⟩
  · rcases hsound.harmless hstep with ⟨i, l, rfl, hharmless⟩ | ⟨-, hst⟩
    · by_cases hl : acts (.step l)
      · exact hmarks i l rfl hl
      · have hno : acts (.step l) = false := by simpa using hl
        exact .of_extends ((hharmless hsound.state).2 hno []).2
    · exact .of_extends ⟨[], by rw [hst, List.append_nil]⟩
  · refine hcalls i q a hact ?_ row hrow
    change q.row.isSome = true
    rw [hrow]
    rfl

end

/-! ## A lease that expires during a delivery -/

/-- A pending message to the control plane. -/
def eventRow (id : Nat) : OutboxRow :=
  { id, kind := .events, key := .ambiguous (if id = 1 then "cb1-a" else "cb1-b")
    message := .event .orderSubmissionAmbiguous .warning "unknown outcome" .empty 0
    nextAttemptAt := 0 }

def twoRows : OutboxStore := { ledger := { outbox := [eventRow 1, eventRow 2] } }

/-- An environment whose clock stands at `now`, and whose control plane answers by `answer`. -/
def dispatchEnv (now : Time) (answer : OutboxRow → Except Exn Unit) : Prog.Env Label Ans := fun _ q =>
  match q with
  | .now => now
  | .post row | .send row => answer row

def unreachable : Exn := .external "ConnectionError" "timed out"

def tradingDispatcher : Dispatcher := { owner := "trading", notifier := false, maxAttempts := 50 }

def reconDispatcher : Dispatcher := { owner := "recon", notifier := false, maxAttempts := 50 }

/-- The trading worker (process `false`) has handed row 1 over and waits; a minute later the other
worker delivers both rows; then the first delivery turns out to have failed. -/
def leaseExpired : Pool Bool OutboxStore Label Ans :=
  let P₁ := ((Pool.idle twoRows).restart false (flush tradingDispatcher 200).run.forget).go
    (dispatchEnv 0 fun _ => .error unreachable) false 7
  let P₂ := (P₁.restart true (flush reconDispatcher 200).run.forget).go
    (dispatchEnv (seconds 61) fun _ => .ok ()) true 40
  P₂.go (dispatchEnv (seconds 61) fun _ => .ok ()) false 1

/-- The trading worker's next step marks row 1, which is sent by then, as pending again. -/
theorem sent_row_pending_again :
    Pool.Run OutboxProgram (fun _ _ => True) (.idle twoRows) leaseExpired ∧
    (leaseExpired.state.rows.map (·.status)) = [.sent, .sent] ∧
    ∃ P', Pool.Step OutboxProgram leaseExpired (.event false (.step (.failed 1))) P' ∧
      P'.state.rows.map (·.status) = [.pending, .sent] := by
  refine ⟨?_, by decide +kernel, _, .atomic rfl, by decide +kernel⟩
  exact (Pool.run_restart false (.flush _ _) trivial).trans <| (Pool.run_go_any _ _ _ _).trans <|
    (Pool.run_restart true (.flush _ _) trivial).trans <| (Pool.run_go_any _ _ _ _).trans <|
    Pool.run_go_any _ _ _ _

instance (l : Label) (s : OutboxStore) : Decidable (sentFence.gate l s) := isTrue trivial

/-- A flush of one dispatcher that has read its list and renewed the lease for row 1. -/
def flushAlone : Pool Bool OutboxStore Label Ans :=
  ((Pool.idle twoRows).restart false (flush tradingDispatcher 200).run.forget).go
    (dispatchEnv 0 fun _ => .ok ()) false 6

theorem flush_alone_delivers : ∃ P',
    Pool.Step OutboxProgram flushAlone (.event false (.call (.post (eventRow 1)) (.ok ()))) P' ∧
    Unsent 1 flushAlone.state := by
  have hrun : Pool.Run OutboxProgram sentFence.Met (.idle twoRows) flushAlone :=
    (Pool.run_restart false (.flush _ _) ⟨fun _ _ h => (by cases h), fun _ _ h => (by cases h)⟩).trans
      (Pool.run_go_of_scheduled _ _ _ (by decide +kernel))
  refine ⟨_, .call rfl _, ?_⟩
  have hstep : Pool.Step OutboxProgram flushAlone (.event false (.call (.post (eventRow 1)) (.ok ())))
    _ := .call rfl _
  exact (sent_final (by decide) hrun (by decide +kernel) hstep).2 false _ _ _ rfl rfl

/-! ## The order of delivery -/

/-- No message to the control plane that a flush lists has an earlier one before it that waits for
its next attempt. -/
def NoGap : Label → OutboxStore → Prop
  | .read limit now, s => ∀ row ∈ s.pendingOutbox limit now, row.kind.isCp → ∀ r ∈ s.rows,
      r.kind.isCp → r.status = .pending → r.id < row.id → r.nextAttemptAt ≤ now
  | _, _ => True

/-- No message to the control plane before the row is pending. -/
def Earliest (row : OutboxRow) (s : OutboxStore) : Prop :=
  ∀ r ∈ s.rows, r.kind.isCp → r.id < row.id → r.status ≠ .pending

/-- The rows still to come are in the outbox, each once, with their kinds; whatever goes to the
control plane and is pending before one of them is one of them. -/
structure InLine (rows : List OutboxRow) (s : OutboxStore) : Prop where
  ordered : Ordered s
  distinct : rows.Pairwise fun a b => a.id < b.id
  present : ∀ row ∈ rows, ∃ r ∈ s.rows, r.id = row.id ∧ r.kind = row.kind
  line : ∀ row ∈ rows, row.kind.isCp → ∀ r ∈ s.rows, r.kind.isCp → r.status = .pending →
    r.id < row.id → ∃ x ∈ rows, x.id = r.id

/-- The fence under which deliveries to the control plane keep the order: no gap in what is read. -/
def orderFence : Fence OutboxStore Label Ans :=
  fence NoGap (fun _ _ => True) fun q s => ∀ row, q = .post row → Earliest row s

section
variable {rows : List OutboxRow} {row : OutboxRow} {s s' : OutboxStore}

theorem InLine.extend (h : InLine rows s) (hs' : Ordered s') (hext : Extends s s') :
    InLine rows s' := by
  refine ⟨hs', h.distinct, fun row hrow => ?_, fun row hrow hcp r hr hrcp hpending hlt => ?_⟩
  · obtain ⟨r, hr, hrest⟩ := h.present row hrow
    exact ⟨r, hext.mem hr, hrest⟩
  · obtain ⟨x, hx, hxid, -⟩ := h.present row hrow
    exact h.line row hrow hcp r (hext.mem_of_id hs' hx hr (by omega)) hrcp hpending hlt

/-- The first row of the list is the earliest pending one. -/
theorem InLine.earliest (h : InLine (row :: rows) s) (hcp : row.kind.isCp) : Earliest row s := by
  intro r hr hrcp hlt hpending
  obtain ⟨x, hx, hxid⟩ := h.line row (.head _) hcp r hr hrcp hpending hlt
  rcases List.mem_cons.1 hx with rfl | hx
  · omega
  · have := (List.pairwise_cons.1 h.distinct).1 x hx
    omega

/-- Marking the first row keeps the line, when it is no longer pending or does not go to the control
plane. -/
theorem InLine.mark {f : OutboxRow → OutboxRow} (hid : ∀ r, (f r).id = r.id)
    (hkind : ∀ r, (f r).kind = r.kind)
    (hdone : row.kind.isCp → ∀ r, (f r).status ≠ .pending) (h : InLine (row :: rows) s) :
    InLine rows (s.setRows (s.rows.map fun r => if r.id = row.id then f r else r)) := by
  obtain ⟨hlt, hdistinct⟩ := List.pairwise_cons.1 h.distinct
  obtain ⟨y, hy, hyid, hykind⟩ := h.present row (.head _)
  refine ⟨ordered_update hid h.ordered, hdistinct, fun x hx => ?_, ?_⟩
  · obtain ⟨r, hr, hrest⟩ := h.present x (.tail _ hx)
    have := hlt x hx
    exact ⟨r, mem_update.2 (.inr ⟨hr, by omega⟩), hrest⟩
  · intro x hx hcp r hr hrcp hpending hrlt
    rcases mem_update.1 hr with ⟨z, hz, hzid, rfl⟩ | ⟨hr, hne⟩
    · -- the marked row itself
      obtain rfl := h.ordered.eq_of_id hz hy (hzid.trans hyid.symm)
      rw [hkind, hykind] at hrcp
      exact absurd hpending (hdone hrcp z)
    · obtain ⟨w, hw, hwid⟩ := h.line x (.tail _ hx) hcp r hr hrcp hpending hrlt
      rcases List.mem_cons.1 hw with rfl | hw
      · exact absurd hwid.symm hne
      · exact ⟨w, hw, hwid⟩

theorem inLine_rule : LoopRule orderFence.contract InLine where
  rely h hr := h.extend hr.1 hr.2
  now _ _ _ h := by cases h
  lease h := ⟨fun _ => trivial, h.ordered, h.distinct, h.present, h.line⟩
  post h hcp row hrow := by
    cases hrow
    exact h.earliest hcp
  send _ _ h := by cases h
  sent h := ⟨fun _ => trivial, h.mark (fun _ => rfl) (fun _ => rfl) fun _ _ hp => (by cases hp)⟩
  failed {row rows s t dead} h := by
    refine ⟨fun _ => trivial, fun hor => h.mark (fun _ => rfl) (fun _ => rfl) fun hcp r hp => ?_⟩
    rcases hor with hdead | htg
    · rw [hdead] at hp
      cases hp
    · rw [htg] at hcp
      cases hcp

theorem inLine_read {limit : Nat} {now : Time} (hs : Ordered s)
    (hgap : NoGap (.read limit now) s) : InLine (s.pendingOutbox limit now) s where
  ordered := hs
  distinct := pendingOutbox_ordered hs
  present row hrow := ⟨row, (mem_of_pendingOutbox hs hrow).1, rfl, rfl⟩
  line row hrow hcp r hr hrcp hpending hlt :=
    ⟨r, mem_pendingOutbox_of_lt hs hrow hr hpending (hgap row hrow hcp r hr hrcp hpending hlt) hlt,
      rfl⟩

end

section
variable {τ : Type} [DecidableEq τ] {P P' : Pool τ OutboxStore Label Ans} {act : Act τ Label Ans}
  {s : OutboxStore}

/-- In every run of flushes, one after the other, with messages left at any moment, in which no flush
lists a message to the control plane that has an earlier one waiting for its next attempt before it:
a row is delivered to the control plane only when every earlier one is sent or dead. -/
theorem delivered_in_order (hs : Ordered s)
    (hrun : Pool.Run OutboxProgram orderFence.Met (.idle s) P) (hmet : orderFence.Met P act)
    (hstep : Pool.Step OutboxProgram P act P') {i : τ} {row : OutboxRow}
    {a : Except Exn Unit} (hact : act = .event i (.call (.post row) a)) :
    ∀ r ∈ P.state.rows, r.kind.isCp → r.id < row.id → r.status = .sent ∨ r.status = .dead := by
  have hsound : orderFence.Sound Ordered P :=
    Fence.sound_of_run fence_stable (fun _ _ _ _ => trivial)
      (fun hp => admits inLine_rule inLine_read hp) hs hrun
  have hearliest := (hsound.keeps fence_stable hmet hstep).2 i _ a hact rfl row rfl
  intro r hr hcp hlt
  have hne := hearliest r hr hcp hlt
  cases hst : r.status with
  | pending => exact absurd hst hne
  | sent => exact .inl rfl
  | dead => exact .inr rfl

end

/-- The control plane fails at row 1 and accepts everything else. -/
def failsAtOne : OutboxRow → Except Exn Unit :=
  fun row => if row.id = 1 then .error unreachable else .ok ()

/-- A flush whose delivery of row 1 fails, and the next one, a second later, up to its first
delivery. -/
def nextFlush : Pool Unit OutboxStore Label Ans :=
  let P₁ := ((Pool.idle twoRows).restart () (flush tradingDispatcher 200).run.forget).go
    (dispatchEnv 0 failsAtOne) () 40
  (P₁.restart () (flush tradingDispatcher 200).run.forget).go
    (dispatchEnv (seconds 1) failsAtOne) () 6

/-- The next flush delivers row 2 while row 1 waits for its next attempt. -/
theorem later_row_delivered_first :
    Pool.Run OutboxProgram (fun _ _ => True) (.idle twoRows) nextFlush ∧
    (∃ P', Pool.Step OutboxProgram nextFlush (.event () (.call (.post (eventRow 2)) (.ok ()))) P') ∧
    (nextFlush.state.rows.map fun r => (r.id, r.status)) = [(1, .pending), (2, .pending)] := by
  refine ⟨?_, ⟨_, .call rfl _⟩, by decide +kernel⟩
  exact (Pool.run_restart () (.flush _ _) trivial).trans <| (Pool.run_go_any _ _ _ _).trans <|
    (Pool.run_restart () (.flush _ _) trivial).trans <| Pool.run_go_any _ _ _ _

instance (l : Label) (s : OutboxStore) : Decidable (orderFence.gate l s) := by
  change Decidable (NoGap l s)
  cases l <;> unfold NoGap <;> infer_instance

/-- The second delivery of a flush in which nothing fails. -/
def flushTwo : Pool Unit OutboxStore Label Ans :=
  ((Pool.idle twoRows).restart () (flush tradingDispatcher 200).run.forget).go
    (dispatchEnv 0 fun _ => .ok ()) () 10

theorem second_row_after_first : ∃ P',
    Pool.Step OutboxProgram flushTwo (.event () (.call (.post (eventRow 2)) (.ok ()))) P' ∧
    ∀ r ∈ flushTwo.state.rows, r.kind.isCp → r.id < 2 → r.status = .sent ∨ r.status = .dead := by
  have hrun : Pool.Run OutboxProgram orderFence.Met (.idle twoRows) flushTwo :=
    (Pool.run_restart () (.flush _ _) ⟨fun _ _ h => (by cases h), fun _ _ h => (by cases h)⟩).trans
      (Pool.run_go_of_scheduled _ _ _ (by decide +kernel))
  refine ⟨_, .call rfl _, ?_⟩
  have hstep : Pool.Step OutboxProgram flushTwo (.event () (.call (.post (eventRow 2)) (.ok ())))
    _ := .call rfl _
  exact delivered_in_order (by decide) hrun (by decide +kernel) hstep rfl

end OutboxDispatcher

end CryptoBot
