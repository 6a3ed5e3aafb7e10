import CryptoBot.Application.Dispatch

/-!
# What a sent row tells

A dispatcher marks a row as sent only after the control plane has taken it, and it never changes what
a row says. Both hold of every flush alone, whatever other dispatchers and the engine do to the outbox
meanwhile, as long as they do not change what a row says either.
-/

namespace CryptoBot

open Lib

/-- What never changes of a row. -/
def OutboxRow.content (r : OutboxRow) : Nat × OutboxKind × OutboxKey × OutboxMessage :=
  (r.id, r.kind, r.key, r.message)

/-- The contents of the outbox. -/
def Ledger.contents (s : Ledger) : List (Nat × OutboxKind × OutboxKey × OutboxMessage) :=
  s.outbox.map OutboxRow.content

namespace OutboxDispatcher

/-- What a process of a dispatcher runs. -/
inductive FlushProgram : Prog OutboxStore Label Ans PUnit → Prop
  | flush (d : Dispatcher) (limit : Nat) : FlushProgram (flush d limit).run.forget

/-- A row for the control plane has been handed over and taken. -/
def Taken (h : History Label Ans) (r : OutboxRow) : Prop :=
  r.kind.isCp → ∃ row, row.content = r.content ∧ .call (.post row) (.ok ()) ∈ h

/-- What a step of a dispatcher does to the ledger: no row says anything else, and the rows that are
sent afterwards were sent or have been taken. -/
structure Marks (h : History Label Ans) (s s' : Ledger) : Prop where
  contents : s'.contents = s.contents
  sent : ∀ r' ∈ s'.outbox, r'.status = .sent →
    (∃ r ∈ s.outbox, r.content = r'.content ∧ r.status = .sent) ∨ Taken h r'
  rest : s' = { s with outbox := s'.outbox }

/-- The contract of a dispatcher: it relies on the rows to stay in order and to say what they say,
marks none as sent that has not been taken, and hands over only rows of the outbox. -/
def telling : Contract OutboxStore Label Ans where
  rely _ s s' := s.ledger.contents <+: s'.ledger.contents ∧ Ordered s'
  ans _ _ _ _ := True
  step h _ s s' := Marks h s.ledger s'.ledger
  guard _ q s := ∀ row, q = .post row → row.content ∈ s.ledger.contents

section
variable {s s' : OutboxStore} {h : History Label Ans}

theorem telling_stable : telling.Stable Ordered where
  refl _ _ hs := ⟨List.prefix_rfl, hs⟩
  trans h h' := ⟨h.1.trans h'.1, h'.2⟩

theorem telling_now : telling.guard h .now s := fun _ h => (by cases h)

/-- The order of the rows is one of their contents. -/
theorem ordered_iff_contents :
    Ordered s ↔ s.ledger.contents.Pairwise fun a b => a.1 < b.1 := by
  rw [Ledger.contents, List.pairwise_map]
  rfl

theorem Marks.ordered (hm : Marks h s.ledger s'.ledger) (hs : Ordered s) : Ordered s' := by
  rw [ordered_iff_contents, hm.contents]
  exact ordered_iff_contents.1 hs

/-! ## The steps -/

/-- A statement on the rows with one id that leaves what they say. -/
theorem contents_update {id : Nat} {f : OutboxRow → OutboxRow}
    (hf : ∀ r, (f r).content = r.content) :
    (s.setRows (s.rows.map fun r => if r.id = id then f r else r)).ledger.contents =
      s.ledger.contents := by
  change (s.rows.map _).map _ = s.rows.map _
  rw [List.map_map]
  refine List.map_congr_left fun r _ => ?_
  dsimp only [Function.comp_apply]
  split
  · exact hf r
  · rfl

theorem Marks.of_eq (hs : s'.ledger = s.ledger) : Marks h s.ledger s'.ledger where
  contents := congrArg Ledger.contents hs
  sent r hr hsent := .inl ⟨r, hs ▸ hr, rfl, hsent⟩
  rest := by rw [hs]

theorem acquireLease_ledger {name owner : String} {ttl : Int} {now : Time} :
    (s.acquireLease name owner ttl now).2.ledger = s.ledger := by
  unfold OutboxStore.acquireLease
  split
  · split <;> rfl
  · rfl

theorem Marks.of_sent {row : OutboxRow} (hs : Ordered s) (hrow : row.content ∈ s.ledger.contents)
    (htaken : row.kind.isCp → .call (.post row) (.ok ()) ∈ h) :
    Marks h s.ledger (s.markOutboxSent row.id).ledger where
  contents := contents_update fun _ => rfl
  sent r' hr' hsent := by
    rcases mem_markSent.1 hr' with ⟨x, hx, hid, rfl⟩ | ⟨hr', -⟩
    · obtain ⟨y, hy, hyrow⟩ := List.mem_map.1 hrow
      have hyid : y.id = row.id := congrArg Prod.fst hyrow
      obtain rfl := hs.eq_of_id hx hy (hid.trans hyid.symm)
      have hkind : x.kind = row.kind := congrArg (·.2.1) hyrow
      exact .inr fun hcp => ⟨row, hyrow.symm, htaken (hkind ▸ hcp)⟩
    · exact .inl ⟨r', hr', rfl, hsent⟩
  rest := rfl

theorem Marks.of_failed {id : Nat} {t : Time} {dead : Bool} :
    Marks h s.ledger (s.markOutboxFailed id t dead).ledger where
  contents := contents_update fun _ => rfl
  sent r' hr' hsent := by
    rcases mem_markFailed.1 hr' with ⟨x, hx, hid, rfl⟩ | ⟨hr', -⟩
    · cases dead <;> cases hsent
    · exact .inl ⟨r', hr', rfl, hsent⟩
  rest := rfl

/-! ## A flush -/

/-- The rows still to come are rows of the outbox. -/
structure Listed (rows : List OutboxRow) (s : OutboxStore) : Prop where
  ordered : Ordered s
  mem : ∀ row ∈ rows, row.content ∈ s.ledger.contents

variable {rows : List OutboxRow} {row : OutboxRow}

theorem Listed.rely (hs : Listed rows s) (hr : telling.rely h s s') : Listed rows s' :=
  ⟨hr.2, fun row hrow => hr.1.subset (hs.mem row hrow)⟩

theorem Listed.marks (hs : Listed rows s) (hm : Marks h s.ledger s'.ledger) : Listed rows s' :=
  ⟨hm.ordered hs.ordered, fun row hrow => hm.contents ▸ hs.mem row hrow⟩

theorem Listed.tail (hs : Listed (row :: rows) s) : Listed rows s :=
  ⟨hs.ordered, fun x hx => hs.mem x (.tail _ hx)⟩

variable {d : Dispatcher}

theorem wp_acquire (hs : Listed rows s) {Φ : Except Exn Bool → History Label Ans → OutboxStore → Prop}
    (hΦ : ∀ b h s, Listed rows s → Φ (.ok b) h s) : Proc.wp telling (acquire d) Φ h s := by
  refine (Proc.wp_bind _ _ _ _ _).2 fun s₁ hr => ⟨telling_now, fun now _ s₂ hr' => ?_⟩
  have hm {h : History Label Ans} := @Marks.of_eq s₂ _ h
    (@acquireLease_ledger s₂ leaseName d.owner leaseTtlSeconds now)
  exact ⟨hm, hΦ _ _ _ (((hs.rely hr).rely hr').marks (h := h) hm)⟩

/-- Handing a row over; a row for the control plane has been taken when that raises nothing. -/
theorem wp_deliver (hs : Listed (row :: rows) s)
    {Φ : Except Exn (Except Exn Unit) → History Label Ans → OutboxStore → Prop}
    (hΦ : ∀ r h s, Listed (row :: rows) s →
      (r = .ok () → row.kind.isCp → .call (.post row) (.ok ()) ∈ h) → Φ (.ok r) h s) :
    Proc.wp telling (deliver d row).attempt Φ h s := by
  refine (Proc.wp_attempt _ _ _ _).2 ?_
  unfold deliver
  split
  · intro s₁ hr
    refine ⟨?_, fun a _ => hΦ _ _ _ (hs.rely hr) ?_⟩
    · rintro _ ⟨⟩
      exact (hs.rely hr).mem row (.head _)
    · rintro rfl -
      exact .head _
  · next hcp =>
    split
    · exact fun s₁ hr => ⟨fun _ h => (by cases h), fun a _ => hΦ _ _ _ (hs.rely hr) fun _ h => absurd h hcp⟩
    · exact hΦ _ _ _ hs fun _ h => absurd h hcp

/-- A row that could not be handed over is marked, and the flush goes on by `p`. -/
theorem wp_markFailed (hs : Listed (row :: rows) s) {t : Time} {dead : Bool} {p : Dispatch Nat}
    (hp : ∀ h s, Listed rows s → p.wp telling (fun _ _ _ => True) h s) :
    Proc.wp telling (do markFailed row t dead; p) (fun _ _ _ => True) h s := by
  refine (Proc.wp_bind _ _ _ _ _).2 fun s₁ hr => ?_
  have hm := @Marks.of_failed s₁ h row.id t dead
  exact ⟨hm, hp _ _ ((hs.rely hr).tail.marks hm)⟩

theorem wp_flushRows {n : Nat} (hs : Listed rows s) :
    Proc.wp telling (flushRows d rows n) (fun _ _ _ => True) h s := by
  induction rows generalizing n h s with
  | nil => exact trivial
  | cons row rows ih =>
    refine (Proc.wp_bind _ _ _ _ _).2 (wp_acquire hs fun b h s hs => ?_)
    cases b with
    | false => exact trivial
    | true =>
      refine (Proc.wp_bind _ _ _ _ _).2 (wp_deliver hs fun r h s hs htaken => ?_)
      cases r with
      | ok _ =>
        refine (Proc.wp_bind _ _ _ _ _).2 fun s₁ hr => ?_
        have hs₁ := hs.rely hr
        have hm := Marks.of_sent (h := h) hs₁.ordered (hs₁.mem row (.head _)) (htaken rfl)
        exact ⟨hm, ih (hs₁.tail.marks hm)⟩
      | error exc =>
        dsimp only
        split
        · refine (Proc.wp_bind _ _ _ _ _).2 fun s₁ hr => ⟨telling_now, fun now _ => ?_⟩
          exact wp_markFailed (hs.rely hr) fun _ _ hs => ih hs
        · refine (Proc.wp_bind _ _ _ _ _).2 fun s₁ hr => ⟨telling_now, fun now _ => ?_⟩
          refine wp_markFailed (hs.rely hr) fun _ _ hs => ?_
          split
          · exact trivial
          · exact ih hs

/-- Every flush tells what it has done. -/
theorem FlushProgram.wp {p : Prog OutboxStore Label Ans PUnit} (hp : FlushProgram p)
    (hs : Ordered s) : p.wp telling (fun _ _ _ => True) h s := by
  cases hp with
  | flush d limit =>
    refine Prog.wp_forget (Φ := fun _ _ _ => True) ?_
    have hnil : Listed [] s := ⟨hs, List.forall_mem_nil _⟩
    refine (Proc.wp_bind _ _ _ _ _).2 (wp_acquire hnil fun b h s hs => ?_)
    cases b with
    | false => exact trivial
    | true =>
      refine (Proc.wp_bind _ _ _ _ _).2 fun s₁ hr => ⟨telling_now, fun now _ => ?_⟩
      refine (Proc.wp_bind _ _ _ _ _).2 fun s₂ hr' => ⟨.of_eq rfl, ?_⟩
      have hs₂ := ((hs.rely hr).rely hr').ordered
      exact wp_flushRows ⟨hs₂, fun row hrow =>
        List.mem_map_of_mem (mem_of_pendingOutbox hs₂ hrow).1⟩

end
end OutboxDispatcher

end CryptoBot
