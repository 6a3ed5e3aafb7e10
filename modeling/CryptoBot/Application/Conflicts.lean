import CryptoBot.Application.Bookkeeping

/-!
# Conflicts are told and change nothing

A report that contradicts a terminal order is not applied: its transaction rolls back, the
processed mark of a stream event included, and the outermost caller leaves the CRITICAL event and
the operator's alert in the outbox. `apply_report` names the local order in their keys; `handle`
names whatever client order id the report carries, which need not be that of the order the report
was found to belong to.
-/

namespace CryptoBot

open Lib OrderService StreamIngestionService

/-! ## Messages under their keys -/

/-- The outbox holds a message under this key. -/
def Ledger.Has (s : Ledger) (key : OutboxKey) : Prop := ∃ row ∈ s.outbox, row.key = key

instance (s : Ledger) (key : OutboxKey) : Decidable (s.Has key) :=
  inferInstanceAs (Decidable (∃ row ∈ s.outbox, row.key = key))

/-- The outbox holds the event of a conflict and the operator's alert. -/
def Ledger.Alerted (s : Ledger) (clientOrderId : String) (status : OrderStatus) : Prop :=
  s.Has (.conflict clientOrderId status) ∧ s.Has (.telegram (.conflict clientOrderId status))

instance (s : Ledger) (c : String) (status : OrderStatus) : Decidable (s.Alerted c status) :=
  inferInstanceAs (Decidable (_ ∧ _))

/-- What `enqueue` does to the outbox. -/
theorem Store.enqueue_outbox {kind : OutboxKind} {key : OutboxKey} {message : OutboxMessage}
    {now : Time} {s s' : Ledger} (h : Store.enqueue kind key message now s = .ok (⟨⟩, s')) :
    s' = { s with outbox := s'.outbox } ∧ (∀ k, s'.Has k ↔ s.Has k ∨ k = key) ∧
      ∀ row ∈ s'.outbox, row ∈ s.outbox ∨
        row.kind = kind ∧ row.key = key ∧ row.message = message := by
  unfold Store.enqueue at h
  split at h
  · next hany =>
    cases h
    obtain ⟨row, hrow, hkey⟩ := List.any_eq_true.1 hany
    have hhas : s.Has key := ⟨row, hrow, of_decide_eq_true hkey⟩
    refine ⟨rfl, fun k => ⟨.inl, ?_⟩, fun row hrow => .inl hrow⟩
    rintro (hk | rfl)
    · exact hk
    · exact hhas
  · cases h
    refine ⟨rfl, fun k => ?_, fun row hrow => ?_⟩
    · unfold Ledger.Has
      simp only [List.mem_append, List.mem_singleton]
      constructor
      · rintro ⟨row, hrow | rfl, rfl⟩
        · exact .inl ⟨row, hrow, rfl⟩
        · exact .inr rfl
      · rintro (⟨row, hrow, rfl⟩ | rfl)
        · exact ⟨row, .inl hrow, rfl⟩
        · exact ⟨_, .inr rfl, rfl⟩
    · rcases List.mem_append.1 hrow with hrow | hrow
      · exact .inl hrow
      · obtain rfl := List.mem_singleton.1 hrow
        exact .inr ⟨rfl, rfl, rfl⟩

/-- The CRITICAL event of a conflict, or the message that alerts the operator to it. -/
def OutboxRow.TellsConflict (row : OutboxRow) (bot clientOrderId : String) (status : OrderStatus) :
    Prop :=
  (row.kind = .events ∧ row.key = .conflict clientOrderId status ∧ ∃ message source now,
    row.message =
      .event .orderStateConflict .critical message (.conflict clientOrderId source) now) ∨
  (row.kind = .telegram ∧ row.key = .telegram (.conflict clientOrderId status) ∧ ∃ message,
    row.message = .telegram bot .critical .orderStateConflict message)

/-- The conflict has been told, and nothing else has changed. -/
structure ConflictTold (cfg : Config) (clientOrderId : String) (status : OrderStatus)
    (s s' : Ledger) : Prop where
  rest : s' = { s with outbox := s'.outbox }
  keys : ∀ k, s'.Has k ↔
    s.Has k ∨ k = .conflict clientOrderId status ∨ k = .telegram (.conflict clientOrderId status)
  rows : ∀ row ∈ s'.outbox, row ∈ s.outbox ∨ row.TellsConflict cfg.bot clientOrderId status

section
variable {cfg : Config} {s s' : Ledger} {c : String} {status : OrderStatus}

/-- The order that was named is alerted to; any other order is as it was before. -/
theorem ConflictTold.alerted_iff (h : ConflictTold cfg c status s s') (c' : String) :
    s'.Alerted c' status ↔ c = c' ∨ s.Alerted c' status := by
  unfold Ledger.Alerted
  rw [h.keys, h.keys]
  constructor
  · rintro ⟨he | he | he, ht | ht | ht⟩
    · exact .inr ⟨he, ht⟩
    · cases ht
    · cases ht
      exact .inl rfl
    · cases he
      exact .inl rfl
    · cases ht
    · cases he
      exact .inl rfl
    · cases he
    · cases he
    · cases he
  · rintro (rfl | ⟨he, ht⟩)
    · exact ⟨.inr (.inl rfl), .inr (.inr rfl)⟩
    · exact ⟨.inl he, .inl ht⟩

variable {C : Contract Ledger Label Ans} {A : (q : Request) → Ledger → Ans q → Prop}
  {h : History Label Ans}

theorem Sequential.wp_recordConflict (hC : Sequential C A) {message source : String} :
    Proc.wp C (recordConflict cfg c status message source)
      (fun r _ s' => r = .ok ⟨⟩ ∧ ConflictTold cfg c status s s') h s := by
  have hnever {l kind key message now} {s : Ledger} {e : Exn} {P : Prop}
      (htx : Store.enqueue kind key message now s = .error e) (_ : l = Label.commit) : P := by
    obtain ⟨s', hok⟩ := Store.enqueue_isOk kind key message now s
    rw [hok] at htx
    cases htx
  refine (Proc.wp_bind _ _ _ _ _).2 (hC.wp_now fun now => (Proc.wp_bind _ _ _ _ _).2 ?_)
  refine hC.wp_transaction (.inr ⟨_, rfl⟩) (fun _ s₁ h₁ => ?_) fun e htx => hnever htx rfl
  refine hC.wp_transaction (.inl rfl) (fun _ s₂ h₂ => ?_) fun e htx => hnever htx rfl
  obtain ⟨hrest₁, hkeys₁, hrows₁⟩ := Store.enqueue_outbox h₁
  obtain ⟨hrest₂, hkeys₂, hrows₂⟩ := Store.enqueue_outbox h₂
  refine ⟨rfl, ?_, fun k => ?_, fun row hrow => ?_⟩
  · rw [hrest₂, hrest₁]
  · rw [hkeys₂, hkeys₁, or_assoc]
  · rcases hrows₂ row hrow with hrow | ⟨hkind, hkey, hmessage⟩
    · rcases hrows₁ row hrow with hrow | ⟨hkind, hkey, hmessage⟩
      · exact .inl hrow
      · exact .inr (.inl ⟨hkind, hkey, _, _, _, hmessage⟩)
    · exact .inr (.inr ⟨hkind, hkey, _, hmessage⟩)

end

/-! ## The two ways to a report -/

/-- How an exchange report reaches the ledger: through `apply_report` at top level, or through
`handle` of the stream, in whose transaction `apply_report` is nested. -/
inductive ReportEntry
  | applyReport (report : ExchangeOrderReport) (source : String)
  | handle (eventKey : String) (report : ExchangeOrderReport) (fill : Option ExchangeFill)

namespace ReportEntry

def report : ReportEntry → ExchangeOrderReport
  | applyReport report _ | handle _ report _ => report

/-- The program of the outermost call. -/
def program (cfg : Config) : ReportEntry → Engine PUnit
  | applyReport report source => do
    let _ ← OrderService.applyReport cfg report source
  | handle eventKey report fill => do
    let _ ← StreamIngestionService.handle cfg (.order eventKey report fill)

/-- The event is not a duplicate, whose report is not applied at all. -/
def Reaches (s : Ledger) : ReportEntry → Prop
  | applyReport .. => True
  | handle eventKey .. => eventKey ∉ s.processedEvents

/-- The order is the one the conflict is told about, or has been alerted to before. -/
def Names (s : Ledger) (o : Order) : ReportEntry → Prop
  | applyReport .. => True
  | handle _ report _ =>
    report.clientOrderId = o.clientOrderId ∨ s.Alerted o.clientOrderId report.status

/-- The client order id the conflict is told about. -/
def named (o : Order) : ReportEntry → String
  | applyReport .. => o.clientOrderId
  | handle _ report _ => report.clientOrderId

end ReportEntry

section
variable {cfg : Config} {s : Ledger} {o : Order} {r : ExchangeOrderReport}

/-- A contradicted order turns the report down and leaves the ledger alone. -/
theorem applyReportTx_conflict (now : Time)
    (hfind : findOrder cfg s (some r.clientOrderId) r.exchangeOrderId = some o)
    (hx : o.Contradicts r) :
    ∃ m, applyReportTx cfg r now s = .ok (.conflict o.clientOrderId m, s) := by
  have hraise : ∃ m, o.applyReport r now = .error m := Order.applyReport_error.2 hx
  obtain ⟨m, hm⟩ := hraise
  refine ⟨m, ?_⟩
  unfold applyReportTx
  rw [hfind]
  dsimp only
  rw [hm]

/-- The transaction of an event whose report is turned down rolls back. -/
theorem handleTx_conflict (now : Time) {eventKey : String} (fill : Option ExchangeFill)
    (hfind : findOrder cfg s (some r.clientOrderId) r.exchangeOrderId = some o)
    (hx : o.Contradicts r) (hnew : eventKey ∉ s.processedEvents) :
    ∃ m, handleTx cfg eventKey r fill now s = .error (.orderConflict m) := by
  let s₁ : Ledger := { s with processedEvents := s.processedEvents ++ [eventKey] }
  have hmark : Store.markEventProcessed eventKey s = .ok (true, s₁) := if_neg hnew
  have hfind₁ : findOrder cfg s₁ (some r.clientOrderId) r.exchangeOrderId = some o := hfind
  obtain ⟨m, hm⟩ := applyReportTx_conflict now hfind₁ hx
  refine ⟨m, ?_⟩
  simp only [handleTx, bind, StateT.bind, hmark, Except.bind, if_true, hm]
  rfl

variable {C : Contract Ledger Label Ans} {A : (q : Request) → Ledger → Ans q → Prop}
  {h : History Label Ans}

theorem Sequential.wp_applyReport_conflict (hC : Sequential C A) {source : String}
    (hfind : findOrder cfg s (some r.clientOrderId) r.exchangeOrderId = some o)
    (hx : o.Contradicts r) :
    Proc.wp C (OrderService.applyReport cfg r source)
      (fun _ _ s' => ConflictTold cfg o.clientOrderId r.status s s') h s := by
  refine (Proc.wp_bind _ _ _ _ _).2 (hC.wp_now fun now => ?_)
  obtain ⟨m, hm⟩ := applyReportTx_conflict now hfind hx
  refine (Proc.wp_bind _ _ _ _ _).2 (hC.wp_transaction (.inl rfl) (fun out s₁ htx => ?_)
    fun e htx => by rw [hm] at htx; cases htx)
  rw [hm] at htx
  cases htx
  refine (Proc.wp_bind _ _ _ _ _).2 (Proc.wp_mono hC.wp_recordConflict fun res _ _ hres => ?_)
  obtain ⟨rfl, htold⟩ := hres
  exact htold

theorem Sequential.wp_handle_conflict (hC : Sequential C A) {eventKey : String}
    {fill : Option ExchangeFill}
    (hfind : findOrder cfg s (some r.clientOrderId) r.exchangeOrderId = some o)
    (hx : o.Contradicts r) (hnew : eventKey ∉ s.processedEvents) :
    Proc.wp C (StreamIngestionService.handle cfg (.order eventKey r fill))
      (fun _ _ s' => ConflictTold cfg r.clientOrderId r.status s s') h s := by
  refine (Proc.wp_bind _ _ _ _ _).2 (hC.wp_query ?_)
  rw [hfind]
  refine (Proc.wp_bind _ _ _ _ _).2 (hC.wp_now fun now => ?_)
  obtain ⟨m, hm⟩ := handleTx_conflict now fill hfind hx hnew
  refine (Proc.wp_bind _ _ _ _ _).2 ((Proc.wp_attempt _ _ _ _).2
    (hC.wp_transaction (.inl rfl) (fun out s₁ htx => by rw [hm] at htx; cases htx)
      fun e htx => ?_))
  rw [hm] at htx
  cases htx
  refine (Proc.wp_bind _ _ _ _ _).2 (Proc.wp_mono hC.wp_recordConflict fun res _ _ hres => ?_)
  obtain ⟨rfl, htold⟩ := hres
  exact htold

/-- Whichever way the report comes, the conflict is told, and nothing else changes. -/
theorem Sequential.wp_entry (hC : Sequential C A) (entry : ReportEntry)
    (hfind : findOrder cfg s (some entry.report.clientOrderId) entry.report.exchangeOrderId = some o)
    (hx : o.Contradicts entry.report) (hreach : entry.Reaches s) :
    Proc.wp C (entry.program cfg)
      (fun _ _ s' => ConflictTold cfg (entry.named o) entry.report.status s s') h s := by
  cases entry with
  | applyReport r source =>
    refine (Proc.wp_bind _ _ _ _ _).2
      (Proc.wp_mono (hC.wp_applyReport_conflict hfind hx) fun res _ _ htold => ?_)
    cases res <;> exact htold
  | handle eventKey r fill =>
    refine (Proc.wp_bind _ _ _ _ _).2
      (Proc.wp_mono (hC.wp_handle_conflict hfind hx hreach) fun res _ _ htold => ?_)
    cases res <;> exact htold

/-- A process that runs alone, against whatever answers. -/
theorem sequential_alone (ans : History Label Ans → (q : Request) → Ledger → Ans q → Prop) :
    Sequential (.alone ans) fun q s a => ∃ h, ans h q s a where
  rely h := h
  ans h := ⟨_, h⟩
  step _ := trivial
  guard _ := trivial

/-- A report that conflicts with a terminal order leaves orders, fills, positions and processed
events exactly as they were, and only tells of the conflict; the event and the alert for the order
are in the outbox afterwards if and only if the report came through `apply_report`, carries the
order's own client order id, or met an order already alerted to. -/
theorem conflict_told_iff (entry : ReportEntry) (env : Prog.Env Label Ans) (h : History Label Ans)
    (hfind : findOrder cfg s (some entry.report.clientOrderId) entry.report.exchangeOrderId = some o)
    (hx : o.Contradicts entry.report) (hreach : entry.Reaches s) :
    let s' := (Prog.run env (entry.program cfg).run h s).2.2
    (s'.orders = s.orders ∧ s'.fills = s.fills ∧ s'.positions = s.positions ∧
      s'.processedEvents = s.processedEvents) ∧
    (∀ row ∈ s'.outbox, row ∈ s.outbox ∨
      row.TellsConflict cfg.bot (entry.named o) entry.report.status) ∧
    (s'.Alerted o.clientOrderId entry.report.status ↔ entry.Names s o) := by
  intro s'
  have htold : ConflictTold cfg (entry.named o) entry.report.status s s' :=
    (Prog.wp_run_iff env _ _ h s).1
      ((sequential_alone fun h q _ a => a = env h q).wp_entry entry hfind hx hreach)
  refine ⟨?_, htold.rows, (htold.alerted_iff _).trans ?_⟩
  · rw [htold.rest]
    exact ⟨rfl, rfl, rfl, rfl⟩
  · cases entry with
    | applyReport r source => exact iff_of_true (.inl rfl) trivial
    | handle eventKey r fill => exact Iff.rfl

/-! ### An alert that names another order -/

/-- A stream event under the client order id of no local order, about the order of an exchange id
that has been canceled. -/
def foreignCancel (eventKey exchangeOrderId : String) : ReportEntry :=
  .handle eventKey { sampleReport sampleEntry .buy .canceled 0 with
    clientOrderId := "web-1", exchangeOrderId := some exchangeOrderId } none

/-- The ledger after an entry. -/
def afterEntry (entry : ReportEntry) (s : Ledger) : Ledger :=
  (Prog.run (exchangeEnv (listing (.ok []))) (entry.program sampleConfig).run [] s).2.2

/-- The sale of the sample bot conflicts, then its purchase, both under one foreign client order
id: neither has an alert of its own, and the second conflict leaves no trace at all. -/
theorem foreign_conflict_lost :
    let s := afterEntry (foreignCancel "e1" "4712") sampleOrders
    let s' := afterEntry (foreignCancel "e2" "4711") s
    let o := sampleRow sampleEntry .buy 1 "4711"
    findOrder sampleConfig s (some "web-1") (some "4711") = some o ∧
      o.Contradicts (foreignCancel "e2" "4711").report ∧
      (foreignCancel "e2" "4711").Reaches s ∧
      ¬ s'.Alerted o.clientOrderId .canceled ∧ s'.outbox = s.outbox := by
  refine ⟨by decide +kernel, ?_, ?_, by decide +kernel, by decide +kernel⟩
  · exact .inr ⟨by decide +kernel, by decide +kernel, by decide +kernel⟩
  · show "e2" ∉ (afterEntry (foreignCancel "e1" "4712") sampleOrders).processedEvents
    decide +kernel

/-- The same conflict, found by a query. -/
theorem queried_conflict_told :
    (afterEntry (.applyReport { sampleReport sampleEntry .buy .canceled 0 with
      clientOrderId := "web-1" } "rest_query") sampleOrders).Alerted
        (sampleRow sampleEntry .buy 1 "4711").clientOrderId .canceled := by
  let entry : ReportEntry := .applyReport
    { sampleReport sampleEntry .buy .canceled 0 with clientOrderId := "web-1" } "rest_query"
  have hfind : findOrder sampleConfig sampleOrders (some entry.report.clientOrderId)
      entry.report.exchangeOrderId = some (sampleRow sampleEntry .buy 1 "4711") := by decide +kernel
  have hx : (sampleRow sampleEntry .buy 1 "4711").Contradicts entry.report :=
    .inr ⟨by decide +kernel, by decide +kernel, by decide +kernel⟩
  exact (conflict_told_iff entry (exchangeEnv (listing (.ok []))) [] hfind hx trivial).2.2.2 trivial

end

end CryptoBot
