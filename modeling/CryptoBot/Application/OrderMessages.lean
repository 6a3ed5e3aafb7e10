import CryptoBot.Application.Moves
import CryptoBot.ControlPlane.DeliveryOrder
import CryptoBot.Lib.Pool

/-!
# The messages about an order

Every transaction that saves an order leaves a message with the saved row under the key of its new
version. The version grows with every save, so the key is a new one and the message is not ignored:
the outbox always holds the row of every order as it is stored, and older versions beside it. The
mirror keeps the newest version, so it ends with the row as it is stored.
-/

namespace CryptoBot

open Lib OrderService

/-! ## What the outbox holds -/

/-- Every order, but for the one in the row `unsaved`, is in the outbox as it is stored; a message
about an order is under the key of its version, which is not newer than the order's. -/
structure Published (s : Ledger) (unsaved : Option Nat := none) : Prop where
  newest : ∀ o ∈ s.orders.rows, some o.id ≠ unsaved → ∃ row ∈ s.outbox, row.kind = .orders ∧
    row.key = .order o.clientOrderId o.version ∧
    row.message = .order o (s.intentSignalId o.clientIntentId)
  past : ∀ row ∈ s.outbox, ∀ c v, row.key = .order c v → ∃ o ∈ s.orders.rows,
    o.clientOrderId = c ∧ v ≤ o.version
  shape : ∀ row ∈ s.outbox, ∀ o signalId, row.message = .order o signalId →
    row.key = .order o.clientOrderId o.version
  keys : s.outbox.Pairwise fun a b => a.key ≠ b.key
  intents : ∀ o ∈ s.orders.rows, ∃ i ∈ s.intents, i.clientIntentId = o.clientIntentId

/-- The keys of messages about orders. -/
def OutboxKey.isOrder : OutboxKey → Bool
  | .order .. => true
  | _ => false

/-- The messages about orders. -/
def OutboxMessage.tellsOrder : OutboxMessage → Bool
  | .order .. => true
  | _ => false

/-- A transaction that keeps the outbox in step with the orders. -/
def Tx.Publishes {α : Type} (t : Tx α) : Prop :=
  ∀ s a s', t s = .ok (a, s') → Published s → Published s'

section
variable {α β : Type} {s s' : Ledger} {now : Time}

namespace Tx.Publishes

theorem pure (a : α) : (Pure.pure a : Tx α).Publishes := fun _ _ _ h hs => by
  obtain ⟨-, rfl⟩ := Tx.pure_ok.1 h
  exact hs

theorem bind {t : Tx α} {f : α → Tx β} (ht : t.Publishes) (hf : ∀ a, (f a).Publishes) :
    (t >>= f).Publishes := by
  intro s b s' h hs
  obtain ⟨a, s₁, h₁, h₂⟩ := Tx.bind_ok.1 h
  exact hf a s₁ b s' h₂ (ht s a s₁ h₁ hs)

/-- A transaction that touches neither intents nor orders nor outbox. -/
theorem of_same {t : Tx α} (ht : ∀ s a s', t s = .ok (a, s') →
    s'.intents = s.intents ∧ s'.orders = s.orders ∧ s'.outbox = s.outbox) : t.Publishes := by
  intro s a s' h hs
  obtain ⟨hi, ho, hb⟩ := ht s a s' h
  obtain ⟨h1, h2, h3, h4, h5⟩ := hs
  refine ⟨?_, ?_, ?_, ?_, ?_⟩ <;> simp only [hi, ho, hb, Ledger.intentSignalId] <;> assumption

end Tx.Publishes

/-- What a message with a new key adds to the outbox. -/
theorem Store.enqueue_cases {kind : OutboxKind} {key : OutboxKey} {message : OutboxMessage}
    (h : Store.enqueue kind key message now s = .ok (⟨⟩, s')) :
    (∃ row ∈ s.outbox, row.key = key) ∧ s' = s ∨
    (∀ row ∈ s.outbox, row.key ≠ key) ∧ ∃ row, row.kind = kind ∧ row.key = key ∧
      row.message = message ∧ s' = { s with outbox := s.outbox ++ [row] } := by
  unfold Store.enqueue at h
  split at h
  · next hany =>
    cases h
    obtain ⟨row, hrow, hk⟩ := List.any_eq_true.1 hany
    exact .inl ⟨⟨row, hrow, of_decide_eq_true hk⟩, rfl⟩
  · next hany =>
    cases h
    refine .inr ⟨fun row hrow hk => hany ?_, _, rfl, rfl, rfl, rfl⟩
    exact List.any_eq_true.2 ⟨row, hrow, decide_eq_true hk⟩

theorem Published.append_keys {row : OutboxRow} {unsaved : Option Nat} (hs : Published s unsaved)
    (hnew : ∀ r ∈ s.outbox, r.key ≠ row.key) :
    (s.outbox ++ [row]).Pairwise fun a b => a.key ≠ b.key := by
  refine List.pairwise_append.2 ⟨hs.keys, List.pairwise_singleton _ _, fun a ha b hb => ?_⟩
  rw [List.mem_singleton.1 hb]
  exact hnew a ha

/-- A message about something else. -/
theorem enqueue_publishes {kind : OutboxKind} {key : OutboxKey} {message : OutboxMessage}
    (hkey : key.isOrder = false) (hmessage : message.tellsOrder = false) :
    (Store.enqueue kind key message now).Publishes := by
  intro s _ s' h hs
  obtain ⟨-, rfl⟩ | ⟨hnew, row, -, rfl, rfl, rfl⟩ := Store.enqueue_cases h
  · exact hs
  · refine ⟨fun o ho hid => ?_, fun r hr c v hk => ?_, fun r hr o signalId hm => ?_,
      hs.append_keys hnew, hs.intents⟩
    · obtain ⟨r, hr, hrest⟩ := hs.newest o ho hid
      exact ⟨r, List.mem_append_left _ hr, hrest⟩
    · rcases List.mem_append.1 hr with hr | hr
      · exact hs.past r hr c v hk
      · rw [List.mem_singleton.1 hr] at hk
        rw [hk] at hkey
        cases hkey
    · rcases List.mem_append.1 hr with hr | hr
      · exact hs.shape r hr o signalId hm
      · rw [List.mem_singleton.1 hr] at hm
        rw [hm] at hmessage
        cases hmessage

theorem enqueueEvent_publishes {bot message : String} {type : EventType} {severity : EventSeverity}
    {payload : EventPayload} {key : OutboxKey} {alert : Bool} (hkey : key.isOrder = false) :
    (Store.enqueueEvent bot type message severity payload key alert now).Publishes := by
  refine (enqueue_publishes hkey rfl).bind fun _ => ?_
  cases alert with
  | false => exact .pure _
  | true => exact enqueue_publishes rfl rfl

theorem saveOrder_outbox {o o' : Order} (h : Store.saveOrder o s = .ok (o', s')) :
    s'.outbox = s.outbox := by
  unfold Store.saveOrder at h
  dsimp only at h
  split at h
  · split at h <;> cases h
    rfl
  · cases h

/-- Saving an order and leaving its message, in one transaction. -/
theorem Published.save {x o o' : Order} {s₁ : Ledger} {unsaved : Option Nat}
    (hs : Published s unsaved) (hunsaved : ∀ i ∈ unsaved, i = x.id) (hx : x ∈ s.orders.rows)
    (hsame : Order.Same x o) (hversion : o.version = x.version)
    (hsave : Store.saveOrder o s = .ok (o', s₁))
    (htell : Store.enqueueOrder o' now s₁ = .ok (⟨⟩, s')) : Published s' := by
  obtain ⟨ho', hrep⟩ := Store.saveOrder_ok hx hsame hsave
  have hv : o'.version = x.version + 1 := by rw [ho', ← hversion]
  have hc : o'.clientOrderId = x.clientOrderId := hrep.same.clientOrderId
  have hbox := saveOrder_outbox hsave
  have hkeep (y : Order) (hy : y ∈ s₁.orders.rows) : ∃ z ∈ s.orders.rows,
      z.clientIntentId = y.clientIntentId := by
    rcases hrep.mem_iff.1 hy with rfl | ⟨hy, -⟩
    · exact ⟨x, hx, hrep.same.clientIntentId.symm⟩
    · exact ⟨y, hy, rfl⟩
  -- no message has the key of the new version yet
  have hnone : ∀ row ∈ s₁.outbox, row.key ≠ .order o'.clientOrderId o'.version := by
    intro row hrow hk
    obtain ⟨y, hy, hyc, hle⟩ := hs.past row (hbox ▸ hrow) _ _ hk
    obtain rfl := Ledger.eq_of_clientOrderId hy hx (hyc.trans hc)
    omega
  obtain ⟨⟨row, hrow, hk⟩, -⟩ | ⟨hnew, row, hkind, hkey, hmsg, rfl⟩ := Store.enqueue_cases htell
  · exact absurd hk (hnone row hrow)
  · have hsignal (i : IntentId) : s₁.intentSignalId i = s.intentSignalId i := by
      rw [Ledger.intentSignalId, hrep.intents, Ledger.intentSignalId]
    refine ⟨fun y hy _ => ?_, fun r hr c v hrk => ?_, fun r hr y signalId hrm => ?_, ?_, ?_⟩
    · rcases hrep.mem_iff.1 hy with rfl | ⟨hy, hid⟩
      · exact ⟨row, List.mem_append_right _ (.head _), hkind, hkey, hmsg⟩
      · obtain ⟨r, hr, hrkind, hrkey, hrmsg⟩ :=
          hs.newest y hy fun h => hid (hunsaved _ h.symm)
        refine ⟨r, List.mem_append_left _ (hbox ▸ hr), hrkind, hrkey, hrmsg.trans ?_⟩
        exact congrArg _ (hsignal _).symm
    · rcases List.mem_append.1 hr with hr | hr
      · obtain ⟨y, hy, hyc, hle⟩ := hs.past r (hbox ▸ hr) c v hrk
        by_cases hid : y.id = x.id
        · obtain rfl := Ledger.eq_of_id hy hx hid
          exact ⟨o', hrep.mem_new, hc.trans hyc, by omega⟩
        · exact ⟨y, hrep.mem_iff.2 (.inr ⟨hy, hid⟩), hyc, hle⟩
      · rw [List.mem_singleton.1 hr, hkey] at hrk
        cases hrk
        exact ⟨o', hrep.mem_new, rfl, le_rfl⟩
    · rcases List.mem_append.1 hr with hr | hr
      · exact hs.shape r (hbox ▸ hr) y signalId hrm
      · rw [List.mem_singleton.1 hr] at hrm ⊢
        rw [hmsg] at hrm
        cases hrm
        exact hkey
    · have hpair : (s.outbox ++ [row]).Pairwise fun a b => a.key ≠ b.key :=
        hs.append_keys fun r hr => hkey ▸ hnew r (hbox ▸ hr)
      rw [← hbox] at hpair
      exact hpair
    · intro y hy
      obtain ⟨z, hz, hzi⟩ := hkeep y hy
      obtain ⟨i, hi, hii⟩ := hs.intents z hz
      exact ⟨i, hrep.intents ▸ hi, hii.trans hzi⟩

end

/-! ## The order service's transactions -/

section
variable {cfg : Config} {now : Time}

theorem applyReportTx_publishes {r : ExchangeOrderReport} :
    (applyReportTx cfg r now).Publishes := by
  intro s out s' h hs
  unfold applyReportTx at h
  split at h
  · cases h
    exact hs
  · next o hf =>
    split at h
    · cases h
      exact hs
    · next changed o₁ ha =>
      split at h
      · next hch =>
        subst hch
        obtain ⟨o₂, s₁, hsave, h⟩ := Tx.bind_ok.1 h
        obtain ⟨_, s₂, htell, h⟩ := Tx.bind_ok.1 h
        obtain ⟨-, rfl⟩ := Tx.pure_ok.1 h
        have hok := (Order.applyReport_ok ha).1
        exact hs.save nofun (findOrder_mem hf) hok.same hok.version hsave htell
      · cases h
        exact hs

theorem rejectTx_publishes {c reason : String} : (rejectTx c reason now).Publishes := by
  intro s _ s' h hs
  unfold rejectTx at h
  obtain ⟨o, s₁, hget, h₁⟩ := Tx.bind_ok.1 h
  obtain ⟨hc, rfl⟩ := Store.present_ok hget
  obtain ⟨⟨b, o₁⟩, s₂, hleg, h₂⟩ := Tx.bind_ok.1 h₁
  obtain ⟨hmark, rfl⟩ := Store.legal_ok hleg
  cases b with
  | false =>
    obtain ⟨-, rfl⟩ := Tx.pure_ok.1 h₂
    exact hs
  | true =>
    obtain ⟨o₂, s₃, hsave, h₃⟩ := Tx.bind_ok.1 h₂
    exact hs.save nofun (Ledger.getOrder_eq_some.1 hc).1 (Order.markRejected_ok hmark).1
      (Order.markRejected_ok hmark).2.1 hsave h₃

theorem flagAmbiguousTx_publishes {c error : String} :
    (flagAmbiguousTx cfg c error now).Publishes := by
  intro s _ s' h hs
  unfold flagAmbiguousTx at h
  obtain ⟨o, s₁, hget, h₁⟩ := Tx.bind_ok.1 h
  obtain ⟨hc, rfl⟩ := Store.present_ok hget
  obtain ⟨o₂, s₂, hsave, h₂⟩ := Tx.bind_ok.1 h₁
  obtain ⟨_, s₃, htell, h₃⟩ := Tx.bind_ok.1 h₂
  have hsame : Order.Same o { o with submissionAmbiguous := true } := by constructor <;> rfl
  exact enqueueEvent_publishes rfl _ _ _ h₃
    (hs.save nofun (Ledger.getOrder_eq_some.1 hc).1 hsame rfl hsave htell)

theorem insertFill_publishes {f : Fill} : (Store.insertFill f).Publishes :=
  .of_same fun s r s' h => by
    unfold Store.insertFill at h
    dsimp only at h
    split at h <;> cases h <;> exact ⟨rfl, rfl, rfl⟩

theorem applyFill_publishes {f : Fill} :
    (PositionService.applyFill cfg.bot f now).Publishes := by
  refine .bind (.of_same fun _ _ _ h => by cases h; exact ⟨rfl, rfl, rfl⟩) fun _ => ?_
  exact .bind (.of_same fun _ _ _ h => by cases h; exact ⟨rfl, rfl, rfl⟩) fun _ => .pure _

theorem ingestFillTx_publishes {xf : ExchangeFill} : (ingestFillTx cfg xf now).Publishes := by
  intro s b s' h hs
  unfold ingestFillTx at h
  split at h
  · cases h
    exact hs
  · next o hf =>
    refine Tx.Publishes.bind insertFill_publishes (fun r => ?_) s b s' h hs
    cases r with
    | none => exact .pure _
    | some fill =>
      refine applyFill_publishes.bind fun result => ?_
      refine (enqueue_publishes rfl rfl).bind fun _ => (enqueue_publishes rfl rfl).bind fun _ => ?_
      dsimp only
      split
      · exact (enqueueEvent_publishes rfl).bind fun _ => .pure _
      · exact .pure _

theorem handleTx_publishes {eventKey : String} {r : ExchangeOrderReport} {xf : Option ExchangeFill} :
    (StreamIngestionService.handleTx cfg eventKey r xf now).Publishes := by
  refine .bind (.of_same fun s b s' h => ?_) fun new => ?_
  · unfold Store.markEventProcessed at h
    split at h <;> cases h <;> exact ⟨rfl, rfl, rfl⟩
  · split
    · refine applyReportTx_publishes.bind fun out => ?_
      cases out with
      | conflict => exact fun _ _ _ h => by cases h
      | unknown | applied =>
        cases xf with
        | none => exact .pure _
        | some xf => exact ingestFillTx_publishes.bind fun _ => .pure _
    · exact .pure _

/-- A new intent and the row of its order, before the order is saved. -/
theorem Published.insert {s s' : Ledger} {intent : OrderIntent} {o : Order} {r : Option Order}
    (hs : Published s) (hid : o.clientIntentId = intent.clientIntentId)
    (h : Store.insertIntentAndOrder intent o s = .ok (r, s')) :
    r = none ∧ s' = s ∨ ∃ id, r = some { o with id } ∧ Store.insertedRow o id ∈ s'.orders.rows ∧
      Published s' (some id) := by
  unfold Store.insertIntentAndOrder at h
  split at h
  · cases h
    exact .inl ⟨rfl, rfl⟩
  · next hany =>
    dsimp only at h
    split at h
    · next orders horders =>
      cases h
      have hrows := Table.insert?_eq_some.1 horders
      have hmem (y : Order) : y ∈ orders.rows ↔ y ∈ s.orders.rows ∨
          y = Store.insertedRow o (Store.nextId (s.orders.rows.map (·.id))) := by
        rw [hrows, List.mem_append, List.mem_singleton]
      refine .inr ⟨_, rfl, (hmem _).2 (.inr rfl), fun y hy hyid => ?_, fun row hrow c v hk => ?_,
        hs.shape, hs.keys, fun y hy => ?_⟩
      · rcases (hmem y).1 hy with hy | rfl
        · obtain ⟨row, hrow, hkind, hkey, hmsg⟩ := hs.newest y hy nofun
          refine ⟨row, hrow, hkind, hkey, hmsg.trans (congrArg _ ?_)⟩
          -- the intent of an order that was there is found as before
          obtain ⟨i, hi, hii⟩ := hs.intents y hy
          have hsome :
              (s.intents.find? fun i => decide (i.clientIntentId = y.clientIntentId)).isSome :=
            List.find?_isSome.2 ⟨i, hi, decide_eq_true hii⟩
          obtain ⟨j, hj⟩ := Option.isSome_iff_exists.1 hsome
          simp only [Ledger.intentSignalId, List.find?_append, hj, Option.some_or]
        · exact absurd rfl hyid
      · obtain ⟨y, hy, hyc, hle⟩ := hs.past row hrow c v hk
        exact ⟨y, (hmem y).2 (.inl hy), hyc, hle⟩
      · rcases (hmem y).1 hy with hy | rfl
        · obtain ⟨i, hi, hii⟩ := hs.intents y hy
          exact ⟨i, List.mem_append_left _ hi, hii⟩
        · exact ⟨intent, List.mem_append_right _ (.head _), hid.symm⟩
    · cases h

theorem persistTx_publishes {intent : OrderIntent} {rules : SymbolRules} {o₀ : Order} {t : Time}
    (ho : (newOrder cfg intent rules).markSubmitting t = .ok o₀) :
    (persistTx intent o₀ now).Publishes := by
  have ho₀ : o₀ = { newOrder cfg intent rules with
      status := .submitting, submittedAt := some t } := by
    cases ho; rfl
  intro s r s' h hs
  unfold persistTx at h
  obtain ⟨x, s₁, hins, h₁⟩ := Tx.bind_ok.1 h
  obtain ⟨rfl, rfl⟩ | ⟨id, rfl, hrow, hs₁⟩ := hs.insert (by rw [ho₀]; rfl) hins
  · obtain ⟨_, _, hget, h₂⟩ := Tx.bind_ok.1 h₁
    cases hget
    obtain ⟨-, rfl⟩ := Tx.pure_ok.1 h₂
    exact hs
  · obtain ⟨o₂, s₂, hsave, h₂⟩ := Tx.bind_ok.1 h₁
    obtain ⟨_, s₃, htell, h₃⟩ := Tx.bind_ok.1 h₂
    obtain ⟨-, rfl⟩ := Tx.pure_ok.1 h₃
    refine hs₁.save (fun i hi => ?_) hrow ?_ (by rw [ho₀]; rfl) hsave htell
    · cases hi
      rfl
    · constructor <;> rfl

end

/-! ## The programs -/

/-- The steps that keep the outbox in step with the orders. -/
def Publishing (_ : Label) (s s' : Ledger) : Prop := Published s → Published s'

section
variable {cfg : Config} {α : Type} {now : Time}

theorem query_publishing (l : Label) (f : Ledger → α) : (query l f).Within Publishing :=
  query_within fun _ hs => hs

theorem transaction_publishing {l : Label} {t : Tx α} (ht : t.Publishes) :
    (transaction l t).Within Publishing :=
  transaction_within (fun _ hs => hs) ht

theorem recordConflict_publishing {c message source : String} {status : OrderStatus} :
    (recordConflict cfg c status message source).Within Publishing :=
  clockNow_within.bind fun _ => (transaction_publishing (enqueue_publishes rfl rfl)).bind fun _ =>
    transaction_publishing (enqueue_publishes rfl rfl)

theorem applyReport_publishing {r : ExchangeOrderReport} {source : String} :
    (applyReport cfg r source).Within Publishing := by
  refine clockNow_within.bind fun _ =>
    (transaction_publishing applyReportTx_publishes).bind fun out => ?_
  cases out with
  | unknown | applied => exact Proc.within_pure _
  | conflict c m => exact recordConflict_publishing.bind fun _ => Proc.within_throw _

theorem ingestFills_publishing {xfs : List ExchangeFill} :
    (ingestFills cfg xfs).Within Publishing :=
  Proc.Within.forM (fun _ => (clockNow_within.bind fun _ =>
    transaction_publishing ingestFillTx_publishes).bind fun _ => Proc.within_pure _) xfs

theorem ingestOrderFills_publishing {o : Option Order} :
    (ingestOrderFills cfg o).Within Publishing := by
  cases o with
  | none => exact Proc.within_pure _
  | some o =>
    exact .ite ((call_within _).bind fun _ => ingestFills_publishing) (Proc.within_pure _)

theorem resolveAmbiguous_publishing {o : Order} :
    (resolveAmbiguous cfg o).Within Publishing := by
  refine .ite (Proc.within_pure _) ((call_within _).attempt.bind fun r => ?_)
  rcases r with e | _ | r
  · exact Proc.within_pure _
  · refine clockNow_within.bind fun t => .ite (Proc.within_pure _) ?_
    exact (transaction_publishing rejectTx_publishes).bind fun _ => Proc.within_pure _
  · exact applyReport_publishing.bind fun _ => (query_publishing _ _).bind fun _ =>
      ingestOrderFills_publishing.bind fun _ => Proc.within_pure _

theorem settle_publishing {o : Order} {out : SubmitOutcome} :
    (settle cfg o out).Within Publishing := by
  unfold settle
  split
  · exact (orRaise_within _ _).bind fun _ => applyReport_publishing.bind fun _ =>
      ingestFills_publishing
  · exact clockNow_within.bind fun _ => transaction_publishing rejectTx_publishes
  · exact clockNow_within.bind fun _ => (transaction_publishing flagAmbiguousTx_publishes).bind
      fun _ => (query_publishing _ _).bind fun _ => (orRaise_within _ _).bind fun _ =>
        resolveAmbiguous_publishing.bind fun _ => Proc.within_pure _

theorem submitIntent_publishing {intent : OrderIntent} {rules : SymbolRules} :
    (submitIntent cfg intent rules).Within Publishing := by
  refine (query_publishing _ _).bind fun existing => ?_
  cases existing with
  | some o => exact Proc.within_pure _
  | none =>
    refine clockNow_within.bind fun t => ?_
    dsimp only
    split
    · exact Proc.within_throw _
    · next o₀ ho =>
      refine (transaction_publishing (persistTx_publishes ho)).bind fun r => ?_
      cases r with
      | error existing => exact Proc.within_pure _
      | ok o =>
        refine (call_within _).attempt.bind fun out => ?_
        cases out <;> exact settle_publishing.bind fun _ => query_publishing _ _

theorem setBalances_publishing {balances : List (String × AssetBalance)} :
    (transaction .commit (Store.setBalances cfg.bot balances)).Within Publishing :=
  transaction_publishing (.of_same fun _ _ _ h => by cases h; exact ⟨rfl, rfl, rfl⟩)

theorem handle_publishing {ev : StreamEvent} :
    (StreamIngestionService.handle cfg ev).Within Publishing := by
  cases ev with
  | terminated | ignored => exact Proc.within_pure _
  | balance b =>
    exact (query_publishing _ _).bind fun _ => setBalances_publishing.bind fun _ =>
      Proc.within_pure _
  | order eventKey r xf =>
    refine (query_publishing _ _).bind fun found => ?_
    cases found with
    | none => dsimp only; split <;> exact Proc.within_pure _
    | some o =>
      refine clockNow_within.bind fun t =>
        (transaction_publishing handleTx_publishes).attempt.bind fun res => ?_
      rcases res with e | out
      · cases e with
        | orderConflict m => exact recordConflict_publishing.bind fun _ => Proc.within_pure _
        | _ => exact Proc.within_throw _
      · exact Proc.within_pure _

end

/-- What submits orders and applies exchange data to them. -/
inductive OrderProgram (cfg : Config) : Prog Ledger Label Ans PUnit → Prop
  | submitIntent (intent : OrderIntent) (rules : SymbolRules) :
      OrderProgram cfg (OrderService.submitIntent cfg intent rules).run.forget
  | resolveAmbiguous (o : Order) : OrderProgram cfg (OrderService.resolveAmbiguous cfg o).run.forget
  | applyReport (r : ExchangeOrderReport) (source : String) :
      OrderProgram cfg (OrderService.applyReport cfg r source).run.forget
  | handle (ev : StreamEvent) : OrderProgram cfg (StreamIngestionService.handle cfg ev).run.forget

theorem OrderProgram.publishing {cfg : Config} {p : Prog Ledger Label Ans PUnit}
    (hp : OrderProgram cfg p) : p.Within Publishing := by
  cases hp with
  | submitIntent => exact Prog.Within.forget submitIntent_publishing
  | resolveAmbiguous => exact Prog.Within.forget resolveAmbiguous_publishing
  | applyReport => exact Prog.Within.forget applyReport_publishing
  | handle => exact Prog.Within.forget handle_publishing

theorem published_empty : Published {} where
  newest _ h := nomatch h
  past _ h := nomatch h
  shape _ h := nomatch h
  keys := .nil
  intents _ h := nomatch h

section
variable {cfg : Config} {τ : Type} [DecidableEq τ] {P : Pool τ Ledger Label Ans}

/-- In every run of these programs, in any interleaving and with restarts at any point, the outbox
is in step with the orders. -/
theorem published_of_run (hrun : Pool.Run (OrderProgram cfg) (fun _ _ => True) (.idle {}) P) :
    Published P.state := by
  refine Pool.Run.invariant_of_within (R := Publishing) OrderProgram.publishing
    (fun h hs => h hs) (fun _ => ?_) ?_ hrun
  · exact trivial
  · exact published_empty

end

/-! ## The mirror of an order -/

/-- A mirror that has received the newest message about an order, whatever else of the outbox it has
received and in whatever order, holds the order as it is stored. -/
theorem Published.mirrored {s : Ledger} (hs : Published s) {o : Order} (ho : o ∈ s.orders.rows)
    {cols : ColumnLib} {bot : String} {m m' : Mirror} {l : List OutboxMessage}
    (hsent : ∀ d ∈ l, ∃ row ∈ s.outbox, row.message = d)
    (hnewest : .order o (s.intentSignalId o.clientIntentId) ∈ l)
    (hm : m.order? bot o.clientOrderId = none) (h : Mirror.deliverAll cols bot l m = some m') :
    (m'.order? bot o.clientOrderId).map (·.columns) = some (Mirror.orderColumns cols o) := by
  have hkey {y : Order} {signalId : Option SignalId} (hy : .order y signalId ∈ l) :
      ∃ row ∈ s.outbox, row.message = .order y signalId ∧
        row.key = .order y.clientOrderId y.version := by
    obtain ⟨row, hrow, hmsg⟩ := hsent _ hy
    exact ⟨row, hrow, hmsg, hs.shape row hrow _ _ hmsg⟩
  have habout {y : Order} (hy : y ∈ Mirror.ordersAbout o.clientOrderId l) :
      y.version ≤ o.version ∧ (y.version = o.version → y = o) := by
    obtain ⟨⟨signalId, hy⟩, hyc⟩ := Mirror.mem_ordersAbout.1 hy
    obtain ⟨row, hrow, hmsg, hk⟩ := hkey hy
    refine ⟨?_, fun hv => ?_⟩
    · obtain ⟨z, hz, hzc, hle⟩ := hs.past row hrow _ _ hk
      rw [Ledger.eq_of_clientOrderId hz ho (hzc.trans hyc)] at hle
      exact hle
    · obtain ⟨row', hrow', hmsg', hk'⟩ := hkey hnewest
      have heq : row.key = row'.key := by rw [hk, hk', hyc, hv]
      have hnodup := List.pairwise_map.2 hs.keys
      rw [List.inj_on_of_nodup_map hnodup hrow hrow' heq, hmsg'] at hmsg
      cases hmsg
      rfl
  have hmem : Mirror.orderColumns cols o ∈
      (Mirror.ordersAbout o.clientOrderId l).map (Mirror.orderColumns cols) :=
    List.mem_map_of_mem (Mirror.mem_ordersAbout.2 ⟨⟨_, hnewest⟩, rfl⟩)
  rw [Mirror.columns_after h, hm]
  refine Register.foldl_keep_newest hmem (fun b hb => ?_) (fun b hb => ?_) fun b hb hv => ?_
  · cases hb
  · obtain ⟨y, hy, rfl⟩ := List.mem_map.1 hb
    exact (habout hy).1
  · obtain ⟨y, hy, rfl⟩ := List.mem_map.1 hb
    rw [(habout hy).2 hv]

/-- In every ledger these programs lead to, the outbox holds every order as it is stored, and every
delivery of its messages, with any others and in any order, that includes this one leaves the mirror
with the order as it is stored. -/
theorem order_mirror_converges {cfg : Config} {τ : Type} [DecidableEq τ]
    {P : Pool τ Ledger Label Ans}
    (hrun : Pool.Run (OrderProgram cfg) (fun _ _ => True) (.idle {}) P) {o : Order}
    (ho : o ∈ P.state.orders.rows) :
    (∃ row ∈ P.state.outbox, row.kind = .orders ∧
      row.key = .order o.clientOrderId o.version ∧
      row.message = .order o (P.state.intentSignalId o.clientIntentId)) ∧
    ∀ {cols : ColumnLib} {bot : String} {m m' : Mirror} {l : List OutboxMessage},
      (∀ d ∈ l, ∃ row ∈ P.state.outbox, row.message = d) →
      .order o (P.state.intentSignalId o.clientIntentId) ∈ l →
      m.order? bot o.clientOrderId = none → Mirror.deliverAll cols bot l m = some m' →
      (m'.order? bot o.clientOrderId).map (·.columns) = some (Mirror.orderColumns cols o) :=
  ⟨(published_of_run hrun).newest o ho nofun,
    fun hsent hnewest hm h => (published_of_run hrun).mirrored ho hsent hnewest hm h⟩

/-- A sample order, submitted and acknowledged. -/
def submittedPool : Pool Unit Ledger Label Ans :=
  ((Pool.idle {}).restart () (submitIntent sampleConfig (sampleIntent sampleEntry .buy 2)
    { symbol := ⟨"BTC", "USDT"⟩, baseAsset := "BTC", quoteAsset := "USDT" }).run.forget).go
    (exchangeEnv fun
      | .submit .. => .ok { kind := .acknowledged, report := some (sampleReport sampleEntry .buy .new 0) }
      | r => listing (.ok []) r) () 20

def submittedOrder : Order :=
  (submittedPool.state.orders.rows.head?).getD (sampleRow sampleEntry .buy 1 "4711")

/-- The acknowledged order is in the outbox in its second version; delivered before the first
version, it is what the mirror ends with. -/
theorem submitted_order_converges :
    submittedOrder.version = 2 ∧ ∃ m', Mirror.deliverAll Mirror.unroundedColumns "default"
      (submittedPool.state.outbox.map (·.message)).reverse {} = some m' ∧
      (m'.order? "default" submittedOrder.clientOrderId).map (·.columns) =
        some (Mirror.orderColumns Mirror.unroundedColumns submittedOrder) := by
  have hrun : Pool.Run (OrderProgram sampleConfig) (fun _ _ => True) (.idle {}) submittedPool :=
    (Pool.run_restart () (.submitIntent _ _) trivial).trans (Pool.run_go_any _ _ _ _)
  have hmem : submittedOrder ∈ submittedPool.state.orders.rows := by decide +kernel
  have hsome : (Mirror.deliverAll Mirror.unroundedColumns "default"
      (submittedPool.state.outbox.map (·.message)).reverse {}).isSome := by decide +kernel
  obtain ⟨m', hm'⟩ := Option.isSome_iff_exists.1 hsome
  refine ⟨by decide +kernel, m', hm', ?_⟩
  refine (order_mirror_converges hrun hmem).2 (fun d hd => ?_) ?_ rfl hm'
  · obtain ⟨row, hrow, rfl⟩ := List.mem_map.1 (List.mem_reverse.1 hd)
    exact ⟨row, hrow, rfl⟩
  · decide +kernel

end CryptoBot
