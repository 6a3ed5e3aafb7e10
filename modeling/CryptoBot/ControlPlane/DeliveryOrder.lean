import CryptoBot.ControlPlane.MirrorLaws

/-!
# The mirror and the order of delivery

After all messages of a list have been delivered, the columns of every row are those of the list as
a set. The link of an order to its signal and of a fill to its order is there exactly when the row
it points to was there before the first message that created the row with the link.
-/

namespace CryptoBot

open Lib

/-! ## What a message is about -/

namespace OutboxMessage

def isSignal (s : SignalId) : OutboxMessage → Bool
  | .signal id .. => decide (id = s)
  | _ => false

def isOrder (c : String) : OutboxMessage → Bool
  | .order o _ => decide (o.clientOrderId = c)
  | _ => false

def isFill (k : String) : OutboxMessage → Bool
  | .fill f => decide (f.eventKey = k)
  | _ => false

/-- The idempotency key of a message about a signal, an order or a fill. -/
def key? : OutboxMessage → Option OutboxKey
  | .signal id .. => some (.signal id)
  | .order o _ => some (.order o.clientOrderId o.version)
  | .fill f => some (.fill f.eventKey)
  | _ => none

/-- Some message with `p` is delivered before the first one with `q`. -/
def Precedes (l : List OutboxMessage) (p q : OutboxMessage → Bool) : Prop :=
  ∃ d ∈ l.takeWhile fun d => !q d, p d

instance (l : List OutboxMessage) (p q : OutboxMessage → Bool) : Decidable (Precedes l p q) := by
  unfold Precedes; infer_instance

/-- A set of messages as an outbox holds them: one for each idempotency key, and one signal for all
messages about an order. -/
structure Coherent (l : List OutboxMessage) : Prop where
  keys : ∀ d ∈ l, ∀ d' ∈ l, d.key?.isSome → d.key? = d'.key? → d = d'
  signals : ∀ o s o' s', .order o s ∈ l → .order o' s' ∈ l → o.clientOrderId = o'.clientOrderId →
    s = s'

theorem isSignal_iff {s : SignalId} {d : OutboxMessage} :
    d.isSignal s ↔ ∃ price reasons mode t, d = .signal s price reasons mode t := by
  cases d <;> simp [isSignal]

theorem isOrder_iff {c : String} {d : OutboxMessage} :
    d.isOrder c ↔ ∃ o s, d = .order o s ∧ o.clientOrderId = c := by
  cases d <;> simp [isOrder]

theorem isFill_iff {k : String} {d : OutboxMessage} :
    d.isFill k ↔ ∃ f, d = .fill f ∧ f.eventKey = k := by
  cases d <;> simp [isFill]

end OutboxMessage

namespace Mirror

open OutboxMessage

variable {cols : ColumnLib} {bot : String} {l l' : List OutboxMessage} {m m' m₁ m₂ : Mirror}

theorem deliverAll_nil : deliverAll cols bot [] m = some m' ↔ m' = m := by
  constructor
  · intro h
    cases h
    rfl
  · rintro rfl
    rfl

theorem deliverAll_cons {d : OutboxMessage} : deliverAll cols bot (d :: l) m = some m' ↔
    ∃ m₁, deliver cols bot d m = some m₁ ∧ deliverAll cols bot l m₁ = some m' := by
  simp [deliverAll, Option.bind_eq_some_iff]

/-! ## Signals -/

/-- The signals after a list of messages: the rows that were there, and one for the first message
about every other signal. -/
theorem signal?_after {s : SignalId} (h : deliverAll cols bot l m = some m') :
    m'.signal? s = (m.signal? s).or (l.findSome? (newSignal cols bot s)) := by
  induction l generalizing m with
  | nil => simp [deliverAll_nil.1 h]
  | cons d l ih =>
    obtain ⟨m₁, hd, hl⟩ := deliverAll_cons.1 h
    rw [ih hl, (deliver_delivered hd).signals, Option.or_assoc, List.findSome?_cons]
    cases newSignal cols bot s d <;> rfl

theorem newSignal_isSome {s : SignalId} {d : OutboxMessage} :
    (newSignal cols bot s d).isSome ↔ d.isSignal s := by
  cases d <;> simp [newSignal, isSignal]

theorem newSignal_bot {s : SignalId} {d : OutboxMessage} {r : SignalRow}
    (h : newSignal cols bot s d = some r) : r.bot = bot := by
  unfold newSignal at h
  split at h
  · split at h <;> cases h
    rfl
  · cases h

/-- An order created after a list of messages links to its signal exactly when the bot's signal was
there, or is created by one of them. -/
theorem signalLink_after {s : SignalId} (h : deliverAll cols bot l m = some m') :
    m'.signalLink bot (some s) = some s ↔ m.signalLink bot (some s) = some s ∨
      m.signal? s = none ∧ ∃ d ∈ l, d.isSignal s := by
  rw [signalLink_eq_some, signalLink_eq_some, signal?_after h]
  cases hs : m.signal? s with
  | some r => simp
  | none =>
    simp only [Option.none_or, true_and, reduceCtorEq, false_and, exists_false, false_or]
    constructor
    · rintro ⟨r, hr, -⟩
      obtain ⟨d, hd, hnew⟩ := List.exists_of_findSome?_eq_some hr
      exact ⟨d, hd, newSignal_isSome.1 (Option.isSome_of_eq_some hnew)⟩
    · rintro ⟨d, hd, hsig⟩
      have hsome : (l.findSome? (newSignal cols bot s)).isSome := by
        rw [List.findSome?_isSome_iff]
        exact ⟨d, hd, newSignal_isSome.2 hsig⟩
      obtain ⟨r, hr⟩ := Option.isSome_iff_exists.1 hsome
      obtain ⟨d', -, hnew⟩ := List.exists_of_findSome?_eq_some hr
      exact ⟨r, hr, newSignal_bot hnew⟩

theorem signalLink_eq_self_or_none {s : SignalId} :
    m.signalLink bot (some s) = some s ∨ m.signalLink bot (some s) = none := by
  cases h : m.signalLink bot (some s) with
  | none => exact .inr rfl
  | some t => exact .inl (by rw [(signalLink_eq_some.1 h).1])

/-! ## Orders -/

/-- The orders of other bots are left alone. -/
theorem order?_after_of_ne {b c : String} (hb : b ≠ bot) (h : deliverAll cols bot l m = some m') :
    m'.order? b c = m.order? b c := by
  induction l generalizing m with
  | nil => rw [deliverAll_nil.1 h]
  | cons d l ih =>
    obtain ⟨m₁, hd, hl⟩ := deliverAll_cons.1 h
    rw [ih hl, (deliver_delivered hd).orders]
    cases d with
    | order o s => exact if_neg fun hk => hb (Prod.mk.inj hk).1.symm
    | _ => rfl

/-- The orders a list of messages tells of one client order id, in order of delivery. -/
def ordersAbout (c : String) (l : List OutboxMessage) : List Order :=
  l.filterMap fun
    | .order o _ => if o.clientOrderId = c then some o else none
    | _ => none

theorem mem_ordersAbout {c : String} {o : Order} :
    o ∈ ordersAbout c l ↔ (∃ s, .order o s ∈ l) ∧ o.clientOrderId = c := by
  unfold ordersAbout
  rw [List.mem_filterMap]
  constructor
  · rintro ⟨d, hd, h⟩
    cases d with
    | order o' s =>
      dsimp only at h
      split at h <;> cases h
      exact ⟨⟨s, hd⟩, ‹_›⟩
    | _ => cases h
  · rintro ⟨⟨s, hd⟩, hc⟩
    exact ⟨_, hd, if_pos hc⟩

theorem orderAfter_columns {o : Order} {s : Option SignalId} :
    some (orderAfter cols bot o s m).columns =
      Register.keep OrderColumns.engineVersion ((m.order? bot o.clientOrderId).map (·.columns))
        (orderColumns cols o) := by
  unfold orderAfter Register.keep
  cases m.order? bot o.clientOrderId with
  | none => rfl
  | some r =>
    by_cases hv : o.version ≤ r.columns.engineVersion
    · exact (congrArg (fun r : OrderRow => some r.columns) (if_pos hv)).trans
        (if_neg (not_lt.2 hv)).symm
    · exact (congrArg (fun r : OrderRow => some r.columns) (if_neg hv)).trans
        (if_pos (not_le.1 hv)).symm

/-- The columns of an order are a register guarded by the engine's version. -/
theorem columns_after {c : String} (h : deliverAll cols bot l m = some m') :
    (m'.order? bot c).map (·.columns) = ((ordersAbout c l).map (orderColumns cols)).foldl
      (Register.keep OrderColumns.engineVersion) ((m.order? bot c).map (·.columns)) := by
  induction l generalizing m with
  | nil => rw [deliverAll_nil.1 h]; rfl
  | cons d l ih =>
    obtain ⟨m₁, hd, hl⟩ := deliverAll_cons.1 h
    rw [ih hl, (deliver_delivered hd).orders]
    cases d with
    | order o s =>
      by_cases hc : o.clientOrderId = c
      · subst hc
        simp [orderRow, ordersAbout, orderAfter_columns]
      · simp [orderRow, ordersAbout, hc]
    | _ => rfl

theorem order?_isSome_after {c : String} (h : deliverAll cols bot l m = some m') :
    (m'.order? bot c).isSome ↔ (m.order? bot c).isSome ∨ ∃ d ∈ l, d.isOrder c := by
  induction l generalizing m with
  | nil => simp [deliverAll_nil.1 h]
  | cons d l ih =>
    obtain ⟨m₁, hd, hl⟩ := deliverAll_cons.1 h
    rw [ih hl, (deliver_delivered hd).orders, List.exists_mem_cons_iff, ← or_assoc]
    refine or_congr_left ?_
    cases d with
    | order o s => by_cases hc : o.clientOrderId = c <;> simp [orderRow, isOrder, hc]
    | _ => simp [orderRow, isOrder]

theorem orderAfter_signal {o : Order} {s : Option SignalId} {r : OrderRow}
    (h : m.order? bot o.clientOrderId = some r) : (orderAfter cols bot o s m).signal = r.signal := by
  unfold orderAfter
  rw [h]
  dsimp only
  split <;> rfl

/-- The link of an order that is there never changes. -/
theorem signal_kept {c : String} {r : OrderRow} (h : deliverAll cols bot l m = some m')
    (hr : m.order? bot c = some r) : ∃ r', m'.order? bot c = some r' ∧ r'.signal = r.signal := by
  induction l generalizing m r with
  | nil => exact ⟨r, by rw [deliverAll_nil.1 h, hr], rfl⟩
  | cons d l ih =>
    obtain ⟨m₁, hd, hl⟩ := deliverAll_cons.1 h
    have hrow : ∃ r₁, m₁.order? bot c = some r₁ ∧ r₁.signal = r.signal := by
      rw [(deliver_delivered hd).orders]
      cases d with
      | order o s =>
        by_cases hc : o.clientOrderId = c
        · subst hc
          exact ⟨_, if_pos rfl, orderAfter_signal hr⟩
        · exact ⟨r, (if_neg fun hk => hc (Prod.mk.inj hk).2).trans hr, rfl⟩
      | _ => exact ⟨r, hr, rfl⟩
    obtain ⟨r₁, hr₁, hs₁⟩ := hrow
    obtain ⟨r', hr', hs'⟩ := ih hl hr₁
    exact ⟨r', hr', hs'.trans hs₁⟩

/-- An order that a list of messages creates links as its first message finds the signals. -/
theorem order_created {c : String} {r : OrderRow} (h : deliverAll cols bot l m = some m')
    (hnone : m.order? bot c = none) (hr : m'.order? bot c = some r) :
    ∃ o s m₁, .order o s ∈ l ∧ o.clientOrderId = c ∧
      deliverAll cols bot (l.takeWhile fun d => !d.isOrder c) m = some m₁ ∧
      r.signal = m₁.signalLink bot s := by
  induction l generalizing m with
  | nil =>
    rw [deliverAll_nil.1 h, hnone] at hr
    cases hr
  | cons d l ih =>
    obtain ⟨m₁, hd, hl⟩ := deliverAll_cons.1 h
    by_cases hc : d.isOrder c
    · obtain ⟨o, s, rfl, rfl⟩ := isOrder_iff.1 hc
      have hrow : m₁.order? bot o.clientOrderId = some (orderAfter cols bot o s m) :=
        ((deliver_delivered hd).orders _ _).trans (if_pos rfl)
      obtain ⟨r', hr', hs'⟩ := signal_kept hl hrow
      obtain rfl : r' = r := Option.some.inj (hr'.symm.trans hr)
      refine ⟨o, s, m, .head _, rfl, by simp [hc, deliverAll_nil], hs'.trans ?_⟩
      rw [orderAfter, hnone]
    · have hkeep : m₁.order? bot c = none := by
        rw [(deliver_delivered hd).orders, ← hnone]
        cases d with
        | order o s => exact if_neg fun hk => hc (decide_eq_true (Prod.mk.inj hk).2)
        | _ => rfl
      obtain ⟨o, s, m₂, ho, hoc, hpre, hlink⟩ := ih hl hkeep
      refine ⟨o, s, m₂, .tail _ ho, hoc, ?_, hlink⟩
      rw [List.takeWhile_cons_of_pos (by simp [hc])]
      exact deliverAll_cons.2 ⟨m₁, hd, hpre⟩

/-! ## Fills -/

theorem newFill_isSome {k : String} {d : OutboxMessage} :
    (newFill cols bot m k d).isSome ↔ d.isFill k := by
  cases d <;> simp [newFill, isFill]

/-- A fill that is there never changes. -/
theorem fill_kept {k : String} {r : FillRow} (h : deliverAll cols bot l m = some m')
    (hr : m.fill? k = some r) : m'.fill? k = some r := by
  induction l generalizing m with
  | nil => rw [deliverAll_nil.1 h, hr]
  | cons d l ih =>
    obtain ⟨m₁, hd, hl⟩ := deliverAll_cons.1 h
    exact ih hl (by rw [(deliver_delivered hd).fills, hr]; rfl)

theorem fill?_isSome_after {k : String} (h : deliverAll cols bot l m = some m') :
    (m'.fill? k).isSome ↔ (m.fill? k).isSome ∨ ∃ d ∈ l, d.isFill k := by
  induction l generalizing m with
  | nil => simp [deliverAll_nil.1 h]
  | cons d l ih =>
    obtain ⟨m₁, hd, hl⟩ := deliverAll_cons.1 h
    rw [ih hl, (deliver_delivered hd).fills, List.exists_mem_cons_iff, ← or_assoc,
      Option.isSome_or, Bool.or_eq_true, newFill_isSome]

/-- A fill that a list of messages creates links as its first message finds the orders. -/
theorem fill_created {k : String} {r : FillRow} (h : deliverAll cols bot l m = some m')
    (hnone : m.fill? k = none) (hr : m'.fill? k = some r) :
    ∃ f m₁, .fill f ∈ l ∧ f.eventKey = k ∧
      deliverAll cols bot (l.takeWhile fun d => !d.isFill k) m = some m₁ ∧
      newFill cols bot m₁ k (.fill f) = some r := by
  induction l generalizing m with
  | nil =>
    rw [deliverAll_nil.1 h, hnone] at hr
    cases hr
  | cons d l ih =>
    obtain ⟨m₁, hd, hl⟩ := deliverAll_cons.1 h
    have hrow : m₁.fill? k = newFill cols bot m k d := by
      rw [(deliver_delivered hd).fills, hnone, Option.none_or]
    by_cases hk : d.isFill k
    · obtain ⟨f, rfl, rfl⟩ := isFill_iff.1 hk
      have hsome : (newFill cols bot m f.eventKey (.fill f)).isSome := newFill_isSome.2 hk
      obtain ⟨r', hr'⟩ := Option.isSome_iff_exists.1 hsome
      obtain rfl : r' = r := Option.some.inj ((fill_kept hl (hrow.trans hr')).symm.trans hr)
      exact ⟨f, m, .head _, rfl, by simp [hk, deliverAll_nil], hr'⟩
    · have hkeep : m₁.fill? k = none := by
        rw [hrow, ← Option.not_isSome_iff_eq_none, newFill_isSome]
        exact hk
      obtain ⟨f, m₂, hf, hfk, hpre, hnew⟩ := ih hl hkeep
      refine ⟨f, m₂, .tail _ hf, hfk, ?_, hnew⟩
      rw [List.takeWhile_cons_of_pos (by simp [hk])]
      exact deliverAll_cons.2 ⟨m₁, hd, hpre⟩

/-! ## Two orders of delivery -/

theorem findSome?_congr {α β : Type} {f : α → Option β} {l l' : List α} (hmem : ∀ a, a ∈ l ↔ a ∈ l')
    (huniq : ∀ a ∈ l, ∀ a' ∈ l, (f a).isSome → (f a').isSome → a = a') :
    l.findSome? f = l'.findSome? f := by
  cases h : l.findSome? f with
  | none =>
    rw [List.findSome?_eq_none_iff] at h
    exact (List.findSome?_eq_none_iff.2 fun a ha => h a ((hmem a).2 ha)).symm
  | some b =>
    obtain ⟨a, ha, hb⟩ := List.exists_of_findSome?_eq_some h
    have hsome : (l'.findSome? f).isSome :=
      List.findSome?_isSome_iff.2 ⟨a, (hmem a).1 ha, by rw [hb]; rfl⟩
    obtain ⟨b', hb'⟩ := Option.isSome_iff_exists.1 hsome
    obtain ⟨a', ha', hfa'⟩ := List.exists_of_findSome?_eq_some hb'
    have := huniq a ha a' ((hmem a').2 ha') (by rw [hb]; rfl) (by rw [hfa']; rfl)
    rw [hb', ← hfa', ← this, hb]

/-- The messages about one signal, or about one execution, are one message. -/
theorem eq_of_isSignal (hl : Coherent l) {s : SignalId} {d d' : OutboxMessage} (hd : d ∈ l)
    (hd' : d' ∈ l) (h : d.isSignal s) (h' : d'.isSignal s) : d = d' := by
  obtain ⟨_, _, _, _, rfl⟩ := isSignal_iff.1 h
  obtain ⟨_, _, _, _, rfl⟩ := isSignal_iff.1 h'
  exact hl.keys _ hd _ hd' rfl rfl

theorem eq_of_isFill (hl : Coherent l) {k : String} {d d' : OutboxMessage} (hd : d ∈ l)
    (hd' : d' ∈ l) (h : d.isFill k) (h' : d'.isFill k) : d = d' := by
  obtain ⟨f, rfl, rfl⟩ := isFill_iff.1 h
  obtain ⟨f', rfl, hk⟩ := isFill_iff.1 h'
  exact hl.keys _ hd _ hd' rfl (by rw [key?, key?, hk])

/-- The columns of an order do not depend on the order of delivery. -/
theorem columns_congr (hl : Coherent l) (hmem : ∀ d, d ∈ l ↔ d ∈ l')
    (h : deliverAll cols bot l m = some m₁) (h' : deliverAll cols bot l' m = some m₂) (c : String) :
    (m₁.order? bot c).map (·.columns) = (m₂.order? bot c).map (·.columns) := by
  rw [columns_after h, columns_after h']
  have habout : ∀ o, o ∈ ordersAbout c l ↔ o ∈ ordersAbout c l' := by
    intro o
    simp only [mem_ordersAbout, hmem]
  refine Register.foldl_keep_congr (fun a => ?_) ?_
  · simp only [List.mem_map, habout]
  · intro a ha b hb hab
    obtain ⟨o, ho, rfl⟩ := List.mem_map.1 ha
    obtain ⟨o', ho', rfl⟩ := List.mem_map.1 hb
    obtain ⟨⟨s, hs⟩, hc⟩ := mem_ordersAbout.1 ho
    obtain ⟨⟨s', hs'⟩, hc'⟩ := mem_ordersAbout.1 ho'
    have hkey : key? (.order o s) = key? (.order o' s') := by
      have hv : o.version = o'.version := hab
      rw [key?, key?, hc, hc', hv]
    cases hl.keys _ hs _ hs' rfl hkey
    rfl

/-- The link of an order with a signal that is new, created by a list of messages: it is there
exactly when the signal comes first. -/
theorem signal_iff_precedes (hl : Coherent l) (h : deliverAll cols bot l m = some m₁) {o : Order}
    {s : SignalId} {r : OrderRow} (ho : .order o (some s) ∈ l)
    (hnone : m.order? bot o.clientOrderId = none) (hs : m.signal? s = none)
    (hr : m₁.order? bot o.clientOrderId = some r) :
    r.signal = some s ↔ Precedes l (isSignal s) (isOrder o.clientOrderId) := by
  obtain ⟨o', s', m₀, ho', hc', hpre, hlink⟩ := order_created h hnone hr
  obtain rfl : s' = some s := hl.signals _ _ _ _ ho' ho hc'
  rw [hlink, signalLink_after hpre, signalLink_eq_some, hs]
  simp [Precedes]

/-- The link of an order to a signal that was there, or to none, does not depend on the list. -/
theorem signal_congr (hl : Coherent l) (hmem : ∀ d, d ∈ l ↔ d ∈ l')
    (h : deliverAll cols bot l m = some m₁) (h' : deliverAll cols bot l' m = some m₂) {c : String}
    {r r' : OrderRow} (hnone : m.order? bot c = none) (hr : m₁.order? bot c = some r)
    (hr' : m₂.order? bot c = some r')
    (hnew : ∀ o s, .order o (some s) ∈ l → o.clientOrderId = c → m.signal? s = none →
      (r.signal = some s ↔ r'.signal = some s)) : r.signal = r'.signal := by
  obtain ⟨o, s, m₀, ho, hc, hpre, hlink⟩ := order_created h hnone hr
  obtain ⟨o', s', m₀', ho', hc', hpre', hlink'⟩ := order_created h' hnone hr'
  obtain rfl : s = s' := hl.signals _ _ _ _ ho ((hmem _).2 ho') (hc.trans hc'.symm)
  cases s with
  | none => rw [hlink, hlink', signalLink_none, signalLink_none]
  | some s =>
    have hiff : r.signal = some s ↔ r'.signal = some s := by
      cases hs : m.signal? s with
      | none => exact hnew o s ho hc hs
      | some x =>
        rw [hlink, hlink', signalLink_after hpre, signalLink_after hpre']
        simp [hs]
    have hor (m : Mirror) : m.signalLink bot (some s) = some s ∨ m.signalLink bot (some s) = none :=
      signalLink_eq_self_or_none
    rcases hor m₀ with heq | heq
    · rw [← hlink] at heq
      rw [heq, hiff.1 heq]
    · rcases hor m₀' with heq' | heq'
      · rw [← hlink'] at heq'
        rw [heq', hiff.2 heq']
      · rw [hlink, hlink', heq, heq']

theorem orderLink_eq_some {c c' : String} :
    m.orderLink bot c = some c' ↔ c' = c ∧ (m.order? bot c).isSome := by
  unfold orderLink
  cases hc : m.order? bot c with
  | none => simp
  | some r =>
    have hk : r.clientOrderId = c := (Prod.mk.inj (order?_eq_some.1 hc).2).2
    simp [hk, eq_comm]

/-- The link of an execution created by a list of messages: it is there exactly when the order was
there or comes first. -/
theorem order_iff_precedes (hl : Coherent l) (h : deliverAll cols bot l m = some m₁) {f : Fill}
    {r : FillRow} (hf : .fill f ∈ l) (hnone : m.fill? f.eventKey = none)
    (hr : m₁.fill? f.eventKey = some r) :
    (∃ m₀, newFill cols bot m₀ f.eventKey (.fill f) = some r) ∧
    (r.order = some f.clientOrderId ↔ (m.order? bot f.clientOrderId).isSome ∨
      Precedes l (isOrder f.clientOrderId) (isFill f.eventKey)) ∧
    (r.order = some f.clientOrderId ∨ r.order = none) := by
  obtain ⟨f', m₀, hf', hk', hpre, hnew⟩ := fill_created h hnone hr
  obtain rfl : f' = f := by
    have := eq_of_isFill hl hf' hf (isFill_iff.2 ⟨f', rfl, hk'⟩) (isFill_iff.2 ⟨f, rfl, rfl⟩)
    exact OutboxMessage.fill.inj this
  have horder : r.order = m₀.orderLink bot f'.clientOrderId := by
    simp only [newFill, if_true, Option.some.injEq] at hnew
    rw [← hnew]
  refine ⟨⟨m₀, hnew⟩, ?_, ?_⟩
  · rw [horder, orderLink_eq_some, order?_isSome_after hpre]
    simp [Precedes]
  · rw [horder]
    cases hlink : m₀.orderLink bot f'.clientOrderId with
    | none => exact .inr rfl
    | some c => exact .inl (by rw [(orderLink_eq_some.1 hlink).1])

/-- Two rows created for one execution differ at most in the link. -/
theorem newFill_ext {k : String} {d : OutboxMessage} {r r' : FillRow} {m m' : Mirror}
    (h : newFill cols bot m k d = some r) (h' : newFill cols bot m' k d = some r')
    (ho : r.order = r'.order) : r = r' := by
  unfold newFill at h h'
  split at h
  · split at h <;> cases h
    dsimp only at h'
    rw [if_pos ‹_›] at h'
    cases h'
    rw [FillRow.mk.injEq]
    exact ⟨rfl, ho, rfl, rfl, rfl, rfl, rfl, rfl, rfl, rfl, rfl, rfl, rfl⟩
  · cases h

/-- Two orders of delivering the same messages leave the same signals, orders and fills exactly when
they agree, for every order they create, whether its new signal comes before its first message, and
for every execution they create, whether its new order comes before it. -/
theorem same_iff (hl : Coherent l) (hmem : ∀ d, d ∈ l ↔ d ∈ l')
    (h : deliverAll cols bot l m = some m₁) (h' : deliverAll cols bot l' m = some m₂) :
    m₁.Same m₂ ↔
      (∀ o s, .order o (some s) ∈ l → m.order? bot o.clientOrderId = none → m.signal? s = none →
        (Precedes l (isSignal s) (isOrder o.clientOrderId) ↔
          Precedes l' (isSignal s) (isOrder o.clientOrderId))) ∧
      (∀ f, .fill f ∈ l → m.fill? f.eventKey = none → m.order? bot f.clientOrderId = none →
        (Precedes l (isOrder f.clientOrderId) (isFill f.eventKey) ↔
          Precedes l' (isOrder f.clientOrderId) (isFill f.eventKey))) := by
  have hl' : Coherent l' :=
    ⟨fun d hd d' hd' => hl.keys d ((hmem d).2 hd) d' ((hmem d').2 hd'),
      fun o s o' s' ho ho' => hl.signals o s o' s' ((hmem _).2 ho) ((hmem _).2 ho')⟩
  have hexists (p : OutboxMessage → Bool) : (∃ d ∈ l, p d) ↔ ∃ d ∈ l', p d :=
    exists_congr fun d => and_congr_left' (hmem d)
  constructor
  · intro hsame
    refine ⟨fun o s ho hnone hs => ?_, fun f hf hnone horder => ?_⟩
    · obtain ⟨r, hr⟩ := Option.isSome_iff_exists.1
        ((order?_isSome_after h).2 (.inr ⟨_, ho, isOrder_iff.2 ⟨o, _, rfl, rfl⟩⟩))
      rw [← signal_iff_precedes hl h ho hnone hs hr]
      exact signal_iff_precedes hl' h' ((hmem _).1 ho) hnone hs (hsame.order? _ _ ▸ hr)
    · obtain ⟨r, hr⟩ := Option.isSome_iff_exists.1
        ((fill?_isSome_after h).2 (.inr ⟨_, hf, isFill_iff.2 ⟨f, rfl, rfl⟩⟩))
      have hiff := (order_iff_precedes hl h hf hnone hr).2.1
      have hiff' := (order_iff_precedes hl' h' ((hmem _).1 hf) hnone (hsame.fill? _ ▸ hr)).2.1
      simpa [horder] using hiff.symm.trans hiff'
  · rintro ⟨hsignal, hfill⟩
    refine Same.of_lookups (fun s => ?_) (fun b c => ?_) fun k => ?_
    · rw [signal?_after h, signal?_after h']
      refine congrArg _ (findSome?_congr hmem fun d hd d' hd' hs hs' => ?_)
      exact eq_of_isSignal hl hd hd' (newSignal_isSome.1 hs) (newSignal_isSome.1 hs')
    · by_cases hb : b = bot
      · subst hb
        have hcols := columns_congr hl hmem h h' c
        cases hr : m₁.order? b c with
        | none =>
          rw [hr] at hcols
          exact (Option.map_eq_none_iff.1 hcols.symm).symm
        | some r =>
          rw [hr] at hcols
          obtain ⟨r', hr', hcol⟩ := Option.map_eq_some_iff.1 hcols.symm
          have hlink : r.signal = r'.signal := by
            cases hold : m.order? b c with
            | some r₀ =>
              obtain ⟨x, hx, hxs⟩ := signal_kept h hold
              obtain ⟨x', hx', hxs'⟩ := signal_kept h' hold
              rw [Option.some.inj (hr.symm.trans hx), Option.some.inj (hr'.symm.trans hx'), hxs, hxs']
            | none =>
              refine signal_congr hl hmem h h' hold hr hr' fun o s ho hoc hs => ?_
              subst hoc
              rw [signal_iff_precedes hl h ho hold hs hr,
                signal_iff_precedes hl' h' ((hmem _).1 ho) hold hs hr']
              exact hsignal o s ho hold hs
          have hkey := (order?_eq_some.1 hr).2.trans (order?_eq_some.1 hr').2.symm
          rw [hr']
          refine congrArg some ?_
          cases r; cases r'
          rw [OrderRow.mk.injEq]
          exact ⟨(Prod.mk.inj hkey).1, (Prod.mk.inj hkey).2, hlink, hcol.symm⟩
      · rw [order?_after_of_ne hb h, order?_after_of_ne hb h']
    · cases hold : m.fill? k with
      | some r => rw [fill_kept h hold, fill_kept h' hold]
      | none =>
        cases hr : m₁.fill? k with
        | none =>
          have hno := mt (fill?_isSome_after h).2 (by rw [hr]; exact Bool.false_ne_true)
          rw [hexists, ← fill?_isSome_after h'] at hno
          exact (Option.not_isSome_iff_eq_none.1 hno).symm
        | some r =>
          obtain ⟨f, _, hf, rfl, -, -⟩ := fill_created h hold hr
          obtain ⟨r', hr'⟩ := Option.isSome_iff_exists.1
            ((fill?_isSome_after h').2 (.inr ⟨_, (hmem _).1 hf, isFill_iff.2 ⟨f, rfl, rfl⟩⟩))
          obtain ⟨⟨_, hnew⟩, hiff, hor⟩ := order_iff_precedes hl h hf hold hr
          obtain ⟨⟨_, hnew'⟩, hiff', hor'⟩ := order_iff_precedes hl' h' ((hmem _).1 hf) hold hr'
          rw [hr', newFill_ext hnew hnew' ?_]
          have hagree : r.order = some f.clientOrderId ↔ r'.order = some f.clientOrderId := by
            rw [hiff, hiff']
            cases horder : m.order? bot f.clientOrderId with
            | none => simpa using hfill f hf hold horder
            | some _ => simp
          rcases hor with heq | heq
          · rw [heq, hagree.1 heq]
          · rcases hor' with heq' | heq'
            · rw [heq', hagree.2 heq']
            · rw [heq, heq']

/-! ## An order before its signal -/

/-- The signal of a sample trade, and the order it led to. -/
def tradeSignal : SignalId :=
  { bot := "default", symbol := ⟨"BTC", "USDT"⟩, candleTs := "t0", action := .buy, score := 1 }

def tradeOrder (status : OrderStatus) (version : Nat) : Order :=
  { bot := "default", exchange := "binance", symbol := ⟨"BTC", "USDT"⟩, side := .buy
    orderType := .market, purpose := .entry, clientOrderId := "cb1-721ab8c1"
    clientIntentId := ⟨⟨"default", ⟨"BTC", "USDT"⟩, .candle "t0", .entry⟩, 0⟩
    requestedQuantity := 2, status, version }

def signalMessage : OutboxMessage := .signal tradeSignal 100 [] .testnet 0

/-- The `n`-th message about the order. -/
def orderMessage (n : Nat) : OutboxMessage :=
  .order (tradeOrder (if n = 1 then .submitting else .new) n) (some tradeSignal)

def unroundedColumns : ColumnLib := ⟨fun _ _ x => x⟩

/-- The link of the sample order after a list of deliveries. -/
def linkAfter (l : List OutboxMessage) : Option (Option SignalId) :=
  (deliverAll unroundedColumns "default" l {}).bind fun m =>
    (m.order? "default" "cb1-721ab8c1").map (·.signal)

/-- An order delivered before its signal never links to it; after the signal it does. -/
theorem order_before_signal : ∃ m₁ m₂,
    deliverAll unroundedColumns "default" [signalMessage, orderMessage 1, orderMessage 2] {} =
      some m₁ ∧
    deliverAll unroundedColumns "default" [orderMessage 1, signalMessage, orderMessage 2] {} =
      some m₂ ∧ ¬ m₁.Same m₂ := by
  have hlink : linkAfter [signalMessage, orderMessage 1, orderMessage 2] = some (some tradeSignal) ∧
      linkAfter [orderMessage 1, signalMessage, orderMessage 2] = some none := by decide +kernel
  obtain ⟨h₁, h₂⟩ := hlink
  obtain ⟨m₁, hm₁, hr₁⟩ := Option.bind_eq_some_iff.1 h₁
  obtain ⟨m₂, hm₂, hr₂⟩ := Option.bind_eq_some_iff.1 h₂
  refine ⟨m₁, m₂, hm₁, hm₂, fun hsame => ?_⟩
  rw [hsame.order?, hr₂] at hr₁
  cases hr₁

/-- With the signal first, the two messages about the order may come in either order. -/
theorem signal_first_same : ∃ m₁ m₂,
    deliverAll unroundedColumns "default" [signalMessage, orderMessage 1, orderMessage 2] {} =
      some m₁ ∧
    deliverAll unroundedColumns "default" [signalMessage, orderMessage 2, orderMessage 1] {} =
      some m₂ ∧ m₁.Same m₂ := by
  have hsome : (deliverAll unroundedColumns "default"
        [signalMessage, orderMessage 1, orderMessage 2] {}).isSome ∧
      (deliverAll unroundedColumns "default"
        [signalMessage, orderMessage 2, orderMessage 1] {}).isSome := by decide +kernel
  obtain ⟨m₁, h₁⟩ := Option.isSome_iff_exists.1 hsome.1
  obtain ⟨m₂, h₂⟩ := Option.isSome_iff_exists.1 hsome.2
  have hcoherent : Coherent [signalMessage, orderMessage 1, orderMessage 2] := by
    refine ⟨by decide, fun o s o' s' ho ho' _ => ?_⟩
    simp only [signalMessage, orderMessage, List.mem_cons, reduceCtorEq, OutboxMessage.order.injEq,
      List.not_mem_nil, or_false, false_or] at ho ho'
    rcases ho with ⟨-, rfl⟩ | ⟨-, rfl⟩ <;> rcases ho' with ⟨-, rfl⟩ | ⟨-, rfl⟩ <;> rfl
  refine ⟨m₁, m₂, h₁, h₂, (same_iff hcoherent (fun d => ?_) h₁ h₂).2 ⟨?_, ?_⟩⟩
  · simp only [List.mem_cons, List.not_mem_nil, or_false]
    tauto
  · intro o s ho _ _
    simp only [signalMessage, orderMessage, List.mem_cons, reduceCtorEq, OutboxMessage.order.injEq,
      List.not_mem_nil, or_false, false_or, Option.some.injEq] at ho
    rcases ho with ⟨rfl, rfl⟩ | ⟨rfl, rfl⟩ <;> decide
  · intro f hf
    simp [signalMessage, orderMessage] at hf

end Mirror

end CryptoBot
