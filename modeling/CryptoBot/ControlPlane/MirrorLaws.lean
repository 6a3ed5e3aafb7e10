import CryptoBot.ControlPlane.Mirror
import CryptoBot.Lib.Register

/-!
# Laws of the mirror

The columns of an order and the snapshot of a position are registers guarded by the engine's version
and by the engine's instant. The version decides between any two messages about an order; the
instant is kept in whole seconds, so it decides only between snapshots of different seconds. The
links of orders and fills are no registers: they are set once, when the row is created.
-/

namespace CryptoBot

open Lib

variable {cols : ColumnLib} {bot : String} {m m' : Mirror}

namespace Mirror

/-! ## Positions -/

theorem wholeSeconds_mono {t t' : Int} (h : t ≤ t') : wholeSeconds t ≤ wholeSeconds t' := by
  show (t / 1000000 * 1000000 : Int) ≤ t' / 1000000 * 1000000
  omega

/-- An instant is before a whole second exactly when its own second is. -/
theorem lt_wholeSeconds_iff {t t' : Int} :
    t < wholeSeconds t' ↔ wholeSeconds t < wholeSeconds t' := by
  show t < (t' / 1000000 * 1000000 : Int) ↔ (t / 1000000 * 1000000 : Int) < t' / 1000000 * 1000000
  omega

/-- The second a snapshot belongs to. -/
def PositionRequest.second (d : PositionRequest) : Time := wholeSeconds d.updatedAt

/-- A snapshot about another symbol leaves a position alone; one about it writes the register. -/
theorem recordPosition_positions {d : PositionRequest} {symbol : Symbol}
    {held : Option PositionRequest} (hd : d.data.symbol = symbol)
    (hm : m.positions bot symbol = held.map (positionRow cols)) :
    (recordPosition cols bot d m).positions bot symbol =
      (Register.take PositionRequest.second held d).map (positionRow cols) := by
  subst hd
  unfold recordPosition
  rw [hm]
  cases held with
  | none => simp [Register.take]
  | some c =>
    have hiff : d.updatedAt < wholeSeconds c.updatedAt ↔ d.second < c.second := lt_wholeSeconds_iff
    by_cases h : d.second < c.second
    · simp [Register.take, positionRow, hiff.2 h, h, hm]
    · simp [Register.take, positionRow, mt hiff.1 h, h]

/-- A position after a list of snapshots: the register after their writes. -/
theorem positions_of_snapshots {symbol : Symbol} {l : List PositionRequest}
    (hsym : ∀ d ∈ l, d.data.symbol = symbol) (hm : m.positions bot symbol = none) :
    (l.foldl (fun m d => recordPosition cols bot d m) m).positions bot symbol =
      (l.foldl (Register.take PositionRequest.second) none).map (positionRow cols) := by
  induction l using List.reverseRecOn with
  | nil => exact hm
  | append_singleton l d ih =>
    rw [List.foldl_concat, List.foldl_concat]
    refine recordPosition_positions (hsym d (List.mem_append_right _ (.head _))) ?_
    exact ih fun d hd => hsym d (List.mem_append_left _ hd)

theorem deliverAll_concat {l : List OutboxMessage} {d : OutboxMessage} :
    deliverAll cols bot (l ++ [d]) m = (deliverAll cols bot l m).bind (deliver cols bot d) := by
  rw [deliverAll, List.foldlM_append]
  cases h : List.foldlM (fun m d => deliver cols bot d m) m l with
  | none => rw [deliverAll, h]; rfl
  | some m₁ =>
    rw [deliverAll, h]
    change (deliver cols bot d m₁ >>= fun m => pure m) = deliver cols bot d m₁
    exact bind_pure _

/-- The messages of validated snapshots are delivered by `RecordPosition`, all of them. -/
theorem deliverAll_snapshots (l : List PositionRequest) :
    deliverAll cols bot (l.map fun d => .position d.data) m =
      some (l.foldl (fun m d => recordPosition cols bot d m) m) := by
  induction l using List.reverseRecOn with
  | nil => rfl
  | append_singleton l d ih =>
    rw [List.map_append, List.map_singleton, deliverAll_concat, ih, List.foldl_concat]
    obtain ⟨p, t, ht⟩ := d
    change deliver cols bot (.position p) _ = _
    unfold deliver
    dsimp only
    split
    · next t' ht' =>
      obtain rfl : t' = t := Option.some.inj (ht'.symm.trans ht)
      rfl
    · next hn => exact absurd (hn.symm.trans ht) (by simp)

/-- The mirrored position is the newest snapshot exactly when the last one delivered of the newest
second is, column by column. -/
theorem newest_position_iff {symbol : Symbol} {l : List PositionRequest} {newest : PositionRequest}
    (hsym : ∀ d ∈ l, d.data.symbol = symbol) (hnew : newest ∈ l)
    (hmax : ∀ d ∈ l, d.updatedAt ≤ newest.updatedAt) (hm : m.positions bot symbol = none) :
    (∃ m', deliverAll cols bot (l.map fun d => .position d.data) m = some m' ∧
      m'.positions bot symbol = some (positionRow cols newest)) ↔
    ∀ last ∈ (l.filter fun d => decide (d.second = newest.second)).getLast?,
      positionRow cols last = positionRow cols newest := by
  have hle : ∀ d ∈ l, d.second ≤ newest.second := fun d hd => wholeSeconds_mono (hmax d hd)
  have hpos : (l.foldl (fun m d => recordPosition cols bot d m) m).positions bot symbol = _ :=
    positions_of_snapshots hsym hm
  rw [Register.foldl_take hle ⟨newest, hnew, rfl⟩] at hpos
  have hmem : newest ∈ l.filter fun d => decide (d.second = newest.second) :=
    List.mem_filter.2 ⟨hnew, by simp⟩
  obtain ⟨last, hlast⟩ : ∃ last,
      (l.filter fun d => decide (d.second = newest.second)).getLast? = some last :=
    ⟨_, List.getLast?_eq_getLast_of_ne_nil (List.ne_nil_of_mem hmem)⟩
  rw [hlast] at hpos ⊢
  constructor
  · rintro ⟨m', hall, hrow⟩ d hd
    cases hd
    rw [deliverAll_snapshots] at hall
    cases hall
    exact Option.some.inj (hpos.symm.trans hrow)
  · intro h
    exact ⟨_, deliverAll_snapshots l, hpos.trans (congrArg some (h last rfl))⟩

/-- Two snapshots of one second: the newer one and the one before it. -/
def sameSecond (quantity : ℚ) (t : Time) : PositionRequest where
  data := { bot := "default", symbol := ⟨"BTC", "USDT"⟩, quantity, updatedAt := some t }
  updatedAt := t
  required := rfl

/-- The older snapshot, delivered after the newer one of its second, replaces it. -/
theorem older_snapshot_wins :
    let cols : ColumnLib := ⟨fun _ _ x => x⟩
    let newer := sameSecond 2 1700000
    let older := sameSecond 1 1200000
    older.updatedAt < newer.updatedAt ∧
      (deliverAll cols "default" [.position newer.data, .position older.data] {}).bind
        (·.positions "default" ⟨"BTC", "USDT"⟩) = some (positionRow cols older) ∧
      positionRow cols older ≠ positionRow cols newer := by
  decide +kernel

theorem newest_position_in_order :
    let cols : ColumnLib := ⟨fun _ _ x => x⟩
    ∃ m', deliverAll cols "default"
        ([sameSecond 1 1200000, sameSecond 2 1700000].map fun d => .position d.data) {} = some m' ∧
      m'.positions "default" ⟨"BTC", "USDT"⟩ = some (positionRow cols (sameSecond 2 1700000)) :=
  (newest_position_iff (by decide) (by simp) (by decide) rfl).2
    (by decide +kernel)

/-! ## Rows under their keys -/

theorem signal?_eq_some {s : SignalId} {r : SignalRow} :
    m.signal? s = some r ↔ r ∈ m.signals.rows ∧ r.clientSignalId = s :=
  Table.find?_eq_some SignalRow.clientSignalId (fun _ _ h => h) m.signals

theorem order?_eq_some {b c : String} {r : OrderRow} :
    m.order? b c = some r ↔ r ∈ m.orders.rows ∧ (r.bot, r.clientOrderId) = (b, c) :=
  Table.find?_eq_some (fun r : OrderRow => (r.bot, r.clientOrderId))
    (fun _ _ h hk => h.1 (Prod.mk.inj hk)) m.orders

theorem fill?_eq_some {k : String} {r : FillRow} :
    m.fill? k = some r ↔ r ∈ m.fills.rows ∧ r.eventKey = k :=
  Table.find?_eq_some FillRow.eventKey (fun _ _ h => h) m.fills

/-- Mirrors with the same rows under every key are the same. -/
theorem Same.of_lookups (hs : ∀ s, m.signal? s = m'.signal? s)
    (ho : ∀ b c, m.order? b c = m'.order? b c) (hf : ∀ k, m.fill? k = m'.fill? k) : m.Same m' where
  signals r := by
    have h : m.signal? r.clientSignalId = some r ↔ m'.signal? r.clientSignalId = some r := by rw [hs]
    simpa [signal?_eq_some] using h
  orders r := by
    have h : m.order? r.bot r.clientOrderId = some r ↔ m'.order? r.bot r.clientOrderId = some r := by
      rw [ho]
    simpa [order?_eq_some] using h
  fills r := by
    have h : m.fill? r.eventKey = some r ↔ m'.fill? r.eventKey = some r := by rw [hf]
    simpa [fill?_eq_some] using h

theorem Same.order? (h : m.Same m') (b c : String) : m.order? b c = m'.order? b c := by
  refine Option.ext fun r => ?_
  rw [order?_eq_some, order?_eq_some, h.orders r]

theorem Same.fill? (h : m.Same m') (k : String) : m.fill? k = m'.fill? k := by
  refine Option.ext fun r => ?_
  rw [fill?_eq_some, fill?_eq_some, h.fills r]

/-- The signal an order links to is the bot's own, under the id it asks for. -/
theorem signalLink_eq_some {s t : SignalId} :
    m.signalLink bot (some s) = some t ↔ t = s ∧ ∃ r, m.signal? s = some r ∧ r.bot = bot := by
  unfold signalLink
  constructor
  · intro h
    obtain ⟨r, hr, rfl⟩ := Option.map_eq_some_iff.1 h
    have hp : r.bot = bot ∧ r.clientSignalId = s := by simpa using List.find?_some hr
    exact ⟨hp.2, r, signal?_eq_some.2 ⟨List.mem_of_find?_eq_some hr, hp.2⟩, hp.1⟩
  · rintro ⟨rfl, r, hr, hb⟩
    obtain ⟨hmem, hk⟩ := signal?_eq_some.1 hr
    cases hf : m.signals.rows.find? fun r => decide (r.bot = bot ∧ some r.clientSignalId = some t) with
    | none => simpa [hb, hk] using List.find?_eq_none.1 hf r hmem
    | some r' =>
      have hp : r'.bot = bot ∧ r'.clientSignalId = t := by simpa using List.find?_some hf
      simp [hp.2]

theorem signalLink_none : m.signalLink bot none = none := by
  simp [signalLink]

/-! ## One delivery -/

theorem find?_insert {ρ : Type} {R : ρ → ρ → Prop} [DecidableRel R] {t t' : Table R} {r : ρ}
    (h : t.insert? r = some t') (p : ρ → Bool) :
    t'.rows.find? p = (t.rows.find? p).or (if p r then some r else none) := by
  rw [Table.insert?_eq_some.1 h, List.find?_append, List.find?_singleton]

theorem find?_update {ρ : Type} {R : ρ → ρ → Prop} [DecidableRel R] {t t' : Table R}
    {hit p : ρ → Bool} {f : ρ → ρ} (h : t.update? hit f = some t') (hp : ∀ r, p (f r) = p r) :
    t'.rows.find? p = (t.rows.find? p).map fun r => if hit r then f r else r := by
  have hcomp : (p ∘ fun r => if hit r then f r else r) = p := by
    funext r
    by_cases hr : hit r <;> simp [hr, hp]
  rw [Table.update?_eq_some.1 h, List.find?_map, hcomp]

/-- The row a message creates for the signal `s`. -/
def newSignal (cols : ColumnLib) (bot : String) (s : SignalId) : OutboxMessage → Option SignalRow
  | .signal id price reasons mode at_ =>
    if id = s then some
      { bot, clientSignalId := id, symbol := id.symbol, action := id.action
        score := cols.decimal 12 4 id.score, price := some (cols.decimal 24 10 price), reasons, mode
        occurredAt := wholeSeconds at_ }
    else none
  | _ => none

/-- The row of an order after a message about it. -/
def orderAfter (cols : ColumnLib) (bot : String) (d : Order) (signalId : Option SignalId)
    (m : Mirror) : OrderRow :=
  match m.order? bot d.clientOrderId with
  | some row =>
    if d.version ≤ row.columns.engineVersion then row
    else { row with columns := orderColumns cols d }
  | none =>
    { bot, clientOrderId := d.clientOrderId, signal := m.signalLink bot signalId
      columns := orderColumns cols d }

/-- The row of the order `c` of the bot `b` after a message. -/
def orderRow (cols : ColumnLib) (bot : String) (m : Mirror) (b c : String) :
    OutboxMessage → Option OrderRow
  | .order o signalId =>
    if (bot, o.clientOrderId) = (b, c) then some (orderAfter cols bot o signalId m) else m.order? b c
  | _ => m.order? b c

/-- The row a message creates for the execution `k`. -/
def newFill (cols : ColumnLib) (bot : String) (m : Mirror) (k : String) :
    OutboxMessage → Option FillRow
  | .fill d =>
    if d.eventKey = k then some
      { bot, order := m.orderLink bot d.clientOrderId, clientOrderId := d.clientOrderId
        exchangeTradeId := d.exchangeTradeId, symbol := d.symbol, side := d.side
        quantity := cols.amount d.quantity, price := cols.amount d.price
        quoteQuantity := cols.amount d.quoteQuantity, commission := cols.amount d.commission
        commissionAsset := d.commissionAsset, executionTime := wholeSeconds d.executionTime
        eventKey := d.eventKey }
    else none
  | _ => none

theorem recordSignal_signal? {id s : SignalId} {price : ℚ} {reasons : List String}
    {mode : TradingMode} {t : Time} (h : recordSignal cols bot id price reasons mode t m = some m') :
    m'.signal? s = (m.signal? s).or (newSignal cols bot s (.signal id price reasons mode t)) ∧
      m'.orders = m.orders ∧ m'.fills = m.fills := by
  unfold recordSignal at h
  split at h
  · next r hr =>
    cases h
    refine ⟨?_, rfl, rfl⟩
    by_cases hid : id = s
    · subst hid
      rw [hr]
      rfl
    · simp [newSignal, hid]
  · obtain ⟨signals, hins, rfl⟩ := Option.map_eq_some_iff.1 h
    refine ⟨(find?_insert hins _).trans ?_, rfl, rfl⟩
    simp [newSignal, signal?]

theorem recordOrder_order? {d : Order} {signalId : Option SignalId} {b c : String}
    (h : recordOrder cols bot d signalId m = some m') :
    m'.order? b c = (if (bot, d.clientOrderId) = (b, c) then some (orderAfter cols bot d signalId m)
      else m.order? b c) ∧ m'.signals = m.signals ∧ m'.fills = m.fills := by
  unfold recordOrder at h
  unfold orderAfter
  cases hrow : m.order? bot d.clientOrderId with
  | some row =>
    rw [hrow] at h
    dsimp only at h ⊢
    split at h
    · next hv =>
      cases h
      refine ⟨?_, rfl, rfl⟩
      split
      · next hk =>
        obtain ⟨rfl, rfl⟩ := Prod.mk.inj hk
        exact hrow
      · rfl
    · next hv =>
      obtain ⟨orders, hup, rfl⟩ := Option.map_eq_some_iff.1 h
      refine ⟨(find?_update hup fun _ => rfl).trans ?_, rfl, rfl⟩
      change (m.order? b c).map _ = _
      split
      · next hk =>
        obtain ⟨rfl, rfl⟩ := Prod.mk.inj hk
        rw [hrow, Option.map_some, if_pos (decide_eq_true (order?_eq_some.1 hrow).2)]
      · next hk =>
        cases hbc : m.order? b c with
        | none => rfl
        | some r =>
          have hkey := (order?_eq_some.1 hbc).2
          rw [Option.map_some, if_neg]
          rw [decide_eq_true_eq, hkey]
          exact fun he => hk he.symm
  | none =>
    rw [hrow] at h
    dsimp only at h ⊢
    obtain ⟨orders, hins, rfl⟩ := Option.map_eq_some_iff.1 h
    refine ⟨(find?_insert hins _).trans ?_, rfl, rfl⟩
    change (m.order? b c).or _ = _
    by_cases hk : (bot, d.clientOrderId) = (b, c)
    · obtain ⟨rfl, rfl⟩ := Prod.mk.inj hk
      simp [hrow]
    · simp [hk]

theorem recordFill_fill? {d : Fill} {k : String} :
    (recordFill cols bot d m).fill? k = (m.fill? k).or (newFill cols bot m k (.fill d)) ∧
      (recordFill cols bot d m).signals = m.signals ∧ (recordFill cols bot d m).orders = m.orders := by
  unfold recordFill
  dsimp only
  split
  · next fills hins =>
    refine ⟨(find?_insert hins _).trans ?_, rfl, rfl⟩
    simp [newFill, fill?]
  · next hins =>
    refine ⟨?_, rfl, rfl⟩
    by_cases hk : d.eventKey = k
    · -- the key is taken, so the row under it stays
      have hsome : (m.fill? k).isSome := by
        by_contra hno
        have hfree : ∀ r ∈ m.fills.rows, r.eventKey ≠ k := by
          simpa [fill?] using hno
        rw [← Option.not_isSome_iff_eq_none, Table.insert?_isSome] at hins
        exact hins fun r hr he => hfree r hr (he.trans hk)
      obtain ⟨r, hr⟩ := Option.isSome_iff_exists.1 hsome
      rw [hr]
      rfl
    · simp [newFill, hk]

/-- What a delivery does to the row under each key. -/
structure Delivered (cols : ColumnLib) (bot : String) (d : OutboxMessage) (m m' : Mirror) : Prop where
  signals : ∀ s, m'.signal? s = (m.signal? s).or (newSignal cols bot s d)
  orders : ∀ b c, m'.order? b c = orderRow cols bot m b c d
  fills : ∀ k, m'.fill? k = (m.fill? k).or (newFill cols bot m k d)

theorem deliver_delivered {d : OutboxMessage} (h : deliver cols bot d m = some m') :
    Delivered cols bot d m m' := by
  cases d with
  | signal id price reasons mode t =>
    have hr := fun s => recordSignal_signal? (s := s) h
    refine ⟨fun s => (hr s).1, fun b c => ?_, fun k => ?_⟩
    · simp only [order?, (hr id).2.1, orderRow]
    · simp only [fill?, (hr id).2.2, newFill, Option.or_none]
  | order o signalId =>
    have hr := fun b c => recordOrder_order? (b := b) (c := c) h
    refine ⟨fun s => ?_, fun b c => (hr b c).1, fun k => ?_⟩
    · simp only [signal?, (hr bot bot).2.1, newSignal, Option.or_none]
    · simp only [fill?, (hr bot bot).2.2, newFill, Option.or_none]
  | fill f =>
    cases h
    have hr := fun k => @recordFill_fill? cols bot m f k
    refine ⟨fun s => ?_, fun b c => ?_, fun k => (hr k).1⟩
    · simp only [signal?, (hr "").2.1, newSignal, Option.or_none]
    · simp only [order?, (hr "").2.2, orderRow]
  | position p =>
    unfold deliver at h
    dsimp only at h
    split at h
    · cases h
      unfold recordPosition
      split <;> exact ⟨fun _ => by simp [newSignal, signal?], fun _ _ => rfl,
        fun _ => by simp [newFill, fill?]⟩
    · cases h
  | event | reconciliation | telegram =>
    cases h
    exact ⟨fun _ => by simp [newSignal], fun _ _ => rfl, fun _ => by simp [newFill]⟩

end Mirror

end CryptoBot
