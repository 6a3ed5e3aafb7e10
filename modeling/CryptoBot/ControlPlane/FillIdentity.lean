import CryptoBot.Application.OrderService
import CryptoBot.ControlPlane.MirrorLaws
import CryptoBot.Exchanges.Normalizer
import CryptoBot.Execution.Paper

/-!
# The identity of executions

`fills.event_key` is unique over all bots, and it is the only thing by which `RecordFill` tells two
executions apart. A Binance key names the account, the symbol, the order and the trade. A PAPER key
names the row of the order, and every ledger counts its rows from one.
-/

namespace CryptoBot

open Lib Normalizer

/-! ## Executions -/

/-- An execution of an order of a ledger: simulated there, or a trade row of a Binance account. -/
inductive Execution (Λ : Type)
  | paper (ledger : Λ) (feeRate : ℚ) (order : Order) (rules : SymbolRules) (price : ℚ) (nowMs : Int)
  | binance (account : String) (symbols : SymbolMap) (trade : Trade) (order : Order)

/-- What tells executions apart: a ledger fills each of its PAPER orders at most once, and trade ids
are unique for a symbol of an account. -/
inductive ExecutionId (Λ : Type)
  | paper (ledger : Λ) (orderId : Nat)
  | binance (account : String) (symbol : ExchangeSymbol) (tradeId : Nat)
deriving DecidableEq

namespace Execution

variable {Λ : Type}

def identity : Execution Λ → ExecutionId Λ
  | .paper ledger _ order _ _ _ => .paper ledger order.id
  | .binance account _ trade _ => .binance account trade.symbol trade.id

def order : Execution Λ → Order
  | .paper _ _ order _ _ _ => order
  | .binance _ _ _ order => order

/-- What the executor hands over. -/
def exchangeFill : Execution Λ → ExchangeFill
  | .paper _ feeRate order rules price nowMs =>
    PaperExecutor.fill (PaperExecutor.record feeRate order rules price nowMs)
  | .binance account symbols trade order =>
    restTradeFill trade account symbols (some order.clientOrderId)

def eventKey (e : Execution Λ) : String := e.exchangeFill.eventKey

/-- The row the ledger records. -/
def fill (e : Execution Λ) (now : Time) : Fill :=
  OrderService.fillOf e.order e.exchangeFill now

/-- Two simulated executions of one symbol whose orders have the same row id. -/
def Clash : Execution Λ → Execution Λ → Prop
  | .paper _ _ o _ _ _, .paper _ _ o' _ _ _ => o.symbol.text = o'.symbol.text ∧ o.id = o'.id
  | _, _ => False

instance : DecidableRel (Clash (Λ := Λ))
  | .paper .., .paper .. => inferInstanceAs (Decidable (_ ∧ _))
  | .paper .., .binance .. => isFalse id
  | .binance .., .paper .. => isFalse id
  | .binance .., .binance .. => isFalse id

/-- What the PAPER executor reports of an order is an execution of its row. -/
theorem mem_submit_fills {feeRate : ℚ} {order : Order} {rules : SymbolRules} {nowMs : Int}
    {book : PaperBook} {xf : ExchangeFill} (ledger : Λ)
    (h : xf ∈ (PaperExecutor.submit feeRate order rules nowMs book).1.fills) :
    ∃ price, xf = (paper ledger feeRate order rules price nowMs).exchangeFill := by
  rcases PaperExecutor.submit_cases with ⟨-, hnone, -⟩ | ⟨price, -, -, -, -, hsubmit⟩
  · rw [hnone] at h
    cases h
  · rw [hsubmit] at h
    exact ⟨price, List.mem_singleton.1 h⟩

/-! ## Keys -/

/-- The fields of the key of a simulated execution. -/
theorem eventKey_paper {ledger : Λ} {feeRate price : ℚ} {o : Order} {rules : SymbolRules}
    {nowMs : Int} :
    (paper ledger feeRate o rules price nowMs).eventKey = "paper:" ++ o.symbol.text ++ ":" ++
      ("P" ++ toString o.id) ++ ":" ++ ("PT" ++ toString o.id) ++ ":" ++ "TRADE" := by
  simp [eventKey, exchangeFill, PaperExecutor.fill, PaperExecutor.record, toString,
    String.append_assoc]

theorem eventKey_paper_ne_binance {ledger : Λ} {feeRate price : ℚ} {o o' : Order} {rules : SymbolRules}
    {nowMs : Int} {account : String} {symbols : SymbolMap} {trade : Trade} :
    (paper ledger feeRate o rules price nowMs).eventKey ≠
      (binance (Λ := Λ) account symbols trade o').eventKey := by
  intro h
  have hhead := congrArg (fun t : String => t.toList.head?) h
  rw [eventKey_paper] at hhead
  simp [eventKey, exchangeFill, restTradeFill, fillEventKey, toString] at hhead

/-- The keys of two executions are the same exactly when the executions clash. -/
theorem eventKey_eq_iff {e e' : Execution Λ} (hne : e.identity ≠ e'.identity) :
    e.eventKey = e'.eventKey ↔ Clash e e' := by
  have hdigits (n : Nat) : Free ':' (toString n) := .repr (by decide) n
  cases e with
  | paper ledger feeRate o rules price nowMs =>
    cases e' with
    | paper ledger' feeRate' o' rules' price' nowMs' =>
      have hp (n : Nat) : Free ':' ("P" ++ toString n) := .append (by decide) (hdigits n)
      have hpt (n : Nat) : Free ':' ("PT" ++ toString n) := .append (by decide) (hdigits n)
      rw [eventKey_paper, eventKey_paper, field_inj (by decide) (by decide), field_inj (hpt _) (hpt _),
        field_inj (hp _) (hp _)]
      simp only [Clash, String.append_right_inj, Nat.toString_eq_repr, repr_nat_inj, and_self_right,
        and_true]
    | binance account' symbols' trade' o' => exact iff_of_false eventKey_paper_ne_binance fun h => h
  | binance account symbols trade o =>
    cases e' with
    | paper ledger' feeRate' o' rules' price' nowMs' =>
      exact iff_of_false eventKey_paper_ne_binance.symm fun h => h
    | binance account' symbols' trade' o' =>
      refine iff_of_false (fun h => hne ?_) fun h => h
      obtain ⟨haccount, hsymbol, -, htrade⟩ := (fillEventKey_inj trade.symbol.free trade'.symbol.free
        (hdigits _) (hdigits _) (hdigits _) (hdigits _)).1 h
      rw [identity, identity, haccount, ExchangeSymbol.ext hsymbol, repr_nat_inj.1 htrade]

/-! ## The mirror -/

/-- `RecordFill` answers that it has inserted the row. -/
def Inserted (cols : ColumnLib) (bot : String) (d : Fill) (m : Mirror) : Prop :=
  (Mirror.recordFill cols bot d m).fills.rows.length = m.fills.rows.length + 1

variable {cols : ColumnLib} {bot : String} {d : Fill} {m : Mirror}

/-- `RecordFill` leaves the fills alone when the key is there, and adds a row with the key
otherwise. -/
theorem recordFill_cases :
    ((∃ r ∈ m.fills.rows, r.eventKey = d.eventKey) ∧
      (Mirror.recordFill cols bot d m).fills = m.fills) ∨
    (∀ r ∈ m.fills.rows, r.eventKey ≠ d.eventKey) ∧
      ∃ row : FillRow, row.eventKey = d.eventKey ∧
        (Mirror.recordFill cols bot d m).fills.rows = m.fills.rows ++ [row] := by
  unfold Mirror.recordFill
  dsimp only
  split
  · next fills hins =>
    exact .inr ⟨Table.insert?_isSome.1 (Option.isSome_of_eq_some hins), _, rfl,
      Table.insert?_eq_some.1 hins⟩
  · next hins =>
    refine .inl ⟨?_, rfl⟩
    by_contra hnew
    refine Option.not_isSome_iff_eq_none.2 hins (Table.insert?_isSome.2 fun r hr hkey => ?_)
    exact hnew ⟨r, hr, hkey⟩

theorem inserted_iff : Inserted cols bot d m ↔ ∀ r ∈ m.fills.rows, r.eventKey ≠ d.eventKey := by
  unfold Inserted
  rcases @recordFill_cases cols bot d m with
    ⟨⟨r, hr, hkey⟩, hfills⟩ | ⟨hnew, row, -, hrows⟩
  · rw [hfills]
    exact iff_of_false (by omega) fun h => h r hr hkey
  · rw [hrows, List.length_append]
    exact iff_of_true rfl hnew

/-- Two different executions get different keys, and both are inserted, exactly when they do not
clash. -/
theorem both_inserted_iff (cols : ColumnLib) (bot bot' : String) {e e' : Execution Λ}
    (hne : e.identity ≠ e'.identity) (now now' : Time) {m : Mirror}
    (hm : ∀ r ∈ m.fills.rows, r.eventKey ≠ e.eventKey ∧ r.eventKey ≠ e'.eventKey) :
    (e.eventKey ≠ e'.eventKey ∧ Inserted cols bot (e.fill now) m ∧
      Inserted cols bot' (e'.fill now') (Mirror.recordFill cols bot (e.fill now) m)) ↔
    ¬ Clash e e' := by
  have hfirst : Inserted cols bot (e.fill now) m := inserted_iff.2 fun r hr => (hm r hr).1
  rw [← eventKey_eq_iff hne]
  refine ⟨fun h => h.1, fun hkeys => ⟨hkeys, hfirst, inserted_iff.2 fun r hr hkey => ?_⟩⟩
  rcases @recordFill_cases cols bot (e.fill now) m with
    ⟨⟨r', hr', hkey'⟩, -⟩ | ⟨-, row, hrow, hrows⟩
  · exact (hm r' hr').1 hkey'
  · rw [hrows] at hr
    rcases List.mem_append.1 hr with hr | hr
    · exact (hm r hr).2 hkey
    · rw [List.mem_singleton.1 hr] at hkey
      exact hkeys (hrow.symm.trans hkey)

/-- The first order of a ledger, filled at a price. -/
def firstFill (ledger : Nat) (price : ℚ) : Execution Nat :=
  .paper ledger 0 (sampleRow sampleEntry .buy 1 "P1") (PaperExecutor.symbolRules ⟨"BTC", "USDT"⟩) price 0

/-- The first executions of two ledgers have one key, and the second is not inserted. -/
theorem first_fills_clash :
    let cols : ColumnLib := ⟨fun _ _ x => x⟩
    (firstFill 0 100).identity ≠ (firstFill 1 200).identity ∧
      (firstFill 0 100).eventKey = "paper:BTC/USDT:P1:PT1:TRADE" ∧
      (firstFill 1 200).eventKey = "paper:BTC/USDT:P1:PT1:TRADE" ∧
      ¬ Inserted cols "b" ((firstFill 1 200).fill 0)
        (Mirror.recordFill cols "a" ((firstFill 0 100).fill 0) {}) := by
  unfold Inserted
  decide +kernel

/-- A trade of a Binance account. -/
def sampleTrade (id : Nat) : Execution Nat :=
  .binance "main" ⟨fun _ => ⟨"BTC", "USDT"⟩⟩
    { id, orderId := 7, symbol := ⟨"BTCUSDT", btcusdt_free⟩, qty := 1, price := 100, quoteQty := 100
      commission := 0, commissionAsset := none, time := 0, isBuyer := true }
    (sampleRow sampleEntry .buy 1 "7")

theorem binance_trades_inserted :
    let cols : ColumnLib := ⟨fun _ _ x => x⟩
    (sampleTrade 1).eventKey ≠ (sampleTrade 2).eventKey ∧
      Inserted cols "a" ((sampleTrade 1).fill 0) {} ∧
      Inserted cols "a" ((sampleTrade 2).fill 0)
        (Mirror.recordFill cols "a" ((sampleTrade 1).fill 0) {}) :=
  (both_inserted_iff _ "a" "a" (by decide) 0 0 fun _ hr => (by cases hr)).2 fun h => h

end Execution

end CryptoBot
