import CryptoBot.Application.PositionService

/-!
# What the services call

The interfaces the application services are written against: the executor
(`engine/execution/base.py`), the clock, the control plane, market data and strategy. Every call is
a request to the environment, answered by a value or an exception; every query and every
transaction of the store is one atomic step.
-/

namespace CryptoBot

open Lib

/-- The part of `config` the modelled services read. -/
structure Config where
  bot : String
  symbol : Symbol
  tradingMode : TradingMode
  exchangeName : String
  clientOrderIdPrefix : String
  textLib : TextLib
  protectiveStopOnExchange : Bool
  protectiveStopLimitOffsetPct : ℚ
  globalTradingEnabled : Bool
  riskPerTradePct : ℚ
  stopLossPct : ℚ
  dailyLossLimitPct : ℚ
  maxOpenPositions : Nat
  ambiguousOrderGraceSeconds : Int
  reconStateMaxAgeSeconds : Int
  recentFillsLookbackHours : Int

/-- A text library given by a table of digests, with `str.isalnum` on ASCII. -/
def TextLib.table (digests : List (IntentId × String)) : TextLib where
  sha256Hex i := (digests.lookup i).getD ""
  isalnum := Char.isAlphanum

/-- The defaults of `config.py`, with TESTNET chosen. -/
def Config.testnet (textLib : TextLib) : Config where
  bot := "default"
  symbol := ⟨"BTC", "USDT"⟩
  tradingMode := .testnet
  exchangeName := "binance"
  clientOrderIdPrefix := "cb1"
  textLib := textLib
  protectiveStopOnExchange := false
  protectiveStopLimitOffsetPct := 1 / 2
  globalTradingEnabled := true
  riskPerTradePct := 1
  stopLossPct := 3
  dailyLossLimitPct := 5
  maxOpenPositions := 1
  ambiguousOrderGraceSeconds := 60
  reconStateMaxAgeSeconds := 90
  recentFillsLookbackHours := 48

/-- The control state the control plane answers with. -/
structure Control where
  enabled : Bool
  emergencyStop : Bool
  reconciliationAckToken : Option String
deriving DecidableEq

/-- A valid market snapshot. -/
structure MarketSnapshot where
  candleTs : String
  markPrice : ℚ
  signalPrice : ℚ
  /-- Closing time and low of the last two raw candles. -/
  recentCandles : List (Time × ℚ)
deriving DecidableEq

/-- `stop_check_low`: the lowest low among the candles that closed after the position opened. -/
def MarketSnapshot.stopCheckLow (snap : MarketSnapshot) (openedAt : Option Time) : Option ℚ :=
  ((snap.recentCandles.filter fun c => openedAt.all (· < c.1)).map (·.2)).min?

/-- What a process reads without a call that could fail: the clock, a fresh nonce, and the
worker's own flag that says whether the user-data stream is connected. -/
inductive Ambient
  | now | uuid | connected
deriving DecidableEq

abbrev Ambient.Val : Ambient → Type
  | now => Time
  | uuid => String
  | connected => Bool

/-- A call to the executor, the control plane, the configuration check, market data or strategy. -/
inductive Req
  | symbolRules (symbol : Symbol)
  | submit (order : Order) (rules : SymbolRules)
  | queryOrder (order : Order)
  | queryOrderByExchangeId (symbol : Symbol) (exchangeOrderId : String)
  | queryFills (order : Order)
  | cancel (order : Order)
  | openOrders (symbol : Symbol)
  | recentFills (symbol : Symbol) (sinceMs : Int)
  | balances
  | getControl
  | validateRuntime
  | snapshot (symbol : Symbol)
  | evaluate (snap : MarketSnapshot)
deriving DecidableEq

/-- What a call returns when it does not raise. A snapshot that is not valid has only its
reason. -/
abbrev Req.Val : Req → Type
  | symbolRules _ => SymbolRules
  | submit .. | cancel _ => SubmitOutcome
  | queryOrder _ | queryOrderByExchangeId .. => Option ExchangeOrderReport
  | queryFills _ | recentFills .. => List ExchangeFill
  | openOrders _ => List ExchangeOrderReport
  | balances => BalanceSnapshot
  | getControl => Control
  | validateRuntime => PUnit
  | snapshot _ => Except String MarketSnapshot
  | evaluate _ => Signal

inductive Request
  | ambient (a : Ambient)
  | call (r : Req)
deriving DecidableEq

/-- The answer to a request: a call is answered by a value or an exception. -/
abbrev Ans : Request → Type
  | .ambient a => a.Val
  | .call r => Except Exn r.Val

/-- What an atomic step of the store is, where that matters. -/
inductive Label
  | query
  | commit
  /-- The look-up of an intent with which `submit_intent` begins. -/
  | submitIntent (intent : OrderIntent)
  /-- An exchange report contradicted this terminal order. -/
  | recordConflict (clientOrderId : String)
  /-- The write of `set_state` at the start of a reconciliation run (with the status the run found),
  for its verdict, for an aborted run, and for any other reason. -/
  | runStart (operatorAck : Bool) (previous : ReconciliationStatus) (reason : String)
  | runEnd (operatorAck clean : Bool) (status : ReconciliationStatus) (reason : String)
  | runFailed (reason : String)
  | setState (status : ReconciliationStatus) (reason : String)
  /-- The read and the write of an update of the reconciliation row that is no `set_state`: of a
  time stamp by the heartbeat or a stream event, or of another flag. -/
  | rowRead
  | stampWrite
  | flagWrite
  /-- The read of the fills and the write of the position in `rebuild`. -/
  | rebuildRead
  | rebuildWrite

/-- The status and the reason a `set_state` writes. -/
def Label.written : Label → Option (ReconciliationStatus × String)
  | runStart _ _ reason => some (.reconciling, reason)
  | runEnd _ _ status reason => some (status, reason)
  | runFailed reason => some (.degraded, reason)
  | setState status reason => some (status, reason)
  | _ => none

/-- The steps that write the reconciliation row. -/
def Label.writesRow : Label → Bool
  | stampWrite | flagWrite => true
  | l => l.written.isSome

/-- A program of an engine process. -/
abbrev Engine (α : Type) : Type 1 := Proc Ledger Label Ans Exn α

/-- One store query. -/
def query {α : Type} (l : Label) (f : Ledger → α) : Engine α :=
  Proc.step l fun s => (.ok (f s), s)

/-- One store transaction, rolled back when it raises. -/
def transaction {α : Type} (l : Label) (t : Tx α) : Engine α :=
  Proc.step l fun s =>
    match t s with
    | .ok (a, s') => (.ok a, s')
    | .error e => (.error e, s)

/-- `clock.now()`. -/
def clockNow : Engine Time := Proc.ask (.ambient .now) .ok

/-- The first characters of `uuid4().hex`. -/
def freshNonce : Engine String := Proc.ask (.ambient .uuid) .ok

def streamConnected : Engine Bool := Proc.ask (.ambient .connected) .ok

/-- A call, with its exception raised. -/
def call (r : Req) : Engine r.Val := Proc.ask (.call r) id

/-- The value of an optional result that the caller uses without a check. -/
def orRaise {α : Type} (x : Option α) (what : String) : Engine α :=
  match x with
  | some a => pure a
  | none => throw (.attributeError s!"'NoneType' object has no attribute '{what}'")

/-! ## Sample environments -/

/-- An environment that stands still in time and answers every call by `answer`. -/
def exchangeEnv (answer : (r : Req) → Except Exn r.Val) : Prog.Env Label Ans := fun _ q =>
  match q with
  | .ambient .now => seconds 1735689600
  | .ambient .uuid => "5f0c1a2b"
  | .ambient .connected => true
  | .call r => answer r

/-- The answers of an exchange that lists these open orders and has no fills. -/
def listing (open_ : Except Exn (List ExchangeOrderReport)) : (r : Req) → Except Exn r.Val
  | .symbolRules symbol => .ok { symbol, baseAsset := symbol.base, quoteAsset := symbol.quote }
  | .openOrders _ => open_
  | .balances => .ok ⟨[("USDT", ⟨1000, 0⟩)]⟩
  | .recentFills .. | .queryFills _ => .ok []
  | _ => .error (.external "ConnectionError" "not asked")

/-- An entry at the first candle of 2025. -/
def sampleEntry : IntentId :=
  ⟨⟨"default", ⟨"BTC", "USDT"⟩, .candle "2025-01-01T00:00:00+00:00", .entry⟩, 0⟩

/-- An exit of the position opened at that time. -/
def sampleExit (attempt : Nat) : IntentId :=
  ⟨⟨"default", ⟨"BTC", "USDT"⟩, .openedAt (seconds 1735689600), .exit⟩, attempt⟩

/-- The stop of that position. -/
def sampleStop : IntentId :=
  ⟨⟨"default", ⟨"BTC", "USDT"⟩, .openedAt (seconds 1735689600), .protectiveStop⟩, 0⟩

/-- The default configuration, with the digests of the sample intents. -/
def sampleConfig : Config := .testnet <| .table
  [(sampleEntry, "721ab8c17c89f1c57c2a438c5f7c391312e7c485f2a50cfd88ae174c9d073fc5"),
   (sampleExit 0, "fd75a16372e85f6cc5c2063bbd5ce23c029682d018dc35b5d2613c4257754528"),
   (sampleExit 1, "bf217428b894980e66dee4b613f0efee94f7c44734ce90152bb2b80fc2574ba5"),
   (sampleExit 2, "5610146fc6343c10c3003fc46f22106a5174bbaa9b7203232ba96d2ac64a93b1"),
   (sampleStop, "063f3003c4c4194d34a990deaa7585a86b02cc869d0c306e559132dfa3c42a1c")]

/-- The intent of a market order of the sample bot. -/
def sampleIntent (id : IntentId) (side : OrderSide) (quantity : ℚ) : OrderIntent where
  clientIntentId := id
  bot := "default"
  symbol := ⟨"BTC", "USDT"⟩
  side := side
  orderType := .market
  quantity := quantity
  purpose := id.base.purpose
  referencePrice := some 100

/-- A report about the order of a sample intent, executed at 100. -/
def sampleReport (id : IntentId) (side : OrderSide) (status : OrderStatus) (executed : ℚ) :
    ExchangeOrderReport where
  clientOrderId := makeClientOrderId sampleConfig.textLib sampleConfig.clientOrderIdPrefix id
  symbol := ⟨"BTC", "USDT"⟩
  side := side
  orderType := .market
  status := status
  origQty := 2
  executedQty := executed
  cumQuoteQty := executed * 100
  exchangeOrderId := some "4711"

/-- An execution of the order of a sample intent at 100. -/
def sampleFill (id : IntentId) (side : OrderSide) (trade : String) (quantity : ℚ) :
    ExchangeFill where
  exchangeTradeId := trade
  exchangeOrderId := some "4711"
  clientOrderId :=
    some (makeClientOrderId sampleConfig.textLib sampleConfig.clientOrderIdPrefix id)
  symbol := ⟨"BTC", "USDT"⟩
  side := side
  quantity := quantity
  price := 100
  quoteQuantity := quantity * 100
  commission := 0
  commissionAsset := none
  executionTimeMs := 1735689600000
  eventKey := "fill:binance:BTCUSDT:" ++ trade

/-- An open order with the bot's prefix that no ledger knows. -/
def strayOrder : ExchangeOrderReport :=
  { sampleReport sampleEntry .buy .new 0 with clientOrderId := "cb1-ffff" }

/-- An exchange that lists the stray order. -/
def strayExchange : Prog.Env Label Ans := exchangeEnv (listing (.ok [strayOrder]))

/-! ## Rules -/

section
variable {α : Type} {C : Contract Ledger Label Ans}
  {Φ : Except Exn α → History Label Ans → Ledger → Prop}
  {h : History Label Ans} {s : Ledger}

@[simp] theorem wp_query (l : Label) (f : Ledger → α) :
    Proc.wp C (query l f) Φ h s ↔ ∀ s', C.rely h s s' →
      C.step h l s' s' ∧ Φ (.ok (f s')) (.step l :: h) s' := Iff.rfl

/-- A transaction commits its result, or raises and leaves the ledger alone. -/
theorem wp_transaction {l : Label} {t : Tx α} (ht : ∀ s', C.rely h s s' →
      (∀ a s'', t s' = .ok (a, s'') → C.step h l s' s'' ∧ Φ (.ok a) (.step l :: h) s'') ∧
      ∀ e, t s' = .error e → C.step h l s' s' ∧ Φ (.error e) (.step l :: h) s') :
    Proc.wp C (transaction l t) Φ h s := by
  refine fun s' hr => ?_
  obtain ⟨hok, herr⟩ := ht s' hr
  cases htx : t s' with
  | ok r => simpa [htx, Prog.wp] using hok r.1 r.2 htx
  | error e => simpa [htx, Prog.wp] using herr e htx

/-- A transaction that succeeds wherever it may be taken. -/
theorem wp_transaction_ok {l : Label} {t : Tx α} (ht : ∀ s', C.rely h s s' →
      ∃ a s'', t s' = .ok (a, s'') ∧ C.step h l s' s'' ∧ Φ (.ok a) (.step l :: h) s'') :
    Proc.wp C (transaction l t) Φ h s := by
  refine wp_transaction fun s' hr => ?_
  obtain ⟨a, s'', htx, hstep, hΦ⟩ := ht s' hr
  refine ⟨fun b u hu => ?_, fun e he => ?_⟩
  · rw [htx] at hu
    cases hu
    exact ⟨hstep, hΦ⟩
  · rw [htx] at he
    cases he

@[simp] theorem wp_call (r : Req) (Φ : Except Exn r.Val → History Label Ans → Ledger → Prop) :
    Proc.wp C (call r) Φ h s ↔ ∀ s', C.rely h s s' → C.guard h (.call r) s' ∧
      ∀ a, C.ans h (.call r) s' a → Φ a (.call (.call r) a :: h) s' := Iff.rfl

@[simp] theorem wp_clockNow (Φ : Except Exn Time → History Label Ans → Ledger → Prop) :
    Proc.wp C clockNow Φ h s ↔ ∀ s', C.rely h s s' → C.guard h (.ambient .now) s' ∧
      ∀ t, C.ans h (.ambient .now) s' t → Φ (.ok t) (.call (.ambient .now) t :: h) s' := Iff.rfl

@[simp] theorem wp_freshNonce (Φ : Except Exn String → History Label Ans → Ledger → Prop) :
    Proc.wp C freshNonce Φ h s ↔ ∀ s', C.rely h s s' → C.guard h (.ambient .uuid) s' ∧
      ∀ u, C.ans h (.ambient .uuid) s' u → Φ (.ok u) (.call (.ambient .uuid) u :: h) s' := Iff.rfl

@[simp] theorem wp_streamConnected (Φ : Except Exn Bool → History Label Ans → Ledger → Prop) :
    Proc.wp C streamConnected Φ h s ↔ ∀ s', C.rely h s s' → C.guard h (.ambient .connected) s' ∧
      ∀ b, C.ans h (.ambient .connected) s' b →
        Φ (.ok b) (.call (.ambient .connected) b :: h) s' := Iff.rfl

theorem wp_orRaise {x : Option α} {what : String} (hsome : ∀ a, x = some a → Φ (.ok a) h s)
    (hnone : ∀ m, x = none → Φ (.error (.attributeError m)) h s) :
    Proc.wp C (orRaise x what) Φ h s := by
  cases x with
  | some a => exact hsome a rfl
  | none => exact hnone _ rfl

variable {R : Label → Ledger → Ledger → Prop}

theorem query_within {l : Label} {f : Ledger → α} (hR : ∀ s, R l s s) :
    (query l f).Within R := Proc.within_step hR

theorem transaction_within {l : Label} {t : Tx α} (hR : ∀ s, R l s s)
    (ht : ∀ s a s', t s = .ok (a, s') → R l s s') : (transaction l t).Within R := by
  refine Proc.within_step fun s => ?_
  cases htx : t s with
  | ok r => simpa [htx] using ht s r.1 r.2 htx
  | error e => simpa [htx] using hR s

theorem orRaise_within (x : Option α) (what : String) : (orRaise x what).Within R := by
  cases x <;> exact trivial

@[simp] theorem call_within (r : Req) : (call r).Within R := Proc.within_ask _ _

@[simp] theorem clockNow_within : clockNow.Within R := Proc.within_ask _ _

@[simp] theorem freshNonce_within : freshNonce.Within R := Proc.within_ask _ _

@[simp] theorem streamConnected_within : streamConnected.Within R := Proc.within_ask _ _

end

end CryptoBot
