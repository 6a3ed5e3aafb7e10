import CryptoBot.ControlPlane.MirrorLaws
import CryptoBot.ControlPlane.RunMirror
import CryptoBot.Lib.Replay

/-!
# The internal API

The requests of the engine to the control plane: `BotInternal` lets them in, the throttle may turn
them away, `EnsureIdempotentRequest` answers a repeated request id from its ledger, and
`BotApiController` hands the message of a write to its action. The row of the bot, which `control`
reads and `heartbeat` writes, is not part of the state kept here; what the rules of a form request let
through is a parameter, but for the bot instance in the body.
-/

namespace CryptoBot

open Lib

/-! ## Requests and responses -/

/-- The routes of `routes/api.php`. -/
inductive Endpoint
  | control | heartbeat | signals | orders | fills | positions | reconciliation | events
deriving DecidableEq, Repr

/-- The endpoint that takes a message; an alert goes to Telegram. -/
def OutboxMessage.endpoint : OutboxMessage → Option Endpoint
  | .signal .. => some .signals
  | .order .. => some .orders
  | .fill _ => some .fills
  | .position _ => some .positions
  | .event .. => some .events
  | .reconciliation .. => some .reconciliation
  | .telegram .. => none

/-- The body of a write. -/
structure ApiBody where
  botInstance : String
  message : OutboxMessage
deriving DecidableEq

/-- A request with the headers that are read; `routeInstance` is the route parameter. -/
structure InternalRequest where
  routeInstance : String
  endpoint : Endpoint
  bearerToken : String
  botInstance : String
  timestamp : String
  requestId : String
  body : Option ApiBody
deriving DecidableEq

inductive ResponseBody
  | message (text : String)
  | ok
  | applied (applied : Bool)
  | inserted (inserted : Bool)
deriving DecidableEq

/-- The statuses the API answers with. -/
inductive HttpStatus
  | ok | badRequest | unauthorized | forbidden | notFound | conflict | unprocessable
  | tooManyRequests | serverError
deriving DecidableEq, Repr

def HttpStatus.code : HttpStatus → Nat
  | ok => 200
  | badRequest => 400
  | unauthorized => 401
  | forbidden => 403
  | notFound => 404
  | conflict => 409
  | unprocessable => 422
  | tooManyRequests => 429
  | serverError => 500

/-- A response; `replay` is the header `X-Idempotent-Replay`. -/
structure Response where
  status : HttpStatus
  body : ResponseBody
  replay : Bool := false
deriving DecidableEq

def Response.refusal (status : HttpStatus) (text : String) : Response := ⟨status, .message text, false⟩

/-- A refusal of the API has a code that the engine does not take for success, and nothing but
success has a smaller one. -/
theorem HttpStatus.code_lt_iff {status : HttpStatus} :
    (status.code < 300 ↔ status = .ok) ∧ (status.code < 400 ↔ status = .ok) := by
  cases status <;> decide

/-- `config/trading.php`, as far as the middleware reads it. -/
structure ApiConfig where
  internalToken : String
  maxRequestSkewSeconds : Int := 300
  retentionDays : Int := 14

/-! ## `BotInternal` -/

namespace BotInternal

/-- The characters of `[A-Za-z0-9:\/._#+\-]`. -/
def requestIdChar (c : Char) : Bool := c.isAlphanum || [':', '/', '.', '_', '#', '+', '-'].contains c

/-- `preg_match` of the request id; the `$` of the pattern also stands before a final newline. -/
def validRequestId (requestId : String) : Bool :=
  let chars := requestId.toList
  let chars := if chars.getLast? = some '\n' then chars.dropLast else chars
  chars.all requestIdChar && decide (8 ≤ chars.length ∧ chars.length ≤ 191)

/-- The value of a text of digits. -/
def digitsValue (chars : List Char) : Nat := chars.foldl (fun n c => 10 * n + (c.toNat - 48)) 0

/-- `ctype_digit` and the clock skew. -/
def freshTimestamp (cfg : ApiConfig) (nowSeconds : Int) (timestamp : String) : Bool :=
  let chars := timestamp.toList
  !chars.isEmpty && chars.all Char.isDigit &&
    decide (|nowSeconds - digitsValue chars| ≤ cfg.maxRequestSkewSeconds)

/-- `handle`: the refusal of a request, or none. -/
def handle (cfg : ApiConfig) (nowSeconds : Int) (known : String → Bool) (r : InternalRequest) :
    Option Response :=
  if cfg.internalToken.utf8ByteSize < 32 ∨ cfg.internalToken ≠ r.bearerToken then
    some (.refusal .unauthorized "Unauthorized")
  else if r.routeInstance ≠ r.botInstance then
    some (.refusal .forbidden "Bot instance header mismatch")
  else if !freshTimestamp cfg nowSeconds r.timestamp then
    some (.refusal .unauthorized "Stale or missing X-Request-Timestamp")
  else if !validRequestId r.requestId then
    some (.refusal .badRequest "Missing or invalid X-Request-Id")
  else if !known r.routeInstance then some (.refusal .notFound "Unknown bot instance")
  else none

variable {cfg : ApiConfig} {nowSeconds : Int} {known : String → Bool} {r : InternalRequest}

/-- No refusal is a success. -/
theorem handle_status {x : Response} (h : handle cfg nowSeconds known r = some x) :
    x.status ≠ .ok := by
  unfold handle at h
  repeat' split at h
  all_goals cases h
  all_goals nofun

/-- What is let in carries the token, and names one bot in its route and its header. -/
theorem handle_eq_none (h : handle cfg nowSeconds known r = none) :
    r.bearerToken = cfg.internalToken ∧ r.botInstance = r.routeInstance := by
  unfold handle at h
  repeat' split at h
  all_goals try cases h
  next h₁ h₂ _ _ _ => exact ⟨(not_not.1 (not_or.1 h₁).2).symm, (not_not.1 h₂).symm⟩

end BotInternal

/-! ## The state -/

/-- A row of `bot_events`, as the endpoint of events writes it. -/
structure EventRow where
  idempotencyKey : String
  bot : String
  eventType : EventType
  severity : EventSeverity
  message : String
  payload : EventPayload
  occurredAt : Time
deriving DecidableEq

/-- `idempotency_key` is unique. -/
def EventRow.Compatible (a b : EventRow) : Prop := a.idempotencyKey ≠ b.idempotencyKey

instance : DecidableRel EventRow.Compatible := fun _ _ => by
  unfold EventRow.Compatible; infer_instance

/-- The tables that the writes keep; `bots` are the names of the bots that there are. -/
structure ApiState where
  bots : List String
  mirror : Mirror := {}
  runs : Table RunRow.Compatible := .empty
  events : Table EventRow.Compatible := .empty

/-! ## The actions -/

namespace Mirror

variable (cols : ColumnLib) (bot : String)

/-- `insertOrIgnore` of `RecordFill`, with the order that was looked up before. -/
def insertFill (order : Option String) (d : Fill) (m : Mirror) : Bool × Mirror :=
  match m.fills.insert?
    { bot, order, clientOrderId := d.clientOrderId
      exchangeTradeId := d.exchangeTradeId, symbol := d.symbol, side := d.side
      quantity := cols.amount d.quantity, price := cols.amount d.price
      quoteQuantity := cols.amount d.quoteQuantity, commission := cols.amount d.commission
      commissionAsset := d.commissionAsset, executionTime := wholeSeconds d.executionTime
      eventKey := d.eventKey } with
  | some fills => (true, { m with fills })
  | none => (false, m)

/-- Looked up and inserted at once, it is `recordFill`. -/
theorem insertFill_orderLink {d : Fill} {m : Mirror} :
    (insertFill cols bot (m.orderLink bot d.clientOrderId) d m).2 = recordFill cols bot d m := by
  unfold insertFill recordFill
  dsimp only
  generalize m.fills.insert? _ = x
  cases x <;> rfl

/-- `applied` in the response of `RecordOrder`. -/
def orderApplied (d : Order) (m : Mirror) : Bool :=
  (m.order? bot d.clientOrderId).all fun row => row.columns.engineVersion < d.version

/-- `applied` in the response of `RecordPosition`. -/
def positionApplied (d : Position) (m : Mirror) : Bool :=
  !(m.positions bot d.symbol).any fun pos =>
    pos.engineUpdatedAt.any fun t => d.updatedAt.any (· < t)

end Mirror

namespace InternalApi

/-- `firstOrCreate` of an event. -/
def recordEvent (bot requestId : String) (type : EventType) (severity : EventSeverity)
    (message : String) (payload : EventPayload) (at_ : Time) (s : ApiState) : ApiState :=
  match s.events.insert? ⟨requestId, bot, type, severity, message, payload, wholeSeconds at_⟩ with
  | some events => { s with events }
  | none => s

/-- `firstOrCreate` of a run; what a new one shows of the bot is in `RunMirror`. -/
def recordRun (bot : String) (d : ReconciliationRequest) (s : ApiState) : ApiState :=
  match s.runs.insert? (RunMirror.runRow bot d) with
  | some runs => { s with runs }
  | none => s

/-- What an action answers and does; `none` where the database refuses it. The two statements of
`RecordFill` are not one action. -/
def record (cols : ColumnLib) (bot requestId : String) (s : ApiState) :
    OutboxMessage → Option (ResponseBody × ApiState)
  | .signal id price reasons mode at_ =>
    (s.mirror.recordSignal cols bot id price reasons mode at_).map fun mirror =>
      (.ok, { s with mirror })
  | .order o signalId =>
    (s.mirror.recordOrder cols bot o signalId).map fun mirror =>
      (.applied (s.mirror.orderApplied bot o), { s with mirror })
  | .position p =>
    (s.mirror.deliver cols bot (.position p)).map fun mirror =>
      (.applied (s.mirror.positionApplied bot p), { s with mirror })
  | .event type severity message payload at_ =>
    some (.ok, recordEvent bot requestId type severity message payload at_ s)
  | .reconciliation run detail finishedAt =>
    some (.ok, recordRun bot ⟨run, some detail, finishedAt⟩ s)
  | .fill _ | .telegram .. => none

/-! ## A request -/

/-- The steps of a controller: looking up the order of an execution, and writing. -/
inductive ApiStep
  | link | record
deriving DecidableEq

/-- What a request asks of its surroundings: the time, whether the throttle turns it away, whether it
fails on the way. -/
inductive ApiAsk
  | now | throttled | fails
deriving DecidableEq

abbrev ApiAns : ApiAsk → Type
  | .now => Time
  | .throttled | .fails => Bool

/-- The name of a bot with a request id. -/
abbrev ApiKey := String × String

abbrev ApiStore := ReplayState ApiKey Endpoint Response ApiState

abbrev ApiLabel := ReplayLabel InternalRequest ApiStep

abbrev ApiProgram (α : Type) : Type 1 := Prog ApiStore ApiLabel ApiAns α

/-- The processes of the API. -/
abbrev ApiPool (τ : Type) : Type 1 :=
  ServicePool τ InternalRequest ApiKey Endpoint Response ApiState ApiStep ApiAns

/-- What the API is run with: its settings, its columns, and what the rules of the form requests let
through. -/
structure ApiSetup where
  cfg : ApiConfig
  cols : ColumnLib
  rules : OutboxMessage → Bool

variable (setup : ApiSetup) (r : InternalRequest)

/-- `BotInternal` and the throttle. -/
def front : ApiProgram (Except Response Unit) := do
  let now ← Prog.ask .now
  let bots ← Prog.step (.front r) fun s => (s.app.bots, s)
  match BotInternal.handle setup.cfg (now / 1000000) bots.contains r with
  | some refusal => return .error refusal
  | none =>
    if ← Prog.ask .throttled then
      return .error (.refusal .tooManyRequests "Too Many Attempts.")
    else return .ok ()

def serverError : Response := .refusal .serverError "Server Error"

/-- `failedValidation`. -/
def invalidPayload : Response := .refusal .unprocessable "Invalid payload"

/-- An action and its response. -/
def act (f : ApiState → Option (ResponseBody × ApiState)) : ApiProgram Response :=
  Prog.step (.handle r .record) fun s =>
    match f s.app with
    | some (body, app) => (⟨.ok, body, false⟩, { s with app })
    | none => (serverError, s)

/-- The form request of the endpoint lets the body through. -/
def valid (body : ApiBody) : Bool :=
  decide (body.botInstance = r.routeInstance ∧ body.message.endpoint = some r.endpoint) &&
    setup.rules body.message

/-- The action of a write. -/
def write (body : ApiBody) : ApiProgram Response :=
  match body.message with
  | .fill d => do
    let order ← Prog.step (.handle r .link) fun s =>
      (s.app.mirror.orderLink r.routeInstance d.clientOrderId, s)
    act r fun s =>
      let (inserted, mirror) := s.mirror.insertFill setup.cols r.routeInstance order d
      some (.inserted inserted, { s with mirror })
  | d => act r fun s => record setup.cols r.routeInstance r.requestId s d

/-- The controller. A write without a body fails its validation. -/
def handler : ApiProgram Response := do
  if ← Prog.ask .fails then return serverError
  else if r.endpoint = .control ∨ r.endpoint = .heartbeat then return ⟨.ok, .ok, false⟩
  else
    match r.body with
    | some body => if valid setup r body then write setup r body else return invalidPayload
    | none => return invalidPayload

/-- The internal API: `EnsureIdempotentRequest` between the front and the controller. A day of
retention has 86400 seconds, and `created_at` keeps whole seconds. -/
def service : Service InternalRequest ApiKey Endpoint Response Unit ApiState ApiStep ApiAns where
  key r := (r.routeInstance, r.requestId)
  endpoint r := r.endpoint
  ledgered r := decide (r.endpoint ≠ .control ∧ r.endpoint ≠ .heartbeat)
  front := front setup
  passes r := r.bearerToken = setup.cfg.internalToken ∧ r.botInstance = r.routeInstance
  handler r _ := handler setup r
  accepted x := decide (x.status.code < 300)
  conflict := .refusal .conflict "X-Request-Id reused for a different endpoint"
  replayed x := { x with replay := true }
  clock := .now
  time t := wholeSeconds t
  retention := seconds (setup.cfg.retentionDays * 86400)

end InternalApi

end CryptoBot
