import CryptoBot.Domain.Instants
import CryptoBot.Lib.Fields
import CryptoBot.Lib.Substitution

/-!
# Structured logging

`engine/infrastructure/logging.py`: a record becomes one line of JSON, after secrets have been replaced
in the strings of its payload. `json.dumps` writes what is left: strings with every character outside
printable ASCII escaped, numbers as they are, and other objects as strings of what `str` makes of them.
-/

namespace CryptoBot

open Lib

namespace Logging

/-! ## Values -/

/-- A number, a truth value or None, as JSON writes it. -/
structure Literal where
  text : String
  ok : '"' ∉ text.toList
deriving DecidableEq

/-- A key of a dictionary: a string, or something else with its `str` and what JSON writes for it. -/
structure Key where
  shown : String
  written : String
deriving DecidableEq

/-- A string as a key. -/
def Key.str (text : String) : Key := ⟨text, text⟩

/-- The values a record may hold. Lists and tuples are alike to `redact` and to JSON. -/
inductive Value
  | str (text : String)
  | num (literal : Literal)
  | obj (shown : String)
  | list (items : List Value)
  | dict (fields : List (Key × Value))

/-! ## Redaction -/

/-- The secrets that are registered. -/
structure Secrets where
  known : List String := []
  long : ∀ s ∈ known, 6 ≤ s.length := by simp

/-- `register_secret`. -/
def register (secrets : Secrets) (value : Option String) : Secrets :=
  match value with
  | none => secrets
  | some value =>
    if h : 6 ≤ value.length ∧ value ∉ secrets.known then
      { known := secrets.known ++ [value]
        long := by
          intro s hs
          rcases List.mem_append.1 hs with hs | hs
          · exact secrets.long s hs
          · rw [List.mem_singleton.1 hs]
            exact h.1 }
    else secrets

/-- A character as `re.I` compares it with a letter of ASCII. -/
def fold (c : Char) : Char :=
  if c = '\u017f' then 's' else if c = '\u212a' then 'k'
  else if c = '\u0130' ∨ c = '\u0131' then 'i' else c.toLower

/-- The alternatives of `_SECRET_KEYS`. -/
def secretWords : List (List Char) :=
  ["api_key".toList, "api-key".toList, "apikey".toList, "secret".toList, "signature".toList,
   "token".toList, "password".toList, "authorization".toList]

/-- `_SECRET_KEYS.search`. -/
def isSecretKey (key : Key) : Bool :=
  secretWords.any fun w => decide (w <:+: key.shown.toList.map fold)

/-- The replacement text. -/
def stars : List Char := ['*', '*', '*']

/-- The characters of a value of a query parameter. -/
def inValue (c : Char) : Bool := decide (c ≠ '&' ∧ c ≠ '"') && !isSpace c

/-- A match of `(signature=)[^&\s\"]+` at the start of a text, with its replacement. -/
def signatureAt (text : List Char) : Option (Nat × List Char) :=
  let value := (text.drop 10).takeWhile inValue
  if "signature=".toList.isPrefixOf text ∧ value ≠ [] then
    some (10 + value.length, "signature=".toList ++ stars)
  else none

/-- `redact` of a string. -/
def scrub (secrets : Secrets) (text : List Char) : List Char :=
  substitute signatureAt 0 (secrets.known.foldl (fun text s => replaceAll s.toList stars text) text)

mutual

/-- `redact`. -/
def redact (secrets : Secrets) : Value → Value
  | .str text => .str (String.ofList (scrub secrets text.toList))
  | .num literal => .num literal
  | .obj shown => .obj shown
  | .list items => .list (redactItems secrets items)
  | .dict fields => .dict (redactFields secrets fields)

def redactItems (secrets : Secrets) : List Value → List Value
  | [] => []
  | v :: vs => redact secrets v :: redactItems secrets vs

def redactFields (secrets : Secrets) : List (Key × Value) → List (Key × Value)
  | [] => []
  | (k, v) :: fields =>
    (k, if isSecretKey k then .str "***" else redact secrets v) :: redactFields secrets fields

end

/-! ## JSON -/

/-- Four digits in base sixteen. -/
def hex4 (n : Nat) : List Char :=
  [Nat.digitChar (n / 4096 % 16), Nat.digitChar (n / 256 % 16), Nat.digitChar (n / 16 % 16),
   Nat.digitChar (n % 16)]

/-- A character of a string, as `json.dumps` writes it. -/
def escapeChar (c : Char) : List Char :=
  let n := c.toNat
  if c = '"' then ['\\', '"']
  else if c = '\\' then ['\\', '\\']
  else if 32 ≤ n ∧ n ≤ 126 then [c]
  else if n = 10 then ['\\', 'n']
  else if n = 13 then ['\\', 'r']
  else if n = 9 then ['\\', 't']
  else if n = 12 then ['\\', 'f']
  else if n = 8 then ['\\', 'b']
  else if n < 65536 then ['\\', 'u'] ++ hex4 n
  else ['\\', 'u'] ++ hex4 (55296 + (n - 65536) / 1024 % 1024) ++
    (['\\', 'u'] ++ hex4 (56320 + (n - 65536) % 1024))

/-- The text between the quotes of a string. -/
def escape (text : List Char) : List Char := text.flatMap escapeChar

/-- A piece of a line: a text without quotes, or what stands between the quotes of a string. -/
inductive Piece
  | raw (text : List Char)
  | quoted (body : List Char)
deriving DecidableEq

mutual

/-- `json.dumps` of a value, in pieces. -/
def pieces : Value → List Piece
  | .str text => [.quoted (escape text.toList)]
  | .num literal => [.raw literal.text.toList]
  | .obj shown => [.quoted (escape shown.toList)]
  | .list items => .raw ['['] :: itemPieces [] items ++ [.raw [']']]
  | .dict fields => .raw ['\x7b'] :: fieldPieces [] fields ++ [.raw ['\x7d']]

def itemPieces (sep : List Piece) : List Value → List Piece
  | [] => []
  | v :: vs => sep ++ pieces v ++ itemPieces [.raw [',', ' ']] vs

def fieldPieces (sep : List Piece) : List (Key × Value) → List Piece
  | [] => []
  | (k, v) :: fields =>
    sep ++ .quoted (escape k.written.toList) :: .raw [':', ' '] :: pieces v ++
      fieldPieces [.raw [',', ' ']] fields

end

/-- The text of a line. -/
def render : List Piece → List Char
  | [] => []
  | .raw text :: ps => text ++ render ps
  | .quoted body :: ps => '"' :: body ++ '"' :: render ps

/-- `json.dumps(value, default=str)`. -/
def dumps (v : Value) : String := String.ofList (render (pieces v))

/-! ## Records -/

/-- What the formatter reads of a `LogRecord`. `attributes` are the items of its `__dict__`, and
`exception` is the text of `formatException`. -/
structure LogRecord where
  created : Time
  levelname : String
  name : String
  message : String
  attributes : List (String × Value) := []
  exception : Option String := none

/-- `_STANDARD`. -/
def standard : List String :=
  ["name", "msg", "args", "levelname", "levelno", "pathname", "filename", "module", "exc_info",
   "exc_text", "stack_info", "lineno", "funcName", "created", "msecs", "relativeCreated", "thread",
   "threadName", "processName", "process", "taskName", "message", "asctime"]

/-- `payload[key] = value`. -/
def setField (key : String) (v : Value) : List (Key × Value) → List (Key × Value)
  | [] => [(.str key, v)]
  | (k, w) :: fields =>
    if k = .str key then (k, v) :: fields else (k, w) :: setField key v fields

/-- The variable `payload` of `format`. -/
def payload (record : LogRecord) : List (Key × Value) :=
  let base := [(Key.str "ts", Value.str (isoformat record.created)),
    (.str "level", .str record.levelname), (.str "logger", .str record.name),
    (.str "event", .str record.message)]
  let fields := record.attributes.foldl (fun fields a =>
    if a.1 ∉ standard ∧ a.1.toList.head? ≠ some '_' then setField a.1 a.2 fields else fields) base
  match record.exception with
  | none => fields
  | some text => setField "exception" (.str text) fields

/-- `JsonFormatter.format`. -/
def format (secrets : Secrets) (record : LogRecord) : String :=
  dumps (redact secrets (.dict (payload record)))

end Logging

end CryptoBot
