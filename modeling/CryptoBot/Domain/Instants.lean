import CryptoBot.Domain.Types

/-!
# Instants as text

`datetime.isoformat`, for the years that have four digits.
-/

namespace CryptoBot

/-- A field of fixed width: the lowest `width` decimal digits of a number. -/
def fixedWidth : (width : Nat) → Int → List Char
  | 0, _ => []
  | width + 1, n => fixedWidth width (n / 10) ++ [Nat.digitChar (n % 10).toNat]

/-- `datetime.isoformat` of an instant in UTC. -/
def isoformat (t : Time) : String :=
  let secs := t / 1000000
  let days := secs / 86400 + 719468
  let era := days / 146097
  let doe := days - era * 146097
  let yoe := (doe - doe / 1460 + doe / 36524 - doe / 146096) / 365
  let doy := doe - (365 * yoe + yoe / 4 - yoe / 100)
  let mp := (5 * doy + 2) / 153
  let month := if mp < 10 then mp + 3 else mp - 9
  let year := yoe + era * 400 + if month ≤ 2 then 1 else 0
  let date := fixedWidth 4 year ++ ['-'] ++ fixedWidth 2 month ++ ['-'] ++
    fixedWidth 2 (doy - (153 * mp + 2) / 5 + 1)
  let time := fixedWidth 2 (secs / 3600 % 24) ++ [':'] ++ fixedWidth 2 (secs / 60 % 60) ++ [':'] ++
    fixedWidth 2 (secs % 60)
  let micros := if t % 1000000 = 0 then [] else '.' :: fixedWidth 6 (t % 1000000)
  String.ofList (date ++ ['T'] ++ time ++ micros ++ ['+', '0', '0', ':', '0', '0'])

example : isoformat 1709251199000042 = "2024-02-29T23:59:59.000042+00:00" := by decide

theorem length_fixedWidth (width : Nat) (n : Int) : (fixedWidth width n).length = width := by
  induction width generalizing n with
  | zero => rfl
  | succ width ih => rw [fixedWidth, List.length_append, ih, List.length_singleton]

theorem length_isoformat_le (t : Time) : (isoformat t).length ≤ 32 := by
  have hmicros :
      (if t % 1000000 = 0 then [] else '.' :: fixedWidth 6 (t % 1000000)).length ≤ 7 := by
    split <;> simp [length_fixedWidth]
  unfold isoformat
  dsimp only
  rw [String.length_ofList]
  simp only [List.length_append, length_fixedWidth, List.length_cons, List.length_nil]
  omega

end CryptoBot
