import CryptoBot.Domain.Instants
import CryptoBot.Lib.TextOrder
import Mathlib.Data.String.Basic
import Mathlib.Tactic.Linarith

/-!
# The order of instants as texts

The store keeps instants as texts in UTC and compares them as texts. All fields but the fraction have a
fixed width, and a fraction is written after a full stop, which follows the plus sign of the offset in
the order of characters. So within the years of four digits the order of the texts is that of the
instants.
-/

namespace CryptoBot

open Lib

/-! ## Fields -/

theorem digitChar_lt {a b : Nat} (ha : a < 10) (hb : b < 10) :
    Nat.digitChar a < Nat.digitChar b ↔ a < b := by
  have hall : ∀ a < 10, ∀ b < 10, (Nat.digitChar a < Nat.digitChar b ↔ a < b) := by decide
  exact hall a ha b hb

/-- Fields of the same width are compared as numbers. -/
theorem fixedWidth_lt_iff {width : Nat} {n m : Int} (hn : 0 ≤ n ∧ n < 10 ^ width)
    (hm : 0 ≤ m ∧ m < 10 ^ width) : (fixedWidth width n < fixedWidth width m ↔ n < m) ∧
      (fixedWidth width n = fixedWidth width m ↔ n = m) := by
  induction width generalizing n m with
  | zero =>
    have hzero : n = m := by
      rw [pow_zero] at hn hm
      omega
    subst hzero
    simp [fixedWidth]
  | succ width ih =>
    rw [pow_succ] at hn hm
    obtain ⟨hlt, heq⟩ := @ih (n / 10) (m / 10) (by omega) (by omega)
    have hlen : (fixedWidth width (n / 10)).length = (fixedWidth width (m / 10)).length := by
      rw [length_fixedWidth, length_fixedWidth]
    have hdigit : Nat.digitChar (n % 10).toNat < Nat.digitChar (m % 10).toNat ↔ n % 10 < m % 10 := by
      rw [digitChar_lt (by omega) (by omega)]
      omega
    have hdigit' : Nat.digitChar (m % 10).toNat < Nat.digitChar (n % 10).toNat ↔ m % 10 < n % 10 := by
      rw [digitChar_lt (by omega) (by omega)]
      omega
    have hsame (h : Nat.digitChar (n % 10).toNat = Nat.digitChar (m % 10).toNat) :
        n % 10 = m % 10 := by
      have hnot := hdigit.not.1 h.not_lt
      have hnot' := hdigit'.not.1 h.symm.not_lt
      omega
    rw [fixedWidth, fixedWidth, append_lt_append_iff hlen, hlt, heq, List.cons_lt_cons_iff, hdigit]
    constructor
    · simp only [List.not_lt_nil, and_false, or_false]
      omega
    · constructor
      · intro h
        obtain ⟨hhigh, hlow⟩ := List.append_inj h hlen
        have hhigh' := heq.1 hhigh
        have hlow' := hsame (List.cons.inj hlow).1
        omega
      · rintro rfl
        rfl

/-- A first field of the same width decides, and then the rest. -/
theorem field_lt_iff {width : Nat} {n m : Int} {u v : List Char} (hn : 0 ≤ n ∧ n < 10 ^ width)
    (hm : 0 ≤ m ∧ m < 10 ^ width) :
    fixedWidth width n ++ u < fixedWidth width m ++ v ↔ n < m ∨ n = m ∧ u < v := by
  have hlen : (fixedWidth width n).length = (fixedWidth width m).length := by
    rw [length_fixedWidth, length_fixedWidth]
  rw [append_lt_append_iff hlen, (fixedWidth_lt_iff hn hm).1, (fixedWidth_lt_iff hn hm).2]

/-! ## The calendar -/

/-- The day since the first of March of the year 0 on which an instant falls. -/
def marchDay (t : Int) : Int := t / 1000000 / 86400 + 719468

/-- The day of an era of 400 years. -/
def dayOfEra (z : Int) : Int := z - z / 146097 * 146097

/-- The year of an era, which starts in March. -/
def yearOfEra (doe : Int) : Int := (doe - doe / 1460 + doe / 36524 - doe / 146096) / 365

/-- The day of a year that starts in March. -/
def dayOfYear (doe : Int) : Int :=
  doe - (365 * yearOfEra doe + yearOfEra doe / 4 - yearOfEra doe / 100)

/-- The month of such a year, from 0. -/
def marchMonth (doe : Int) : Int := (5 * dayOfYear doe + 2) / 153

/-- The months since March of the year 0. -/
def monthCount (z : Int) : Int :=
  12 * (yearOfEra (dayOfEra z) + z / 146097 * 400) + marchMonth (dayOfEra z)

def dayOfMonth (z : Int) : Int :=
  dayOfYear (dayOfEra z) - (153 * marchMonth (dayOfEra z) + 2) / 5 + 1

/-- Where the day of a year lies, whose last day is the 29th of February in a leap year. -/
theorem dayOfYear_bounds {doe : Int} (hdoe : 0 ≤ doe ∧ doe < 146097) :
    (0 ≤ yearOfEra doe ∧ yearOfEra doe ≤ 399) ∧ (0 ≤ dayOfYear doe ∧ dayOfYear doe ≤ 365) ∧
      (yearOfEra doe < 399 → doe < 365 * (yearOfEra doe + 1) + (yearOfEra doe + 1) / 4 -
        (yearOfEra doe + 1) / 100) := by
  by_cases hlast : doe = 146096
  · subst hlast
    decide
  obtain ⟨yoe, hyoe⟩ : ∃ yoe, yoe = yearOfEra doe := ⟨_, rfl⟩
  rw [dayOfYear, ← hyoe]
  rw [yearOfEra] at hyoe
  have hera : doe / 146096 = 0 := by omega
  have hlow : 365 * yoe ≤ doe - doe / 1460 + doe / 36524 := by omega
  have hhigh : doe - doe / 1460 + doe / 36524 < 365 * yoe + 365 := by omega
  clear hyoe hera
  have hcentury : 0 ≤ doe / 36524 ∧ doe / 36524 ≤ 3 := by omega
  have hyear : 100 * (doe / 36524) ≤ yoe ∧ yoe ≤ 100 * (doe / 36524) + 99 := by omega
  have hleap : yoe / 4 ≤ doe / 1460 ∧ doe / 1460 ≤ (yoe + 1) / 4 := by omega
  -- the last year of a century has no leap day
  by_cases hend : yoe = 100 * (doe / 36524) + 99
  · omega
  · omega

/-- A later day is of a later month, or a later day of the same month. -/
theorem civil_lt {z z' : Int} (hlt : z < z') : monthCount z < monthCount z' ∨
    monthCount z = monthCount z' ∧ dayOfMonth z < dayOfMonth z' := by
  have hdoe : 0 ≤ dayOfEra z ∧ dayOfEra z < 146097 := by
    unfold dayOfEra
    omega
  have hdoe' : 0 ≤ dayOfEra z' ∧ dayOfEra z' < 146097 := by
    unfold dayOfEra
    omega
  have hera : z / 146097 < z' / 146097 ∨ z / 146097 = z' / 146097 ∧ dayOfEra z < dayOfEra z' := by
    unfold dayOfEra
    omega
  unfold monthCount dayOfMonth marchMonth
  obtain ⟨doe, hz⟩ : ∃ doe, doe = dayOfEra z := ⟨_, rfl⟩
  obtain ⟨doe', hz'⟩ : ∃ doe', doe' = dayOfEra z' := ⟨_, rfl⟩
  rw [← hz] at hdoe hera ⊢
  rw [← hz'] at hdoe' hera ⊢
  obtain ⟨hyear, hday, hnext⟩ := dayOfYear_bounds hdoe
  obtain ⟨hyear', hday', hnext'⟩ := dayOfYear_bounds hdoe'
  rcases hera with hera | ⟨hera, hlt'⟩
  · exact .inl (by omega)
  · have hyears : yearOfEra doe ≤ yearOfEra doe' := by
      by_contra hlater
      have hend := hnext' (by omega)
      unfold dayOfYear at hday
      omega
    rcases hyears.lt_or_eq with hyears | hyears
    · exact .inl (by omega)
    · have hdays : dayOfYear doe < dayOfYear doe' := by
        unfold dayOfYear
        omega
      omega

/-! ## The text -/

def civilYear (t : Int) : Int := (monthCount (marchDay t) + 2) / 12

def civilMonth (t : Int) : Int := (monthCount (marchDay t) + 2) % 12 + 1

/-- The fraction and the offset. -/
def fraction (t : Int) : List Char :=
  (if t % 1000000 = 0 then [] else '.' :: fixedWidth 6 (t % 1000000)) ++
    ['+', '0', '0', ':', '0', '0']

/-- The fields of a text, and what separates them. -/
theorem toList_isoformat (t : Time) : (isoformat t).toList =
    fixedWidth 4 (civilYear t) ++ '-' :: (fixedWidth 2 (civilMonth t) ++ '-' ::
      (fixedWidth 2 (dayOfMonth (marchDay t)) ++ 'T' :: (fixedWidth 2 (t / 1000000 / 3600 % 24) ++
        ':' :: (fixedWidth 2 (t / 1000000 / 60 % 60) ++ ':' ::
          (fixedWidth 2 (t / 1000000 % 60) ++ fraction t))))) := by
  have hdoe : 0 ≤ dayOfEra (marchDay t) ∧ dayOfEra (marchDay t) < 146097 := by
    unfold dayOfEra
    omega
  obtain ⟨hyear, hday, -⟩ := dayOfYear_bounds hdoe
  have hmonth : civilMonth t = if marchMonth (dayOfEra (marchDay t)) < 10 then
      marchMonth (dayOfEra (marchDay t)) + 3 else marchMonth (dayOfEra (marchDay t)) - 9 := by
    unfold civilMonth monthCount marchMonth
    split <;> omega
  have hyears : civilYear t = yearOfEra (dayOfEra (marchDay t)) + marchDay t / 146097 * 400 +
      if civilMonth t ≤ 2 then 1 else 0 := by
    rw [hmonth]
    unfold civilYear monthCount marchMonth
    split <;> split <;> omega
  have hiso : isoformat t = String.ofList (fixedWidth 4 (yearOfEra (dayOfEra (marchDay t)) +
      marchDay t / 146097 * 400 + if (if marchMonth (dayOfEra (marchDay t)) < 10 then
        marchMonth (dayOfEra (marchDay t)) + 3 else marchMonth (dayOfEra (marchDay t)) - 9) ≤ 2
      then 1 else 0) ++ ['-'] ++ fixedWidth 2 (if marchMonth (dayOfEra (marchDay t)) < 10 then
        marchMonth (dayOfEra (marchDay t)) + 3 else marchMonth (dayOfEra (marchDay t)) - 9) ++
      ['-'] ++ fixedWidth 2 (dayOfMonth (marchDay t)) ++ ['T'] ++
      (fixedWidth 2 (t / 1000000 / 3600 % 24) ++ [':'] ++ fixedWidth 2 (t / 1000000 / 60 % 60) ++
        [':'] ++ fixedWidth 2 (t / 1000000 % 60)) ++
      (if t % 1000000 = 0 then [] else '.' :: fixedWidth 6 (t % 1000000)) ++
      ['+', '0', '0', ':', '0', '0']) := rfl
  rw [hiso, String.toList_ofList, ← hmonth, ← hyears, fraction]
  simp only [List.append_assoc, List.cons_append, List.nil_append]

/-! ## The order -/

/-- An instant in the years 1 to 9999, the range of a `datetime`. -/
def Representable (t : Int) : Prop := -62135596800000000 ≤ t ∧ t < 253402300800000000

instance {t : Int} : Decidable (Representable t) := inferInstanceAs (Decidable (_ ∧ _))

theorem civilYear_bounds {t : Int} (ht : Representable t) : 0 ≤ civilYear t ∧ civilYear t < 10 ^ 4 := by
  have hfirst : monthCount 306 = 10 := by decide
  have hlast : monthCount 3652364 = 119997 := by decide
  have hday : 306 ≤ marchDay t ∧ marchDay t ≤ 3652364 := by
    unfold Representable at ht
    unfold marchDay
    omega
  have hlow : 10 ≤ monthCount (marchDay t) := by
    rcases hday.1.lt_or_eq with hlt | heq
    · have := civil_lt hlt
      omega
    · rw [← heq, hfirst]
  have hhigh : monthCount (marchDay t) ≤ 119997 := by
    rcases hday.2.lt_or_eq with hlt | heq
    · have := civil_lt hlt
      omega
    · rw [heq, hlast]
  unfold civilYear
  omega

theorem dayOfMonth_bounds (z : Int) : 0 ≤ dayOfMonth z ∧ dayOfMonth z < 10 ^ 2 := by
  have hdoe : 0 ≤ dayOfEra z ∧ dayOfEra z < 146097 := by
    unfold dayOfEra
    omega
  obtain ⟨-, hday, -⟩ := dayOfYear_bounds hdoe
  unfold dayOfMonth marchMonth
  omega

/-- A fraction that is written comes after one that is dropped. -/
theorem fraction_lt {t t' : Int} (hlt : t % 1000000 < t' % 1000000) : fraction t < fraction t' := by
  unfold fraction
  rw [if_neg (by omega : ¬ t' % 1000000 = 0)]
  split
  · exact List.cons_lt_cons_iff.2 (.inl (by decide))
  · rw [List.cons_append, List.cons_append, cons_lt_cons_same,
      field_lt_iff (by omega) (by omega)]
    exact .inl hlt

/-- A later instant has a later text. -/
theorem isoformat_lt {t t' : Int} (ht : Representable t) (ht' : Representable t') (hlt : t < t') :
    isoformat t < isoformat t' := by
  have hdate : marchDay t < marchDay t' ∨ marchDay t = marchDay t' ∧
      t / 1000000 % 86400 * 1000000 + t % 1000000 <
        t' / 1000000 % 86400 * 1000000 + t' % 1000000 := by
    unfold marchDay
    omega
  rw [String.lt_iff_toList_lt, toList_isoformat, toList_isoformat,
    field_lt_iff (civilYear_bounds ht) (civilYear_bounds ht'), cons_lt_cons_same,
    field_lt_iff (by unfold civilMonth; omega) (by unfold civilMonth; omega), cons_lt_cons_same,
    field_lt_iff (dayOfMonth_bounds _) (dayOfMonth_bounds _), cons_lt_cons_same,
    field_lt_iff (by omega) (by omega), cons_lt_cons_same,
    field_lt_iff (by omega) (by omega), cons_lt_cons_same, field_lt_iff (by omega) (by omega)]
  unfold civilYear civilMonth
  rcases hdate with hday | ⟨hday, htime⟩
  · rcases civil_lt hday with hmonth | hmonth
    · omega
    · omega
  · rw [hday]
    refine .inr ⟨rfl, .inr ⟨rfl, .inr ⟨rfl, ?_⟩⟩⟩
    by_cases hsecond : t / 1000000 % 86400 = t' / 1000000 % 86400
    · have hfraction : fraction t < fraction t' := fraction_lt (by omega)
      exact .inr ⟨by omega, .inr ⟨by omega, .inr ⟨by omega, hfraction⟩⟩⟩
    · omega

/-- The order of the texts is that of the instants. -/
theorem isoformat_lt_iff {t t' : Int} (ht : Representable t) (ht' : Representable t') :
    isoformat t < isoformat t' ↔ t < t' := by
  constructor
  · intro h
    by_contra hle
    rcases (not_lt.1 hle).lt_or_eq with hlt | heq
    · exact lt_asymm h (isoformat_lt ht' ht hlt)
    · rw [heq] at h
      exact lt_irrefl _ h
  · exact isoformat_lt ht ht'

/-- Different instants have different texts. -/
theorem isoformat_inj {t t' : Int} (ht : Representable t) (ht' : Representable t') :
    isoformat t = isoformat t' ↔ t = t' := by
  refine ⟨fun h => ?_, congrArg isoformat⟩
  have hlow := (isoformat_lt_iff ht ht').not.1 h.not_lt
  have hhigh := (isoformat_lt_iff ht' ht).not.1 h.symm.not_lt
  omega

theorem isoformat_le_iff {t t' : Int} (ht : Representable t) (ht' : Representable t') :
    isoformat t ≤ isoformat t' ↔ t ≤ t' := by
  rw [← not_lt, ← not_lt, isoformat_lt_iff ht' ht]

/-! ## Aware datetimes -/

/-- A timezone-aware `datetime`: what its clock shows, and its offset to UTC, in microseconds. -/
structure AwareDatetime where
  wall : Int
  utcoffset : Int
deriving DecidableEq

def AwareDatetime.instant (d : AwareDatetime) : Time := d.wall - d.utcoffset

/-- `OverflowError` of `astimezone`. -/
inductive OverflowError
  | outOfRange
deriving DecidableEq

/-- `_iso`: the text in UTC of an instant that UTC can represent. -/
def AwareDatetime.iso (d : AwareDatetime) : Except OverflowError String :=
  if Representable d.instant then .ok (isoformat d.instant) else .error .outOfRange

theorem AwareDatetime.iso_ok {d : AwareDatetime} {text : String} (h : d.iso = .ok text) :
    Representable d.instant ∧ isoformat d.instant = text := by
  unfold iso at h
  split at h
  · next hd => exact ⟨hd, Except.ok.inj h⟩
  · cases h

end CryptoBot
