import Interlock.Proofs.Text.Blank
import Interlock.Text.Integer

/-!
# Numerals

The grammar of the integers that are read: an optional sign and one or more ASCII digits
(`Numeral`).  What is read of a type are exactly the numerals whose value is in its range
(`readInteger_eq_some_iff`), and the printed form of a number in the range is a numeral
(`numeral_toString`).
-/

namespace Interlock.Text

/-! ## Digits -/

/-- One or more ASCII digits. -/
def IsDigits (s : List Char) : Prop := s ≠ [] ∧ ∀ c ∈ s, c.isDigit = true

theorem digitValue?_eq_some_iff {c : Char} {d : Nat} :
    digitValue? c = some d ↔ c.isDigit = true ∧ c.toNat - '0'.toNat = d := by
  unfold digitValue?
  split <;> simp_all

/-- Digits read on from a value do not make it smaller. -/
theorem le_ofDigitChars (value : Nat) (s : List Char) : value ≤ Nat.ofDigitChars 10 s value := by
  rw [Nat.ofDigitChars_eq_ofDigitChars_zero]
  calc value ≤ 10 ^ s.length * value := Nat.le_mul_of_pos_left value (Nat.pow_pos (by decide))
    _ ≤ 10 ^ s.length * value + Nat.ofDigitChars 10 s 0 := Nat.le_add_right ..

theorem readDigits_eq_some_iff {limit value n : Nat} {s : List Char} (within : value ≤ limit) :
    readDigits limit value s = some n ↔
      (∀ c ∈ s, c.isDigit = true) ∧ Nat.ofDigitChars 10 s value = n ∧ n ≤ limit := by
  induction s generalizing value with
  | nil =>
    simp only [readDigits, Option.some.injEq, List.not_mem_nil, false_implies, implies_true,
      Nat.ofDigitChars_nil, true_and]
    exact ⟨fun e => ⟨e, e ▸ within⟩, And.left⟩
  | cons c s ih =>
    unfold readDigits
    rw [List.forall_mem_cons, Nat.ofDigitChars_cons]
    cases hc : digitValue? c with
    | none =>
      have other : c.isDigit = false := by
        rw [Bool.eq_false_iff]
        intro digit
        rw [digitValue?_eq_some_iff.2 ⟨digit, rfl⟩] at hc
        cases hc
      simp [other]
    | some d =>
      obtain ⟨digit, rfl⟩ := digitValue?_eq_some_iff.1 hc
      dsimp only
      rw [Nat.mul_comm 10 value]
      split
      · next fits => rw [ih fits, digit, eq_self, true_and]
      · next past =>
        -- what is past the limit stays past it
        have grows := le_ofDigitChars (value * 10 + (c.toNat - '0'.toNat)) s
        refine iff_of_false (by simp) ?_
        rintro ⟨-, rfl, low⟩
        exact past (grows.trans low)

theorem readNat_eq_some_iff {limit n : Nat} {s : List Char} :
    readNat limit s = some n ↔ IsDigits s ∧ Nat.ofDigitChars 10 s 0 = n ∧ n ≤ limit := by
  cases s with
  | nil => simp [readNat, IsDigits]
  | cons c s =>
    show readDigits limit 0 (c :: s) = some n ↔ _
    rw [readDigits_eq_some_iff (Nat.zero_le _), IsDigits]
    simp

/-! ## Integers -/

/-- The texts that stand for a number, in a type of integers: digits, or a sign and digits, where
the minus sign is for types with negative values. -/
inductive Numeral (t : IntegerType) : List Char → Int → Prop
  | bare {digits : List Char} (h : IsDigits digits) :
    Numeral t digits (Nat.ofDigitChars 10 digits 0)
  | plus {digits : List Char} (h : IsDigits digits) :
    Numeral t ('+' :: digits) (Nat.ofDigitChars 10 digits 0)
  | minus {digits : List Char} (signed : t.signed = true) (h : IsDigits digits) :
    Numeral t ('-' :: digits) (-(Nat.ofDigitChars 10 digits 0 : Int))

theorem isBlank_of_isDigit {c : Char} (h : c.isDigit = true) : isBlank c = false := by
  have range := Char.isDigit_iff_toNat.1 h
  have zero : '0'.toNat = 48 := rfl
  have nine : '9'.toNat = 57 := rfl
  simp only [isBlank, blankRanges, List.any_cons, List.any_nil, Bool.or_false, Bool.or_eq_false_iff,
    Bool.and_eq_false_iff, decide_eq_false_iff_not]
  omega

variable {t : IntegerType}

/-- There is no white space in a numeral. -/
theorem Numeral.isBlank_eq_false {s : List Char} {n : Int} (h : Numeral t s n) :
    ∀ c ∈ s, isBlank c = false := by
  have plain {digits : List Char} (h : IsDigits digits) : ∀ c ∈ digits, isBlank c = false :=
    fun c hc => isBlank_of_isDigit (h.2 c hc)
  cases h with
  | bare h => exact plain h
  | plus h => exact List.forall_mem_cons.2 ⟨by decide, plain h⟩
  | minus signed h => exact List.forall_mem_cons.2 ⟨by decide, plain h⟩

/-- A numeral in white space is what trimming leaves. -/
theorem Numeral.trimmed {before s after : List Char} {n : Int} (h : Numeral t s n)
    (blank : IsBlank before) (blank' : IsBlank after) : Trimmed (before ++ s ++ after) s where
  around := ⟨before, after, rfl, blank, blank'⟩
  first c hc := h.isBlank_eq_false c (List.mem_of_head? hc)
  last c hc := h.isBlank_eq_false c (List.mem_of_getLast? hc)

theorem IntegerType.holds_natCast {n : Nat} : t.Holds n ↔ n ≤ t.maxValue := by
  unfold IntegerType.Holds
  omega

theorem IntegerType.holds_neg_natCast {n : Nat} : t.Holds (-(n : Int)) ↔ n ≤ t.maxBelow := by
  unfold IntegerType.Holds
  omega

theorem not_isDigits_cons {c : Char} {s : List Char} (h : c.isDigit = false) :
    ¬ IsDigits (c :: s) := by
  rintro ⟨-, digits⟩
  simp [digits c (List.mem_cons_self ..)] at h

/-- Digits without a minus sign are read if their value is not too large. -/
theorem map_readNat_eq_some_iff {s : List Char} {n : Int} :
    (readNat t.maxValue s).map Int.ofNat = some n ↔
      IsDigits s ∧ (Nat.ofDigitChars 10 s 0 : Int) = n ∧ t.Holds n := by
  simp only [Option.map_eq_some_iff, readNat_eq_some_iff]
  constructor
  · rintro ⟨m, ⟨digits, rfl, low⟩, rfl⟩
    exact ⟨digits, rfl, IntegerType.holds_natCast.2 low⟩
  · rintro ⟨digits, rfl, holds⟩
    exact ⟨_, ⟨digits, rfl, IntegerType.holds_natCast.1 holds⟩, rfl⟩

/-- **What is read as an integer**: the numerals whose value is in the range of the type. -/
theorem readInteger_eq_some_iff {s : List Char} {n : Int} :
    readInteger t s = some n ↔ Numeral t s n ∧ t.Holds n := by
  unfold readInteger
  split
  · next digits =>
    rw [map_readNat_eq_some_iff]
    constructor
    · rintro ⟨h, rfl, holds⟩
      exact ⟨.plus h, holds⟩
    · rintro ⟨numeral, holds⟩
      cases numeral with
      | bare h => exact absurd h (not_isDigits_cons rfl)
      | plus h => exact ⟨h, rfl, holds⟩
  · next digits =>
    split
    · next signed =>
      simp only [Option.map_eq_some_iff, readNat_eq_some_iff]
      constructor
      · rintro ⟨m, ⟨h, rfl, low⟩, rfl⟩
        exact ⟨.minus signed h, IntegerType.holds_neg_natCast.2 low⟩
      · rintro ⟨numeral, holds⟩
        cases numeral with
        | bare h => exact absurd h (not_isDigits_cons rfl)
        | minus _ h => exact ⟨_, ⟨h, rfl, IntegerType.holds_neg_natCast.1 holds⟩, rfl⟩
    · next unsigned =>
      refine iff_of_false (by simp) ?_
      rintro ⟨numeral, -⟩
      cases numeral with
      | bare h => exact absurd h (not_isDigits_cons rfl)
      | minus signed h => exact unsigned signed
  · next noPlus noMinus =>
    rw [map_readNat_eq_some_iff]
    constructor
    · rintro ⟨h, rfl, holds⟩
      exact ⟨.bare h, holds⟩
    · rintro ⟨numeral, holds⟩
      cases numeral with
      | bare h => exact ⟨h, rfl, holds⟩
      | plus h => exact absurd rfl (noPlus _)
      | minus signed h => exact absurd rfl (noMinus _)

/-! ## Printing -/

theorem isDigits_toDigits (n : Nat) : IsDigits (Nat.toDigits 10 n) :=
  ⟨Nat.toDigits_ne_nil, fun _ hc => Nat.isDigit_of_mem_toDigits (by decide) (by decide) hc⟩

/-- The printed form of a number is a numeral. -/
theorem numeral_toString {n : Int} (holds : t.Holds n) : Numeral t (toString n).toList n := by
  rw [Int.toString_eq_repr, Int.repr_eq_if]
  split
  · next nonneg =>
    have value : (Nat.ofDigitChars 10 (Nat.toDigits 10 n.toNat) 0 : Int) = n := by
      rw [Nat.ofDigitChars_ten_toDigits, Int.toNat_of_nonneg nonneg]
    have numeral : Numeral t _ _ := .bare (isDigits_toDigits n.toNat)
    rwa [value, ← Nat.toList_repr] at numeral
  · next negative =>
    have signed : t.signed = true := by
      by_contra unsigned
      have low := holds.1
      rw [IntegerType.maxBelow, if_neg unsigned] at low
      omega
    have value : -(Nat.ofDigitChars 10 (Nat.toDigits 10 (-n).toNat) 0 : Int) = n := by
      rw [Nat.ofDigitChars_ten_toDigits]
      omega
    have numeral : Numeral t _ _ := .minus signed (isDigits_toDigits (-n).toNat)
    rw [value, ← Nat.toList_repr] at numeral
    rwa [String.toList_append]

end Interlock.Text
