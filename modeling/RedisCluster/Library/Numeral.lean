import Mathlib.Algebra.Order.Group.Nat
import Mathlib.Data.List.Induction

/-!
# Digits read in two bases

`value b ds` is the number that the digits `ds` stand for in base `b`, leading
zeros or not; in Lean's core it is `Nat.ofDigitChars`.

* `value_lt`: so many decimal digits stand for a number below that power of ten.
* `value_octal_le`, `value_octal_eq_iff`: digits read as octal stand for no more
  than the same digits read as decimal, and for the same only if the number has
  one digit.
* `digit_le_value`: a digit is at most the number it stands in.
* `quad_injective`: four numbers below 256 and the 32-bit number they make up.
-/

namespace Numeral

/-- The number that digits stand for in base `b`. -/
def value (b : ℕ) (ds : List Char) : ℕ := Nat.ofDigitChars b ds 0

/-- The number that a digit stands for. -/
def digit (c : Char) : ℕ := c.toNat - '0'.toNat

theorem ne_of_isDigit {c d : Char} (h : c.isDigit = true) (hd : d.isDigit = false) : c ≠ d := by
  rintro rfl
  rw [h] at hd
  cases hd

theorem digit_lt_ten {c : Char} (h : c.isDigit = true) : digit c < 10 := by
  have h9 : c.toNat ≤ '9'.toNat := by
    simp only [Char.isDigit, Bool.and_eq_true, decide_eq_true_eq] at h
    exact h.2
  unfold digit
  have : '9'.toNat = 57 := rfl
  have : '0'.toNat = 48 := rfl
  omega

theorem le_seven_iff {c : Char} (h : c.isDigit = true) : c ≤ '7' ↔ digit c ≤ 7 := by
  have h0 : '0'.toNat ≤ c.toNat := by
    simp only [Char.isDigit, Bool.and_eq_true, decide_eq_true_eq] at h
    exact h.1
  have hle : c ≤ '7' ↔ c.toNat ≤ '7'.toNat := Iff.rfl
  rw [hle]
  unfold digit
  have : '7'.toNat = 55 := rfl
  have : '0'.toNat = 48 := rfl
  omega

@[simp] theorem value_nil (b : ℕ) : value b [] = 0 := rfl

theorem value_concat (b : ℕ) (ds : List Char) (c : Char) :
    value b (ds ++ [c]) = b * value b ds + digit c := by
  unfold value digit
  rw [Nat.ofDigitChars_append, Nat.ofDigitChars_cons, Nat.ofDigitChars_nil]

theorem value_toDigits (n : ℕ) : value 10 (Nat.toDigits 10 n) = n := Nat.ofDigitChars_ten_toDigits

theorem value_lt {ds : List Char} (h : ∀ c ∈ ds, c.isDigit = true) :
    value 10 ds < 10 ^ ds.length := by
  induction ds using List.reverseRecOn with
  | nil => simp
  | append_singleton ds c ih =>
    have hds := ih fun d hd => h d (by simp [hd])
    have hc := digit_lt_ten (h c (by simp))
    rw [value_concat, List.length_append, List.length_singleton, pow_succ]
    omega

theorem value_octal_le (ds : List Char) : value 8 ds ≤ value 10 ds := by
  induction ds using List.reverseRecOn with
  | nil => simp
  | append_singleton ds c ih =>
    rw [value_concat, value_concat]
    omega

/-- Read as octal, digits stand for a smaller number, unless all but the last are zeros. -/
theorem value_octal_eq_iff {ds : List Char} (h : ∀ c ∈ ds, c.isDigit = true) :
    value 8 ds = value 10 ds ↔ value 10 ds ≤ 9 := by
  induction ds using List.reverseRecOn with
  | nil => simp
  | append_singleton ds c ih =>
    have hle := value_octal_le ds
    have hc := digit_lt_ten (h c (by simp))
    rw [value_concat, value_concat]
    omega

theorem digit_le_value {ds : List Char} {c : Char} (h : c ∈ ds) : digit c ≤ value 10 ds := by
  induction ds using List.reverseRecOn with
  | nil => cases h
  | append_singleton ds d ih =>
    rw [value_concat]
    rcases List.mem_append.mp h with h | h
    · have := ih h
      omega
    · rw [List.mem_singleton.mp h]
      omega

/-- Decimal digits that are octal digits too stand for the same number in both bases only if
    the number is one octal digit. -/
theorem value_le_seven_iff {ds : List Char} (h : ∀ c ∈ ds, c.isDigit = true) :
    value 10 ds ≤ 7 ↔ (∀ c ∈ ds, c ≤ '7') ∧ value 8 ds = value 10 ds := by
  constructor
  · intro hle
    refine ⟨fun c hc => ?_, (value_octal_eq_iff h).mpr (by omega)⟩
    rw [le_seven_iff (h c hc)]
    exact le_trans (digit_le_value hc) hle
  · rintro ⟨hoctal, heq⟩
    have hnine := (value_octal_eq_iff h).mp heq
    rcases List.eq_nil_or_concat ds with rfl | ⟨ds, c, rfl⟩
    · simp
    · have hc := (le_seven_iff (h c (by simp))).mp (hoctal c (by simp))
      rw [List.concat_eq_append, value_concat] at hnine ⊢
      omega

/-- Four numbers below 256 are determined by the number they make up. -/
theorem quad_injective {a b c d a' b' c' d' : ℕ} (ha : a < 256) (hb : b < 256) (hc : c < 256)
    (ha' : a' < 256) (hb' : b' < 256) (hc' : c' < 256)
    (h : a + b * 2 ^ 8 + c * 2 ^ 16 + d * 2 ^ 24 = a' + b' * 2 ^ 8 + c' * 2 ^ 16 + d' * 2 ^ 24) :
    a = a' ∧ b = b' ∧ c = c' ∧ d = d' := by
  omega

end Numeral
