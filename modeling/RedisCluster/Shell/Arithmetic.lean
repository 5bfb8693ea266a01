import RedisCluster.Library.Numeral
import RedisCluster.Shell.Machine

/-!
# Shell arithmetic on digits

`arith` reads a numeral that begins with a zero as octal and any other as
decimal, and computes with 64-bit integers.

* `isDecimal_or_isOctal`: which reading a string of digits gets;
  `arith_of_isDecimal`, `arith_of_isOctal`, `arith_of_le_seven`.
* `decimal`: the printed number; `arith_decimal`: it is read as itself.
* `toInt_shifted_sum`, `toInt_byte`, `toInt_shifted`: the shifts and masks.
-/

namespace RedisCluster

open Numeral

/-- What `$((...))` makes of a variable: a 64-bit integer, unless it is an error. -/
def Arith.word : Arith → Option (BitVec 64)
  | .value n => some (BitVec.ofInt 64 n)
  | .malformed => none
  | .unbound => none

/-- An integer as `echo "$((...))"` prints it. -/
def decimal : ℤ → Text
  | .ofNat n => Nat.toDigits 10 n
  | .negSucc n => '-' :: Nat.toDigits 10 (n + 1)

/-! ## Readings -/

/-- Digits that do not begin with a zero are decimal, the others octal. -/
theorem isDecimal_or_isOctal {ds : Text} (hne : ds ≠ []) (h : ∀ c ∈ ds, c.isDigit = true) :
    (isDecimal ds = true ∧ (ds.head? = some '0' → ds = ['0'])) ∨
      (isDecimal ds = false ∧ isOctal ds = true ∧ ds.head? = some '0') := by
  have hall : ds.all Char.isDigit = true := List.all_eq_true.mpr h
  match ds, hne with
  | [c], _ =>
    left
    by_cases hc : c = '0'
    · subst hc
      exact ⟨rfl, fun _ => rfl⟩
    · refine ⟨?_, fun h => absurd (by simpa using h) hc⟩
      simp only [List.all_cons, List.all_nil, Bool.and_true] at hall
      simp [isDecimal, hc, hall]
  | c :: d :: ds, _ =>
    by_cases hc : c = '0'
    · subst hc
      right
      rw [List.all_cons, Bool.and_eq_true] at hall
      exact ⟨by simp [isDecimal], hall.2, rfl⟩
    · left
      refine ⟨?_, fun h => absurd (by simpa using h) hc⟩
      rw [isDecimal, hall]
      · simp [hc]
      · simp

theorem bmod_of_lt {n : ℕ} (h : n < 2 ^ 63) : Int.bmod n (Nat.pow 2 64) = n := by
  have hpow : Nat.pow 2 64 = 18446744073709551616 := rfl
  rw [hpow]
  exact Int.bmod_eq_of_le (by omega) (by omega)

theorem arith_of_isDecimal (m : Machine) {ds : Text} (h : isDecimal ds = true)
    (hlt : value 10 ds < 2 ^ 63) : arith m ds = .value (value 10 ds) := by
  have hne : ds ≠ [] := by
    rintro rfl
    simp [isDecimal] at h
  unfold arith
  rw [if_neg hne, if_pos h]
  exact congrArg Arith.value (bmod_of_lt hlt)

theorem arith_of_isOctal (m : Machine) {ds : Text} (h : isDecimal ds = false)
    (hoctal : isOctal ds = true) (hlt : value 8 ds < 2 ^ 63) :
    arith m ds = if ds.all (· ≤ '7') then .value (value 8 ds) else .malformed := by
  have hne : ds ≠ [] := by
    rintro rfl
    simp [isOctal] at hoctal
  unfold arith
  rw [if_neg hne, if_neg (by simp [h]), if_pos hoctal]
  split_ifs
  · exact congrArg Arith.value (bmod_of_lt hlt)
  · rfl

/-- A number of one octal digit is the same in both readings. -/
theorem arith_of_le_seven (m : Machine) {ds : Text} (hne : ds ≠ [])
    (h : ∀ c ∈ ds, c.isDigit = true) (hle : value 10 ds ≤ 7) :
    arith m ds = .value (value 10 ds) := by
  rcases isDecimal_or_isOctal hne h with ⟨hdecimal, -⟩ | ⟨hdecimal, hoctal, -⟩
  · exact arith_of_isDecimal m hdecimal (by omega)
  · obtain ⟨hseven, heq⟩ := (value_le_seven_iff h).mp hle
    have hall : ds.all (· ≤ '7') = true := by simpa using hseven
    rw [arith_of_isOctal m hdecimal hoctal (by omega), if_pos hall, heq]

/-! ## Printed numbers -/

theorem decimal_natCast (n : ℕ) : decimal (n : ℤ) = Nat.toDigits 10 n := rfl

theorem decimal_natCast_injective {n k : ℕ} (h : decimal (n : ℤ) = decimal (k : ℤ)) : n = k := by
  rw [decimal_natCast, decimal_natCast] at h
  rw [← value_toDigits n, h, value_toDigits]

theorem isDecimal_concat {ds : Text} {c : Char} (h : isDecimal ds = true) (h0 : ds ≠ ['0'])
    (hc : c.isDigit = true) : isDecimal (ds ++ [c]) = true := by
  unfold isDecimal at h
  split at h
  · simp at h
  · exact absurd rfl h0
  · next a as _ =>
    obtain ⟨ha, hall⟩ : a ≠ '0' ∧ (a :: as).all Char.isDigit = true := by simpa using h
    have hne : a :: as ++ [c] ≠ ['0'] := by simp
    unfold isDecimal
    split
    · next heq => simp at heq
    · next heq => exact absurd heq hne
    · next b bs _ heq =>
      rw [← heq, List.all_append, hall]
      have hb : b = a := by
        injection heq.symm
      simp [hb, ha, hc]

/-- A printed number has no leading zero. -/
theorem isDecimal_toDigits (n : ℕ) : isDecimal (Nat.toDigits 10 n) = true := by
  induction n using Nat.strong_induction_on with
  | _ n ih =>
    have hdigit : ∀ k < 10, isDecimal [k.digitChar] = true := by decide
    by_cases hn : n < 10
    · rw [Nat.toDigits_of_lt_base hn]
      exact hdigit n hn
    · rw [Nat.toDigits_of_base_le (by omega) (by omega)]
      have hne : Nat.toDigits 10 (n / 10) ≠ ['0'] := by
        intro hzero
        have hvalue := congrArg (value 10) hzero
        rw [value_toDigits] at hvalue
        have : value 10 ['0'] = 0 := by decide
        omega
      refine isDecimal_concat (ih _ (by omega)) hne ?_
      rw [Nat.isDigit_digitChar]
      exact decide_eq_true (by omega)

theorem arith_decimal (m : Machine) {n : ℕ} (h : n < 2 ^ 63) : arith m (decimal n) = .value n := by
  rw [decimal_natCast, arith_of_isDecimal m (isDecimal_toDigits n) (by rwa [value_toDigits]),
    value_toDigits]

/-! ## Words of 64 bits -/

theorem Arith.word_natCast (n : ℕ) : (Arith.value n).word = some (BitVec.ofNat 64 n) := rfl

theorem toInt_ofNat_of_lt {n : ℕ} (h : n < 2 ^ 63) : (BitVec.ofNat 64 n).toInt = n := by
  rw [BitVec.toInt_eq_toNat_of_lt] <;> rw [BitVec.toNat_ofNat, Nat.mod_eq_of_lt (by omega)]
  omega

/-- `d<<24 + c<<16 + b<<8 + a` on bytes. -/
theorem toInt_shifted_sum {a b c d : ℕ} (ha : a < 256) (hb : b < 256) (hc : c < 256)
    (hd : d < 256) :
    ((BitVec.ofNat 64 d <<< 24) + (BitVec.ofNat 64 c <<< 16) + (BitVec.ofNat 64 b <<< 8) +
      BitVec.ofNat 64 a).toInt = (a + b * 2 ^ 8 + c * 2 ^ 16 + d * 2 ^ 24 : ℕ) := by
  have hword : (BitVec.ofNat 64 d <<< 24) + (BitVec.ofNat 64 c <<< 16) +
      (BitVec.ofNat 64 b <<< 8) + BitVec.ofNat 64 a =
      BitVec.ofNat 64 (a + b * 2 ^ 8 + c * 2 ^ 16 + d * 2 ^ 24) := by
    apply BitVec.eq_of_toNat_eq
    simp only [BitVec.toNat_add, BitVec.toNat_shiftLeft, BitVec.toNat_ofNat, Nat.shiftLeft_eq]
    omega
  rw [hword, toInt_ofNat_of_lt (by omega)]

/-- `n>>k&0xff` -/
theorem toInt_byte {n k : ℕ} (h : n < 2 ^ 63) :
    ((BitVec.ofNat 64 n).sshiftRight k &&& 0xff).toInt = (n / 2 ^ k % 256 : ℕ) := by
  have hmsb : (BitVec.ofNat 64 n).msb = false := by
    rw [BitVec.msb_eq_false_iff_two_mul_lt, BitVec.toNat_ofNat, Nat.mod_eq_of_lt (by omega)]
    omega
  have hbyte : ((BitVec.ofNat 64 n).sshiftRight k &&& 0xff).toNat = n / 2 ^ k % 256 := by
    rw [BitVec.toNat_and, BitVec.toNat_sshiftRight_of_msb_false hmsb, BitVec.toNat_ofNat,
      Nat.mod_eq_of_lt (by omega), Nat.shiftRight_eq_div_pow]
    exact Nat.and_two_pow_sub_one_eq_mod _ 8
  rw [BitVec.toInt_eq_toNat_of_lt, hbyte]
  rw [hbyte]
  omega

theorem toInt_shifted {n k : ℕ} (h : n < 2 ^ 63) :
    ((BitVec.ofNat 64 n).sshiftRight k).toInt = (n / 2 ^ k : ℕ) := by
  rw [BitVec.toInt_sshiftRight, toInt_ofNat_of_lt h, Int.shiftRight_eq_div_pow]
  push_cast
  rfl

end RedisCluster
