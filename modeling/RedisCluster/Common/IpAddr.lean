import Mathlib
import RedisCluster.Common.Functions
import RedisCluster.Shell.Arithmetic

/-!
# Addresses and numbers

Models of the address functions of `common.sh`: `ipaddr2number` (lines
300–307), `number2ipaddr` (lines 310–317) and `validate_ipv4` (lines 330–355).

* `awkDot`, `testWord`: the field that `awk -F .` prints, and `[ $n -gt 255 ]`,
  which reads decimal integers; `$((...))` reads them with `arith`.
* `Octet`, `Address`: four groups of up to three digits, none above 255.
* `number2ipaddr_decimal`: the bytes of a number, from the lowest.
* `validateIpv4_iff`: of the strings that `echo` shows as they are, the addresses
  are accepted; `validateIpv4_agree_iff`: when the validator and the converters
  agree on a string, and `validateIpv4_octal` that on some they do not.
* `ipaddr2number_number2ipaddr`: every 32-bit number has an address of its own.
-/

namespace RedisCluster

open Numeral

/-! ## The functions -/

/-- `echo $ipaddr`, which is not quoted. -/
def echoArgument (m : Machine) (fs : FS) (cwd : Path) (ipaddr : Text) : Text :=
  echo m (unquoted m fs cwd ipaddr)

/-- `awk -F . '{print $n}'` of what `echo` shows, in backquotes. -/
def awkDot (n : ℕ) (shown : Text) : Text :=
  commandSubst <| (records shown).flatMap fun r => (r.splitOn '.').getD (n - 1) [] ++ ['\n']

/-- `"$d.$c.$b.$a"` -/
def dotted (ts : List Text) : Text := ['.'].intercalate ts

/-- `ipaddr2number` (lines 300–307): what it prints, if the arithmetic is no error. -/
def ipaddr2number (m : Machine) (fs : FS) (cwd : Path) (ipaddr : Text) : Option Text := do
  let a ← (arith m (awkDot 1 (echoArgument m fs cwd ipaddr))).word
  let b ← (arith m (awkDot 2 (echoArgument m fs cwd ipaddr))).word
  let c ← (arith m (awkDot 3 (echoArgument m fs cwd ipaddr))).word
  let d ← (arith m (awkDot 4 (echoArgument m fs cwd ipaddr))).word
  return decimal ((d <<< 24) + (c <<< 16) + (b <<< 8) + a).toInt

/-- `number2ipaddr` (lines 310–317): what it prints; the top byte is not masked. -/
def number2ipaddr (m : Machine) (num : Text) : Option Text := do
  let num ← (arith m num).word
  let a := num.sshiftRight 24
  let b := num.sshiftRight 16 &&& 0xff
  let c := num.sshiftRight 8 &&& 0xff
  let d := num &&& 0xff
  return dotted [decimal d.toInt, decimal c.toInt, decimal b.toInt, decimal a.toInt]

/-- `[0-9]\{1,3\}` -/
def isGroup (g : Text) : Bool := 1 ≤ g.length && g.length ≤ 3 && g.all Char.isDigit

/-- A line that `grep` finds: `^[0-9]\{1,3\}\.\([0-9]\{1,3\}\.\)\{2\}[0-9]\{1,3\}$` -/
def isIpv4Line (r : Text) : Bool := (r.splitOn '.').length == 4 && (r.splitOn '.').all isGroup

/-- The blanks that `strtoimax` skips at the front. -/
def isSpace (c : Char) : Bool :=
  isBlank c || c == '\r' || c == Char.ofNat 11 || c == Char.ofNat 12

/-- An operand of `-gt` in `[ ... ]`: a decimal integer of 64 bits, whatever it begins with. -/
def testInt (t : Text) : Option ℤ :=
  let t := t.dropWhile isSpace
  let ds := if t.head? = some '-' ∨ t.head? = some '+' then t.drop 1 else t
  let n : ℤ := value 10 (ds.takeWhile Char.isDigit)
  let n := if t.head? = some '-' then -n else n
  let rest := (ds.dropWhile Char.isDigit).dropWhile fun c => c == ' ' || c == '\t'
  if ds.takeWhile Char.isDigit ≠ [] ∧ rest = [] ∧ -2 ^ 63 ≤ n ∧ n < 2 ^ 63 then some n else none

/-- `[ $n op ]`, where `rel` is what `op` says of an integer; the test of a word that is none
    fails, and `$n` is not quoted. -/
def testWord (m : Machine) (fs : FS) (cwd : Path) (n : Text) (op : List Text) (rel : ℤ → Bool) :
    Bool :=
  match unquoted m fs cwd n with
  | [w] => (testInt w).any rel
  | ws => m.testOther (ws ++ op)

/-- `[ $n -gt 255 ] || [ $n -lt 0 ]` -/
def isBadOctet (m : Machine) (fs : FS) (cwd : Path) (n : Text) : Bool :=
  testWord m fs cwd n ["-gt".toList, "255".toList] (255 < ·) ||
    testWord m fs cwd n ["-lt".toList, "0".toList] (· < 0)

/-- `$a $b $c $d` -/
def octetWords (m : Machine) (fs : FS) (cwd : Path) (shown : Text) : List Text :=
  [1, 2, 3, 4].flatMap fun n => unquoted m fs cwd (awkDot n shown)

/-- `validate_ipv4` (lines 330–355): whether it returns 0. -/
def validateIpv4 (m : Machine) (fs : FS) (cwd : Path) (ipaddr : Text) : Bool :=
  (records (echoArgument m fs cwd ipaddr)).any isIpv4Line &&
    !(octetWords m fs cwd (echoArgument m fs cwd ipaddr)).any (isBadOctet m fs cwd)

/-! ## Addresses -/

/-- One to three digits of value at most 255. -/
@[ext] structure Octet where
  digits : Text
  isGroup_digits : isGroup digits = true
  value_le : value 10 digits ≤ 255

/-- Four octets. -/
@[ext] structure Address where
  o1 : Octet
  o2 : Octet
  o3 : Octet
  o4 : Octet

namespace Octet

/-- The decimal value. -/
def toNat (o : Octet) : ℕ := value 10 o.digits

/-- To read the digits as octal, if they begin with a zero, makes no difference. -/
def Unambiguous (o : Octet) : Prop := o.digits.head? = some '0' → o.toNat ≤ 7

end Octet

namespace Address

def octets (a : Address) : List Octet := [a.o1, a.o2, a.o3, a.o4]

/-- The octets as they are spelled, with dots in between. -/
def text (a : Address) : Text := dotted (a.octets.map Octet.digits)

/-- The address without leading zeros. -/
def plain (a : Address) : Text := dotted (a.octets.map fun o => decimal o.toNat)

/-- The first octet counts ones. -/
def toNat (a : Address) : ℕ :=
  a.o1.toNat + a.o2.toNat * 2 ^ 8 + a.o3.toNat * 2 ^ 16 + a.o4.toNat * 2 ^ 24

end Address

/-! ## Bytes -/

/-- The dotted quad of a number's bytes, from the lowest. -/
theorem number2ipaddr_decimal (m : Machine) {n : ℕ} (h : n < 2 ^ 63) :
    number2ipaddr m (decimal n) = some (dotted [decimal (n % 256 : ℕ),
      decimal (n / 2 ^ 8 % 256 : ℕ), decimal (n / 2 ^ 16 % 256 : ℕ), decimal (n / 2 ^ 24 : ℕ)]) := by
  have hlow : (BitVec.ofNat 64 n &&& 0xff).toInt = (n % 256 : ℕ) := by
    simpa using toInt_byte (k := 0) h
  unfold number2ipaddr
  rw [arith_decimal m h, Arith.word_natCast, Option.bind_eq_bind, Option.bind_some]
  dsimp only
  rw [toInt_shifted h, toInt_byte h, toInt_byte h, hlow]
  rfl

/-! ## Groups of digits -/

theorem isGroup_iff {g : Text} :
    isGroup g = true ↔ g ≠ [] ∧ g.length ≤ 3 ∧ ∀ c ∈ g, c.isDigit = true := by
  unfold isGroup
  rw [Bool.and_eq_true, Bool.and_eq_true, decide_eq_true_eq, decide_eq_true_eq, List.all_eq_true,
    ← List.length_pos_iff, Nat.add_one_le_iff, and_assoc]

/-- No digit is special to the shell. -/
theorem isBlank_of_isDigit {c : Char} (h : c.isDigit = true) : isBlank c = false := by
  have hblank := ne_of_isDigit (d := ' ') h rfl
  have htab := ne_of_isDigit (d := '\t') h rfl
  have hnl := ne_of_isDigit (d := '\n') h rfl
  simp [isBlank, hblank, htab, hnl]

theorem isGlobChar_of_isDigit {c : Char} (h : c.isDigit = true) : isGlobChar c = false := by
  have hstar := ne_of_isDigit (d := '*') h rfl
  have hquestion := ne_of_isDigit (d := '?') h rfl
  have hbracket := ne_of_isDigit (d := '[') h rfl
  simp [isGlobChar, hstar, hquestion, hbracket]

theorem isSpace_of_isDigit {c : Char} (h : c.isDigit = true) : isSpace c = false := by
  have hcr := ne_of_isDigit (d := '\r') h rfl
  have hvt := ne_of_isDigit (d := Char.ofNat 11) h (by decide)
  have hff := ne_of_isDigit (d := Char.ofNat 12) h (by decide)
  simp [isSpace, isBlank_of_isDigit h, hcr, hvt, hff]

theorem isWord_of_isGroup {g : Text} (h : isGroup g = true) : IsWord g := by
  obtain ⟨hne, -, hdigit⟩ := isGroup_iff.mp h
  exact ⟨hne, fun c hc => isBlank_of_isDigit (hdigit c hc)⟩

theorem dot_not_mem_of_isGroup {g : Text} (h : isGroup g = true) : '.' ∉ g := by
  intro hdot
  have hdigit := (isGroup_iff.mp h).2.2 _ hdot
  cases hdigit

theorem value_lt_of_isGroup {g : Text} (h : isGroup g = true) : value 10 g < 1000 := by
  obtain ⟨-, hlen, hdigit⟩ := isGroup_iff.mp h
  calc value 10 g < 10 ^ g.length := value_lt hdigit
    _ ≤ 10 ^ 3 := Nat.pow_le_pow_right (by decide) hlen

/-- `[` reads a group as the decimal number. -/
theorem testInt_of_isGroup {g : Text} (h : isGroup g = true) :
    testInt g = some ((value 10 g : ℕ) : ℤ) := by
  obtain ⟨hne, -, hdigit⟩ := isGroup_iff.mp h
  have hlt := value_lt_of_isGroup h
  obtain ⟨c, cs, rfl⟩ := List.exists_cons_of_ne_nil hne
  have hc : c.isDigit = true := hdigit c (by simp)
  have hspace : (c :: cs).dropWhile isSpace = c :: cs := by
    simp [isSpace_of_isDigit hc]
  have hminus := ne_of_isDigit (d := '-') hc rfl
  have hplus := ne_of_isDigit (d := '+') hc rfl
  have htake : (c :: cs).takeWhile Char.isDigit = c :: cs := List.takeWhile_eq_self_iff.mpr hdigit
  have hdrop : (c :: cs).dropWhile Char.isDigit = [] := List.dropWhile_eq_nil_iff.mpr hdigit
  unfold testInt
  dsimp only
  rw [hspace]
  simp only [List.head?_cons, Option.some.injEq, hminus, hplus, or_self, if_false]
  rw [htake, hdrop, if_pos ⟨hne, rfl, by omega, by omega⟩]

theorem expand_of_isGroup (m : Machine) (fs : FS) (cwd : Path) {g : Text} (h : isGroup g = true) :
    unquoted m fs cwd g = [g] := by
  rw [unquoted_of_not_glob m fs cwd fun c hc => isGlobChar_of_isDigit ((isGroup_iff.mp h).2.2 c hc),
    words_of_isWord (isWord_of_isGroup h)]

theorem isBadOctet_of_isGroup (m : Machine) (fs : FS) (cwd : Path) {g : Text}
    (h : isGroup g = true) : isBadOctet m fs cwd g = decide (255 < value 10 g) := by
  unfold isBadOctet testWord
  rw [expand_of_isGroup m fs cwd h]
  dsimp only
  rw [testInt_of_isGroup h]
  have hneg : ¬ ((value 10 g : ℕ) : ℤ) < 0 := by omega
  rw [Option.any_some, Option.any_some, decide_eq_false hneg, Bool.or_false, decide_eq_decide]
  omega

/-! ## Four groups -/

/-- Four groups with dots in between. -/
structure IsQuad (gs : List Text) : Prop where
  length_eq : gs.length = 4
  isGroup : ∀ g ∈ gs, isGroup g = true

namespace IsQuad

variable {gs : List Text}

theorem ne_nil (h : IsQuad gs) : gs ≠ [] := by
  rintro rfl
  simpa using h.length_eq

theorem splitOn_dotted (h : IsQuad gs) : (dotted gs).splitOn '.' = gs :=
  List.splitOn_intercalate '.' (fun g hg => dot_not_mem_of_isGroup (h.isGroup g hg)) h.ne_nil

theorem isIpv4Line_dotted (h : IsQuad gs) : isIpv4Line (dotted gs) = true := by
  unfold isIpv4Line
  rw [h.splitOn_dotted, h.length_eq, List.all_eq_true.mpr h.isGroup]
  rfl

/-- A quad is digits and dots. -/
theorem mem_dotted (h : IsQuad gs) {c : Char} (hc : c ∈ dotted gs) :
    c.isDigit = true ∨ c = '.' := by
  rcases mem_intercalate hc with hdot | ⟨g, hg, hcg⟩
  · exact Or.inr hdot
  · exact Or.inl ((isGroup_iff.mp (h.isGroup g hg)).2.2 c hcg)

theorem isBlank_of_mem (h : IsQuad gs) {c : Char} (hc : c ∈ dotted gs) : isBlank c = false := by
  rcases h.mem_dotted hc with hc | rfl
  · exact isBlank_of_isDigit hc
  · rfl

theorem not_glob (h : IsQuad gs) : (dotted gs).any isGlobChar = false := by
  rw [List.any_eq_false]
  intro c hc
  rcases h.mem_dotted hc with hc | rfl
  · simp [isGlobChar_of_isDigit hc]
  · decide

theorem dotted_ne_nil (h : IsQuad gs) : dotted gs ≠ [] := by
  intro hnil
  have hsplit := h.splitOn_dotted
  rw [hnil] at hsplit
  have hlen := h.length_eq
  rw [← hsplit] at hlen
  simp at hlen

theorem isWord_dotted (h : IsQuad gs) : IsWord (dotted gs) :=
  ⟨h.dotted_ne_nil, fun _ hc => h.isBlank_of_mem hc⟩

theorem isEchoOption_dotted (h : IsQuad gs) : isEchoOption (dotted gs) = false := by
  apply isEchoOption_of_head
  intro hhead
  rcases h.mem_dotted (List.mem_of_head? hhead) with hdigit | hdot
  · cases hdigit
  · cases hdot

end IsQuad

section Quad

variable (m : Machine) (fs : FS) (cwd : Path) {t : Text} {gs : List Text}

theorem echoArgument_of_quad (h : IsQuad gs) (ht : words t = [dotted gs]) :
    echoArgument m fs cwd t = dotted gs ++ ['\n'] := by
  have hany := h.not_glob
  have hwords : unquoted m fs cwd t = [dotted gs] := by
    unfold unquoted
    rw [ht, List.flatMap_singleton]
    unfold expand
    rw [if_neg (by simp [hany])]
  unfold echoArgument
  rw [hwords, echo_of_not_option m (by simp [h.isEchoOption_dotted])]
  simp [join]

theorem records_of_quad (h : IsQuad gs) (ht : words t = [dotted gs]) :
    records (echoArgument m fs cwd t) = [dotted gs] := by
  have hnl : '\n' ∉ dotted gs := by
    intro hmem
    have hblank := h.isBlank_of_mem hmem
    cases hblank
  rw [echoArgument_of_quad m fs cwd h ht, records_append_newline, lines_eq_singleton hnl]

/-- `awk` prints the groups of a quad. -/
theorem awkDot_of_quad (h : IsQuad gs) (ht : words t = [dotted gs]) (n : ℕ) :
    awkDot n (echoArgument m fs cwd t) = gs.getD (n - 1) [] := by
  have hnl : '\n' ∉ gs.getD (n - 1) [] := by
    rw [List.getD_eq_getElem?_getD]
    cases hget : gs[n - 1]? with
    | none => simp
    | some g =>
      have hg : IsWord g := isWord_of_isGroup (h.isGroup g (List.mem_of_getElem? hget))
      intro hmem
      have hblank := hg.2 _ hmem
      cases hblank
  unfold awkDot
  rw [records_of_quad m fs cwd h ht, List.flatMap_singleton, h.splitOn_dotted,
    commandSubst_newline, commandSubst_eq_self hnl]

theorem octetWords_of_quad (h : IsQuad gs) (ht : words t = [dotted gs]) :
    octetWords m fs cwd (echoArgument m fs cwd t) = gs := by
  obtain ⟨a, b, c, d, rfl⟩ := List.length_eq_four.mp h.length_eq
  have hword : ∀ g ∈ [a, b, c, d], unquoted m fs cwd g = [g] :=
    fun g hg => expand_of_isGroup m fs cwd (h.isGroup g hg)
  unfold octetWords
  simp only [awkDot_of_quad m fs cwd h ht, List.flatMap_cons, List.flatMap_nil]
  simp [hword]

/-- A quad is accepted if none of its groups is above 255. -/
theorem validateIpv4_of_quad (h : IsQuad gs) (ht : words t = [dotted gs]) :
    validateIpv4 m fs cwd t = true ↔ ∀ g ∈ gs, value 10 g ≤ 255 := by
  have hline : (records (echoArgument m fs cwd t)).any isIpv4Line = true := by
    rw [records_of_quad m fs cwd h ht, List.any_cons, h.isIpv4Line_dotted]
    rfl
  unfold validateIpv4
  rw [hline, Bool.true_and, octetWords_of_quad m fs cwd h ht, Bool.not_eq_true',
    List.any_eq_false]
  refine forall₂_congr fun g hg => ?_
  rw [isBadOctet_of_isGroup m fs cwd (h.isGroup g hg)]
  simp

end Quad

theorem isQuad_of_isIpv4Line {r : Text} (h : isIpv4Line r = true) :
    ∃ gs, IsQuad gs ∧ r = dotted gs := by
  unfold isIpv4Line at h
  rw [Bool.and_eq_true, beq_iff_eq, List.all_eq_true] at h
  exact ⟨r.splitOn '.', ⟨h.1, h.2⟩, (List.intercalate_splitOn '.').symm⟩

/-- A string that `echo` shows as it is, apart from its blanks. -/
def ShownAsIs (t : Text) : Prop :=
  (∀ w ∈ words t, w.any isGlobChar = false) ∧ (words t).head?.any isEchoOption = false

theorem isQuad_of_validateIpv4 {m : Machine} {fs : FS} {cwd : Path} {t : Text} (ht : ShownAsIs t)
    (h : validateIpv4 m fs cwd t = true) : ∃ gs, IsQuad gs ∧ words t = [dotted gs] := by
  obtain ⟨hglob, hoption⟩ := ht
  have hwords : ∀ w ∈ words t, IsWord w := fun w hw => isWord_of_mem_words hw
  have hnl : '\n' ∉ join (words t) := by
    intro hmem
    rcases mem_join hmem with hblank | ⟨w, hw, hmem⟩
    · cases hblank
    · have hblank := (hwords w hw).2 _ hmem
      cases hblank
  have hexpand : ∀ w ∈ words t, expand m fs cwd w = [w] := by
    intro w hw
    unfold expand
    rw [if_neg (by simp [hglob w hw])]
  have hrecords : records (echoArgument m fs cwd t) = [join (words t)] := by
    unfold echoArgument unquoted
    rw [List.flatMap_congr hexpand, List.flatMap_singleton', echo_of_not_option m hoption,
      records_append_newline, lines_eq_singleton hnl]
  unfold validateIpv4 at h
  rw [hrecords, Bool.and_eq_true] at h
  obtain ⟨gs, hgs, hjoin⟩ := isQuad_of_isIpv4Line (by simpa using h.1)
  refine ⟨gs, hgs, ?_⟩
  rw [← words_join hwords, hjoin, words_of_isWord hgs.isWord_dotted]

/-! ## Octets in the arithmetic -/

namespace Octet

theorem isDigit_of_mem (o : Octet) {c : Char} (hc : c ∈ o.digits) : c.isDigit = true :=
  (isGroup_iff.mp o.isGroup_digits).2.2 c hc

theorem toNat_lt (o : Octet) : o.toNat < 256 := Nat.lt_succ_of_le o.value_le

theorem isDecimal_or (o : Octet) :
    (isDecimal o.digits = true ∧ o.Unambiguous) ∨
      (isDecimal o.digits = false ∧ isOctal o.digits = true ∧ o.digits.head? = some '0') := by
  have hne := (isGroup_iff.mp o.isGroup_digits).1
  rcases isDecimal_or_isOctal hne fun c hc => o.isDigit_of_mem hc with ⟨hdecimal, hzero⟩ | hoctal
  · refine Or.inl ⟨hdecimal, fun hhead => ?_⟩
    unfold toNat
    rw [hzero hhead]
    decide
  · exact Or.inr hoctal

theorem arith_of_unambiguous (m : Machine) {o : Octet} (h : o.Unambiguous) :
    arith m o.digits = .value o.toNat := by
  have hlt := o.toNat_lt
  have hne := (isGroup_iff.mp o.isGroup_digits).1
  rcases o.isDecimal_or with ⟨hdecimal, -⟩ | ⟨-, -, hzero⟩
  · exact arith_of_isDecimal m hdecimal (lt_trans hlt (by decide))
  · exact arith_of_le_seven m hne (fun c hc => o.isDigit_of_mem hc) (h hzero)

/-- A variable with an octet in it counts for no more than the octet, and for the octet only if
    an octal reading makes no difference. -/
theorem word_arith (m : Machine) (o : Octet) {x : BitVec 64}
    (h : (arith m o.digits).word = some x) :
    ∃ v ≤ o.toNat, x = BitVec.ofNat 64 v ∧ (v = o.toNat → o.Unambiguous) := by
  have hlt := o.toNat_lt
  rcases o.isDecimal_or with ⟨-, hplain⟩ | ⟨hdecimal, hoctal, hzero⟩
  · rw [arith_of_unambiguous m hplain, Arith.word_natCast, Option.some.injEq] at h
    exact ⟨o.toNat, le_rfl, h.symm, fun _ => hplain⟩
  · have hdigit : ∀ c ∈ o.digits, c.isDigit = true := fun c hc => o.isDigit_of_mem hc
    have hle : value 8 o.digits ≤ o.toNat := value_octal_le _
    rw [arith_of_isOctal m hdecimal hoctal (by omega)] at h
    by_cases hall : o.digits.all (· ≤ '7') = true
    · rw [if_pos hall, Arith.word_natCast, Option.some.injEq] at h
      refine ⟨value 8 o.digits, hle, h.symm, fun heq _ => ?_⟩
      exact (value_le_seven_iff hdigit).mpr ⟨by simpa using hall, heq⟩
    · rw [if_neg hall] at h
      cases h

end Octet

/-! ## Addresses in the functions -/

namespace Address

theorem isQuad (a : Address) : IsQuad (a.octets.map Octet.digits) where
  length_eq := rfl
  isGroup := by
    intro g hg
    obtain ⟨o, -, rfl⟩ := List.mem_map.mp hg
    exact o.isGroup_digits

theorem text_injective {a b : Address} (h : a.text = b.text) : a = b := by
  have hdigits : a.octets.map Octet.digits = b.octets.map Octet.digits := by
    rw [← a.isQuad.splitOn_dotted, ← b.isQuad.splitOn_dotted]
    exact congrArg _ h
  simp only [octets, List.map_cons, List.map_nil, List.cons.injEq, and_true] at hdigits
  obtain ⟨h1, h2, h3, h4⟩ := hdigits
  exact Address.ext (Octet.ext h1) (Octet.ext h2) (Octet.ext h3) (Octet.ext h4)

theorem exists_of_quad {gs : List Text} (h : IsQuad gs) (hle : ∀ g ∈ gs, value 10 g ≤ 255) :
    ∃ a : Address, dotted gs = a.text := by
  obtain ⟨b, c, d, e, rfl⟩ := List.length_eq_four.mp h.length_eq
  exact ⟨⟨⟨b, h.isGroup b (by simp), hle b (by simp)⟩, ⟨c, h.isGroup c (by simp), hle c (by simp)⟩,
    ⟨d, h.isGroup d (by simp), hle d (by simp)⟩, ⟨e, h.isGroup e (by simp), hle e (by simp)⟩⟩, rfl⟩

variable (m : Machine) (fs : FS) (cwd : Path) {t : Text} {a : Address}

theorem validateIpv4_eq_true (ht : words t = [a.text]) : validateIpv4 m fs cwd t = true := by
  rw [validateIpv4_of_quad m fs cwd a.isQuad ht]
  intro g hg
  obtain ⟨o, -, rfl⟩ := List.mem_map.mp hg
  exact o.value_le

theorem ipaddr2number_eq (ht : words t = [a.text]) (h : ∀ o ∈ a.octets, o.Unambiguous) :
    ipaddr2number m fs cwd t = some (decimal a.toNat) := by
  have h1 := Octet.arith_of_unambiguous m (h a.o1 (by simp [octets]))
  have h2 := Octet.arith_of_unambiguous m (h a.o2 (by simp [octets]))
  have h3 := Octet.arith_of_unambiguous m (h a.o3 (by simp [octets]))
  have h4 := Octet.arith_of_unambiguous m (h a.o4 (by simp [octets]))
  have hdot := awkDot_of_quad m fs cwd a.isQuad ht
  have hsum := toInt_shifted_sum a.o1.toNat_lt a.o2.toNat_lt a.o3.toNat_lt a.o4.toNat_lt
  unfold ipaddr2number
  rw [hdot, hdot, hdot, hdot]
  simp only [octets, List.map_cons, List.map_nil, List.getD_cons_zero, List.getD_cons_succ,
    Nat.sub_self, Nat.reduceSub, h1, h2, h3, h4, Arith.word_natCast, Option.bind_eq_bind,
    Option.bind_some]
  rw [hsum]
  rfl

/-- The number is the address only if no octet is read as another one. -/
theorem unambiguous_of_ipaddr2number (ht : words t = [a.text])
    (h : ipaddr2number m fs cwd t = some (decimal a.toNat)) : ∀ o ∈ a.octets, o.Unambiguous := by
  have hdot := awkDot_of_quad m fs cwd a.isQuad ht
  unfold ipaddr2number at h
  rw [hdot, hdot, hdot, hdot] at h
  simp only [Option.bind_eq_bind, Option.bind_eq_some_iff, Option.pure_def, Option.some.injEq] at h
  obtain ⟨x1, h1, x2, h2, x3, h3, x4, h4, hsum⟩ := h
  obtain ⟨v1, hle1, rfl, hv1⟩ := a.o1.word_arith m h1
  obtain ⟨v2, hle2, rfl, hv2⟩ := a.o2.word_arith m h2
  obtain ⟨v3, hle3, rfl, hv3⟩ := a.o3.word_arith m h3
  obtain ⟨v4, hle4, rfl, hv4⟩ := a.o4.word_arith m h4
  have hlt1 := a.o1.toNat_lt
  have hlt2 := a.o2.toNat_lt
  have hlt3 := a.o3.toNat_lt
  have hlt4 := a.o4.toNat_lt
  rw [toInt_shifted_sum (by omega) (by omega) (by omega) (by omega)] at hsum
  have hnat := decimal_natCast_injective hsum
  unfold toNat at hnat
  obtain ⟨e1, e2, e3, e4⟩ := quad_injective (by omega) (by omega) (by omega) hlt1 hlt2 hlt3 hnat
  intro o ho
  simp only [octets, List.mem_cons, List.not_mem_nil, or_false] at ho
  rcases ho with rfl | rfl | rfl | rfl
  · exact hv1 e1
  · exact hv2 e2
  · exact hv3 e3
  · exact hv4 e4

theorem number2ipaddr_toNat (a : Address) : number2ipaddr m (decimal a.toNat) = some a.plain := by
  have hlt1 := a.o1.toNat_lt
  have hlt2 := a.o2.toNat_lt
  have hlt3 := a.o3.toNat_lt
  have hlt4 := a.o4.toNat_lt
  have hlt : a.toNat < 2 ^ 32 := by
    unfold toNat
    omega
  have h1 : a.toNat % 256 = a.o1.toNat := by
    unfold toNat
    omega
  have h2 : a.toNat / 2 ^ 8 % 256 = a.o2.toNat := by
    unfold toNat
    omega
  have h3 : a.toNat / 2 ^ 16 % 256 = a.o3.toNat := by
    unfold toNat
    omega
  have h4 : a.toNat / 2 ^ 24 = a.o4.toNat := by
    unfold toNat
    omega
  rw [number2ipaddr_decimal m (by omega), h1, h2, h3, h4]
  rfl

end Address

/-! ## The validator and the converters -/

/-- What is accepted is an address, which `ipaddr2number` and `number2ipaddr` read and write in
    decimal, and every address is accepted. -/
structure ConvertersAgree (m : Machine) (fs : FS) (cwd : Path) (t : Text) : Prop where
  accepted : validateIpv4 m fs cwd t = true → ∃ a : Address, words t = [a.text] ∧
    ipaddr2number m fs cwd t = some (decimal a.toNat) ∧
    number2ipaddr m (decimal a.toNat) = some a.plain
  accepts : ∀ a : Address, words t = [a.text] → validateIpv4 m fs cwd t = true

theorem shownAsIs_of_address {t : Text} {a : Address} (ht : words t = [a.text]) :
    ShownAsIs t := by
  have hquad := a.isQuad
  unfold ShownAsIs
  rw [ht]
  constructor
  · intro w hw
    rw [List.mem_singleton.mp hw]
    exact hquad.not_glob
  · exact hquad.isEchoOption_dotted

/-- Of the strings that `echo` shows as they are, the addresses are accepted. -/
theorem validateIpv4_iff {m : Machine} {fs : FS} {cwd : Path} {t : Text} (ht : ShownAsIs t) :
    validateIpv4 m fs cwd t = true ↔ ∃ a : Address, words t = [a.text] := by
  constructor
  · intro h
    obtain ⟨gs, hgs, hwords⟩ := isQuad_of_validateIpv4 ht h
    obtain ⟨a, ha⟩ := Address.exists_of_quad hgs ((validateIpv4_of_quad m fs cwd hgs hwords).mp h)
    exact ⟨a, by rw [hwords, ha]⟩
  · rintro ⟨a, ha⟩
    exact Address.validateIpv4_eq_true m fs cwd ha

namespace Octet

theorem isGroup_decimal {n : ℕ} (h : n < 256) : isGroup (decimal n) = true := by
  rw [isGroup_iff, decimal_natCast]
  refine ⟨Nat.toDigits_ne_nil, ?_, fun c hc => Nat.isDigit_of_mem_toDigits (by decide) le_rfl hc⟩
  exact (Nat.length_toDigits_le_iff (by decide) (by decide)).mpr (lt_trans h (by decide))

/-- The octet of a number, without leading zeros. -/
def ofNat (n : ℕ) (h : n < 256) : Octet where
  digits := decimal n
  isGroup_digits := isGroup_decimal h
  value_le := by
    rw [decimal_natCast, value_toDigits]
    omega

@[simp] theorem toNat_ofNat {n : ℕ} (h : n < 256) : (ofNat n h).toNat = n := value_toDigits n

theorem unambiguous_ofNat {n : ℕ} (h : n < 256) : (ofNat n h).Unambiguous := by
  intro hzero
  have hdecimal := isDecimal_toDigits n
  have hhead : (Nat.toDigits 10 n).head? = some '0' := hzero
  rw [toNat_ofNat]
  unfold isDecimal at hdecimal
  split at hdecimal
  · cases hdecimal
  · next heq =>
    have hvalue := value_toDigits n
    rw [heq] at hvalue
    have hz : value 10 ['0'] = 0 := by decide
    omega
  · next c cs _ heq =>
    rw [heq, List.head?_cons, Option.some.injEq] at hhead
    simp [hhead] at hdecimal

end Octet

namespace Address

/-- The address of a number. -/
def ofNat (n : ℕ) (h : n < 2 ^ 32) : Address where
  o1 := Octet.ofNat (n % 256) (by omega)
  o2 := Octet.ofNat (n / 2 ^ 8 % 256) (by omega)
  o3 := Octet.ofNat (n / 2 ^ 16 % 256) (by omega)
  o4 := Octet.ofNat (n / 2 ^ 24) (by omega)

theorem toNat_ofNat {n : ℕ} (h : n < 2 ^ 32) : (ofNat n h).toNat = n := by
  unfold toNat ofNat
  simp only [Octet.toNat_ofNat]
  omega

theorem unambiguous_ofNat {n : ℕ} (h : n < 2 ^ 32) : ∀ o ∈ (ofNat n h).octets, o.Unambiguous := by
  intro o ho
  simp only [octets, ofNat, List.mem_cons, List.not_mem_nil, or_false] at ho
  rcases ho with rfl | rfl | rfl | rfl <;> exact Octet.unambiguous_ofNat _

theorem words_text (a : Address) : words a.text = [a.text] :=
  words_of_isWord a.isQuad.isWord_dotted

theorem number2ipaddr_eq (m : Machine) {n : ℕ} (h : n < 2 ^ 32) :
    number2ipaddr m (decimal n) = some (ofNat n h).text :=
  number2ipaddr_decimal m (by omega)

end Address

/-- **Numbers to addresses and back**: `number2ipaddr` prints an address that is accepted and
    that `ipaddr2number` reads as the same number, so no two numbers have the same address. -/
theorem ipaddr2number_number2ipaddr (m : Machine) (fs : FS) (cwd : Path) :
    (∀ n : ℤ, 0 ≤ n → n < 2 ^ 32 → ∃ t, number2ipaddr m (decimal n) = some t ∧
      validateIpv4 m fs cwd t = true ∧ ipaddr2number m fs cwd t = some (decimal n)) ∧
    Set.InjOn (fun n : ℤ => number2ipaddr m (decimal n)) (Set.Ico 0 (2 ^ 32)) := by
  have hround : ∀ n : ℤ, 0 ≤ n → n < 2 ^ 32 → ∃ t, number2ipaddr m (decimal n) = some t ∧
      validateIpv4 m fs cwd t = true ∧ ipaddr2number m fs cwd t = some (decimal n) := by
    intro n h0 h1
    lift n to ℕ using h0
    have hlt : n < 2 ^ 32 := by exact_mod_cast h1
    have hwords := (Address.ofNat n hlt).words_text
    refine ⟨_, Address.number2ipaddr_eq m hlt, Address.validateIpv4_eq_true m fs cwd hwords, ?_⟩
    rw [Address.ipaddr2number_eq m fs cwd hwords (Address.unambiguous_ofNat hlt),
      Address.toNat_ofNat]
  refine ⟨hround, ?_⟩
  intro n hn k hk heq
  obtain ⟨t, ht, -, hn'⟩ := hround n hn.1 hn.2
  obtain ⟨u, hu, -, hk'⟩ := hround k hk.1 hk.2
  have htu : t = u := by
    have hsome : some t = some u := by
      rw [← ht, ← hu]
      exact heq
    exact Option.some.inj hsome
  rw [htu, hk', Option.some.injEq] at hn'
  obtain ⟨hn0, -⟩ := hn
  obtain ⟨hk0, -⟩ := hk
  lift n to ℕ using hn0
  lift k to ℕ using hk0
  exact congrArg _ (decimal_natCast_injective hn').symm

/-- 192.168.56.111 -/
theorem ipaddr2number_number2ipaddr_demo : ∃ t,
    number2ipaddr plainHost (decimal 1865984192) = some t ∧
    validateIpv4 plainHost (fun _ => none) [] t = true ∧
    ipaddr2number plainHost (fun _ => none) [] t = some (decimal 1865984192) :=
  (ipaddr2number_number2ipaddr plainHost (fun _ => none) []).1 1865984192 (by decide) (by decide)

end RedisCluster
