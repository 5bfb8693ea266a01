import RedisCluster.Tool.Deploy

/-!
# The nodes of a machine

`deploy()` looks for the addresses of a node with `grep -w` in the printed list of the
local ones. The dots of an address match any character, and a match may begin and end
inside of an address.

* `grepWordFrom_iff`: where `grep -w` finds a pattern.
* `isCurrent_iff`: when a node is taken for a local one exactly as it should.
-/

namespace RedisCluster

/-! ## Whole words -/

/-- The text fits the pattern, character by character; a dot fits all. -/
def Fits (pat x : Text) : Prop := List.Forall₂ (fun p c => p = '.' ∨ p = c) pat x

/-- The pattern fits a stretch of the line that has no word character on either side. -/
def FitsWord (pat line : Text) : Prop :=
  ∃ pre x post, line = pre ++ (x ++ post) ∧ Fits pat x ∧
    pre.getLast?.any isWordChar = false ∧ post.head?.any isWordChar = false

theorem fits_self (x : Text) : Fits x x := by
  induction x with
  | nil => exact .nil
  | cons c x ih => exact .cons (Or.inr rfl) ih

theorem matchStart_eq_some_iff {pat s rest : Text} :
    matchStart pat s = some rest ↔ ∃ x, s = x ++ rest ∧ Fits pat x := by
  induction pat generalizing s with
  | nil =>
    constructor
    · intro h
      rw [matchStart, Option.some.injEq] at h
      exact ⟨[], h, .nil⟩
    · rintro ⟨x, rfl, hx⟩
      cases hx
      rfl
  | cons p pat ih =>
    cases s with
    | nil =>
      simp only [matchStart, reduceCtorEq, false_iff, not_exists, not_and]
      intro x hx hfits
      obtain ⟨rfl, -⟩ := List.append_eq_nil_iff.mp hx.symm
      cases hfits
    | cons c s =>
      rw [matchStart]
      split
      · next hp =>
        rw [ih]
        constructor
        · rintro ⟨x, rfl, hx⟩
          exact ⟨c :: x, rfl, .cons hp hx⟩
        · rintro ⟨x, hx, hfits⟩
          cases hfits with
          | cons hpc hfits =>
            obtain ⟨rfl, rfl⟩ := List.cons.inj hx
            exact ⟨_, rfl, hfits⟩
      · next hp =>
        simp only [reduceCtorEq, false_iff, not_exists, not_and]
        intro x hx hfits
        cases hfits with
        | cons hpc hfits =>
          obtain ⟨rfl, -⟩ := List.cons.inj hx
          exact hp hpc

theorem getLast?_cons_or (c : Char) (pre : Text) (prev : Option Char) :
    (c :: pre).getLast?.or prev = pre.getLast?.or (some c) := by
  cases h : pre.getLast? <;> simp [List.getLast?_cons, h]

theorem matchHere_iff {pat s : Text} {prev : Option Char} :
    (!prev.any isWordChar && (matchStart pat s).any fun rest => !rest.head?.any isWordChar) = true ↔
      ∃ x post, s = x ++ post ∧ Fits pat x ∧ prev.any isWordChar = false ∧
        post.head?.any isWordChar = false := by
  simp only [Bool.and_eq_true, Bool.not_eq_true', Option.any_eq_true, matchStart_eq_some_iff]
  constructor
  · rintro ⟨hprev, post, ⟨x, hs, hx⟩, hpost⟩
    exact ⟨x, post, hs, hx, hprev, hpost⟩
  · rintro ⟨x, post, hs, hx, hprev, hpost⟩
    exact ⟨hprev, post, ⟨x, hs, hx⟩, hpost⟩

/-- The same for a line of which a part, ending with `prev`, is behind. -/
theorem grepWordFrom_eq_true_iff {pat s : Text} {prev : Option Char} :
    grepWordFrom pat prev s = true ↔ ∃ pre x post, s = pre ++ (x ++ post) ∧ Fits pat x ∧
      (pre.getLast?.or prev).any isWordChar = false ∧ post.head?.any isWordChar = false := by
  induction s generalizing prev with
  | nil =>
    rw [grepWordFrom, Bool.or_false, matchHere_iff]
    constructor
    · rintro ⟨x, post, hs, hx, hprev, hpost⟩
      exact ⟨[], x, post, hs, hx, by simpa using hprev, hpost⟩
    · rintro ⟨pre, x, post, hs, hx, hprev, hpost⟩
      obtain ⟨rfl, hs'⟩ := List.append_eq_nil_iff.mp hs.symm
      exact ⟨x, post, hs'.symm, hx, by simpa using hprev, hpost⟩
  | cons c s ih =>
    rw [grepWordFrom, Bool.or_eq_true, matchHere_iff, ih]
    constructor
    · rintro (⟨x, post, hs, hx, hprev, hpost⟩ | ⟨pre, x, post, rfl, hx, hprev, hpost⟩)
      · exact ⟨[], x, post, hs, hx, by simpa using hprev, hpost⟩
      · exact ⟨c :: pre, x, post, rfl, hx, by rwa [getLast?_cons_or], hpost⟩
    · rintro ⟨pre, x, post, hs, hx, hprev, hpost⟩
      cases pre with
      | nil => exact Or.inl ⟨x, post, hs, hx, by simpa using hprev, hpost⟩
      | cons d pre =>
        obtain ⟨rfl, hs'⟩ := List.cons.inj hs
        exact Or.inr ⟨pre, x, post, hs', hx, by rwa [getLast?_cons_or] at hprev, hpost⟩

/-- `grep -w` finds the pattern where it fits a whole word. -/
theorem grepWordFrom_iff {pat line : Text} :
    grepWordFrom pat none line = true ↔ FitsWord pat line := by
  rw [grepWordFrom_eq_true_iff]
  simp only [FitsWord, Option.or_none]

/-! ## Addresses -/

/-- One of the four numbers of an address. -/
def IsOctet (o : Text) : Prop :=
  o ≠ [] ∧ o.length ≤ 3 ∧ (∀ c ∈ o, c.isDigit = true) ∧
    o.foldl (fun n c => 10 * n + (c.toNat - '0'.toNat)) 0 ≤ 255

instance (o : Text) : Decidable (IsOctet o) :=
  @instDecidableAnd _ _ inferInstance (@instDecidableAnd _ _ inferInstance
    (@instDecidableAnd _ _ (List.decidableBAll _ o) inferInstance))

/-- An IPv4 address. -/
def IsDottedQuad (a : Text) : Prop :=
  ∃ o₁ o₂ o₃ o₄, (∀ o ∈ [o₁, o₂, o₃, o₄], IsOctet o) ∧
    a = o₁ ++ '.' :: (o₂ ++ '.' :: (o₃ ++ '.' :: o₄))

/-- The characters of local addresses, IPv4 or IPv6, and the blank between them. -/
def isAddrsChar (c : Char) : Bool := c.isAlphanum || c == '.' || c == ':' || c == '%' || c == ' '

/-- `$current_ips` -/
def currentIps (m : Machine) : Text := commandSubst m.hostnameI

/-- `hostname -I` prints addresses and blanks. -/
def PrintsAddrs (m : Machine) : Prop := ∀ c ∈ currentIps m, isAddrsChar c = true

instance (m : Machine) : Decidable (PrintsAddrs m) := List.decidableBAll _ _

/-- The local addresses. -/
def localAddrs (m : Machine) : List Text := words (currentIps m)

/-- A node belongs on the machine. -/
def Belongs (m : Machine) (host : Text) (addrs : List Text) : Prop :=
  host = commandSubst m.hostnameS ∨ ∃ a ∈ addrs, a ∈ localAddrs m

instance (m : Machine) (host : Text) (addrs : List Text) : Decidable (Belongs m host addrs) :=
  @instDecidableOr _ _ inferInstance (List.decidableBEx _ addrs)

theorem digit_or_dot {a : Text} (h : IsDottedQuad a) :
    ∀ c ∈ a, c.isDigit = true ∨ c = '.' := by
  obtain ⟨o₁, o₂, o₃, o₄, ho, rfl⟩ := h
  simp only [List.mem_cons, List.not_mem_nil, or_false, forall_eq_or_imp, forall_eq] at ho
  obtain ⟨h₁, h₂, h₃, h₄⟩ := ho
  intro c hc
  simp only [List.mem_append, List.mem_cons] at hc
  rcases hc with hc | rfl | hc | rfl | hc | rfl | hc
  · exact Or.inl (h₁.2.2.1 c hc)
  · exact Or.inr rfl
  · exact Or.inl (h₂.2.2.1 c hc)
  · exact Or.inr rfl
  · exact Or.inl (h₃.2.2.1 c hc)
  · exact Or.inr rfl
  · exact Or.inl (h₄.2.2.1 c hc)

theorem ne_nil_of_dottedQuad {a : Text} (h : IsDottedQuad a) : a ≠ [] := by
  obtain ⟨o₁, o₂, o₃, o₄, -, rfl⟩ := h
  simp

theorem not_isWordChar_of_isBlank {c : Char} (h : isBlank c = true) : isWordChar c = false := by
  simp only [isBlank, Bool.or_eq_true, beq_iff_eq] at h
  rcases h with (rfl | rfl) | rfl <;> decide

/-- What `grep -w` finds of an address in the printed list. -/
theorem grepQW_currentIps {m : Machine} (hm : PrintsAddrs m) {a : Text} (ha : IsDottedQuad a) :
    grepQW m a (echo m [currentIps m]) = true ↔ FitsWord a (currentIps m) := by
  have hliteral : a.all (fun c => isGrepLiteral c || c == '.') = true := by
    rw [List.all_eq_true]
    intro c hc
    rcases digit_or_dot ha c hc with h | rfl
    · simp [isGrepLiteral, isWordChar, Char.isAlphanum, h]
    · decide
  have hhead : a.head? ≠ some '-' := by
    intro h
    rcases digit_or_dot ha '-' (List.mem_of_head? h) with h | h <;> revert h <;> decide
  have hnewline : '\n' ∉ currentIps m := fun h => absurd (hm _ h) (by decide)
  have hoption : isEchoOption (currentIps m) = false :=
    isEchoOption_of_head fun h => absurd (hm '-' (List.mem_of_head? h)) (by decide)
  have hecho : echo m [currentIps m] = currentIps m ++ ['\n'] := by
    rw [echo_of_not_option m (by simp [hoption])]
    simp [join]
  rw [grepQW, if_pos ⟨hliteral, hhead⟩, hecho, records_append_newline, lines_eq_singleton hnewline]
  simp only [List.any_cons, List.any_nil, Bool.or_false]
  exact grepWordFrom_iff

/-- A local address is found. -/
theorem fitsWord_of_mem_localAddrs {m : Machine} {a : Text} (h : a ∈ localAddrs m) :
    FitsWord a (currentIps m) := by
  obtain ⟨pre, post, heq, hpre, hpost⟩ := exists_of_mem_words h
  refine ⟨pre, a, post, heq, fits_self a, ?_, ?_⟩
  · cases hlast : pre.getLast? with
    | none => rfl
    | some c => exact not_isWordChar_of_isBlank (by simpa [hlast] using hpre)
  · cases hlast : post.head? with
    | none => rfl
    | some c => exact not_isWordChar_of_isBlank (by simpa [hlast] using hpost)

/-- **A node is taken for a local one exactly when it belongs there**, unless one of its
    addresses only fits a stretch of the printed list: it is not local, but with its dots
    read as any character it stands there between word boundaries. -/
theorem isCurrent_iff {m : Machine} (hm : PrintsAddrs m) {host : Text} {addrs : List Text}
    (haddrs : ∀ a ∈ addrs, IsDottedQuad a) :
    (isCurrent m host addrs = true ↔ Belongs m host addrs) ↔
      Belongs m host addrs ∨ ∀ a ∈ addrs, ¬ FitsWord a (currentIps m) := by
  have hcurrent : isCurrent m host addrs = true ↔
      host = commandSubst m.hostnameS ∨ ∃ a ∈ addrs, FitsWord a (currentIps m) := by
    rw [isCurrent, Bool.or_eq_true, beq_iff_eq, List.any_eq_true]
    exact or_congr Iff.rfl (exists_congr fun a => and_congr_right fun ha =>
      grepQW_currentIps hm (haddrs a ha))
  have hbelongs : Belongs m host addrs → isCurrent m host addrs = true := by
    rw [hcurrent]
    rintro (h | ⟨a, ha, hlocal⟩)
    · exact Or.inl h
    · exact Or.inr ⟨a, ha, fitsWord_of_mem_localAddrs hlocal⟩
  constructor
  · intro h
    by_cases hb : Belongs m host addrs
    · exact Or.inl hb
    · refine Or.inr fun a ha hfits => hb (h.mp ?_)
      exact hcurrent.mpr (Or.inr ⟨a, ha, hfits⟩)
  · rintro (hb | hnone)
    · exact ⟨fun _ => hb, hbelongs⟩
    · refine ⟨fun h => ?_, hbelongs⟩
      rcases hcurrent.mp h with h | ⟨a, ha, hfits⟩
      · exact Or.inl h
      · exact absurd hfits (hnone a ha)

/-- A host with the addresses `10.101.1.5` and `10.0.2.7`. -/
def nearbyHost : Machine :=
  { plainHost with hostnameI := "10.101.1.5 10.0.2.7 \n".toList }

theorem isDottedQuad_nearby : IsDottedQuad "10.1.1.1".toList :=
  ⟨"10".toList, "1".toList, "1".toList, "1".toList, by decide, rfl⟩

theorem isCurrent_nearby :
    (isCurrent nearbyHost "h1".toList ["10.1.1.1".toList] = true ↔
        Belongs nearbyHost "h1".toList ["10.1.1.1".toList]) ↔
      Belongs nearbyHost "h1".toList ["10.1.1.1".toList] ∨
        ∀ a ∈ ["10.1.1.1".toList], ¬ FitsWord a (currentIps nearbyHost) :=
  isCurrent_iff (by decide +kernel) fun a ha => by
    rw [List.mem_singleton.mp ha]
    exact isDottedQuad_nearby

/-- A node with the address `10.1.1.1` is taken for a local one there: its dots fit the
    digits of `10.101.1`. -/
theorem isCurrent_inside :
    PrintsAddrs nearbyHost ∧ IsDottedQuad "10.1.1.1".toList ∧
      isCurrent nearbyHost "h1".toList ["10.1.1.1".toList] = true ∧
      ¬ Belongs nearbyHost "h1".toList ["10.1.1.1".toList] :=
  ⟨by decide +kernel, isDottedQuad_nearby, by decide +kernel, by decide +kernel⟩

end RedisCluster
