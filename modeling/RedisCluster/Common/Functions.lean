import RedisCluster.Shell.Machine

/-!
# The functions of `common.sh` that the tool calls

* `readCfg`: `read_cfg`, lines 175–182.
* `arrayFind`: `array_find`, lines 362–383; `arrayFind_eq_neg_one_iff`.
* `vernoMajorId`: `verno_major_id`, lines 482–492.
-/

namespace RedisCluster

/-! ## `read_cfg` -/

/-- The characters of a section or key name that stand for themselves in the
    `awk` program. -/
def isRegexLiteral (c : Char) : Bool := isWordChar c || c == '-'

/-- `$1` of a record with `-F '='`. -/
def keyField (r : Text) : Text := r.takeWhile (· != '=')

/-- `$2` of a record with `-F '='`. -/
def valueField (r : Text) : Text := ((r.dropWhile (· != '=')).drop 1).takeWhile (· != '=')

/-- `[S]` -/
def bracketed (s : Text) : Text := '[' :: (s ++ [']'])

/-- The record whose second field `awk` prints: the first one at or after a
    record with `[S]` in it whose first field has `K` in it. Nothing resets the
    flag `a`. -/
def awkHit (cfg s k : Text) : Option Text :=
  ((records cfg).dropWhile fun r => ¬ bracketed s <:+: r).find? fun r => k <:+: keyField r

/-- `awk -F '=' '/\[S\]/{a=1}a==1&&$1~/K/{print $2;exit}'` -/
def awkCfg (m : Machine) (cfg s k : Text) : Text :=
  if s.all isRegexLiteral ∧ k.all isRegexLiteral then
    match awkHit cfg s k with
    | some r => valueField r ++ ['\n']
    | none => []
  else m.awkOther cfg s k

/-- `read_cfg` (lines 175–182): what it prints. `$RETVAL` is not quoted. -/
def readCfg (m : Machine) (fs : FS) (cwd : Path) (cfg s k : Text) : Text :=
  let retval := commandSubst (awkCfg m cfg s k)
  (echo m (unquoted m fs cwd retval)).filter (· != '"')

theorem mem_of_mem_valueField {r : Text} {ch : Char} (h : ch ∈ valueField r) : ch ∈ r :=
  (List.dropWhile_suffix _).mem (List.mem_of_mem_drop ((List.takeWhile_prefix _).mem h))

/-- What `awk` prints of the nodes file stands in it as a value. -/
theorem mem_of_mem_awkCfg {m : Machine} {cfg n k : Text} {ch : Char} (h : ch ∈ awkCfg m cfg n k) :
    (∃ r ∈ records cfg, ch ∈ valueField r) ∨ ch = '\n' ∨ ch ∈ m.awkOther cfg n k := by
  unfold awkCfg at h
  split at h
  · split at h
    · next r hr =>
      rcases List.mem_append.mp h with h | h
      · exact Or.inl ⟨r, (List.dropWhile_suffix _).mem (List.mem_of_find?_eq_some hr), h⟩
      · exact Or.inr (Or.inl (List.mem_singleton.mp h))
    · cases h
  · exact Or.inr (Or.inr h)

/-! ## `array_find` -/

/-- `array_find` (lines 362–383): the index of the first element equal to `x`, or
    `-1`. -/
def arrayFind (arr : List Text) (x : Text) : ℤ :=
  match arr.findIdx? (· == x) with
  | some i => i
  | none => -1

theorem arrayFind_eq_neg_one_iff {arr : List Text} {x : Text} : arrayFind arr x = -1 ↔ x ∉ arr := by
  unfold arrayFind
  cases h : arr.findIdx? (· == x) with
  | some i =>
    obtain ⟨hi, hx, -⟩ := List.findIdx?_eq_some_iff_getElem.mp h
    have hmem : x ∈ arr := by
      rw [← beq_iff_eq.mp hx]
      exact List.getElem_mem hi
    simp [hmem]
  | none =>
    rw [List.findIdx?_eq_none_iff] at h
    simp only [true_iff]
    intro hx
    simpa using h x hx

/-! ## `verno_major_id` -/

/-- `$(verno_major_id "$verno")` (lines 482–492): the text before the first dot.
    Without any text `vers` is empty, and `${vers[0]}` stops the script. -/
def vernoMajorId (m : Machine) (fs : FS) (cwd : Path) (verno : Text) : Option Text :=
  if verno = [] then none
  else (expand m fs cwd (verno.takeWhile (· != '.'))).head?.map fun v => commandSubst (echo m [v])

end RedisCluster
