import RedisCluster.Library.FileTree
import RedisCluster.Shell.Text

/-!
# Path words and what they lead to

A path word of the script is kept as the list of its components, as the slashes
separate them; `"$dir/$name"` is then the concatenation of two such lists. It is
resolved as the kernel does it, component by component, without symbolic links:
every component but the last has to lead to a directory.

* `walk_eq_some_iff`: a walk succeeds when all it passes are directories, and
  ends at its lexical `target`.
* `fileTarget_eq_some_iff`: where a redirection or a copy may put a file.
* `IsAbsolute`: the words that mean the same in every current directory.
* `target_append_name`, `lastName_pathWord_append`: the targets and the last components
  of words put together.
-/

namespace RedisCluster

open FileTree

/-- The data of a file. -/
structure File where
  content : Text
  executable : Bool
  deriving DecidableEq

/-- An absolute path without `.`, `..` and empty components. -/
abbrev Path := List Text

/-- The file tree the script works on. -/
abbrev FS := Tree Text File

/-- A path word, as the list of its components. -/
abbrev PathWord := List Text

/-- The components of a path word. -/
def pathWord (t : Text) : PathWord := t.splitOn '/'

/-- A component that names an entry of a directory. -/
def IsName (n : Text) : Prop := n ≠ [] ∧ n ≠ ['.'] ∧ n ≠ ['.', '.']

instance (n : Text) : Decidable (IsName n) := inferInstanceAs (Decidable (_ ∧ _))

/-- One component further. -/
def step (cur : Path) (n : Text) : Path :=
  if n = [] ∨ n = ['.'] then cur else if n = ['.', '.'] then cur.dropLast else cur ++ [n]

/-- The directories from `cur` on that the components `ns` pass, the end included. -/
def visited : Path → List Text → List Path
  | cur, [] => [cur]
  | cur, n :: ns => cur :: visited (step cur n) ns

/-- Follow the components `ns` from `cur`. -/
def walk (fs : FS) : Path → List Text → Option Path
  | cur, [] => some cur
  | cur, n :: ns => if isDir fs cur then walk fs (step cur n) ns else none

/-- Where a path word starts: at the root, if it begins with a slash, or in the
    current directory. -/
def startOf (cwd : Path) : PathWord → Path × List Text
  | [] :: ns => ([], ns)
  | ns => (cwd, ns)

/-- The path that a word stands for, if its components can be followed. The
    empty word stands for nothing. -/
def resolve (fs : FS) (cwd : Path) (w : PathWord) : Option Path :=
  if w = [[]] then none else walk fs (startOf cwd w).1 (startOf cwd w).2

/-- The path that a word stands for, by its components alone. -/
def target (cwd : Path) (w : PathWord) : Path := (startOf cwd w).2.foldl step (startOf cwd w).1

/-- The last component of a word. -/
def lastName (w : PathWord) : Text := w.getLast?.getD []

/-- `[[ -d w ]]` -/
def testD (fs : FS) (cwd : Path) (w : PathWord) : Bool :=
  (resolve fs cwd w).any fun p => isDir fs p

/-- `[[ -f w ]]` -/
def testF (fs : FS) (cwd : Path) (w : PathWord) : Bool :=
  (resolve fs cwd w).any fun p => isFile fs p

/-- Where a file can be created or overwritten under the word `w`. -/
def fileTarget (fs : FS) (cwd : Path) (w : PathWord) : Option Path :=
  (resolve fs cwd w).filter fun p => IsName (lastName w) ∧ isDir fs p = false

/-- The content of the file at a path. -/
def contentOf (fs : FS) (p : Path) : Option Text := (dataAt fs p).map File.content

/-- The content of the file that a word leads to. -/
def contentAt (fs : FS) (w : PathWord) : Option Text :=
  ((resolve fs [] w).bind (dataAt fs)).map File.content

/-- The same in a current directory. -/
def contentFrom (fs : FS) (cwd : Path) (w : PathWord) : Option Text :=
  ((resolve fs cwd w).bind (dataAt fs)).map File.content

/-! ## Walks -/

theorem step_of_isName {n : Text} (h : IsName n) (cur : Path) : step cur n = cur ++ [n] := by
  simp [step, h.1, h.2.1, h.2.2]

theorem visited_ne_nil (cur : Path) (ns : List Text) : visited cur ns ≠ [] := by
  cases ns <;> simp [visited]

theorem start_mem_visited (cur : Path) (ns : List Text) : cur ∈ visited cur ns := by
  cases ns <;> simp [visited]

theorem end_mem_visited (cur : Path) (ns : List Text) : ns.foldl step cur ∈ visited cur ns := by
  induction ns generalizing cur with
  | nil => simp [visited]
  | cons n ns ih => simp [visited, ih]

/-- A walk succeeds when all it passes before its end are directories. -/
theorem walk_eq_some_iff {fs : FS} {cur p : Path} {ns : List Text} :
    walk fs cur ns = some p ↔
      p = ns.foldl step cur ∧ ∀ q ∈ (visited cur ns).dropLast, isDir fs q = true := by
  induction ns generalizing cur with
  | nil =>
    simp only [walk, visited, Option.some.injEq, List.foldl_nil]
    exact ⟨fun h => ⟨h.symm, by simp⟩, fun h => h.1.symm⟩
  | cons n ns ih =>
    have hdrop : (visited cur (n :: ns)).dropLast = cur :: (visited (step cur n) ns).dropLast :=
      List.dropLast_cons_of_ne_nil (visited_ne_nil _ _)
    rw [walk, hdrop]
    by_cases h : isDir fs cur = true
    · simp [h, ih]
    · simp [h]

theorem resolve_eq_target {fs : FS} {cwd p : Path} {w : PathWord}
    (h : resolve fs cwd w = some p) : p = target cwd w := by
  unfold resolve at h
  split at h
  · cases h
  · exact (walk_eq_some_iff.mp h).1

/-- One more component leads one step further. -/
theorem target_append_name {n : Text} (h : IsName n) (cwd : Path) (w : PathWord) :
    target cwd (w ++ [n]) = target cwd w ++ [n] := by
  have hstart : startOf cwd (w ++ [n]) = ((startOf cwd w).1, (startOf cwd w).2 ++ [n]) := by
    rcases w with _ | ⟨_ | ⟨a, as⟩, ns⟩
    · obtain ⟨a, as, rfl⟩ := List.exists_cons_of_ne_nil h.1
      rfl
    · rfl
    · rfl
  rw [target, hstart, List.foldl_append, target]
  exact step_of_isName h _

theorem lastName_append {v w : PathWord} (h : w ≠ []) : lastName (v ++ w) = lastName w := by
  rw [lastName, List.getLast?_append_of_ne_nil v h, lastName]

@[simp] theorem lastName_snoc (v : PathWord) (n : Text) : lastName (v ++ [n]) = n := by
  simp [lastName]

theorem pathWord_ne_nil (t : Text) : pathWord t ≠ [] := List.splitOn_ne_nil _ _

theorem pathWord_eq_singleton {t : Text} (h : '/' ∉ t) : pathWord t = [t] :=
  List.splitOn_eq_singleton h

/-- What precedes a slash is no part of the last component. -/
theorem lastName_pathWord_slash (x y : Text) :
    lastName (pathWord (x ++ '/' :: y)) = lastName (pathWord y) := by
  rw [pathWord, List.splitOn_append_cons_self]
  exact lastName_append (pathWord_ne_nil y)

/-- What is appended to a word without a slash is appended to its last component. -/
theorem lastName_pathWord_append (x : Text) {y : Text} (h : '/' ∉ y) :
    lastName (pathWord (x ++ y)) = lastName (pathWord x) ++ y := by
  induction hn : x.length using Nat.strong_induction_on generalizing x with
  | _ n ih =>
    by_cases hx : '/' ∈ x
    · obtain ⟨u, v, rfl⟩ := List.append_of_mem hx
      have hlen : v.length < n := by
        rw [← hn, List.length_append, List.length_cons]
        omega
      rw [List.append_assoc, List.cons_append, lastName_pathWord_slash, lastName_pathWord_slash,
        ih v.length hlen v rfl]
    · have hxy : '/' ∉ x ++ y := by simp [hx, h]
      rw [pathWord, List.splitOn_eq_singleton hxy, pathWord, List.splitOn_eq_singleton hx]
      rfl

theorem visited_append (cur : Path) (ns ms : List Text) :
    visited cur (ns ++ ms) = (visited cur ns).dropLast ++ visited (ns.foldl step cur) ms := by
  induction ns generalizing cur with
  | nil => simp [visited]
  | cons n ns ih =>
    rw [List.cons_append, visited, ih, visited, List.dropLast_cons_of_ne_nil (visited_ne_nil _ _)]
    rfl

theorem getLast_visited (cur : Path) (ns : List Text) :
    (visited cur ns).getLast (visited_ne_nil cur ns) = ns.foldl step cur := by
  induction ns generalizing cur with
  | nil => rfl
  | cons n ns ih =>
    simp only [visited, List.foldl_cons, List.getLast_cons (visited_ne_nil _ _), ih]

/-- All but the end is passed on the way to the last component. -/
theorem dropLast_visited_snoc (cur : Path) (ns : List Text) (n : Text) :
    (visited cur (ns ++ [n])).dropLast = visited cur ns := by
  have hend : visited (ns.foldl step cur) [n] = [ns.foldl step cur] ++ [step (ns.foldl step cur) n] :=
    rfl
  rw [visited_append, hend, ← List.append_assoc, List.dropLast_concat, ← getLast_visited]
  exact List.dropLast_append_getLast (visited_ne_nil _ _)

/-- Names lead down, and pass what is in front of their end. -/
theorem foldl_step_of_isName {ns : List Text} (h : ∀ n ∈ ns, IsName n) (cur : Path) :
    ns.foldl step cur = cur ++ ns := by
  induction ns generalizing cur with
  | nil => simp
  | cons n ns ih =>
    rw [List.foldl_cons, ih (fun k hk => h k (by simp [hk])), step_of_isName (h n (by simp))]
    simp

theorem prefix_of_mem_visited {ns : List Text} (h : ∀ n ∈ ns, IsName n) {cur p : Path}
    (hp : p ∈ visited cur ns) : p <+: cur ++ ns := by
  induction ns generalizing cur with
  | nil =>
    rw [visited, List.mem_singleton] at hp
    simp [hp]
  | cons n ns ih =>
    rcases List.mem_cons.mp hp with rfl | hp
    · exact List.prefix_append _ _
    · have hp := ih (fun k hk => h k (by simp [hk])) hp
      rw [step_of_isName (h n (by simp)), List.append_assoc] at hp
      exact hp

/-! ## Walks without `..` -/

theorem prefix_step {n : Text} (h : n ≠ ['.', '.']) (cur : Path) : cur <+: step cur n := by
  rw [step, if_neg h]
  split
  · exact List.prefix_rfl
  · exact List.prefix_append _ _

/-- Without `..` a walk does not go back. -/
theorem prefix_foldl_step {ns : List Text} (h : ['.', '.'] ∉ ns) (cur : Path) :
    cur <+: ns.foldl step cur := by
  induction ns generalizing cur with
  | nil => exact List.prefix_rfl
  | cons n ns ih =>
    rw [List.mem_cons, not_or] at h
    exact (prefix_step (Ne.symm h.1) cur).trans (ih h.2 _)

theorem prefix_foldl_step_of_mem_visited {ns : List Text} (h : ['.', '.'] ∉ ns) {cur p : Path}
    (hp : p ∈ visited cur ns) : p <+: ns.foldl step cur := by
  induction ns generalizing cur with
  | nil =>
    rw [visited, List.mem_singleton] at hp
    rw [hp]
    exact List.prefix_rfl
  | cons n ns ih =>
    rcases List.mem_cons.mp hp with rfl | hp
    · exact prefix_foldl_step h _
    · rw [List.mem_cons, not_or] at h
      exact ih h.2 hp

/-- What a walk passes on the way further down is on the way to a directory, or below it. -/
theorem prefix_or_prefix_of_mem_visited {ns ms : List Text} (hns : ['.', '.'] ∉ ns)
    (hms : ['.', '.'] ∉ ms) {cur p : Path} (hp : p ∈ visited cur (ns ++ ms)) :
    p <+: ns.foldl step cur ∨ ns.foldl step cur <+: p := by
  have hnsms : ['.', '.'] ∉ ns ++ ms := by simp [hns, hms]
  have hend := prefix_foldl_step_of_mem_visited hnsms hp
  rw [List.foldl_append] at hend
  exact List.prefix_or_prefix_of_prefix hend (prefix_foldl_step hms _)

theorem length_step_le (cur : Path) (n : Text) : (step cur n).length ≤ cur.length + 1 := by
  unfold step
  split
  · omega
  · split
    · rw [List.length_dropLast]
      omega
    · rw [List.length_append, List.length_singleton]

/-- A walk passes all that is on the way to its end. -/
theorem mem_visited_of_between {ns : List Text} (h : ['.', '.'] ∉ ns) {cur q : Path}
    (hcur : cur <+: q) (hq : q <+: ns.foldl step cur) : q ∈ visited cur ns := by
  induction ns generalizing cur with
  | nil =>
    rw [visited, List.mem_singleton]
    exact hq.eq_of_length (le_antisymm hq.length_le hcur.length_le)
  | cons n ns ih =>
    rw [List.mem_cons, not_or] at h
    rw [visited, List.mem_cons]
    by_cases hne : q = cur
    · exact Or.inl hne
    · refine Or.inr (ih h.2 ?_ hq)
      have hlt : cur.length < q.length :=
        lt_of_le_of_ne hcur.length_le fun he => hne (hcur.eq_of_length he).symm
      have hlen : (step cur n).length ≤ q.length := (length_step_le cur n).trans hlt
      exact List.prefix_of_prefix_length_le (prefix_foldl_step h.2 _) hq hlen

theorem prefix_start_of_mem_visited {ns : List Text} (h : ['.', '.'] ∉ ns) {cur p : Path}
    (hp : p ∈ visited cur ns) : cur <+: p := by
  induction ns generalizing cur with
  | nil =>
    rw [visited, List.mem_singleton] at hp
    rw [hp]
  | cons n ns ih =>
    rw [List.mem_cons, not_or] at h
    rcases List.mem_cons.mp hp with rfl | hp
    · exact List.prefix_rfl
    · exact (prefix_step (Ne.symm h.1) cur).trans (ih h.2 hp)

/-- What is on the way to something that a walk passes, it has passed before. -/
theorem mem_of_visited_eq {ns : List Text} (h : ['.', '.'] ∉ ns) {cur p q : Path}
    {l l' : List Path} (heq : visited cur ns = l ++ p :: l') (hcur : cur <+: q) (hq : q <+: p)
    (hne : q ≠ p) : q ∈ l := by
  have hnot : p ≠ cur := by
    rintro rfl
    exact hne (hq.eq_of_length (le_antisymm hq.length_le hcur.length_le))
  induction ns generalizing cur l with
  | nil =>
    rw [visited] at heq
    have hmem : p ∈ [cur] := by rw [heq]; simp
    exact absurd (List.mem_singleton.mp hmem) hnot
  | cons n ns ih =>
    rw [List.mem_cons, not_or] at h
    rw [visited] at heq
    cases l with
    | nil => exact absurd (List.cons.inj heq).1.symm hnot
    | cons r l =>
      rw [List.cons_append, List.cons.injEq] at heq
      obtain ⟨rfl, heq⟩ := heq
      by_cases hqcur : q = cur
      · simp [hqcur]
      · have hlt : cur.length < q.length :=
          lt_of_le_of_ne hcur.length_le fun he => hqcur (hcur.eq_of_length he).symm
        have hstep : step cur n <+: p :=
          prefix_start_of_mem_visited h.2 (by rw [heq]; simp)
        have hstepq : step cur n <+: q :=
          List.prefix_of_prefix_length_le hstep hq ((length_step_le cur n).trans hlt)
        refine List.mem_cons_of_mem _ (ih h.2 heq hstepq ?_)
        rintro rfl
        exact hne (hq.eq_of_length (le_antisymm hq.length_le hstepq.length_le))

/-- What is passed on the way to a word is passed on the way below it. -/
theorem mem_visited_append {cur p : Path} {ns : List Text} (h : p ∈ visited cur ns)
    (ms : List Text) : p ∈ visited cur (ns ++ ms) := by
  rw [visited_append, List.mem_append]
  rw [← List.dropLast_append_getLast (visited_ne_nil cur ns)] at h
  rcases List.mem_append.mp h with h | h
  · exact Or.inl h
  · right
    rw [List.mem_singleton.mp h, getLast_visited]
    exact start_mem_visited _ ms

theorem testF_eq_true_iff {fs : FS} {cwd : Path} {w : PathWord} :
    testF fs cwd w = true ↔ ∃ p, resolve fs cwd w = some p ∧ isFile fs p = true := by
  rw [testF, Option.any_eq_true]

theorem testD_eq_true_iff {fs : FS} {cwd : Path} {w : PathWord} :
    testD fs cwd w = true ↔ ∃ p, resolve fs cwd w = some p ∧ isDir fs p = true := by
  rw [testD, Option.any_eq_true]

theorem fileTarget_eq_some_iff {fs : FS} {cwd p : Path} {w : PathWord} :
    fileTarget fs cwd w = some p ↔
      resolve fs cwd w = some p ∧ IsName (lastName w) ∧ isDir fs p = false := by
  simp [fileTarget, Option.filter_eq_some_iff]

/-- A word leads to the same where the same are directories of what is passed. -/
theorem walk_congr {fs fs' : FS} {cur : Path} {ns : List Text}
    (h : ∀ p ∈ visited cur ns, isDir fs' p = isDir fs p) : walk fs' cur ns = walk fs cur ns := by
  induction ns generalizing cur with
  | nil => rfl
  | cons n ns ih =>
    rw [walk, walk, h cur (start_mem_visited _ _), ih fun p hp => h p (by simp [visited, hp])]

theorem testF_congr {fs fs' : FS} {cwd : Path} {w : PathWord}
    (h : ∀ p ∈ visited (startOf cwd w).1 (startOf cwd w).2, fs' p = fs p) :
    testF fs' cwd w = testF fs cwd w := by
  have hresolve : resolve fs' cwd w = resolve fs cwd w := by
    rw [resolve, resolve, walk_congr fun p hp => isDir_congr (h p hp)]
  rw [testF, testF, hresolve]
  cases hp : resolve fs cwd w with
  | none => rfl
  | some p =>
    refine isFile_congr (h p ?_)
    rw [resolve_eq_target hp]
    exact end_mem_visited _ _

/-- A walk stays possible while the tree grows. -/
theorem resolve_of_grows {fs fs' : FS} (h : Grows fs fs') {cwd p : Path} {w : PathWord}
    (hw : resolve fs cwd w = some p) : resolve fs' cwd w = some p := by
  unfold resolve at hw ⊢
  split at hw
  · cases hw
  · next hne =>
    rw [if_neg hne]
    obtain ⟨hp, hdirs⟩ := walk_eq_some_iff.mp hw
    exact walk_eq_some_iff.mpr ⟨hp, fun q hq => isDir_iff.mpr ((h q).1 (isDir_iff.mp (hdirs q hq)))⟩

theorem testF_of_grows {fs fs' : FS} (h : Grows fs fs') {cwd : Path} {w : PathWord}
    (hw : testF fs cwd w = true) : testF fs' cwd w = true := by
  obtain ⟨p, hp, hfile⟩ := testF_eq_true_iff.mp hw
  exact testF_eq_true_iff.mpr ⟨p, resolve_of_grows h hp, (h p).2 hfile⟩

/-- A walk that is possible in a tree is possible in one that it is within. -/
theorem resolve_of_within {γ : Type} {view : File → γ} {fs fs' : FS} (h : Within view fs fs')
    {cwd p : Path} {w : PathWord} (hw : resolve fs cwd w = some p) : resolve fs' cwd w = some p := by
  unfold resolve at hw ⊢
  split at hw
  · cases hw
  · next hne =>
    rw [if_neg hne]
    obtain ⟨hp, hdirs⟩ := walk_eq_some_iff.mp hw
    exact walk_eq_some_iff.mpr ⟨hp, fun q hq => isDir_iff.mpr (h.dir (isDir_iff.mp (hdirs q hq)))⟩

/-- What is created under a word has the word's last component for its name. -/
theorem exists_of_fileTarget {fs : FS} {cwd p : Path} {w : PathWord}
    (h : fileTarget fs cwd w = some p) : ∃ d, p = d ++ [lastName w] := by
  obtain ⟨hr, hname, -⟩ := fileTarget_eq_some_iff.mp h
  have hp := resolve_eq_target hr
  have hw : w ≠ [] := by
    rintro rfl
    exact hname.1 rfl
  have hlast : lastName w = w.getLast hw := by simp [lastName, List.getLast?_eq_getLast_of_ne_nil hw]
  have hns : ∃ ns, (startOf cwd w).2 = ns ++ [lastName w] := by
    rw [hlast]
    rcases w with _ | ⟨n, ns⟩
    · exact absurd rfl hw
    · cases n with
      | nil =>
        cases ns with
        | nil => simp [lastName, IsName] at hname
        | cons m ms =>
          refine ⟨(m :: ms).dropLast, ?_⟩
          simp [startOf, List.dropLast_append_getLast]
      | cons c cs =>
        refine ⟨((c :: cs) :: ns).dropLast, ?_⟩
        simp only [startOf]
        exact (List.dropLast_append_getLast hw).symm
  obtain ⟨ns, hns⟩ := hns
  refine ⟨ns.foldl step (startOf cwd w).1, ?_⟩
  rw [hp, target, hns, List.foldl_append]
  exact step_of_isName hname _

/-! ## Absolute words -/

/-- The word begins with a slash. -/
def IsAbsolute (w : PathWord) : Prop := ∃ ns, w = [] :: ns

section Absolute

variable {w : PathWord} {fs : FS} {cwd d : Path}

theorem IsAbsolute.append (h : IsAbsolute w) (v : PathWord) : IsAbsolute (w ++ v) := by
  obtain ⟨ns, rfl⟩ := h
  exact ⟨ns ++ v, rfl⟩

/-- An absolute word means the same everywhere. -/
theorem IsAbsolute.startOf_eq (h : IsAbsolute w) : startOf cwd w = startOf d w := by
  obtain ⟨ns, rfl⟩ := h
  rfl

theorem IsAbsolute.target_eq (h : IsAbsolute w) : target cwd w = target d w := by
  rw [target, target, h.startOf_eq (d := d)]

theorem IsAbsolute.resolve_eq (h : IsAbsolute w) : resolve fs cwd w = resolve fs d w := by
  rw [resolve, resolve, h.startOf_eq (d := d)]

theorem IsAbsolute.testF_eq (h : IsAbsolute w) : testF fs cwd w = testF fs d w := by
  rw [testF, testF, h.resolve_eq (d := d)]

theorem IsAbsolute.testD_eq (h : IsAbsolute w) : testD fs cwd w = testD fs d w := by
  rw [testD, testD, h.resolve_eq (d := d)]

theorem IsAbsolute.fileTarget_eq (h : IsAbsolute w) : fileTarget fs cwd w = fileTarget fs d w := by
  rw [fileTarget, fileTarget, h.resolve_eq (d := d)]

theorem IsAbsolute.contentFrom_eq (h : IsAbsolute w) : contentFrom fs cwd w = contentAt fs w := by
  rw [contentFrom, contentAt, h.resolve_eq (d := [])]

/-- A word goes on from the target of its front. -/
theorem IsAbsolute.target_append (h : IsAbsolute w) (v : PathWord) (cwd : Path) :
    target cwd (w ++ v) = v.foldl step (target [] w) := by
  obtain ⟨ns, rfl⟩ := h
  simp [target, startOf, List.foldl_append]

/-- Without `..` it leads to or below that. -/
theorem IsAbsolute.prefix_of_resolve (h : IsAbsolute w) {v : PathWord} (hv : ['.', '.'] ∉ v)
    {p : Path} (hp : resolve fs cwd (w ++ v) = some p) : target [] w <+: p := by
  rw [resolve_eq_target hp, h.target_append]
  exact prefix_foldl_step hv _

theorem IsAbsolute.prefix_of_fileTarget (h : IsAbsolute w) {v : PathWord} (hv : ['.', '.'] ∉ v)
    {p : Path} (hp : fileTarget fs cwd (w ++ v) = some p) : target [] w <+: p :=
  h.prefix_of_resolve hv (fileTarget_eq_some_iff.mp hp).1

theorem IsAbsolute.testF_of_grows {fs' : FS} (h : IsAbsolute w) (hgrows : Grows fs fs')
    (hw : testF fs cwd w = true) : testF fs' d w = true := by
  rw [h.testF_eq (d := cwd)]
  exact RedisCluster.testF_of_grows hgrows hw

theorem IsAbsolute.testF_of_within {γ : Type} {view : File → γ} {fs' : FS} (h : IsAbsolute w)
    (hwithin : Within view fs fs') (hw : testF fs cwd w = true) : testF fs' d w = true := by
  obtain ⟨p, hp, hfile⟩ := testF_eq_true_iff.mp hw
  rw [h.testF_eq (d := cwd)]
  exact testF_eq_true_iff.mpr ⟨p, resolve_of_within hwithin hp, hwithin.isFile_of hfile⟩

end Absolute

end RedisCluster
