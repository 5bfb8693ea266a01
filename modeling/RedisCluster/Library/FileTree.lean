import Mathlib.Data.List.Infix
import Mathlib.Data.Set.Basic
import Mathlib.Order.Basic

/-!
# File trees

A tree maps every path (a list of names, from the root) to the node that is
there, if any: a directory, or a file with its data. Nothing forces a node to
have its parents; the operations that make nodes look at what they need.

* `set`, `removeBelow`, `makeDirs`, `copyBelow`, `confine`, `overlay`: the updates
  that the file commands of a script are made of.
* `Changes A B`: a frame. Every path outside `A` is left as it was, except that
  missing directories may have appeared at the paths of `B`.
* `Grows`: directories stay directories and files stay files.
* `Within`: what is in one tree is in another, and looks the same.
-/

namespace FileTree

variable {κ β : Type}

/-- What a path can lead to. -/
inductive Node (β : Type) where
  | dir
  | file (data : β)
  deriving DecidableEq

/-- A file tree with names in `κ` and file data in `β`. -/
abbrev Tree (κ β : Type) := List κ → Option (Node β)

/-- There is a directory at `p`. -/
def isDir (t : Tree κ β) (p : List κ) : Bool :=
  match t p with
  | some .dir => true
  | _ => false

/-- There is a file at `p`. -/
def isFile (t : Tree κ β) (p : List κ) : Bool :=
  match t p with
  | some (.file _) => true
  | _ => false

/-- The data of the file at `p`. -/
def dataAt (t : Tree κ β) (p : List κ) : Option β :=
  match t p with
  | some (.file d) => some d
  | _ => none

theorem isDir_iff {t : Tree κ β} {p : List κ} : isDir t p = true ↔ t p = some .dir := by
  unfold isDir
  split <;> simp_all

theorem isFile_iff {t : Tree κ β} {p : List κ} :
    isFile t p = true ↔ ∃ d, t p = some (.file d) := by
  unfold isFile
  split <;> simp_all

theorem dataAt_eq_some_iff {t : Tree κ β} {p : List κ} {d : β} :
    dataAt t p = some d ↔ t p = some (.file d) := by
  unfold dataAt
  split <;> simp_all

theorem isFile_eq_false_iff {t : Tree κ β} {p : List κ} :
    isFile t p = false ↔ ∀ d, t p ≠ some (.file d) := by
  rw [← Bool.not_eq_true, isFile_iff]
  simp

theorem isDir_of_isFile {t : Tree κ β} {p : List κ} (h : isFile t p = true) :
    isDir t p = false := by
  obtain ⟨d, hd⟩ := isFile_iff.mp h
  simp [isDir, hd]

theorem isFile_congr {t t' : Tree κ β} {p : List κ} (h : t p = t' p) :
    isFile t p = isFile t' p := by
  unfold isFile
  rw [h]

theorem isDir_congr {t t' : Tree κ β} {p : List κ} (h : t p = t' p) :
    isDir t p = isDir t' p := by
  unfold isDir
  rw [h]

theorem dataAt_congr {t t' : Tree κ β} {p : List κ} (h : t p = t' p) :
    dataAt t p = dataAt t' p := by
  unfold dataAt
  rw [h]

section Updates

variable [DecidableEq κ]

/-- Put `n` at `p`. -/
def set (t : Tree κ β) (p : List κ) (n : Node β) : Tree κ β :=
  fun q => if q = p then some n else t q

/-- Remove `d` and all below it. -/
def removeBelow (t : Tree κ β) (d : List κ) : Tree κ β :=
  fun q => if d <+: q then none else t q

/-- Make the directories `ps` in turn, those that are missing; stop at a file. -/
def makeDirs (t : Tree κ β) : List (List κ) → Tree κ β × Bool
  | [] => (t, true)
  | p :: ps =>
    match t p with
    | none => makeDirs (set t p .dir) ps
    | some .dir => makeDirs t ps
    | some (.file _) => (t, false)

/-- Put a copy of all that is at and below `src` at `dst`; what is there already
    and has no counterpart below `src` stays. -/
def copyBelow (t : Tree κ β) (src dst : List κ) : Tree κ β :=
  fun q =>
    if dst <+: q then
      match t (src ++ q.drop dst.length) with
      | some n => some n
      | none => t q
    else t q

/-- Run `f` on the part of the tree in `region`, and let it change only that part. -/
def confine {γ : Type} (region : List κ → Bool) (f : Tree κ β → Tree κ β × γ) (t : Tree κ β) :
    Tree κ β × γ :=
  let r := f fun p => if region p then t p else none
  (fun p => if region p then r.1 p else t p, r.2)

/-- The nodes of `left` in `region`, and those of `t` elsewhere. -/
def overlay (region : List κ → Bool) (left t : Tree κ β) : Tree κ β :=
  fun p => if region p then left p else t p

@[simp] theorem set_same (t : Tree κ β) (p : List κ) (n : Node β) : set t p n p = some n := by
  simp [set]

theorem set_of_ne {t : Tree κ β} {p q : List κ} {n : Node β} (h : q ≠ p) :
    set t p n q = t q := by
  simp [set, h]

theorem removeBelow_of_not_below {t : Tree κ β} {d q : List κ} (h : ¬ d <+: q) :
    removeBelow t d q = t q := by
  simp [removeBelow, h]

theorem makeDirs_cons_of_none {t : Tree κ β} {p : List κ} (h : t p = none) (ps : List (List κ)) :
    makeDirs t (p :: ps) = makeDirs (set t p .dir) ps := by rw [makeDirs, h]

theorem makeDirs_cons_of_dir {t : Tree κ β} {p : List κ} (h : t p = some .dir)
    (ps : List (List κ)) : makeDirs t (p :: ps) = makeDirs t ps := by rw [makeDirs, h]

theorem makeDirs_cons_of_file {t : Tree κ β} {p : List κ} {d : β} (h : t p = some (.file d))
    (ps : List (List κ)) : makeDirs t (p :: ps) = (t, false) := by rw [makeDirs, h]

/-- What `makeDirs` leaves at a path: what was there, or a directory where
    nothing was. -/
theorem makeDirs_at (t : Tree κ β) (ps : List (List κ)) (q : List κ) :
    (makeDirs t ps).1 q = t q ∨ (q ∈ ps ∧ t q = none ∧ (makeDirs t ps).1 q = some .dir) := by
  induction ps generalizing t with
  | nil => exact Or.inl rfl
  | cons p ps ih =>
    rw [makeDirs]
    split
    · next hp =>
      by_cases hq : q = p
      · subst hq
        right
        refine ⟨by simp, hp, ?_⟩
        rcases ih (set t q .dir) with h | h
        · simpa using h
        · simp at h
      · rcases ih (set t p .dir) with h | h
        · left
          rw [h, set_of_ne hq]
        · right
          rw [set_of_ne hq] at h
          exact ⟨by simp [h.1], h.2⟩
    · rcases ih t with h | h
      · exact Or.inl h
      · exact Or.inr ⟨by simp [h.1], h.2⟩
    · exact Or.inl rfl

/-- `makeDirs` succeeds when none of the paths is a file. -/
theorem makeDirs_ok_iff (t : Tree κ β) (ps : List (List κ)) :
    (makeDirs t ps).2 = true ↔ ∀ p ∈ ps, isFile t p = false := by
  induction ps generalizing t with
  | nil => simp [makeDirs]
  | cons p ps ih =>
    rw [makeDirs]
    split
    · next hp =>
      rw [ih]
      constructor
      · intro h q hq
        by_cases hqp : q = p
        · subst hqp
          simp [isFile, hp]
        · have hq' := h q (by simpa [hqp] using hq)
          rwa [isFile_congr (set_of_ne hqp)] at hq'
      · intro h q hq
        by_cases hqp : q = p
        · subst hqp
          simp [isFile]
        · rw [isFile_congr (set_of_ne hqp)]
          exact h q (by simp [hq])
    · next hp =>
      rw [ih]
      have : isFile t p = false := by simp [isFile, hp]
      simp [this]
    · next hp =>
      have : isFile t p = true := by simp [isFile, hp]
      simp [this]

/-- After a completed `makeDirs` its paths are directories. -/
theorem makeDirs_isDir {t : Tree κ β} {ps : List (List κ)} (hok : (makeDirs t ps).2 = true)
    {p : List κ} (hp : p ∈ ps) : (makeDirs t ps).1 p = some .dir := by
  induction ps generalizing t with
  | nil => simp at hp
  | cons q ps ih =>
    rw [makeDirs] at hok ⊢
    rcases hq : t q with _ | _ | d <;> simp only [hq] at hok ⊢
    · rcases List.mem_cons.mp hp with rfl | hp
      · rcases makeDirs_at (set t p .dir) ps p with h | h
        · simpa using h
        · exact h.2.2
      · exact ih hok hp
    · rcases List.mem_cons.mp hp with rfl | hp
      · rcases makeDirs_at t ps p with h | h
        · rw [h, hq]
        · exact h.2.2
      · exact ih hok hp
    · simp at hok

end Updates

/-! ## Frames -/

/-- From `t` to `t'` only the paths in `A` have changed, except that missing
    directories may have been made at the paths in `B`. -/
def Changes (A B : Set (List κ)) (t t' : Tree κ β) : Prop :=
  ∀ p, t' p = t p ∨ p ∈ A ∨ (p ∈ B ∧ t p = none ∧ t' p = some .dir)

theorem Changes.refl (A B : Set (List κ)) (t : Tree κ β) : Changes A B t t :=
  fun _ => Or.inl rfl

theorem Changes.trans {A B : Set (List κ)} {t t' t'' : Tree κ β} (h : Changes A B t t')
    (h' : Changes A B t' t'') : Changes A B t t'' := by
  intro p
  rcases h p with e | hA | ⟨hB, hn, hd⟩
  · rcases h' p with e' | hA | ⟨hB, hn, hd⟩
    · exact Or.inl (e'.trans e)
    · exact Or.inr (Or.inl hA)
    · exact Or.inr (Or.inr ⟨hB, e ▸ hn, hd⟩)
  · exact Or.inr (Or.inl hA)
  · rcases h' p with e' | hA | ⟨_, hn', _⟩
    · exact Or.inr (Or.inr ⟨hB, hn, e'.trans hd⟩)
    · exact Or.inr (Or.inl hA)
    · rw [hd] at hn'
      cases hn'

theorem Changes.mono {A A' B B' : Set (List κ)} {t t' : Tree κ β} (h : Changes A B t t')
    (hA : ∀ p ∈ A, p ∈ A') (hB : ∀ p ∈ B, p ∈ A' ∨ p ∈ B') : Changes A' B' t t' := by
  intro p
  rcases h p with e | h | ⟨h, hn, hd⟩
  · exact Or.inl e
  · exact Or.inr (Or.inl (hA p h))
  · rcases hB p h with hp | hp
    · exact Or.inr (Or.inl hp)
    · exact Or.inr (Or.inr ⟨hp, hn, hd⟩)

/-- A path outside both sets is left as it was. -/
theorem Changes.eq_of_not_mem {A B : Set (List κ)} {t t' : Tree κ β} (h : Changes A B t t')
    {p : List κ} (hA : p ∉ A) (hB : p ∉ B) : t' p = t p := by
  rcases h p with e | h | h
  · exact e
  · exact absurd h hA
  · exact absurd h.1 hB

/-- Outside `A` the files are the same. -/
theorem Changes.isFile_eq {A B : Set (List κ)} {t t' : Tree κ β} (h : Changes A B t t')
    {p : List κ} (hA : p ∉ A) : isFile t' p = isFile t p := by
  rcases h p with e | h | ⟨_, hn, hd⟩
  · exact isFile_congr e
  · exact absurd h hA
  · simp [isFile, hn, hd]

/-- Outside `A` the files have the same data. -/
theorem Changes.dataAt_eq {A B : Set (List κ)} {t t' : Tree κ β} (h : Changes A B t t')
    {p : List κ} (hA : p ∉ A) : dataAt t' p = dataAt t p := by
  rcases h p with e | h | ⟨_, hn, hd⟩
  · unfold dataAt
    rw [e]
  · exact absurd h hA
  · simp [dataAt, hn, hd]

section FrameOfUpdates

variable [DecidableEq κ]

theorem changes_set {A B : Set (List κ)} (t : Tree κ β) {p : List κ} (n : Node β) (h : p ∈ A) :
    Changes A B t (set t p n) := by
  intro q
  by_cases hq : q = p
  · subst hq
    exact Or.inr (Or.inl h)
  · exact Or.inl (set_of_ne hq)

theorem changes_removeBelow {A B : Set (List κ)} (t : Tree κ β) {d : List κ}
    (h : ∀ p, d <+: p → p ∈ A) : Changes A B t (removeBelow t d) := by
  intro q
  by_cases hq : d <+: q
  · exact Or.inr (Or.inl (h q hq))
  · exact Or.inl (removeBelow_of_not_below hq)

theorem changes_makeDirs {A B : Set (List κ)} (t : Tree κ β) {ps : List (List κ)}
    (h : ∀ p ∈ ps, p ∈ B) : Changes A B t (makeDirs t ps).1 := by
  intro q
  rcases makeDirs_at t ps q with e | ⟨hq, hn, hd⟩
  · exact Or.inl e
  · exact Or.inr (Or.inr ⟨h q hq, hn, hd⟩)

theorem changes_copyBelow {A B : Set (List κ)} (t : Tree κ β) {src dst : List κ}
    (h : ∀ p, dst <+: p → p ∈ A) : Changes A B t (copyBelow t src dst) := by
  intro q
  by_cases hq : dst <+: q
  · exact Or.inr (Or.inl (h q hq))
  · exact Or.inl (by simp [copyBelow, hq])

end FrameOfUpdates

theorem changes_confine {γ : Type} {A B : Set (List κ)} (t : Tree κ β) {region : List κ → Bool}
    (f : Tree κ β → Tree κ β × γ) (h : ∀ p, region p = true → p ∈ A) :
    Changes A B t (confine region f t).1 := by
  intro q
  by_cases hq : region q = true
  · exact Or.inr (Or.inl (h q hq))
  · exact Or.inl (by simp [confine, hq])

theorem changes_overlay {A B : Set (List κ)} (t left : Tree κ β) {region : List κ → Bool}
    (h : ∀ p, region p = true → p ∈ A) : Changes A B t (overlay region left t) := by
  intro q
  by_cases hq : region q = true
  · exact Or.inr (Or.inl (h q hq))
  · exact Or.inl (by simp [overlay, hq])

/-! ## Growing trees -/

/-- Directories stay directories and files stay files. -/
def Grows (t t' : Tree κ β) : Prop :=
  ∀ p, (t p = some .dir → t' p = some .dir) ∧ (isFile t p = true → isFile t' p = true)

theorem Grows.refl (t : Tree κ β) : Grows t t := fun _ => ⟨id, id⟩

theorem Grows.trans {t t' t'' : Tree κ β} (h : Grows t t') (h' : Grows t' t'') : Grows t t'' :=
  fun p => ⟨fun hp => (h' p).1 ((h p).1 hp), fun hp => (h' p).2 ((h p).2 hp)⟩

section GrowthOfUpdates

variable [DecidableEq κ]

/-- Writing a file where there is no directory grows the tree. -/
theorem grows_set_file {t : Tree κ β} {p : List κ} (d : β) (h : t p ≠ some .dir) :
    Grows t (set t p (.file d)) := by
  intro q
  by_cases hq : q = p
  · subst hq
    exact ⟨fun hd => absurd hd h, fun _ => by simp [isFile]⟩
  · rw [set_of_ne hq, isFile_congr (set_of_ne hq)]
    exact ⟨id, id⟩

theorem grows_makeDirs (t : Tree κ β) (ps : List (List κ)) : Grows t (makeDirs t ps).1 := by
  intro q
  rcases makeDirs_at t ps q with e | ⟨_, hn, _⟩
  · rw [e, isFile_congr e]
    exact ⟨id, id⟩
  · exact ⟨fun h => by simp [hn] at h, fun h => by simp [isFile, hn] at h⟩

end GrowthOfUpdates

/-! ## Trees within trees -/

section Within

variable {γ : Type} {view : β → γ} {t t' : Tree κ β} {p : List κ}

/-- What a view shows of a node. -/
def Node.map (view : β → γ) : Node β → Node γ
  | .dir => .dir
  | .file d => .file (view d)

/-- What is in `t` is in `t'` too, and looks the same through `view`. -/
def Within (view : β → γ) (t t' : Tree κ β) : Prop :=
  ∀ p, t p = none ∨ (t' p).map (Node.map view) = (t p).map (Node.map view)

theorem Within.refl (view : β → γ) (t : Tree κ β) : Within view t t := fun _ => Or.inr rfl

theorem map_eq_some_dir_iff {n : Option (Node β)} :
    n.map (Node.map view) = some .dir ↔ n = some .dir := by
  rcases n with _ | _ | d <;> simp [Node.map]

theorem Within.dir (h : Within view t t') (hp : t p = some .dir) : t' p = some .dir := by
  rcases h p with h | h
  · rw [hp] at h
    cases h
  · rw [hp] at h
    exact map_eq_some_dir_iff.mp h

/-- The files in `t` look the same in `t'`. -/
theorem Within.dataAt_eq (h : Within view t t') (hp : isFile t p = true) :
    (dataAt t' p).map view = (dataAt t p).map view := by
  obtain ⟨d, hd⟩ := isFile_iff.mp hp
  rcases h p with h | h
  · rw [hd] at h
    cases h
  · rw [hd] at h
    rcases ht' : t' p with _ | _ | d'
    · simp [ht'] at h
    · simp [ht', Node.map] at h
    · simpa [ht', Node.map, dataAt, hd] using h

theorem Within.isFile_of (h : Within view t t') (hp : isFile t p = true) : isFile t' p = true := by
  have hdata := h.dataAt_eq hp
  obtain ⟨d, hd⟩ := isFile_iff.mp hp
  rw [dataAt_eq_some_iff.mpr hd, Option.map_some, Option.map_eq_some_iff] at hdata
  obtain ⟨d', hd', -⟩ := hdata
  exact isFile_iff.mpr ⟨d', dataAt_eq_some_iff.mp hd'⟩

variable [DecidableEq κ]

/-- Writing files that look the same keeps a tree within another. -/
theorem Within.set_file (h : Within view t t') {d d' : β} (hd : view d' = view d) :
    Within view (set t p (.file d)) (set t' p (.file d')) := by
  intro q
  by_cases hq : q = p
  · right
    rw [hq, set_same, set_same, Option.map_some, Option.map_some, Node.map, Node.map, hd]
  · rw [set_of_ne hq, set_of_ne hq]
    exact h q

/-- Directories that can be made in the larger tree can be made in the smaller one. -/
theorem Within.of_makeDirs (h : Within view t t') {ps : List (List κ)}
    (hok : (makeDirs t' ps).2 = true) :
    (makeDirs t ps).2 = true ∧ Within view (makeDirs t ps).1 (makeDirs t' ps).1 := by
  have hok' : (makeDirs t ps).2 = true := by
    rw [makeDirs_ok_iff] at hok ⊢
    intro p hp
    rw [Bool.eq_false_iff]
    intro hfile
    have hp' := hok p hp
    rw [h.isFile_of hfile] at hp'
    cases hp'
  refine ⟨hok', fun p => ?_⟩
  by_cases hp : p ∈ ps
  · right
    rw [makeDirs_isDir hok hp, makeDirs_isDir hok' hp]
  · rcases makeDirs_at t ps p with e | ⟨hmem, -, -⟩
    · rcases makeDirs_at t' ps p with e' | ⟨hmem, -, -⟩
      · rw [e, e']
        exact h p
      · exact absurd hmem hp
    · exact absurd hmem hp

end Within

end FileTree
