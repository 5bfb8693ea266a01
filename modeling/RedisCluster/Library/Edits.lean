import RedisCluster.Library.FileTree
import RedisCluster.Library.StepList

/-!
# Edits of a tree

What a step does at one path: it makes a directory, puts or lays a file there, or marks the
file. A file that is put over another one takes something over from it (its mode, say), and
a mark stays through that.

* `runAt_runAt`: edits that fit where they are made do nothing when they are made again.
* `Repeatable`: a script makes the same edits wherever what it has left is still there.
* `repeatable_forEach`, `Repeatable.again_same`: a list of such steps, run on the tree that it has
  left, comes to its end and leaves that tree.
-/

namespace FileTree

/-- `putOver d e` is the data `d` put over a file with the data `e`; `mark` marks a file. -/
class Overwrite (β : Type) where
  putOver : β → β → β
  mark : β → β
  putOver_self : ∀ d, putOver d d = d
  putOver_putOver : ∀ d e f, putOver d (putOver e f) = putOver d f
  mark_putOver : ∀ d e, mark (putOver d e) = putOver d (mark e)
  mark_mark : ∀ d, mark (mark d) = mark d

/-- What is done at one path. -/
inductive Edit (β : Type) where
  | dir
  | put (d : β)
  | mark
  | lay (d : β)

variable {κ β : Type} [Overwrite β]

open Overwrite

namespace Edit

/-- What an edit makes of what is there. -/
def apply : Edit β → Option (Node β) → Option (Node β)
  | .dir, none => some .dir
  | .dir, some n => some n
  | .put d, some (.file e) => some (.file (putOver d e))
  | .put d, _ => some (.file d)
  | .mark, some (.file e) => some (.file (Overwrite.mark e))
  | .mark, v => v
  | .lay d, _ => some (.file d)

omit [Overwrite β] in
/-- No directory is made of a file, no file put over a directory, and only a file marked. -/
def Fits : Edit β → Option (Node β) → Prop
  | .dir, v => ∀ d, v ≠ some (.file d)
  | .put _, v => v ≠ some .dir
  | .mark, v => ∃ d, v = some (.file d)
  | .lay _, v => v ≠ some .dir

end Edit

/-- The edits of a path in turn. -/
def runAt (es : List (Edit β)) (v : Option (Node β)) : Option (Node β) :=
  es.foldl (fun v e => e.apply v) v

/-- Each edit fits what the ones in front of it have made. -/
def FitAll : List (Edit β) → Option (Node β) → Prop
  | [], _ => True
  | e :: es, v => e.Fits v ∧ FitAll es (e.apply v)

/-! ## One path -/

section Path

variable {v w : Option (Node β)} {es : List (Edit β)} {e : Edit β}

theorem runAt_append (es es' : List (Edit β)) (v : Option (Node β)) :
    runAt (es ++ es') v = runAt es' (runAt es v) := List.foldl_append

theorem runAt_snoc (es : List (Edit β)) (e : Edit β) (v : Option (Node β)) :
    runAt (es ++ [e]) v = e.apply (runAt es v) := runAt_append es [e] v

theorem fitAll_append {es' : List (Edit β)} :
    FitAll (es ++ es') v ↔ FitAll es v ∧ FitAll es' (runAt es v) := by
  induction es generalizing v with
  | nil => simp [FitAll, runAt]
  | cons e es ih =>
    rw [List.cons_append, FitAll, FitAll, ih, and_assoc]
    rfl

/-- An edit that fits leaves something. -/
theorem Edit.apply_ne_none (h : e.Fits v) : e.apply v ≠ none := by
  cases e with
  | dir => cases v <;> simp [Edit.apply]
  | put d => rcases v with _ | _ | _ <;> simp [Edit.apply]
  | mark =>
    obtain ⟨d, rfl⟩ := h
    simp [Edit.apply]
  | lay d => simp [Edit.apply]

theorem runAt_ne_none (h : FitAll es v) (hes : es ≠ []) : runAt es v ≠ none := by
  rw [← List.dropLast_append_getLast hes] at h ⊢
  rw [runAt_snoc]
  exact Edit.apply_ne_none (fitAll_append.mp h).2.1

/-- Where nothing is left no edit was made. -/
theorem eq_nil_of_runAt (h : FitAll es v) (hv : runAt es v = none) : es = [] := by
  by_contra hes
  exact runAt_ne_none h hes hv

/-- A directory stays one, and a file stays a file. -/
def Kept (v w : Option (Node β)) : Prop :=
  (v = some .dir → w = some .dir) ∧ ∀ d, v = some (.file d) → ∃ d', w = some (.file d')

omit [Overwrite β] in
theorem Kept.trans {u : Option (Node β)} (h : Kept u v) (h' : Kept v w) : Kept u w := by
  refine ⟨fun hu => h'.1 (h.1 hu), fun d hd => ?_⟩
  obtain ⟨d', hd'⟩ := h.2 d hd
  exact h'.2 d' hd'

/-- Edits that fit take nothing away. -/
theorem Edit.kept (h : e.Fits v) : Kept v (e.apply v) := by
  cases e with
  | dir =>
    constructor
    · rintro rfl
      rfl
    · rintro d rfl
      exact absurd rfl (h d)
  | put f =>
    refine ⟨fun hv => absurd hv h, ?_⟩
    rintro d rfl
    exact ⟨_, rfl⟩
  | mark =>
    obtain ⟨g, rfl⟩ := h
    exact ⟨by simp, fun _ _ => ⟨_, rfl⟩⟩
  | lay f => exact ⟨fun hv => absurd hv h, fun _ _ => ⟨_, rfl⟩⟩

theorem FitAll.kept (h : FitAll es v) : Kept v (runAt es v) := by
  induction es generalizing v with
  | nil => exact ⟨id, fun d hd => ⟨d, hd⟩⟩
  | cons e es ih => exact (Edit.kept h.1).trans (ih h.2)

/-- An edit fits where what it has made is still there. -/
theorem Edit.fits_again (h : e.Fits v) (hkept : Kept (e.apply v) w) : e.Fits w := by
  cases e with
  | dir =>
    have hmade : Edit.apply .dir v = some .dir := by
      rcases v with _ | _ | d
      · rfl
      · rfl
      · exact absurd rfl (h d)
    intro d hd
    rw [hkept.1 hmade] at hd
    cases hd
  | put f =>
    obtain ⟨d, hd⟩ : ∃ d, Edit.apply (.put f) v = some (.file d) := by
      rcases v with _ | _ | g <;> exact ⟨_, rfl⟩
    obtain ⟨d', hw⟩ := hkept.2 d hd
    rw [hw]
    exact fun hdir => (by cases hdir)
  | mark =>
    obtain ⟨g, rfl⟩ := h
    exact hkept.2 _ rfl
  | lay f =>
    obtain ⟨d', hw⟩ := hkept.2 f rfl
    rw [hw]
    exact fun hdir => (by cases hdir)

theorem FitAll.again (h : FitAll es v) (hkept : Kept (runAt es v) w) : FitAll es w := by
  induction es generalizing v w with
  | nil => trivial
  | cons e es ih =>
    -- What the first edit has made is kept by the others, and from then on.
    have hfirst : Kept (e.apply v) w := h.2.kept.trans hkept
    have hfits := Edit.fits_again h.1 hfirst
    exact ⟨hfits, ih h.2 (hkept.trans (Edit.kept hfits))⟩

/-- The same, or files whose data are related. -/
def Similar (R : β → β → Prop) (v w : Option (Node β)) : Prop :=
  v = w ∨ ∃ d d', v = some (.file d) ∧ w = some (.file d') ∧ R d d'

/-- What overwriting and marking respect, the edits respect. -/
theorem Similar.runAt {R : β → β → Prop}
    (hlay : ∀ f d d', R d d' → R (putOver f d) (putOver f d'))
    (hmark : ∀ d d', R d d' → R (mark d) (mark d')) (h : Similar R v w) (es : List (Edit β)) :
    Similar R (runAt es v) (runAt es w) := by
  induction es generalizing v w with
  | nil => exact h
  | cons e es ih =>
    refine ih (v := e.apply v) (w := e.apply w) ?_
    rcases h with rfl | ⟨d, d', rfl, rfl, hR⟩
    · exact Or.inl rfl
    · cases e with
      | dir => exact Or.inr ⟨d, d', rfl, rfl, hR⟩
      | put f => exact Or.inr ⟨_, _, rfl, rfl, hlay f d d' hR⟩
      | mark => exact Or.inr ⟨_, _, rfl, rfl, hmark d d' hR⟩
      | lay f => exact Or.inl rfl

/-- **Edits that fit** do nothing when they are made again. The induction is on the last
    edit: the ones in front of it, made again, cannot undo it. -/
theorem runAt_runAt (h : FitAll es v) : runAt es (runAt es v) = runAt es v := by
  induction es using List.reverseRecOn with
  | nil => rfl
  | append_singleton es e ih =>
    obtain ⟨hes, he, -⟩ := fitAll_append.mp h
    have hagain := ih hes
    simp only [runAt_snoc]
    cases e with
    | lay d => rfl
    | dir =>
      rcases hy : runAt es v with _ | n
      · rw [eq_nil_of_runAt hes hy]
        rfl
      · rw [hy] at hagain
        show Edit.apply .dir (runAt es (some n)) = some n
        rw [hagain]
        rfl
    | put d =>
      rcases hy : runAt es v with _ | _ | g
      · rw [eq_nil_of_runAt hes hy]
        show some (Node.file (putOver d d)) = some (.file d)
        rw [putOver_self]
      · exact absurd hy he
      · -- What is taken over from the file is the same behind the edits in front.
        have hstart : Similar (fun a b => putOver d a = putOver d b) (some (.file (putOver d g)))
            (some (.file g)) := Or.inr ⟨_, _, rfl, rfl, putOver_putOver d d g⟩
        have hsimilar := hstart.runAt
          (fun f a b hab => by rw [putOver_putOver, putOver_putOver, hab])
          (fun a b hab => by rw [← mark_putOver, ← mark_putOver, hab]) es
        rw [hy] at hagain
        rw [hagain] at hsimilar
        show Edit.apply (.put d) (runAt es (some (.file (putOver d g)))) =
          some (.file (putOver d g))
        rcases hsimilar with heq | ⟨a, b, ha, hb, hab⟩
        · rw [heq]
          rfl
        · rw [ha]
          obtain rfl : g = b := by simpa using hb
          show some (Node.file (putOver d a)) = some (.file (putOver d g))
          rw [hab]
    | mark =>
      obtain ⟨g, hy⟩ := he
      rw [hy] at hagain ⊢
      have hstart : Similar (fun a b => mark a = mark b) (some (.file (mark g)))
          (some (.file g)) := Or.inr ⟨_, _, rfl, rfl, mark_mark g⟩
      have hsimilar := hstart.runAt (fun f a b hab => by rw [mark_putOver, mark_putOver, hab])
        (fun a b hab => by rw [mark_mark, mark_mark, hab]) es
      rw [hagain] at hsimilar
      show Edit.apply .mark (runAt es (some (.file (mark g)))) = some (.file (mark g))
      rcases hsimilar with heq | ⟨a, b, ha, hb, hab⟩
      · rw [heq]
        rfl
      · rw [ha]
        obtain rfl : g = b := by simpa using hb
        show some (Node.file (mark a)) = some (.file (mark g))
        rw [hab]

end Path

/-! ## Trees -/

/-- The edits of a command, at the paths where it makes one. -/
abbrev TreeEdit (κ β : Type) := List κ → Option (Edit β)

section Tree

variable {es : List (TreeEdit κ β)} {t : Tree κ β}

omit [Overwrite β] in
/-- The edits that a list of commands makes at a path. -/
def editsAt (es : List (TreeEdit κ β)) (p : List κ) : List (Edit β) := es.filterMap fun e => e p

/-- The tree behind the edits of a list of commands. -/
def applyEdits (es : List (TreeEdit κ β)) (t : Tree κ β) : Tree κ β :=
  fun p => runAt (editsAt es p) (t p)

/-- All edits fit where they are made. -/
def FitTree (es : List (TreeEdit κ β)) (t : Tree κ β) : Prop := ∀ p, FitAll (editsAt es p) (t p)

omit [Overwrite β] in
theorem editsAt_append (es es' : List (TreeEdit κ β)) (p : List κ) :
    editsAt (es ++ es') p = editsAt es p ++ editsAt es' p := List.filterMap_append

theorem applyEdits_append (es es' : List (TreeEdit κ β)) (t : Tree κ β) :
    applyEdits (es ++ es') t = applyEdits es' (applyEdits es t) := by
  funext p
  rw [applyEdits, editsAt_append, runAt_append]
  rfl

theorem fitTree_append {es' : List (TreeEdit κ β)} :
    FitTree (es ++ es') t ↔ FitTree es t ∧ FitTree es' (applyEdits es t) := by
  constructor
  · intro h
    have hp : ∀ p, FitAll (editsAt es p) (t p) ∧
        FitAll (editsAt es' p) (runAt (editsAt es p) (t p)) := by
      intro p
      have := h p
      rwa [editsAt_append, fitAll_append] at this
    exact ⟨fun p => (hp p).1, fun p => (hp p).2⟩
  · rintro ⟨h, h'⟩ p
    rw [editsAt_append, fitAll_append]
    exact ⟨h p, h' p⟩

theorem FitTree.grows (h : FitTree es t) : Grows t (applyEdits es t) := by
  intro p
  obtain ⟨hdir, hfile⟩ := (h p).kept
  refine ⟨hdir, fun hp => ?_⟩
  obtain ⟨d, hd⟩ := isFile_iff.mp hp
  exact isFile_iff.mpr (hfile d hd)

/-- Edits fit wherever what they have made is still there. -/
theorem FitTree.again {t' : Tree κ β} (h : FitTree es t) (hgrows : Grows (applyEdits es t) t') :
    FitTree es t' := by
  intro p
  obtain ⟨hdir, hfile⟩ := hgrows p
  refine (h p).again ⟨hdir, fun d hd => ?_⟩
  exact isFile_iff.mp (hfile (isFile_iff.mpr ⟨d, hd⟩))

theorem FitTree.applyEdits_again (h : FitTree es t) :
    applyEdits es (applyEdits es t) = applyEdits es t := by
  funext p
  exact runAt_runAt (h p)

end Tree

/-! ## Steps -/

section Steps

open Errexit Script

variable {σ α : Type} {tree : σ → Tree κ β} {I : σ → Prop} {x y : Script σ Unit}
  {es es' : List (TreeEdit κ β)} {t : Tree κ β}

/-- The edits `es` of the tree `t` fit, and from the states of `I` in which what they have made is
    still there the script makes them again. -/
structure Repeatable (tree : σ → Tree κ β) (I : σ → Prop) (x : Script σ Unit)
    (es : List (TreeEdit κ β)) (t : Tree κ β) : Prop where
  fits : FitTree es t
  again : ∀ s, I s → Grows (applyEdits es t) (tree s) →
    ∃ s', x.run s = (some (), s') ∧ I s' ∧ tree s' = applyEdits es (tree s)

theorem repeatable_pure : Repeatable tree I (pure ()) [] t where
  fits := fun _ => trivial
  again := fun s hs _ => ⟨s, rfl, hs, rfl⟩

/-- One after the other. -/
theorem Repeatable.seq (h : Repeatable tree I x es t)
    (h' : Repeatable tree I y es' (applyEdits es t)) :
    Repeatable tree I (x >>= fun _ => y) (es ++ es') t where
  fits := fitTree_append.mpr ⟨h.fits, h'.fits⟩
  again := by
    intro s hs hgrows
    rw [applyEdits_append] at hgrows
    have hgrows' := h'.fits.grows.trans hgrows
    obtain ⟨s', hrun, hs', htree⟩ := h.again s hs hgrows'
    obtain ⟨s'', hrun', hs'', htree'⟩ := h'.again s' hs' (by
      rw [htree]
      exact hgrows.trans (h.fits.again hgrows').grows)
    refine ⟨s'', seq_eq_some_iff.mpr ⟨s', hrun, hrun'⟩, hs'', ?_⟩
    rw [htree', htree, applyEdits_append]

/-- A list of steps each of which can be repeated where it has run. -/
theorem repeatable_forEach {xs : List α} {body : α → Script σ Unit}
    (hstep : ∀ x ∈ xs, ∀ s s', I s → (body x).run s = (some (), s') → I s' ∧
      ∃ es, tree s' = applyEdits es (tree s) ∧ Repeatable tree I (body x) es (tree s))
    {s u : σ} (hs : I s) (hrun : (forEach xs body).run s = (some (), u)) :
    ∃ es, tree u = applyEdits es (tree s) ∧ Repeatable tree I (forEach xs body) es (tree s) := by
  induction xs generalizing s with
  | nil =>
    obtain rfl : s = u := congrArg Prod.snd hrun
    exact ⟨[], rfl, repeatable_pure⟩
  | cons x xs ih =>
    obtain ⟨s', hbody, hrest⟩ := forEach_cons_eq_some_iff.mp hrun
    obtain ⟨hs', es, htree, hx⟩ := hstep x (by simp) s s' hs hbody
    obtain ⟨es', htree', hxs⟩ := ih (fun y hy => hstep y (by simp [hy])) hs' hrest
    rw [htree] at htree' hxs
    refine ⟨es ++ es', by rw [htree', applyEdits_append], ?_⟩
    rw [forEach_cons]
    exact hx.seq hxs

/-- **Once more**: on the tree that it has left, the script comes to its end and leaves that
    tree. -/
theorem Repeatable.again_same (h : Repeatable tree I x es t) {s : σ} (hs : I s)
    (htree : tree s = applyEdits es t) :
    ∃ s', x.run s = (some (), s') ∧ I s' ∧ tree s' = tree s := by
  obtain ⟨s', hrun, hs', htree'⟩ := h.again s hs (htree ▸ Grows.refl _)
  refine ⟨s', hrun, hs', ?_⟩
  rw [htree', htree, h.fits.applyEdits_again]

end Steps

end FileTree
