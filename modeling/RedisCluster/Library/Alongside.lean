import RedisCluster.Library.FileTree

/-!
# Trees that agree below some directories

`Alongside ds t t'` says that below the directories `ds` the trees `t` and `t'` are the same,
and that above them `t` has at most some directories more. It is how a tree that others work
in too looks to someone who works below `ds` alone.

* `Alongside.of_changes`: changes of the first tree elsewhere do not matter.
* `Alongside.update`: the same changes of both trees below `ds`.
* `Alongside.makeDirs`: directories made in both, from above.
-/

namespace FileTree

variable {κ β : Type} {ds : List (List κ)} {t t' : Tree κ β} {p q : List κ}

/-- At or below one of `ds`. -/
def IsBelow (ds : List (List κ)) (p : List κ) : Prop := ∃ d ∈ ds, d <+: p

/-- Above one of `ds`. -/
def IsAbove (ds : List (List κ)) (p : List κ) : Prop := ∃ d ∈ ds, p <+: d ∧ p ≠ d

/-- None of the directories is in another one. -/
def Unnested (ds : List (List κ)) : Prop := ∀ d ∈ ds, ∀ e ∈ ds, d <+: e → d = e

theorem Unnested.not_isBelow (h : Unnested ds) (hp : IsAbove ds p) : ¬ IsBelow ds p := by
  rintro ⟨d, hd, hdp⟩
  obtain ⟨e, he, hpe, hne⟩ := hp
  have hde := h d hd e he (hdp.trans hpe)
  rw [hde] at hdp
  exact hne (hpe.eq_of_length (le_antisymm hpe.length_le hdp.length_le))

/-- What is above the directories is above all that is below them. -/
theorem Unnested.prefix_of_isAbove (h : Unnested ds) {r : List κ} (hr : IsBelow ds r)
    (hq : IsAbove ds q) (hrp : r <+: p) (hqp : q <+: p) : q <+: r ∧ q ≠ r := by
  have hnot : ¬ r <+: q := by
    intro hrq
    obtain ⟨d, hd, hdr⟩ := hr
    exact h.not_isBelow hq ⟨d, hd, hdr.trans hrq⟩
  rcases List.prefix_or_prefix_of_prefix hqp hrp with hqr | hrq
  · exact ⟨hqr, fun heq => hnot (heq ▸ List.prefix_rfl)⟩
  · exact absurd hrq hnot

/-- What is there is in a directory. -/
def IsTree (t : Tree κ β) : Prop := ∀ p a, t (p ++ [a]) ≠ none → t p = some .dir

theorem IsTree.dir_above (h : IsTree t) (hp : t p ≠ none) (hqp : q <+: p) (hne : q ≠ p) :
    t q = some .dir := by
  obtain ⟨r, rfl⟩ := hqp
  have hr : r ≠ [] := fun hnil => hne (by simp [hnil])
  clear hne
  induction r using List.reverseRecOn with
  | nil => exact absurd rfl hr
  | append_singleton r a ih =>
    rw [← List.append_assoc] at hp
    have hparent := h _ _ hp
    by_cases hnil : r = []
    · simpa [hnil] using hparent
    · exact ih (by simp [hparent]) hnil

/-- Below `ds`, and all that is above `ds` on the way there is a directory. -/
def Rooted (ds : List (List κ)) (t : Tree κ β) (p : List κ) : Prop :=
  IsBelow ds p ∧ ∀ q, q <+: p → IsAbove ds q → t q = some .dir

theorem Rooted.mono (h : Rooted ds t p) (hds : Unnested ds) {r : List κ} (hpr : p <+: r) :
    Rooted ds t r := by
  obtain ⟨d, hd, hdp⟩ := h.1
  refine ⟨⟨d, hd, hdp.trans hpr⟩, fun q hqr hq => ?_⟩
  exact h.2 q (hds.prefix_of_isAbove h.1 hq hpr hqr).1 hq

/-- Below `ds` the trees are the same, and above them `t` has directories where `t'` may have
    nothing; what `t'` has below `ds` is in a directory of `t'`. -/
structure Alongside (ds : List (List κ)) (t t' : Tree κ β) : Prop where
  below : ∀ p, IsBelow ds p → t p = t' p
  above : ∀ p, IsAbove ds p → t p = t' p ∨ t' p = none ∧ t p = some .dir
  rooted : ∀ p, IsBelow ds p → t' p ≠ none → Rooted ds t' p

theorem alongside_refl (hds : Unnested ds) (h : IsTree t) : Alongside ds t t where
  below := fun _ _ => rfl
  above := fun _ _ => Or.inl rfl
  rooted := fun _ hp hnone => ⟨hp, fun _ hqp hq =>
    h.dir_above hnone hqp (hds.prefix_of_isAbove hp hq List.prefix_rfl hqp).2⟩

theorem Alongside.isDir_left (h : Alongside ds t t') (hp : IsBelow ds p ∨ IsAbove ds p)
    (hdir : t' p = some .dir) : t p = some .dir := by
  rcases hp with hp | hp
  · rw [h.below p hp, hdir]
  · rcases h.above p hp with heq | ⟨hnone, -⟩
    · rw [heq, hdir]
    · rw [hdir] at hnone
      cases hnone

/-- Changes of the first tree that leave alone what is below and above the directories. -/
theorem Alongside.of_changes (h : Alongside ds t t') {A B : Set (List κ)} {u : Tree κ β}
    (hu : Changes A B t u) (hA : ∀ p ∈ A, ¬ IsBelow ds p ∧ ¬ IsAbove ds p)
    (hB : ∀ p ∈ B, ¬ IsBelow ds p) : Alongside ds u t' where
  below := fun p hp => by
    rw [hu.eq_of_not_mem (fun hA' => (hA p hA').1 hp) fun hB' => hB p hB' hp]
    exact h.below p hp
  above := fun p hp => by
    rcases hu p with heq | hA' | ⟨-, hnone, hdir⟩
    · rw [heq]
      exact h.above p hp
    · exact absurd hp (hA p hA').2
    · rcases h.above p hp with heq | ⟨-, hdir'⟩
      · exact Or.inr ⟨heq ▸ hnone, hdir⟩
      · rw [hnone] at hdir'
        cases hdir'
  rooted := h.rooted

/-- The same changes of both trees below the directories. -/
theorem Alongside.update (hds : Unnested ds) (h : Alongside ds t t') {u u' : Tree κ β}
    {region : List κ → Prop} (hregion : ∀ p, region p → Rooted ds t' p)
    (hsame : ∀ p, region p → u p = u' p) (hu : ∀ p, ¬ region p → u p = t p)
    (hu' : ∀ p, ¬ region p → u' p = t' p) : Alongside ds u u' where
  below := fun p hp => by
    by_cases hr : region p
    · exact hsame p hr
    · rw [hu p hr, hu' p hr]
      exact h.below p hp
  above := fun p hp => by
    have hr : ¬ region p := fun hr => hds.not_isBelow hp (hregion p hr).1
    rw [hu p hr, hu' p hr]
    exact h.above p hp
  rooted := fun p hp hnone => by
    refine ⟨hp, fun q hqp hq => ?_⟩
    have hrq : ¬ region q := fun hr => hds.not_isBelow hq (hregion q hr).1
    rw [hu' q hrq]
    by_cases hr : region p
    · exact (hregion p hr).2 q hqp hq
    · rw [hu' p hr] at hnone
      exact (h.rooted p hp hnone).2 q hqp hq

/-- Whatever is in front of a path on the list leads there, or is a directory already. -/
def FromAbove (t : Tree κ β) (ps : List (List κ)) : Prop :=
  ∀ l p l', ps = l ++ p :: l' → ∀ q, q <+: p → q ≠ p → q ∈ l ∨ t q = some .dir

theorem FromAbove.tail {ps : List (List κ)} (h : FromAbove t (p :: ps)) {u : Tree κ β}
    (hp : u p = some .dir) (hgrows : ∀ q, t q = some .dir → u q = some .dir) : FromAbove u ps := by
  intro l r l' hps q hqr hne
  rcases h (p :: l) r l' (by rw [hps]; rfl) q hqr hne with hmem | hdir
  · rcases List.mem_cons.mp hmem with rfl | hmem
    · exact Or.inr hp
    · exact Or.inl hmem
  · exact Or.inr (hgrows q hdir)

theorem FromAbove.append {ps qs : List (List κ)} (h : FromAbove t ps) (h' : FromAbove t qs) :
    FromAbove t (ps ++ qs) := by
  intro l p l' heq q hq hne
  rcases List.append_eq_append_iff.mp heq with ⟨as, rfl, hqs⟩ | ⟨bs, hps, hbs⟩
  · exact (h' as p l' hqs q hq hne).imp_left fun hmem => List.mem_append_right _ hmem
  · cases bs with
    | nil =>
      rw [List.append_nil] at hps
      exact (h' [] p l' hbs.symm q hq hne).imp_left fun hmem => absurd hmem List.not_mem_nil
    | cons b bs =>
      rw [List.cons_append, List.cons.injEq] at hbs
      rw [← hbs.1] at hps
      exact h l p bs hps q hq hne

theorem FromAbove.take {ps : List (List κ)} (h : FromAbove t ps) (n : ℕ) :
    FromAbove t (ps.take n) := by
  intro l p l' heq
  refine h l p (l' ++ ps.drop n) ?_
  rw [← List.cons_append, ← List.append_assoc, ← heq, List.take_append_drop]

section MakeDirs

variable [DecidableEq κ]

/-- A directory made in the second tree, and in the first one where it is missing. -/
theorem Alongside.set_above (hds : Unnested ds) (h : Alongside ds t t') (hp : IsAbove ds p)
    {u : Tree κ β} (hu : u p = some .dir) (hother : ∀ q, q ≠ p → u q = t q) :
    Alongside ds u (set t' p .dir) where
  below := fun q hq => by
    have hne : q ≠ p := fun heq => hds.not_isBelow hp (heq ▸ hq)
    rw [hother q hne, set_of_ne hne]
    exact h.below q hq
  above := fun q hq => by
    by_cases hne : q = p
    · left
      rw [hne, hu, set_same]
    · rw [hother q hne, set_of_ne hne]
      exact h.above q hq
  rooted := fun q hq hnone => by
    have hne : q ≠ p := fun heq => hds.not_isBelow hp (heq ▸ hq)
    rw [set_of_ne hne] at hnone
    refine ⟨hq, fun r hrq hr => ?_⟩
    by_cases heq : r = p
    · rw [heq, set_same]
    · rw [set_of_ne heq]
      exact (h.rooted q hq hnone).2 r hrq hr

/-- Directories that are made from above. -/
theorem Alongside.makeDirs (hds : Unnested ds) {ps : List (List κ)}
    (hps : ∀ p ∈ ps, IsBelow ds p ∨ IsAbove ds p) (h : Alongside ds t t')
    (hfrom : FromAbove t' ps) : (makeDirs t ps).2 = (makeDirs t' ps).2 ∧
      Alongside ds (makeDirs t ps).1 (makeDirs t' ps).1 := by
  induction ps generalizing t t' with
  | nil => exact ⟨rfl, h⟩
  | cons p ps ih =>
    have hps' := fun r hr => hps r (List.mem_cons_of_mem p hr)
    have hprefix : ∀ q, q <+: p → q ≠ p → t' q = some .dir := by
      intro q hq hne
      exact (hfrom [] p ps rfl q hq hne).resolve_left List.not_mem_nil
    have hset : FromAbove (set t' p .dir) ps := by
      refine hfrom.tail (set_same _ _ _) fun q hq => ?_
      by_cases hne : q = p
      · rw [hne, set_same]
      · rwa [set_of_ne hne]
    by_cases heq : t p = t' p
    · rcases hp' : t' p with _ | _ | d
      · rw [makeDirs_cons_of_none (heq.trans hp'), makeDirs_cons_of_none hp']
        refine ih hps' ?_ hset
        rcases hps p List.mem_cons_self with hbelow | habove
        · have hregion : ∀ q, q = p → Rooted ds t' q := by
            rintro q rfl
            exact ⟨hbelow, fun r hr habove =>
              hprefix r hr (hds.prefix_of_isAbove hbelow habove List.prefix_rfl hr).2⟩
          refine h.update hds hregion ?_ (fun q hq => set_of_ne hq) fun q hq => set_of_ne hq
          rintro q rfl
          rw [set_same, set_same]
        · exact h.set_above hds habove (set_same _ _ _) fun q hq => set_of_ne hq
      · rw [makeDirs_cons_of_dir (heq.trans hp'), makeDirs_cons_of_dir hp']
        exact ih hps' h (hfrom.tail hp' fun _ hq => hq)
      · rw [makeDirs_cons_of_file (heq.trans hp'), makeDirs_cons_of_file hp']
        exact ⟨rfl, h⟩
    · -- only above the directories does the first tree have more
      have habove : IsAbove ds p :=
        (hps p List.mem_cons_self).resolve_left fun hbelow => heq (h.below p hbelow)
      obtain ⟨hnone, hdir⟩ := (h.above p habove).resolve_left heq
      rw [makeDirs_cons_of_dir hdir, makeDirs_cons_of_none hnone]
      exact ih hps' (h.set_above hds habove hdir fun _ _ => rfl) hset

end MakeDirs

end FileTree
