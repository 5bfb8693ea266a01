import RedisCluster.Library.Alongside
import RedisCluster.Shell.Rules

/-!
# Commands in two trees

A command whose words lead into some directories does the same in two trees that are
alongside each other below them.

* `Into`: the words that lead into a directory.
* `Cmd.Local`: the commands with such words.
* `Side`: two shells that differ in what is beside the directories only; `Side.after` says
  that it is kept, `parallel_exec_side` and `parallel_cdMake_side` that the statuses agree.
-/

namespace RedisCluster

open FileTree Errexit Script

/-! ## Words -/

/-- An absolute word for `d` goes on with `v`, and has no `..`. -/
structure Into (d : Path) (w v : PathWord) : Prop where
  word : ∃ ns, w = [] :: (ns ++ v) ∧ ns.foldl step [] = d ∧ ['.', '.'] ∉ ns
  noDots : ['.', '.'] ∉ v

/-- A word for something in one of `ds`, and one for one of `ds` itself. -/
def InTrees (ds : List Path) (w : PathWord) : Prop := ∃ d ∈ ds, ∃ v, v ≠ [] ∧ Into d w v
def AtTree (ds : List Path) (w : PathWord) : Prop := ∃ d ∈ ds, Into d w []

section Words

variable {ds : List Path} {fs fs' : FS} {cwd d p : Path} {u v w : PathWord} {n : Text}

theorem into_append (hu : IsAbsolute u) (hudots : ['.', '.'] ∉ u) (hv : ['.', '.'] ∉ v) :
    Into (target [] u) (u ++ v) v := by
  obtain ⟨ns, rfl⟩ := hu
  exact ⟨⟨ns, rfl, rfl, fun hmem => hudots (by simp [hmem])⟩, hv⟩

theorem inTrees_append (hu : IsAbsolute u) (hudots : ['.', '.'] ∉ u) (hv : ['.', '.'] ∉ v)
    (hne : v ≠ []) (hd : target [] u ∈ ds) : InTrees ds (u ++ v) :=
  ⟨_, hd, v, hne, into_append hu hudots hv⟩

theorem Into.snoc (h : Into d w v) (hn : n ≠ ['.', '.']) : Into d (w ++ [n]) (v ++ [n]) := by
  obtain ⟨ns, rfl, hd, hdots⟩ := h.word
  exact ⟨⟨ns, by simp, hd, hdots⟩, by simp [h.noDots, Ne.symm hn]⟩

theorem InTrees.snoc (h : InTrees ds w) (hn : n ≠ ['.', '.']) : InTrees ds (w ++ [n]) := by
  obtain ⟨d, hd, v, hv, hw⟩ := h
  exact ⟨d, hd, v ++ [n], by simp, hw.snoc hn⟩

/-- What such a word leads to is in the directory. -/
theorem Into.prefix_of_resolve (h : Into d w v) (hp : resolve fs cwd w = some p) : d <+: p := by
  obtain ⟨ns, rfl, rfl, -⟩ := h.word
  rw [resolve_eq_target hp, target]
  simp only [startOf, List.foldl_append]
  exact prefix_foldl_step h.noDots _

/-- It leads nowhere, if there is no directory. -/
theorem Into.resolve_eq_none (h : Into d w v) (hv : v ≠ []) (hd : isDir fs d = false) :
    resolve fs cwd w = none := by
  obtain ⟨ns, rfl, rfl, -⟩ := h.word
  obtain ⟨n, v, rfl⟩ := List.exists_cons_of_ne_nil hv
  rw [resolve, if_neg (by simp), Option.eq_none_iff_forall_not_mem]
  intro p hp
  have hdirs := (walk_eq_some_iff.mp hp).2
  simp only [startOf, visited_append, visited] at hdirs
  rw [List.dropLast_append_of_ne_nil (List.cons_ne_nil _ _),
    List.dropLast_cons_of_ne_nil (visited_ne_nil _ _)] at hdirs
  have htrue := hdirs (ns.foldl step []) (by simp)
  rw [hd] at htrue
  cases htrue

variable (h : Alongside ds fs fs')

include h

/-- In trees alongside each other it leads to the same, once it can be followed to the
    directory. -/
theorem Into.resolve_eq (hw : Into d w v) (hd : d ∈ ds) (hroot : Rooted ds fs' d) :
    resolve fs cwd w = resolve fs' cwd w := by
  obtain ⟨ns, rfl, rfl, hdots⟩ := hw.word
  have hwalk : walk fs [] (ns ++ v) = walk fs' [] (ns ++ v) := by
    refine walk_congr fun p hp => ?_
    by_cases hbelow : IsBelow ds p
    · exact isDir_congr (h.below p hbelow)
    · rcases prefix_or_prefix_of_mem_visited hdots hw.noDots hp with habove | hprefix
      · have hne : p ≠ ns.foldl step [] := fun heq => hbelow ⟨_, hd, heq ▸ List.prefix_rfl⟩
        have hp' : IsAbove ds p := ⟨_, hd, habove, hne⟩
        have hdir := hroot.2 p habove hp'
        rw [isDir_iff.mpr hdir, isDir_iff.mpr (h.isDir_left (Or.inr hp') hdir)]
      · exact absurd ⟨_, hd, hprefix⟩ hbelow
  rw [resolve, resolve]
  simp only [startOf, hwalk]

theorem rooted_of_ne_none (hd : d ∈ ds) (hne : fs' d ≠ none) : Rooted ds fs' d :=
  h.rooted d ⟨d, hd, List.prefix_rfl⟩ hne

/-- A test of what the word leads to. -/
theorem Into.any_eq (hw : Into d w v) (hd : d ∈ ds) {f : FS → Path → Bool}
    (hcongr : ∀ {t t' : FS} {p : Path}, t p = t' p → f t p = f t' p)
    (hnone : ∀ {t : FS} {p : Path}, t p = none → f t p = false) :
    (resolve fs cwd w).any (f fs) = (resolve fs' cwd w).any (f fs') := by
  have hself := h.below d ⟨d, hd, List.prefix_rfl⟩
  by_cases hd' : fs' d = none
  · -- nothing is there, in either tree
    have hfalse : ∀ t : FS, t d = none → (resolve t cwd w).any (f t) = false := by
      intro t ht
      by_cases hv : v = []
      · cases hp : resolve t cwd w with
        | none => rfl
        | some p =>
          obtain ⟨ns, rfl, rfl, -⟩ := hw.word
          have hp := resolve_eq_target hp
          simp only [hv, target, startOf, List.append_nil] at hp
          rw [Option.any_some, hp, hnone ht]
      · rw [hw.resolve_eq_none hv (by simp [isDir, ht])]
        rfl
    rw [hfalse fs (hself.trans hd'), hfalse fs' hd']
  · rw [hw.resolve_eq h hd (rooted_of_ne_none h hd hd')]
    cases hp : resolve fs' cwd w with
    | none => rfl
    | some p =>
      rw [Option.any_some, Option.any_some]
      exact hcongr (h.below p ⟨d, hd, hw.prefix_of_resolve hp⟩)

theorem Into.testD_eq (hw : Into d w v) (hd : d ∈ ds) : testD fs cwd w = testD fs' cwd w :=
  hw.any_eq h hd isDir_congr fun ht => by rw [isDir, ht]

theorem Into.testF_eq (hw : Into d w v) (hd : d ∈ ds) : testF fs cwd w = testF fs' cwd w :=
  hw.any_eq h hd isFile_congr fun ht => by rw [isFile, ht]

theorem InTrees.resolve_eq (hw : InTrees ds w) : resolve fs cwd w = resolve fs' cwd w := by
  obtain ⟨d, hd, v, hv, hw⟩ := hw
  by_cases hdir : fs' d = some .dir
  · exact hw.resolve_eq h hd (rooted_of_ne_none h hd (by simp [hdir]))
  · have hfalse' : isDir fs' d = false := by rwa [← Bool.not_eq_true, isDir_iff]
    have hfalse : isDir fs d = false := by
      rw [isDir_congr (h.below d ⟨d, hd, List.prefix_rfl⟩), hfalse']
    rw [hw.resolve_eq_none hv hfalse, hw.resolve_eq_none hv hfalse']

/-- What such a word leads to can be reached from above. -/
theorem InTrees.rooted (hds : Unnested ds) (hw : InTrees ds w) (hp : resolve fs' cwd w = some p) :
    Rooted ds fs' p := by
  obtain ⟨d, hd, v, hv, hw⟩ := hw
  have hdir : fs' d ≠ none := by
    intro hnone
    rw [hw.resolve_eq_none hv (by simp [isDir, hnone])] at hp
    cases hp
  exact (rooted_of_ne_none h hd hdir).mono hds (hw.prefix_of_resolve hp)

theorem InTrees.testD_eq (hw : InTrees ds w) : testD fs cwd w = testD fs' cwd w := by
  obtain ⟨d, hd, v, -, hw⟩ := hw
  exact hw.testD_eq h hd

theorem InTrees.eq_of_resolve (hds : Unnested ds) (hw : InTrees ds w)
    (hp : resolve fs' cwd w = some p) : fs p = fs' p := h.below p (hw.rooted h hds hp).1

theorem InTrees.fileTarget_eq (hds : Unnested ds) (hw : InTrees ds w) :
    fileTarget fs cwd w = fileTarget fs' cwd w := by
  rw [fileTarget, fileTarget, hw.resolve_eq h]
  cases hp : resolve fs' cwd w with
  | none => rfl
  | some p => simp only [Option.filter_some, isDir_congr (hw.eq_of_resolve h hds hp)]

theorem InTrees.copyTarget_eq (hds : Unnested ds) (hw : InTrees ds w) (n : Text) :
    copyTarget fs cwd w n = copyTarget fs' cwd w n := by
  rw [copyTarget, copyTarget, hw.testD_eq h, hw.fileTarget_eq h hds]
  by_cases hn : n = ['.', '.']
  · have hnone : ∀ t : FS, fileTarget t cwd (w ++ [n]) = none := by
      intro t
      rw [Option.eq_none_iff_forall_not_mem]
      intro p hp
      have hname := (fileTarget_eq_some_iff.mp hp).2.1
      rw [lastName_snoc] at hname
      exact hname.2.2 hn
    rw [hnone fs, hnone fs']
  · rw [(hw.snoc hn).fileTarget_eq h hds]

theorem InTrees.copyTreeTarget_eq (hw : InTrees ds w) (hn : n ≠ ['.', '.']) :
    copyTreeTarget fs cwd w n = copyTreeTarget fs' cwd w n := by
  rw [copyTreeTarget, copyTreeTarget, hw.testD_eq h]
  split
  · exact (hw.snoc hn).resolve_eq h
  · exact hw.resolve_eq h

theorem InTrees.rooted_of_fileTarget (hds : Unnested ds) (hw : InTrees ds w)
    (hp : fileTarget fs' cwd w = some p) : Rooted ds fs' p :=
  hw.rooted h hds (fileTarget_eq_some_iff.mp hp).1

theorem InTrees.rooted_of_copyTarget (hds : Unnested ds) (hw : InTrees ds w)
    (hp : copyTarget fs' cwd w n = some p) : Rooted ds fs' p := by
  unfold copyTarget at hp
  split at hp
  · have hn := (fileTarget_eq_some_iff.mp hp).2.1
    rw [lastName_snoc] at hn
    exact (hw.snoc hn.2.2).rooted_of_fileTarget h hds hp
  · exact hw.rooted_of_fileTarget h hds hp

theorem InTrees.rooted_of_copyTreeTarget (hds : Unnested ds) (hw : InTrees ds w)
    (hn : n ≠ ['.', '.']) (hp : copyTreeTarget fs' cwd w n = some p) : Rooted ds fs' p := by
  unfold copyTreeTarget at hp
  split at hp
  · exact (hw.snoc hn).rooted h hds hp
  · exact hw.rooted h hds hp

end Words

/-! ## Commands -/

/-- The words of a command lead into `ds`, and those for whole directories to `es`. -/
def Cmd.Local (ds es : List Path) (fs : FS) (cwd : Path) : Cmd → Prop
  | .mkdirP dirs => ∀ w ∈ dirs, ∃ d ∈ ds, ∃ v, Into d w v
  | .write w _ | .append w _ | .pipeline _ w | .copyIn _ _ w | .chmodX w | .cd w => InTrees ds w
  | .cp src w => InTrees ds src ∧ InTrees ds w
  | .cpR src w => InTrees ds src ∧ lastName src ≠ ['.', '.'] ∧ InTrees ds w
  | .rmRf w | .tar _ w => AtTree es w
  | .make _ installDir => Rooted ds fs cwd ∧ ∀ w ∈ installDir, AtTree es w

/-- The directories `es` of `ds` can be reached from above. -/
def Ready (ds es : List Path) (fs : FS) : Prop := ∀ e ∈ es, e ∈ ds ∧ Rooted ds fs e

section Commands

variable {m : Machine} {ds es : List Path} {fs fs' : FS} {cwd p : Path} {cm : Cmd} {w : PathWord}

theorem putContent_congr (heq : fs p = fs' p) (t : Text) :
    putContent fs p t p = putContent fs' p t p := by
  simp only [putContent, dataAt_congr heq, if_true]

theorem putCopy_congr (heq : fs p = fs' p) (f : File) : putCopy fs p f p = putCopy fs' p f p := by
  simp only [putCopy, dataAt_congr heq, if_true]

theorem AtTree.resolve_eq (h : Alongside ds fs fs') (hes : Ready ds es fs') (hw : AtTree es w) :
    resolve fs cwd w = resolve fs' cwd w := by
  obtain ⟨e, he, hw⟩ := hw
  exact hw.resolve_eq h (hes e he).1 (hes e he).2

theorem AtTree.testD_eq (h : Alongside ds fs fs') (hes : Ready ds es fs') (hw : AtTree es w) :
    testD fs cwd w = testD fs' cwd w := by
  obtain ⟨e, he, hw⟩ := hw
  exact hw.testD_eq h (hes e he).1

theorem AtTree.rooted (hds : Unnested ds) (hes : Ready ds es fs') (hw : AtTree es w)
    (hp : resolve fs' cwd w = some p) : Rooted ds fs' p := by
  obtain ⟨e, he, hw⟩ := hw
  exact (hes e he).2.mono hds (hw.prefix_of_resolve hp)

variable (hds : Unnested ds) (h : Alongside ds fs fs') (hes : Ready ds es fs')
  (hcm : cm.Local ds es fs' cwd)

include hds h hes hcm

/-- Such a command touches the same in both trees. -/
theorem Cmd.Local.touches_eq : cm.touches m cwd fs = cm.touches m cwd fs' := by
  funext p
  cases cm with
  | mkdirP | cd => rfl
  | write w | append w | pipeline _ w | chmodX w =>
    have hw : InTrees ds w := hcm
    simp only [Cmd.touches, hw.fileTarget_eq h hds]
  | copyIn _ n w =>
    have hw : InTrees ds w := hcm
    simp only [Cmd.touches, hw.copyTarget_eq h hds]
  | cp src w => simp only [Cmd.touches, hcm.2.copyTarget_eq h hds]
  | cpR src w => simp only [Cmd.touches, hcm.2.2.copyTreeTarget_eq h hcm.2.1]
  | rmRf w =>
    have hw : AtTree es w := hcm
    simp only [Cmd.touches, hw.resolve_eq h hes]
  | tar pkg w =>
    have hw : AtTree es w := hcm
    simp only [Cmd.touches, tarTrees, hw.resolve_eq h hes]
  | make args installDir =>
    cases installDir with
    | none => rfl
    | some w =>
      simp only [Cmd.touches, makeTrees, Option.bind_some, (hcm.2 w rfl).resolve_eq h hes]

/-- And what it touches can be reached from above. -/
theorem Cmd.Local.rooted (hp : cm.touches m cwd fs' p = true) : Rooted ds fs' p := by
  cases cm with
  | mkdirP | cd => cases hp
  | write w | append w | pipeline _ w | chmodX w =>
    have hw : InTrees ds w := hcm
    exact hw.rooted_of_fileTarget h hds (of_decide_eq_true hp)
  | copyIn _ n w =>
    have hw : InTrees ds w := hcm
    exact hw.rooted_of_copyTarget h hds (of_decide_eq_true hp)
  | cp src w => exact hcm.2.rooted_of_copyTarget h hds (of_decide_eq_true hp)
  | cpR src w =>
    obtain ⟨q, hq, hqp⟩ := belowAny_iff.mp hp
    rw [Option.mem_toList] at hq
    exact (hcm.2.2.rooted_of_copyTreeTarget h hds hcm.2.1 hq).mono hds hqp
  | rmRf w =>
    have hw : AtTree es w := hcm
    obtain ⟨q, hq, hqp⟩ := belowAny_iff.mp hp
    rw [Option.mem_toList] at hq
    exact (hw.rooted hds hes hq).mono hds hqp
  | tar pkg w =>
    have hw : AtTree es w := hcm
    obtain ⟨q, hq, hqp⟩ := belowAny_iff.mp hp
    unfold tarTrees at hq
    split at hq
    · next d hd =>
      obtain ⟨top, -, rfl⟩ := List.mem_map.mp hq
      exact (hw.rooted hds hes hd).mono hds ((List.prefix_append _ _).trans hqp)
    · cases hq
  | make args installDir =>
    obtain ⟨q, hq, hqp⟩ := belowAny_iff.mp hp
    rcases List.mem_cons.mp hq with rfl | hq
    · exact hcm.1.mono hds hqp
    · rw [Option.mem_toList] at hq
      obtain ⟨w, hw, hq⟩ := Option.bind_eq_some_iff.mp hq
      exact ((hcm.2 w hw).rooted hds hes hq).mono hds hqp

/-- It has the same status, and leaves the same there. -/
theorem Cmd.Local.run_eq (hne : ∀ dirs, cm ≠ .mkdirP dirs) :
    (cm.run m cwd fs).2 = (cm.run m cwd fs').2 ∧
      ∀ p, cm.touches m cwd fs' p = true → (cm.run m cwd fs).1 p = (cm.run m cwd fs').1 p := by
  have hrooted := fun p => hcm.rooted (m := m) hds h hes (p := p)
  have hsame : ∀ p, cm.touches m cwd fs' p = true → fs p = fs' p :=
    fun p hp => h.below p (hrooted p hp).1
  have hconfine : ∀ ds' : List Path, (∀ p, belowAny ds' p = true → fs p = fs' p) →
      ∀ f : FS → FS × Bool, (confine (belowAny ds') f fs).2 = (confine (belowAny ds') f fs').2 ∧
        ∀ p, belowAny ds' p = true →
          (confine (belowAny ds') f fs).1 p = (confine (belowAny ds') f fs').1 p := by
    intro ds' hds' f
    have hview : (fun p => if belowAny ds' p then fs p else none) =
        fun p => if belowAny ds' p then fs' p else none := by
      funext p
      split
      · next hp => exact hds' p hp
      · rfl
    simp only [confine, hview]
    exact ⟨trivial, fun p hp => by simp [hp]⟩
  have htouches := hcm.touches_eq (m := m) hds h hes
  cases cm with
  | mkdirP dirs => exact absurd rfl (hne dirs)
  | cd w =>
    have hw : InTrees ds w := hcm
    exact ⟨hw.testD_eq h, by simp [Cmd.touches]⟩
  | write w | append w =>
    have hw : InTrees ds w := hcm
    simp only [Cmd.run, hw.fileTarget_eq h hds]
    cases hq : fileTarget fs' cwd w with
    | none => simp [Cmd.touches, hq]
    | some q =>
      have heq := hsame q (by simp [Cmd.touches, hq])
      refine ⟨rfl, fun p hp => ?_⟩
      obtain rfl : q = p := by simpa [Cmd.touches, hq] using hp
      simp only [dataAt_congr heq, putContent_congr heq]
  | pipeline pl w =>
    have hw : InTrees ds w := hcm
    simp only [Cmd.run, hw.fileTarget_eq h hds]
    cases hq : fileTarget fs' cwd w with
    | none => simp [Cmd.touches, hq]
    | some q =>
      have heq := hsame q (by simp [Cmd.touches, hq])
      dsimp only
      split
      · refine ⟨rfl, fun p hp => ?_⟩
        obtain rfl : q = p := by simpa [Cmd.touches, hq] using hp
        exact putContent_congr heq _
      · exact ⟨rfl, hsame⟩
  | chmodX w =>
    have hw : InTrees ds w := hcm
    simp only [Cmd.run, hw.fileTarget_eq h hds, hw.testD_eq h]
    cases hq : fileTarget fs' cwd w with
    | none => simp [Cmd.touches, hq]
    | some q =>
      have heq := hsame q (by simp [Cmd.touches, hq])
      simp only [dataAt_congr heq]
      split
      · refine ⟨rfl, fun p hp => ?_⟩
        obtain rfl : q = p := by simpa [Cmd.touches, hq] using hp
        simp only [set_same]
      · exact ⟨rfl, hsame⟩
  | copyIn source n w =>
    have hw : InTrees ds w := hcm
    simp only [Cmd.run, hw.copyTarget_eq h hds]
    cases hq : copyTarget fs' cwd w n with
    | none => simp [Cmd.touches, hq]
    | some q =>
      have heq := hsame q (by simp [Cmd.touches, hq])
      cases source with
      | none => exact ⟨rfl, hsame⟩
      | some t =>
        refine ⟨rfl, fun p hp => ?_⟩
        obtain rfl : q = p := by simpa [Cmd.touches, hq] using hp
        exact putContent_congr heq t
  | cp src w =>
    have hsource : (resolve fs cwd src).bind (dataAt fs) = (resolve fs' cwd src).bind (dataAt fs') := by
      rw [hcm.1.resolve_eq h]
      cases hq : resolve fs' cwd src with
      | none => rfl
      | some q => exact dataAt_congr (hcm.1.eq_of_resolve h hds hq)
    simp only [Cmd.run, hcm.2.copyTarget_eq h hds, hsource]
    simp only [hcm.1.resolve_eq h]
    cases hq : copyTarget fs' cwd w (lastName src) with
    | none => simp [Cmd.touches, hq]
    | some q =>
      have heq := hsame q (by simp [Cmd.touches, hq])
      split
      · next p f hp hf =>
        split
        · exact ⟨rfl, hsame⟩
        · refine ⟨rfl, fun r hr => ?_⟩
          obtain rfl : q = r := by simpa [Cmd.touches, hq] using hr
          cases hp
          exact putCopy_congr heq f
      · exact ⟨rfl, hsame⟩
  | cpR src w =>
    simp only [Cmd.run, hcm.2.2.copyTreeTarget_eq h hcm.2.1, hcm.1.resolve_eq h]
    cases hq : copyTreeTarget fs' cwd w (lastName src) with
    | none => simp [Cmd.touches, hq, belowAny]
    | some q =>
      cases hr : resolve fs' cwd src with
      | none => exact ⟨rfl, hsame⟩
      | some r =>
        have hbelow : ∀ p, fs (r ++ p) = fs' (r ++ p) := fun p =>
          h.below _ ((hcm.1.rooted h hds hr).mono hds (List.prefix_append r p)).1
        have hself : fs r = fs' r := hcm.1.eq_of_resolve h hds hr
        have hq' := hsame q (belowAny_iff.mpr ⟨q, by simp [hq], List.prefix_rfl⟩)
        simp only [isDir_congr hself, isFile_congr hq']
        split
        · refine ⟨rfl, fun p hp => ?_⟩
          have hqp : q <+: p := by simpa [Cmd.touches, hq, belowAny, below] using hp
          simp only [copyBelow, hqp, if_true, hbelow, hsame p hp]
        · exact ⟨rfl, hsame⟩
  | rmRf w =>
    have hw : AtTree es w := hcm
    simp only [Cmd.run, Cmd.touches] at hsame ⊢
    rw [hw.resolve_eq h hes]
    cases hq : resolve fs' cwd w with
    | none => simp [belowAny]
    | some q =>
      refine ⟨rfl, fun p hp => ?_⟩
      have hqp : q <+: p := by simpa [belowAny, below] using hp
      simp [removeBelow, hqp]
  | tar pkg w =>
    have hw : AtTree es w := hcm
    have htrees : tarTrees m fs cwd pkg w = tarTrees m fs' cwd pkg w := by
      rw [tarTrees, tarTrees, hw.resolve_eq h hes]
    simp only [Cmd.run, hw.testD_eq h hes, htrees]
    split
    · exact hconfine _ hsame _
    · next hno =>
      exact ⟨rfl, hsame⟩
  | make args installDir =>
    have htrees : makeTrees fs cwd installDir = makeTrees fs' cwd installDir := by
      cases installDir with
      | none => rfl
      | some w => simp only [makeTrees, Option.bind_some, (hcm.2 w rfl).resolve_eq h hes]
    simp only [Cmd.run, htrees]
    exact hconfine _ hsame _

end Commands

/-! ## Directories from above -/

section MakeDirs

variable {ds es : List Path} {fs fs' : FS} {cwd : Path} {dirs : List PathWord}

theorem Into.mkdirPaths_eq {d : Path} {w v : PathWord} (h : Into d w v) (cwd : Path) :
    ∃ ns, visited (startOf cwd w).1 (startOf cwd w).2 = visited [] ns ∧ ['.', '.'] ∉ ns ∧
      ∀ p ∈ visited [] ns, p <+: d ∨ d <+: p := by
  obtain ⟨ns, rfl, rfl, hdots⟩ := h.word
  exact ⟨ns ++ v, rfl, by simp [hdots, h.noDots],
    fun p hp => prefix_or_prefix_of_mem_visited hdots h.noDots hp⟩

theorem fromAbove_mkdirPaths (h : ∀ w ∈ dirs, ∃ d ∈ ds, ∃ v, Into d w v) (fs : FS) (cwd : Path) :
    FromAbove fs (mkdirPaths cwd dirs) := by
  induction dirs with
  | nil =>
    intro l p l' heq
    simp [mkdirPaths] at heq
  | cons w dirs ih =>
    obtain ⟨d, -, v, hw⟩ := h w (by simp)
    obtain ⟨ns, hns, hdots, -⟩ := hw.mkdirPaths_eq cwd
    rw [mkdirPaths, List.flatMap_cons, hns]
    refine FromAbove.append ?_ (ih fun w hw => h w (by simp [hw]))
    exact fun l p l' heq q hq hne => Or.inl (mem_of_visited_eq hdots heq List.nil_prefix hq hne)

theorem isBelow_or_isAbove_of_mkdirPaths (h : ∀ w ∈ dirs, ∃ d ∈ ds, ∃ v, Into d w v)
    {p : Path} (hp : p ∈ mkdirPaths cwd dirs) : IsBelow ds p ∨ IsAbove ds p := by
  obtain ⟨w, hw, hp⟩ := List.mem_flatMap.mp hp
  obtain ⟨d, hd, v, hw⟩ := h w hw
  obtain ⟨ns, hns, -, hmem⟩ := hw.mkdirPaths_eq cwd
  rw [hns] at hp
  by_cases hbelow : d <+: p
  · exact Or.inl ⟨d, hd, hbelow⟩
  · refine Or.inr ⟨d, hd, (hmem p hp).resolve_right hbelow, ?_⟩
    rintro rfl
    exact hbelow List.prefix_rfl

/-- After a completed `mkdir -p` the directories that it comes through can be reached. -/
theorem rooted_of_mkdirP {d : Path} (hd : d ∈ ds) {w v : PathWord}
    (hw : Into d w v) (hdirs : w ∈ dirs) (hok : (makeDirs fs (mkdirPaths cwd dirs)).2 = true) :
    Rooted ds (makeDirs fs (mkdirPaths cwd dirs)).1 d := by
  refine ⟨⟨d, hd, List.prefix_rfl⟩, fun q hq _ => makeDirs_isDir hok ?_⟩
  refine List.mem_flatMap.mpr ⟨w, hdirs, ?_⟩
  obtain ⟨ns, rfl, rfl, hdots⟩ := hw.word
  exact mem_visited_append (mem_visited_of_between hdots List.nil_prefix hq) v

end MakeDirs

/-! ## Shells side by side -/

/-- The second shell has the trees of the first one, and all else is the same. -/
structure Side (ds es : List Path) (s t : Shell) : Prop where
  trees : Alongside ds s.fs t.fs
  ready : Ready ds es t.fs
  cwd : s.cwd = t.cwd
  answers : s.answers = t.answers
  faults : s.faults = t.faults
  trace : s.trace = t.trace

section Side

variable {m : Machine} {ds es : List Path} {s t : Shell} {cm : Cmd}

theorem Side.note (h : Side ds es s t) (e : Event) (as : List Text) :
    Side ds es { s.note e with answers := as } { t.note e with answers := as } :=
  ⟨h.trees, h.ready, h.cwd, rfl, h.faults, congrArg (· ++ [e]) h.trace⟩

theorem Side.refused (h : Side ds es s t) (r : Refusal) :
    Side ds es (s.note (.refused r)) (t.note (.refused r)) :=
  ⟨h.trees, h.ready, h.cwd, h.answers, h.faults, congrArg (· ++ [Event.refused r]) h.trace⟩

theorem Side.weaken (h : Side ds es s t) : Side ds [] s t :=
  ⟨h.trees, by simp [Ready], h.cwd, h.answers, h.faults, h.trace⟩

/-- The trees after a command, and its statuses. -/
theorem Side.outcome (hds : Unnested ds) (h : Side ds es s t)
    (hcm : cm.Local ds es t.fs t.cwd) : (s.outcome m cm).2 = (t.outcome m cm).2 ∧
      Alongside ds (s.outcome m cm).1 (t.outcome m cm).1 := by
  have htouches := hcm.touches_eq (m := m) hds h.trees h.ready
  have hrooted := fun p => hcm.rooted (m := m) hds h.trees h.ready (p := p)
  have hupdate : ∀ u u' : FS, (∀ p, cm.touches m t.cwd t.fs p = true → u p = u' p) →
      (∀ p, ¬ cm.touches m t.cwd t.fs p = true → u p = s.fs p) →
      (∀ p, ¬ cm.touches m t.cwd t.fs p = true → u' p = t.fs p) → Alongside ds u u' :=
    fun u u' => h.trees.update hds hrooted
  rw [Shell.outcome, Shell.outcome, h.faults, h.cwd]
  by_cases hmk : ∃ dirs, cm = .mkdirP dirs
  · obtain ⟨dirs, rfl⟩ := hmk
    have hps : ∀ p ∈ mkdirPaths t.cwd dirs, IsBelow ds p ∨ IsAbove ds p :=
      fun p hp => isBelow_or_isAbove_of_mkdirPaths hcm hp
    have hfrom := fromAbove_mkdirPaths hcm t.fs t.cwd
    split
    · next f _ =>
      refine ⟨rfl, ?_⟩
      exact (h.trees.makeDirs hds (fun p hp => hps p (List.mem_of_mem_take hp))
        (hfrom.take f.made)).2
    · exact h.trees.makeDirs hds hps hfrom
  · have hne : ∀ dirs, cm ≠ .mkdirP dirs := fun dirs heq => hmk ⟨dirs, heq⟩
    have hmakes : ∀ {u v : FS}, Changes {p | cm.touches m t.cwd u p = true}
        {p | p ∈ cm.makes t.cwd} u v → ∀ p, ¬ cm.touches m t.cwd u p = true → v p = u p := by
      intro u v hchanges p hp
      refine hchanges.eq_of_not_mem hp ?_
      cases cm with
      | mkdirP dirs => exact absurd rfl (hne dirs)
      | _ => exact List.not_mem_nil
    split
    · next f _ =>
      have hover : ∀ u : FS, cm.interrupted m t.cwd u f = overlay (cm.touches m t.cwd u) f.left u := by
        intro u
        cases cm with
        | mkdirP dirs => exact absurd rfl (hne dirs)
        | _ => rfl
      rw [hover, hover, htouches]
      refine ⟨rfl, hupdate _ _ (fun p hp => ?_) (fun p hp => ?_) fun p hp => ?_⟩
      · simp only [overlay, hp, if_true]
      · simp only [overlay, hp, Bool.false_eq_true, if_false]
      · simp only [overlay, hp, Bool.false_eq_true, if_false]
    · obtain ⟨hstatus, hsame⟩ := hcm.run_eq (m := m) hds h.trees h.ready hne
      refine ⟨hstatus, hupdate _ _ hsame (fun p hp => ?_) fun p hp => ?_⟩
      · exact hmakes (cm.changes_run m t.cwd s.fs) p (by rwa [htouches])
      · exact hmakes (cm.changes_run m t.cwd t.fs) p hp

/-- **A command that leads into the trees does the same on both sides.** -/
theorem Side.after (hds : Unnested ds) (h : Side ds es s t) (hcm : cm.Local ds es t.fs t.cwd) :
    (s.outcome m cm).2 = (t.outcome m cm).2 ∧ Side ds es (s.after m cm) (t.after m cm) := by
  obtain ⟨hok, htrees⟩ := h.outcome (m := m) hds hcm
  refine ⟨hok, htrees, fun e he => ⟨(h.ready e he).1, (h.ready e he).2.1, fun q hq habove => ?_⟩,
    ?_, h.answers, ?_, ?_⟩
  · have hdir := (h.ready e he).2.2 q hq habove
    rcases t.changes_after m cm q with heq | htouched | ⟨-, hnone, -⟩
    · exact heq.trans hdir
    · exact absurd (hcm.rooted hds h.trees h.ready htouched).1 (hds.not_isBelow habove)
    · rw [hdir] at hnone
      cases hnone
  · cases cm with
    | cd dir => simp only [Shell.after, Shell.cwdAfter, hok, h.cwd]
    | _ => exact h.cwd
  · exact congrArg List.tail h.faults
  · simp only [Shell.after, hok, h.cwd, h.trace]

theorem Side.exec_run (hds : Unnested ds) (h : Side ds es s t) (hcm : cm.Local ds es t.fs t.cwd) :
    ((exec m cm).run s).1 = ((exec m cm).run t).1 ∧
      Side ds es ((exec m cm).run s).2 ((exec m cm).run t).2 := by
  obtain ⟨hok, hafter⟩ := h.after (m := m) hds hcm
  rw [exec, bind_run, bind_run, attempt_run, attempt_run]
  simp only [hok]
  exact parallel_require _ _ _ hafter

theorem parallel_exec_side (hds : Unnested ds) (hcm : ∀ fs cwd, cm.Local ds es fs cwd) :
    Parallel (Side ds es) (exec m cm) := fun _ t h => h.exec_run hds (hcm t.fs t.cwd)

/-- A directory that a completed `cd` has entered can be reached from above. -/
theorem Side.rooted_of_cd (hds : Unnested ds) (h : Side ds es s t) {dir : PathWord}
    (hdir : InTrees ds dir) (hok : (t.outcome m (.cd dir)).2 = true) :
    Rooted ds (t.after m (.cd dir)).fs (t.after m (.cd dir)).cwd := by
  have hcwd : (t.after m (.cd dir)).cwd = target t.cwd dir := by
    rw [Shell.after, Shell.cwdAfter, if_pos hok]
  rw [Shell.after_fs_of_ok hok, hcwd]
  rw [Shell.run_of_outcome hok] at hok
  obtain ⟨p, hp, -⟩ := testD_eq_true_iff.mp hok
  rw [← resolve_eq_target hp]
  exact hdir.rooted h.trees hds hp

theorem parallel_cdMake_side (hds : Unnested ds) {dir : PathWord} (hdir : InTrees ds dir)
    {installDir : Option PathWord} (hinstall : ∀ w ∈ installDir, AtTree es w)
    {args : FS → Path → List Text} (hargs : ∀ fs fs' cwd, args fs cwd = args fs' cwd) :
    Parallel (Side ds es) (cdMake m dir args installDir) := by
  intro s t h
  obtain ⟨hok, hafter⟩ := @Side.after m _ _ _ _ (.cd dir) hds h hdir
  rw [cdMake, bind_run, bind_run, attempt_run, attempt_run]
  simp only [bind_run, look_run, hok]
  cases hcd : (t.outcome m (.cd dir)).2 with
  | false => exact ⟨rfl, hafter⟩
  | true =>
    simp only [whenever, if_true]
    rw [hafter.cwd, hargs _ (t.after m (.cd dir)).fs]
    exact hafter.exec_run hds ⟨h.rooted_of_cd hds hdir hcd, hinstall⟩

end Side

end RedisCluster
