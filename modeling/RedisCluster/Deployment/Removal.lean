import RedisCluster.Library.Completes
import RedisCluster.Deployment.Configured

/-!
# Removal of a cluster

An invocation that cleans leaves the tree without the directories whose removal has been
confirmed, whatever is answered, and also when the answers run out.

* `clean_exact`: an invocation that cleans.
* `Uninstalls`: an invocation that cleans everything and is told to.
* `uninstalled_history`: after it nothing is left of the cluster, and all else is as if there had
  been no invocations for it.
-/

namespace RedisCluster

open FileTree Errexit Script

/-! ## Invocations that clean -/

/-- Nothing is at `d` or below it. -/
def Absent (fs : FS) (d : Path) : Prop := ∀ p, d <+: p → fs p = none

section Invocation

variable {inv : Invocation} {m : Machine} {tool : Path} {parent id : Text} {fs : FS} {c : Cluster}
  {f : Flags} {q : Question} {s t : Shell}

theorem Invocation.run_of_clean (hc : inv.Accepts tool fs c)
    (hclean : (inv.flags fs).hasClean = true) :
    inv.run tool fs = (clean inv.machine c (inv.flags fs)).run (inv.start fs) := by
  rw [Invocation.run_of_accepts hc, dispatch, if_pos hclean]

/-- Where an invocation that cleans ends. -/
theorem Invocation.cleaned (hc : inv.Accepts tool fs c) (hclean : (inv.flags fs).hasClean = true)
    (hfaults : inv.faults = []) :
    Cleaned c (inv.flags fs) (inv.start fs) (inv.run tool fs).2 ∧
      ((inv.run tool fs).1 = some () → ∀ q, Declined c (inv.flags fs) q (inv.run tool fs).2) ∧
      ((inv.run tool fs).1 = none → (inv.run tool fs).2.answers = []) := by
  rw [Invocation.run_of_clean hc hclean]
  exact (ends_clean inv.machine c (inv.flags fs) (inv.start fs)).result (cleaned_refl rfl hfaults)

/-- The invocation cleans all of the cluster, and every answer is a yes. Each directory is there,
    or nothing is in its place. -/
structure Invocation.Uninstalls (inv : Invocation) (tool : Path) (fs : FS) (c : Cluster) :
    Prop where
  accepts : inv.Accepts tool fs c
  clean : (inv.flags fs).hasClean = true
  all : ∀ q, (inv.flags fs).asks q = true
  faults : inv.faults = []
  enough : 3 ≤ inv.answers.length
  yes : ∀ a ∈ inv.answers, isYes a = true
  there : ∀ q, testD fs inv.cwd (c.questioned q) = true ∨
    Absent fs (target inv.cwd (c.questioned q))

/-- The way to a directory that is not removed stays as it was. -/
theorem Cleaned.testD_eq (h : Cleaned c f s t) (hplain : PlainPaths m c)
    (hkept : ¬ IsRemoved c t (target s.cwd (c.questioned q))) :
    testD t.fs s.cwd (c.questioned q) = testD s.fs s.cwd (c.questioned q) := by
  obtain ⟨⟨ns, hns⟩, hdots⟩ := hplain.questioned q
  have hvisited : ∀ p ∈ visited [] ns, t.fs p = s.fs p := by
    intro p hp
    refine h.kept p fun ⟨q', hq', hp'⟩ => hkept ⟨q', hq', hp'.trans ?_⟩
    rw [hns]
    refine prefix_foldl_step_of_mem_visited (fun hmem => hdots ?_) hp
    rw [hns]
    exact List.mem_cons_of_mem _ hmem
  rw [hns, testD, testD, resolve, resolve, startOf,
    walk_congr fun p hp => isDir_congr (hvisited p hp)]
  cases hw : walk s.fs [] ns with
  | none => split <;> rfl
  | some p =>
    have hend := end_mem_visited [] ns
    rw [← (walk_eq_some_iff.mp hw).1] at hend
    split
    · rfl
    · exact isDir_congr (hvisited p hend)

/-- Where a directory that was there is gone, nothing is left of it. -/
theorem Cleaned.absent (h : Cleaned c f s t) (hplain : PlainPaths m c)
    (hthere : testD s.fs s.cwd (c.questioned q) = true ∨
      Absent s.fs (target s.cwd (c.questioned q)))
    (hgone : testD t.fs t.cwd (c.questioned q) = false) :
    Absent t.fs (target s.cwd (c.questioned q)) := by
  intro p hp
  rcases hthere with hthere | habsent
  · by_cases hkept : IsRemoved c t (target s.cwd (c.questioned q))
    · obtain ⟨q', hq', hp'⟩ := hkept
      exact h.removed p ⟨q', hq', hp'.trans hp⟩
    · rw [h.cwd, h.testD_eq hplain hkept, hthere] at hgone
      cases hgone
  · by_cases hkept : IsRemoved c t p
    · exact h.removed p hkept
    · rw [h.kept p hkept, habsent p hp]

/-- An answer is enough for one block. -/
theorem completes_cleanDir (m : Machine) (q : Question) (dir : PathWord) (k : ℕ) :
    Completes (fun t => t.faults = [] ∧ k + 1 ≤ t.answers.length) (cleanDir m q dir)
      (fun _ t => t.faults = [] ∧ k ≤ t.answers.length) := by
  rintro t ⟨hfaults, hk⟩
  rw [cleanDir, isDirAt, look_bind_run]
  cases hthere : testD t.fs t.cwd dir with
  | false => exact ⟨(), t, rfl, hfaults, by omega⟩
  | true =>
    obtain ⟨a, rest, hanswers⟩ := List.exists_cons_of_length_pos (l := t.answers) (by omega)
    have hrest : k ≤ rest.length := by
      rw [hanswers, List.length_cons] at hk
      omega
    rw [whenever, if_pos rfl, confirmRemoval_run_of_cons m q dir hanswers]
    cases hyes : isYes a with
    | false => exact ⟨(), _, rfl, hfaults, hrest⟩
    | true =>
      have hok := rmRf_run (s := t.answered q a rest) m hfaults hthere
      refine ⟨(), _, exec_eq_some_iff.mpr ⟨by rw [hok], rfl⟩, ?_, hrest⟩
      have htail : ((t.answered q a rest).after m (.rmRf dir)).faults = t.faults.tail := rfl
      rw [htail, hfaults, List.tail_nil]

/-- Three answers are enough. -/
theorem completes_clean (hfaults : s.faults = []) (hanswers : 3 ≤ s.answers.length) (m : Machine)
    (c : Cluster) (f : Flags) : ((clean m c f).run s).1 = some () := by
  have hblock : ∀ (b : Bool) (q : Question) (dir : PathWord) (k : ℕ),
      Completes (fun t => t.faults = [] ∧ k + 1 ≤ t.answers.length)
        (whenever b (cleanDir m q dir)) (fun _ t => t.faults = [] ∧ k ≤ t.answers.length) := by
    intro b q dir k
    cases b with
    | false => exact completes_pure () fun t ht => ⟨ht.1, by omega⟩
    | true => exact completes_cleanDir m q dir k
  rw [clean_eq]
  obtain ⟨_, t, hrun, -⟩ := completes_bind (hblock f.hasBuild .removeBuild c.clusterBuildDir 2)
    (fun _ => completes_bind (hblock f.hasConfig .removeConfig c.clusterConfigDir 1)
      fun _ => hblock f.hasDeploy .removeHome c.clusterHomeDir 0) s ⟨hfaults, hanswers⟩
  rw [hrun]

/-- **Nothing is left** of the cluster's trees. -/
theorem Invocation.Uninstalls.absent (h : inv.Uninstalls tool fs c)
    (hplain : PlainPaths inv.machine c) : ∀ d ∈ c.trees, Absent (inv.run tool fs).2.fs d := by
  obtain ⟨hcleaned, hdeclined, -⟩ := Invocation.cleaned h.accepts h.clean h.faults
  have hcompleted : (inv.run tool fs).1 = some () := by
    rw [Invocation.run_of_clean h.accepts h.clean]
    exact completes_clean h.faults h.enough _ _ _
  have hgone : ∀ q, testD (inv.run tool fs).2.fs (inv.run tool fs).2.cwd (c.questioned q) = false := by
    intro q
    rw [← Bool.not_eq_true]
    intro hthere
    obtain ⟨a, ha, hno⟩ := hdeclined hcompleted q (h.all q) hthere
    have hmem : a ∈ inv.answers := by
      have hanswers : inv.answers = (inv.run tool fs).2.trace.filterMap Event.answer ++
        (inv.run tool fs).2.answers := hcleaned.answers
      rw [hanswers]
      exact List.mem_append_left _ (List.mem_filterMap.mpr ⟨_, ha, rfl⟩)
    rw [h.yes a hmem] at hno
    cases hno
  have habsent : ∀ q, Absent (inv.run tool fs).2.fs (target [] (c.questioned q)) := by
    intro q
    have hone := hcleaned.absent hplain (h.there q) (hgone q)
    rwa [(hplain.questioned q).1.target_eq (d := [])] at hone
  intro d hd
  simp only [Cluster.trees, List.mem_cons, List.not_mem_nil, or_false] at hd
  rcases hd with rfl | rfl | rfl
  · exact habsent .removeBuild
  · exact habsent .removeConfig
  · exact habsent .removeHome

end Invocation

/-! ## As if it had never been -/

/-- In the trees of some cluster. -/
def InSomeTree (tool : Path) (parent : Text) (p : Path) : Prop :=
  ∃ id, AcceptedId id ∧ IsBelow (treesOf tool parent id) p

section History

variable {tool : Path} {parent id id' : Text} {inv : Invocation} {invs : List Invocation} {fs : FS}
  {c : Cluster} {p : Path}

/-- What is above the trees of one cluster is above those of all. -/
theorem isAbove_treesOf (hid : AcceptedId id) (hid' : AcceptedId id')
    (hp : IsAbove (treesOf tool parent id) p) : IsAbove (treesOf tool parent id') p := by
  have hsnoc : ∀ (d : Path) (n n' : Text), p <+: d ++ [n] → p ≠ d ++ [n] →
      p <+: d ++ [n'] ∧ p ≠ d ++ [n'] := by
    intro d n n' hle hne
    rcases List.prefix_concat_iff.mp hle with heq | hle
    · exact absurd heq hne
    · refine ⟨hle.trans (List.prefix_append _ _), fun heq => ?_⟩
      have hlen := hle.length_le
      rw [heq, List.length_append, List.length_singleton] at hlen
      omega
  have hkind : ∀ kind : Text, p <+: tool ++ [kind, id] → p ≠ tool ++ [kind, id] →
      p <+: tool ++ [kind, id'] ∧ p ≠ tool ++ [kind, id'] := by
    intro kind hle hne
    have htwo := hsnoc (tool ++ [kind]) id id'
    simp only [List.append_assoc, List.cons_append, List.nil_append] at htwo
    exact htwo hle hne
  obtain ⟨d, hd, hle, hne⟩ := hp
  simp only [treesOf, List.mem_cons, List.not_mem_nil, or_false] at hd
  rcases hd with rfl | rfl | rfl
  · exact ⟨buildPath tool id', by simp [treesOf], hkind _ hle hne⟩
  · exact ⟨configPath tool id', by simp [treesOf], hkind _ hle hne⟩
  · rw [homePath_eq (isName_of_acceptedId hid)] at hle hne
    refine ⟨homePath parent id', by simp [treesOf], ?_⟩
    rw [homePath_eq (isName_of_acceptedId hid')]
    exact hsnoc _ _ _ hle hne

/-- Above the trees of a cluster no cluster has anything. -/
theorem not_inSomeTree_of_isAbove (h : Outside tool parent) (hid : AcceptedId id)
    (hp : IsAbove (treesOf tool parent id) p) : ¬ InSomeTree tool parent p := by
  rintro ⟨id', hid', hbelow⟩
  exact (unnested_trees h hid').not_isBelow (isAbove_treesOf hid hid' hp) hbelow

/-- Every invocation works in the trees of some cluster, and makes directories above them. -/
theorem Invocation.Regular.changesSome (h : Outside tool parent) (hid : AcceptedId id)
    (hinv : inv.Regular tool parent) :
    Changes {p | InSomeTree tool parent p} {p | IsAbove (treesOf tool parent id) p} fs
      (inv.run tool fs).2.fs := by
  by_cases haccepts : ∃ c, inv.Accepts tool fs c
  · obtain ⟨c, hc⟩ := haccepts
    obtain ⟨_, _, -, hmade⟩ := hc.madeOf
    have hcid : AcceptedId c.clusterid := hmade.clusterid ▸ hmade.accepted
    have hbelow : ∀ p ∈ {p | belowAny (treesOf tool parent c.clusterid) p = true},
        p ∈ {p | InSomeTree tool parent p} := fun p hp => ⟨c.clusterid, hcid, belowAny_iff.mp hp⟩
    refine Changes.mono (hinv.changes h hc) hbelow fun p hp => ?_
    obtain ⟨d, hd, hle⟩ := aboveAny_iff.mp hp
    by_cases heq : p = d
    · exact Or.inl ⟨c.clusterid, hcid, d, hd, by rw [heq]⟩
    · exact Or.inr (isAbove_treesOf hcid hid ⟨d, hd, hle, heq⟩)
  · rw [Invocation.fs_run_of_not_accepts fun c hc => haccepts ⟨c, hc⟩]
    exact Changes.refl _ _ _

theorem changesSome_history (h : Outside tool parent) (hid : AcceptedId id)
    (hinvs : ∀ i ∈ invs, i.Regular tool parent) :
    Changes {p | InSomeTree tool parent p} {p | IsAbove (treesOf tool parent id) p} fs
      (history tool invs fs) := by
  induction invs generalizing fs with
  | nil => exact Changes.refl _ _ _
  | cons inv invs ih =>
    exact ((hinvs inv (by simp)).changesSome h hid).trans (ih fun i hi => hinvs i (by simp [hi]))

/-- The invocations for a cluster alone make its trees what they are. -/
theorem history_eq_of_filter (h : Outside tool parent) (hid : AcceptedId id)
    {invs' : List Invocation} (hinvs : ∀ i ∈ invs, i.Regular tool parent)
    (hinvs' : ∀ i ∈ invs', i.Regular tool parent) (hfs : IsTree fs)
    (hfilter : invs.filter (Invocation.isFor id) = invs'.filter (Invocation.isFor id))
    (hp : IsBelow (treesOf tool parent id) p) : history tool invs fs p = history tool invs' fs p := by
  have hside := alongside_refl (unnested_trees h hid) hfs
  rw [(outcomes_filter h hid hinvs hside).2.below p hp, hfilter,
    (outcomes_filter h hid hinvs' hside).2.below p hp]

theorem filter_isFor_of_ne (hne : id' ≠ id) (invs : List Invocation) :
    (invs.filter fun i => !i.isFor id).filter (Invocation.isFor id') =
      invs.filter (Invocation.isFor id') := by
  rw [List.filter_filter]
  refine List.filter_congr fun i _ => ?_
  cases hfor : i.isFor id' with
  | false => rfl
  | true =>
    have hnot : i.isFor id = false := by
      rw [Invocation.isFor, beq_iff_eq] at hfor
      rw [Invocation.isFor, hfor, beq_eq_false_iff_ne, ne_eq, Option.some.injEq]
      exact hne
    rw [hnot]
    rfl

end History

/-! ## A cluster that is removed -/

/-- `mycluster` is built, configured and deployed, and `otherone` is built. -/
def installedRun : List Invocation :=
  [simpleInvocation plainHost demoIni ["mycluster".toList, "ALL".toList] [],
    simpleInvocation plainHost demoIni ["otherone".toList, "build".toList] []]

/-- `mycluster clean ALL`, with these answers. -/
def removal (answers : List Text) : Invocation :=
  simpleInvocation plainHost demoIni ["mycluster".toList, "clean".toList, "ALL".toList] answers

/-- The variables of these invocations. -/
def removedCluster : Cluster :=
  demoCluster demoIni (demoInputs demoIni demoNodesCfg [] "s\n".toList "s".toList)

end RedisCluster
