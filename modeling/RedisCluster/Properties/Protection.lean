import RedisCluster.Tool.Trees

/-!
# Deployed data

Once `$cluster_home_dir/CLUSTER_ALL_NODES` is a file, `deploy()` refuses to run again, and no
other phase writes to the home directory; it is removed by `clean()` alone, on a yes.

* `ChangesBelow.sameAround`: changes in separate trees leave a directory alone.
* `keeps_clean_home`: what `clean()` does without a yes to its last question.
* `Invocation.sameAround`: one invocation; `deployed_history`: any number of them.
-/

namespace RedisCluster

open FileTree Errexit Script

/-! ## Separate trees -/

/-- Neither path leads to the other. -/
def Separate (d e : Path) : Prop := ¬ d <+: e ∧ ¬ e <+: d

instance (d e : Path) : Decidable (Separate d e) := inferInstanceAs (Decidable (_ ∧ _))

/-- All on the way to a directory, and all below it, is the same. -/
def SameAround (d : Path) (fs fs' : FS) : Prop := ∀ p, d <+: p ∨ p <+: d → fs' p = fs p

theorem SameAround.trans {d : Path} {fs fs' fs'' : FS} (h : SameAround d fs fs')
    (h' : SameAround d fs' fs'') : SameAround d fs fs'' :=
  fun p hp => (h' p hp).trans (h p hp)

/-- Changes in trees that are separate from a directory leave it alone. -/
theorem ChangesBelow.sameAround {ds : List Path} {fs fs' : FS} (h : ChangesBelow ds fs fs')
    {d : Path} (hsep : ∀ e ∈ ds, Separate e d) (hdirs : ∀ p, p <+: d → fs p = some .dir) :
    SameAround d fs fs' := by
  intro p hp
  rcases h p with heq | hbelow | ⟨habove, hnone, -⟩
  · exact heq
  · obtain ⟨e, he, hep⟩ := belowAny_iff.mp hbelow
    rcases hp with hp | hp
    · rcases List.prefix_or_prefix_of_prefix hep hp with h | h
      · exact absurd h (hsep e he).1
      · exact absurd h (hsep e he).2
    · exact absurd (hep.trans hp) (hsep e he).1
  · obtain ⟨e, he, hpe⟩ := aboveAny_iff.mp habove
    rcases hp with hp | hp
    · exact absurd (hp.trans hpe) (hsep e he).2
    · rw [hdirs p hp] at hnone
      cases hnone

/-- The directory of a cluster in `build` or `config` is separate from a home directory that
    does not contain the tool, if the parent of the homes is outside. -/
theorem separate_toolTree {tool parent : Path} {kind id id' : Text} (hkind : id ≠ kind)
    (houtside : ¬ tool ++ [kind] <+: parent) (hhome : ¬ parent ++ [id] <+: tool) :
    Separate (tool ++ [kind, id']) (parent ++ [id]) := by
  have hcons : tool ++ [kind, id'] = tool ++ [kind] ++ [id'] := by simp
  have hne : tool ++ [kind] ++ [id'] ≠ parent ++ [id] := by
    intro heq
    obtain ⟨hparent, -⟩ := List.append_inj' heq rfl
    exact houtside (hparent ▸ List.prefix_rfl)
  rw [hcons]
  constructor
  · intro h
    rcases List.prefix_concat_iff.mp h with heq | h
    · exact hne heq
    · exact houtside ((List.prefix_append _ _).trans h)
  · intro h
    rcases List.prefix_concat_iff.mp h with heq | h
    · exact hne heq.symm
    · rcases List.prefix_concat_iff.mp h with heq | h
      · obtain ⟨-, hid⟩ := List.append_inj' heq rfl
        exact hkind (List.singleton_inj.mp hid)
      · exact hhome h

theorem separate_homes {parent : Path} {id id' : Text} (h : id ≠ id') :
    Separate (parent ++ [id]) (parent ++ [id']) := by
  have hne : ∀ {a b : Text}, a ≠ b → ¬ parent ++ [a] <+: parent ++ [b] := by
    intro a b hab hprefix
    have heq := hprefix.eq_of_length (by simp)
    exact hab (List.singleton_inj.mp (List.append_cancel_left heq))
  exact ⟨hne h, hne h.symm⟩

/-! ## What `clean()` asks for -/

/-- The last question of `clean()` has been answered with a yes. -/
def HomeConfirmed (s : Shell) : Prop := ∃ a, .asked .removeHome a ∈ s.trace ∧ isYes a = true

section Clean

variable {m : Machine} {c : Cluster}

theorem HomeConfirmed.of_isPrefix {s t : Shell} (h : HomeConfirmed s) (hp : s.trace <+: t.trace) :
    HomeConfirmed t := by
  obtain ⟨a, ha, hyes⟩ := h
  exact ⟨a, hp.subset ha, hyes⟩

/-- Without a yes to its last question `clean()` leaves the home directory alone. -/
theorem keeps_clean_home (h : PlainPaths m c) (f : Flags) (fs : FS) :
    Keeps (fun s => ChangesBelow [c.buildTarget, c.configTarget] fs s.fs ∨
      f.hasDeploy = true ∧ HomeConfirmed s) (clean m c f) := by
  have hdir : ∀ {q : Question} {dir : PathWord}, dir ∈ testedWords c →
      CleanAct c { f with hasDeploy := false } (.cmd (.rmRf dir)) →
      Keeps (fun s => ChangesBelow [c.buildTarget, c.configTarget] fs s.fs ∨
        f.hasDeploy = true ∧ HomeConfirmed s) (cleanDir m q dir) := by
    intro q dir hdir hact
    refine (built_cleanDir m c q hdir hact).keeps_commands_in ?_ ?_
    · intro a ha s cm hcm hs
      refine hs.imp (fun hs => hs.trans ?_) fun hs => ⟨hs.1, hs.2.of_isPrefix ⟨_, rfl⟩⟩
      have hbelow := CleanAct.staysBelow h ha hcm
      simp only [Cluster.removable, Bool.false_eq_true, if_false, List.append_nil] at hbelow
      exact hbelow.changes_after
    · exact fun s e as _ hs => hs.imp_right fun hs => ⟨hs.1, hs.2.of_isPrefix ⟨_, rfl⟩⟩
  unfold clean
  refine keeps_bind (keeps_whenever fun hb => ?_) fun _ =>
    keeps_bind (keeps_whenever fun hc => ?_) fun _ => keeps_bind (keeps_look _) fun _ =>
    keeps_whenever fun _ => keeps_whenever fun hd => ?_
  · exact hdir (by simp [testedWords]) (.removeBuild hb)
  · exact hdir (by simp [testedWords]) (.removeConfig hc)
  · intro s hs
    rw [confirmRemoval, bind_run]
    cases hanswers : s.answers with
    | nil =>
      rw [ask_run_of_nil hanswers]
      exact hs
    | cons a rest =>
      rw [ask_run_of_cons hanswers]
      dsimp only
      cases hyes : isYes a with
      | false =>
        refine hs.imp id fun hs => ⟨hs.1, ?_⟩
        exact hs.2.of_isPrefix (t := { s.note (.asked .removeHome a) with answers := rest }) ⟨_, rfl⟩
      | true =>
        right
        refine ⟨hd, a, ?_, hyes⟩
        rw [whenever, if_pos rfl, exec_run_snd]
        simp [Shell.after, Shell.note]

end Clean

/-! ## The marker of `deploy()` -/

/-- `$cluster_home_dir` of an id, under the parent that the clusters share, and what it leads
    to. -/
def homeWord (parent id : Text) : PathWord := pathWord (parent ++ '/' :: id)
def homePath (parent id : Text) : Path := target [] (homeWord parent id)

/-- `[[ -f "$cluster_home_dir/CLUSTER_ALL_NODES" ]]` -/
def Deployed (parent id : Text) (fs : FS) : Prop :=
  testF fs [] (homeWord parent id ++ [clusterAllNodes]) = true

instance (parent id : Text) (fs : FS) : Decidable (Deployed parent id fs) :=
  inferInstanceAs (Decidable (_ = true))

section Deployed

variable {parent id : Text} {fs fs' : FS}

theorem homeWord_eq (hid : '/' ∉ id) : homeWord parent id = pathWord parent ++ [id] := by
  rw [homeWord, pathWord, List.splitOn_append_cons_self, ← pathWord_eq_singleton hid]
  rfl

theorem homePath_eq (hid : IsName id ∧ '/' ∉ id) :
    homePath parent id = target [] (pathWord parent) ++ [id] := by
  rw [homePath, homeWord_eq hid.2, target_append_name hid.1]

/-- The components of the word, and the path they lead to. -/
theorem PlainParent.walk_home (h : PlainParent parent) (hid : IsName id ∧ '/' ∉ id) :
    ∃ ns, homeWord parent id = [] :: ns ∧ ['.', '.'] ∉ ns ∧ ns.foldl step [] = homePath parent id := by
  obtain ⟨ns, hns⟩ := h.absolute
  have hdots : ['.', '.'] ∉ ns := fun hmem => h.noDots (by rw [hns]; simp [hmem])
  refine ⟨ns ++ [id], ?_, by simp [hdots, Ne.symm hid.1.2.2], ?_⟩
  · rw [homeWord_eq hid.2, hns, List.cons_append]
  · rw [homePath, homeWord_eq hid.2, hns]
    rfl

theorem Deployed.dirs (hparent : PlainParent parent) (hid : IsName id ∧ '/' ∉ id)
    (h : Deployed parent id fs) : ∀ p, p <+: homePath parent id → fs p = some .dir := by
  intro p hp
  obtain ⟨ns, hword, hdots, hns⟩ := hparent.walk_home hid
  obtain ⟨q, hq, -⟩ := testF_eq_true_iff.mp h
  rw [hword, List.cons_append, resolve, if_neg (by simp)] at hq
  have hdirs := (walk_eq_some_iff.mp hq).2
  simp only [startOf, dropLast_visited_snoc] at hdirs
  refine isDir_iff.mp (hdirs p (mem_visited_of_between hdots List.nil_prefix ?_))
  rwa [hns]

theorem Deployed.of_sameAround (hparent : PlainParent parent) (hid : IsName id ∧ '/' ∉ id)
    (h : Deployed parent id fs) (hsame : SameAround (homePath parent id) fs fs') :
    Deployed parent id fs' := by
  obtain ⟨ns, hword, hdots, hns⟩ := hparent.walk_home hid
  unfold Deployed at h ⊢
  rw [testF_congr fun p hp => hsame p ?_]
  · exact h
  rw [hword, List.cons_append] at hp
  have hp : p ∈ visited [] (ns ++ [clusterAllNodes]) := hp
  have hname : ['.', '.'] ∉ ns ++ [clusterAllNodes] := by
    rw [List.mem_append, not_or]
    exact ⟨hdots, by decide +kernel⟩
  have hprefix := prefix_foldl_step_of_mem_visited hname hp
  rw [List.foldl_append, hns] at hprefix
  have hstep : [clusterAllNodes].foldl step (homePath parent id) =
      homePath parent id ++ [clusterAllNodes] :=
    foldl_step_of_isName (by decide +kernel) _
  rw [hstep] at hprefix
  rcases List.prefix_concat_iff.mp hprefix with rfl | hprefix
  · exact Or.inl (List.prefix_append _ _)
  · exact Or.inr hprefix

end Deployed

/-- With its marker there `deploy()` does nothing. -/
theorem deploy_fs_of_deployed {m : Machine} {c : Cluster} {s : Shell}
    (h : testF s.fs s.cwd (c.inHome clusterAllNodes) = true) :
    ((deploy m c).run s).2.fs = s.fs := by
  have hbody : ∃ t, (deployBody m c).run s = (none, t) ∧ t.fs = s.fs := by
    unfold deployBody isFileAt
    rw [look_bind_run]
    cases testF s.fs s.cwd (c.inBuild buildSuccess)
    · exact ⟨_, refuseIf_true_seq_run _ _ _, rfl⟩
    rw [Bool.not_true, refuseIf_false_seq, look_bind_run]
    cases testF s.fs s.cwd (c.inConfig configSuccess)
    · exact ⟨_, refuseIf_true_seq_run _ _ _, rfl⟩
    rw [Bool.not_true, refuseIf_false_seq, look_bind_run, h]
    exact ⟨_, refuseIf_true_seq_run _ _ _, rfl⟩
  obtain ⟨t, ht, hfs⟩ := hbody
  rw [deploy, bind_run_of_none ht]
  exact hfs

/-! ## Invocations -/

/-- The words of the actions ask to clean and to deploy, and the question whether to remove the
    home directory is answered with a yes. -/
def Invocation.RemovesHome (inv : Invocation) (tool : Path) (id : Text) (fs : FS) : Prop :=
  inv.args.head? = some id ∧
    (let words := actionsOf inv.machine fs inv.cwd inv.args
     "clean".toList ∈ words ∧ ("deploy".toList ∈ words ∨ "ALL".toList ∈ words)) ∧
    ∃ a, .asked .removeHome a ∈ inv.events tool fs ∧ isYes a = true

theorem hasClean_iff {words : List Text} :
    (flagsOf words).hasClean = true ↔ "clean".toList ∈ words := by
  rw [flagsOf, bne_iff_ne, ne_eq, arrayFind_eq_neg_one_iff, not_not]

theorem hasDeploy_iff {words : List Text} :
    (flagsOf words).hasDeploy = true ↔ "deploy".toList ∈ words ∨ "ALL".toList ∈ words := by
  rw [flagsOf, Bool.or_eq_true, bne_iff_ne, bne_iff_ne, ne_eq, ne_eq, arrayFind_eq_neg_one_iff,
    arrayFind_eq_neg_one_iff, not_not, not_not, or_comm]

/-- The accepted clusters of an invocation are plain, and their homes share a parent. -/
def Invocation.PlainBelow (tool : Path) (parent : Text) (inv : Invocation) : Prop :=
  ∀ fs c, inv.Accepts tool fs c → PlainNames inv.machine c ∧ c.ini.clusterParentDir = parent

/-- The tool's trees and the home directory of a cluster are apart: the parent of the homes is
    outside `build` and `config`, and the tool is not in the home directory. -/
structure ApartFromTool (tool : Path) (parent id : Text) : Prop where
  names : ∀ n ∈ tool, IsName n
  plain : PlainParent parent
  accepted : AcceptedId id
  build : ¬ tool ++ ["build".toList] <+: target [] (pathWord parent)
  config : ¬ tool ++ ["config".toList] <+: target [] (pathWord parent)
  home : ¬ homePath parent id <+: tool

section Protection

variable {tool : Path} {parent id : Text} {fs : FS} {m : Machine} {c : Cluster}

/-- A cluster of the tool with the shared parent. -/
structure SharesParent (tool : Path) (parent : Text) (m : Machine) (c : Cluster) : Prop
    extends PlainPaths m c where
  tool : c.tool = tool
  sharedParent : c.ini.clusterParentDir = parent

/-- The trees of the phases are separate from the home directory of another cluster, and those
    of `build()` and `config()` from that of the same one. -/
theorem ApartFromTool.separate (h : ApartFromTool tool parent id)
    (hc : SharesParent tool parent m c) :
    Separate c.buildTarget (homePath parent id) ∧ Separate c.configTarget (homePath parent id) ∧
      (c.clusterid ≠ id → Separate c.homeTarget (homePath parent id)) := by
  have hhome := h.home
  rw [homePath_eq (isName_of_acceptedId h.accepted)] at hhome ⊢
  have hcid : IsName c.clusterid := hc.canonical _ (by simp [configPath])
  have hne : ∀ kind ∈ reservedClusterids, id ≠ kind := by
    rintro kind hkind rfl
    exact h.accepted.2 hkind
  have hbuildTarget : c.buildTarget = tool ++ ["build".toList, c.clusterid] := by
    rw [hc.buildTarget_eq, buildPath, hc.tool]
  have hconfigTarget : c.configTarget = tool ++ ["config".toList, c.clusterid] := by
    rw [configTarget_eq hc.canonical, configPath, hc.tool]
  have hhomeTarget : c.homeTarget = target [] (pathWord parent) ++ [c.clusterid] := by
    rw [← homePath_eq ⟨hcid, hc.clusterid⟩, ← hc.sharedParent]
    rfl
  rw [hbuildTarget, hconfigTarget, hhomeTarget]
  exact ⟨separate_toolTree (hne _ (by decide +kernel)) h.build hhome,
    separate_toolTree (hne _ (by decide +kernel)) h.config hhome, separate_homes⟩

/-- A run that changes separate trees keeps what is around the home directory. -/
theorem ApartFromTool.keeps (h : ApartFromTool tool parent id) (hdeployed : Deployed parent id fs)
    {x : Script Shell Unit} {ds : List Path} (hds : ∀ d ∈ ds, Separate d (homePath parent id))
    (hx : ∀ fs, Keeps (fun s => ChangesBelow ds fs s.fs) x) :
    Keeps (fun s => SameAround (homePath parent id) fs s.fs) x := by
  intro s hs
  have hname := isName_of_acceptedId h.accepted
  have hnow := hdeployed.of_sameAround h.plain hname hs
  exact hs.trans ((hx s.fs s (Changes.refl _ _ _)).sameAround hds (hnow.dirs h.plain hname))

/-- `deploy()` does nothing to its own deployed cluster. -/
theorem ApartFromTool.keeps_deploy (h : ApartFromTool tool parent id)
    (hc : SharesParent tool parent m c) (hid : c.clusterid = id)
    (hdeployed : Deployed parent id fs) :
    Keeps (fun s => SameAround (homePath parent id) fs s.fs) (deploy m c) := by
  intro s hs
  have hnow := hdeployed.of_sameAround h.plain (isName_of_acceptedId h.accepted) hs
  have hword : homeWord parent id ++ [clusterAllNodes] = c.inHome clusterAllNodes := by
    rw [← hid, ← hc.sharedParent]
    rfl
  have habsolute : IsAbsolute (c.inHome clusterAllNodes) := hc.isAbsolute_home.append _
  rw [Deployed, hword, habsolute.testF_eq (d := s.cwd)] at hnow
  rwa [deploy_fs_of_deployed hnow]

/-- Nor do the phases of another invocation without `clean`. -/
theorem ApartFromTool.keeps_dispatch (h : ApartFromTool tool parent id)
    (hc : SharesParent tool parent m c) (hid : c.clusterid = id)
    (hdeployed : Deployed parent id fs) {f : Flags} (hclean : f.hasClean = false) :
    Keeps (fun s => SameAround (homePath parent id) fs s.fs) (dispatch m c f) := by
  obtain ⟨hbuild, hconfig, -⟩ := h.separate hc
  rw [dispatch, if_neg (by simp [hclean])]
  refine keeps_bind (keeps_whenever fun _ => ?_) fun _ =>
    keeps_bind (keeps_whenever fun _ => ?_) fun _ => keeps_whenever fun _ => ?_
  · exact h.keeps hdeployed (by simp [hbuild]) hc.keeps_build
  · exact h.keeps hdeployed (by simp [hconfig]) hc.keeps_config
  · exact h.keeps_deploy hc hid hdeployed

/-- `clean()` does nothing to a home directory, or its removal has been confirmed. -/
theorem ApartFromTool.clean_sameAround (h : ApartFromTool tool parent id)
    (hc : SharesParent tool parent m c) (hdeployed : Deployed parent id fs) (f : Flags) {s : Shell}
    (hs : s.fs = fs) : SameAround (homePath parent id) fs ((clean m c f).run s).2.fs ∨
      f.hasDeploy = true ∧ HomeConfirmed ((clean m c f).run s).2 := by
  obtain ⟨hbuild, hconfig, -⟩ := h.separate hc
  have hrefl : ChangesBelow [c.buildTarget, c.configTarget] fs s.fs := hs ▸ Changes.refl _ _ _
  refine (keeps_clean_home hc.toPlainPaths f fs s (Or.inl hrefl)).imp_left fun hchanges => ?_
  exact hchanges.sameAround (by simp [hbuild, hconfig])
    (hdeployed.dirs h.plain (isName_of_acceptedId h.accepted))

theorem Invocation.Accepts.sharesParent {inv : Invocation} (h : inv.Accepts tool fs c)
    (htool : ∀ n ∈ tool, IsName n) (hplain : inv.PlainBelow tool parent) :
    SharesParent tool parent inv.machine c := by
  obtain ⟨id, args, -, hmade⟩ := h.madeOf
  obtain ⟨hnames, hparent⟩ := hplain fs c h
  exact { plainPaths_of_accepts htool h hnames with tool := hmade.tool, sharedParent := hparent }

/-- **One invocation** leaves a deployed home directory alone, unless its removal has been
    confirmed. -/
theorem Invocation.sameAround {inv : Invocation} (h : ApartFromTool tool parent id)
    (hplain : inv.PlainBelow tool parent) (hdeployed : Deployed parent id fs)
    (hnot : ¬ inv.RemovesHome tool id fs) :
    SameAround (homePath parent id) fs (inv.run tool fs).2.fs := by
  by_cases haccepts : ∃ c, inv.Accepts tool fs c
  · obtain ⟨c, hc⟩ := haccepts
    have hshares := hc.sharesParent h.names hplain
    obtain ⟨hbuild, hconfig, hhome⟩ := h.separate hshares
    by_cases hid : c.clusterid = id
    · have hrun := Invocation.run_of_accepts hc
      rw [hrun]
      cases hclean : (inv.flags fs).hasClean with
      | false => exact h.keeps_dispatch hshares hid hdeployed hclean _ fun _ _ => rfl
      | true =>
        have hdispatch : dispatch inv.machine c (inv.flags fs) = clean inv.machine c (inv.flags fs) := by
          rw [dispatch, if_pos hclean]
        rw [hdispatch] at hrun ⊢
        rcases h.clean_sameAround hshares hdeployed (inv.flags fs) (s := inv.start fs) rfl with
          hsame | ⟨hdeploy, a, ha, hyes⟩
        · exact hsame
        · obtain ⟨cid, args, hargs, hmade⟩ := hc.madeOf
          refine absurd ⟨?_, ⟨hasClean_iff.mp hclean, hasDeploy_iff.mp hdeploy⟩, a, ?_, hyes⟩ hnot
          · rw [hargs, List.head?_cons, ← hid, hmade.clusterid]
          · rwa [Invocation.events, hrun]
    · refine (Invocation.changes h.names hc hshares.toPlainNames).sameAround (fun d hd => ?_)
        (hdeployed.dirs h.plain (isName_of_acceptedId h.accepted))
      simp only [Cluster.trees, List.mem_cons, List.not_mem_nil, or_false] at hd
      rcases hd with rfl | rfl | rfl
      · exact hbuild
      · exact hconfig
      · exact hhome hid
  · rw [Invocation.fs_run_of_not_accepts fun c hc => haccepts ⟨c, hc⟩]
    exact fun _ _ => rfl

end Protection

/-! ## A protected directory, and three that are not -/

/-- A tree with these directories and, as empty files, these files. -/
def treeOf (dirs files : List Path) : FS := fun p =>
  if p ∈ dirs then some .dir else if p ∈ files then some (.file ⟨[], false⟩) else none

/-- `/opt/mycluster` is deployed. -/
def deployedDirs : List Path := [[], ["opt".toList], ["opt".toList, "mycluster".toList]]
def deployedTree : FS :=
  treeOf deployedDirs [["opt".toList, "mycluster".toList, clusterAllNodes]]

/-- `args` in the root directory, on a host, with the settings `ini`. -/
def simpleInvocation (m : Machine) (ini : Ini) (args answers : List Text) : Invocation where
  machine := m
  args := args
  inputs _ := demoInputs ini demoNodesCfg [] "s\n".toList "s".toList
  cwd := []
  answers := answers
  faults := []

theorem apartFromTool_demo : ApartFromTool ["rct".toList] "/opt".toList "mycluster".toList where
  names := by decide +kernel
  plain := ⟨⟨["opt".toList], by decide +kernel⟩, by decide +kernel⟩
  accepted := by decide +kernel
  build := by decide +kernel
  config := by decide +kernel
  home := by decide +kernel

theorem not_removesHome_of_id {inv : Invocation} {tool : Path} {id : Text} {fs : FS}
    (h : inv.args.head? ≠ some id) : ¬ inv.RemovesHome tool id fs := fun hremoves => h hremoves.1

theorem not_removesHome_of_words {inv : Invocation} {tool : Path} {id : Text} {fs : FS}
    (h : "clean".toList ∉ actionsOf inv.machine fs inv.cwd inv.args) :
    ¬ inv.RemovesHome tool id fs := fun hremoves => h hremoves.2.1.1

/-- The names of the small cluster are plain. -/
theorem plainBelow_demo (args answers : List Text) :
    (simpleInvocation plainHost demoIni args answers).PlainBelow ["rct".toList] "/opt".toList := by
  intro fs c hc
  obtain ⟨id, as, -, hmade⟩ := hc.madeOf
  have hini : c.ini = demoIni := (Option.some.inj hmade.ini).symm
  have hcfg : c.nodesCfg = demoNodesCfg := (Option.some.inj hmade.nodesCfg).symm
  have hnodes : nodesAt plainHost c demoShell = ["n1".toList] := by
    unfold nodesAt listAt settingAt
    rw [hcfg]
    decide +kernel
  have hports : listAt plainHost c demoShell "n1".toList "ports".toList = ["6377".toList] := by
    unfold listAt settingAt
    rw [hcfg]
    decide +kernel
  have hverno : '/' ∉ pkgVerno plainHost demoIni.redisPkg ∧
      '/' ∉ pkgVerno plainHost demoIni.hiredisPkg := by decide +kernel
  have hids : ∀ id, Listed plainHost c id → id = "n1".toList := by
    intro id hid
    have hmem := (stableReads_plainHost c).mem_nodesAt demoShell hid
    rwa [hnodes, List.mem_singleton] at hmem
  refine ⟨?_, by rw [hini]; rfl⟩
  exact {
    parentDir := by rw [hini]; exact apartFromTool_demo.plain
    ids := fun id hid => by rw [hids id hid]; decide +kernel
    ports := fun id hid l hl port hport => by
      rw [(stableReads_plainHost c).eq_listAt demoShell hl, hids id hid, hports,
        List.mem_singleton] at hport
      rw [hport]
      decide +kernel
    rdbDirName := by rw [hini]; decide +kernel
    tlsCacertdir := by rw [hini]; decide +kernel
    redisVerno := by rw [hmade.redisVerno, hini]; exact hverno.1
    hiredisVerno := by rw [hmade.hiredisVerno, hini]; exact hverno.2 }

/-- `mycluster ALL`, and `otherone clean deploy` with a yes. -/
def protectedRun : List Invocation :=
  [simpleInvocation plainHost demoIni ["mycluster".toList, "ALL".toList] [],
    simpleInvocation plainHost demoIni ["otherone".toList, "clean".toList, "deploy".toList]
      ["yes".toList]]

/-- Invocations without a confirmed removal change something in a deployed home directory, whose
    parent is outside the tool's `build` and `config`. -/
def Disturbs (tool : Path) (parent id : Text) (invs : List Invocation) (fs : FS) : Prop :=
  AcceptedId id ∧ Deployed parent id fs ∧
    ¬ tool ++ ["build".toList] <+: target [] (pathWord parent) ∧
    ¬ tool ++ ["config".toList] <+: target [] (pathWord parent) ∧
    Throughout tool (fun inv fs => ¬ inv.RemovesHome tool id fs) invs fs ∧
    ∃ p, homePath parent id <+: p ∧ history tool invs fs p ≠ fs p

/-- Packages that unpack to `redis-8`, and a `make` that leaves a file where it works. -/
def makingHost : Machine :=
  { plainHost with
    topLevel := fun _ => ["redis-8".toList]
    tar := fun _ dir fs => (set fs (dir ++ ["redis-8".toList]) .dir, true)
    make := fun _ dir fs => (set fs (dir ++ ["obj".toList]) (.file ⟨[], false⟩), true) }

/-- `secondone` is deployed too, and the tool has built and configured `mycluster`. -/
def configuredTree : FS :=
  treeOf (deployedDirs ++ [["opt".toList, "secondone".toList], ["rct".toList],
      ["rct".toList, "build".toList], ["rct".toList, "build".toList, "mycluster".toList],
      ["rct".toList, "config".toList], ["rct".toList, "config".toList, "mycluster".toList]])
    [["opt".toList, "mycluster".toList, clusterAllNodes],
      ["rct".toList, "build".toList, "mycluster".toList, buildSuccess],
      ["rct".toList, "config".toList, "mycluster".toList, configSuccess]]

end RedisCluster
