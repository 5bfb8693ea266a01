import RedisCluster.Shell.SideBySide
import RedisCluster.Tool.Trees

/-!
# Phases in two trees

What a phase does depends on the trees of its cluster only: in two shells that have these trees
in common it does the same, and they have them in common behind it.

* `BuildAct.isLocal`, `ConfigAct.isLocal`, `DeployAct.isLocal`: the steps of the phases lead
  into the trees.
* `parallel_side_build`, `parallel_side_config`, `parallel_side_deploy`, `parallel_side_clean`,
  and `parallel_side_main`: the phases, and the whole script.
-/

namespace RedisCluster

open FileTree Errexit Script

/-- A step whose words lead into the trees. -/
def Act.IsLocal (ds es : List Path) : Act → Prop
  | .cmd cm => ∀ fs cwd, cm.Local ds es fs cwd
  | .list dir args installDir => InTrees ds dir ∧ (∀ w ∈ installDir, AtTree es w) ∧
      ∀ fs fs' cwd, args fs cwd = args fs' cwd

/-- The inputs are read without looking at the tree. -/
structure StableInputs (m : Machine) (c : Cluster) : Prop where
  reads : StableReads m c
  modules : ∀ fs fs' cwd, redisMakeArgs m c.ini fs cwd = redisMakeArgs m c.ini fs' cwd

section Words

variable {m : Machine} {c : Cluster} (h : PlainPaths m c) {v : PathWord}

include h

theorem PlainPaths.into_build (hv : ['.', '.'] ∉ v) : Into c.buildTarget (c.clusterBuildDir ++ v) v :=
  into_append ⟨_, rfl⟩ (h.noDots_tool _ (by decide)) hv

theorem PlainPaths.into_config (hv : ['.', '.'] ∉ v) :
    Into c.configTarget (c.clusterConfigDir ++ v) v :=
  into_append ⟨_, rfl⟩ (h.noDots_tool _ (by decide)) hv

theorem PlainPaths.into_home (hv : ['.', '.'] ∉ v) : Into c.homeTarget (c.clusterHomeDir ++ v) v :=
  into_append h.isAbsolute_home h.noDots_home hv

theorem PlainPaths.self_build : Into c.buildTarget c.clusterBuildDir [] := by
  simpa using h.into_build (v := []) (by simp)

theorem PlainPaths.self_config : Into c.configTarget c.clusterConfigDir [] := by
  simpa using h.into_config (v := []) (by simp)

theorem PlainPaths.self_home : Into c.homeTarget c.clusterHomeDir [] := by
  simpa using h.into_home (v := []) (by simp)

theorem PlainPaths.in_build (hv : ['.', '.'] ∉ v) (hne : v ≠ []) :
    InTrees c.trees (c.clusterBuildDir ++ v) :=
  ⟨_, by simp [Cluster.trees], v, hne, h.into_build hv⟩

theorem PlainPaths.in_config (hv : ['.', '.'] ∉ v) (hne : v ≠ []) :
    InTrees c.trees (c.clusterConfigDir ++ v) :=
  ⟨_, by simp [Cluster.trees], v, hne, h.into_config hv⟩

theorem PlainPaths.in_home (hv : ['.', '.'] ∉ v) (hne : v ≠ []) :
    InTrees c.trees (c.clusterHomeDir ++ v) :=
  ⟨_, by simp [Cluster.trees], v, hne, h.into_home hv⟩

theorem PlainPaths.in_redisBuildDir : InTrees c.trees c.redisBuildDir :=
  h.in_build (noDots_package (by decide) (by decide) h.redisVerno) (pathWord_ne_nil _)

theorem PlainPaths.in_hiredisBuildDir : InTrees c.trees c.hiredisBuildDir :=
  h.in_build (noDots_package (by decide) (by decide) h.hiredisVerno) (pathWord_ne_nil _)

theorem PlainPaths.in_nodeconfdir {id : Text} (hid : IsPlainName id) (hv : ['.', '.'] ∉ v) :
    InTrees c.trees (c.nodeconfdir id ++ v) := by
  rw [Cluster.nodeconfdir, List.append_assoc]
  exact h.in_config (by simp [hid.noDots, hv]) (by simp [pathWord_ne_nil])

/-- The words that the phases test lead to the trees or into them. -/
theorem PlainPaths.into_of_tested {w : PathWord} (hw : w ∈ testedWords c) :
    ∃ d ∈ c.trees, ∃ v, Into d w v := by
  have hin : InTrees c.trees w → ∃ d ∈ c.trees, ∃ v, Into d w v := by
    rintro ⟨d, hd, v, -, hw⟩
    exact ⟨d, hd, v, hw⟩
  simp only [testedWords, List.mem_cons, List.not_mem_nil, or_false] at hw
  rcases hw with rfl | rfl | rfl | rfl | rfl | rfl | rfl | rfl | rfl
  · exact hin (h.in_build (by decide +kernel) (by simp))
  · exact hin (h.in_config (by decide +kernel) (by simp))
  · exact hin (h.in_home (by decide +kernel) (by simp))
  · exact hin (h.in_config (by decide +kernel) (by simp))
  · exact ⟨c.buildTarget, by simp [Cluster.trees], [], h.self_build⟩
  · exact ⟨c.configTarget, by simp [Cluster.trees], [], h.self_config⟩
  · exact ⟨c.homeTarget, by simp [Cluster.trees], [], h.self_home⟩
  · exact hin h.in_redisBuildDir
  · exact hin h.in_hiredisBuildDir

end Words

/-! ## Steps -/

section Steps

variable {m : Machine} {c : Cluster} (h : PlainPaths m c) {a : Act}

include h

theorem BuildAct.isLocal (hinputs : StableInputs m c)
    (ha : WithMarker (BuildAct m c) (buildMarker m c) a) :
    a.IsLocal c.trees [c.buildTarget] := by
  rcases ha with ha | rfl
  · cases ha with
    | buildDir =>
      refine fun _ _ => List.forall_mem_singleton.mpr ⟨c.buildTarget, ?_, [], h.self_build⟩
      simp [Cluster.trees]
    | redisTar | hiredisTar => exact fun _ _ => ⟨c.buildTarget, by simp, h.self_build⟩
    | redisMake => exact ⟨h.in_redisBuildDir, by simp, hinputs.modules⟩
    | hiredisMake => exact ⟨h.in_hiredisBuildDir, by simp, fun _ _ _ => rfl⟩
  · exact fun _ _ => h.in_build (by decide +kernel) (by simp)

theorem ConfigAct.isLocal (ha : WithMarker (ConfigAct m c) (configMarker m c) a) :
    a.IsLocal c.trees [] := by
  have hscript : ∀ {id name : Text}, Listed m c id → name ≠ ['.', '.'] →
      InTrees c.trees (c.nodeconfdir id ++ [name]) := fun hid hname =>
    h.in_nodeconfdir (h.ids _ hid) (by simp [Ne.symm hname])
  rcases ha with ha | rfl
  · cases ha with
    | configDir =>
      refine fun _ _ => List.forall_mem_singleton.mpr ⟨c.configTarget, ?_, [], h.self_config⟩
      simp [Cluster.trees]
    | nodeDir hid =>
      refine fun _ _ => List.forall_mem_singleton.mpr ⟨c.configTarget, ?_, _,
        h.into_config (h.ids _ hid).noDots⟩
      simp [Cluster.trees]
    | noNodes | addNode | authPass | env | create =>
      exact fun _ _ => h.in_config (by decide +kernel) (by simp)
    | @conf n port pass hn hp hpass =>
      exact fun _ _ => h.in_nodeconfdir (h.ids _ hn.listed)
        (noDots_confName (h.ids _ hn.listed) (h.ports _ hn.listed _ hn.ports port hp))
    | start hn | shutdown hn | connect hn => exact fun _ _ => hscript hn.listed (by decide +kernel)
  · exact fun _ _ => h.in_config (by decide +kernel) (by simp)

theorem DeployAct.isLocal (ha : WithMarker (DeployAct m c) (deployMarker c) a) :
    a.IsLocal c.trees [c.homeTarget] := by
  have hinstall : ∀ w ∈ some c.clusterHomeDir, AtTree [c.homeTarget] w := by
    rintro w ⟨⟩
    exact ⟨c.homeTarget, by simp, h.self_home⟩
  have hhome : ∀ {v : PathWord}, ['.', '.'] ∉ v → ∃ d ∈ c.trees, ∃ u, Into d (c.clusterHomeDir ++ v) u :=
    fun hv => ⟨c.homeTarget, by simp [Cluster.trees], _, h.into_home hv⟩
  rcases ha with ha | rfl
  · cases ha with
    | homeDirs =>
      intro _ _ w hw
      simp only [homeSubdirs, Cluster.inHome, List.mem_cons, List.not_mem_nil, or_false] at hw
      rcases hw with rfl | rfl | rfl | rfl | rfl
      · exact hhome h.rdbDirName.noDots
      all_goals exact hhome (by decide +kernel)
    | @conf nodeid port ports hid hl hp =>
      exact fun _ _ => ⟨h.in_nodeconfdir (h.ids _ hid)
        (noDots_confName (h.ids _ hid) (h.ports _ hid _ hl port hp)),
        h.in_home (by decide +kernel) (by simp)⟩
    | @copyScript nodeid stem hid hstem =>
      have hname : ['.', '.'] ∉ [(stem ++ ".sh").toList] := by
        simp only [scriptStems, List.mem_cons, List.not_mem_nil, or_false] at hstem
        rcases hstem with rfl | rfl | rfl | rfl <;> decide +kernel
      exact fun _ _ => ⟨h.in_nodeconfdir (h.ids _ hid) hname,
        h.in_home (noDots_scriptName (h.ids _ hid) hstem) (pathWord_ne_nil _)⟩
    | chmodScript hid hstem =>
      exact fun _ _ => h.in_home (noDots_scriptName (h.ids _ hid) hstem) (pathWord_ne_nil _)
    | chmodCreate => exact fun _ _ => h.in_home (by decide +kernel) (by simp)
    | @copyHome name hname =>
      have hdots : ['.', '.'] ∉ [name] := by
        simp only [List.mem_cons, List.not_mem_nil, or_false] at hname
        rcases hname with rfl | rfl | rfl | rfl <;> decide +kernel
      exact fun _ _ => ⟨h.in_config hdots (by simp), h.in_home (by simp) (by simp)⟩
    | redisInstall => exact ⟨h.in_redisBuildDir, hinstall, fun _ _ _ => rfl⟩
    | hiredisInstall => exact ⟨h.in_hiredisBuildDir, hinstall, fun _ _ _ => rfl⟩
    | certs =>
      have hcerts := h.tlsCacertdir.noDots
      refine fun _ _ => ⟨h.in_config hcerts (pathWord_ne_nil _), ?_,
        h.in_home hcerts (pathWord_ne_nil _)⟩
      rw [lastName_append (pathWord_ne_nil _), pathWord_eq_singleton h.tlsCacertdir.noSlash]
      exact h.tlsCacertdir.ne_dots
  · exact fun _ _ => ⟨h.in_config (by decide +kernel) (by simp), h.in_home (by simp) (by simp)⟩

end Steps

/-! ## Phases -/

section Phases

variable {m : Machine} {c : Cluster} {es : List Path} {s t : Shell}

/-- A completed `mkdir -p` for a directory of the trees, or below it. -/
theorem Side.ready_of_mkdirP {ds : List Path} {d : Path} {dirs : List PathWord} {w v : PathWord}
    {s' t' : Shell} (h : Side ds [] s' t') (hd : d ∈ ds) (hw : Into d w v) (hmem : w ∈ dirs)
    (hrun : (exec m (.mkdirP dirs)).run t = (some (), t')) : Side ds [d] s' t' := by
  obtain ⟨hok, rfl⟩ := exec_eq_some_iff.mp hrun
  refine ⟨h.trees, List.forall_mem_singleton.mpr ⟨hd, ?_⟩, h.cwd, h.answers, h.faults, h.trace⟩
  rw [Shell.after_fs_of_ok hok]
  rw [Shell.run_of_outcome hok] at hok
  exact rooted_of_mkdirP hd hw hmem hok

/-- A directory of the trees that is there. -/
theorem Side.ready_of_testD {ds : List Path} {d : Path} {w : PathWord} (h : Side ds [] s t)
    (hd : d ∈ ds) (hw : Into d w []) (hthere : testD t.fs t.cwd w = true) : Side ds [d] s t := by
  obtain ⟨p, hp, hdir⟩ := testD_eq_true_iff.mp hthere
  obtain ⟨ns, rfl, rfl, -⟩ := hw.word
  rw [resolve_eq_target hp, isDir_iff] at hdir
  simp only [target, startOf, List.append_nil] at hdir
  refine ⟨h.trees, List.forall_mem_singleton.mpr ⟨hd, ?_⟩, h.cwd, h.answers, h.faults, h.trace⟩
  exact rooted_of_ne_none h.trees hd (by simp [hdir])

variable (h : PlainPaths m c) (hinputs : StableInputs m c) (hds : Unnested c.trees)

include h hinputs

theorem Side.agree (hs : Side c.trees es s t) : Agree m c s t := by
  refine ⟨fun w hw => ?_, fun w hw => ?_, fun n k => hinputs.reads.setting _ _ _ _ n k,
    fun n k => hinputs.reads.list _ _ _ _ n k⟩
  · obtain ⟨d, hd, v, hw⟩ := h.into_of_tested hw
    rw [hs.cwd]
    exact hw.testF_eq hs.trees hd
  · obtain ⟨d, hd, v, hw⟩ := h.into_of_tested hw
    rw [hs.cwd]
    exact hw.testD_eq hs.trees hd

include hds

/-- What is built from such steps does the same on both sides. -/
theorem parallel_side {P : Act → Prop} (hP : ∀ a, P a → a.IsLocal c.trees es) {α : Type}
    {x : Script Shell α} (hx : Built m c P x) : Parallel (Side c.trees es) x := by
  refine hx.parallel ⟨fun a ha => ?_, fun s t hs => hs.answers, fun s t q a as hs => hs.note _ as,
    fun s t r hs => hs.refused r, fun s t hs => hs.agree h hinputs⟩
  have hlocal := hP a ha
  cases a with
  | cmd cm => exact parallel_exec_side hds hlocal
  | list dir args installDir => exact parallel_cdMake_side hds hlocal.1 hlocal.2.1 hlocal.2.2

theorem parallel_side_read {α : Type} {x : Script Shell α} (hx : Built m c (fun _ => False) x) :
    Parallel (Side c.trees es) x :=
  parallel_side h hinputs hds (fun _ ha => ha.elim) hx

theorem parallel_side_config : Parallel (Side c.trees []) (config m c) :=
  parallel_side h hinputs hds (fun _ ha => ConfigAct.isLocal h ha) (built_config m c)

theorem parallel_side_build : Parallel (Side c.trees []) (build m c) := by
  unfold build buildBody
  simp only [bind_bind]
  refine parallel_bind (parallel_side_read h hinputs hds (built_isFileAt (by simp [testedWords])))
    fun _ => ?_
  refine parallel_bind (parallel_side_read h hinputs hds (built_refuseIf _ _)) fun _ => ?_
  refine parallel_bind_of_establishes (Q := fun _ => Side c.trees [c.buildTarget]) ?_
    (fun s t _ s' t' _ hst _ ht => ?_) (fun _ => ?_) fun _ _ _ hst => hst.weaken
  · refine parallel_exec_side hds fun _ _ => List.forall_mem_singleton.mpr ?_
    exact ⟨c.buildTarget, by simp [Cluster.trees], [], h.self_build⟩
  · exact hst.ready_of_mkdirP (by simp [Cluster.trees]) h.self_build (by simp) ht
  · have hrest := built_seq_marker m c (built_buildRest m c) (buildMarker m c)
    simp only [bind_bind] at hrest
    exact parallel_side h hinputs hds (fun _ ha => BuildAct.isLocal h hinputs ha) hrest

theorem parallel_side_deploy : Parallel (Side c.trees []) (deploy m c) := by
  unfold deploy deployBody
  simp only [bind_bind]
  refine parallel_bind (parallel_side_read h hinputs hds (built_isFileAt (by simp [testedWords])))
    fun _ => parallel_bind (parallel_side_read h hinputs hds (built_refuseIf _ _)) fun _ => ?_
  refine parallel_bind (parallel_side_read h hinputs hds (built_isFileAt (by simp [testedWords])))
    fun _ => parallel_bind (parallel_side_read h hinputs hds (built_refuseIf _ _)) fun _ => ?_
  refine parallel_bind (parallel_side_read h hinputs hds (built_isFileAt (by simp [testedWords])))
    fun _ => parallel_bind (parallel_side_read h hinputs hds (built_refuseIf _ _)) fun _ => ?_
  refine parallel_bind_of_establishes (Q := fun _ => Side c.trees [c.homeTarget]) ?_
    (fun s t _ s' t' _ hst _ ht => ?_) (fun _ => ?_) fun _ _ _ hst => hst.weaken
  · exact parallel_exec_side hds (DeployAct.isLocal h (Or.inl .homeDirs))
  · refine hst.ready_of_mkdirP (w := c.inHome "conf".toList) (by simp [Cluster.trees])
      (h.into_home (by decide +kernel)) (by simp [homeSubdirs]) ht
  · have hrest := built_seq_marker m c (built_deployRest m c) (deployMarker c)
    simp only [bind_bind] at hrest
    exact parallel_side h hinputs hds (fun _ ha => DeployAct.isLocal h ha) hrest

/-- A directory of the trees is removed only where it is there. -/
theorem parallel_side_removal {d : Path} {w : PathWord} (hd : d ∈ c.trees) (hw : Into d w [])
    (hmem : w ∈ testedWords c) {x : Script Shell Unit}
    (hx : Built m c (fun a => a = .cmd (.rmRf w)) x) :
    Parallel (Side c.trees []) (isDirAt w >>= fun there => whenever there x) := by
  refine parallel_bind_of_establishes
    (Q := fun there => Side c.trees (if there then [d] else [])) ?_
    (fun s t there s' t' _ hst _ ht => ?_) (fun there => ?_) fun _ _ _ hst => hst.weaken
  · exact parallel_side_read h hinputs hds (built_isDirAt hmem)
  · obtain ⟨hthere, rfl⟩ := isDirAt_eq_some_iff.mp ht
    cases there with
    | false => exact hst
    | true => exact hst.ready_of_testD hd hw hthere
  · refine parallel_whenever fun hthere => ?_
    rw [hthere, if_pos rfl]
    refine parallel_side h hinputs hds (fun a ha => ?_) hx
    rw [ha]
    exact fun _ _ => ⟨d, by simp, hw⟩

theorem parallel_side_clean (f : Flags) : Parallel (Side c.trees []) (clean m c f) := by
  unfold clean cleanDir
  refine parallel_bind (parallel_whenever fun _ => ?_) fun _ =>
    parallel_bind (parallel_whenever fun _ => ?_) fun _ => ?_
  · exact parallel_side_removal h hinputs hds (by simp [Cluster.trees]) h.self_build
      (by simp [testedWords]) (built_confirmRemoval m c _ rfl)
  · exact parallel_side_removal h hinputs hds (by simp [Cluster.trees]) h.self_config
      (by simp [testedWords]) (built_confirmRemoval m c _ rfl)
  · exact parallel_side_removal h hinputs hds (by simp [Cluster.trees]) h.self_home
      (by simp [testedWords]) (built_whenever fun _ => built_confirmRemoval m c _ rfl)

theorem parallel_side_dispatch (f : Flags) :
    Parallel (Side c.trees []) (dispatch m c f) := by
  unfold dispatch
  split
  · exact parallel_side_clean h hinputs hds f
  · refine parallel_bind (parallel_whenever fun _ => ?_) fun _ =>
      parallel_bind (parallel_whenever fun _ => ?_) fun _ => parallel_whenever fun _ => ?_
    · exact parallel_side_build h hinputs hds
    · exact parallel_side_config h hinputs hds
    · exact parallel_side_deploy h hinputs hds

end Phases

end RedisCluster
