import RedisCluster.Deployment.Configured

/-!
# A build that was cut off

`build()` does not unpack a package that has been unpacked before, and `deploy()` asks for
`BUILD_SUCCESS`. A build that is cut off between the two is refused from then on, and so is each
deployment.

* `HalfBuilt`: a package has been unpacked, and the marker is missing.
* `build_run_of_halfBuilt`, `deploy_run_of_notBuilt`: the two refusals.
* `halfBuilt_history`: only a confirmed removal of the build directory ends it.
-/

namespace RedisCluster

open FileTree Errexit Script

/-- The package directory `name` has been made in the build directory of the cluster, and
    `BUILD_SUCCESS` is not there. -/
structure HalfBuilt (tool : Path) (id name : Text) (fs : FS) : Prop where
  isName : IsName name
  unpacked : testD fs [] (absWord (buildPath tool id) ++ [name]) = true
  unmarked : testF fs [] (absWord (buildPath tool id) ++ [buildSuccess]) = false

/-- One of the packages of the cluster is unpacked to the directory `name`. -/
def Cluster.Unpacks (c : Cluster) (name : Text) : Prop :=
  pathWord ("redis-".toList ++ c.redisVerno) = [name] ∨
    pathWord ("hiredis-".toList ++ c.hiredisVerno) = [name]

/-- The invocation is to build or to deploy. -/
def Invocation.BuildsOrDeploys (inv : Invocation) (fs : FS) : Prop :=
  (inv.flags fs).hasClean = false ∧
    ((inv.flags fs).hasBuild = true ∨ (inv.flags fs).hasDeploy = true)

section Around

variable {d : Path} {fs fs' : FS} {cwd : Path} {v w : PathWord}

theorem SameAround.testD_eq (h : SameAround d fs fs') (hw : Into d w v) :
    testD fs' cwd w = testD fs cwd w := by
  rw [testD, testD, h.resolve_eq hw]
  cases hp : resolve fs cwd w with
  | none => rfl
  | some p =>
    have hend : p ∈ visited (startOf cwd w).1 (startOf cwd w).2 := by
      rw [resolve_eq_target hp]
      exact end_mem_visited _ _
    exact isDir_congr (h p (hw.visited_cases hend))

end Around

section HalfBuilt

variable {tool : Path} {parent id name : Text} {fs fs' : FS} {m : Machine} {c : Cluster} {s : Shell}

theorem HalfBuilt.into (h : HalfBuilt tool id name fs) (htool : ∀ n ∈ tool, IsName n)
    (hid : IsName id) : Into (buildPath tool id) (absWord (buildPath tool id) ++ [name]) [name] :=
  into_absWord (isName_of_mem_kind htool hid (by decide)) (by simp [Ne.symm h.isName.2.2])

theorem HalfBuilt.dirs (h : HalfBuilt tool id name fs) (htool : ∀ n ∈ tool, IsName n)
    (hid : IsName id) : ∀ p, p <+: buildPath tool id → fs p = some .dir := by
  obtain ⟨p, hp, -⟩ := testD_eq_true_iff.mp h.unpacked
  exact (h.into htool hid).dirs_of_resolve (by simp) hp

theorem HalfBuilt.of_sameAround (h : HalfBuilt tool id name fs) (htool : ∀ n ∈ tool, IsName n)
    (hid : IsName id) (hsame : SameAround (buildPath tool id) fs fs') :
    HalfBuilt tool id name fs' where
  isName := h.isName
  unpacked := by
    rw [hsame.testD_eq (h.into htool hid)]
    exact h.unpacked
  unmarked := by
    have hinto : Into (buildPath tool id) (absWord (buildPath tool id) ++ [buildSuccess])
        [buildSuccess] := into_absWord (isName_of_mem_kind htool hid (by decide)) (by decide +kernel)
    rw [hsame.testF_eq hinto]
    exact h.unmarked

/-- `mkdir -p` of directories that are there changes nothing. -/
theorem mkdirP_fs_of_dirs {dirs : List PathWord} (h : ∀ p ∈ mkdirPaths s.cwd dirs, s.fs p ≠ none) :
    (s.after m (.mkdirP dirs)).fs = s.fs := by
  funext p
  rcases s.changes_after m (.mkdirP dirs) p with heq | htouches | ⟨hmakes, hnone, -⟩
  · exact heq
  · cases htouches
  · exact absurd hnone (h p hmakes)

/-- **The build is refused**, and changes nothing. -/
theorem build_run_of_halfBuilt (hunpacks : c.Unpacks name)
    (hdirs : ∀ p ∈ mkdirPaths s.cwd [c.clusterBuildDir], s.fs p ≠ none)
    (hunpacked : testD s.fs s.cwd (c.clusterBuildDir ++ [name]) = true) :
    ((build m c).run s).1 = none ∧ ((build m c).run s).2.fs = s.fs := by
  suffices hbody : ∃ t, (buildBody m c).run s = (none, t) ∧ t.fs = s.fs by
    obtain ⟨t, ht, hfs⟩ := hbody
    rw [build, bind_run_of_none ht]
    exact ⟨rfl, hfs⟩
  unfold buildBody isFileAt isDirAt
  rw [look_bind_run]
  cases testF s.fs s.cwd (c.inBuild buildSuccess)
  · rw [refuseIf_false_seq, bind_run]
    have hafter := exec_run_snd m (.mkdirP [c.clusterBuildDir]) s
    rcases hmkdir : (exec m (.mkdirP [c.clusterBuildDir])).run s with ⟨_ | _, u⟩
    · rw [hmkdir] at hafter
      exact ⟨u, rfl, (congrArg Shell.fs hafter).trans (mkdirP_fs_of_dirs hdirs)⟩
    replace hafter : u = s.after m (.mkdirP [c.clusterBuildDir]) := by
      rw [hmkdir] at hafter
      exact hafter
    have hfs : u.fs = s.fs := by rw [hafter, mkdirP_fs_of_dirs hdirs]
    have hthere : testD u.fs u.cwd (c.clusterBuildDir ++ [name]) = true := by
      rw [hfs, hafter]
      exact hunpacked
    dsimp only
    cases c.inputs.pkgFile c.ini.redisPkg
    · exact ⟨_, refuseIf_true_seq_run _ _ _, hfs⟩
    rw [Bool.not_true, refuseIf_false_seq]
    cases c.inputs.pkgFile c.ini.hiredisPkg
    · exact ⟨_, refuseIf_true_seq_run _ _ _, hfs⟩
    rw [Bool.not_true, refuseIf_false_seq, look_bind_run]
    cases hredis : testD u.fs u.cwd c.redisBuildDir
    · rw [refuseIf_false_seq, look_bind_run]
      rcases hunpacks with heq | heq
      · rw [Cluster.redisBuildDir, heq, hthere] at hredis
        cases hredis
      · rw [Cluster.hiredisBuildDir, heq, hthere]
        exact ⟨_, refuseIf_true_seq_run _ _ _, hfs⟩
    · exact ⟨_, refuseIf_true_seq_run _ _ _, hfs⟩
  · exact ⟨_, refuseIf_true_seq_run _ _ _, rfl⟩

/-- So is the deployment. -/
theorem deploy_run_of_notBuilt (h : testF s.fs s.cwd (c.inBuild buildSuccess) = false) :
    ((deploy m c).run s).1 = none ∧ ((deploy m c).run s).2.fs = s.fs := by
  suffices hbody : ∃ t, (deployBody m c).run s = (none, t) ∧ t.fs = s.fs by
    obtain ⟨t, ht, hfs⟩ := hbody
    rw [deploy, bind_run_of_none ht]
    exact ⟨rfl, hfs⟩
  unfold deployBody isFileAt
  rw [look_bind_run, h]
  exact ⟨_, refuseIf_true_seq_run _ _ _, rfl⟩

/-! ## Invocations -/

/-- What the phases of the cluster test of a half-built directory. -/
theorem HalfBuilt.seen (h : HalfBuilt tool c.clusterid name s.fs) (hc : SharesParent tool parent m c) :
    testD s.fs s.cwd (c.clusterBuildDir ++ [name]) = true ∧
      testF s.fs s.cwd (c.inBuild buildSuccess) = false ∧
      ∀ p ∈ mkdirPaths s.cwd [c.clusterBuildDir], s.fs p ≠ none := by
  have hword : c.clusterBuildDir = absWord (buildPath tool c.clusterid) := by
    rw [Cluster.clusterBuildDir, hc.tool]
  have hnames : ∀ n ∈ tool ++ ["config".toList, c.clusterid], IsName n := hc.tool ▸ hc.canonical
  have htool : ∀ n ∈ tool, IsName n := fun n hn => hnames n (by simp [hn])
  have hid : IsName c.clusterid := hnames _ (by simp)
  have habsolute : ∀ v, IsAbsolute (c.clusterBuildDir ++ v) := fun v => ⟨_, rfl⟩
  refine ⟨?_, ?_, fun p hp => ?_⟩
  · rw [(habsolute [name]).testD_eq (d := []), hword]
    exact h.unpacked
  · rw [Cluster.inBuild, (habsolute _).testF_eq (d := []), hword]
    exact h.unmarked
  · have hle : p <+: buildPath tool c.clusterid := by
      simp only [mkdirPaths, List.flatMap_cons, List.flatMap_nil, List.append_nil, hword] at hp
      have hbuild : (buildPath tool c.clusterid).foldl step [] = buildPath tool c.clusterid :=
        foldl_step_of_isName (isName_of_mem_kind htool hid (by decide)) []
      rw [← hbuild]
      refine prefix_foldl_step_of_mem_visited (fun hdots => ?_) hp
      exact (isName_of_mem_kind htool hid (by decide) _ hdots).2.2 rfl
    rw [h.dirs htool hid p hle]
    simp

/-- The phases of an invocation without `clean` leave the half-built directory of their own cluster
    alone, and fail when they come to build or to deploy. -/
theorem dispatch_run_of_halfBuilt (h : Outside tool parent) (hid : AcceptedId c.clusterid)
    (hc : SharesParent tool parent m c) (hunpacks : c.Unpacks name) {f : Flags}
    (hclean : f.hasClean = false) (hhalf : HalfBuilt tool c.clusterid name s.fs) :
    SameAround (buildPath tool c.clusterid) s.fs ((dispatch m c f).run s).2.fs ∧
      (f.hasBuild = true ∨ f.hasDeploy = true → ((dispatch m c f).run s).1 = none) := by
  have hname := (isName_of_acceptedId hid).1
  obtain ⟨hthere, -, hdirs⟩ := hhalf.seen hc
  rw [dispatch, if_neg (by simp [hclean])]
  cases hbuild : f.hasBuild with
  | true =>
    obtain ⟨hstatus, hfs⟩ := build_run_of_halfBuilt (m := m) hunpacks hdirs hthere
    rw [whenever, if_pos rfl, bind_run_of_none (Prod.ext hstatus rfl)]
    exact ⟨fun p _ => by rw [hfs], fun _ => rfl⟩
  | false =>
    have hconfig : SameAround (buildPath tool c.clusterid) s.fs
        ((whenever f.hasConfig (config m c)).run s).2.fs := by
      have hsep : Separate c.configTarget (buildPath tool c.clusterid) := by
        rw [configTarget_eq hc.canonical, hc.tool]
        exact (separate_kinds tool _ _).symm
      cases f.hasConfig
      · exact fun _ _ => rfl
      · refine ChangesBelow.sameAround (hc.keeps_config s.fs s (Changes.refl _ _ _)) (by simp [hsep]) ?_
        exact hhalf.dirs h.names hname
    rw [whenever, if_neg (by simp), pure_seq, bind_run]
    rcases hrun : (whenever f.hasConfig (config m c)).run s with ⟨_ | _, u⟩
    · rw [hrun] at hconfig
      exact ⟨hconfig, fun _ => rfl⟩
    · rw [hrun] at hconfig
      obtain ⟨-, hunmarked, -⟩ := (hhalf.of_sameAround h.names hname hconfig).seen hc
      obtain ⟨hstatus, hfs⟩ := deploy_run_of_notBuilt (m := m) hunmarked
      cases f.hasDeploy with
      | false => exact ⟨hconfig, by simp⟩
      | true =>
        rw [whenever, if_pos rfl]
        exact ⟨fun p hp => by rw [hfs]; exact hconfig p hp, fun _ => hstatus⟩

/-- An invocation that is not accepted fails. -/
theorem Invocation.fails_of_not_accepts {inv : Invocation} (h : ∀ c, ¬ inv.Accepts tool fs c) :
    (inv.run tool fs).1 = none := by
  unfold Invocation.run main
  rw [look_bind_run]
  cases hargs : inv.args with
  | nil => rfl
  | cons id args =>
    rcases hv : (validate inv.machine tool id (inv.inputs id)).run (inv.start fs) with ⟨_ | c, s⟩
    · rw [bind_run_of_none hv]
    · exact absurd ⟨id, args, s, hargs, hv⟩ (h c)

end HalfBuilt

/-! ## A `make` that fails -/

/-- On this host packages are unpacked, and cannot be compiled. -/
def brokenHost : Machine := { plainHost with make := fun _ _ fs => (fs, false) }

/-- `mycluster build` there. -/
def halfBuiltTree : FS :=
  ((simpleInvocation brokenHost demoIni ["mycluster".toList, "build".toList] []).run ["rct".toList]
    demoShell.fs).2.fs

/-- On a host that can, the build is tried again, and with all that follows it. -/
def retriedBuild : List Invocation :=
  [simpleInvocation plainHost demoIni ["mycluster".toList, "build".toList] [],
    simpleInvocation plainHost demoIni ["mycluster".toList, "ALL".toList] []]

end RedisCluster
