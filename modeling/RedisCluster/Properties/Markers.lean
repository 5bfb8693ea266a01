import RedisCluster.Tool.Invocations
import RedisCluster.Tool.Runs

/-!
# What the markers say about `make`

`build()` and `deploy()` run `make` as `cd dir && make ...`. A `cd` that fails is not the
last command of its list, so `errexit` does not see it: `make` is left out, and the phase goes
on to its marker. The directory is named after the version in the package's file name, and
need not be the one that `tar` has made.

* `Compiled`, `MadeInstall`: `make` has been run with success in the trees of both packages.
* `compiled_of_buildBody`, `madeInstall_of_deployBody`: where each `cd` succeeds, they have.
* `markers_sound`: the markers in every sequence of invocations.
-/

namespace RedisCluster

open FileTree Errexit Script

variable {m : Machine} {c : Cluster}

/-! ## Statements about a run -/

/-- There is a `$cluster_build_dir/BUILD_SUCCESS`. -/
def BuildMarked (c : Cluster) (fs : FS) : Prop := isFile fs (target [] (c.inBuild buildSuccess)) = true

instance (c : Cluster) (fs : FS) : Decidable (BuildMarked c fs) := inferInstanceAs (Decidable (_ = _))

/-- `make args` has succeeded in a tree that the package unpacks to. -/
def MadeInTree (m : Machine) (c : Cluster) (evs : List Event) (pkg : Text) (args : List Text)
    (installDir : Option PathWord) : Prop :=
  ∃ top ∈ m.topLevel pkg,
    .ran (target [] c.clusterBuildDir ++ [top]) (.make args installDir) true ∈ evs

/-- Both packages have been unpacked, and compiled in their own trees. -/
structure Compiled (m : Machine) (c : Cluster) (evs : List Event) : Prop where
  unpacked : ∀ pkg ∈ [c.ini.redisPkg, c.ini.hiredisPkg],
    ∃ cwd, .ran cwd (.tar pkg c.clusterBuildDir) true ∈ evs
  redis : ∃ fs cwd, MadeInTree m c evs c.ini.redisPkg (redisMakeArgs m c.ini fs cwd) none
  hiredis : ∃ fs cwd, MadeInTree m c evs c.ini.hiredisPkg (hiredisMakeArgs fs cwd) none

/-- Both have been installed from their own trees. -/
structure MadeInstall (m : Machine) (c : Cluster) (evs : List Event) : Prop where
  redis : ∃ fs cwd, MadeInTree m c evs c.ini.redisPkg (redisInstallArgs c fs cwd)
    (some c.clusterHomeDir)
  hiredis : ∃ fs cwd, MadeInTree m c evs c.ini.hiredisPkg (hiredisInstallArgs c fs cwd)
    (some c.clusterHomeDir)

/-- Every `cd` has succeeded. -/
def CdsSucceed (evs : List Event) : Prop := ∀ cwd dir ok, .ran cwd (.cd dir) ok ∈ evs → ok = true

/-- The directory is one that the package unpacks to; the package has no `BUILD_SUCCESS`
    beside it. -/
def OwnTree (m : Machine) (c : Cluster) (pkg : Text) (dir : PathWord) : Prop :=
  (∃ top ∈ m.topLevel pkg, IsName top ∧ dir = c.clusterBuildDir ++ [top]) ∧
    buildSuccess ∉ m.topLevel pkg

/-- The directories derived from the names of the packages are their own. -/
def OwnTrees (m : Machine) (c : Cluster) : Prop :=
  OwnTree m c c.ini.redisPkg c.redisBuildDir ∧ OwnTree m c c.ini.hiredisPkg c.hiredisBuildDir

theorem CdsSucceed.of_isPrefix {evs evs' : List Event} (h : CdsSucceed evs') (hp : evs <+: evs') :
    CdsSucceed evs := fun cwd dir ok hev => h cwd dir ok (hp.subset hev)

theorem MadeInTree.of_isPrefix {evs evs' : List Event} {pkg : Text} {args : List Text}
    {installDir : Option PathWord} (h : MadeInTree m c evs pkg args installDir)
    (hp : evs <+: evs') : MadeInTree m c evs' pkg args installDir := by
  obtain ⟨top, htop, hev⟩ := h
  exact ⟨top, htop, hp.subset hev⟩

theorem Compiled.of_isPrefix {evs evs' : List Event} (h : Compiled m c evs) (hp : evs <+: evs') :
    Compiled m c evs' := by
  obtain ⟨hunpacked, ⟨fs, cwd, hredis⟩, fs', cwd', hhiredis⟩ := h
  refine ⟨fun pkg hpkg => ?_, ⟨fs, cwd, hredis.of_isPrefix hp⟩, fs', cwd', hhiredis.of_isPrefix hp⟩
  obtain ⟨d, hev⟩ := hunpacked pkg hpkg
  exact ⟨d, hp.subset hev⟩

theorem MadeInstall.of_isPrefix {evs evs' : List Event} (h : MadeInstall m c evs) (hp : evs <+: evs') :
    MadeInstall m c evs' := by
  obtain ⟨⟨fs, cwd, hredis⟩, fs', cwd', hhiredis⟩ := h
  exact ⟨⟨fs, cwd, hredis.of_isPrefix hp⟩, fs', cwd', hhiredis.of_isPrefix hp⟩

/-! ## `cd dir && make` -/

theorem mem_trace_after (s : Shell) (cm : Cmd) :
    .ran s.cwd cm (s.outcome m cm).2 ∈ (s.after m cm).trace := by
  simp [Shell.after]

/-- A `cd` into a package's own tree. -/
theorem cwd_after_cd {top : Text} (hname : IsName top) {s : Shell}
    (hok : (s.outcome m (.cd (c.clusterBuildDir ++ [top]))).2 = true) :
    (s.after m (.cd (c.clusterBuildDir ++ [top]))).cwd = target [] c.clusterBuildDir ++ [top] := by
  simp only [Shell.after, Shell.cwdAfter, hok, if_true]
  rw [target_append_name hname]
  rfl

/-- Where the `cd` succeeds, a completed list has run `make` in the directory. -/
theorem made_of_cdMake {pkg : Text} {dir : PathWord} {args : FS → Path → List Text}
    {installDir : Option PathWord} (hown : OwnTree m c pkg dir) {s t : Shell}
    (h : (cdMake m dir args installDir).run s = (some (), t)) (hcds : CdsSucceed t.trace) :
    ∃ fs cwd, MadeInTree m c t.trace pkg (args fs cwd) installDir := by
  obtain ⟨⟨top, htop, hname, rfl⟩, -⟩ := hown
  rcases cdMake_eq_some_iff.mp h with ⟨hcd, hmake⟩ | ⟨hcd, rfl⟩
  · have hcwd := cwd_after_cd hname hcd
    generalize s.after m (.cd (c.clusterBuildDir ++ [top])) = u at hmake hcwd
    obtain ⟨hok, rfl⟩ := exec_eq_some_iff.mp hmake
    have hev := mem_trace_after (m := m) u (.make (args u.fs u.cwd) installDir)
    rw [hok] at hev
    refine ⟨u.fs, u.cwd, top, htop, ?_⟩
    rw [← hcwd]
    exact hev
  · have hfailed := mem_trace_after (m := m) s (.cd (c.clusterBuildDir ++ [top]))
    have htrue := hcds _ _ _ hfailed
    rw [hcd] at htrue
    cases htrue

theorem isPrefix_trace_exec {cm : Cmd} {s t : Shell} (h : (exec m cm).run s = (some (), t)) :
    s.trace <+: t.trace := by
  obtain ⟨-, rfl⟩ := exec_eq_some_iff.mp h
  exact List.prefix_append _ _

theorem built_list (dir : PathWord) (args : FS → Path → List Text) (installDir : Option PathWord) :
    Built m c (fun _ => True) (cdMake m dir args installDir) := built_cdMake trivial

theorem unpacked_of_exec {pkg : Text} {s t : Shell}
    (h : (exec m (.tar pkg c.clusterBuildDir)).run s = (some (), t)) :
    ∃ cwd, .ran cwd (.tar pkg c.clusterBuildDir) true ∈ t.trace := by
  obtain ⟨hok, rfl⟩ := exec_eq_some_iff.mp h
  have hev := mem_trace_after (m := m) s (.tar pkg c.clusterBuildDir)
  rw [hok] at hev
  exact ⟨_, hev⟩

/-! ## `build()` -/

/-- A completed body has compiled both packages. -/
theorem compiled_of_buildBody (hown : OwnTrees m c) {s t : Shell}
    (h : (buildBody m c).run s = (some (), t)) (hcds : CdsSucceed t.trace) :
    Compiled m c t.trace := by
  obtain ⟨-, s₁, -, -, -, -, -, s₂, htar, s₃, htar', s₄, hredis, hhiredis⟩ :=
    buildBody_eq_some_iff.mp h
  have h34 : s₃.trace <+: s₄.trace := (built_list (c := c) _ _ _).isPrefix_trace_of_run hredis
  have h4 : s₄.trace <+: t.trace := (built_list (c := c) _ _ _).isPrefix_trace_of_run hhiredis
  obtain ⟨fs, cwd, hmade⟩ := made_of_cdMake hown.1 hredis (hcds.of_isPrefix h4)
  refine ⟨fun pkg hpkg => ?_, ⟨fs, cwd, hmade.of_isPrefix h4⟩, made_of_cdMake hown.2 hhiredis hcds⟩
  simp only [List.mem_cons, List.not_mem_nil, or_false] at hpkg
  rcases hpkg with rfl | rfl
  · obtain ⟨d, hev⟩ := unpacked_of_exec htar
    exact ⟨d, ((isPrefix_trace_exec htar').trans (h34.trans h4)).subset hev⟩
  · obtain ⟨d, hev⟩ := unpacked_of_exec htar'
    exact ⟨d, (h34.trans h4).subset hev⟩

theorem target_inBuild (c : Cluster) {n : Text} (h : IsName n) (cwd : Path) :
    target cwd (c.inBuild n) = target [] c.clusterBuildDir ++ [n] := target_append_name h cwd _

theorem isName_buildSuccess : IsName buildSuccess := by decide +kernel

/-- A command of `build()` that leaves `BUILD_SUCCESS` alone. -/
theorem not_buildMarked_after {s : Shell} {cm : Cmd}
    (htouch : cm.touches m s.cwd s.fs (target [] c.clusterBuildDir ++ [buildSuccess]) = false)
    (hs : ¬ BuildMarked c s.fs) : ¬ BuildMarked c (s.after m cm).fs := by
  rw [BuildMarked, target_inBuild c isName_buildSuccess] at hs ⊢
  rwa [(s.changes_after m cm).isFile_eq (by simp [htouch])]

theorem belowAny_sibling {d : Path} {tops : List Text} {n : Text} (h : n ∉ tops) :
    belowAny (tops.map fun top => d ++ [top]) (d ++ [n]) = false := by
  rw [belowAny, List.any_eq_false]
  intro p hp hbelow
  obtain ⟨top, htop, rfl⟩ := List.mem_map.mp hp
  obtain ⟨r, hr⟩ := List.isPrefixOf_iff_prefix.mp hbelow
  rw [List.append_assoc] at hr
  have hcons := List.append_cancel_left hr
  rw [List.singleton_append] at hcons
  exact h ((List.cons.inj hcons).1 ▸ htop)

theorem tar_not_touches {pkg : Text} (h : buildSuccess ∉ m.topLevel pkg) (cwd : Path) (fs : FS) :
    (Cmd.tar pkg c.clusterBuildDir).touches m cwd fs
      (target [] c.clusterBuildDir ++ [buildSuccess]) = false := by
  simp only [Cmd.touches, tarTrees]
  split
  · next d hd =>
    rw [resolve_eq_target hd, Cluster.clusterBuildDir, target_absWord]
    exact belowAny_sibling h
  · rfl

/-- `make` in a package's own tree leaves `BUILD_SUCCESS` alone. -/
theorem keeps_list {pkg : Text} {dir : PathWord} {args : FS → Path → List Text}
    (hown : OwnTree m c pkg dir) :
    Keeps (fun s => ¬ BuildMarked c s.fs) (cdMake m dir args none) := by
  obtain ⟨⟨top, htop, hname, rfl⟩, hmarker⟩ := hown
  intro s hs
  have hcd : ¬ BuildMarked c (s.after m (.cd (c.clusterBuildDir ++ [top]))).fs :=
    not_buildMarked_after rfl hs
  rw [cdMake, bind_run, attempt_run]
  simp only [bind_run, look_run]
  cases hok : (s.outcome m (.cd (c.clusterBuildDir ++ [top]))).2 with
  | false => exact hcd
  | true =>
    simp only [whenever, if_true, exec_run_snd]
    refine not_buildMarked_after ?_ hcd
    have hne : buildSuccess ∉ [top] := by
      rw [List.mem_singleton]
      rintro rfl
      exact hmarker htop
    simp only [Cmd.touches, makeTrees, Option.bind_none, Option.toList_none, cwd_after_cd hname hok]
    exact belowAny_sibling hne

/-- Without its marker `build()` leaves no `BUILD_SUCCESS`. -/
theorem keeps_buildBody (hown : OwnTrees m c) :
    Keeps (fun s => ¬ BuildMarked c s.fs) (buildBody m c) := by
  refine (built_buildBody m c).keeps (fun a ha => ?_) fun _ _ _ _ hs => hs
  cases ha with
  | buildDir =>
    refine Act.keeps _ fun cm hcm s hs => ?_
    cases hcm
    exact not_buildMarked_after rfl hs
  | redisTar =>
    refine Act.keeps _ fun cm hcm s hs => ?_
    cases hcm
    exact not_buildMarked_after (tar_not_touches hown.1.2 _ _) hs
  | hiredisTar =>
    refine Act.keeps _ fun cm hcm s hs => ?_
    cases hcm
    exact not_buildMarked_after (tar_not_touches hown.2.2 _ _) hs
  | redisMake => exact keeps_list hown.1
  | hiredisMake => exact keeps_list hown.2

/-- A `BUILD_SUCCESS` that a run of `build()` leaves where there was none. -/
theorem compiled_of_build (hown : OwnTrees m c) {s t : Shell} {o : Option Unit}
    (hrun : (build m c).run s = (o, t)) (hcds : CdsSucceed t.trace)
    (hmark : o = some () ∨ ¬ BuildMarked c s.fs ∧ BuildMarked c t.fs) : Compiled m c t.trace := by
  rcases hbody : (buildBody m c).run s with ⟨_ | _, u⟩
  · have hstop : (build m c).run s = (none, u) := bind_run_of_none hbody
    rw [hrun, Prod.mk.injEq] at hstop
    obtain ⟨rfl, rfl⟩ := hstop
    rcases hmark with hmark | ⟨hfresh, hmark⟩
    · cases hmark
    · exact absurd hmark ((keeps_buildBody hown).of_run hfresh hbody)
  · have hmarker : (build m c).run s = (exec m (buildMarker m c)).run u := bind_run_of_some hbody
    have ht : u.after m (buildMarker m c) = t := by
      rw [← exec_run_snd, ← hmarker, hrun]
    have hprefix : u.trace <+: t.trace := by
      rw [← ht]
      exact List.prefix_append _ _
    exact (compiled_of_buildBody hown hbody (hcds.of_isPrefix hprefix)).of_isPrefix hprefix

/-! ## `deploy()` -/

/-- A completed body has installed both packages. -/
theorem madeInstall_of_deployBody (hown : OwnTrees m c) {s t : Shell}
    (h : (deployBody m c).run s = (some (), t)) (hcds : CdsSucceed t.trace) :
    MadeInstall m c t.trace := by
  obtain ⟨-, -, -, s₁, -, s₂, -, s₃, hinstall, htail⟩ := deployBody_eq_some_iff.mp h
  obtain ⟨s', hredis, hhiredis⟩ := deployInstall_eq_some_iff.mp hinstall
  have h3 : s₃.trace <+: t.trace := (built_deployTail m c).isPrefix_trace_of_run htail
  have h' : s'.trace <+: t.trace :=
    ((built_list (c := c) _ _ _).isPrefix_trace_of_run hhiredis).trans h3
  obtain ⟨fs, cwd, hmade⟩ := made_of_cdMake hown.1 hredis (hcds.of_isPrefix h')
  obtain ⟨fs', cwd', hmade'⟩ := made_of_cdMake hown.2 hhiredis (hcds.of_isPrefix h3)
  exact ⟨⟨fs, cwd, hmade.of_isPrefix h'⟩, fs', cwd', hmade'.of_isPrefix h3⟩

/-- The steps of the other phases, and of `deploy()` up to its marker, do not copy
    `CLUSTER_ALL_NODES`. -/
def NotMarking (c : Cluster) (a : Act) : Prop := ∀ cm, a.Issues cm → cm ≠ deployMarker c

theorem CleanAct.notMarking {f : Flags} {a : Act} (ha : CleanAct c f a) : NotMarking c a := by
  intro cm hcm
  cases ha <;> cases hcm <;> simp [deployMarker]

theorem BuildAct.notMarking {a : Act} (ha : WithMarker (BuildAct m c) (buildMarker m c) a) :
    NotMarking c a := by
  intro cm hcm
  rcases ha with ha | rfl
  · cases ha with
    | buildDir | redisTar | hiredisTar =>
      cases hcm
      simp [deployMarker]
    | redisMake | hiredisMake =>
      rcases hcm with rfl | ⟨args, rfl⟩ <;> simp [deployMarker]
  · cases hcm
    simp [deployMarker, buildMarker]

theorem ConfigAct.notMarking {a : Act} (ha : WithMarker (ConfigAct m c) (configMarker m c) a) :
    NotMarking c a := by
  intro cm hcm
  rcases ha with ha | rfl
  · cases ha <;> cases hcm <;> simp [deployMarker]
  · cases hcm
    simp [deployMarker, configMarker]

theorem DeployAct.notMarking {a : Act} (ha : DeployAct m c a) : NotMarking c a := by
  intro cm hcm hmarker
  rw [deployMarker] at hmarker
  cases ha with
  | homeDirs | chmodScript | chmodCreate | certs =>
    cases hcm
    cases hmarker
  | redisInstall | hiredisInstall =>
    rcases hcm with rfl | ⟨args, rfl⟩ <;> cases hmarker
  | conf =>
    cases hcm
    have hdest := List.append_cancel_left (Cmd.cp.inj hmarker).2
    cases hdest
  | copyScript h hs =>
    cases hcm
    have hlast := congrArg lastName (Cmd.cp.inj hmarker).1
    rw [lastName_snoc, Cluster.inConfig, lastName_snoc] at hlast
    revert hlast
    simp only [scriptStems, List.mem_cons, List.not_mem_nil, or_false] at hs
    rcases hs with rfl | rfl | rfl | rfl <;> decide +kernel
  | copyHome h =>
    cases hcm
    have hlast := congrArg lastName (Cmd.cp.inj hmarker).1
    rw [Cluster.inConfig, lastName_snoc, Cluster.inConfig, lastName_snoc] at hlast
    subst hlast
    revert h
    decide +kernel

/-- A run of `deploy()` that has come to its marker. -/
theorem madeInstall_of_deploy (hown : OwnTrees m c) {s t : Shell} {o : Option Unit}
    (hrun : (deploy m c).run s = (o, t)) (hcds : CdsSucceed t.trace) {cwd : Path} {ok : Bool}
    (hfresh : .ran cwd (deployMarker c) ok ∉ s.trace)
    (hmark : .ran cwd (deployMarker c) ok ∈ t.trace) : MadeInstall m c t.trace := by
  rcases hbody : (deployBody m c).run s with ⟨_ | _, u⟩
  · have hstop : (deploy m c).run s = (none, u) := bind_run_of_none hbody
    rw [hrun, Prod.mk.injEq] at hstop
    obtain ⟨-, rfl⟩ := hstop
    exact absurd ((built_deployBody m c).mem_trace (fun a ha => ha.notMarking) hbody hmark) hfresh
  · have hmarker : (deploy m c).run s = (exec m (deployMarker c)).run u := bind_run_of_some hbody
    have ht : u.after m (deployMarker c) = t := by
      rw [← exec_run_snd, ← hmarker, hrun]
    have hprefix : u.trace <+: t.trace := by
      rw [← ht]
      exact List.prefix_append _ _
    exact (madeInstall_of_deployBody hown hbody (hcds.of_isPrefix hprefix)).of_isPrefix hprefix

/-! ## Invocations -/

/-- What the markers of an invocation say: behind a `BUILD_SUCCESS` that its build leaves where
    there was none, both packages have been compiled; behind a copy of `CLUSTER_ALL_NODES`, both
    have been installed. -/
structure MarkersSound (inv : Invocation) (tool : Path) (fs : FS) (c : Cluster) : Prop where
  build : (inv.flags fs).hasClean = false → (inv.flags fs).hasBuild = true →
    ¬ BuildMarked c fs → BuildMarked c (inv.run tool fs).2.fs →
    Compiled inv.machine c (inv.events tool fs)
  deploy : ∀ cwd ok, .ran cwd (deployMarker c) ok ∈ inv.events tool fs →
    MadeInstall inv.machine c (inv.events tool fs)

theorem dispatch_eq {f : Flags} (h : f.hasClean = false) : dispatch m c f =
    whenever f.hasBuild (build m c) >>= fun _ => whenever f.hasConfig (config m c) >>= fun _ =>
      whenever f.hasDeploy (deploy m c) := by
  rw [dispatch, h]
  rfl

theorem built_dispatch_build (f : Flags) :
    Built m c (NotMarking c) (whenever f.hasBuild (build m c)) :=
  built_whenever fun _ => (built_build m c).mono fun _ ha => BuildAct.notMarking ha

theorem built_dispatch_config (f : Flags) :
    Built m c (NotMarking c) (whenever f.hasConfig (config m c)) :=
  built_whenever fun _ => (built_config m c).mono fun _ ha => ConfigAct.notMarking ha

/-- The build of an invocation. -/
theorem compiled_of_dispatch (hown : OwnTrees m c) {f : Flags} (hclean : f.hasClean = false)
    (hbuild : f.hasBuild = true) {s t : Shell} {o : Option Unit}
    (hrun : (dispatch m c f).run s = (o, t)) (hcds : CdsSucceed t.trace)
    (hfresh : ¬ BuildMarked c s.fs) (hmark : BuildMarked c t.fs) : Compiled m c t.trace := by
  rw [dispatch_eq hclean, hbuild] at hrun
  rcases seq_run_cases hrun with ⟨-, hstop⟩ | ⟨u, hbuilt, hrest⟩
  · exact compiled_of_build hown hstop hcds (Or.inr ⟨hfresh, hmark⟩)
  · have hprefix : u.trace <+: t.trace := by
      refine Built.isPrefix_trace_of_run (m := m) (c := c) (P := fun _ => True) ?_ hrest
      refine built_bind ((built_dispatch_config f).mono fun _ _ => trivial) fun _ => ?_
      exact built_whenever fun _ => (built_deploy m c).mono fun _ _ => trivial
    exact (compiled_of_build hown hbuilt (hcds.of_isPrefix hprefix) (Or.inl rfl)).of_isPrefix hprefix

/-- Its deploy. -/
theorem madeInstall_of_dispatch (hown : OwnTrees m c) {f : Flags} {s t : Shell} {o : Option Unit}
    (hrun : (dispatch m c f).run s = (o, t)) (hcds : CdsSucceed t.trace) {cwd : Path} {ok : Bool}
    (hfresh : .ran cwd (deployMarker c) ok ∉ s.trace)
    (hmark : .ran cwd (deployMarker c) ok ∈ t.trace) : MadeInstall m c t.trace := by
  cases hclean : f.hasClean with
  | true =>
    rw [dispatch, hclean, if_pos rfl] at hrun
    exact absurd ((built_clean m c f).mem_trace (fun a ha => ha.notMarking) hrun hmark) hfresh
  | false =>
    rw [dispatch_eq hclean] at hrun
    rcases seq_run_cases hrun with ⟨-, hstop⟩ | ⟨u, hbuilt, hrest⟩
    · exact absurd ((built_dispatch_build f).mem_trace (fun _ ha => ha) hstop hmark) hfresh
    have hu : .ran cwd (deployMarker c) ok ∉ u.trace :=
      fun hev => hfresh ((built_dispatch_build f).mem_trace (fun _ ha => ha) hbuilt hev)
    rcases seq_run_cases hrest with ⟨-, hstop⟩ | ⟨v, hconfig, hdeploy⟩
    · exact absurd ((built_dispatch_config f).mem_trace (fun _ ha => ha) hstop hmark) hu
    have hv : .ran cwd (deployMarker c) ok ∉ v.trace :=
      fun hev => hu ((built_dispatch_config f).mem_trace (fun _ ha => ha) hconfig hev)
    cases hd : f.hasDeploy with
    | false =>
      rw [hd] at hdeploy
      obtain ⟨-, rfl⟩ := Prod.mk.inj hdeploy
      exact absurd hmark hv
    | true =>
      rw [hd] at hdeploy
      exact madeInstall_of_deploy hown hdeploy hcds hv hmark

/-- The markers of one invocation. -/
theorem markersSound_of_accepts {inv : Invocation} {tool : Path} {fs : FS}
    (hc : inv.Accepts tool fs c) (hown : OwnTrees inv.machine c)
    (hcds : CdsSucceed (inv.events tool fs)) : MarkersSound inv tool fs c := by
  have hrun : (dispatch inv.machine c (inv.flags fs)).run (inv.start fs) =
      ((inv.run tool fs).1, (inv.run tool fs).2) := (Invocation.run_of_accepts hc).symm
  constructor
  · intro hclean hbuild hfresh hmark
    exact compiled_of_dispatch hown hclean hbuild hrun hcds hfresh hmark
  · intro cwd ok hev
    exact madeInstall_of_dispatch hown hrun hcds (List.not_mem_nil) hev

/-- Each `cd` of the invocation succeeds, and the directories that it derives from the names of
    the packages are those that they unpack to. -/
def EntersTrees (inv : Invocation) (tool : Path) (fs : FS) (c : Cluster) : Prop :=
  OwnTrees inv.machine c ∧ CdsSucceed (inv.events tool fs)

/-- **The markers are sound** in every sequence of invocations that enter their packages' own
    trees. -/
theorem markers_sound (tool : Path) {invs : List Invocation} {fs₀ : FS}
    (h : Throughout tool (fun inv fs => ∀ c, inv.Accepts tool fs c → EntersTrees inv tool fs c)
      invs fs₀) :
    Throughout tool (fun inv fs => ∀ c, inv.Accepts tool fs c → MarkersSound inv tool fs c)
      invs fs₀ :=
  h.mono fun _ _ henters c hc => markersSound_of_accepts hc (henters c hc).1 (henters c hc).2

/-! ## Two packages -/

/-- That every `cd` has succeeded can be computed. -/
theorem cdsSucceed_of_all {evs : List Event}
    (h : evs.all (fun | .ran _ (.cd _) ok => ok | _ => true) = true) : CdsSucceed evs :=
  fun _ _ _ hev => List.all_eq_true.mp h _ hev

def candidatePackage : Text := "redis-7.4-rc1.tar.gz".toList

/-- The shipped package unpacks to the directory derived from its name. -/
theorem ownTrees_redisPackage {tool : Path} {fs : FS} {c : Cluster}
    (h : (allInvocation redisPackage).Accepts tool fs c) : OwnTrees plainHost c := by
  obtain ⟨id, args, -, hmade⟩ := h.madeOf
  have hini : c.ini = { demoIni with redisPkg := redisPackage } :=
    Option.some.inj hmade.ini.symm
  have hverno := hmade.redisVerno
  have hverno' := hmade.hiredisVerno
  rw [hini] at hverno hverno'
  have htop : plainHost.topLevel redisPackage = ["redis-8.2.0".toList] := by decide +kernel
  have htop' : plainHost.topLevel demoIni.hiredisPkg = ["hiredis-1.30".toList] := by decide +kernel
  have hdir : pathWord ("redis-".toList ++ pkgVerno plainHost redisPackage) =
      ["redis-8.2.0".toList] := by decide +kernel
  have hdir' : pathWord ("hiredis-".toList ++ pkgVerno plainHost demoIni.hiredisPkg) =
      ["hiredis-1.30".toList] := by decide +kernel
  rw [OwnTrees, OwnTree, OwnTree, hini, Cluster.redisBuildDir, Cluster.hiredisBuildDir]
  simp only [allInvocation] at hverno hverno'
  rw [hverno, hverno', hdir, hdir', htop, htop']
  exact ⟨⟨⟨_, List.mem_singleton_self _, by decide +kernel, rfl⟩, by decide +kernel⟩,
    ⟨_, List.mem_singleton_self _, by decide +kernel, rfl⟩, by decide +kernel⟩

theorem markers_sound_demo :
    Throughout ["rct".toList] (fun inv fs => ∀ c, inv.Accepts ["rct".toList] fs c →
      MarkersSound inv ["rct".toList] fs c) [allInvocation redisPackage] demoShell.fs :=
  @markers_sound ["rct".toList] [allInvocation redisPackage] demoShell.fs
    ⟨fun _ hc => ⟨ownTrees_redisPackage hc, cdsSucceed_of_all (by decide +kernel)⟩, trivial⟩

/-- No `make` has been run in a directory of the name. -/
def notMadeIn (name : Text) : Event → Bool
  | .ran cwd (.make _ _) _ => cwd.getLast? != some name
  | _ => true

theorem not_madeInTree {evs : List Event} {pkg top : Text} (htop : m.topLevel pkg = [top])
    (h : evs.all (notMadeIn top) = true) (args : List Text) (installDir : Option PathWord) :
    ¬ MadeInTree m c evs pkg args installDir := by
  rintro ⟨top', htop', hev⟩
  rw [htop, List.mem_singleton] at htop'
  have hnot := List.all_eq_true.mp h _ hev
  simp [notMadeIn, htop'] at hnot

/-- The run of `mycluster ALL` with the candidate package. -/
def candidateRun : Option Unit × Shell :=
  (allInvocation candidatePackage).run ["rct".toList] demoShell.fs

/-- Where the hiredis package is unpacked. -/
def hiredisTree : Path := ["rct".toList, "build".toList, "mycluster".toList, "hiredis-1.30".toList]

/-- `redis-7.4-rc1.tar.gz` unpacks to `redis-7.4-rc1`, the name derived from it is
    `redis-7.4`: the invocation runs to its end and leaves both markers, and `make` has not been
    run with a package of redis. -/
theorem markers_candidate :
    ∃ c, (allInvocation candidatePackage).Accepts ["rct".toList] demoShell.fs c ∧
      candidateRun.1 = some () ∧
      ¬ BuildMarked c demoShell.fs ∧ BuildMarked c candidateRun.2.fs ∧
      ¬ Compiled plainHost c candidateRun.2.trace ∧
      (∃ cwd, .ran cwd (deployMarker c) true ∈ candidateRun.2.trace) ∧
      ¬ MadeInstall plainHost c candidateRun.2.trace := by
  have haccepted : ((validate plainHost ["rct".toList] "mycluster".toList
      ((allInvocation candidatePackage).inputs "mycluster".toList)).run
      ((allInvocation candidatePackage).start demoShell.fs)).1.isSome = true := by decide +kernel
  obtain ⟨c, hc⟩ := Option.isSome_iff_exists.mp haccepted
  have hmade := of_validate_eq_some (Prod.ext hc rfl)
  have hini : c.ini = { demoIni with redisPkg := candidatePackage } :=
    Option.some.inj hmade.ini.symm
  have hbuild : c.inBuild buildSuccess =
      absWord (buildPath ["rct".toList] "mycluster".toList) ++ [buildSuccess] := by
    rw [Cluster.inBuild, Cluster.clusterBuildDir, hmade.tool, hmade.clusterid]
  have hmarker : deployMarker c =
      .cp (absWord (configPath ["rct".toList] "mycluster".toList) ++ [clusterAllNodes])
        (pathWord ("/opt".toList ++ '/' :: "mycluster".toList) ++ [[]]) := by
    rw [deployMarker, Cluster.inConfig, Cluster.clusterConfigDir, Cluster.homeSlash,
      Cluster.clusterHomeDir, Cluster.clusterHomeText, hmade.tool, hmade.clusterid, hini]
    rfl
  have htop : plainHost.topLevel c.ini.redisPkg = ["redis-7.4-rc1".toList] := by
    rw [hini]
    decide +kernel
  have hnone : candidateRun.2.trace.all (notMadeIn "redis-7.4-rc1".toList) = true := by
    decide +kernel
  refine ⟨c, ⟨_, _, _, rfl, Prod.ext hc rfl⟩, by decide +kernel, ?_, ?_, ?_, ⟨hiredisTree, ?_⟩, ?_⟩
  · rw [BuildMarked, hbuild]
    decide +kernel
  · rw [BuildMarked, hbuild]
    decide +kernel
  · rintro ⟨-, ⟨fs, cwd, hmade⟩, -⟩
    exact not_madeInTree htop hnone _ _ hmade
  · rw [hmarker]
    decide +kernel
  · rintro ⟨⟨fs, cwd, hmade⟩, -⟩
    exact not_madeInTree htop hnone _ _ hmade

end RedisCluster
