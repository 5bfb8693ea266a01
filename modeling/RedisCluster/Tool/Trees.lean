import RedisCluster.Tool.Installed
import RedisCluster.Tool.Invocations

/-!
# The trees of a cluster

An invocation works in three trees: `build/$clusterid` and `config/$clusterid` of the tool, and
`$cluster_home_dir`. What it makes above them are missing directories.

* `PlainPaths`: no name that the paths are put together from leads up.
* `Cmd.StaysBelow`: a command touches nothing outside some trees, and makes no directory
  that is neither below nor above them.
* `CleanAct.staysBelow`, `BuildAct.staysBelow`, `ConfigAct.staysBelow`,
  `DeployAct.staysBelow`: the commands of the phases; `Built.changes`: their runs.
* `Invocation.changes`: a whole invocation.
-/

namespace RedisCluster

open FileTree Errexit Script

/-! ## Commands that stay below directories -/

/-- On the way to one of `ds`. -/
def aboveAny (ds : List Path) (p : Path) : Bool := ds.any fun d => p.isPrefixOf d

theorem aboveAny_iff {ds : List Path} {p : Path} : aboveAny ds p = true ↔ ∃ d ∈ ds, p <+: d := by
  simp [aboveAny]

/-- In the directory `cwd` the command touches nothing outside the trees `ds`, and makes no
    directory that is neither below nor above them. -/
structure Cmd.StaysBelow (m : Machine) (cwd : Path) (ds : List Path) (cm : Cmd) : Prop where
  touches : ∀ fs p, cm.touches m cwd fs p = true → belowAny ds p = true
  makes : ∀ p ∈ cm.makes cwd, belowAny ds p = true ∨ aboveAny ds p = true

/-- Only the trees have changed, and missing directories above them have been made. -/
def ChangesBelow (ds : List Path) (fs fs' : FS) : Prop :=
  Changes {p | belowAny ds p = true} {p | aboveAny ds p = true} fs fs'

section Commands

variable {m : Machine} {cwd d : Path} {ds : List Path} {w v : PathWord} {cm : Cmd}

theorem Cmd.StaysBelow.changes_after {s : Shell} (h : cm.StaysBelow m s.cwd ds) :
    ChangesBelow ds s.fs (s.after m cm).fs :=
  (s.changes_after m cm).mono (h.touches s.fs) h.makes

theorem prefix_of_copyTarget (hw : IsAbsolute w) (hv : ['.', '.'] ∉ v) {fs : FS} {n : Text}
    {p : Path} (hp : copyTarget fs cwd (w ++ v) n = some p) : target [] w <+: p := by
  unfold copyTarget at hp
  split at hp
  · have hn := (fileTarget_eq_some_iff.mp hp).2.1
    rw [lastName_snoc] at hn
    rw [List.append_assoc] at hp
    refine hw.prefix_of_fileTarget ?_ hp
    simp [hv, Ne.symm hn.2.2]
  · exact hw.prefix_of_fileTarget hv hp

/-- Where a command puts a file. -/
def Cmd.destination : Cmd → Option PathWord
  | .write w _ | .append w _ | .pipeline _ w | .copyIn _ _ w | .cp _ w | .chmodX w => some w
  | _ => none

theorem staysBelow_of_destination (hw : IsAbsolute w) (hv : ['.', '.'] ∉ v)
    (hcm : cm.destination = some (w ++ v)) (hds : target [] w ∈ ds) : cm.StaysBelow m cwd ds := by
  have hbelow : ∀ {p : Path}, target [] w <+: p → belowAny ds p = true :=
    fun hp => belowAny_iff.mpr ⟨_, hds, hp⟩
  cases cm with
  | write dest | append dest | pipeline dest | chmodX dest =>
    cases hcm
    exact ⟨fun fs p hp => hbelow (hw.prefix_of_fileTarget hv (of_decide_eq_true hp)), by simp [Cmd.makes]⟩
  | copyIn _ _ dest | cp _ dest =>
    cases hcm
    exact ⟨fun fs p hp => hbelow (prefix_of_copyTarget hw hv (of_decide_eq_true hp)), by simp [Cmd.makes]⟩
  | mkdirP | cpR | rmRf | tar | make | cd => cases hcm

theorem staysBelow_cd (dir : PathWord) : (Cmd.cd dir).StaysBelow m cwd ds := by
  refine ⟨fun _ _ hp => ?_, fun _ hp => ?_⟩ <;> cases hp

/-- `rm -rf` and `mkdir -p` of a directory. -/
theorem staysBelow_rmRf (hds : ∀ cwd, target cwd w ∈ ds) : (Cmd.rmRf w).StaysBelow m cwd ds := by
  refine ⟨fun fs p hp => ?_, fun _ hp => (by cases hp)⟩
  obtain ⟨d, hd, hp⟩ := belowAny_iff.mp hp
  rw [Option.mem_toList] at hd
  rw [resolve_eq_target hd] at hp
  exact belowAny_iff.mpr ⟨_, hds cwd, hp⟩

theorem staysBelow_mkdirP {dirs : List PathWord} (hw : IsAbsolute w) (hwdots : ['.', '.'] ∉ w)
    (hdirs : ∀ dir ∈ dirs, ∃ v, dir = w ++ v ∧ ['.', '.'] ∉ v) (hds : target [] w ∈ ds) :
    (Cmd.mkdirP dirs).StaysBelow m cwd ds := by
  refine ⟨fun _ _ hp => (by cases hp), fun p hp => ?_⟩
  obtain ⟨dir, hdir, hp⟩ := List.mem_flatMap.mp hp
  obtain ⟨v, rfl, hv⟩ := hdirs dir hdir
  obtain ⟨ns, rfl⟩ := hw
  have hns : ['.', '.'] ∉ ns := fun hmem => hwdots (by simp [hmem])
  rcases prefix_or_prefix_of_mem_visited hns hv hp with habove | hbelow
  · exact Or.inr (aboveAny_iff.mpr ⟨_, hds, habove⟩)
  · exact Or.inl (belowAny_iff.mpr ⟨_, hds, hbelow⟩)

theorem staysBelow_tar (pkg : Text) (hds : ∀ cwd, target cwd w ∈ ds) :
    (Cmd.tar pkg w).StaysBelow m cwd ds := by
  refine ⟨fun fs p hp => ?_, fun _ hp => (by cases hp)⟩
  obtain ⟨d, hd, hp⟩ := belowAny_iff.mp hp
  unfold tarTrees at hd
  split at hd
  · next r hr =>
    obtain ⟨top, -, rfl⟩ := List.mem_map.mp hd
    rw [resolve_eq_target hr] at hp
    exact belowAny_iff.mpr ⟨_, hds cwd, (List.prefix_append _ _).trans hp⟩
  · cases hd

/-- `make` works in its directory, and where it installs. -/
theorem staysBelow_make (args : List Text) {installDir : Option PathWord}
    (hcwd : belowAny ds cwd = true) (hdir : ∀ w ∈ installDir, target cwd w ∈ ds) :
    (Cmd.make args installDir).StaysBelow m cwd ds := by
  refine ⟨fun fs p hp => ?_, fun _ hp => (by cases hp)⟩
  obtain ⟨d, hd, hp⟩ := belowAny_iff.mp hp
  rcases List.mem_cons.mp hd with heq | hd
  · rw [heq] at hp
    obtain ⟨r, hr, hbelow⟩ := belowAny_iff.mp hcwd
    exact belowAny_iff.mpr ⟨r, hr, hbelow.trans hp⟩
  · rw [Option.mem_toList] at hd
    obtain ⟨w, hw, hd⟩ := Option.bind_eq_some_iff.mp hd
    rw [resolve_eq_target hd] at hp
    exact belowAny_iff.mpr ⟨_, hdir w hw, hp⟩

/-- A copy of a directory goes to or below its destination. -/
theorem staysBelow_cpR {src : PathWord} (hw : IsAbsolute w) (hv : ['.', '.'] ∉ v)
    (hsrc : lastName src ≠ ['.', '.']) (hds : target [] w ∈ ds) :
    (Cmd.cpR src (w ++ v)).StaysBelow m cwd ds := by
  refine ⟨fun fs p hp => ?_, fun _ hp => (by cases hp)⟩
  obtain ⟨d, hd, hp⟩ := belowAny_iff.mp hp
  rw [Option.mem_toList, copyTreeTarget] at hd
  refine belowAny_iff.mpr ⟨_, hds, List.IsPrefix.trans ?_ hp⟩
  split at hd
  · rw [List.append_assoc] at hd
    exact hw.prefix_of_resolve (by simp [hv, Ne.symm hsrc]) hd
  · exact hw.prefix_of_resolve hv hd

end Commands

theorem Cmd.StaysBelow.mono {m : Machine} {cwd : Path} {ds ds' : List Path} {cm : Cmd}
    (h : cm.StaysBelow m cwd ds) (hds : ds ⊆ ds') : cm.StaysBelow m cwd ds' := by
  have hbelow : ∀ {p : Path}, belowAny ds p = true → belowAny ds' p = true := by
    intro p hp
    obtain ⟨d, hd, hp⟩ := belowAny_iff.mp hp
    exact belowAny_iff.mpr ⟨d, hds hd, hp⟩
  have habove : ∀ {p : Path}, aboveAny ds p = true → aboveAny ds' p = true := by
    intro p hp
    obtain ⟨d, hd, hp⟩ := aboveAny_iff.mp hp
    exact aboveAny_iff.mpr ⟨d, hds hd, hp⟩
  exact ⟨fun fs p hp => hbelow (h.touches fs p hp), fun p hp => (h.makes p hp).imp hbelow habove⟩

/-- What the steps of `P` change, a run of what is built from them changes. -/
theorem Built.changes {m : Machine} {c : Cluster} {P : Act → Prop} {α : Type}
    {x : Script Shell α} (h : Built m c P x) {ds : List Path}
    (hP : ∀ a, P a → ∀ cwd cm, a.IssuesIn cwd cm → cm.StaysBelow m cwd ds) (fs : FS) :
    Keeps (fun s => ChangesBelow ds fs s.fs) x :=
  h.keeps_commands_in (fun a ha s cm hcm hs => hs.trans (hP a ha s.cwd cm hcm).changes_after)
    fun _ _ _ _ hs => hs

/-! ## Plain paths -/

/-- A name without slashes that is not `.` or `..`. -/
structure IsPlainName (n : Text) : Prop where
  noSlash : '/' ∉ n
  ne_dot : n ≠ ['.']
  ne_dots : n ≠ ['.', '.']

instance (n : Text) : Decidable (IsPlainName n) :=
  decidable_of_iff ('/' ∉ n ∧ n ≠ ['.'] ∧ n ≠ ['.', '.'])
    ⟨fun h => ⟨h.1, h.2.1, h.2.2⟩, fun h => ⟨h.noSlash, h.ne_dot, h.ne_dots⟩⟩

/-- A directory that is given by an absolute path without `..`. -/
structure PlainParent (parent : Text) : Prop where
  absolute : IsAbsolute (pathWord parent)
  noDots : ['.', '.'] ∉ pathWord parent

/-- No setting that the paths of the cluster are put together from leads up, and but for the
    parent of its home directory none has a slash. -/
structure PlainNames (m : Machine) (c : Cluster) : Prop where
  parentDir : PlainParent c.ini.clusterParentDir
  ids : ∀ id, Listed m c id → IsPlainName id
  ports : ∀ id, Listed m c id → ∀ l, IsList m c id "ports".toList l → ∀ port ∈ l, IsPlainName port
  rdbDirName : IsPlainName c.ini.rdbDirName
  tlsCacertdir : IsPlainName c.ini.tlsCacertdir
  redisVerno : '/' ∉ c.redisVerno
  hiredisVerno : '/' ∉ c.hiredisVerno

/-- Nor do the tool's directory and the id. -/
structure PlainPaths (m : Machine) (c : Cluster) : Prop extends PlainNames m c where
  canonical : c.Canonical
  clusterid : '/' ∉ c.clusterid

/-- The directories that the variables of an invocation lead to. -/
def Cluster.buildTarget (c : Cluster) : Path := target [] c.clusterBuildDir
def Cluster.trees (c : Cluster) : List Path := [c.buildTarget, c.configTarget, c.homeTarget]

theorem IsPlainName.noDots {n : Text} (h : IsPlainName n) : ['.', '.'] ∉ pathWord n := by
  rw [pathWord_eq_singleton h.noSlash, List.mem_singleton]
  exact Ne.symm h.ne_dots

theorem noDots_of_length {t : Text} (h : '/' ∉ t) (hlen : 2 < t.length) :
    ['.', '.'] ∉ pathWord t := by
  rw [pathWord_eq_singleton h, List.mem_singleton]
  rintro rfl
  exact absurd hlen (by decide)

section Phases

variable {m : Machine} {c : Cluster} {cwd : Path} {a : Act} {cm : Cmd}

theorem PlainPaths.noDots_tool (h : PlainPaths m c) (kind : Text) (hkind : IsName kind) :
    ['.', '.'] ∉ absWord (c.tool ++ [kind, c.clusterid]) := by
  have hnames : ∀ n ∈ c.tool ++ ["config".toList, c.clusterid], IsName n := h.canonical
  intro hmem
  rcases List.mem_cons.mp hmem with hnil | hmem
  · cases hnil
  · simp only [List.mem_append, List.mem_cons, List.not_mem_nil, or_false] at hmem hnames
    rcases hmem with hmem | heq | heq
    · exact (hnames _ (Or.inl hmem)).2.2 rfl
    · exact hkind.2.2 heq.symm
    · exact (hnames c.clusterid (by simp)).2.2 heq.symm

theorem PlainPaths.buildTarget_eq (h : PlainPaths m c) :
    c.buildTarget = buildPath c.tool c.clusterid := by
  have hnames : ∀ n ∈ configPath c.tool c.clusterid, IsName n := h.canonical
  suffices hbuild : ∀ n ∈ buildPath c.tool c.clusterid, IsName n by
    rw [Cluster.buildTarget, target, Cluster.clusterBuildDir, absWord]
    exact foldl_step_of_isName hbuild []
  intro n hn
  simp only [buildPath, configPath, List.mem_append, List.mem_cons, List.not_mem_nil,
    or_false] at hn hnames
  rcases hn with hn | rfl | rfl
  · exact hnames n (Or.inl hn)
  · decide
  · exact hnames _ (by simp)

theorem noDots_package {name verno : Text} (hlen : 2 < name.length) (hname : '/' ∉ name)
    (hverno : '/' ∉ verno) : ['.', '.'] ∉ pathWord (name ++ verno) := by
  refine noDots_of_length (by simp [hname, hverno]) ?_
  rw [List.length_append]
  omega

/-- The directories that packages are built in are below `$cluster_build_dir`. -/
theorem belowAny_packageDir {ds : List Path} (hds : c.buildTarget ∈ ds) {name verno : Text}
    (hlen : 2 < name.length) (hname : '/' ∉ name) (hverno : '/' ∉ verno)
    (hcwd : ∃ d, cwd = target d (c.clusterBuildDir ++ pathWord (name ++ verno))) :
    belowAny ds cwd = true := by
  have hbuild : IsAbsolute c.clusterBuildDir := ⟨_, rfl⟩
  obtain ⟨d, rfl⟩ := hcwd
  refine belowAny_iff.mpr ⟨_, hds, ?_⟩
  rw [hbuild.target_append]
  exact prefix_foldl_step (noDots_package hlen hname hverno) _

theorem PlainPaths.belowAny_redisBuildDir (h : PlainPaths m c) {ds : List Path}
    (hds : c.buildTarget ∈ ds) (hcwd : ∃ d, cwd = target d c.redisBuildDir) :
    belowAny ds cwd = true :=
  belowAny_packageDir hds (by decide) (by decide) h.redisVerno hcwd

theorem PlainPaths.belowAny_hiredisBuildDir (h : PlainPaths m c) {ds : List Path}
    (hds : c.buildTarget ∈ ds) (hcwd : ∃ d, cwd = target d c.hiredisBuildDir) :
    belowAny ds cwd = true :=
  belowAny_packageDir hds (by decide) (by decide) h.hiredisVerno hcwd

theorem BuildAct.staysBelow (h : PlainPaths m c)
    (ha : WithMarker (BuildAct m c) (buildMarker m c) a) (hcm : a.IssuesIn cwd cm) :
    cm.StaysBelow m cwd [c.buildTarget] := by
  have hbuild : IsAbsolute c.clusterBuildDir := ⟨_, rfl⟩
  have hself : target [] c.clusterBuildDir ∈ [c.buildTarget] := by simp [Cluster.buildTarget]
  rcases ha with ha | rfl
  · cases ha with
    | buildDir =>
      cases hcm
      exact staysBelow_mkdirP hbuild (h.noDots_tool _ (by decide)) (by simp) hself
    | redisTar | hiredisTar =>
      cases hcm
      exact staysBelow_tar _ fun cwd => by simp [Cluster.buildTarget, hbuild.target_eq (d := [])]
    | redisMake =>
      rcases hcm with rfl | ⟨⟨args, rfl⟩, hcwd⟩
      · exact staysBelow_cd _
      · exact staysBelow_make args (h.belowAny_redisBuildDir (by simp) hcwd) (by simp)
    | hiredisMake =>
      rcases hcm with rfl | ⟨⟨args, rfl⟩, hcwd⟩
      · exact staysBelow_cd _
      · exact staysBelow_make args (h.belowAny_hiredisBuildDir (by simp) hcwd) (by simp)
  · cases hcm
    exact staysBelow_of_destination hbuild (by decide +kernel) rfl hself

theorem noDots_confName {id port : Text} (hid : IsPlainName id) (hport : IsPlainName port) :
    ['.', '.'] ∉ pathWord (Cluster.confName id port) := by
  refine noDots_of_length (slash_not_mem_confName hid.noSlash hport.noSlash) ?_
  unfold Cluster.confName
  have hstart : "redis-".toList.length = 6 := rfl
  simp only [List.length_append, hstart]
  omega

theorem noDots_scriptName {id : Text} {stem : String} (hid : IsPlainName id)
    (hstem : stem ∈ scriptStems) : ['.', '.'] ∉ pathWord (scriptName stem id) := by
  refine noDots_of_length (slash_not_mem_scriptName hstem hid.noSlash) ?_
  have hlen : 5 < stem.toList.length := by
    simp only [scriptStems, List.mem_cons, List.not_mem_nil, or_false] at hstem
    rcases hstem with rfl | rfl | rfl | rfl <;> decide
  simp only [scriptName, List.length_append]
  omega

theorem ConfigAct.staysBelow (h : PlainPaths m c)
    (ha : WithMarker (ConfigAct m c) (configMarker m c) a) (hcm : a.IssuesIn cwd cm) :
    cm.StaysBelow m cwd [c.configTarget] := by
  have hconfig : IsAbsolute c.clusterConfigDir := ⟨_, rfl⟩
  have hself : target [] c.clusterConfigDir ∈ [c.configTarget] := by simp [Cluster.configTarget]
  have hscript : ∀ {id name : Text} {pl : Pipeline}, Listed m c id → name ≠ ['.', '.'] →
      (Cmd.pipeline pl (c.nodeconfdir id ++ [name])).StaysBelow m cwd [c.configTarget] := by
    intro id name pl hid hname
    refine staysBelow_of_destination (v := pathWord id ++ [name]) hconfig ?_ ?_ hself
    · simp [(h.ids id hid).noDots, Ne.symm hname]
    · simp [Cmd.destination, Cluster.nodeconfdir]
  rcases ha with ha | rfl
  · cases ha with
    | configDir =>
      cases hcm
      exact staysBelow_mkdirP hconfig (h.noDots_tool _ (by decide)) (by simp) hself
    | nodeDir hid =>
      cases hcm
      refine staysBelow_mkdirP hconfig (h.noDots_tool _ (by decide)) (fun dir hdir => ?_) hself
      rw [List.mem_singleton.mp hdir]
      exact ⟨_, rfl, (h.ids _ hid).noDots⟩
    | noNodes | addNode | authPass | env | create =>
      cases hcm
      exact staysBelow_of_destination hconfig (by decide +kernel) rfl hself
    | @conf n port pass hn hp hpass =>
      cases hcm
      have hname := noDots_confName (h.ids _ hn.listed) (h.ports _ hn.listed _ hn.ports port hp)
      refine staysBelow_of_destination
        (v := pathWord n.nodeid ++ pathWord (Cluster.confName n.nodeid port)) hconfig ?_ ?_ hself
      · simp [(h.ids _ hn.listed).noDots, hname]
      · simp [Cmd.destination, Cluster.nodeConfFile, Cluster.nodeconfdir]
    | start hn | shutdown hn | connect hn =>
      cases hcm
      exact hscript hn.listed (by decide +kernel)
  · cases hcm
    exact staysBelow_of_destination hconfig (by decide +kernel) rfl hself

theorem clusterHomeDir_eq (c : Cluster) :
    c.clusterHomeDir = pathWord c.ini.clusterParentDir ++ pathWord c.clusterid := by
  rw [Cluster.clusterHomeDir, Cluster.clusterHomeText, pathWord, List.splitOn_append_cons_self]
  rfl

theorem PlainPaths.isAbsolute_home (h : PlainPaths m c) : IsAbsolute c.clusterHomeDir := by
  rw [clusterHomeDir_eq]
  exact h.parentDir.absolute.append _

theorem PlainPaths.noDots_home (h : PlainPaths m c) :
    ['.', '.'] ∉ c.clusterHomeDir := by
  have hname : IsName c.clusterid := h.canonical _ (by simp [configPath])
  rw [clusterHomeDir_eq, pathWord_eq_singleton h.clusterid]
  simp [h.parentDir.noDots, Ne.symm hname.2.2]

theorem DeployAct.staysBelow (h : PlainPaths m c)
    (ha : WithMarker (DeployAct m c) (deployMarker c) a) (hcm : a.IssuesIn cwd cm) :
    cm.StaysBelow m cwd [c.buildTarget, c.homeTarget] := by
  have hhome := h.isAbsolute_home
  have hself : target [] c.clusterHomeDir ∈ [c.buildTarget, c.homeTarget] := by
    simp [Cluster.homeTarget]
  have hinstall : ∀ w ∈ some c.clusterHomeDir, target cwd w ∈ [c.buildTarget, c.homeTarget] := by
    rintro w ⟨⟩
    simp [Cluster.homeTarget, hhome.target_eq (d := [])]
  rcases ha with ha | rfl
  · cases ha with
    | homeDirs =>
      cases hcm
      refine staysBelow_mkdirP hhome h.noDots_home (fun dir hdir => ?_) hself
      simp only [homeSubdirs, Cluster.inHome, List.mem_cons, List.not_mem_nil, or_false] at hdir
      rcases hdir with rfl | rfl | rfl | rfl | rfl
      · exact ⟨_, rfl, h.rdbDirName.noDots⟩
      all_goals exact ⟨_, rfl, by decide +kernel⟩
    | conf | chmodCreate | copyHome =>
      cases hcm
      exact staysBelow_of_destination hhome (by decide +kernel) rfl hself
    | copyScript hlisted hstem | chmodScript hlisted hstem =>
      cases hcm
      exact staysBelow_of_destination hhome (noDots_scriptName (h.ids _ hlisted) hstem) rfl hself
    | redisInstall =>
      rcases hcm with rfl | ⟨⟨args, rfl⟩, hcwd⟩
      · exact staysBelow_cd _
      · exact staysBelow_make args (h.belowAny_redisBuildDir (by simp) hcwd) hinstall
    | hiredisInstall =>
      rcases hcm with rfl | ⟨⟨args, rfl⟩, hcwd⟩
      · exact staysBelow_cd _
      · exact staysBelow_make args (h.belowAny_hiredisBuildDir (by simp) hcwd) hinstall
    | certs =>
      cases hcm
      refine staysBelow_cpR hhome h.tlsCacertdir.noDots ?_ hself
      rw [lastName_append (pathWord_ne_nil _), pathWord_eq_singleton h.tlsCacertdir.noSlash]
      exact h.tlsCacertdir.ne_dots
  · cases hcm
    exact staysBelow_of_destination hhome (by decide +kernel) rfl hself

/-- The directories that `clean()` may remove. -/
def Cluster.removable (c : Cluster) (f : Flags) : List Path :=
  [c.buildTarget, c.configTarget] ++ if f.hasDeploy then [c.homeTarget] else []

theorem CleanAct.staysBelow (h : PlainPaths m c) {f : Flags} (ha : CleanAct c f a)
    (hcm : a.IssuesIn cwd cm) : cm.StaysBelow m cwd (c.removable f) := by
  have hbuild : IsAbsolute c.clusterBuildDir := ⟨_, rfl⟩
  have hconfig : IsAbsolute c.clusterConfigDir := ⟨_, rfl⟩
  cases ha with
  | removeBuild =>
    cases hcm
    exact staysBelow_rmRf fun cwd => by
      simp [Cluster.removable, Cluster.buildTarget, hbuild.target_eq (d := [])]
  | removeConfig =>
    cases hcm
    exact staysBelow_rmRf fun cwd => by
      simp [Cluster.removable, Cluster.configTarget, hconfig.target_eq (d := [])]
  | removeHome hf =>
    cases hcm
    exact staysBelow_rmRf fun cwd => by
      simp [Cluster.removable, hf, Cluster.homeTarget, h.isAbsolute_home.target_eq (d := [])]

theorem PlainPaths.keeps_clean (h : PlainPaths m c) (f : Flags) (fs : FS) :
    Keeps (fun s => ChangesBelow (c.removable f) fs s.fs) (clean m c f) :=
  (built_clean m c f).changes (fun _ ha _ _ => CleanAct.staysBelow h ha) fs

theorem PlainPaths.keeps_build (h : PlainPaths m c) (fs : FS) :
    Keeps (fun s => ChangesBelow [c.buildTarget] fs s.fs) (build m c) :=
  (built_build m c).changes (fun _ ha _ _ => BuildAct.staysBelow h ha) fs

theorem PlainPaths.keeps_config (h : PlainPaths m c) (fs : FS) :
    Keeps (fun s => ChangesBelow [c.configTarget] fs s.fs) (config m c) :=
  (built_config m c).changes (fun _ ha _ _ => ConfigAct.staysBelow h ha) fs

theorem PlainPaths.keeps_deploy (h : PlainPaths m c) (fs : FS) :
    Keeps (fun s => ChangesBelow [c.buildTarget, c.homeTarget] fs s.fs) (deploy m c) :=
  (built_deploy m c).changes (fun _ ha _ _ => DeployAct.staysBelow h ha) fs

theorem ChangesBelow.mono {ds ds' : List Path} {fs fs' : FS} (h : ChangesBelow ds fs fs')
    (hds : ds ⊆ ds') : ChangesBelow ds' fs fs' := by
  refine Changes.mono h (fun p hp => ?_) fun p hp => Or.inr ?_
  · obtain ⟨d, hd, hp⟩ := belowAny_iff.mp hp
    exact belowAny_iff.mpr ⟨d, hds hd, hp⟩
  · obtain ⟨d, hd, hp⟩ := aboveAny_iff.mp hp
    exact aboveAny_iff.mpr ⟨d, hds hd, hp⟩

theorem removable_subset (c : Cluster) (f : Flags) : c.removable f ⊆ c.trees := by
  unfold Cluster.removable Cluster.trees
  cases f.hasDeploy <;> simp

/-- Whatever actions are asked for, only the three trees change. -/
theorem PlainPaths.dispatch_changes (h : PlainPaths m c) (f : Flags) (s : Shell) :
    ChangesBelow c.trees s.fs ((dispatch m c f).run s).2.fs := by
  have hkeeps : ∀ {x : Script Shell Unit} {ds : List Path}, ds ⊆ c.trees →
      (∀ fs, Keeps (fun t => ChangesBelow ds fs t.fs) x) →
      Keeps (fun t => ChangesBelow c.trees s.fs t.fs) x := by
    intro x ds hds hx t ht
    exact ht.trans ((hx t.fs t (Changes.refl _ _ _)).mono hds)
  have hall : Keeps (fun t => ChangesBelow c.trees s.fs t.fs) (dispatch m c f) := by
    unfold dispatch
    split
    · exact hkeeps (removable_subset c f) (h.keeps_clean f)
    refine keeps_bind (keeps_whenever fun _ => ?_) fun _ =>
      keeps_bind (keeps_whenever fun _ => ?_) fun _ => keeps_whenever fun _ => ?_
    · exact hkeeps (by simp [Cluster.trees]) h.keeps_build
    · exact hkeeps (by simp [Cluster.trees]) h.keeps_config
    · exact hkeeps (by simp [Cluster.trees]) h.keeps_deploy
  exact hall s (Changes.refl _ _ _)

end Phases

/-! ## Invocations -/

section Invocation

variable {inv : Invocation} {tool : Path} {fs : FS} {c : Cluster}

theorem plainPaths_of_accepts (htool : ∀ n ∈ tool, IsName n) (h : inv.Accepts tool fs c)
    (hnames : PlainNames inv.machine c) : PlainPaths inv.machine c := by
  obtain ⟨id, args, -, hmade⟩ := h.madeOf
  obtain ⟨hname, hslash⟩ := isName_of_acceptedId hmade.accepted
  refine { hnames with canonical := ?_, clusterid := ?_ }
  · intro n hn
    rw [configPath, hmade.tool, hmade.clusterid] at hn
    simp only [List.mem_append, List.mem_cons, List.not_mem_nil, or_false] at hn
    rcases hn with hn | rfl | rfl
    · exact htool n hn
    · decide
    · exact hname
  · rwa [hmade.clusterid]

/-- **An invocation changes only the trees of its cluster**, and makes directories above them. -/
theorem Invocation.changes (htool : ∀ n ∈ tool, IsName n) (h : inv.Accepts tool fs c)
    (hnames : PlainNames inv.machine c) : ChangesBelow c.trees fs (inv.run tool fs).2.fs := by
  rw [Invocation.run_of_accepts h]
  exact (plainPaths_of_accepts htool h hnames).dispatch_changes _ (inv.start fs)

end Invocation

end RedisCluster
