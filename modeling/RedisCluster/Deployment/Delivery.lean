import RedisCluster.Deployment.Plan
import RedisCluster.Properties.InstanceFiles
import RedisCluster.Properties.Retry
import RedisCluster.Sbin.Operate

/-!
# What a machine is given

`deploy()` gives the nodes of its machine their confs and scripts, and no others.

* `Delivery`: a file that is copied, from where and where to; `deliveries`: those of a node.
* `gives_of_deployActs`: the steps that put something at such a path.
* `deploy_delivers`: the files of all nodes after a completed run.
-/

namespace RedisCluster

open FileTree Errexit Script

/-! ## Deliveries -/

/-- A file of the config directory, the path of its copy, and whether that is made executable. -/
structure Delivery where
  source : Path
  dest : Path
  script : Bool
  deriving DecidableEq

/-- The copy has the content of its source, and can be run if it is a script. -/
def Delivery.Done (d : Delivery) (fs fs' : FS) : Prop :=
  ∃ f g, dataAt fs d.source = some f ∧ dataAt fs' d.dest = some g ∧ g.content = f.content ∧
    (d.script = true → g.executable = true)

section Deliveries

variable (m : Machine) (c : Cluster) (s : Shell)

def Cluster.confDelivery (nodeid port : Text) : Delivery where
  source := c.configEntry nodeid ++ [Cluster.confName nodeid port]
  dest := c.homeEntry "conf".toList ++ [Cluster.confName nodeid port]
  script := false

def Cluster.scriptDelivery (nodeid : Text) (stem : String) : Delivery where
  source := c.configEntry nodeid ++ [(stem ++ ".sh").toList]
  dest := c.homeEntry (scriptName stem nodeid)
  script := true

/-- The scripts of a node, with and without `CLUSTER_TLS_NODES`. -/
def nodeStems (tls : Bool) : List String := if tls then scriptStems else plainStems

/-- The files of a node. -/
def deliveries (nodeid : Text) : List Delivery :=
  (listAt m c s nodeid "ports".toList).map (c.confDelivery nodeid) ++
    (nodeStems (tlsAt c s)).map (c.scriptDelivery nodeid)

/-- Nothing is in the way of the files: no directory has the name of a script, the certificates
    go elsewhere, and `make install` leaves the scripts and `conf` alone. -/
structure Deliverable : Prop where
  nodes : PlainNodes m c
  paths : PlainPaths m c
  apart : Separate c.homeTarget c.configTarget
  noDir : ∀ id ∈ localNodes m c s, ∀ stem ∈ nodeStems (tlsAt c s),
    s.fs (c.homeEntry (scriptName stem id)) ≠ some .dir
  rdbDir : ∀ id, ∀ stem ∈ scriptStems, c.ini.rdbDirName ≠ scriptName stem id
  certs : tlsAt c s = true → c.ini.tlsCacertdir ≠ [] ∧ c.ini.tlsCacertdir ≠ "conf".toList ∧
    ∀ id, ∀ stem ∈ scriptStems, c.ini.tlsCacertdir ≠ scriptName stem id
  makeConf : ∀ n, MakeKeeps m (c.homeEntry "conf".toList ++ [n])
  makeScript : ∀ id, ∀ stem ∈ scriptStems, MakeKeeps m (c.homeEntry (scriptName stem id))

end Deliveries

/-! ## Names -/

theorem dash_not_mem_stem : ∀ stem ∈ scriptStems, '-' ∉ stem.toList := by decide

theorem dash_mem_scriptName (stem : String) (id : Text) : '-' ∈ scriptName stem id :=
  List.mem_append_left _ (List.mem_append_right _ (List.mem_cons_self ..))

theorem dash_mem_confName (id port : Text) : '-' ∈ Cluster.confName id port :=
  List.mem_append_left _ (List.mem_append_right _ (List.mem_cons_self ..))

/-- What is in front of the first of a letter is determined. -/
theorem append_cons_inj_of_front {a : Char} {x y x' y' : Text} (hx : a ∉ x) (hx' : a ∉ x')
    (h : x ++ a :: y = x' ++ a :: y') : x = x' ∧ y = y' := by
  have hreverse := congrArg List.reverse h
  simp only [List.reverse_append, List.reverse_cons, List.append_assoc,
    List.singleton_append] at hreverse
  obtain ⟨hy, hx⟩ := append_cons_inj (by simpa using hx) (by simpa using hx') hreverse
  exact ⟨List.reverse_injective hx, List.reverse_injective hy⟩

theorem scriptName_injective {stem stem' : String} (h : stem ∈ scriptStems)
    (h' : stem' ∈ scriptStems) {id id' : Text} (heq : scriptName stem id = scriptName stem' id') :
    stem = stem' ∧ id = id' := by
  have hfront := List.append_cancel_right heq
  obtain ⟨hstem, hid⟩ := append_cons_inj_of_front (dash_not_mem_stem stem h)
    (dash_not_mem_stem stem' h') hfront
  exact ⟨String.toList_inj.mp hstem, hid⟩

theorem confName_injective {id id' port port' : Text} (h : IsPort port) (h' : IsPort port')
    (heq : Cluster.confName id port = Cluster.confName id' port') : id = id' ∧ port = port' :=
  name_injective h h' heq

theorem scriptName_ne_confName (stem : String) (id id' port : Text) :
    scriptName stem id ≠ Cluster.confName id' port := by
  intro heq
  have hsh : ".sh".toList <:+ scriptName stem id := List.suffix_append _ _
  have hconf : ".conf".toList <:+ scriptName stem id := heq ▸ List.suffix_append _ _
  rcases List.suffix_or_suffix_of_suffix hsh hconf with hs | hs
  · exact absurd hs (by decide)
  · exact absurd hs (by decide)

/-! ## Steps -/

section Steps

variable {m : Machine} {c : Cluster} {a : Act} {cm : Cmd} {cwd d p : Path} {fs : FS} {n : Text}
  {s t : Shell}

/-- The step that copies the certificates. -/
def certsAct (c : Cluster) : Act :=
  .cmd (.cpR (c.clusterConfigDir ++ pathWord c.ini.tlsCacertdir) c.tlsCacertDir)

theorem lastName_confFile (h : PlainNodes m c) {id port : Text} (hid : Listed m c id)
    (hport : IsPort port) : lastName (c.nodeConfFile id port) = Cluster.confName id port := by
  rw [nodeConfFile_eq (h.ids id hid) hport, lastName_snoc]

theorem lastName_scriptWord (h : PlainNodes m c) {id : Text} (hid : Listed m c id) {stem : String}
    (hstem : stem ∈ scriptStems) :
    lastName (c.clusterHomeDir ++ pathWord (scriptName stem id)) = scriptName stem id := by
  rw [lastName_script, installedName_of_not_slash hstem (h.ids id hid).noSlash]

/-- A copy into the home directory has a name without a dash. -/
theorem not_touches_homeSlash {name : Text} (hname : '-' ∉ name) (hn : '-' ∈ n) :
    (Cmd.cp (c.inConfig name) c.homeSlash).touches m cwd fs (d ++ [n]) = false := by
  refine not_touches_cp ?_ (fun hempty => ?_) cwd fs d
  · rw [lastName_inConfig]
    rintro rfl
    exact hname hn
  · rw [Cluster.homeSlash, lastName_snoc] at hempty
    exact absurd rfl hempty.1

/-- The copy of a conf touches a path with its name. -/
theorem name_of_confAct (h : PlainNodes m c) {id port : Text} (hid : Listed m c id)
    (hport : IsPort port) (hcm : (confAct c id port).Issues cm)
    (hp : cm.touches m cwd fs (d ++ [n]) = true) : n = Cluster.confName id port := by
  cases hcm
  by_contra hne
  rw [not_touches_cp ?_ (fun hempty => ?_) cwd fs d] at hp
  · cases hp
  · rw [lastName_confFile h hid hport]
    exact Ne.symm hne
  · exact absurd (by simp [lastName]) hempty.1

theorem name_of_copyAct (h : PlainNodes m c) {id : Text} (hid : Listed m c id) {stem : String}
    (hstem : stem ∈ scriptStems) (hcm : (copyAct c id stem).Issues cm) (hn : '-' ∈ n)
    (hp : cm.touches m cwd fs (d ++ [n]) = true) : n = scriptName stem id := by
  cases hcm
  by_contra hne
  rw [not_touches_cp ?_ (fun _ => ?_) cwd fs d] at hp
  · cases hp
  · -- the file that is copied has no dash in its name
    rw [lastName_snoc]
    rintro rfl
    refine absurd hn ?_
    rw [String.toList_append, List.mem_append, not_or]
    exact ⟨dash_not_mem_stem stem hstem, by decide⟩
  · rw [lastName_scriptWord h hid hstem]
    exact Ne.symm hne

theorem name_of_chmodAct (h : PlainNodes m c) {id : Text} (hid : Listed m c id) {stem : String}
    (hstem : stem ∈ scriptStems) (hcm : (chmodAct c id stem).Issues cm)
    (hp : cm.touches m cwd fs (d ++ [n]) = true) : n = scriptName stem id := by
  cases hcm
  by_contra hne
  rw [not_touches_chmodX ?_ cwd fs d] at hp
  · cases hp
  · rw [lastName_scriptWord h hid hstem]
    exact Ne.symm hne

theorem nodeStems_subset (tls : Bool) : nodeStems tls ⊆ scriptStems := by
  cases tls <;> decide

/-- A step that gives a node the file with a name. -/
inductive Gives (c : Cluster) (tls : Bool) (id : Text) (ports : List Text) : Act → Text → Prop
  | conf {port : Text} (h : port ∈ ports) :
      Gives c tls id ports (confAct c id port) (Cluster.confName id port)
  | copy {stem : String} (h : stem ∈ nodeStems tls) :
      Gives c tls id ports (copyAct c id stem) (scriptName stem id)
  | chmod {stem : String} (h : stem ∈ nodeStems tls) :
      Gives c tls id ports (chmodAct c id stem) (scriptName stem id)

section Gives

variable {tls : Bool} {id id' port : Text} {ports : List Text} {stem : String}

theorem Gives.additive (h : Gives c tls id ports a n) :
    ∃ cm, a = .cmd cm ∧ cm.Additive ∧ ∀ cwd, cm.makes cwd = [] := by
  cases h <;> exact ⟨_, rfl, trivial, fun _ => rfl⟩

/-- Only its own copy gives an instance its conf. -/
theorem Gives.of_conf (h : Gives c tls id' ports a n) (hn : n = Cluster.confName id port)
    (hport : IsPort port) (hports : ∀ port ∈ ports, IsPort port) :
    id' = id ∧ port ∈ ports ∧ a = confAct c id port := by
  cases h with
  | @conf port' hmem =>
    obtain ⟨rfl, rfl⟩ := confName_injective (hports port' hmem) hport hn
    exact ⟨rfl, hmem, rfl⟩
  | copy | chmod => exact absurd hn (scriptName_ne_confName _ _ _ _)

theorem Gives.of_script (h : Gives c tls id' ports a n) (hn : n = scriptName stem id)
    (hstem : stem ∈ scriptStems) :
    id' = id ∧ stem ∈ nodeStems tls ∧ (a = copyAct c id stem ∨ a = chmodAct c id stem) := by
  cases h with
  | conf => exact absurd hn.symm (scriptName_ne_confName _ _ _ _)
  | copy hmem =>
    obtain ⟨rfl, rfl⟩ := scriptName_injective (nodeStems_subset tls hmem) hstem hn
    exact ⟨rfl, hmem, Or.inl rfl⟩
  | chmod hmem =>
    obtain ⟨rfl, rfl⟩ := scriptName_injective (nodeStems_subset tls hmem) hstem hn
    exact ⟨rfl, hmem, Or.inr rfl⟩

end Gives

/-- The steps of a node put only its own files at names with a dash. -/
theorem gives_of_fileActs (h : PlainNodes m c) {tls : Bool} {id : Text} {ports : List Text}
    (hid : Listed m c id) (hports : ∀ port ∈ ports, IsPort port)
    (ha : a ∈ fileActs c tls id ports) (hcm : a.Issues cm) (hn : '-' ∈ n)
    (hp : cm.touches m cwd fs (d ++ [n]) = true) : Gives c tls id ports a n := by
  have hcopy : ∀ stem ∈ nodeStems tls, a = copyAct c id stem → Gives c tls id ports a n := by
    rintro stem hstem rfl
    obtain rfl := name_of_copyAct h hid (nodeStems_subset tls hstem) hcm hn hp
    exact .copy hstem
  have hchmod : ∀ stem ∈ nodeStems tls, a = chmodAct c id stem → Gives c tls id ports a n := by
    rintro stem hstem rfl
    obtain rfl := name_of_chmodAct h hid (nodeStems_subset tls hstem) hcm hp
    exact .chmod hstem
  have hplain : ∀ stem ∈ plainStems, stem ∈ nodeStems tls := by
    cases tls <;> decide
  rcases List.mem_append.mp ha with ha | ha
  · obtain ⟨port, hport, rfl⟩ := List.mem_map.mp ha
    obtain rfl := name_of_confAct h hid (hports port hport) hcm hp
    exact .conf hport
  rcases List.mem_cons.mp ha with rfl | ha
  · cases hcm
    rw [not_touches_homeSlash (by decide +kernel) hn] at hp
    cases hp
  rcases List.mem_append.mp ha with ha | ha
  · obtain ⟨stem, hstem, rfl⟩ := List.mem_map.mp ha
    exact hcopy stem (hplain stem hstem) rfl
  rcases List.mem_cons.mp ha with rfl | ha
  · cases hcm
    rw [not_touches_chmodX ?_ cwd fs d] at hp
    · cases hp
    · rw [Cluster.inHome, lastName_snoc]
      rintro rfl
      exact absurd hn (by decide +kernel)
  rcases List.mem_append.mp ha with ha | ha
  · obtain ⟨stem, hstem, rfl⟩ := List.mem_map.mp ha
    exact hchmod stem (hplain stem hstem) rfl
  · cases tls
    · simp at ha
    · simp only [if_true, List.mem_cons, List.not_mem_nil, or_false] at ha
      rcases ha with ha | ha
      · exact hcopy _ (by decide) ha
      · exact hchmod _ (by decide) ha

/-- **Who puts something at a name with a dash**: the steps that give a local node its file with
    this name, `make`, and the copy of the certificates. -/
theorem gives_of_deployActs (h : PlainNodes m c) (ha : a ∈ deployActs m c s) (hcm : a.Issues cm)
    (hn : '-' ∈ n) (hp : cm.touches m cwd fs (d ++ [n]) = true) :
    (∃ id ∈ localNodes m c s,
        Gives c (tlsAt c s) id (listAt m c s id "ports".toList) a n) ∨
      (∃ args dir, cm = .make args dir) ∨ tlsAt c s = true ∧ a = certsAct c := by
  have hhome : ∀ {name : Text}, '-' ∉ name → a ≠ homeAct c name := by
    rintro name hname rfl
    cases hcm
    rw [not_touches_homeSlash hname hn] at hp
    cases hp
  rcases List.mem_cons.mp ha with rfl | ha
  · cases hcm
    cases hp
  rcases List.mem_append.mp ha with ha | ha
  · obtain ⟨id, hid, ha⟩ := List.mem_flatMap.mp ha
    have hlisted := listed_of_mem_nodesAt (List.mem_filter.mp hid).1
    exact Or.inl ⟨id, hid, gives_of_fileActs h hlisted
      (h.ports id hlisted _ (isList_listAt s _ _)) ha hcm hn hp⟩
  rcases List.mem_append.mp ha with ha | ha
  · simp only [installActs, List.mem_cons, List.not_mem_nil, or_false] at ha
    rcases ha with rfl | rfl
    all_goals
      rcases hcm with rfl | ⟨args, rfl⟩
      · cases hp
      · exact Or.inr (Or.inl ⟨_, _, rfl⟩)
  rcases List.mem_append.mp ha with ha | ha
  · rcases List.mem_append.mp ha with ha | ha
    · cases htls : tlsAt c s
      · simp [htls] at ha
      · simp only [htls, if_true, List.mem_cons, List.not_mem_nil, or_false] at ha
        rcases ha with rfl | rfl
        · exact Or.inr (Or.inr ⟨rfl, rfl⟩)
        · exact absurd rfl (hhome (by decide +kernel))
    · simp only [List.mem_cons, List.not_mem_nil, or_false] at ha
      rcases ha with rfl | rfl
      · exact absurd rfl (hhome (by decide +kernel))
      · exact absurd rfl (hhome (by decide +kernel))
  · exact absurd (List.mem_singleton.mp ha) (hhome (by decide +kernel))

/-! ## Frames -/

/-- The node at a path that `make` leaves alone. -/
theorem eq_of_make {args : List Text} {dir : Option PathWord} (hmake : MakeKeeps m p)
    (h : (exec m (.make args dir)).run s = (some (), t)) : t.fs p = s.fs p := by
  obtain ⟨hok, rfl⟩ := exec_eq_some_iff.mp h
  rw [Shell.after_fs_of_ok hok]
  simp only [Cmd.run, confine]
  split
  · next hregion => rw [hmake, if_pos hregion]
  · rfl

/-- A command of a completed run that is not `make`, and does not touch a path. -/
theorem node_of_exec (hnot : cm.touches m s.cwd s.fs p = false)
    (hmakes : p ∉ cm.makes s.cwd) (h : (exec m cm).run s = (some (), t)) : t.fs p = s.fs p := by
  obtain ⟨-, rfl⟩ := exec_eq_some_iff.mp h
  exact (s.changes_after m cm).eq_of_not_mem (by simp [hnot]) hmakes

theorem node_of_act (hmake : MakeKeeps m p)
    (hnot : ∀ cwd fs cm, a.Issues cm → cm.touches m cwd fs p = true → ∃ args dir, cm = .make args dir)
    (hmakes : ∀ cwd cm, a.Issues cm → p ∉ cm.makes cwd) (h : (a.run m).run s = (some (), t)) :
    t.fs p = s.fs p := by
  cases a with
  | cmd cm =>
    by_cases hcm : ∃ args dir, cm = .make args dir
    · obtain ⟨args, dir, rfl⟩ := hcm
      exact eq_of_make hmake h
    · refine node_of_exec ?_ (hmakes _ _ rfl) h
      rw [Bool.eq_false_iff]
      exact fun htouch => hcm (hnot _ _ _ rfl htouch)
  | list dir args installDir =>
    have hcd : (s.after m (.cd dir)).fs p = s.fs p :=
      (s.changes_after m (.cd dir)).eq_of_not_mem (by simp [Cmd.touches]) (by simp [Cmd.makes])
    rcases cdMake_eq_some_iff.mp h with ⟨-, hrun⟩ | ⟨-, rfl⟩
    · rw [eq_of_make hmake hrun, hcd]
    · exact hcd

/-- What a completed copy leaves at its target. -/
theorem data_of_cp {src dest : PathWord} (hdest : copyTarget s.fs s.cwd dest (lastName src) = some p)
    (h : (exec m (.cp src dest)).run s = (some (), t)) :
    ∃ f, dataAt s.fs (target s.cwd src) = some f ∧
      dataAt t.fs p = some ⟨f.content, ((dataAt s.fs p).getD f).executable⟩ := by
  obtain ⟨q, r, f, hq, hr, hf, hfs⟩ := of_exec_cp h
  obtain rfl : q = p := by simpa [hdest] using hq.symm
  rw [resolve_eq_target hr] at hf
  refine ⟨f, hf, ?_⟩
  rw [hfs, putCopy_eq_set, dataAt, set_same]

/-- Where a copy into a directory goes, its word ending in a slash. -/
theorem copyTarget_slash {w src : PathWord} (hw : IsAbsolute w) (hn : IsName (lastName src))
    (h : (exec m (.cp src (w ++ [[]]))).run s = (some (), t)) :
    copyTarget s.fs s.cwd (w ++ [[]]) (lastName src) = some (target [] w ++ [lastName src]) := by
  obtain ⟨q, -, -, hq, -⟩ := of_exec_cp h
  rw [hq]
  unfold copyTarget at hq
  split at hq
  · have hsplit : w ++ [[]] ++ [lastName src] = w ++ [[], lastName src] := by simp
    rw [hsplit] at hq
    rw [resolve_eq_target (fileTarget_eq_some_iff.mp hq).1, target_slash hw hn]
  · have hempty := (fileTarget_eq_some_iff.mp hq).2.1
    rw [lastName_snoc] at hempty
    exact absurd rfl hempty.1

/-- Where a copy goes that no directory is in the way of. -/
theorem copyTarget_of_ne_dir {w src : PathWord} (hdir : s.fs (target s.cwd w) ≠ some .dir)
    (h : (exec m (.cp src w)).run s = (some (), t)) :
    copyTarget s.fs s.cwd w (lastName src) = some (target s.cwd w) := by
  obtain ⟨q, -, -, hq, -⟩ := of_exec_cp h
  rw [hq]
  unfold copyTarget at hq
  split at hq
  · next hthere =>
    obtain ⟨r, hr, hrdir⟩ := testD_eq_true_iff.mp hthere
    rw [resolve_eq_target hr] at hrdir
    exact absurd (isDir_iff.mp hrdir) hdir
  · rw [resolve_eq_target (fileTarget_eq_some_iff.mp hq).1]

/-- What a completed `chmod +x` leaves, where no directory is. -/
theorem data_of_chmodX {w : PathWord} (hdir : s.fs (target s.cwd w) ≠ some .dir)
    (h : (exec m (.chmodX w)).run s = (some (), t)) :
    ∃ f, dataAt s.fs (target s.cwd w) = some f ∧
      dataAt t.fs (target s.cwd w) = some { f with executable := true } := by
  obtain ⟨hok, rfl⟩ := exec_eq_some_iff.mp h
  rw [Shell.after_fs_of_ok hok]
  rw [Shell.run_of_outcome hok] at hok
  simp only [Cmd.run] at hok ⊢
  cases htarget : fileTarget s.fs s.cwd w with
  | none =>
    simp only [htarget] at hok
    obtain ⟨r, hr, hrdir⟩ := testD_eq_true_iff.mp hok
    rw [resolve_eq_target hr] at hrdir
    exact absurd (isDir_iff.mp hrdir) hdir
  | some q =>
    obtain rfl := resolve_eq_target (fileTarget_eq_some_iff.mp htarget).1
    simp only [htarget] at hok ⊢
    cases hdata : dataAt s.fs (target s.cwd w) with
    | none => simp [hdata] at hok
    | some f => exact ⟨f, rfl, by simp [dataAt]⟩

/-- What the copy of the certificates touches. -/
theorem prefix_of_certs (h : PlainPaths m c) (hne : c.ini.tlsCacertdir ≠ [])
    (hcm : (certsAct c).Issues cm) (hp : cm.touches m cwd fs p = true) :
    c.homeEntry c.ini.tlsCacertdir <+: p := by
  cases hcm
  have hname : IsName c.ini.tlsCacertdir := ⟨hne, h.tlsCacertdir.ne_dot, h.tlsCacertdir.ne_dots⟩
  have hword : pathWord c.ini.tlsCacertdir = [c.ini.tlsCacertdir] :=
    pathWord_eq_singleton h.tlsCacertdir.noSlash
  have htarget : target cwd c.tlsCacertDir = c.homeEntry c.ini.tlsCacertdir := by
    rw [Cluster.tlsCacertDir, hword, target_append_name hname,
      h.isAbsolute_home.target_eq (d := [])]
    rfl
  obtain ⟨q, hq, hbelow⟩ := belowAny_iff.mp hp
  rw [Option.mem_toList, copyTreeTarget, hword, lastName_snoc] at hq
  have hpath := resolve_eq_target hq
  split at hpath
  · rw [target_append_name hname, htarget] at hpath
    exact (List.prefix_append _ _).trans (hpath ▸ hbelow)
  · exact htarget ▸ hpath ▸ hbelow

/-- The subdirectories of the home directory. -/
def subdirNames (c : Cluster) : List Text :=
  [c.ini.rdbDirName, "conf".toList, "log".toList, "run".toList, "modules".toList]

/-- The directories that `deploy()` makes lead to the home directory, or to a subdirectory. -/
theorem makes_deployActs (h : PlainPaths m c) (ha : WithMarker (DeployAct m c) (deployMarker c) a)
    (hcm : a.Issues cm) (hp : p ∈ cm.makes cwd) :
    p <+: c.homeTarget ∨ ∃ x ∈ subdirNames c, p <+: c.homeEntry x := by
  have hword : ∀ x, IsPlainName x → p ∈ mkdirPaths cwd [c.clusterHomeDir ++ [x]] →
      p <+: c.homeTarget ∨ p <+: c.homeEntry x := by
    intro x hx hp
    obtain ⟨ns, hns⟩ := h.isAbsolute_home
    have hdots : ['.', '.'] ∉ ns ++ [x] := by
      have hhome := h.noDots_home
      rw [hns] at hhome
      simp only [List.mem_append, List.mem_singleton, not_or]
      exact ⟨fun hmem => hhome (List.mem_cons_of_mem _ hmem), Ne.symm hx.ne_dots⟩
    simp only [mkdirPaths, List.flatMap_cons, List.flatMap_nil, List.append_nil, hns,
      List.cons_append, startOf] at hp
    have hprefix := prefix_foldl_step_of_mem_visited hdots hp
    have hhome : ns.foldl step [] = c.homeTarget := by
      rw [Cluster.homeTarget, hns]
      rfl
    rw [List.foldl_append, hhome] at hprefix
    by_cases hempty : x = []
    · subst hempty
      exact Or.inl hprefix
    · rw [foldl_step_of_isName (by simp [IsName, hempty, hx.ne_dot, hx.ne_dots])] at hprefix
      exact Or.inr hprefix
  rcases ha with ha | rfl
  · cases ha with
    | homeDirs =>
      cases hcm
      obtain ⟨w, hw, hp⟩ := List.mem_flatMap.mp hp
      simp only [homeSubdirs, Cluster.inHome, pathWord_eq_singleton h.rdbDirName.noSlash,
        List.mem_cons, List.not_mem_nil, or_false] at hw
      have hplain : ∀ x ∈ subdirNames c, IsPlainName x := by
        simp only [subdirNames, List.forall_mem_cons]
        exact ⟨h.rdbDirName, by decide⟩
      have hmem : ∃ x ∈ subdirNames c, w = c.clusterHomeDir ++ [x] := by
        rcases hw with rfl | rfl | rfl | rfl | rfl <;> exact ⟨_, by simp [subdirNames], rfl⟩
      obtain ⟨x, hx, rfl⟩ := hmem
      refine (hword x (hplain x hx) ?_).imp id fun hprefix => ⟨x, hx, hprefix⟩
      simpa [mkdirPaths] using hp
    | conf | copyScript | chmodScript | chmodCreate | copyHome | certs =>
      cases hcm
      cases hp
    | redisInstall | hiredisInstall => rcases hcm with rfl | ⟨args, rfl⟩ <;> cases hp
  · cases hcm
    cases hp

end Steps

/-! ## The result -/

/-- What `deploy()` leaves: the local nodes have their files, and the confs and scripts that are
    not theirs are as they were. -/
structure Delivered (m : Machine) (c : Cluster) (s t : Shell) : Prop where
  given : ∀ id ∈ localNodes m c s, ∀ d ∈ deliveries m c s id, d.Done s.fs t.fs
  confs : ∀ id port, IsPort port →
    ¬ (id ∈ localNodes m c s ∧ port ∈ listAt m c s id "ports".toList) →
    t.fs (c.confDelivery id port).dest = s.fs (c.confDelivery id port).dest
  scripts : ∀ id, ∀ stem ∈ scriptStems,
    ¬ (id ∈ localNodes m c s ∧ stem ∈ nodeStems (tlsAt c s)) →
    t.fs (c.scriptDelivery id stem).dest = s.fs (c.scriptDelivery id stem).dest

section Result

variable {m : Machine} {c : Cluster} {s t u v : Shell} {a : Act} {d p : Path} {n : Text}

/-- Neither `make`, nor the copy of the certificates, nor `mkdir -p` changes what is there. -/
structure Spared (m : Machine) (c : Cluster) (s : Shell) (p : Path) : Prop where
  make : MakeKeeps m p
  certs : tlsAt c s = true → ¬ c.homeEntry c.ini.tlsCacertdir <+: p
  home : ¬ p <+: c.homeTarget
  subdirs : ∀ x ∈ subdirNames c, ¬ p <+: c.homeEntry x

theorem not_prefix_of_length {p q : Path} (h : q.length < p.length) : ¬ p <+: q :=
  fun hprefix => absurd hprefix.length_le (by omega)

theorem homeEntry_prefix_iff {x : Text} {q : Path} :
    c.homeEntry x <+: c.homeEntry n ++ q ↔ x = n := by
  constructor
  · rintro ⟨r, hr⟩
    simp only [Cluster.homeEntry, List.append_assoc, List.append_cancel_left_eq,
      List.cons_append, List.nil_append, List.cons.injEq] at hr
    exact hr.1
  · rintro rfl
    exact List.prefix_append _ _

theorem spared_conf (h : Deliverable m c s) (n : Text) :
    Spared m c s (c.homeEntry "conf".toList ++ [n]) where
  make := h.makeConf n
  certs := fun htls hprefix => (h.certs htls).2.1 (homeEntry_prefix_iff.mp hprefix)
  home := not_prefix_of_length (by simp [Cluster.homeEntry])
  subdirs := fun x _ => not_prefix_of_length (by simp [Cluster.homeEntry])

theorem spared_script (h : Deliverable m c s) (id : Text) {stem : String}
    (hstem : stem ∈ scriptStems) : Spared m c s (c.homeEntry (scriptName stem id)) where
  make := h.makeScript id stem hstem
  certs := by
    intro htls hprefix
    rw [← List.append_nil (c.homeEntry (scriptName stem id))] at hprefix
    exact (h.certs htls).2.2 id stem hstem (homeEntry_prefix_iff.mp hprefix)
  home := not_prefix_of_length (by simp [Cluster.homeEntry])
  subdirs := by
    intro x hx hprefix
    rw [← List.append_nil (c.homeEntry x)] at hprefix
    have heq := homeEntry_prefix_iff.mp hprefix
    have hdash := dash_mem_scriptName stem id
    simp only [subdirNames, List.mem_cons, List.not_mem_nil, or_false] at hx
    rcases hx with rfl | rfl | rfl | rfl | rfl
    · exact h.rdbDir id stem hstem heq.symm
    all_goals exact absurd (heq ▸ hdash) (by decide)

/-- **Frame**: a step that does not give the file with a name leaves such a path alone. -/
theorem node_of_deployActs (h : Deliverable m c s) (hp : Spared m c s (d ++ [n])) (hn : '-' ∈ n)
    (ha : a ∈ deployActs m c s)
    (hnot : ∀ id ∈ localNodes m c s,
      ¬ Gives c (tlsAt c s) id (listAt m c s id "ports".toList) a n)
    (hrun : (a.run m).run u = (some (), v)) : v.fs (d ++ [n]) = u.fs (d ++ [n]) := by
  refine node_of_act hp.make (fun cwd fs cm hcm htouch => ?_) (fun cwd cm hcm hmakes => ?_) hrun
  · rcases gives_of_deployActs h.nodes ha hcm hn htouch with ⟨id, hid, hgives⟩ | hmake | ⟨htls, rfl⟩
    · exact absurd hgives (hnot id hid)
    · exact hmake
    · exact absurd (prefix_of_certs h.paths (h.certs htls).1 hcm htouch) (hp.certs htls)
  · rcases makes_deployActs h.paths (mem_deployActs ha) hcm hmakes with hhome | ⟨x, hx, hsub⟩
    · exact hp.home hhome
    · exact hp.subdirs x hx hsub

/-- What holds all along: the config directory is as it was, and no directory has the name of a
    script. -/
structure Delivering (m : Machine) (c : Cluster) (s u : Shell) : Prop where
  config : SameAround c.configTarget s.fs u.fs
  noDir : ∀ id ∈ localNodes m c s, ∀ stem ∈ nodeStems (tlsAt c s),
    u.fs (c.homeEntry (scriptName stem id)) ≠ some .dir

theorem Delivering.of_act (h : Deliverable m c s) (hs : DeployPasses c s)
    (hu : Delivering m c s u) (ha : a ∈ deployActs m c s)
    (hrun : (a.run m).run u = (some (), v)) : Delivering m c s v where
  config := by
    have hkeeps := DeployAct.keeps_config h.paths h.apart hs.configured (mem_deployActs ha)
    exact hkeeps.of_run hu.config hrun
  noDir := by
    intro id hid stem hstem
    have hp := spared_script h id (nodeStems_subset _ hstem)
    have hdash := dash_mem_scriptName stem id
    have hdir := hu.noDir id hid stem hstem
    by_cases hgives : ∃ id' ∈ localNodes m c s, Gives c (tlsAt c s) id'
        (listAt m c s id' "ports".toList) a (scriptName stem id)
    · obtain ⟨id', -, hgives⟩ := hgives
      obtain ⟨cm, rfl, hadd, hmakes⟩ := hgives.additive
      exact ne_dir_of_exec hadd (by simp [hmakes]) hdir hrun
    · rw [Cluster.homeEntry] at hdir hp ⊢
      rw [node_of_deployActs h hp hdash ha (fun id' hid' hg => hgives ⟨id', hid', hg⟩) hrun]
      exact hdir

/-- The source of a file is what it was. -/
theorem Delivering.dataAt_source (hu : Delivering m c s u) {id n : Text} :
    dataAt u.fs (c.configEntry id ++ [n]) = dataAt s.fs (c.configEntry id ++ [n]) := by
  refine dataAt_congr (hu.config _ (Or.inl ?_))
  rw [Cluster.configEntry, List.append_assoc]
  exact List.prefix_append _ _

/-- The copy of a conf. -/
theorem conf_given (h : Deliverable m c s) (hu : Delivering m c s u) {id port : Text}
    (hid : Listed m c id) (hport : IsPort port)
    (hrun : ((confAct c id port).run m).run u = (some (), v)) :
    (c.confDelivery id port).Done s.fs v.fs := by
  have hname := isName_confName id port
  have hplain := h.nodes.ids id hid
  have hsource : target u.cwd (c.nodeConfFile id port) = (c.confDelivery id port).source := by
    rw [nodeConfFile_eq hplain hport, target_append_name hname,
      target_nodeconfdir hplain (h.nodes.isName hid), Cluster.confDelivery]
  have hword : c.clusterHomeDir ++ ["conf".toList, []] =
      c.clusterHomeDir ++ ["conf".toList] ++ [[]] := by simp
  have hdest : target [] (c.clusterHomeDir ++ ["conf".toList]) = c.homeEntry "conf".toList :=
    target_append_name (by decide) _ _
  have hlast := lastName_confFile h.nodes hid hport
  rw [confAct, hword] at hrun
  obtain ⟨f, hf, hg⟩ := data_of_cp (copyTarget_slash (h.paths.isAbsolute_home.append _)
    (hlast ▸ hname) hrun) hrun
  rw [hsource] at hf
  rw [hdest, hlast] at hg
  exact ⟨f, _, hu.dataAt_source ▸ hf, hg, rfl, by simp [Cluster.confDelivery]⟩

section Script

variable {id : Text} {stem : String}

theorem target_scriptWord (h : Deliverable m c s) (hid : Listed m c id)
    (hstem : stem ∈ scriptStems) (cwd : Path) :
    target cwd (c.clusterHomeDir ++ pathWord (scriptName stem id)) =
      c.homeEntry (scriptName stem id) := by
  have hslash := slash_not_mem_scriptName hstem (h.nodes.ids id hid).noSlash
  have hlen : 2 < (scriptName stem id).length := by
    have hend : ".sh".toList.length = 3 := rfl
    rw [scriptName, List.length_append, hend]
    omega
  have hname : IsName (scriptName stem id) := by
    refine ⟨fun he => ?_, fun he => ?_, fun he => ?_⟩ <;> rw [he] at hlen <;> simp at hlen
  rw [pathWord_eq_singleton hslash, target_append_name hname,
    h.paths.isAbsolute_home.target_eq (d := [])]
  rfl

/-- The copy of a script. -/
theorem script_copied (h : Deliverable m c s) (hu : Delivering m c s u)
    (hid : id ∈ localNodes m c s) (hstem : stem ∈ nodeStems (tlsAt c s))
    (hrun : ((copyAct c id stem).run m).run u = (some (), v)) :
    ∃ f, dataAt s.fs (c.scriptDelivery id stem).source = some f ∧
      dataAt v.fs (c.scriptDelivery id stem).dest = some ⟨f.content,
        ((dataAt u.fs (c.scriptDelivery id stem).dest).getD f).executable⟩ := by
  have hlisted := listed_of_mem_nodesAt (List.mem_filter.mp hid).1
  have hplain := h.nodes.ids id hlisted
  have hstem' := nodeStems_subset _ hstem
  have hname : IsName (stem ++ ".sh").toList := by
    simp only [scriptStems, List.mem_cons, List.not_mem_nil, or_false] at hstem'
    rcases hstem' with rfl | rfl | rfl | rfl <;> decide
  have hsource : target u.cwd (c.nodeconfdir id ++ [(stem ++ ".sh").toList]) =
      (c.scriptDelivery id stem).source := by
    rw [target_append_name hname, target_nodeconfdir hplain (h.nodes.isName hlisted)]
    rfl
  have hdir := hu.noDir id hid stem hstem
  have hdest := target_scriptWord h hlisted hstem' u.cwd
  have htarget := copyTarget_of_ne_dir (hdest ▸ hdir) hrun
  obtain ⟨f, hf, hg⟩ := data_of_cp htarget hrun
  rw [hsource] at hf
  rw [hdest] at hg
  exact ⟨f, hu.dataAt_source ▸ hf, hg⟩

/-- Its `chmod +x`. -/
theorem script_marked (h : Deliverable m c s) (hu : Delivering m c s u)
    (hid : id ∈ localNodes m c s) (hstem : stem ∈ nodeStems (tlsAt c s))
    (hrun : ((chmodAct c id stem).run m).run u = (some (), v)) :
    ∃ f, dataAt u.fs (c.scriptDelivery id stem).dest = some f ∧
      dataAt v.fs (c.scriptDelivery id stem).dest = some { f with executable := true } := by
  have hlisted := listed_of_mem_nodesAt (List.mem_filter.mp hid).1
  have hdest := target_scriptWord h hlisted (nodeStems_subset _ hstem) u.cwd
  have hmarked := data_of_chmodX (hdest ▸ hu.noDir id hid stem hstem) hrun
  rwa [hdest] at hmarked

theorem script_mem_fileActs {tls : Bool} (id : Text) (ports : List Text)
    (hstem : stem ∈ nodeStems tls) :
    copyAct c id stem ∈ fileActs c tls id ports ∧ chmodAct c id stem ∈ fileActs c tls id ports := by
  have hcases : stem ∈ plainStems ∨ tls = true ∧ stem = "tlsconnect_redis" := by
    cases tls
    · exact Or.inl hstem
    · have hsplit : stem ∈ plainStems ++ ["tlsconnect_redis"] := hstem
      rcases List.mem_append.mp hsplit with hmem | hmem
      · exact Or.inl hmem
      · exact Or.inr ⟨rfl, List.mem_singleton.mp hmem⟩
  unfold fileActs
  rcases hcases with hmem | ⟨rfl, rfl⟩
  · have hcopy : copyAct c id stem ∈ plainStems.map (copyAct c id) := List.mem_map_of_mem hmem
    have hchmod : chmodAct c id stem ∈ plainStems.map (chmodAct c id) := List.mem_map_of_mem hmem
    simp only [List.mem_append, List.mem_cons]
    exact ⟨Or.inr (Or.inr (Or.inl hcopy)), Or.inr (Or.inr (Or.inr (Or.inr (Or.inl hchmod))))⟩
  · simp only [List.mem_append, List.mem_cons, if_true, true_or, or_true, and_self]

theorem mem_deployActs_of_files {id : Text} (hid : id ∈ localNodes m c s)
    (ha : a ∈ fileActs c (tlsAt c s) id (listAt m c s id "ports".toList)) :
    a ∈ deployActs m c s := by
  refine List.mem_cons_of_mem _ (List.mem_append.mpr (Or.inl ?_))
  exact List.mem_flatMap.mpr ⟨id, hid, ha⟩

end Script

/-- A fact about the file at a path with a dash in its name, which the steps that give the file
    with this name keep, is kept by all steps. -/
theorem kept_of_gives (h : Deliverable m c s) {G : Option File → Prop}
    (hp : Spared m c s (d ++ [n])) (hn : '-' ∈ n)
    (hgives : ∀ b, ∀ id ∈ localNodes m c s,
      Gives c (tlsAt c s) id (listAt m c s id "ports".toList) b n → ∀ u v, Delivering m c s u →
      G (dataAt u.fs (d ++ [n])) → (b.run m).run u = (some (), v) → G (dataAt v.fs (d ++ [n]))) :
    ∀ b ∈ deployActs m c s, ∀ u v, Delivering m c s u → G (dataAt u.fs (d ++ [n])) →
      (b.run m).run u = (some (), v) → G (dataAt v.fs (d ++ [n])) := by
  intro b hb u v hu hG hrun
  by_cases hmine : ∃ id ∈ localNodes m c s, Gives c (tlsAt c s) id
      (listAt m c s id "ports".toList) b n
  · obtain ⟨id, hid, hmine⟩ := hmine
    exact hgives b id hid hmine u v hu hG hrun
  · rw [dataAt_congr (node_of_deployActs h hp hn hb (fun id hid hg => hmine ⟨id, hid, hg⟩) hrun)]
    exact hG

/-! ### Local nodes -/

variable (h : Deliverable m c s) (hs : DeployPasses c s)
  (hrun : (forEach (deployActs m c s) (Act.run m)).run s = (some (), t))

include h hs hrun

/-- What a step of the list establishes and no step spoils. -/
theorem reaches {G : Shell → Prop} (ha : a ∈ deployActs m c s)
    (hest : ∀ u v, Delivering m c s u → (a.run m).run u = (some (), v) → G v)
    (hkeep : ∀ b ∈ deployActs m c s, ∀ u v, Delivering m c s u → G u →
      (b.run m).run u = (some (), v) → G v) : G t :=
  forEach_reaches (fun _ hb _ _ hu hrun => hu.of_act h hs hb hrun) hkeep ha hest
    ⟨fun _ _ => rfl, h.noDir⟩ hrun

theorem confs_given {id port : Text} (hid : id ∈ localNodes m c s)
    (hport : port ∈ listAt m c s id "ports".toList) :
    (c.confDelivery id port).Done s.fs t.fs := by
  have hlisted : ∀ id ∈ localNodes m c s, Listed m c id :=
    fun id hid => listed_of_mem_nodesAt (List.mem_filter.mp hid).1
  have hports : ∀ id ∈ localNodes m c s, ∀ port ∈ listAt m c s id "ports".toList, IsPort port :=
    fun id hid => h.nodes.ports id (hlisted id hid) _ (isList_listAt s _ _)
  have hisPort := hports id hid port hport
  refine reaches h hs hrun (G := fun v => (c.confDelivery id port).Done s.fs v.fs)
    (mem_deployActs_of_files hid (List.mem_append.mpr (Or.inl (List.mem_map.mpr ⟨port, hport, rfl⟩))))
    (fun u v hu hrun => conf_given h hu (hlisted id hid) hisPort hrun) ?_
  refine kept_of_gives h (G := fun x => ∃ f g, dataAt s.fs (c.confDelivery id port).source = some f ∧
    x = some g ∧ g.content = f.content ∧ ((c.confDelivery id port).script = true →
      g.executable = true)) (spared_conf h _) (dash_mem_confName id port) ?_
  intro b id' hid' hgives u v hu _ hrun
  obtain ⟨rfl, -, rfl⟩ := hgives.of_conf rfl hisPort (hports id' hid')
  exact conf_given h hu (hlisted _ hid) hisPort hrun

theorem scripts_given {id : Text} {stem : String} (hid : id ∈ localNodes m c s)
    (hstem : stem ∈ nodeStems (tlsAt c s)) : (c.scriptDelivery id stem).Done s.fs t.fs := by
  have hstem' := nodeStems_subset _ hstem
  have hp := spared_script h id hstem'
  have hdash := dash_mem_scriptName stem id
  obtain ⟨hcopy, hchmod⟩ := script_mem_fileActs (c := c) id (listAt m c s id "ports".toList) hstem
  have hcontent : ∃ f g, dataAt s.fs (c.scriptDelivery id stem).source = some f ∧
      dataAt t.fs (c.scriptDelivery id stem).dest = some g ∧ g.content = f.content := by
    refine reaches h hs hrun (G := fun v => ∃ f g, dataAt s.fs (c.scriptDelivery id stem).source =
      some f ∧ dataAt v.fs (c.scriptDelivery id stem).dest = some g ∧ g.content = f.content)
      (mem_deployActs_of_files hid hcopy) (fun u v hu hrun => ?_) ?_
    · obtain ⟨f, hf, hg⟩ := script_copied h hu hid hstem hrun
      exact ⟨f, _, hf, hg, rfl⟩
    · refine kept_of_gives h (G := fun x => ∃ f g, dataAt s.fs (c.scriptDelivery id stem).source =
        some f ∧ x = some g ∧ g.content = f.content) hp hdash ?_
      rintro b id' hid' hgives u v hu ⟨f, g, hf, hg, hsame⟩ hrun
      obtain ⟨rfl, -, rfl | rfl⟩ := hgives.of_script rfl hstem'
      · obtain ⟨f, hf, hg⟩ := script_copied h hu hid hstem hrun
        exact ⟨f, _, hf, hg, rfl⟩
      · obtain ⟨g', hg', hmarked⟩ := script_marked h hu hid hstem hrun
        obtain rfl : g' = g := Option.some.inj (hg'.symm.trans hg)
        exact ⟨f, _, hf, hmarked, hsame⟩
  have hmark : ∃ g, dataAt t.fs (c.scriptDelivery id stem).dest = some g ∧ g.executable = true := by
    refine reaches h hs hrun (G := fun v => ∃ g, dataAt v.fs (c.scriptDelivery id stem).dest =
      some g ∧ g.executable = true) (mem_deployActs_of_files hid hchmod) (fun u v hu hrun => ?_) ?_
    · obtain ⟨f, -, hmarked⟩ := script_marked h hu hid hstem hrun
      exact ⟨_, hmarked, rfl⟩
    · refine kept_of_gives h (G := fun x => ∃ g, x = some g ∧ g.executable = true) hp hdash ?_
      rintro b id' hid' hgives u v hu ⟨g, hg, hmode⟩ hrun
      obtain ⟨rfl, -, rfl | rfl⟩ := hgives.of_script rfl hstem'
      · -- a copy over a script that can be run keeps its mode
        obtain ⟨f, -, hcopied⟩ := script_copied h hu hid hstem hrun
        have hg : dataAt u.fs (c.scriptDelivery id' stem).dest = some g := hg
        rw [hg] at hcopied
        exact ⟨_, hcopied, hmode⟩
      · obtain ⟨f, -, hmarked⟩ := script_marked h hu hid hstem hrun
        exact ⟨_, hmarked, rfl⟩
  obtain ⟨f, g, hf, hg, hsame⟩ := hcontent
  obtain ⟨g', hg', hmode⟩ := hmark
  obtain rfl : g' = g := Option.some.inj (hg'.symm.trans hg)
  exact ⟨f, g', hf, hg', hsame, fun _ => hmode⟩

omit hs hrun in
/-- A completed list of steps leaves alone a path with a dash in its name that none of them
    gives a file to. -/
theorem not_given (hp : Spared m c s (d ++ [n])) (hn : '-' ∈ n)
    (hnot : ∀ b, ∀ id ∈ localNodes m c s,
      ¬ Gives c (tlsAt c s) id (listAt m c s id "ports".toList) b n)
    (hrun : (forEach (deployActs m c s) (Act.run m)).run s = (some (), t)) :
    t.fs (d ++ [n]) = s.fs (d ++ [n]) := by
  refine forEach_keeps_of_some (I := fun u => u.fs (d ++ [n]) = s.fs (d ++ [n]))
    (fun b hb u v hu hrun => ?_) rfl hrun
  rw [node_of_deployActs h hp hn hb (hnot b) hrun, hu]

end Result

/-- What the local nodes have after a completed `deploy()`. -/
theorem deliveries_given {m : Machine} {c : Cluster} {s t : Shell} (h : Deliverable m c s)
    (hrun : (deploy m c).run s = (some (), t)) :
    ∀ id ∈ localNodes m c s, ∀ d ∈ deliveries m c s id, d.Done s.fs t.fs := by
  have hs := deployPasses_of_some hrun
  rw [deploy_run_eq h.nodes.stable h.paths h.apart hs] at hrun
  intro id hid d hd
  rcases List.mem_append.mp hd with hd | hd
  · obtain ⟨port, hport, rfl⟩ := List.mem_map.mp hd
    exact confs_given h hs hrun hid hport
  · obtain ⟨stem, hstem, rfl⟩ := List.mem_map.mp hd
    exact scripts_given h hs hrun hid hstem

/-- A node with two ports on this machine, and one on another. -/
def twoHostsCfg : Text :=
  "[redis_cluster]\nnodes=\"n1,n2\"\n[n1]\nhost=\"hacl-node1\"\nconf=\"c0\"\naddrs=\"a1\"\nports=\"6377,6378\"\n[n2]\nhost=\"h2\"\nconf=\"c0\"\naddrs=\"a2\"\nports=\"6377\"\n".toList

def twoHostsInputs : Inputs :=
  { demoInputs demoIni twoHostsCfg confTemplate "s".toList [] with sbinFile := shippedSbin }

def twoHostsCluster : Cluster := demoCluster demoIni twoHostsInputs

/-- What `build()`, `config()` and `deploy()` leave of it. -/
def twoHostsConfigured : Shell :=
  ((config plainHost twoHostsCluster).run ((build plainHost twoHostsCluster).run demoShell).2).2
def twoHostsDeployed : Shell := ((deploy plainHost twoHostsCluster).run twoHostsConfigured).2

/-- The ids and ports of plain nodes are plain names. -/
theorem PlainNodes.plainNames {m : Machine} {c : Cluster} (h : PlainNodes m c)
    (hparent : PlainParent c.ini.clusterParentDir) (hrdb : IsPlainName c.ini.rdbDirName)
    (hcerts : IsPlainName c.ini.tlsCacertdir) (hredis : '/' ∉ c.redisVerno)
    (hhiredis : '/' ∉ c.hiredisVerno) : PlainNames m c where
  parentDir := hparent
  ids := fun id hid => ⟨(h.ids id hid).noSlash, (h.ids id hid).ne_dot, (h.ids id hid).ne_dots⟩
  ports := by
    intro id hid l hl port hport
    have hisPort := h.ports id hid l hl port hport
    refine ⟨hisPort.noSlash, ?_, ?_⟩
    all_goals
      rintro rfl
      exact absurd (hisPort '.' (by simp)) (by decide)
  rdbDirName := hrdb
  tlsCacertdir := hcerts
  redisVerno := hredis
  hiredisVerno := hhiredis

theorem deliverable_twoHosts {s : Shell} (hnoDir : ∀ id ∈ localNodes plainHost twoHostsCluster s,
    ∀ stem ∈ nodeStems (tlsAt twoHostsCluster s),
    s.fs (twoHostsCluster.homeEntry (scriptName stem id)) ≠ some .dir) :
    Deliverable plainHost twoHostsCluster s := by
  have hnodes : PlainNodes plainHost twoHostsCluster :=
    plainNodes_of_plainHost (by decide +kernel) (by decide +kernel)
  have hnodash : ∀ x, '-' ∉ x → ∀ id, ∀ stem ∈ scriptStems, x ≠ scriptName stem id := by
    rintro x hx id stem - rfl
    exact hx (dash_mem_scriptName stem id)
  exact {
    nodes := hnodes
    paths :=
      { hnodes.plainNames ⟨⟨["opt".toList], by decide +kernel⟩, by decide +kernel⟩
          (by decide +kernel) (by decide +kernel) (by decide +kernel) (by decide +kernel) with
        canonical := by decide +kernel
        clusterid := by decide +kernel }
    apart := by decide +kernel
    noDir := hnoDir
    rdbDir := hnodash _ (by decide +kernel)
    certs := fun _ => ⟨by decide +kernel, by decide +kernel, hnodash _ (by decide +kernel)⟩
    makeConf := fun _ _ _ _ => rfl
    makeScript := fun _ _ _ _ _ _ => rfl }

end RedisCluster
