import RedisCluster.Tool.Outputs
import RedisCluster.Properties.Tls

/-!
# The files that `config()` hands over to `deploy()`

`deploy()` copies the instance confs and scripts of the local nodes, and a tail of fixed
files, from `$cluster_config_dir`. `config()` writes the fixed ones after its loop, but the
copy of the password file inside it: without nodes there is no `CLUSTER_AUTH_PASS`.

* `Copied`, `HandedOver`: what `deploy()` copies, on whatever machine, and that it is there.
* `deploy_copies`: the copies in a run of `deploy()` are of these files.
* `config_handedOver_iff`: all are there exactly when there is a first node.
-/

namespace RedisCluster

open FileTree Errexit Script

variable {m : Machine} {c : Cluster}

/-- The scripts of a node that are copied without TLS. -/
def plainStems : List String := ["start_redis", "shutdown_redis", "connect_redis"]

/-- The fixed files that `deploy()` copies without TLS. -/
def fixedNames : List Text :=
  ["create_cluster.sh".toList, "cluster_env.sh".toList, clusterAuthPass, clusterAllNodes]

/-- The files of `$cluster_config_dir` that `deploy()` copies, when every node may be local.
    With a `CLUSTER_TLS_NODES` it copies one more script of each node. -/
inductive Copied (m : Machine) (c : Cluster) (t : Shell) : PathWord → Prop
  | conf {nodeid port : Text} (hn : nodeid ∈ nodesAt m c t)
      (hp : port ∈ listAt m c t nodeid "ports".toList) : Copied m c t (c.nodeConfFile nodeid port)
  | script {nodeid : Text} {stem : String} (hn : nodeid ∈ nodesAt m c t) (hs : stem ∈ plainStems) :
      Copied m c t (c.nodeconfdir nodeid ++ [(stem ++ ".sh").toList])
  | fixed {name : Text} (h : name ∈ fixedNames) : Copied m c t (c.inConfig name)
  | tlsScript {nodeid : Text} (hn : nodeid ∈ nodesAt m c t)
      (ht : testF t.fs t.cwd (c.inConfig clusterTlsNodes) = true) :
      Copied m c t (c.nodeconfdir nodeid ++ ["tlsconnect_redis.sh".toList])

/-- All that `deploy()` copies is there: the files, and the certificates with a
    `CLUSTER_TLS_NODES`. -/
structure HandedOver (m : Machine) (c : Cluster) (t : Shell) : Prop where
  files : ∀ w, Copied m c t w → testF t.fs t.cwd w = true
  certs : testF t.fs t.cwd (c.inConfig clusterTlsNodes) = true →
    testD t.fs t.cwd (c.clusterConfigDir ++ pathWord c.ini.tlsCacertdir) = true

/-- Nothing is below `d`. -/
def EmptyBelow (fs : FS) (d : Path) : Prop := ∀ p, d <+: p → p ≠ d → fs p = none

/-! ## What `deploy()` copies -/

/-- A copy of `deploy()` that needs no TLS is of a file that `Copied` names. -/
theorem deploy_copies (hstable : StableReads m c) (u : Shell) : Extends (fun _ cm _ =>
    ∀ src dest, cm = .cp src dest → Copied m c u src ∨ src = c.inConfig clusterTlsNodes ∨
      ∃ nodeid, src = c.nodeconfdir nodeid ++ ["tlsconnect_redis.sh".toList]) u.trace
      ((deploy m c).run u).2 := by
  refine (built_deploy m c).extends_trace ?_ u
  rintro a (ha | rfl) cm hcm cwd ok src dest rfl
  · cases ha with
    | conf h hl hp =>
      obtain ⟨rfl, -⟩ := Cmd.cp.inj hcm
      rw [hstable.eq_listAt u hl] at hp
      exact Or.inl (.conf (hstable.mem_nodesAt u h) hp)
    | copyScript h hs =>
      obtain ⟨rfl, -⟩ := Cmd.cp.inj hcm
      rcases List.mem_append.mp (show _ ∈ plainStems ++ ["tlsconnect_redis"] from hs) with hs | hs
      · exact Or.inl (.script (hstable.mem_nodesAt u h) hs)
      · rw [List.mem_singleton.mp hs]
        exact Or.inr (Or.inr ⟨_, rfl⟩)
    | copyHome hname =>
      obtain ⟨rfl, -⟩ := Cmd.cp.inj hcm
      simp only [List.mem_cons, List.not_mem_nil, or_false] at hname
      rcases hname with rfl | rfl | rfl | rfl
      · exact Or.inl (.fixed (by simp [fixedNames]))
      · exact Or.inr (Or.inl rfl)
      · exact Or.inl (.fixed (by simp [fixedNames]))
      · exact Or.inl (.fixed (by simp [fixedNames]))
    | homeDirs | chmodScript | chmodCreate | certs => cases hcm
    | redisInstall | hiredisInstall =>
      rcases hcm with hcm | ⟨args, hcm⟩ <;> cases hcm
  · obtain ⟨rfl, -⟩ := Cmd.cp.inj hcm
    exact Or.inl (.fixed (by simp [fixedNames]))

/-! ## What a completed run makes -/

/-- A word of `$cluster_config_dir` means the same everywhere. -/
theorem isAbsolute_nodeconfdir (c : Cluster) (nodeid : Text) : IsAbsolute (c.nodeconfdir nodeid) :=
  ⟨_, rfl⟩

theorem isAbsolute_clusterConfigDir (c : Cluster) : IsAbsolute c.clusterConfigDir := ⟨_, rfl⟩

theorem isAbsolute_nodeConfFile (c : Cluster) (nodeid port : Text) :
    IsAbsolute (c.nodeConfFile nodeid port) := (isAbsolute_nodeconfdir c nodeid).append _

theorem isAbsolute_inConfig (c : Cluster) (name : Text) : IsAbsolute (c.inConfig name) := ⟨_, rfl⟩

theorem configInstance_grows {pass : Text} {n : Node} (hn : n.tls = none) {p : Text × ℕ}
    {s t : Shell} (h : (configInstance m c pass n p).run s = (some (), t)) : Grows s.fs t.fs := by
  obtain ⟨s₁, hadd, hconf⟩ := (configInstance_eq_some_iff hn).mp h
  exact (grows_of_exec (c := .append _ _) trivial hadd).trans
    (grows_of_exec (c := .pipeline _ _) trivial hconf)

/-- After a completed loop over the ports of a node its instance confs are there. -/
theorem testF_of_configInstances {pass : Text} {n : Node} (hn : n.tls = none) {s t : Shell}
    (h : (forEach n.ports.zipIdx (configInstance m c pass n)).run s = (some (), t)) :
    ∀ port ∈ n.ports, testF t.fs t.cwd (c.nodeConfFile n.nodeid port) = true := by
  have hall := forEach_establishes (I := fun _ => True)
    (G := fun p u => testF u.fs u.cwd (c.nodeConfFile n.nodeid p.1) = true)
    (fun _ _ _ _ _ _ => trivial) (fun p _ s t _ hrun => ?_) (fun p _ q _ s t _ hp hrun => ?_)
    trivial h
  · intro port hport
    obtain ⟨i, hi⟩ := List.mem_iff_get.mp hport
    exact hall (port, i) (by simp [List.mem_zipIdx_iff_getElem?, ← hi])
  · obtain ⟨s₁, -, hconf⟩ := (configInstance_eq_some_iff hn).mp hrun
    exact (isAbsolute_nodeConfFile c _ _).testF_of_grows (Grows.refl _) (testF_of_exec_pipeline hconf)
  · exact (isAbsolute_nodeConfFile c _ _).testF_of_grows (configInstance_grows hn hrun) hp

/-- So are its scripts. -/
theorem testF_of_configScripts {n : Node} (hn : n.tls = none) {s t : Shell}
    (h : (configScripts m c n).run s = (some (), t)) :
    ∀ stem ∈ plainStems, testF t.fs t.cwd (c.nodeconfdir n.nodeid ++ [(stem ++ ".sh").toList]) = true := by
  obtain ⟨s₁, -, s₂, hstart, s₃, hshutdown, hconnect⟩ := (configScripts_eq_some_iff hn).mp h
  have g₃ := grows_of_exec (c := .pipeline _ _) trivial hconnect
  have g₂ := (grows_of_exec (c := .pipeline _ _) trivial hshutdown).trans g₃
  intro stem hstem
  simp only [plainStems, List.mem_cons, List.not_mem_nil, or_false] at hstem
  have habs := isAbsolute_nodeconfdir c n.nodeid
  rcases hstem with rfl | rfl | rfl
  · exact (habs.append _).testF_of_grows g₂ (testF_of_exec_pipeline hstart)
  · exact (habs.append _).testF_of_grows g₃ (testF_of_exec_pipeline hshutdown)
  · exact (habs.append _).testF_of_grows (Grows.refl _) (testF_of_exec_pipeline hconnect)

/-- What a completed pass of the loop over the nodes has made for its node. -/
def NodeMade (m : Machine) (c : Cluster) (u t : Shell) (nodeid : Text) : Prop :=
  (∀ port ∈ listAt m c u nodeid "ports".toList,
    testF t.fs t.cwd (c.nodeConfFile nodeid port) = true) ∧
  ∀ stem ∈ plainStems, testF t.fs t.cwd (c.nodeconfdir nodeid ++ [(stem ++ ".sh").toList]) = true

theorem NodeMade.of_grows {u s t : Shell} {nodeid : Text} (h : NodeMade m c u s nodeid)
    (hgrows : Grows s.fs t.fs) : NodeMade m c u t nodeid := by
  constructor
  · intro port hport
    exact (isAbsolute_nodeConfFile c _ _).testF_of_grows hgrows (h.1 port hport)
  · intro stem hstem
    exact ((isAbsolute_nodeconfdir c _).append _).testF_of_grows hgrows (h.2 stem hstem)

theorem configScripts_grows {n : Node} (hn : n.tls = none) {s t : Shell}
    (h : (configScripts m c n).run s = (some (), t)) : Grows s.fs t.fs := by
  obtain ⟨s₁, h₁, s₂, h₂, s₃, h₃, h₄⟩ := (configScripts_eq_some_iff hn).mp h
  exact (grows_of_exec (c := .copyIn _ _ _) trivial h₁).trans
    ((grows_of_exec (c := .pipeline _ _) trivial h₂).trans
      ((grows_of_exec (c := .pipeline _ _) trivial h₃).trans
        (grows_of_exec (c := .pipeline _ _) trivial h₄)))

theorem nodeMade_of_configNode (hstable : StableReads m c) (u : Shell) {pass nodeid : Text}
    {s t : Shell} (h : (configNode m c pass nodeid).run s = (some (), t)) :
    NodeMade m c u t nodeid := by
  obtain ⟨s₁, -, s₂, hconfs, hscripts⟩ := configNode_eq_some_iff.mp h
  have hmade := testF_of_configInstances (nodeAt_tls s₁ nodeid) hconfs
  have hscript := testF_of_configScripts (nodeAt_tls s₁ nodeid) hscripts
  rw [nodeAt_nodeid] at hmade hscript
  rw [nodeAt_ports, hstable.listAt_eq s₁ u] at hmade
  refine ⟨fun port hport => ?_, hscript⟩
  exact (isAbsolute_nodeConfFile c _ _).testF_of_grows
    (configScripts_grows (nodeAt_tls s₁ nodeid) hscripts) (hmade port hport)

/-- A pass of the loop keeps the directories and files from its `mkdir -p` on. -/
theorem configNode_grows_from {pass nodeid : Text} {s t : Shell}
    (h : (configNode m c pass nodeid).run s = (some (), t)) :
    ∃ u, (exec m (.mkdirP [c.nodeconfdir nodeid])).run s = (some (), u) ∧ Grows u.fs t.fs := by
  obtain ⟨s₁, hmk, s₂, hconfs, hscripts⟩ := configNode_eq_some_iff.mp h
  have htls := nodeAt_tls (m := m) (c := c) s₁ nodeid
  generalize nodeAt m c s₁ nodeid = n at hconfs htls hscripts
  have hgrows : Grows s₁.fs s₂.fs := by
    refine forEach_keeps_of_some (I := fun x => Grows s₁.fs x.fs) ?_ (Grows.refl _) hconfs
    exact fun p _ x y hx hxy => hx.trans (configInstance_grows htls hxy)
  exact ⟨s₁, hmk, hgrows.trans (configScripts_grows htls hscripts)⟩

theorem configNode_grows {pass nodeid : Text} {s t : Shell}
    (h : (configNode m c pass nodeid).run s = (some (), t)) : Grows s.fs t.fs := by
  obtain ⟨u, hmk, hgrows⟩ := configNode_grows_from h
  exact (grows_of_exec (c := .mkdirP _) trivial hmk).trans hgrows

theorem configNodes_grow {pass : Text} {ids : List Text} {s t : Shell}
    (h : (forEach ids (configNode m c pass)).run s = (some (), t)) : Grows s.fs t.fs :=
  forEach_keeps_of_some (I := fun u => Grows s.fs u.fs)
    (fun _ _ _ _ hu hrun => hu.trans (configNode_grows hrun)) (Grows.refl _) h

/-- A completed loop over the nodes has made the files of all of them. -/
theorem nodesMade (hstable : StableReads m c) (u : Shell) {pass : Text} {ids : List Text}
    {s t : Shell} (h : (forEach ids (configNode m c pass)).run s = (some (), t)) :
    ∀ nodeid ∈ ids, NodeMade m c u t nodeid :=
  forEach_establishes (I := fun _ => True) (G := fun nodeid x => NodeMade m c u x nodeid)
    (fun _ _ _ _ _ _ => trivial) (fun _ _ _ _ _ hrun => nodeMade_of_configNode hstable u hrun)
    (fun _ _ _ _ _ _ _ hx hrun => hx.of_grows (configNode_grows hrun)) trivial h

/-! ## The copy of the password file -/

theorem isFile_of_testF_inConfig {n : Text} (hname : IsName n) {t : Shell}
    (h : testF t.fs t.cwd (c.inConfig n) = true) : isFile t.fs (c.configEntry n) = true := by
  obtain ⟨p, hp, hfile⟩ := testF_eq_true_iff.mp h
  rwa [resolve_eq_target hp, target_inConfig c hname] at hfile

theorem isName_clusterAuthPass : IsName clusterAuthPass := by decide +kernel

/-- The directories that are made for a node. -/
def Cluster.nodeDirs (c : Cluster) (nodeid : Text) : List Path := mkdirPaths [] [c.nodeconfdir nodeid]

theorem makes_nodeDir (c : Cluster) (nodeid : Text) (cwd : Path) :
    (Cmd.mkdirP [c.nodeconfdir nodeid]).makes cwd = c.nodeDirs nodeid := rfl

theorem mem_nodeDirs_of_configDir {c : Cluster} {p cwd : Path}
    (h : p ∈ (Cmd.mkdirP [c.clusterConfigDir]).makes cwd) (nodeid : Text) : p ∈ c.nodeDirs nodeid := by
  simp only [Cmd.makes, mkdirPaths, List.flatMap_cons, List.flatMap_nil, List.append_nil] at h
  simp only [Cluster.nodeDirs, mkdirPaths, List.flatMap_cons, List.flatMap_nil, List.append_nil]
  exact mem_visited_append h _

/-- A first pass of the loop over the nodes makes `CLUSTER_AUTH_PASS`, if there is no
    directory of that name. -/
theorem testF_authPass_of_configNode {pass nodeid : Text} {s t : Shell}
    (hdir : s.fs (c.configEntry clusterAuthPass) ≠ some .dir)
    (hnode : c.configEntry clusterAuthPass ∉ c.nodeDirs nodeid)
    (h : (configNode m c pass nodeid).run s = (some (), t)) :
    testF t.fs t.cwd (c.inConfig clusterAuthPass) = true := by
  obtain ⟨s₁, hmk, s₂, hconfs, hscripts⟩ := configNode_eq_some_iff.mp h
  have htls := nodeAt_tls (m := m) (c := c) s₁ nodeid
  generalize nodeAt m c s₁ nodeid = n at hconfs htls hscripts
  have h₁ := ne_dir_of_exec (c := .mkdirP _) trivial hnode hdir hmk
  have h₂ : s₂.fs (c.configEntry clusterAuthPass) ≠ some .dir := by
    refine forEach_keeps_of_some (I := fun x => x.fs (c.configEntry clusterAuthPass) ≠ some .dir)
      (fun p _ x y hx hxy => ?_) h₁ hconfs
    obtain ⟨z, hadd, hconf⟩ := (configInstance_eq_some_iff htls).mp hxy
    have hz := ne_dir_of_exec (c := .append _ _) trivial (by simp [Cmd.makes]) hx hadd
    exact ne_dir_of_exec (c := .pipeline _ _) trivial (by simp [Cmd.makes]) hz hconf
  obtain ⟨s₃, hcopy, s₄, h₃, s₅, h₄, h₅⟩ := (configScripts_eq_some_iff htls).mp hscripts
  have hgrows := (grows_of_exec (c := .pipeline _ _) trivial h₃).trans
    ((grows_of_exec (c := .pipeline _ _) trivial h₄).trans
      (grows_of_exec (c := .pipeline _ _) trivial h₅))
  rw [← target_inConfig c isName_clusterAuthPass s₂.cwd] at h₂
  exact (isAbsolute_inConfig c _).testF_of_grows hgrows (testF_of_exec_copyIn h₂ hcopy)

/-- Files of other names do not matter to `CLUSTER_AUTH_PASS`. -/
theorem isFile_authPass_of_exec {cm : Cmd} {n : Text} {s t : Shell}
    (hcm : (∃ x, cm = .write (c.inConfig n) x) ∨ ∃ p, cm = .pipeline p (c.inConfig n))
    (hname : n ≠ clusterAuthPass) (h : (exec m cm).run s = (some (), t)) :
    isFile t.fs (c.configEntry clusterAuthPass) = isFile s.fs (c.configEntry clusterAuthPass) := by
  obtain ⟨-, rfl⟩ := exec_eq_some_iff.mp h
  refine (s.changes_after m cm).isFile_eq fun htouch => ?_
  obtain ⟨d, hd⟩ := name_of_touches (hcm.imp_right Or.inr) htouch
  have hlast : [clusterAuthPass] = [lastName (c.inConfig n)] := List.append_inj_right' hd rfl
  rw [Cluster.inConfig, lastName_snoc] at hlast
  exact hname (List.singleton_inj.mp hlast).symm

/-! ## The result -/

/-- What a completed run of `config()` has passed through. -/
structure ConfigRun (m : Machine) (c : Cluster) (s t : Shell) where
  made : Shell
  emptied : Shell
  noded : Shell
  tailed : Shell
  configDir : (exec m (.mkdirP [c.clusterConfigDir])).run s = (some (), made)
  noNodes : (exec m (.write (c.inConfig clusterAllNodes) [])).run made = (some (), emptied)
  nodes : (forEach (nodesAt m c emptied) (configNode m c (c.redisAuthPass.getD []))).run emptied =
    (some (), noded)
  tail : (configTail m c).run noded = (some (), tailed)
  marker : (exec m (configMarker m c)).run tailed = (some (), t)

theorem configRun_of_some {s t : Shell} (h : (config m c).run s = (some (), t)) :
    Nonempty (ConfigRun m c s t) := by
  obtain ⟨t', hbody, hmarker⟩ := config_eq_some_iff.mp h
  obtain ⟨-, s₁, hmk, -, s₂, hwrite, s₃, hloop, htail⟩ := configBody_eq_some_iff.mp hbody
  exact ⟨⟨s₁, s₂, s₃, t', hmk, hwrite, hloop, htail, hmarker⟩⟩

section Result

variable {s t : Shell}

theorem ConfigRun.grows_tail (r : ConfigRun m c s t) : Grows r.noded.fs t.fs := by
  obtain ⟨u, henv, hcreate⟩ := configTail_eq_some_iff.mp r.tail
  exact (grows_of_exec (c := .pipeline _ _) trivial henv).trans
    ((grows_of_exec (c := .pipeline _ _) trivial hcreate).trans
      (grows_of_exec (c := .write _ _) trivial r.marker))

/-- The fixed files are there, `CLUSTER_AUTH_PASS` aside. -/
theorem ConfigRun.testF_fixed (r : ConfigRun m c s t) {name : Text}
    (hname : name ∈ ["create_cluster.sh".toList, "cluster_env.sh".toList, clusterAllNodes]) :
    testF t.fs t.cwd (c.inConfig name) = true := by
  obtain ⟨u, henv, hcreate⟩ := configTail_eq_some_iff.mp r.tail
  have g₂ := grows_of_exec (c := .write _ _) trivial r.marker
  have g₁ := (grows_of_exec (c := .pipeline _ _) trivial hcreate).trans g₂
  simp only [List.mem_cons, List.not_mem_nil, or_false] at hname
  rcases hname with rfl | rfl | rfl
  · exact (isAbsolute_inConfig c _).testF_of_grows g₂ (testF_of_exec_pipeline hcreate)
  · exact (isAbsolute_inConfig c _).testF_of_grows g₁ (testF_of_exec_pipeline henv)
  · exact (isAbsolute_inConfig c _).testF_of_grows ((configNodes_grow r.nodes).trans r.grows_tail)
      (testF_of_exec_write r.noNodes)

/-- So are the files of the nodes. -/
theorem ConfigRun.nodeMade (r : ConfigRun m c s t) (hstable : StableReads m c) {nodeid : Text}
    (hn : nodeid ∈ nodesAt m c t) : NodeMade m c t t nodeid := by
  rw [hstable.nodesAt_eq t r.emptied] at hn
  exact (nodesMade hstable t r.nodes nodeid hn).of_grows r.grows_tail

/-- `CLUSTER_AUTH_PASS` is there exactly when there is a first node, whose directory is not
    in its place. -/
theorem ConfigRun.testF_authPass_iff (r : ConfigRun m c s t) (hstable : StableReads m c)
    (hempty : s.fs (c.configEntry clusterAuthPass) = none) :
    testF t.fs t.cwd (c.inConfig clusterAuthPass) = true ↔
      ∃ first rest, nodesAt m c s = first :: rest ∧
        c.configEntry clusterAuthPass ∉ c.nodeDirs first := by
  have hnodes := r.nodes
  rw [hstable.nodesAt_eq r.emptied s] at hnodes
  constructor
  · intro hthere
    have hfile := isFile_of_testF_inConfig isName_clusterAuthPass hthere
    cases hids : nodesAt m c s with
    | nil =>
      -- Without nodes no command of `config()` makes the file.
      rw [hids] at hnodes
      obtain ⟨u, henv, hcreate⟩ := configTail_eq_some_iff.mp r.tail
      have hsame : r.emptied = r.noded := (Prod.mk.inj hnodes).2
      have hmade : isFile r.made.fs (c.configEntry clusterAuthPass) = false := by
        obtain ⟨-, hafter⟩ := exec_eq_some_iff.mp r.configDir
        rw [hafter, (s.changes_after m _).isFile_eq (by simp [Cmd.touches]), isFile, hempty]
      rw [isFile_authPass_of_exec (Or.inl ⟨_, rfl⟩) (by decide +kernel) r.marker,
        isFile_authPass_of_exec (Or.inr ⟨_, rfl⟩) (by decide +kernel) hcreate,
        isFile_authPass_of_exec (Or.inr ⟨_, rfl⟩) (by decide +kernel) henv, ← hsame,
        isFile_authPass_of_exec (Or.inl ⟨_, rfl⟩) (by decide +kernel) r.noNodes, hmade] at hfile
      cases hfile
    | cons first rest =>
      refine ⟨first, rest, rfl, fun hdir => ?_⟩
      -- The directory of the first node would be in the file's place.
      rw [hids] at hnodes
      obtain ⟨u, hfirst, hrest⟩ := forEach_cons_eq_some_iff.mp hnodes
      obtain ⟨v, hmk, hgrows⟩ := configNode_grows_from hfirst
      obtain ⟨hok, hafter⟩ := exec_eq_some_iff.mp hmk
      have hisdir : v.fs (c.configEntry clusterAuthPass) = some .dir := by
        rw [hafter, Shell.after_fs_of_ok hok]
        rw [Shell.run_of_outcome hok] at hok
        exact makeDirs_isDir hok hdir
      have hdir' := ((hgrows.trans ((configNodes_grow hrest).trans r.grows_tail)) _).1 hisdir
      rw [← isDir_iff, isDir_of_isFile hfile] at hdir'
      cases hdir'
  · rintro ⟨first, rest, hids, hdir⟩
    rw [hids] at hnodes
    obtain ⟨u, hfirst, hrest⟩ := forEach_cons_eq_some_iff.mp hnodes
    have h₁ := ne_dir_of_exec (c := .mkdirP _) trivial
      (fun h => hdir (mem_nodeDirs_of_configDir h first)) (by rw [hempty]; simp) r.configDir
    have h₂ := ne_dir_of_exec (c := .write _ _) trivial (by simp [Cmd.makes]) h₁ r.noNodes
    exact (isAbsolute_inConfig c _).testF_of_grows ((configNodes_grow hrest).trans r.grows_tail)
      (testF_authPass_of_configNode h₂ hdir hfirst)

theorem EmptyBelow.entry {fs : FS} (h : EmptyBelow fs c.configTarget) (n : Text) :
    fs (c.configEntry n) = none := by
  refine h _ (List.prefix_append _ _) fun he => ?_
  have hlen := congrArg List.length he
  rw [Cluster.configEntry, List.length_append, List.length_singleton] at hlen
  omega

/-- There is no `CLUSTER_TLS_NODES`. -/
theorem config_not_testF_tlsNodes (hempty : EmptyBelow s.fs c.configTarget)
    (hrun : (config m c).run s = (some (), t)) :
    testF t.fs t.cwd (c.inConfig clusterTlsNodes) = false := by
  rw [Bool.eq_false_iff]
  intro htls
  have hfile := isFile_of_testF_inConfig (by decide +kernel) htls
  obtain ⟨f, hf⟩ := isFile_iff.mp hfile
  have hsame := config_dataAt_clusterTlsNodes m c hrun
  rw [dataAt_eq_some_iff.mpr hf, dataAt, hempty.entry] at hsame
  cases hsame

/-- With `CLUSTER_AUTH_PASS` all is there. -/
theorem handedOver_of_authPass (hstable : StableReads m c) (hempty : EmptyBelow s.fs c.configTarget)
    (hrun : (config m c).run s = (some (), t))
    (hauth : testF t.fs t.cwd (c.inConfig clusterAuthPass) = true) : HandedOver m c t := by
  obtain ⟨r⟩ := configRun_of_some hrun
  have htls := config_not_testF_tlsNodes hempty hrun
  refine ⟨fun w hw => ?_, fun h => ?_⟩
  · cases hw with
    | conf hn hp => exact (r.nodeMade hstable hn).1 _ hp
    | script hn hs => exact (r.nodeMade hstable hn).2 _ hs
    | @fixed name hname =>
      by_cases h : name = clusterAuthPass
      · rw [h]
        exact hauth
      · refine r.testF_fixed ?_
        simp only [fixedNames, List.mem_cons, List.not_mem_nil, or_false] at hname ⊢
        rcases hname with hname | hname | hname | hname
        · exact Or.inl hname
        · exact Or.inr (Or.inl hname)
        · exact absurd hname h
        · exact Or.inr (Or.inr hname)
    | tlsScript hn ht =>
      rw [htls] at ht
      cases ht
  · rw [htls] at h
    cases h

end Result

/-- A cluster with one node of one port. -/
def oneNodeCluster : Cluster :=
  let cfg := "[redis_cluster]\nnodes=\"n1\"\n[n1]\nhost=\"hacl-node1\"\nconf=\"c0\"\naddrs=\"a1\"\nports=\"6377\"\n"
  demoCluster demoIni (demoInputs demoIni cfg.toList "t".toList "s".toList "s".toList)

theorem emptyBelow_demoShell (d : Path) : EmptyBelow demoShell.fs d := by
  intro p hp hne
  have hp' : p ≠ [] := by
    rintro rfl
    exact hne (List.prefix_nil.mp hp).symm
  simp [demoShell, hp']

/-- On a plain host it can be computed that the settings have no glob characters. -/
theorem globFreeSettings_plainHost {c : Cluster}
    (hcfg : (records c.nodesCfg).any (fun r => (valueField r).any isGlobChar) = false) :
    GlobFreeSettings plainHost c := by
  refine globFreeSettings_of_cfg (fun r hr ch hch => ?_) (fun _ _ _ h => by cases h) fun _ h => h
  have hany := List.any_eq_false.mp hcfg r hr
  rw [Bool.not_eq_true] at hany
  simpa using List.any_eq_false.mp hany ch hch

/-- A cluster whose list of nodes is empty. -/
def noNodesCluster : Cluster :=
  demoCluster demoIni (demoInputs demoIni "[redis_cluster]\nnodes=\"\"\n".toList "t".toList
    "s".toList "s".toList)

/-- What `build()` and `config()` leave of it. -/
def noNodesBuilt : Shell := ((build plainHost noNodesCluster).run demoShell).2
def noNodesConfigured : Shell := ((config plainHost noNodesCluster).run noNodesBuilt).2

end RedisCluster
