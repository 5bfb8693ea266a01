import RedisCluster.Library.StepList
import RedisCluster.Properties.Handover
import RedisCluster.Properties.Protection
import RedisCluster.Tool.TwoTrees

/-!
# The steps of `deploy()`

Behind its tests `deploy()` is a list of steps, which the nodes file, the addresses of the
machine and the presence of `CLUSTER_TLS_NODES` determine.

* `deployActs`: the list; `mem_deployActs`: its steps are those of `deploy()`.
* `deploy_run_eq`: the runs of `deploy()` that pass the tests are those of the list.
* `SameAround.resolve_eq`: what is around a directory determines where the words for it lead.
-/

namespace RedisCluster

open FileTree Errexit Script

/-! ## The list -/

section List

variable (c : Cluster)

/-- `cp "$node_conf_file" "$cluster_home_dir/conf/"` -/
def confAct (nodeid port : Text) : Act :=
  .cmd (.cp (c.nodeConfFile nodeid port) (c.clusterHomeDir ++ ["conf".toList, []]))

/-- `cp "$nodeconfdir/stem.sh" "$cluster_home_dir/stem-$nodeid.sh"`, and its `chmod +x` -/
def copyAct (nodeid : Text) (stem : String) : Act :=
  .cmd (.cp (c.nodeconfdir nodeid ++ [(stem ++ ".sh").toList])
    (c.clusterHomeDir ++ pathWord (scriptName stem nodeid)))
def chmodAct (nodeid : Text) (stem : String) : Act :=
  .cmd (.chmodX (c.clusterHomeDir ++ pathWord (scriptName stem nodeid)))

/-- `cp "$cluster_config_dir/name" "$cluster_home_dir/"` -/
def homeAct (name : Text) : Act := .cmd (.cp (c.inConfig name) c.homeSlash)

/-- Lines 519–542, with and without `CLUSTER_TLS_NODES`. -/
def fileActs (tls : Bool) (nodeid : Text) (ports : List Text) : List Act :=
  ports.map (confAct c nodeid) ++
    homeAct c "create_cluster.sh".toList :: (plainStems.map (copyAct c nodeid) ++
      .cmd (.chmodX (c.inHome "create_cluster.sh".toList)) :: (plainStems.map (chmodAct c nodeid) ++
        if tls then [copyAct c nodeid "tlsconnect_redis", chmodAct c nodeid "tlsconnect_redis"]
        else []))

/-- Lines 546–547. -/
def installActs : List Act :=
  [.list c.redisBuildDir (redisInstallArgs c) (some c.clusterHomeDir),
    .list c.hiredisBuildDir (hiredisInstallArgs c) (some c.clusterHomeDir)]

/-- Lines 549–556. -/
def tailActs (tls : Bool) : List Act :=
  (if tls then [.cmd (.cpR (c.clusterConfigDir ++ pathWord c.ini.tlsCacertdir) c.tlsCacertDir),
    homeAct c clusterTlsNodes] else []) ++
    [homeAct c "cluster_env.sh".toList, homeAct c clusterAuthPass]

end List

/-- `[[ -f "$cluster_config_dir/CLUSTER_TLS_NODES" ]]` -/
def tlsAt (c : Cluster) (s : Shell) : Bool := testF s.fs s.cwd (c.inConfig clusterTlsNodes)

section Steps

variable (m : Machine) (c : Cluster)

/-- The nodes of this machine. -/
def localNodes (s : Shell) : List Text := (nodesAt m c s).filter (isLocalAt m c s)

/-- Lines 474–543. -/
def nodesActs (s : Shell) : List Act :=
  (localNodes m c s).flatMap fun nodeid =>
    fileActs c (tlsAt c s) nodeid (listAt m c s nodeid "ports".toList)

/-- All steps of `deploy()`, as the state in front of them determines them. -/
def deployActs (s : Shell) : List Act :=
  .cmd (.mkdirP (homeSubdirs c)) ::
    (nodesActs m c s ++ (installActs c ++ (tailActs c (tlsAt c s) ++ [.cmd (deployMarker c)])))

variable {m c}

theorem mem_fileActs {tls : Bool} {nodeid : Text} {ports : List Text} (hid : Listed m c nodeid)
    (hports : IsList m c nodeid "ports".toList ports) {a : Act}
    (ha : a ∈ fileActs c tls nodeid ports) : DeployAct m c a := by
  have hcopy : ∀ stem ∈ scriptStems, DeployAct m c (copyAct c nodeid stem) :=
    fun _ hstem => .copyScript hid hstem
  have hchmod : ∀ stem ∈ scriptStems, DeployAct m c (chmodAct c nodeid stem) :=
    fun _ hstem => .chmodScript hid hstem
  have hsub : ∀ stem ∈ plainStems, stem ∈ scriptStems := by decide
  rcases List.mem_append.mp ha with ha | ha
  · obtain ⟨port, hport, rfl⟩ := List.mem_map.mp ha
    exact .conf hid hports hport
  rcases List.mem_cons.mp ha with rfl | ha
  · exact .copyHome (by simp)
  rcases List.mem_append.mp ha with ha | ha
  · obtain ⟨stem, hstem, rfl⟩ := List.mem_map.mp ha
    exact hcopy stem (hsub stem hstem)
  rcases List.mem_cons.mp ha with rfl | ha
  · exact .chmodCreate
  rcases List.mem_append.mp ha with ha | ha
  · obtain ⟨stem, hstem, rfl⟩ := List.mem_map.mp ha
    exact hchmod stem (hsub stem hstem)
  · cases tls
    · simp at ha
    · simp only [if_true, List.mem_cons, List.not_mem_nil, or_false] at ha
      rcases ha with rfl | rfl
      · exact hcopy _ (by decide)
      · exact hchmod _ (by decide)

theorem isList_listAt (s : Shell) (n k : Text) : IsList m c n k (listAt m c s n k) :=
  ⟨s.fs, s.cwd, rfl⟩

theorem mem_nodesActs {s : Shell} {a : Act} (ha : a ∈ nodesActs m c s) : DeployAct m c a := by
  obtain ⟨nodeid, hid, ha⟩ := List.mem_flatMap.mp ha
  have hlisted := listed_of_mem_nodesAt (List.mem_filter.mp hid).1
  exact mem_fileActs hlisted (isList_listAt s _ _) ha

theorem mem_installActs {a : Act} (ha : a ∈ installActs c) : DeployAct m c a := by
  simp only [installActs, List.mem_cons, List.not_mem_nil, or_false] at ha
  rcases ha with rfl | rfl
  · exact .redisInstall
  · exact .hiredisInstall

theorem mem_tailActs {tls : Bool} {a : Act} (ha : a ∈ tailActs c tls) : DeployAct m c a := by
  rcases List.mem_append.mp ha with ha | ha
  · cases tls
    · simp at ha
    · simp only [if_true, List.mem_cons, List.not_mem_nil, or_false] at ha
      rcases ha with rfl | rfl
      · exact .certs
      · exact .copyHome (by simp)
  · simp only [List.mem_cons, List.not_mem_nil, or_false] at ha
    rcases ha with rfl | rfl <;> exact .copyHome (by simp)

/-- The steps of the list are steps of `deploy()`. -/
theorem mem_deployActs {s : Shell} {a : Act} (ha : a ∈ deployActs m c s) :
    WithMarker (DeployAct m c) (deployMarker c) a := by
  rcases List.mem_cons.mp ha with rfl | ha
  · exact Or.inl .homeDirs
  rcases List.mem_append.mp ha with ha | ha
  · exact Or.inl (mem_nodesActs ha)
  rcases List.mem_append.mp ha with ha | ha
  · exact Or.inl (mem_installActs ha)
  rcases List.mem_append.mp ha with ha | ha
  · exact Or.inl (mem_tailActs ha)
  · exact Or.inr (List.mem_singleton.mp ha)

end Steps

/-! ## The runs -/

section Runs

variable {m : Machine} {c : Cluster} {I : Shell → Prop} {s₀ : Shell}
  (hstable : StableReads m c) (htls : ∀ s, I s → tlsAt c s = tlsAt c s₀)
  (hkeeps : ∀ a, DeployAct m c a → Keeps I (a.run m))

include hstable htls hkeeps

theorem sameFrom_deployFiles {nodeid : Text} (hid : Listed m c nodeid) :
    SameFrom I (deployFiles m c nodeid) (forEach (fileActs c (tlsAt c s₀) nodeid
      (listAt m c s₀ nodeid "ports".toList)) (Act.run m)) := by
  have hacts : ∀ a ∈ fileActs c (tlsAt c s₀) nodeid (listAt m c s₀ nodeid "ports".toList),
      Keeps I (a.run m) := fun a ha => hkeeps a (mem_fileActs hid (isList_listAt s₀ _ _) ha)
  generalize hports : listAt m c s₀ nodeid "ports".toList = ports at hacts ⊢
  unfold fileActs at hacts ⊢
  simp only [plainStems, List.map_cons, List.map_nil, List.cons_append, List.nil_append,
    List.forall_mem_append, List.forall_mem_cons] at hacts ⊢
  obtain ⟨hconfs, hcreate, hstart, hshutdown, hconnect, hchmod, hstart', hshutdown', hconnect',
    hlast⟩ := hacts
  unfold deployFiles listSetting
  refine sameFrom_look ports (fun s _ => hports ▸ hstable.listAt_eq s s₀ _ _) ?_
  refine sameFrom_append ?_ hconfs ?_
  · rw [forEach_map]
    exact sameFrom_refl _
  refine sameFrom_cons (sameFrom_refl _) hcreate ?_
  refine sameFrom_cons (sameFrom_refl _) hstart ?_
  refine sameFrom_cons (sameFrom_refl _) hshutdown ?_
  refine sameFrom_cons (sameFrom_refl _) hconnect ?_
  refine sameFrom_cons (sameFrom_refl _) hchmod ?_
  refine sameFrom_cons (sameFrom_refl _) hstart' ?_
  refine sameFrom_cons (sameFrom_refl _) hshutdown' ?_
  refine sameFrom_cons (sameFrom_refl _) hconnect' ?_
  refine sameFrom_look (tlsAt c s₀) htls ?_
  cases tlsAt c s₀
  · exact sameFrom_refl _
  · rw [whenever, if_pos rfl, if_pos rfl, forEach_cons, forEach_singleton]
    exact sameFrom_refl _

theorem sameFrom_deployNodes : SameFrom I (forEach (nodesAt m c s₀) (deployNode m c))
    (forEach (nodesActs m c s₀) (Act.run m)) := by
  have hacts : ∀ nodeid ∈ nodesAt m c s₀, ∀ a ∈ fileActs c (tlsAt c s₀) nodeid
      (listAt m c s₀ nodeid "ports".toList), Keeps I (a.run m) := fun nodeid hid a ha =>
    hkeeps a (mem_fileActs (listed_of_mem_nodesAt hid) (isList_listAt s₀ _ _) ha)
  rw [nodesActs, forEach_flatten, localNodes, forEach_filter]
  refine sameFrom_forEach (fun nodeid hid => ?_) fun nodeid hid => ?_
  · unfold deployNode listSetting setting
    refine sameFrom_look (listAt m c s₀ nodeid "addrs".toList)
      (fun s _ => hstable.listAt_eq s s₀ _ _) ?_
    refine sameFrom_look (settingAt m c s₀ nodeid "host".toList)
      (fun s _ => hstable.settingAt_eq s s₀ _ _) ?_
    rw [isLocalAt]
    exact sameFrom_whenever (sameFrom_deployFiles hstable htls hkeeps (listed_of_mem_nodesAt hid))
  · exact keeps_whenever fun _ => keeps_forEach (hacts nodeid hid)

omit hstable in
theorem sameFrom_deployTail : SameFrom I (deployTail m c)
    (forEach (tailActs c (tlsAt c s₀)) (Act.run m)) := by
  have hacts : ∀ a ∈ tailActs c (tlsAt c s₀), Keeps I (a.run m) :=
    fun a ha => hkeeps a (mem_tailActs ha)
  unfold deployTail tailActs at *
  refine sameFrom_look (tlsAt c s₀) htls ?_
  rw [List.forall_mem_append] at hacts
  refine sameFrom_append ?_ hacts.1 ?_
  · cases tlsAt c s₀
    · exact sameFrom_refl _
    · rw [whenever, if_pos rfl, if_pos rfl, forEach_cons, forEach_singleton]
      exact sameFrom_refl _
  · rw [forEach_cons, forEach_singleton]
    exact sameFrom_refl _

/-- Behind its tests `deploy()` does what the list does. -/
theorem sameFrom_deployRest : SameFrom I (exec m (.mkdirP (homeSubdirs c)) >>= fun _ =>
    nodesList m c >>= fun nodeslist => forEach nodeslist (deployNode m c) >>= fun _ =>
    deployInstall m c >>= fun _ => deployTail m c >>= fun _ => exec m (deployMarker c))
    (forEach (deployActs m c s₀) (Act.run m)) := by
  unfold deployActs
  refine sameFrom_cons (sameFrom_refl _) (hkeeps _ .homeDirs) ?_
  refine sameFrom_look (nodesAt m c s₀) (fun s _ => hstable.nodesAt_eq s s₀) ?_
  refine sameFrom_append (sameFrom_deployNodes hstable htls hkeeps)
    (fun a ha => hkeeps a (mem_nodesActs ha)) ?_
  refine sameFrom_append ?_ (fun a ha => hkeeps a (mem_installActs ha)) ?_
  · rw [installActs, forEach_cons, forEach_singleton]
    exact sameFrom_refl _
  refine sameFrom_append (sameFrom_deployTail htls hkeeps)
    (fun a ha => hkeeps a (mem_tailActs ha)) ?_
  rw [forEach_singleton]
  exact sameFrom_refl _

end Runs

/-- What `deploy()` tests in front of its first step. -/
structure DeployPasses (c : Cluster) (s : Shell) : Prop where
  built : testF s.fs s.cwd (c.inBuild buildSuccess) = true
  configured : testF s.fs s.cwd (c.inConfig configSuccess) = true
  fresh : testF s.fs s.cwd (c.inHome clusterAllNodes) = false

theorem deployPasses_of_some {m : Machine} {c : Cluster} {s t : Shell}
    (h : (deploy m c).run s = (some (), t)) : DeployPasses c s := by
  obtain ⟨u, hbody, -⟩ := deploy_eq_some_iff.mp h
  obtain ⟨hbuilt, hconfigured, hfresh, -⟩ := deployBody_eq_some_iff.mp hbody
  exact ⟨hbuilt, hconfigured, hfresh⟩

/-- **The list of the steps**: a run of `deploy()` that passes its tests is one of the list. -/
theorem deploy_run_eq_of_keeps {m : Machine} {c : Cluster} {I : Shell → Prop} {s : Shell}
    (hstable : StableReads m c) (htls : ∀ t, I t → tlsAt c t = tlsAt c s)
    (hkeeps : ∀ a, DeployAct m c a → Keeps I (a.run m)) (hs : I s) (h : DeployPasses c s) :
    (deploy m c).run s = (forEach (deployActs m c s) (Act.run m)).run s := by
  rw [← sameFrom_deployRest hstable htls hkeeps s hs]
  unfold deploy deployBody isFileAt
  simp only [bind_bind]
  rw [look_bind_run, h.built, Bool.not_true, refuseIf_false_seq, look_bind_run, h.configured,
    Bool.not_true, refuseIf_false_seq, look_bind_run, h.fresh, refuseIf_false_seq]

/-! ## Around a directory -/

section Around

variable {d : Path} {fs fs' : FS} {cwd p : Path} {w v : PathWord}

/-- What a word for something in a directory passes is on the way to it, or in it. -/
theorem Into.visited_cases (h : Into d w v) (hp : p ∈ visited (startOf cwd w).1 (startOf cwd w).2) :
    d <+: p ∨ p <+: d := by
  obtain ⟨ns, rfl, rfl, hdots⟩ := h.word
  exact (prefix_or_prefix_of_mem_visited hdots h.noDots hp).symm

/-- Where all around a directory is the same, the words for it lead to the same. -/
theorem SameAround.resolve_eq (h : SameAround d fs fs') (hw : Into d w v) :
    resolve fs' cwd w = resolve fs cwd w := by
  rw [resolve, resolve, walk_congr fun p hp => isDir_congr (h p (hw.visited_cases hp))]

theorem SameAround.testF_eq (h : SameAround d fs fs') (hw : Into d w v) :
    testF fs' cwd w = testF fs cwd w :=
  testF_congr fun p hp => h p (hw.visited_cases hp)

/-- The directories on the way to what such a word leads to. -/
theorem Into.dirs_of_resolve (h : Into d w v) (hne : v ≠ []) (hp : resolve fs cwd w = some p) :
    ∀ q, q <+: d → fs q = some .dir := by
  intro q hq
  obtain ⟨ns, rfl, rfl, hdots⟩ := h.word
  obtain ⟨n, v, rfl⟩ := List.exists_cons_of_ne_nil hne
  rw [resolve, if_neg (by simp)] at hp
  have hdirs := (walk_eq_some_iff.mp hp).2
  simp only [startOf, visited_append, visited] at hdirs
  rw [List.dropLast_append_of_ne_nil (List.cons_ne_nil _ _),
    List.dropLast_cons_of_ne_nil (visited_ne_nil _ _)] at hdirs
  have hmem := mem_visited_of_between hdots List.nil_prefix hq
  rw [← List.dropLast_append_getLast (visited_ne_nil [] ns)] at hmem
  refine isDir_iff.mp (hdirs q ?_)
  rcases List.mem_append.mp hmem with hmem | hmem
  · exact List.mem_append.mpr (Or.inl hmem)
  · rw [List.mem_singleton.mp hmem, getLast_visited]
    exact List.mem_append.mpr (Or.inr (List.mem_cons_self ..))

end Around

/-! ## The configured tree -/

section Configured

variable {m : Machine} {c : Cluster} {s t : Shell}

/-- The directories that lead to the config directory are there once it is configured. -/
theorem PlainPaths.config_dirs (h : PlainPaths m c)
    (hs : testF s.fs s.cwd (c.inConfig configSuccess) = true) :
    ∀ p, p <+: c.configTarget → s.fs p = some .dir := by
  obtain ⟨p, hp, -⟩ := testF_eq_true_iff.mp hs
  exact (h.into_config (by decide +kernel)).dirs_of_resolve (by simp) hp

theorem PlainPaths.separate_build (h : PlainPaths m c) : Separate c.buildTarget c.configTarget := by
  have hne : ∀ {k k' : Text}, k ≠ k' → ¬ c.tool ++ [k, c.clusterid] <+: c.tool ++ [k', c.clusterid] := by
    intro k k' hk hle
    have heq := List.append_cancel_left (hle.eq_of_length (by simp))
    exact hk (List.cons.inj heq).1
  rw [h.buildTarget_eq, configTarget_eq h.canonical]
  exact ⟨hne (by decide), hne (by decide)⟩

/-- The steps of `deploy()` keep what is around the config directory. -/
theorem DeployAct.keeps_config (h : PlainPaths m c) (hsep : Separate c.homeTarget c.configTarget)
    (hs : testF s.fs s.cwd (c.inConfig configSuccess) = true) {a : Act}
    (ha : WithMarker (DeployAct m c) (deployMarker c) a) :
    Keeps (fun t => SameAround c.configTarget s.fs t.fs) (a.run m) := by
  refine a.keeps_in fun t cm hcm ht => ht.trans ?_
  refine (DeployAct.staysBelow h ha hcm).changes_after.sameAround ?_ fun p hp => ?_
  · simp [h.separate_build, hsep]
  · rw [ht p (Or.inr hp)]
    exact h.config_dirs hs p hp

/-- **The runs of `deploy()`** that pass its tests are those of the list of its steps. -/
theorem deploy_run_eq (hstable : StableReads m c) (hplain : PlainPaths m c)
    (hsep : Separate c.homeTarget c.configTarget) (h : DeployPasses c s) :
    (deploy m c).run s = (forEach (deployActs m c s) (Act.run m)).run s := by
  have habsolute : IsAbsolute (c.inConfig clusterTlsNodes) := isAbsolute_inConfig c _
  refine deploy_run_eq_of_keeps (I := fun t => SameAround c.configTarget s.fs t.fs) hstable
    (fun t ht => ?_) (fun a ha => DeployAct.keeps_config hplain hsep h.configured (Or.inl ha))
    (fun _ _ => rfl) h
  rw [tlsAt, tlsAt, habsolute.testF_eq (d := s.cwd)]
  exact ht.testF_eq (hplain.into_config (by decide +kernel))

end Configured

end RedisCluster
