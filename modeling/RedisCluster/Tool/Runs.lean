import RedisCluster.Tool.Steps

/-!
# Completed runs

What a completed run of a phase is made of: the values it has read and the states it
has passed through. `nodesAt`, `nodeAt` are what the nodes file says in a state.

* `StableReads`: the reads do not depend on the tree; `stableReads_of_globFree`.
* `build_eq_some_iff`, `config_eq_some_iff`, `deploy_eq_some_iff`, and the same for
  the parts of `config()` and `deploy()`.
-/

namespace RedisCluster

open FileTree Errexit Script

variable (m : Machine) (c : Cluster)

/-! ## What is read -/

/-- `$(read_cfg "$cluster_nodes_cfg" n k)` in a state. -/
def settingAt (s : Shell) (n k : Text) : Text := commandSubst (readCfg m s.fs s.cwd c.nodesCfg n k)

/-- The list made of that. -/
def listAt (s : Shell) (n k : Text) : List Text := listWords m s.fs s.cwd (settingAt m c s n k)

/-- The node ids that a state reads off the nodes file. -/
def nodesAt (s : Shell) : List Text := listAt m c s "redis_cluster".toList "nodes".toList

/-- What a state reads of a node. -/
def nodeAt (s : Shell) (nodeid : Text) : Node where
  nodeid := nodeid
  conf := settingAt m c s nodeid "conf".toList
  host := settingAt m c s nodeid "host".toList
  addrs := listAt m c s nodeid "addrs".toList
  ports := listAt m c s nodeid "ports".toList
  tls := none

variable {m c}

@[simp] theorem nodeAt_nodeid (s : Shell) (nodeid : Text) : (nodeAt m c s nodeid).nodeid = nodeid := by
  rw [nodeAt]

@[simp] theorem nodeAt_ports (s : Shell) (nodeid : Text) :
    (nodeAt m c s nodeid).ports = listAt m c s nodeid "ports".toList := by
  rw [nodeAt]

@[simp] theorem nodeAt_tls (s : Shell) (nodeid : Text) : (nodeAt m c s nodeid).tls = none := by
  rw [nodeAt]

theorem setting_eq_some_iff {n k v : Text} {s t : Shell} :
    (setting m c n k).run s = (some v, t) ↔ v = settingAt m c s n k ∧ s = t := by
  rw [setting, look_eq_some_iff, eq_comm]
  rfl

theorem listSetting_eq_some_iff {n k : Text} {l : List Text} {s t : Shell} :
    (listSetting m c n k).run s = (some l, t) ↔ l = listAt m c s n k ∧ s = t := by
  rw [listSetting, look_eq_some_iff, eq_comm]
  rfl

theorem readNode_eq_nodeAt {nodeid : Text} {s t : Shell} {n : Node} :
    (readNode m c nodeid).run s = (some n, t) ↔ n = nodeAt m c s nodeid ∧ s = t := by
  rw [readNode_eq_some_iff, and_comm]
  rfl

theorem listed_of_mem_nodesAt {s : Shell} {nodeid : Text} (h : nodeid ∈ nodesAt m c s) :
    Listed m c nodeid := ⟨_, ⟨s.fs, s.cwd, rfl⟩, h⟩

theorem isNode_nodeAt {s : Shell} {nodeid : Text} (h : Listed m c nodeid) :
    IsNode m c (nodeAt m c s nodeid) where
  listed := h
  conf := ⟨s.fs, s.cwd, by dsimp only [nodeAt, settingAt]⟩
  host := ⟨s.fs, s.cwd, by dsimp only [nodeAt, settingAt]⟩
  addrs := ⟨s.fs, s.cwd, by dsimp only [nodeAt, listAt, settingAt]⟩
  ports := ⟨s.fs, s.cwd, by dsimp only [nodeAt, listAt, settingAt]⟩
  tls := by dsimp only [nodeAt]

/-! ## Stable reads -/

/-- What is read of the nodes file does not depend on the tree or the current directory. -/
structure StableReads (m : Machine) (c : Cluster) : Prop where
  setting : ∀ fs cwd fs' cwd' n k,
    readCfg m fs cwd c.nodesCfg n k = readCfg m fs' cwd' c.nodesCfg n k
  list : ∀ fs cwd fs' cwd' n k,
    listWords m fs cwd (commandSubst (readCfg m fs cwd c.nodesCfg n k)) =
      listWords m fs' cwd' (commandSubst (readCfg m fs' cwd' c.nodesCfg n k))

/-- The settings have no glob characters: neither the values `awk` finds, nor what
    `read_cfg` prints of them. -/
def GlobFreeSettings (m : Machine) (c : Cluster) : Prop :=
  ∀ n k, (∀ ch ∈ awkCfg m c.nodesCfg n k, isGlobChar ch = false) ∧
    ∀ fs cwd, ∀ ch ∈ readCfg m fs cwd c.nodesCfg n k, isGlobChar ch = false

/-- A nodes file without glob characters in its values has no settings with them. -/
theorem globFreeSettings_of_cfg {m : Machine} {c : Cluster}
    (hcfg : ∀ r ∈ records c.nodesCfg, ∀ ch ∈ valueField r, isGlobChar ch = false)
    (hawk : ∀ n k, ∀ ch ∈ m.awkOther c.nodesCfg n k, isGlobChar ch = false)
    (hescapes : ∀ t, (∀ ch ∈ t, isGlobChar ch = false) → ∀ ch ∈ m.echoEscapes t, isGlobChar ch = false) :
    GlobFreeSettings m c := by
  intro n k
  have hvalue : ∀ ch ∈ awkCfg m c.nodesCfg n k, isGlobChar ch = false := by
    intro ch hch
    rcases mem_of_mem_awkCfg hch with ⟨r, hr, h⟩ | rfl | h
    · exact hcfg r hr ch h
    · rfl
    · exact hawk n k ch h
  refine ⟨hvalue, fun fs cwd ch hch => ?_⟩
  have hsubst : ∀ ch ∈ commandSubst (awkCfg m c.nodesCfg n k), isGlobChar ch = false :=
    fun ch hch => hvalue ch (mem_of_mem_commandSubst hch)
  rw [readCfg, unquoted_of_not_glob m fs cwd hsubst] at hch
  refine forall_mem_echo (P := fun ch => isGlobChar ch = false) rfl rfl hescapes (fun a ha b hb => ?_)
    ch (List.mem_of_mem_filter hch)
  exact hsubst b (mem_of_mem_words ha b hb)

/-- One setting has none. -/
def GlobFreeSetting (m : Machine) (c : Cluster) (n k : Text) : Prop :=
  (∀ ch ∈ awkCfg m c.nodesCfg n k, isGlobChar ch = false) ∧
    ∀ fs cwd, ∀ ch ∈ readCfg m fs cwd c.nodesCfg n k, isGlobChar ch = false

/-- Such a setting is split into words and put together again. -/
theorem GlobFreeSetting.readCfg_eq {m : Machine} {c : Cluster} {n k : Text}
    (h : GlobFreeSetting m c n k) (fs : FS) (cwd : Path) : readCfg m fs cwd c.nodesCfg n k =
      (echo m (words (commandSubst (awkCfg m c.nodesCfg n k)))).filter (· != '"') := by
  rw [readCfg, unquoted_of_not_glob m fs cwd fun ch hch => h.1 ch (mem_of_mem_commandSubst hch)]

theorem GlobFreeSetting.listWords_eq {m : Machine} {c : Cluster} {n k : Text}
    (h : GlobFreeSetting m c n k) (fs : FS) (cwd : Path) :
    listWords m fs cwd (commandSubst (readCfg m fs cwd c.nodesCfg n k)) =
      words (commandSubst (awkCommas (echo m [commandSubst (readCfg m fs cwd c.nodesCfg n k)]))) := by
  refine unquoted_of_not_glob m fs cwd fun ch hch => ?_
  rcases mem_of_mem_awkCommas (mem_of_mem_commandSubst hch) with hch | rfl
  · rcases mem_of_mem_echo_singleton hch with hch | rfl
    · exact h.2 fs cwd ch (mem_of_mem_commandSubst hch)
    · decide
  · decide

theorem GlobFreeSetting.settingAt_eq {m : Machine} {c : Cluster} {n k : Text}
    (h : GlobFreeSetting m c n k) (s t : Shell) : settingAt m c s n k = settingAt m c t n k := by
  rw [settingAt, settingAt, h.readCfg_eq, h.readCfg_eq]

theorem GlobFreeSetting.listAt_eq {m : Machine} {c : Cluster} {n k : Text}
    (h : GlobFreeSetting m c n k) (s t : Shell) : listAt m c s n k = listAt m c t n k := by
  rw [listAt, listAt, settingAt, settingAt, h.listWords_eq, h.listWords_eq, h.readCfg_eq, h.readCfg_eq]

/-- Without glob characters the reads are stable. -/
theorem stableReads_of_globFree {m : Machine} {c : Cluster} (h : GlobFreeSettings m c) :
    StableReads m c := by
  have hone : ∀ n k, GlobFreeSetting m c n k := h
  constructor
  · intro fs cwd fs' cwd' n k
    rw [(hone n k).readCfg_eq, (hone n k).readCfg_eq]
  · intro fs cwd fs' cwd' n k
    rw [(hone n k).listWords_eq, (hone n k).listWords_eq, (hone n k).readCfg_eq,
      (hone n k).readCfg_eq]

/-- The same on a host whose pathname expansion looks at no directory. -/
theorem stableReads_of_glob {m : Machine}
    (h : ∀ fs cwd fs' cwd' w, m.glob fs cwd w = m.glob fs' cwd' w) (c : Cluster) :
    StableReads m c := by
  have hunquoted : ∀ fs cwd fs' cwd' t, unquoted m fs cwd t = unquoted m fs' cwd' t := by
    intro fs cwd fs' cwd' t
    have hexpand : expand m fs cwd = expand m fs' cwd' := by
      funext w
      simp only [expand, h fs cwd fs' cwd']
    rw [unquoted, unquoted, hexpand]
  have hsetting : ∀ fs cwd fs' cwd' n k,
      readCfg m fs cwd c.nodesCfg n k = readCfg m fs' cwd' c.nodesCfg n k := by
    intro fs cwd fs' cwd' n k
    simp only [readCfg, hunquoted fs cwd fs' cwd']
  exact ⟨hsetting, fun fs cwd fs' cwd' n k => by
    rw [hsetting fs cwd fs' cwd', listWords, listWords, hunquoted fs cwd fs' cwd']⟩

theorem stableReads_plainHost (c : Cluster) : StableReads plainHost c :=
  stableReads_of_glob (fun _ _ _ _ _ => rfl) c

theorem StableReads.settingAt_eq (h : StableReads m c) (s t : Shell) (n k : Text) :
    settingAt m c s n k = settingAt m c t n k := congrArg commandSubst (h.setting _ _ _ _ n k)

theorem StableReads.listAt_eq (h : StableReads m c) (s t : Shell) (n k : Text) :
    listAt m c s n k = listAt m c t n k := h.list _ _ _ _ n k

theorem StableReads.nodesAt_eq (h : StableReads m c) (s t : Shell) : nodesAt m c s = nodesAt m c t :=
  h.listAt_eq s t _ _

theorem StableReads.eq_listAt (h : StableReads m c) (s : Shell) {n k : Text} {l : List Text}
    (hl : IsList m c n k l) : l = listAt m c s n k := by
  obtain ⟨fs, cwd, hl⟩ := hl
  rw [hl, listAt, settingAt, h.list fs cwd s.fs s.cwd]

theorem StableReads.mem_nodesAt (h : StableReads m c) (s : Shell) {nodeid : Text}
    (hn : Listed m c nodeid) : nodeid ∈ nodesAt m c s := by
  obtain ⟨l, hl, hmem⟩ := hn
  rwa [h.eq_listAt s hl] at hmem

theorem StableReads.nodeAt_eq (h : StableReads m c) (s t : Shell) (nodeid : Text) :
    nodeAt m c s nodeid = nodeAt m c t nodeid := by
  simp only [nodeAt, h.settingAt_eq s t, h.listAt_eq s t]

/-! ## `build` -/

theorem buildBody_eq_some_iff {s t : Shell} :
    (buildBody m c).run s = (some (), t) ↔
      testF s.fs s.cwd (c.inBuild buildSuccess) = false ∧
      ∃ s₁, (exec m (.mkdirP [c.clusterBuildDir])).run s = (some (), s₁) ∧
        c.inputs.pkgFile c.ini.redisPkg = true ∧ c.inputs.pkgFile c.ini.hiredisPkg = true ∧
        testD s₁.fs s₁.cwd c.redisBuildDir = false ∧
        testD s₁.fs s₁.cwd c.hiredisBuildDir = false ∧
      ∃ s₂, (exec m (.tar c.ini.redisPkg c.clusterBuildDir)).run s₁ = (some (), s₂) ∧
      ∃ s₃, (exec m (.tar c.ini.hiredisPkg c.clusterBuildDir)).run s₂ = (some (), s₃) ∧
      ∃ s₄, (cdMake m c.redisBuildDir (redisMakeArgs m c.ini) none).run s₃ = (some (), s₄) ∧
        (cdMake m c.hiredisBuildDir hiredisMakeArgs none).run s₄ = (some (), t) := by
  simp only [buildBody, isFileAt, isDirAt, look_bind_run, refuseIf_seq_eq_some_iff,
    exec_seq_eq_some_iff, cdMake_seq_eq_some_iff, Bool.not_eq_false']

/-- Each phase is its body and its marker. -/
theorem build_eq_some_iff {s u : Shell} : (build m c).run s = (some (), u) ↔
    ∃ t, (buildBody m c).run s = (some (), t) ∧ (exec m (buildMarker m c)).run t = (some (), u) :=
  seq_eq_some_iff

theorem config_eq_some_iff {s u : Shell} : (config m c).run s = (some (), u) ↔
    ∃ t, (configBody m c).run s = (some (), t) ∧ (exec m (configMarker m c)).run t = (some (), u) :=
  seq_eq_some_iff

theorem deploy_eq_some_iff {s u : Shell} : (deploy m c).run s = (some (), u) ↔
    ∃ t, (deployBody m c).run s = (some (), t) ∧ (exec m (deployMarker c)).run t = (some (), u) :=
  seq_eq_some_iff

/-! ## `config` -/

theorem configBody_eq_some_iff {s t : Shell} :
    (configBody m c).run s = (some (), t) ↔
      testF s.fs s.cwd (c.inConfig configSuccess) = false ∧
      ∃ s₁, (exec m (.mkdirP [c.clusterConfigDir])).run s = (some (), s₁) ∧
        c.redisAuthPass.isSome = true ∧
      ∃ s₂, (exec m (.write (c.inConfig clusterAllNodes) [])).run s₁ = (some (), s₂) ∧
      ∃ s₃, (forEach (nodesAt m c s₂) (configNode m c (c.redisAuthPass.getD []))).run s₂ =
          (some (), s₃) ∧
        (configTail m c).run s₃ = (some (), t) := by
  simp only [configBody, isFileAt, nodesList, listSetting, look_bind_run, refuseIf_seq_eq_some_iff,
    require_seq_eq_some_iff, exec_seq_eq_some_iff, forEach_seq_eq_some_iff, nodesAt, listAt,
    settingAt]

theorem configNode_eq_some_iff {pass nodeid : Text} {s t : Shell} :
    (configNode m c pass nodeid).run s = (some (), t) ↔
      ∃ s₁, (exec m (.mkdirP [c.nodeconfdir nodeid])).run s = (some (), s₁) ∧
      ∃ s₂, (forEach (nodeAt m c s₁ nodeid).ports.zipIdx
          (configInstance m c pass (nodeAt m c s₁ nodeid))).run s₁ = (some (), s₂) ∧
        (configScripts m c (nodeAt m c s₁ nodeid)).run s₂ = (some (), t) := by
  simp only [configNode, seq_eq_some_iff]
  refine exists_congr fun s₁ => and_congr_right fun _ => ?_
  rw [bind_run_of_some (readNode_eq_nodeAt.mpr ⟨rfl, rfl⟩), seq_eq_some_iff]

theorem configInstance_eq_some_iff {pass : Text} {n : Node} (hn : n.tls = none) {p : Text × ℕ}
    {s t : Shell} : (configInstance m c pass n p).run s = (some (), t) ↔
      ∃ s₁, (exec m (.append (c.inConfig clusterAllNodes) (echo m [n.host ++ ':' :: p.1]))).run s =
          (some (), s₁) ∧
        (exec m (.pipeline (confPipeline c n.conf (n.instance pass p.1) none)
          (c.nodeConfFile n.nodeid p.1))).run s₁ = (some (), t) := by
  simp only [configInstance, hn, seq_eq_some_iff]

theorem configScripts_eq_some_iff {n : Node} (hn : n.tls = none) {s t : Shell} :
    (configScripts m c n).run s = (some (), t) ↔
      ∃ s₁, (exec m (.copyIn (c.inputs.confFile c.ini.redisAuthpassFile)
          (baseName (pathWord c.ini.redisAuthpassFile)) (c.inConfig clusterAuthPass))).run s =
          (some (), s₁) ∧
      ∃ s₂, (exec m (.pipeline (nodeScript c .startScript "start_redis.sh.0" n)
          (c.nodeconfdir n.nodeid ++ ["start_redis.sh".toList]))).run s₁ = (some (), s₂) ∧
      ∃ s₃, (exec m (.pipeline (nodeScript c .shutdownScript "shutdown_redis.sh.0" n)
          (c.nodeconfdir n.nodeid ++ ["shutdown_redis.sh".toList]))).run s₂ = (some (), s₃) ∧
        (exec m (.pipeline (connectScript c n)
          (c.nodeconfdir n.nodeid ++ ["connect_redis.sh".toList]))).run s₃ = (some (), t) := by
  simp only [configScripts, hn, seq_eq_some_iff, pure_run, Prod.mk.injEq, true_and,
    exists_eq_right]

theorem configTail_eq_some_iff {s t : Shell} :
    (configTail m c).run s = (some (), t) ↔
      ∃ s₁, (exec m (.pipeline (clusterEnv c) (c.inConfig "cluster_env.sh".toList))).run s =
          (some (), s₁) ∧
        (exec m (.pipeline (createCluster c) (c.inConfig "create_cluster.sh".toList))).run s₁ =
          (some (), t) := by
  simp only [configTail, seq_eq_some_iff]

/-! ## `deploy` -/

theorem deployBody_eq_some_iff {s t : Shell} :
    (deployBody m c).run s = (some (), t) ↔
      testF s.fs s.cwd (c.inBuild buildSuccess) = true ∧
      testF s.fs s.cwd (c.inConfig configSuccess) = true ∧
      testF s.fs s.cwd (c.inHome clusterAllNodes) = false ∧
      ∃ s₁, (exec m (.mkdirP (homeSubdirs c))).run s = (some (), s₁) ∧
      ∃ s₂, (forEach (nodesAt m c s₁) (deployNode m c)).run s₁ = (some (), s₂) ∧
      ∃ s₃, (deployInstall m c).run s₂ = (some (), s₃) ∧
        (deployTail m c).run s₃ = (some (), t) := by
  simp only [deployBody, isFileAt, nodesList, listSetting, look_bind_run, refuseIf_seq_eq_some_iff,
    exec_seq_eq_some_iff, forEach_seq_eq_some_iff, Bool.not_eq_false', nodesAt, listAt, settingAt]
  simp only [seq_eq_some_iff]

/-- The state reads that a node is on this machine. -/
def isLocalAt (m : Machine) (c : Cluster) (s : Shell) (nodeid : Text) : Bool :=
  isCurrent m (settingAt m c s nodeid "host".toList) (listAt m c s nodeid "addrs".toList)

theorem deployNode_eq_some_iff {nodeid : Text} {s t : Shell} :
    (deployNode m c nodeid).run s = (some (), t) ↔
      (isLocalAt m c s nodeid = true ∧ (deployFiles m c nodeid).run s = (some (), t)) ∨
        (isLocalAt m c s nodeid = false ∧ s = t) := by
  simp only [deployNode, listSetting, setting, look_bind_run, whenever_eq_some_iff, isLocalAt,
    listAt, settingAt]

theorem deployInstall_eq_some_iff {s t : Shell} :
    (deployInstall m c).run s = (some (), t) ↔
      ∃ s₁, (cdMake m c.redisBuildDir (redisInstallArgs c) (some c.clusterHomeDir)).run s =
          (some (), s₁) ∧
        (cdMake m c.hiredisBuildDir (hiredisInstallArgs c) (some c.clusterHomeDir)).run s₁ =
          (some (), t) := by
  simp only [deployInstall, seq_eq_some_iff]

theorem deployFiles_eq_some_iff {nodeid : Text} {s t : Shell} :
    (deployFiles m c nodeid).run s = (some (), t) ↔
      ∃ s₁, (forEach (listAt m c s nodeid "ports".toList) fun port =>
          exec m (.cp (c.nodeConfFile nodeid port) (c.clusterHomeDir ++ ["conf".toList, []]))).run s =
          (some (), s₁) ∧
      ∃ s₂, (exec m (.cp (c.inConfig "create_cluster.sh".toList) c.homeSlash)).run s₁ =
          (some (), s₂) ∧
      ∃ s₃, (copyScript m c "start_redis" nodeid).run s₂ = (some (), s₃) ∧
      ∃ s₄, (copyScript m c "shutdown_redis" nodeid).run s₃ = (some (), s₄) ∧
      ∃ s₅, (copyScript m c "connect_redis" nodeid).run s₄ = (some (), s₅) ∧
      ∃ s₆, (exec m (.chmodX (c.inHome "create_cluster.sh".toList))).run s₅ = (some (), s₆) ∧
      ∃ s₇, (chmodScript m c "start_redis" nodeid).run s₆ = (some (), s₇) ∧
      ∃ s₈, (chmodScript m c "shutdown_redis" nodeid).run s₇ = (some (), s₈) ∧
      ∃ s₉, (chmodScript m c "connect_redis" nodeid).run s₈ = (some (), s₉) ∧
        ((testF s₉.fs s₉.cwd (c.inConfig clusterTlsNodes) = true ∧
          ∃ s₁₀, (copyScript m c "tlsconnect_redis" nodeid).run s₉ = (some (), s₁₀) ∧
            (chmodScript m c "tlsconnect_redis" nodeid).run s₁₀ = (some (), t)) ∨
          (testF s₉.fs s₉.cwd (c.inConfig clusterTlsNodes) = false ∧ s₉ = t)) := by
  simp only [deployFiles, copyScript, chmodScript, listSetting, isFileAt, look_bind_run,
    forEach_seq_eq_some_iff, exec_seq_eq_some_iff, whenever_eq_some_iff, listAt, settingAt]

theorem deployTail_eq_some_iff {s t : Shell} :
    (deployTail m c).run s = (some (), t) ↔
      ∃ s₁, ((testF s.fs s.cwd (c.inConfig clusterTlsNodes) = true ∧
          ∃ s₀, (exec m (.cpR (c.clusterConfigDir ++ pathWord c.ini.tlsCacertdir)
              c.tlsCacertDir)).run s = (some (), s₀) ∧
            (exec m (.cp (c.inConfig clusterTlsNodes) c.homeSlash)).run s₀ = (some (), s₁)) ∨
          (testF s.fs s.cwd (c.inConfig clusterTlsNodes) = false ∧ s = s₁)) ∧
      ∃ s₂, (exec m (.cp (c.inConfig "cluster_env.sh".toList) c.homeSlash)).run s₁ =
          (some (), s₂) ∧
        (exec m (.cp (c.inConfig clusterAuthPass) c.homeSlash)).run s₂ = (some (), t) := by
  simp only [deployTail, isFileAt, look_bind_run, seq_eq_some_iff, whenever_eq_some_iff]

end RedisCluster
