import RedisCluster.Deployment.Configured
import RedisCluster.Deployment.Rendered
import RedisCluster.Properties.Password
import RedisCluster.Sbin.Operate

/-!
# The scripts and the confs of a machine

After `config()` and `deploy()` the scripts of the local nodes and the confs of their instances
name the same files.

* `valuesIn_filled`: the value of a directive in a conf made from the shipped template.
* `Operates`: what the scripts of a node do, and what its confs say.
* `operates_of_deploy`: both, for every node of the machine.
-/

namespace RedisCluster

open FileTree Errexit Script Substitution

/-! ## Directives -/

theorem sharedDirectives_key :
    ∀ d ∈ sharedDirectives, d.key ≠ [] ∧ d.key.head? ≠ some '#' ∧ '{' ∉ d.key := by decide +kernel

/-- **The value of a directive** is its tokens, filled in, where the values of these have no
    braces. -/
theorem valuesIn_filled (m : Machine) {c : Cluster} {conf : Text} {i : Instance}
    (ht : c.inputs.confFile conf = some confTemplate) (hset : PlainSettings c i) {r : Text}
    (hr : sedScript (braces.mark .password) i.redisAuthPass = .replace r) (hnl : '\n' ∉ r)
    {d : Directive} (hd : d ∈ sharedDirectives) (hlit : LitsOk braces d.value)
    (hopen : ∀ nv ∈ confValues c i r, Token.hole nv.1 ∈ d.value → '{' ∉ nv.2) :
    d.valuesIn ((confPipeline c conf i none).output m) =
      [(render braces (valueOf (confValues c i r)) d.value).dropWhile isBlank] := by
  obtain ⟨hkeyed, hrest⟩ := confTemplate_directive d (List.mem_append_left _ hd)
  have hkey := sharedDirectives_key d hd
  have hblanks : '{' ∉ List.replicate d.blanks ' ' := by simp
  have hchain : replaceChain braces (confValues c i r) (flatten braces d.value) =
      render braces (valueOf (confValues c i r)) d.value := replaceChain_flatten_of_holes hlit hopen
  rw [Directive.valuesIn, confPipeline_output m hset ht hr hnl,
    rests_replaceChain hkey.1 hkey.2.1 hkey.2.2 hkeyed (tagFilled_confValues c i r)
      (newline_not_mem_confValues hset hnl), hrest, Directive.rest, List.map_singleton,
    List.map_singleton, replaceChain_append_of_not_mem braces _ hblanks, hchain]
  refine List.singleton_inj.mpr (List.dropWhile_append_of_pos fun a ha => ?_)
  rw [List.eq_of_mem_replicate ha]
  rfl

/-- The pid file of an instance, as a text. -/
def Cluster.pidfileText (c : Cluster) (nodeid port : Text) : Text :=
  c.clusterHomeText ++ "/run/redis-".toList ++ nodeid ++ '-' :: port ++ ".pid".toList

section Conf

variable {m : Machine} {c : Cluster} {conf : Text} {i : Instance}

/-- The values of the placeholders that name an instance. -/
theorem noOpen_of_named {r : Text} (hhome : '{' ∉ c.clusterHomeText) (hid : '{' ∉ i.nodeid)
    (hport : '{' ∉ i.port) : ∀ nv ∈ confValues c i r,
      nv.1 ∈ [Placeholder.clusterHomeDir, .nodeid, .port] → '{' ∉ nv.2 := by
  intro nv hnv hname
  simp only [confValues, List.mem_cons, List.not_mem_nil, or_false] at hnv
  rcases hnv with rfl | rfl | rfl | rfl | rfl | rfl | rfl | rfl | rfl
  · exact hhome
  · simp at hname
  · exact hid
  · simp at hname
  · simp at hname
  · exact hport
  · simp at hname
  · simp at hname
  · simp at hname

theorem holes_port : ∀ n, Token.hole n ∈ Directive.port.value →
    n ∈ [Placeholder.clusterHomeDir, .nodeid, .port] := by
  intro n hn
  rw [Directive.port, List.mem_singleton, Token.hole.injEq] at hn
  simp [hn]

theorem holes_pidfile : ∀ n, Token.hole n ∈ Directive.pidfile.value →
    n ∈ [Placeholder.clusterHomeDir, .nodeid, .port] := by
  intro n hn
  simp only [Directive.pidfile, List.mem_cons, List.mem_append, List.mem_map, reduceCtorEq,
    and_false, exists_false, Token.hole.injEq, false_or, or_false] at hn
  rcases hn with rfl | rfl | rfl <;> simp

variable (ht : c.inputs.confFile conf = some confTemplate) (hset : PlainSettings c i)
  (hpass : PlainValue i.redisAuthPass) (henv : EnvValues c)
  (hid : ∀ ch ∈ i.nodeid, isBareChar ch = true) (hport : ∀ ch ∈ i.port, isBareChar ch = true)

include ht hset hpass henv hid hport

/-- The conf of an instance has its port. -/
theorem port_in_conf : Directive.port.valuesIn ((confPipeline c conf i none).output m) = [i.port] := by
  have hopen := noOpen_of_named (r := i.redisAuthPass) (plainPath_of_isPathChar henv.home).noOpen
    (plainSetting_of_isBareChar hid).noOpen (plainSetting_of_isBareChar hport).noOpen
  have hvalue : valueOf (confValues c i i.redisAuthPass) .port = some i.port := by
    simp [confValues, valueOf_cons]
  have hlit : Token.lit '{' ∉ Directive.port.value := by decide
  rw [valuesIn_filled m ht hset (sedScript_of_plain hpass) hpass.2.2.2 (by simp [sharedDirectives])
    hlit fun nv hnv hhole => hopen nv hnv (holes_port nv.1 hhole)]
  have hrender : render braces (valueOf (confValues c i i.redisAuthPass)) Directive.port.value =
      i.port := by
    rw [Directive.port, render_hole, hvalue, render_nil, Option.getD_some, List.append_nil]
  rw [hrender]
  refine List.singleton_inj.mpr (dropWhile_isBlank_eq_self_iff.mpr ?_)
  cases hhead : i.port.head? with
  | none => rfl
  | some ch => exact isBlank_of_isBareChar (hport ch (List.mem_of_head? hhead))

/-- And its pid file. -/
theorem pidfile_in_conf : Directive.pidfile.valuesIn ((confPipeline c conf i none).output m) =
    [c.pidfileText i.nodeid i.port] := by
  have hopen := noOpen_of_named (r := i.redisAuthPass) (plainPath_of_isPathChar henv.home).noOpen
    (plainSetting_of_isBareChar hid).noOpen (plainSetting_of_isBareChar hport).noOpen
  have hhome : valueOf (confValues c i i.redisAuthPass) .clusterHomeDir = some c.clusterHomeText := by
    simp [confValues, valueOf_cons]
  have hnodeid : valueOf (confValues c i i.redisAuthPass) .nodeid = some i.nodeid := by
    simp [confValues, valueOf_cons]
  have hvalue : valueOf (confValues c i i.redisAuthPass) .port = some i.port := by
    simp [confValues, valueOf_cons]
  have hlit : Token.lit '{' ∉ Directive.pidfile.value := by decide
  rw [valuesIn_filled m ht hset (sedScript_of_plain hpass) hpass.2.2.2 (by simp [sharedDirectives])
    hlit fun nv hnv hhole => hopen nv hnv (holes_pidfile nv.1 hhole)]
  have hrender : render braces (valueOf (confValues c i i.redisAuthPass)) Directive.pidfile.value =
      c.pidfileText i.nodeid i.port := by
    rw [Directive.pidfile, render_hole, hhome, render_append, render_map_lit, render_hole, hnodeid,
      render_lit, render_hole, hvalue, render_map_lit, Cluster.pidfileText]
    simp only [Option.getD_some, List.append_assoc, List.cons_append]
  rw [hrender]
  refine List.singleton_inj.mpr (dropWhile_isBlank_eq_self_iff.mpr ?_)
  cases hhead : c.clusterHomeText with
  | nil => simp [Cluster.clusterHomeText] at hhead
  | cons ch rest =>
    have hpath := henv.home ch (by simp [hhead])
    have hblank : isBlank ch = false := by
      rw [Bool.eq_false_iff]
      intro hblank
      simp only [isBlank, Bool.or_eq_true, beq_iff_eq] at hblank
      rcases hblank with (rfl | rfl) | rfl <;> exact absurd hpath (by decide)
    rw [Cluster.pidfileText, hhead]
    exact hblank

end Conf

/-! ## The machine -/

/-- What the scripts of a node do, with what its confs say: each conf that is loaded is there, with
    its port, and each pid file that is read is that of such a conf. -/
structure Operates (c : Cluster) (fs : FS) (n : Node) : Prop where
  start : ∀ cwd, (contentOf fs (c.homeEntry (scriptName "start_redis" n.nodeid))).bind
      (startRedis fs cwd c.clusterHomeDir) =
    some (n.ports.map fun port => c.homeEntry "conf".toList ++ [Cluster.confName n.nodeid port])
  shutdown : ∀ cwd, (contentOf fs (c.homeEntry (scriptName "shutdown_redis" n.nodeid))).bind
      (shutdownRedis fs cwd c.clusterHomeDir) =
    some (n.ports.map fun port => ⟨c.pidfileText n.nodeid port, n.host, port⟩)
  connect : ∀ port ports, n.ports = port :: ports →
    (contentOf fs (c.homeEntry (scriptName "connect_redis" n.nodeid))).bind connectRedis =
      some (n.host, port)
  confs : ∀ port ∈ n.ports, ∃ conf,
    contentOf fs (c.homeEntry "conf".toList ++ [Cluster.confName n.nodeid port]) = some conf ∧
      Directive.port.valuesIn conf = [port] ∧
      Directive.pidfile.valuesIn conf = [c.pidfileText n.nodeid port]

/-- The templates are the shipped ones, and the values mean nothing to `sed` and to the shell. -/
structure Shipped (m : Machine) (c : Cluster) : Prop where
  env : c.inputs.sbinFile "cluster_env.sh.0".toList = some clusterEnvTemplate
  start : c.inputs.sbinFile "start_redis.sh.0".toList = some startTemplate
  shutdown : c.inputs.sbinFile "shutdown_redis.sh.0".toList = some shutdownTemplate
  connect : c.inputs.sbinFile "connect_redis.sh.0".toList = some connectTemplate
  conf : ∀ n, IsNode m c n → c.inputs.confFile n.conf = some confTemplate
  values : EnvValues c
  nodes : ∀ n, IsNode m c n → BareNode n
  settings : ∀ n, IsNode m c n → ∀ port ∈ n.ports, ∀ pass, PlainSettings c (n.instance pass port)
  password : ∀ pass, c.redisAuthPass = some pass → PlainValue pass

section Machine

variable {m : Machine} {c : Cluster} {s t u v : Shell} {id : Text}

/-- The file of the TLS instances, as `deploy()` tests it. -/
theorem tlsAt_of_isFile (h : PlainPaths m c) (hs : DeployPasses c u)
    (hfile : isFile u.fs (c.configEntry clusterTlsNodes) = true) : tlsAt c u = true := by
  have hdirs := h.config_dirs hs.configured
  have hnames : ∀ n ∈ configPath c.tool c.clusterid, IsName n := h.canonical
  have hresolve : resolve u.fs u.cwd (c.inConfig clusterTlsNodes) =
      some (target u.cwd (c.inConfig clusterTlsNodes)) := by
    refine resolve_snoc (isAbsolute_clusterConfigDir c) (fun p hp => hdirs p ?_) u.cwd clusterTlsNodes
    simp only [mkdirPaths, List.flatMap_cons, List.flatMap_nil, List.append_nil] at hp
    rw [configTarget_eq h.canonical]
    exact prefix_of_mem_visited hnames hp
  rw [tlsAt]
  refine testF_eq_true_iff.mpr ⟨_, hresolve, ?_⟩
  rwa [target_inConfig c (by decide +kernel)]

/-- What `deploy()` leaves of the files of the config directory that all scripts use. -/
theorem installed_of_deploy (h : Deliverable m c u) (hmake : ∀ n, MakeKeeps m (c.configEntry n))
    (hdeploy : (deploy m c).run u = (some (), v)) : Installed c u v := by
  refine deploy_installed h.paths.isAbsolute_home (fun id hid => ?_) hmake (fun hfile => ?_) hdeploy
  · exact fun hslash => absurd hslash (h.nodes.ids id hid).noSlash
  · have htls := tlsAt_of_isFile h.paths (deployPasses_of_some hdeploy) hfile
    refine ⟨⟨(h.certs htls).1, h.paths.tlsCacertdir.ne_dot, h.paths.tlsCacertdir.ne_dots⟩,
      h.paths.tlsCacertdir.noSlash, fun hprefix => ?_, fun heq => ?_⟩
    · exact h.apart.1 ((List.prefix_append _ _).trans hprefix)
    · exact h.apart.1 (heq ▸ List.prefix_rfl)

/-- The home directory is there, for the scripts that change to it. -/
theorem home_of_deploy (h : PlainPaths m c) (hdeploy : (deploy m c).run u = (some (), v)) :
    pathWord (c.clusterHomeText ++ ['/']) = c.homeSlash ∧ target [] c.homeSlash = c.homeTarget ∧
      testD v.fs [] c.homeSlash = true := by
  have hshares : SharesParent c.tool c.ini.clusterParentDir m c :=
    { h with tool := rfl, sharedParent := rfl }
  have hid : IsName c.clusterid ∧ '/' ∉ c.clusterid :=
    ⟨h.canonical _ (by simp [configPath]), h.clusterid⟩
  have hdirs := (deployed_of_deploy hshares hdeploy).dirs h.parentDir hid
  obtain ⟨ns, hword, hdots, hns⟩ := h.parentDir.walk_home hid
  have hhome : c.clusterHomeDir = [] :: ns := hword
  have htarget : target [] c.homeSlash = c.homeTarget := by
    rw [Cluster.homeSlash, Cluster.homeTarget, hhome]
    simp [target, startOf, step]
  have hresolve : resolve v.fs [] c.homeSlash = some (target [] c.homeSlash) := by
    refine resolve_snoc h.isAbsolute_home (fun p hp => hdirs p ?_) [] []
    rw [hhome] at hp
    simp only [mkdirPaths, List.flatMap_cons, List.flatMap_nil, List.append_nil] at hp
    exact hns ▸ prefix_foldl_step_of_mem_visited hdots hp
  refine ⟨?_, htarget, testD_eq_true_iff.mpr ⟨_, hresolve, isDir_iff.mpr (hdirs _ ?_)⟩⟩
  · rw [pathWord, List.splitOn_append_cons_self, List.splitOn_nil]
    rfl
  · rw [htarget]
    exact List.prefix_rfl

/-- The variables that `cluster_env.sh` sets in the home directory. -/
theorem sourced_of_deploy (hshipped : Shipped m c) (hinstalled : Installed c u v)
    (hconfig : (config m c).run s = (some (), t)) (hsame : SameAround c.configTarget t.fs u.fs)
    (cwd : Path) : ∃ env, Sourced v.fs cwd c.clusterHomeDir c.clusterHomeText env := by
  obtain ⟨x, hauth⟩ := Option.isSome_iff_exists.mp hinstalled.authPass
  have hscript := hinstalled.clusterEnv
  have hkept : contentOf u.fs (c.configEntry "cluster_env.sh".toList) =
      contentOf t.fs (c.configEntry "cluster_env.sh".toList) := by
    unfold contentOf
    rw [dataAt_congr (hsame (c.configEntry "cluster_env.sh".toList)
      (Or.inl (List.prefix_append _ _)))]
  rw [hkept, config_clusterEnv hconfig, clusterEnv_output m hshipped.values hshipped.env] at hscript
  have hread := (contentFrom_inHome hshipped.values.absolute v.fs cwd _).trans hscript
  have hsourced := sourceEnv_clusterEnv hshipped.values cwd hauth
  refine ⟨clusterEnvVars c x, ?_, ?_, lookup_clusterEnvVars (by simp [clusterEnvVars]), ?_⟩
  · rw [Cluster.inHome] at hread
    rw [hread, Option.bind_some, hsourced]
  · rw [lookup_clusterEnvVars (w := c.clusterid) (by simp [clusterEnvVars])]
    rfl
  · rw [lookup_clusterEnvVars (w := commandSubst x) (by simp [clusterEnvVars])]
    rfl

/-- What a delivery has brought, and where from. -/
theorem Delivery.Done.content {del : Delivery} {fs fs' : FS} (h : del.Done fs fs') :
    contentOf fs' del.dest = contentOf fs del.source := by
  obtain ⟨f, g, hf, hg, hsame, -⟩ := h
  rw [contentOf, contentOf, hf, hg, Option.map_some, Option.map_some, hsame]

end Machine

/-! ## Two hosts -/

instance (c : Cluster) (i : Instance) : Decidable (PlainSettings c i) :=
  inferInstanceAs (Decidable (_ ∧ ∀ v ∈ confSettings c i, PlainValue v))

theorem shipped_twoHosts : Shipped plainHost twoHostsCluster := by
  have hstable := stableReads_plainHost twoHostsCluster
  have hall : ∀ n, IsNode plainHost twoHostsCluster n →
      n ∈ (nodesAt plainHost twoHostsCluster demoShell).map
        (nodeAt plainHost twoHostsCluster demoShell) := fun n hn =>
    List.mem_map.mpr ⟨n.nodeid, hstable.mem_nodesAt demoShell hn.listed,
      (hn.eq_nodeAt hstable demoShell).symm⟩
  have hconf : ∀ n ∈ (nodesAt plainHost twoHostsCluster demoShell).map
      (nodeAt plainHost twoHostsCluster demoShell), n.conf = "c0".toList := by decide +kernel
  have hbare : ∀ n ∈ (nodesAt plainHost twoHostsCluster demoShell).map
      (nodeAt plainHost twoHostsCluster demoShell), n.nodeid.all isBareChar = true ∧
        n.host ≠ [] ∧ n.host.all isBareChar = true ∧
        ∀ port ∈ n.ports, port ≠ [] ∧ port.all isBareChar = true := by decide +kernel
  have hset : ∀ n ∈ (nodesAt plainHost twoHostsCluster demoShell).map
      (nodeAt plainHost twoHostsCluster demoShell), ∀ port ∈ n.ports,
        PlainSettings twoHostsCluster (n.instance [] port) := by decide +kernel
  have hpass : twoHostsCluster.redisAuthPass = some "s".toList := by decide +kernel
  refine ⟨rfl, ?_, ?_, ?_, fun n hn => ?_, ?_, fun n hn => ?_, fun n hn port hport pass => ?_,
    fun pass h => ?_⟩
  · decide +kernel
  · decide +kernel
  · decide +kernel
  · rw [hconf n (hall n hn)]
    rfl
  · exact {
      home := List.all_eq_true.mp (by decide +kernel)
      absolute := ⟨_, rfl⟩
      id := by decide +kernel
      cacertdir := by decide +kernel
      cacertdirQuoted := List.forall_mem_iff_getElem.mpr (by decide +kernel)
      replicas := List.all_eq_true.mp (by decide +kernel) }
  · obtain ⟨hid, hne, hhost, hports⟩ := hbare n (hall n hn)
    refine ⟨List.all_eq_true.mp hid, ⟨hne, List.all_eq_true.mp hhost⟩, fun port hport => ?_⟩
    exact ⟨(hports port hport).1, List.all_eq_true.mp (hports port hport).2⟩
  · exact hset n (hall n hn) port hport
  · rw [hpass] at h
    rw [← Option.some.inj h]
    decide +kernel

end RedisCluster
