import RedisCluster.Tool.Outputs

/-!
# Plain nodes

Node ids that are names of directory entries, ports of digits: the paths of their files are
what they look like, and `config()` stays below `$cluster_config_dir`.

* `PlainNodes`: the nodes file has such node ids and ports, and no glob characters.
* `target_nodeconfdir`, `nodeConfFile_eq`: the paths.
* `ConfigAct.touches_below`, `ConfigAct.not_makes_entry`: what `config()` touches and makes.
-/

namespace RedisCluster

open FileTree Errexit Script

/-- The files that `config()` makes in `$cluster_config_dir` itself. -/
def outputNames : List Text :=
  [clusterAllNodes, clusterTlsNodes, clusterAuthPass, "cluster_env.sh".toList,
    "create_cluster.sh".toList, configSuccess]

/-- A node id that is the name of an entry, and not that of an output. -/
structure PlainId (id : Text) : Prop where
  noSlash : '/' ∉ id
  ne_dot : id ≠ ['.']
  ne_dots : id ≠ ['.', '.']
  not_output : id ∉ outputNames

instance (id : Text) : Decidable (PlainId id) :=
  decidable_of_iff ('/' ∉ id ∧ id ≠ ['.'] ∧ id ≠ ['.', '.'] ∧ id ∉ outputNames)
    ⟨fun h => ⟨h.1, h.2.1, h.2.2.1, h.2.2.2⟩,
      fun h => ⟨h.noSlash, h.ne_dot, h.ne_dots, h.not_output⟩⟩

/-- A port of digits. -/
def IsPort (port : Text) : Prop := ∀ ch ∈ port, ch.isDigit = true

/-- The settings have no glob characters, the node ids are names, the ports digits. -/
structure PlainNodes (m : Machine) (c : Cluster) : Prop where
  globFree : GlobFreeSettings m c
  ids : ∀ id, Listed m c id → PlainId id
  ports : ∀ id, Listed m c id → ∀ l, IsList m c id "ports".toList l → ∀ port ∈ l, IsPort port

/-- The tool's directory and the id are as `pwd` and the validation rules leave them. -/
def Cluster.Canonical (c : Cluster) : Prop := ∀ n ∈ configPath c.tool c.clusterid, IsName n

instance (c : Cluster) : Decidable c.Canonical :=
  List.decidableBAll (fun n => IsName n) (configPath c.tool c.clusterid)

variable {m : Machine} {c : Cluster}

theorem PlainNodes.stable (h : PlainNodes m c) : StableReads m c := stableReads_of_globFree h.globFree

/-- Without glob characters a list is made of words. -/
theorem isWord_of_isList (h : GlobFreeSettings m c) {n k : Text} {l : List Text}
    (hl : IsList m c n k l) : ∀ w ∈ l, IsWord w := by
  obtain ⟨fs, cwd, hl⟩ := hl
  intro w hw
  rw [hl, listWords, unquoted_of_not_glob m fs cwd] at hw
  · exact isWord_of_mem_words hw
  · intro ch hch
    rcases mem_of_mem_awkCommas (mem_of_mem_commandSubst hch) with hch | rfl
    · rcases mem_of_mem_echo_singleton hch with hch | rfl
      · exact (h n k).2 fs cwd ch (mem_of_mem_commandSubst hch)
      · decide
    · decide

theorem PlainNodes.isName (h : PlainNodes m c) {id : Text} (hid : Listed m c id) : IsName id := by
  have hplain := h.ids id hid
  obtain ⟨l, hl, hmem⟩ := hid
  exact ⟨(isWord_of_isList h.globFree hl id hmem).1, hplain.ne_dot, hplain.ne_dots⟩

/-! ## Paths -/

theorem PlainId.pathWord_eq {id : Text} (h : PlainId id) : pathWord id = [id] :=
  pathWord_eq_singleton h.noSlash

theorem nodeconfdir_eq {id : Text} (h : PlainId id) : c.nodeconfdir id = c.inConfig id := by
  rw [Cluster.nodeconfdir, h.pathWord_eq, Cluster.inConfig]

/-- `$nodeconfdir` is the entry of its node. -/
theorem target_nodeconfdir {id : Text} (h : PlainId id) (hname : IsName id) (cwd : Path) :
    target cwd (c.nodeconfdir id) = c.configEntry id := by
  rw [nodeconfdir_eq h, target_inConfig c hname]

theorem IsPort.noSlash {port : Text} (h : IsPort port) : '/' ∉ port :=
  fun hmem => absurd (h _ hmem) (by decide)

theorem slash_not_mem_confName {id port : Text} (hid : '/' ∉ id) (hport : '/' ∉ port) :
    '/' ∉ Cluster.confName id port := by
  have hstart : '/' ∉ "redis-".toList := by decide
  have hend : '/' ∉ ".conf".toList := by decide
  unfold Cluster.confName
  generalize "redis-".toList = a at hstart
  generalize ".conf".toList = b at hend
  simp [hstart, hend, hid, hport]

/-- The word of an instance conf. -/
theorem nodeConfFile_eq {id port : Text} (h : PlainId id) (hport : IsPort port) :
    c.nodeConfFile id port = c.nodeconfdir id ++ [Cluster.confName id port] := by
  rw [Cluster.nodeConfFile, pathWord_eq_singleton (slash_not_mem_confName h.noSlash hport.noSlash)]

theorem isName_confName (id port : Text) : IsName (Cluster.confName id port) := by
  have hlen : 2 < (Cluster.confName id port).length := by
    unfold Cluster.confName
    have hstart : "redis-".toList.length = 6 := rfl
    simp only [List.length_append, hstart]
    omega
  refine ⟨fun he => ?_, fun he => ?_, fun he => ?_⟩ <;> rw [he] at hlen <;> simp at hlen

theorem configTarget_eq (h : c.Canonical) : c.configTarget = configPath c.tool c.clusterid := by
  rw [Cluster.configTarget, target, Cluster.clusterConfigDir, absWord]
  exact foldl_step_of_isName h []

theorem configEntry_ne (c : Cluster) (n : Text) : c.configEntry n ≠ c.configTarget := by
  intro he
  have hlen := congrArg List.length he
  rw [Cluster.configEntry, List.length_append, List.length_singleton] at hlen
  omega

/-- Strictly below `$cluster_config_dir`. -/
def Cluster.InConfigDir (c : Cluster) (p : Path) : Prop := c.configTarget <+: p ∧ p ≠ c.configTarget

theorem inConfigDir_entry_append (n : Text) (r : Path) : c.InConfigDir (c.configEntry n ++ r) := by
  rw [Cluster.configEntry]
  refine ⟨⟨[n] ++ r, by simp⟩, fun he => ?_⟩
  have hlen := congrArg List.length he
  simp only [List.length_append, List.length_singleton] at hlen
  omega

theorem inConfigDir_of_entry_prefix {n : Text} {p : Path} (h : c.configEntry n <+: p) :
    c.InConfigDir p := by
  obtain ⟨r, rfl⟩ := h
  exact inConfigDir_entry_append n r

/-! ## What `config()` touches and makes -/

/-- A write goes to the target of its word. -/
theorem target_of_touches {cm : Cmd} {dest : PathWord} {cwd : Path} {fs : FS} {p : Path}
    (hcm : (∃ t, cm = .write dest t) ∨ (∃ t, cm = .append dest t) ∨ ∃ pl, cm = .pipeline pl dest)
    (h : cm.touches m cwd fs p = true) : p = target cwd dest := by
  rcases hcm with ⟨t, rfl⟩ | ⟨t, rfl⟩ | ⟨pl, rfl⟩ <;>
    exact resolve_eq_target (fileTarget_eq_some_iff.mp (of_decide_eq_true h)).1

theorem PlainNodes.target_conf (h : PlainNodes m c) {n : Node} (hn : IsNode m c n) {port : Text}
    (hp : port ∈ n.ports) (cwd : Path) : target cwd (c.nodeConfFile n.nodeid port) =
      c.configEntry n.nodeid ++ [Cluster.confName n.nodeid port] := by
  have hid := h.ids _ hn.listed
  rw [nodeConfFile_eq hid (h.ports _ hn.listed _ hn.ports port hp), target_append_name (isName_confName _ _),
    target_nodeconfdir hid (h.isName hn.listed)]

theorem PlainNodes.target_script (h : PlainNodes m c) {id name : Text} (hid : Listed m c id)
    (hname : IsName name) (cwd : Path) :
    target cwd (c.nodeconfdir id ++ [name]) = c.configEntry id ++ [name] := by
  rw [target_append_name hname, target_nodeconfdir (h.ids _ hid) (h.isName hid)]

/-- `config()` touches nothing outside its directory. -/
theorem ConfigAct.touches_below (h : PlainNodes m c) {a : Act}
    (ha : WithMarker (ConfigAct m c) (configMarker m c) a) {cm : Cmd} (hcm : a.Issues cm)
    {cwd : Path} {fs : FS} {p : Path} (htouch : cm.touches m cwd fs p = true) :
    c.InConfigDir p := by
  have hentry : ∀ {n : Text}, IsName n → p = target cwd (c.inConfig n) → c.InConfigDir p := by
    intro n hn hp
    rw [hp, target_inConfig c hn, ← List.append_nil (c.configEntry n)]
    exact inConfigDir_entry_append n []
  rcases ha with ha | rfl
  · cases ha with
    | configDir | nodeDir =>
      cases hcm
      cases htouch
    | noNodes =>
      cases hcm
      exact hentry (by decide +kernel) (target_of_touches (Or.inl ⟨_, rfl⟩) htouch)
    | addNode =>
      cases hcm
      exact hentry (by decide +kernel) (target_of_touches (Or.inr (Or.inl ⟨_, rfl⟩)) htouch)
    | conf hn hp =>
      cases hcm
      rw [target_of_touches (Or.inr (Or.inr ⟨_, rfl⟩)) htouch, h.target_conf hn hp]
      exact inConfigDir_entry_append _ _
    | authPass =>
      cases hcm
      exact inConfigDir_of_entry_prefix (authPass_touches htouch)
    | start hn | shutdown hn | connect hn =>
      cases hcm
      rw [target_of_touches (Or.inr (Or.inr ⟨_, rfl⟩)) htouch,
        h.target_script hn.listed (by decide +kernel)]
      exact inConfigDir_entry_append _ _
    | env | create =>
      cases hcm
      exact hentry (by decide +kernel) (target_of_touches (Or.inr (Or.inr ⟨_, rfl⟩)) htouch)
  · cases hcm
    exact hentry (by decide +kernel) (target_of_touches (Or.inl ⟨_, rfl⟩) htouch)

/-- The directories made for a node are above its entry, or that. -/
theorem prefix_of_mem_nodeDirs (hcanon : c.Canonical) {id : Text} (hid : PlainId id)
    (hname : IsName id) {p : Path} (hp : p ∈ mkdirPaths [] [c.nodeconfdir id]) :
    p <+: c.configEntry id := by
  have hp' : p ∈ visited [] (configPath c.tool c.clusterid ++ [id]) := by
    rw [nodeconfdir_eq hid] at hp
    simp only [mkdirPaths, List.flatMap_cons, List.flatMap_nil, List.append_nil] at hp
    exact hp
  have hnames : ∀ n ∈ configPath c.tool c.clusterid ++ [id], IsName n := by
    intro n hn
    rcases List.mem_append.mp hn with hn | hn
    · exact hcanon n hn
    · rw [List.mem_singleton.mp hn]
      exact hname
  have hprefix := prefix_of_mem_visited hnames hp'
  rwa [Cluster.configEntry, configTarget_eq hcanon]

/-- `config()` makes no directory in the place of an output. -/
theorem ConfigAct.not_makes_entry (h : PlainNodes m c) (hcanon : c.Canonical) {a : Act}
    (ha : WithMarker (ConfigAct m c) (configMarker m c) a) {cm : Cmd} (hcm : a.Issues cm)
    (cwd : Path) {n : Text} (hn : n ∈ outputNames) : c.configEntry n ∉ cm.makes cwd := by
  intro hmem
  rcases ha with ha | rfl
  · cases ha with
    | configDir =>
      cases hcm
      have hp : c.configEntry n ∈ visited [] (configPath c.tool c.clusterid) := by
        simp only [Cmd.makes, mkdirPaths, List.flatMap_cons, List.flatMap_nil, List.append_nil]
          at hmem
        exact hmem
      have hlen := (prefix_of_mem_visited hcanon hp).length_le
      rw [Cluster.configEntry, configTarget_eq hcanon, List.nil_append, List.length_append,
        List.length_singleton] at hlen
      omega
    | nodeDir hid =>
      cases hcm
      have hplain := h.ids _ hid
      obtain ⟨r, hr⟩ := prefix_of_mem_nodeDirs hcanon hplain (h.isName hid) hmem
      rw [Cluster.configEntry, Cluster.configEntry, List.append_assoc] at hr
      have hcons := List.append_cancel_left hr
      rw [List.singleton_append] at hcons
      obtain ⟨hhead, -⟩ := List.cons.inj hcons
      exact hplain.not_output (hhead ▸ hn)
    | noNodes | addNode | conf | authPass | start | shutdown | connect | env | create =>
      cases hcm
      cases hmem
  · cases hcm
    cases hmem

end RedisCluster
