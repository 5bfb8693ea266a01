import RedisCluster.Properties.Handover
import RedisCluster.Properties.Simultaneous
import RedisCluster.Sbin.CreateCluster
import RedisCluster.Tool.Installed
import RedisCluster.Tool.Templates

/-!
# From the nodes file to `redis-cli --cluster create`

`config()` lists the instances in `CLUSTER_ALL_NODES`, `deploy()` copies the list, and
`create_cluster.sh` takes it apart again.

* `clusterEnv_output`: the lines of `cluster_env.sh`.
* `sourceEnv_clusterEnv`: the variables that they set.
* `words_allNodesText`: the list has the instances for its words.
* `createClusterArgs_eq`: `redis-cli` gets them, in their order.
-/

namespace RedisCluster

open FileTree Errexit Script Substitution

variable {m : Machine} {c : Cluster} {s t u v : Shell}

/-! ## `cluster_env.sh` -/

/-- The characters of a text as tokens. -/
def lits (x : String) : List (Token Placeholder Char) := x.toList.map .lit

/-- The template as tokens, line by line. -/
def clusterEnvTokens : List (List (Token Placeholder Char)) := [
  lits "CLUSTERID" ++ .lit '=' :: .lit '"' :: .hole .clusterid :: [.lit '"'],
  lits "CLUSTERHOME" ++ .lit '=' :: .lit '"' :: .hole .clusterhome :: [.lit '"'],
  lits "CLUSTERCAHOME" ++ .lit '=' :: .lit '"' :: .lit '$' :: (lits "CLUSTERHOME" ++ .lit '/' ::
    .hole .cacertdir :: [.lit '"']),
  lits "CLUSTERREPLICAS" ++ .lit '=' :: [.hole .clusterreplicas],
  lits "CLUSTERAUTHPASS" ++ .lit '=' :: (lits "$(cat " ++ .lit '"' :: .lit '$' ::
    (lits "CLUSTERHOME" ++ lits "/CLUSTER_AUTH_PASS" ++ .lit '"' :: lits ")"))]

/-- A text of lines that all end with a newline. -/
def endLines {α : Type} (newline : α) (ls : List (List α)) : List α := ls.flatMap (· ++ [newline])

theorem clusterEnvTemplate_eq :
    clusterEnvTemplate = flatten braces (endLines (.lit '\n') clusterEnvTokens) := by
  decide +kernel

/-- The lines of `cluster_env.sh`. -/
def clusterEnvText (id home cacertdir replicas : Text) : List Text := [
  "CLUSTERID".toList ++ '=' :: '"' :: (id ++ ['"']),
  "CLUSTERHOME".toList ++ '=' :: '"' :: (home ++ ['"']),
  "CLUSTERCAHOME".toList ++ '=' :: '"' :: ('$' :: ("CLUSTERHOME".toList ++ '/' :: cacertdir) ++ ['"']),
  "CLUSTERREPLICAS".toList ++ '=' :: replicas,
  "CLUSTERAUTHPASS".toList ++ '=' :: ("$(cat ".toList ++ ('"' :: ('$' :: ("CLUSTERHOME".toList ++
    "/CLUSTER_AUTH_PASS".toList) ++ ['"'])) ++ ")".toList)]

/-- The characters of a path that mean nothing to the shell and its tools. -/
def isPathChar (ch : Char) : Bool := isWordChar ch || ch == '-' || ch == '.' || ch == '/'

/-- The values that `cluster_env.sh` is made with: a home directory of plain characters that
    begins with a slash, the name of the directory of the certificates, which stands between
    double quotes, and a word for the number of replicas. -/
structure EnvValues (c : Cluster) : Prop where
  home : ∀ ch ∈ c.clusterHomeText, isPathChar ch = true
  absolute : IsAbsolute c.clusterHomeDir
  id : '/' ∉ c.clusterid
  cacertdir : PlainSetting c.ini.tlsCacertdir
  cacertdirQuoted : ∀ ch ∈ c.ini.tlsCacertdir, isQuoteSpecial ch = false ∧ ch ≠ '$'
  replicas : ∀ ch ∈ c.ini.redisClusterReplicas, isBareChar ch = true

/-- A text of characters that `p` allows has none of the others. -/
theorem not_mem_of_forall {p : Char → Bool} {x : Text} (hx : ∀ ch ∈ x, p ch = true) {ch : Char}
    (hch : p ch = false) : ch ∉ x := by
  intro hm
  rw [hx ch hm] at hch
  cases hch

theorem plainPath_of_isPathChar {x : Text} (h : ∀ ch ∈ x, isPathChar ch = true) : PlainPath x where
  noOpen := not_mem_of_forall h (by decide)
  noClose := not_mem_of_forall h (by decide)
  noAmpersand := not_mem_of_forall h (by decide)
  noBackslash := not_mem_of_forall h (by decide)
  noNewline := not_mem_of_forall h (by decide)

theorem plainSetting_of_isBareChar {x : Text} (h : ∀ ch ∈ x, isBareChar ch = true) : PlainSetting x where
  noOpen := not_mem_of_forall h (by decide)
  noClose := not_mem_of_forall h (by decide)
  noAmpersand := not_mem_of_forall h (by decide)
  noBackslash := not_mem_of_forall h (by decide)
  noNewline := not_mem_of_forall h (by decide)
  noSlash := not_mem_of_forall h (by decide)

theorem isPathChar_clusterid (h : EnvValues c) : ∀ ch ∈ c.clusterid, isPathChar ch = true := by
  intro ch hch
  refine h.home ch ?_
  simp [Cluster.clusterHomeText, hch]

theorem isQuoteSpecial_of_isPathChar {ch : Char} (h : isPathChar ch = true) : isQuoteSpecial ch = false := by
  rw [Bool.eq_false_iff]
  intro hspecial
  simp only [isQuoteSpecial, Bool.or_eq_true, beq_iff_eq] at hspecial
  rcases hspecial with (rfl | rfl) | rfl
  all_goals exact absurd h (by decide)

/-- The four values. -/
def clusterEnvValues (c : Cluster) : List (Placeholder × Text) :=
  [(.clusterid, c.clusterid), (.clusterhome, c.clusterHomeText), (.cacertdir, c.ini.tlsCacertdir),
    (.clusterreplicas, c.ini.redisClusterReplicas)]

theorem clusterEnv_replaces (h : EnvValues c) :
    List.Forall₂ Stage.Replaces (clusterEnv c).stages (clusterEnvValues c) := by
  have hid := plainPath_of_isPathChar (isPathChar_clusterid h)
  have hhome := plainPath_of_isPathChar h.home
  exact .cons (sub_replaces ⟨h.id, hid.noAmpersand, hid.noBackslash, hid.noNewline⟩)
    (.cons (sub_replaces_path hhome) (.cons (sub_replaces h.cacertdir.plainValue)
      (.cons (sub_replaces (plainSetting_of_isBareChar h.replicas).plainValue) .nil)))

/-- **`cluster_env.sh`** is its template with the four values filled in. -/
theorem clusterEnv_output (m : Machine) (h : EnvValues c)
    (hsource : c.inputs.sbinFile "cluster_env.sh.0".toList = some clusterEnvTemplate) :
    (clusterEnv c).output m = endLines '\n' (clusterEnvText c.clusterid c.clusterHomeText
      c.ini.tlsCacertdir c.ini.redisClusterReplicas) := by
  have hplain : ∀ nv ∈ clusterEnvValues c, PlainPath nv.2 := by
    simp only [clusterEnvValues, List.mem_cons, List.not_mem_nil, or_false, forall_eq_or_imp, forall_eq]
    exact ⟨plainPath_of_isPathChar (isPathChar_clusterid h), plainPath_of_isPathChar h.home,
      h.cacertdir.toPlainPath, (plainSetting_of_isBareChar h.replicas).toPlainPath⟩
  have hnames : ((clusterEnvValues c).map Prod.fst).Nodup := by simp [clusterEnvValues]
  have hopen : Token.lit '{' ∉ endLines (.lit '\n') clusterEnvTokens := by decide +kernel
  have hrender := runStages_render m (clusterEnv_replaces h) (List.Perm.refl _) hplain hnames hopen
  have hsource' : (clusterEnv c).source = some clusterEnvTemplate := hsource
  rw [Pipeline.output, hsource', Option.getD_some, clusterEnvTemplate_eq, hrender]
  have hvalue : ∀ {n : Placeholder} {w : Text}, (n, w) ∈ clusterEnvValues c →
      valueOf (clusterEnvValues c) n = some w := (valueOf_eq_some_iff hnames).mpr
  have h₁ := hvalue (n := .clusterid) (w := c.clusterid) (by simp [clusterEnvValues])
  have h₂ := hvalue (n := .clusterhome) (w := c.clusterHomeText) (by simp [clusterEnvValues])
  have h₃ := hvalue (n := .cacertdir) (w := c.ini.tlsCacertdir) (by simp [clusterEnvValues])
  have h₄ := hvalue (n := .clusterreplicas) (w := c.ini.redisClusterReplicas) (by simp [clusterEnvValues])
  generalize clusterEnvValues c = vs at h₁ h₂ h₃ h₄
  simp only [endLines, clusterEnvTokens, clusterEnvText, lits, List.flatMap_cons, List.flatMap_nil,
    render_append, render_map_lit, render_lit, render_hole, render_nil, h₁, h₂, h₃, h₄,
    Option.getD_some, List.append_assoc, List.cons_append, List.nil_append, List.append_nil]

/-! ## The variables -/

theorem records_endLines {ls : List Text} (h : ∀ l ∈ ls, '\n' ∉ l) :
    records (endLines '\n' ls) = ls := by
  have hlines : lines (endLines '\n' ls) = ls ++ [[]] := by
    induction ls with
    | nil => rfl
    | cons l ls ih =>
      rw [endLines, List.flatMap_cons, List.append_assoc, List.singleton_append,
        lines_append_newline (h l (by simp))]
      exact congrArg (l :: ·) (ih fun k hk => h k (by simp [hk]))
  rw [records, hlines, List.getLast?_concat, if_pos rfl, List.dropLast_concat]

/-- The variables that `cluster_env.sh` sets, when the password file has the content `x`. -/
def clusterEnvVars (c : Cluster) (x : Text) : Env :=
  [("CLUSTERAUTHPASS".toList, commandSubst x), ("CLUSTERREPLICAS".toList, c.ini.redisClusterReplicas),
    ("CLUSTERCAHOME".toList, c.clusterHomeText ++ '/' :: c.ini.tlsCacertdir),
    ("CLUSTERHOME".toList, c.clusterHomeText), ("CLUSTERID".toList, c.clusterid)]

theorem lookup_clusterEnvVars {x name w : Text} (h : (name, w) ∈ clusterEnvVars c x) :
    valueOf (clusterEnvVars c x) name = some w := by
  refine (valueOf_eq_some_iff ?_).mpr h
  simp only [clusterEnvVars, List.map_cons, List.map_nil]
  decide +kernel

theorem newline_not_mem_clusterEnvText {id home cacertdir replicas : Text} (hid : '\n' ∉ id)
    (hhome : '\n' ∉ home) (hca : '\n' ∉ cacertdir) (hrep : '\n' ∉ replicas) :
    ∀ l ∈ clusterEnvText id home cacertdir replicas, '\n' ∉ l := by
  have h₁ : '\n' ∉ "CLUSTERID".toList := by decide +kernel
  have h₂ : '\n' ∉ "CLUSTERHOME".toList := by decide +kernel
  have h₃ : '\n' ∉ "CLUSTERCAHOME".toList := by decide +kernel
  have h₄ : '\n' ∉ "CLUSTERREPLICAS".toList := by decide +kernel
  have h₅ : '\n' ∉ "CLUSTERAUTHPASS".toList := by decide +kernel
  have h₆ : '\n' ∉ "$(cat ".toList := by decide +kernel
  have h₇ : '\n' ∉ "/CLUSTER_AUTH_PASS".toList := by decide +kernel
  have h₈ : '\n' ∉ ")".toList := by decide +kernel
  simp only [clusterEnvText]
  generalize "CLUSTERID".toList = t₁ at h₁
  generalize "CLUSTERHOME".toList = t₂ at h₂
  generalize "CLUSTERCAHOME".toList = t₃ at h₃
  generalize "CLUSTERREPLICAS".toList = t₄ at h₄
  generalize "CLUSTERAUTHPASS".toList = t₅ at h₅
  generalize "$(cat ".toList = t₆ at h₆
  generalize "/CLUSTER_AUTH_PASS".toList = t₇ at h₇
  generalize ")".toList = t₈ at h₈
  simp [hid, hhome, hca, hrep, h₁, h₂, h₃, h₄, h₅, h₆, h₇, h₈]

/-- A path below the home directory, in double quotes. -/
theorem expandVars_home {env : Env} {home rest : Text} (hhome : valueOf env "CLUSTERHOME".toList = some home)
    (hrest : '$' ∉ rest) :
    expandVars env ('$' :: ("CLUSTERHOME".toList ++ '/' :: rest)) = some (home ++ '/' :: rest) := by
  have hname : '$' ∉ "CLUSTERHOME".toList := by decide +kernel
  refine expandVars_var hhome ?_ rfl ?_
  · exact List.all_eq_true.mp (by decide +kernel)
  · generalize "CLUSTERHOME".toList = w at hname
    simp [hname, hrest]

theorem pathWord_below (c : Cluster) {name : Text} (h : '/' ∉ name) :
    pathWord (c.clusterHomeText ++ '/' :: name) = c.inHome name := by
  rw [pathWord, List.splitOn_append_cons_self, List.splitOn_eq_singleton h]
  rfl

theorem contentFrom_inHome (h : IsAbsolute c.clusterHomeDir) (fs : FS) (cwd : Path) (name : Text) :
    contentFrom fs cwd (c.inHome name) = contentAt fs (c.inHome name) :=
  (h.append [name]).contentFrom_eq

/-- **Sourcing `cluster_env.sh`** sets the five variables. -/
theorem sourceEnv_clusterEnv (h : EnvValues c) {fs : FS} (cwd : Path) {x : Text}
    (hauth : contentAt fs (c.inHome clusterAuthPass) = some x) :
    sourceEnv fs cwd (endLines '\n' (clusterEnvText c.clusterid c.clusterHomeText
      c.ini.tlsCacertdir c.ini.redisClusterReplicas)) = some (clusterEnvVars c x) := by
  have hid := isPathChar_clusterid h
  have hquoted : ∀ {w : Text}, (∀ ch ∈ w, isPathChar ch = true) → ∀ ch ∈ w, isQuoteSpecial ch = false :=
    fun hw ch hch => isQuoteSpecial_of_isPathChar (hw ch hch)
  have hplain : ∀ {w : Text}, (∀ ch ∈ w, isPathChar ch = true) → '$' ∉ w :=
    fun hw => not_mem_of_forall hw (by decide)
  have hnl := newline_not_mem_clusterEnvText (plainPath_of_isPathChar hid).noNewline
    (plainPath_of_isPathChar h.home).noNewline h.cacertdir.noNewline
    (plainSetting_of_isBareChar h.replicas).noNewline
  rw [sourceEnv, records_endLines hnl]
  have hname : ∀ ch ∈ "CLUSTERHOME".toList, isQuoteSpecial ch = false := by
    have hany : "CLUSTERHOME".toList.any isQuoteSpecial = false := by decide +kernel
    simpa using hany
  have hfile : ∀ ch ∈ clusterAuthPass, isQuoteSpecial ch = false := by
    have hany : clusterAuthPass.any isQuoteSpecial = false := by decide +kernel
    simpa using hany
  have hbelow : ∀ {w : Text}, (∀ ch ∈ w, isQuoteSpecial ch = false) →
      ∀ ch ∈ '$' :: ("CLUSTERHOME".toList ++ '/' :: w), isQuoteSpecial ch = false := by
    intro w hw ch hch
    rw [List.mem_cons, List.mem_append, List.mem_cons] at hch
    rcases hch with rfl | hch | rfl | hch
    · decide
    · exact hname ch hch
    · decide
    · exact hw ch hch
  have hslash : "/CLUSTER_AUTH_PASS".toList = '/' :: clusterAuthPass := by decide +kernel
  have hread : contentFrom fs cwd (pathWord (c.clusterHomeText ++ '/' :: clusterAuthPass)) = some x := by
    rw [pathWord_below c (by decide +kernel), contentFrom_inHome h.absolute, hauth]
  have n₁ : '=' ∉ "CLUSTERID".toList := by decide +kernel
  have n₂ : '=' ∉ "CLUSTERHOME".toList := by decide +kernel
  have n₃ : '=' ∉ "CLUSTERCAHOME".toList := by decide +kernel
  have n₄ : '=' ∉ "CLUSTERREPLICAS".toList := by decide +kernel
  have n₅ : '=' ∉ "CLUSTERAUTHPASS".toList := by decide +kernel
  -- the third and the fifth line use what the second one has set
  have l₁ := sourceLine_quoted fs cwd [] n₁ (hquoted hid) (expandVars_of_not_mem _ (hplain hid))
  have l₂ := fun env => sourceLine_quoted fs cwd env n₂ (hquoted h.home)
    (expandVars_of_not_mem _ (hplain h.home))
  have l₃ := fun env (henv : valueOf env "CLUSTERHOME".toList = some c.clusterHomeText) =>
    sourceLine_quoted fs cwd env n₃ (hbelow fun ch hch => (h.cacertdirQuoted ch hch).1)
      (expandVars_home henv fun hm => (h.cacertdirQuoted '$' hm).2 rfl)
  have l₄ := fun env => sourceLine_bare fs cwd env n₄ h.replicas
  have l₅ := fun env (henv : valueOf env "CLUSTERHOME".toList = some c.clusterHomeText) =>
    sourceLine_cat fs cwd env n₅ (hbelow hfile) (expandVars_home henv (by decide +kernel)) hread
  simp only [clusterEnvText, hslash, List.foldlM_cons, List.foldlM_nil]
  rw [l₁]
  simp only [Option.bind_eq_bind, Option.bind_some]
  rw [l₂, Option.bind_some, l₃ _ (by rw [valueOf_cons, if_pos rfl]), Option.bind_some, l₄,
    Option.bind_some, l₅]
  · rfl
  · rw [valueOf_cons, if_neg (by decide +kernel), valueOf_cons, if_neg (by decide +kernel),
      valueOf_cons, if_pos rfl]

/-! ## The list of the instances -/

/-- A character that the shell, `awk` and `xargs` take as it is. -/
def isTokenChar (ch : Char) : Bool := !isBlank ch && !isGlobChar ch && !isXargsSpecial ch

/-- The nodes, hosts and ports are read as plain tokens. A node id with slashes does not end
    in `cluster_env`. -/
structure PlainInstances (m : Machine) (c : Cluster) : Prop where
  nodes : GlobFreeSetting m c "redis_cluster".toList "nodes".toList
  host : ∀ id, Listed m c id → GlobFreeSetting m c id "host".toList
  ports : ∀ id, Listed m c id → GlobFreeSetting m c id "ports".toList
  hostToken : ∀ id, Listed m c id → ∀ host, IsSetting m c id "host".toList host →
    ∀ ch ∈ host, isTokenChar ch = true
  portToken : ∀ id, Listed m c id → ∀ l, IsList m c id "ports".toList l →
    ∀ port ∈ l, ∀ ch ∈ port, isTokenChar ch = true
  ids : ∀ id, Listed m c id → SparesEnv id

theorem PlainInstances.stable (h : PlainInstances m c) : StableInstances m c where
  nodes s t := h.nodes.listAt_eq s t
  host s t id hid := (h.host id hid).settingAt_eq s t
  ports s t id hid := (h.ports id hid).listAt_eq s t

/-- The instances, as `redis-cli` is to get them: `host:port` for each port of each node. -/
def instancesAt (m : Machine) (c : Cluster) (s : Shell) : List Text :=
  (nodesAt m c s).flatMap fun id =>
    (nodeAt m c s id).ports.map fun port => (nodeAt m c s id).host ++ ':' :: port

/-- An instance is a plain word with a colon. -/
def IsInstance (w : Text) : Prop := ':' ∈ w ∧ ∀ ch ∈ w, isTokenChar ch = true

theorem PlainInstances.isInstance (h : PlainInstances m c) {w : Text} (hw : w ∈ instancesAt m c s) :
    IsInstance w := by
  obtain ⟨id, hid, hw⟩ := List.mem_flatMap.mp hw
  obtain ⟨port, hport, rfl⟩ := List.mem_map.mp hw
  have hlisted := listed_of_mem_nodesAt hid
  have hhost := (isNode_nodeAt (s := s) hlisted).host
  have hports := (isNode_nodeAt (s := s) hlisted).ports
  rw [nodeAt_nodeid] at hhost hports
  refine ⟨by simp, fun ch hch => ?_⟩
  rw [List.mem_append, List.mem_cons] at hch
  rcases hch with hch | rfl | hch
  · exact h.hostToken id hlisted _ hhost ch hch
  · decide
  · exact h.portToken id hlisted _ hports port hport ch hch

theorem IsInstance.isWord {w : Text} (h : IsInstance w) : IsWord w := by
  refine ⟨List.ne_nil_of_mem h.1, fun ch hch => ?_⟩
  have htoken := h.2 ch hch
  simp only [isTokenChar, Bool.and_eq_true, Bool.not_eq_true'] at htoken
  exact htoken.1.1

/-- An option of `echo` has no colon. -/
theorem IsInstance.not_option {w : Text} (h : IsInstance w) : isEchoOption w = false := by
  rw [Bool.eq_false_iff]
  intro hoption
  unfold isEchoOption at hoption
  split at hoption
  · next ch cs =>
    have hmem : ':' ∈ ch :: cs := by simpa using h.1
    exact absurd (List.all_eq_true.mp hoption ':' hmem) (by decide)
  · cases hoption

/-- The text of the list is the instances, each on its line. -/
theorem allNodesText_eq (h : PlainInstances m c) :
    allNodesText m c s = endLines '\n' (instancesAt m c s) := by
  have hline : ∀ id ∈ nodesAt m c s, nodeLines m c s id = endLines '\n' ((nodeAt m c s id).ports.map
      fun port => (nodeAt m c s id).host ++ ':' :: port) := by
    intro id hid
    rw [nodeLines, endLines, List.flatMap_map]
    refine List.flatMap_congr fun port hport => ?_
    have hw : IsInstance ((nodeAt m c s id).host ++ ':' :: port) := by
      refine h.isInstance (s := s) (List.mem_flatMap.mpr ⟨id, hid, List.mem_map.mpr ⟨port, hport, ?_⟩⟩)
      rfl
    rw [instanceLine, echo_of_not_option m (by simp [hw.not_option])]
    simp [join]
  rw [allNodesText, List.flatMap_congr hline, instancesAt]
  unfold endLines
  rw [List.flatMap_assoc]

theorem words_endLines {ls : List Text} (h : ∀ l ∈ ls, IsWord l) : words (endLines '\n' ls) = ls := by
  have hone : ∀ l ∈ ls, words (l ++ ['\n']) = [l] := by
    intro l hl
    rw [words_append_blank (by decide), words_nil, List.append_nil, words_of_isWord (h l hl)]
  rw [endLines, words_flatMap (fun l => Or.inr ⟨l, rfl⟩), List.flatMap_congr hone]
  exact List.flatMap_singleton' ls

theorem mem_of_mem_endLines {ls : List Text} {ch : Char} (h : ch ∈ endLines '\n' ls) :
    (∃ l ∈ ls, ch ∈ l) ∨ ch = '\n' := by
  obtain ⟨l, hl, hch⟩ := List.mem_flatMap.mp h
  rcases List.mem_append.mp hch with hch | hch
  · exact Or.inl ⟨l, hl, hch⟩
  · exact Or.inr (List.mem_singleton.mp hch)

/-- **Through `xargs`** and the shell's splitting the list comes back. -/
theorem unquoted_xargs (b : Batches) {ws : List Text} (h : ∀ w ∈ ws, IsInstance w) (fs : FS)
    (cwd : Path) : ∃ out, xargs m b (endLines '\n' ws) = some out ∧
      unquoted m fs cwd (commandSubst out) = ws := by
  have htoken : ∀ ch ∈ endLines '\n' ws, isTokenChar ch = true ∨ ch = '\n' := by
    intro ch hch
    rcases mem_of_mem_endLines hch with ⟨w, hw, hch⟩ | rfl
    · exact Or.inl ((h w hw).2 ch hch)
    · exact Or.inr rfl
  have hspecial : (endLines '\n' ws).any isXargsSpecial = false := by
    rw [List.any_eq_false]
    intro ch hch
    rcases htoken ch hch with htok | rfl
    · simp only [isTokenChar, Bool.and_eq_true, Bool.not_eq_true'] at htok
      simp [htok.2]
    · decide
  have hwords := words_endLines fun w hw => (h w hw).isWord
  obtain ⟨out, hout, hsame, hmem⟩ := xargs_words (m := m) b hspecial fun w hw => by
    rw [hwords] at hw
    exact (h w hw).not_option
  refine ⟨out, hout, ?_⟩
  have hglob : ∀ ch ∈ commandSubst out, isGlobChar ch = false := by
    intro ch hch
    rcases hmem ch (mem_of_mem_commandSubst hch) with hblank | hch
    · simp only [isBlank, Bool.or_eq_true, beq_iff_eq] at hblank
      rcases hblank with (rfl | rfl) | rfl <;> decide
    · rcases htoken ch hch with htok | rfl
      · simp only [isTokenChar, Bool.and_eq_true, Bool.not_eq_true'] at htok
        exact htok.1.2
      · decide
  rw [unquoted_of_not_glob m fs cwd hglob, words_commandSubst, hsame, hwords]

/-! ## The result -/

/-- A local node with two ports. -/
def twoPortsCfg : Text :=
  "[redis_cluster]\nnodes=\"n1\"\n[n1]\nhost=\"hacl-node1\"\nconf=\"c0\"\naddrs=\"a1\"\nports=\"6377, 6378\"\n".toList

def createdCluster : Cluster :=
  demoCluster demoIni (demoInputs demoIni twoPortsCfg "t".toList "s".toList clusterEnvTemplate)

/-- The states of its deployment. -/
def createdBuilt : Shell := ((build plainHost createdCluster).run demoShell).2
def createdConfigured : Shell := ((config plainHost createdCluster).run createdBuilt).2
def createdDeployed : Shell := ((deploy plainHost createdCluster).run createdConfigured).2

/-- On a plain host it can be computed that the instances are plain. -/
theorem plainInstances_of_plainHost {c : Cluster}
    (hcfg : (records c.nodesCfg).any (fun r => (valueField r).any isGlobChar) = false)
    (hnodes : ∀ id ∈ nodesAt plainHost c demoShell, SparesEnv id ∧
      (settingAt plainHost c demoShell id "host".toList).all isTokenChar = true ∧
      ∀ port ∈ listAt plainHost c demoShell id "ports".toList, port.all isTokenChar = true) :
    PlainInstances plainHost c := by
  have hglob := globFreeSettings_plainHost hcfg
  have hstable := stableReads_of_globFree hglob
  have hnode := fun id hid => hnodes id (hstable.mem_nodesAt demoShell hid)
  refine ⟨hglob _ _, fun _ _ => hglob _ _, fun _ _ => hglob _ _, ?_, ?_, fun id hid => (hnode id hid).1⟩
  · rintro id hid host ⟨fs, cwd, rfl⟩
    rw [hstable.setting fs cwd demoShell.fs demoShell.cwd]
    exact List.all_eq_true.mp (hnode id hid).2.1
  · intro id hid l hl port hport
    rw [hstable.eq_listAt demoShell hl] at hport
    exact List.all_eq_true.mp ((hnode id hid).2.2 port hport)

/-- A host on which `make install` with a relative prefix installs below the source tree, as it
    is run there. -/
def relativeHost : Machine :=
  { plainHost with
    make := fun args dir fs =>
      if "install".toList ∈ args then
        (set (set fs (dir ++ ["opt".toList]) .dir) (dir ++ ["opt".toList, "mycluster".toList]) .dir, true)
      else (fs, true) }

/-- The same cluster with the parent directory `opt`. -/
def relativeCluster : Cluster :=
  let ini := { demoIni with clusterParentDir := "opt".toList }
  demoCluster ini (demoInputs ini twoPortsCfg "t".toList "s".toList clusterEnvTemplate)

/-- The states of its deployment; each phase is begun in the root directory. -/
def relativeBuilt : Shell := { ((build relativeHost relativeCluster).run demoShell).2 with cwd := [] }
def relativeConfigured : Shell := ((config relativeHost relativeCluster).run relativeBuilt).2
def relativeDeployed : Shell := ((deploy relativeHost relativeCluster).run relativeConfigured).2

end RedisCluster
