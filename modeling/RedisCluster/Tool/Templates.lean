import RedisCluster.Tool.Chain

/-!
# The shipped templates

The text of `redis-server.conf.0` and `cluster_env.sh.0`, and how to find a line in what
a chain of replacements makes of them.

* `rests key t`: what follows `key` on the lines of `t` that begin with it.
* `Apart key l`: however its placeholders are filled, `l` does not begin with `key`.
* `rests_replaceChain`: on a template whose other lines are apart from a key, the
  chain of an instance conf rewrites what follows the key.
-/

namespace RedisCluster

open Substitution

/-! ## Lines that begin with a key -/

/-- What follows `key` on a line that begins with it. -/
def restOf (key l : Text) : Option Text := if key <+: l then some (l.drop key.length) else none

/-- What follows `key` on the lines that begin with it. -/
def rests (key t : Text) : List Text := (lines t).filterMap (restOf key)

theorem restOf_append (key r : Text) : restOf key (key ++ r) = some r := by
  rw [restOf, if_pos (List.prefix_append key r), List.drop_left]

/-- The line does not begin with `key`, and already what precedes its first brace shows
    that it will not. -/
def Apart (key l : Text) : Prop :=
  ¬ key <+: l ∧ (l.dropWhile (· ≠ '{') = [] ∨ ¬ l.takeWhile (· ≠ '{') <+: key)

instance (key l : Text) : Decidable (Apart key l) := inferInstanceAs (Decidable (_ ∧ _))

/-- The line begins with `{TLS_HASHTAG}`, and what follows is apart from `key`. -/
def ApartBehindTag (key l : Text) : Prop :=
  braces.mark .tlsHashtag <+: l ∧ Apart key (l.drop (braces.mark .tlsHashtag).length)

instance (key l : Text) : Decidable (ApartBehindTag key l) := inferInstanceAs (Decidable (_ ∧ _))

/-- The lines of a template, seen from a key: no newline in them, and each begins with
    the key or stays apart from it. -/
def KeyedLines (key : Text) (ls : List Text) : Prop :=
  ∀ l ∈ ls, key <+: l ∨ Apart key l ∨ ApartBehindTag key l

instance (key : Text) (ls : List Text) : Decidable (KeyedLines key ls) :=
  List.decidableBAll _ ls

theorem Apart.not_prefix {key l : Text} (h : Apart key l) (nvs : List (Placeholder × Text)) :
    ¬ key <+: replaceChain braces nvs l := by
  obtain ⟨hkey, hopen⟩ := h
  have hlit : '{' ∉ l.takeWhile (· ≠ '{') := by
    intro hm
    simpa using List.mem_takeWhile_imp hm
  have hsplit := List.takeWhile_append_dropWhile (p := (· ≠ '{')) (l := l)
  have hchain : replaceChain braces nvs l =
      l.takeWhile (· ≠ '{') ++ replaceChain braces nvs (l.dropWhile (· ≠ '{')) := by
    conv_lhs => rw [← hsplit]
    exact replaceChain_append_of_not_mem braces nvs hlit _
  rw [hchain]
  intro hp
  rcases hopen with hnil | hopen
  · rw [hnil, List.append_nil] at hsplit
    rw [hnil, replaceChain_empty, List.append_nil, hsplit] at hp
    exact hkey hp
  · rcases List.prefix_or_prefix_of_prefix hp (List.prefix_append _ _) with hp | hp
    · exact hkey (hp.trans (List.takeWhile_prefix _))
    · exact hopen hp

/-- The chain replaces the tag by nothing or by the beginning of a comment. -/
def TagFilled (nvs : List (Placeholder × Text)) : Prop :=
  ∃ l v l', nvs = l ++ (.tlsHashtag, v) :: l' ∧ .tlsHashtag ∉ l.map Prod.fst ∧
    (v = [] ∨ v = ['#', '!'])

theorem tagFilled_hashTag (c : Cluster) {l l' : List (Placeholder × Text)}
    (h : .tlsHashtag ∉ l.map Prod.fst) : TagFilled (l ++ (.tlsHashtag, c.hashTag) :: l') := by
  refine ⟨l, c.hashTag, l', rfl, h, ?_⟩
  unfold Cluster.hashTag
  split
  · exact Or.inl rfl
  · exact Or.inr rfl

theorem tagFilled_confValues (c : Cluster) (i : Instance) (pass : Text) :
    TagFilled (confValues c i pass) :=
  @tagFilled_hashTag c ((confValues c i pass).take 8) [] (by simp [confValues])

/-- The key is no beginning of a line that is apart behind the tag. -/
theorem ApartBehindTag.not_prefix {key l : Text} (h : ApartBehindTag key l) (hne : key ≠ [])
    (hhash : key.head? ≠ some '#') {nvs : List (Placeholder × Text)} (htag : TagFilled nvs) :
    ¬ key <+: replaceChain braces nvs l := by
  obtain ⟨⟨r, rfl⟩, hr⟩ := h
  rw [List.drop_left] at hr
  have hrest := hr.not_prefix nvs
  obtain ⟨l, v, l', rfl, hmem, hv⟩ := htag
  have hopen : braces.opener ∉ v := by
    rcases hv with rfl | rfl <;> decide
  rw [replaceChain_mark_append braces hmem hopen]
  rcases hv with rfl | rfl
  · exact hrest
  · rintro ⟨s, hs⟩
    obtain ⟨a, key, rfl⟩ := List.exists_cons_of_ne_nil hne
    simp only [List.cons_append, List.cons.injEq] at hs
    exact hhash (by simp [hs.1])

theorem filterMap_rests {key : Text} {f : Text → Text} {ls : List Text}
    (hcopy : ∀ r, f (key ++ r) = key ++ f r) (h : ∀ l ∈ ls, key <+: l ∨ ¬ key <+: f l) :
    (ls.map f).filterMap (restOf key) = (ls.filterMap (restOf key)).map f := by
  induction ls with
  | nil => rfl
  | cons l ls ih =>
    have ih := ih fun k hk => h k (by simp [hk])
    rw [List.map_cons, List.filterMap_cons, List.filterMap_cons, ih]
    by_cases hkey : key <+: l
    · obtain ⟨r, rfl⟩ := hkey
      rw [hcopy, restOf_append, restOf_append, List.map_cons]
    · have hf : ¬ key <+: f l := (h l (by simp)).resolve_left hkey
      rw [restOf, if_neg hf, restOf, if_neg hkey]

/-- **The chain of an instance conf** rewrites what follows a key on a template's
    lines. -/
theorem rests_replaceChain {key t : Text} (hne : key ≠ []) (hhash : key.head? ≠ some '#')
    (hbrace : '{' ∉ key) (ht : KeyedLines key (lines t)) {nvs : List (Placeholder × Text)}
    (htag : TagFilled nvs) (hnl : ∀ nv ∈ nvs, '\n' ∉ nv.2) :
    rests key (mapLines (replaceChain braces nvs) t) =
      (rests key t).map (replaceChain braces nvs) := by
  rw [rests, lines_replaceChain hnl]
  refine filterMap_rests (replaceChain_append_of_not_mem braces _ hbrace) fun l hl => ?_
  rcases ht l hl with h | h | h
  · exact Or.inl h
  · exact Or.inr (h.not_prefix _)
  · exact Or.inr (h.not_prefix hne hhash htag)

/-! ## The templates -/

/-- A text of these lines. -/
def ofLines (ls : List String) : Text := ['\n'].intercalate (ls.map String.toList)

/-- `redis-server.conf.0`, line by line. -/
def confLines : List String := [
  "################################################################",
  "# Redis Configuration File On Host Server: {HOST}",
  "#  redis-{NODEID}-{PORT}.conf",
  "#",
  "# This is a redis configuration file of cluster: {CLUSTERID}",
  "# Note that in order to start redis-server as a cluster node,",
  "# Redis must be started with full path of this file as first",
  "#  argument like the following lines:",
  "#   $ cd {CLUSTER_HOME_DIR}/",
  "#   $ ./bin/redis-server ./conf/redis-{NODEID}-{PORT}.conf",
  "################################################################",
  "",
  "# use config files:",
  "#include     {CLUSTER_HOME_DIR}/conf/redis_server.conf",
  "#include     {CLUSTER_HOME_DIR}/conf/other.conf",
  "",
  "# use modules:",
  "#loadmodule        {CLUSTER_HOME_DIR}/modules/redisgraph.so",
  "#loadmodule        {CLUSTER_HOME_DIR}/modules/redisbloom.so",
  "#loadmodule        {CLUSTER_HOME_DIR}/modules/rejson.so",
  "",
  "protected-mode               yes",
  "",
  "# listens on one or more specific IPv4 addresses",
  "bind                         {ADDRS}",
  "port                         {PORT}",
  "",
  "daemonize                    yes",
  "pidfile                      {CLUSTER_HOME_DIR}/run/redis-{NODEID}-{PORT}.pid",
  "",
  "loglevel                     notice",
  "logfile                      {CLUSTER_HOME_DIR}/log/redis-{NODEID}-{PORT}.log",
  "",
  "cluster-enabled              yes",
  "cluster-node-timeout         15000",
  "cluster-config-file          {CLUSTER_HOME_DIR}/cluster-{NODEID}-{PORT}.conf",
  "",
  "tcp-backlog                  2048",
  "",
  "unixsocket                   {CLUSTER_HOME_DIR}/run/redis-{NODEID}-{PORT}.sock",
  "unixsocketperm               700",
  "",
  "# Close the connection after a client is idle for N seconds (0 to disable)",
  "timeout                      1800",
  "tcp-keepalive                300",
  "",
  "# The default value is 0, which implies no marking is required.",
  "socket-mark-id               0",
  "",
  "maxclients                   200",
  "maxmemory                    10GB",
  "maxmemory-policy             noeviction",
  "",
  "requirepass                  {PASSWORD}",
  "masterauth                   {PASSWORD}",
  "",
  "# using no limits:",
  "client-output-buffer-limit   normal 0 0 0",
  "client-output-buffer-limit   slave 0 0 0",
  "client-output-buffer-limit   pubsub 0 0 0",
  "",
  "######################### TLS/SSL ##############################",
  "{TLS_HASHTAG}tls-port                     {TLS_PORT}",
  "",
  "{TLS_HASHTAG}tls-cert-file                {TLS_CERTFILE}",
  "{TLS_HASHTAG}tls-key-file                 {TLS_KEYFILE}",
  "",
  "# Configure a DH parameters file to enable Diffie-Hellman (DH) key exchange,",
  "# required by older versions of OpenSSL (<3.0). Newer versions do not require",
  "# this configuration and recommend against it.",
  "{TLS_HASHTAG}tls-dh-params-file           {TLS_DHFILE}",
  "",
  "{TLS_HASHTAG}tls-ca-cert-file             {TLS_CACERTDIR}/{TLS_CACERT}",
  "{TLS_HASHTAG}tls-ca-cert-dir              {TLS_CACERTDIR}",
  "",
  "################### SNAPSHOT DUMP MODE #########################",
  "# Snapshotting can be completely disabled with a single empty string argument",
  "# as in following example: ",
  "#",
  "# save \"\"",
  "",
  "# Unless specified otherwise, by default Redis will save the DB:",
  "#   * After 3600 seconds (an hour) if at least 1 change was performed",
  "#   * After 300 seconds (5 minutes) if at least 100 changes were performed",
  "#   * After 60 seconds if at least 10000 changes were performed",
  "save 3600 1 300 100 60 10000",
  "",
  "# The RDB will be written inside this directory, with the filename specified",
  "dir                          {CLUSTER_HOME_DIR}/{RDB_DIR}",
  "dbfilename                   snapshot-{NODEID}-{PORT}.rdb",
  "rdbcompression               yes",
  "",
  "######################### REPLICATION ##########################",
  "appendonly                   yes",
  "appenddirname                appendonly",
  "appendfilename               replica-{NODEID}-{PORT}.aof",
  "appendfsync                  everysec",
  "",
  "no-appendfsync-on-rewrite    yes",
  "auto-aof-rewrite-percentage  100",
  "auto-aof-rewrite-min-size    512mb",
  ""]

/-- `redis-server.conf.0` -/
def confTemplate : Text := ofLines confLines

/-- `cluster_env.sh.0`, line by line. -/
def clusterEnvLines : List String := [
  "CLUSTERID=\"{CLUSTERID}\"",
  "CLUSTERHOME=\"{CLUSTERHOME}\"",
  "CLUSTERCAHOME=\"$CLUSTERHOME/{CACERTDIR}\"",
  "CLUSTERREPLICAS={CLUSTERREPLICAS}",
  "CLUSTERAUTHPASS=$(cat \"$CLUSTERHOME/CLUSTER_AUTH_PASS\")",
  ""]

/-- `cluster_env.sh.0` -/
def clusterEnvTemplate : Text := ofLines clusterEnvLines

theorem lines_ofLines {ss : List String} {ls : List Text} (h : ss.map String.toList = ls)
    (hne : ls ≠ []) (hnl : ∀ l ∈ ls, '\n' ∉ l) : lines (ofLines ss) = ls := by
  rw [lines, ofLines, h]
  exact List.splitOn_intercalate _ hnl hne

theorem map_toList_cons {s : String} {l : Text} {ss : List String} {ls : List Text}
    (h : s = String.ofList l) (hs : ss.map String.toList = ls) :
    (s :: ss).map String.toList = l :: ls := by
  rw [List.map_cons, h, String.toList_ofList, hs]

/-- A directive of the template: its keyword, the blanks behind the first one, and its
    value. -/
structure Directive where
  keyword : String
  blanks : ℕ
  value : List (Token Placeholder Char)

namespace Directive

/-- The keyword with the blank that ends it. -/
def key (d : Directive) : Text := d.keyword.toList ++ [' ']

/-- What follows in the template. -/
def rest (d : Directive) : Text := List.replicate d.blanks ' ' ++ flatten braces d.value

def requirepass : Directive := ⟨"requirepass", 17, [.hole .password]⟩
def masterauth : Directive := ⟨"masterauth", 18, [.hole .password]⟩
def port : Directive := ⟨"port", 24, [.hole .port]⟩
def pidfile : Directive :=
  ⟨"pidfile", 21, .hole .clusterHomeDir :: ("/run/redis-".toList.map .lit ++
    .hole .nodeid :: .lit '-' :: .hole .port :: ".pid".toList.map .lit)⟩

end Directive

/-- The directives whose values other files have to match. -/
def sharedDirectives : List Directive :=
  [.requirepass, .masterauth, .port, .pidfile]

/-- The values of a directive in a conf. -/
def Directive.valuesIn (d : Directive) (conf : Text) : List Text :=
  (rests d.key conf).map fun r => r.dropWhile isBlank

/-- A directive that names a file of the instance: `stem{NODEID}-{PORT}ext`, in the
    subdirectory `dir` of the home directory, if there is one. -/
structure FileDirective where
  keyword : String
  blanks : ℕ
  dir : Option String
  stem : String
  ext : String
  deriving DecidableEq

namespace FileDirective

/-- The name without its directory. -/
def nameTokens (d : FileDirective) : List (Token Placeholder Char) :=
  d.stem.toList.map .lit ++ .hole .nodeid :: .lit '-' :: .hole .port :: d.ext.toList.map .lit

def value (d : FileDirective) : List (Token Placeholder Char) :=
  match d.dir with
  | some dir => .hole .clusterHomeDir :: (dir.toList.map .lit ++ .lit '/' :: d.nameTokens)
  | none => d.nameTokens

def directive (d : FileDirective) : Directive := ⟨d.keyword, d.blanks, d.value⟩

/-- The name for an instance. -/
def fileName (d : FileDirective) (nodeid port : Text) : Text :=
  d.stem.toList ++ nodeid ++ '-' :: port ++ d.ext.toList

end FileDirective

/-- The directives that name a file of the instance. -/
def fileDirectives : List FileDirective :=
  [⟨"pidfile", 21, some "/run", "redis-", ".pid"⟩,
    ⟨"logfile", 21, some "/log", "redis-", ".log"⟩,
    ⟨"cluster-config-file", 9, some "", "cluster-", ".conf"⟩,
    ⟨"unixsocket", 18, some "/run", "redis-", ".sock"⟩,
    ⟨"dbfilename", 18, none, "snapshot-", ".rdb"⟩,
    ⟨"appendfilename", 14, none, "replica-", ".aof"⟩]

/-- The template has each of these directives once. -/
theorem confTemplate_directive :
    ∀ d ∈ sharedDirectives ++ fileDirectives.map FileDirective.directive,
      KeyedLines d.key (lines confTemplate) ∧ rests d.key confTemplate = [d.rest] := by
  obtain ⟨ls, hls, hne, hnl, hspec⟩ : ∃ ls, confLines.map String.toList = ls ∧ ls ≠ [] ∧
      (∀ l ∈ ls, '\n' ∉ l) ∧
      ∀ d ∈ sharedDirectives ++ fileDirectives.map FileDirective.directive,
        KeyedLines d.key ls ∧ ls.filterMap (restOf d.key) = [d.rest] := by
    apply Exists.intro
    apply And.intro
    · unfold confLines
      repeat apply map_toList_cons rfl
      exact List.map_nil
    · decide +kernel
  unfold rests
  rw [confTemplate, lines_ofLines hls hne hnl]
  exact hspec

end RedisCluster
