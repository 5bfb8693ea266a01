import RedisCluster.Tool.Cluster

/-!
# `config`

Lines 265–441 of `redis_cluster.sh`: the instance confs, the scripts of each
node, `cluster_env.sh`, `create_cluster.sh` and the node lists, all below
`$cluster_config_dir`.
-/

namespace RedisCluster

open Errexit Script

/-- One stage `sed 's/'"{"name"}"'/'"$value"'/g'`. -/
def sub (name : Placeholder) (value : Text) : Stage := ⟨name, some value⟩

namespace Cluster

/-- `$(cat "$cluster_conf_dir/$redis_authpass_file")` (line 275), if the file can be read. -/
def redisAuthPass (c : Cluster) : Option Text :=
  (c.inputs.confFile c.ini.redisAuthpassFile).map commandSubst

/-- `$RedisClusterHome` (line 278). -/
def redisClusterHome (c : Cluster) : Text := commandSubst (escapeSlashes c.clusterHomeText)

/-- `$tls_enabled` after lines 283–291. -/
def tlsFlag (c : Cluster) : Text := if c.ini.tlsEnabled = "yes".toList then ['1'] else ['0']

/-- `$HashTag` (lines 283–291). -/
def hashTag (c : Cluster) : Text := if c.ini.tlsEnabled = "yes".toList then [] else ['#', '!']

/-- `[ "$tls_enabled" == "yes" ]` (lines 327, 353, 360, 417), on the flag that lines
    285 and 289 have overwritten. -/
def tlsBranch (c : Cluster) : Bool := c.tlsFlag == "yes".toList

/-- The flag has been overwritten by `1` or `0`: the tests against `yes` all fail. -/
theorem tlsBranch_eq_false (c : Cluster) : c.tlsBranch = false := by
  unfold tlsBranch tlsFlag
  split <;> decide

end Cluster

/-- What lines 328–342 read for a node: its TLS ports and the paths of its
    certificate, key and DH file, escaped. -/
structure TlsSettings where
  tlsports : List Text
  certFile : Text
  keyFile : Text
  dhFile : Text
  deriving DecidableEq

/-- The settings of a node (lines 305–323). -/
structure Node where
  nodeid : Text
  conf : Text
  host : Text
  addrs : List Text
  ports : List Text
  tls : Option TlsSettings
  deriving DecidableEq

/-- The values that an instance conf is made with. -/
structure Instance where
  nodeid : Text
  host : Text
  port : Text
  addrstr : Text
  redisAuthPass : Text
  deriving DecidableEq

/-! ## The pipelines -/

/-- Lines 381–389, and the first stages of lines 362–370. -/
def confStages (c : Cluster) (i : Instance) : List Stage :=
  [sub .clusterHomeDir c.redisClusterHome, sub .clusterid c.clusterid, sub .nodeid i.nodeid,
    sub .rdbDir c.ini.rdbDirName, sub .host i.host, sub .port i.port,
    sub .addrs i.addrstr, sub .password i.redisAuthPass, sub .tlsHashtag c.hashTag]

/-- The further stages of the TLS chain (lines 371–376). -/
def tlsConfStages (c : Cluster) (t : TlsSettings) (tlsport : Text) : List Stage :=
  [sub .tlsPort tlsport, sub .tlsCertfile t.certFile, sub .tlsKeyfile t.keyFile,
    sub .tlsDhfile t.dhFile, sub .tlsCacert c.ini.tlsCacert,
    sub .tlsCacertdir (commandSubst (escapeSlashes c.tlsCacertText))]

/-- The pipeline of an instance conf: the TLS chain (lines 361–377) with the
    settings `t` and the instance's TLS port, or the other one (lines 380–390). -/
def confPipeline (c : Cluster) (conf : Text) (i : Instance) (t : Option (TlsSettings × Text)) :
    Pipeline where
  kind := .instanceConf
  source := c.inputs.confFile conf
  stages :=
    match t with
    | some (t, tlsport) => confStages c i ++ tlsConfStages c t tlsport
    | none => confStages c i

/-- The pipelines of `start_redis.sh` and `shutdown_redis.sh` (lines 397–408). -/
def nodeScript (c : Cluster) (kind : Output) (template : String) (n : Node) : Pipeline where
  kind := kind
  source := c.inputs.sbinFile template.toList
  stages := [sub .nodeid n.nodeid, sub .nodehost n.host, sub .ports (join n.ports)]

/-- Lines 411–415. -/
def connectScript (c : Cluster) (n : Node) : Pipeline where
  kind := .connectScript
  source := c.inputs.sbinFile "connect_redis.sh.0".toList
  stages := [sub .nodeid n.nodeid, sub .nodehost n.host, ⟨.port, n.ports.head?⟩]

/-- Lines 419–426. -/
def tlsconnectScript (c : Cluster) (n : Node) (t : TlsSettings) : Pipeline where
  kind := .tlsconnectScript
  source := c.inputs.sbinFile "tlsconnect_redis.sh.0".toList
  stages := [sub .nodeid n.nodeid, sub .nodehost n.host, ⟨.tlsPort, t.tlsports.head?⟩,
    sub .tlsCertfile t.certFile, sub .tlsKeyfile t.keyFile, sub .tlsCacert c.ini.tlsCacert]

/-- Lines 430–435. -/
def clusterEnv (c : Cluster) : Pipeline where
  kind := .clusterEnv
  source := c.inputs.sbinFile "cluster_env.sh.0".toList
  stages := [sub .clusterid c.clusterid, sub .clusterhome c.redisClusterHome,
    sub .cacertdir c.ini.tlsCacertdir, sub .clusterreplicas c.ini.redisClusterReplicas]

/-- Line 438. -/
def createCluster (c : Cluster) : Pipeline where
  kind := .createCluster
  source := c.inputs.sbinFile "create_cluster.sh.0".toList
  stages := []

/-! ## The phase -/

/-- `echo "$tlscertfile" | sed 's/\//\\\//g'` for one of the certificate files
    (lines 336–342). -/
def certPath (m : Machine) (c : Cluster) (nodeid key : Text) : Script Shell Text := do
  let file ← setting m c nodeid key
  pure (commandSubst (escapeSlashes (c.tlsCacertText ++ '/' :: file)))

/-- Lines 327–343. -/
def tlsSettings (m : Machine) (c : Cluster) (nodeid : Text) (numports : ℕ) :
    Script Shell TlsSettings := do
  let tlsports ← listSetting m c nodeid "tlsports".toList
  refuseIf (numports != tlsports.length) .portsDiffer
  let certFile ← certPath m c nodeid "tlscertfile".toList
  let keyFile ← certPath m c nodeid "tlskeyfile".toList
  let dhFile ← certPath m c nodeid "tlsdhfile".toList
  pure { tlsports, certFile, keyFile, dhFile }

/-- Lines 312–343: what is read for a node. -/
def readNode (m : Machine) (c : Cluster) (nodeid : Text) : Script Shell Node := do
  let conf ← setting m c nodeid "conf".toList
  let host ← setting m c nodeid "host".toList
  let addrs ← listSetting m c nodeid "addrs".toList
  let ports ← listSetting m c nodeid "ports".toList
  if c.tlsBranch then (do
    let tls ← tlsSettings m c nodeid ports.length
    pure { nodeid, conf, host, addrs, ports, tls := some tls })
  else pure { nodeid, conf, host, addrs, ports, tls := none }

/-- The instance of a node on one of its ports. -/
def Node.instance (n : Node) (redisAuthPass port : Text) : Instance where
  nodeid := n.nodeid
  host := n.host
  port := port
  addrstr := join n.addrs
  redisAuthPass := redisAuthPass

/-- Lines 345–392, for the port with index `port.2`. -/
def configInstance (m : Machine) (c : Cluster) (redisAuthPass : Text) (n : Node)
    (port : Text × ℕ) : Script Shell Unit := do
  exec m (.append (c.inConfig clusterAllNodes) (echo m [n.host ++ ':' :: port.1]))
  match n.tls with
  | some t =>
    exec m (.append (c.inConfig clusterTlsNodes)
      (echo m [n.host ++ ':' :: t.tlsports.getD port.2 []]))
    exec m (.pipeline (confPipeline c n.conf (n.instance redisAuthPass port.1)
      (some (t, t.tlsports.getD port.2 []))) (c.nodeConfFile n.nodeid port.1))
  | none =>
    exec m (.pipeline (confPipeline c n.conf (n.instance redisAuthPass port.1) none)
      (c.nodeConfFile n.nodeid port.1))

/-- Lines 394–427: what follows the instance confs of a node. -/
def configScripts (m : Machine) (c : Cluster) (n : Node) : Script Shell Unit := do
  exec m (.copyIn (c.inputs.confFile c.ini.redisAuthpassFile)
    (baseName (pathWord c.ini.redisAuthpassFile)) (c.inConfig clusterAuthPass))
  exec m (.pipeline (nodeScript c .startScript "start_redis.sh.0" n)
    (c.nodeconfdir n.nodeid ++ ["start_redis.sh".toList]))
  exec m (.pipeline (nodeScript c .shutdownScript "shutdown_redis.sh.0" n)
    (c.nodeconfdir n.nodeid ++ ["shutdown_redis.sh".toList]))
  exec m (.pipeline (connectScript c n)
    (c.nodeconfdir n.nodeid ++ ["connect_redis.sh".toList]))
  match n.tls with
  | some t =>
    exec m (.pipeline (tlsconnectScript c n t)
      (c.nodeconfdir n.nodeid ++ ["tlsconnect_redis.sh".toList]))
  | none => pure ()

/-- Lines 305–427: one pass of the loop over the nodes. -/
def configNode (m : Machine) (c : Cluster) (redisAuthPass nodeid : Text) : Script Shell Unit := do
  exec m (.mkdirP [c.nodeconfdir nodeid])
  let n ← readNode m c nodeid
  forEach n.ports.zipIdx (configInstance m c redisAuthPass n)
  configScripts m c n

/-- Lines 430–438. -/
def configTail (m : Machine) (c : Cluster) : Script Shell Unit := do
  exec m (.pipeline (clusterEnv c) (c.inConfig "cluster_env.sh".toList))
  exec m (.pipeline (createCluster c) (c.inConfig "create_cluster.sh".toList))

/-- Lines 266–438: all but the marker. -/
def configBody (m : Machine) (c : Cluster) : Script Shell Unit := do
  let done ← isFileAt (c.inConfig configSuccess)
  refuseIf done .alreadyConfigured
  exec m (.mkdirP [c.clusterConfigDir])
  require c.redisAuthPass.isSome
  exec m (.write (c.inConfig clusterAllNodes) [])
  let nodeslist ← nodesList m c
  forEach nodeslist (configNode m c (c.redisAuthPass.getD []))
  configTail m c

/-- `echo "CONFIG_SUCCESS" > "$cluster_config_dir/CONFIG_SUCCESS"` -/
def configMarker (m : Machine) (c : Cluster) : Cmd :=
  .write (c.inConfig configSuccess) (echo m [configSuccess])

/-- `config` (lines 265–441). -/
def config (m : Machine) (c : Cluster) : Script Shell Unit := do
  configBody m c
  exec m (configMarker m c)

end RedisCluster
