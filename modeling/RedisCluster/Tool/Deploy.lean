import RedisCluster.Tool.Cluster

/-!
# `deploy`

Lines 444–560 of `redis_cluster.sh`.
-/

namespace RedisCluster

open Errexit Script

/-- Lines 490–507: a node is on this machine if its host is the local name, or one
    of its addresses is found among the local ones. -/
def isCurrent (m : Machine) (host : Text) (addrs : List Text) : Bool :=
  host == commandSubst m.hostnameS ||
    addrs.any fun nodeip => grepQW m nodeip (echo m [commandSubst m.hostnameI])

/-- The scripts of a node that `deploy()` installs under the node's name
    (`start_redis.sh` as `start_redis-$nodeid.sh`). -/
def scriptName (stem : String) (nodeid : Text) : Text :=
  stem.toList ++ '-' :: nodeid ++ ".sh".toList

/-- `cp "$nodeconfdir/stem.sh" "$cluster_home_dir/stem-$nodeid.sh"` -/
def copyScript (m : Machine) (c : Cluster) (stem : String) (nodeid : Text) : Script Shell Unit :=
  exec m (.cp (c.nodeconfdir nodeid ++ [(stem ++ ".sh").toList])
    (c.clusterHomeDir ++ pathWord (scriptName stem nodeid)))

/-- `chmod +x "$cluster_home_dir/stem-$nodeid.sh"` -/
def chmodScript (m : Machine) (c : Cluster) (stem : String) (nodeid : Text) : Script Shell Unit :=
  exec m (.chmodX (c.clusterHomeDir ++ pathWord (scriptName stem nodeid)))

/-- Lines 514–542: the files of a local node. -/
def deployFiles (m : Machine) (c : Cluster) (nodeid : Text) : Script Shell Unit := do
  let ports ← listSetting m c nodeid "ports".toList
  forEach ports fun port =>
    exec m (.cp (c.nodeConfFile nodeid port) (c.clusterHomeDir ++ ["conf".toList, []]))
  exec m (.cp (c.inConfig "create_cluster.sh".toList) c.homeSlash)
  copyScript m c "start_redis" nodeid
  copyScript m c "shutdown_redis" nodeid
  copyScript m c "connect_redis" nodeid
  exec m (.chmodX (c.inHome "create_cluster.sh".toList))
  chmodScript m c "start_redis" nodeid
  chmodScript m c "shutdown_redis" nodeid
  chmodScript m c "connect_redis" nodeid
  let tls ← isFileAt (c.inConfig clusterTlsNodes)
  whenever tls (do
    copyScript m c "tlsconnect_redis" nodeid
    chmodScript m c "tlsconnect_redis" nodeid)

/-- Lines 476–542: one pass of the loop over the nodes. -/
def deployNode (m : Machine) (c : Cluster) (nodeid : Text) : Script Shell Unit := do
  let addrs ← listSetting m c nodeid "addrs".toList
  let host ← setting m c nodeid "host".toList
  whenever (isCurrent m host addrs) (deployFiles m c nodeid)

/-- The subdirectories of the home directory that line 463 makes. -/
def homeSubdirs (c : Cluster) : List PathWord :=
  [c.clusterHomeDir ++ pathWord c.ini.rdbDirName, c.inHome "conf".toList, c.inHome "log".toList,
    c.inHome "run".toList, c.inHome "modules".toList]

/-- `PREFIX="$cluster_home_dir"` -/
def prefixArg (c : Cluster) : Text := "PREFIX=".toList ++ c.clusterHomeText

/-- The arguments of the two `make install` (lines 546–547). -/
def redisInstallArgs (c : Cluster) (_ : FS) (_ : Path) : List Text :=
  ["install".toList, prefixArg c]
def hiredisInstallArgs (c : Cluster) (_ : FS) (_ : Path) : List Text :=
  ["USE_SSL=1".toList, prefixArg c, "install".toList]

/-- Lines 546–547. -/
def deployInstall (m : Machine) (c : Cluster) : Script Shell Unit := do
  cdMake m c.redisBuildDir (redisInstallArgs c) (some c.clusterHomeDir)
  cdMake m c.hiredisBuildDir (hiredisInstallArgs c) (some c.clusterHomeDir)

/-- Lines 549–556. -/
def deployTail (m : Machine) (c : Cluster) : Script Shell Unit := do
  let tls ← isFileAt (c.inConfig clusterTlsNodes)
  whenever tls (do
    exec m (.cpR (c.clusterConfigDir ++ pathWord c.ini.tlsCacertdir) c.tlsCacertDir)
    exec m (.cp (c.inConfig clusterTlsNodes) c.homeSlash))
  exec m (.cp (c.inConfig "cluster_env.sh".toList) c.homeSlash)
  exec m (.cp (c.inConfig clusterAuthPass) c.homeSlash)

/-- Lines 445–556: all but the marker. -/
def deployBody (m : Machine) (c : Cluster) : Script Shell Unit := do
  let built ← isFileAt (c.inBuild buildSuccess)
  refuseIf (!built) .notBuilt
  let configured ← isFileAt (c.inConfig configSuccess)
  refuseIf (!configured) .notConfigured
  let deployed ← isFileAt (c.inHome clusterAllNodes)
  refuseIf deployed .alreadyDeployed
  exec m (.mkdirP (homeSubdirs c))
  let nodeslist ← nodesList m c
  forEach nodeslist (deployNode m c)
  deployInstall m c
  deployTail m c

/-- `cp "$cluster_config_dir/CLUSTER_ALL_NODES" "$cluster_home_dir/"` -/
def deployMarker (c : Cluster) : Cmd := .cp (c.inConfig clusterAllNodes) c.homeSlash

/-- `deploy` (lines 444–560). The copy of the list of the nodes is its marker. -/
def deploy (m : Machine) (c : Cluster) : Script Shell Unit := do
  deployBody m c
  exec m (deployMarker c)

end RedisCluster
