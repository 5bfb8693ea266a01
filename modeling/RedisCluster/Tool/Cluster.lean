import RedisCluster.Shell.Command
import RedisCluster.Common.Functions

/-!
# The variables of an invocation

What `redis_cluster.sh` reads before its phases run, and the paths it derives
(lines 51–154).
-/

namespace RedisCluster

open Errexit Script

/-- The variables that `redis_cluster.ini` assigns. -/
structure Ini where
  redisPkg : Text
  hiredisPkg : Text
  buildWithModules : Text
  clusterParentDir : Text
  redisAuthpassFile : Text
  rdbDirName : Text
  redisClusterReplicas : Text
  buildTlsMode : Text
  tlsEnabled : Text
  tlsCacertdir : Text
  tlsCacert : Text
  deriving DecidableEq

/-- The input directories of an invocation: the cluster's conf directory
    (`redis/conf/cluster.$clusterid`) with its ini file, its nodes file and the
    files named in them, the scripts of `redis/sbin`, and the packages of `pkgs`. -/
structure Inputs where
  ini : Option Ini
  nodesCfg : Option Text
  confFile : Text → Option Text
  sbinFile : Text → Option Text
  pkgFile : Text → Bool

/-- The requested actions (lines 62–79). -/
structure Flags where
  hasConfig : Bool
  hasBuild : Bool
  hasDeploy : Bool
  hasClean : Bool
  deriving DecidableEq

/-- The variables of an invocation that has passed the validation rules. `tool` is
    `$_thisdir`. -/
structure Cluster where
  tool : Path
  clusterid : Text
  inputs : Inputs
  ini : Ini
  nodesCfg : Text
  redisVerno : Text
  hiredisVerno : Text

def buildSuccess : Text := "BUILD_SUCCESS".toList
def configSuccess : Text := "CONFIG_SUCCESS".toList
def clusterAllNodes : Text := "CLUSTER_ALL_NODES".toList
def clusterTlsNodes : Text := "CLUSTER_TLS_NODES".toList
def clusterAuthPass : Text := "CLUSTER_AUTH_PASS".toList

/-- `$_thisdir/build/$clusterid` -/
def buildPath (tool : Path) (clusterid : Text) : Path := tool ++ ["build".toList, clusterid]

/-- `$_thisdir/config/$clusterid` -/
def configPath (tool : Path) (clusterid : Text) : Path := tool ++ ["config".toList, clusterid]

/-- An absolute path as a path word. -/
def absWord (p : Path) : PathWord := [] :: p

theorem target_absWord (p cwd : Path) : target cwd (absWord p) = target [] (absWord p) := rfl

namespace Cluster

variable (c : Cluster)

/-- Lines 85–86, 122, 150–154. -/
def clusterBuildDir : PathWord := absWord (buildPath c.tool c.clusterid)
def clusterConfigDir : PathWord := absWord (configPath c.tool c.clusterid)
def clusterHomeText : Text := c.ini.clusterParentDir ++ '/' :: c.clusterid
def clusterHomeDir : PathWord := pathWord c.clusterHomeText
def redisBuildDir : PathWord := c.clusterBuildDir ++ pathWord ("redis-".toList ++ c.redisVerno)
def hiredisBuildDir : PathWord := c.clusterBuildDir ++ pathWord ("hiredis-".toList ++ c.hiredisVerno)
def tlsCacertText : Text := c.clusterHomeText ++ '/' :: c.ini.tlsCacertdir
def tlsCacertDir : PathWord := c.clusterHomeDir ++ pathWord c.ini.tlsCacertdir

/-- `$cluster_build_dir/name`, `$cluster_config_dir/name`, `$cluster_home_dir/name` -/
def inBuild (name : Text) : PathWord := c.clusterBuildDir ++ [name]
def inConfig (name : Text) : PathWord := c.clusterConfigDir ++ [name]
def inHome (name : Text) : PathWord := c.clusterHomeDir ++ [name]

/-- `$cluster_home_dir/`, with the slash that makes a copy go into it. -/
def homeSlash : PathWord := c.clusterHomeDir ++ [[]]

/-- `nodeconfdir="$cluster_config_dir/$nodeid"` (lines 308, 479). -/
def nodeconfdir (nodeid : Text) : PathWord := c.clusterConfigDir ++ pathWord nodeid

/-- `redis-$nodeid-$port.conf` -/
def confName (nodeid port : Text) : Text :=
  "redis-".toList ++ nodeid ++ '-' :: port ++ ".conf".toList

/-- `node_conf_file="$nodeconfdir/redis-$nodeid-$port.conf"` (lines 349, 522). -/
def nodeConfFile (nodeid port : Text) : PathWord :=
  c.nodeconfdir nodeid ++ pathWord (confName nodeid port)

end Cluster

/-- `$(read_cfg "$cluster_nodes_cfg" s k)` -/
def setting (m : Machine) (c : Cluster) (s k : Text) : Script Shell Text :=
  look fun sh => commandSubst (readCfg m sh.fs sh.cwd c.nodesCfg s k)

/-- `x=$(read_cfg "$cluster_nodes_cfg" s k)`, then
    `xlist=($(echo "$x" | awk -F[,] '{ for(i=1; i<=NF; i++) print $i; }'))`. -/
def listSetting (m : Machine) (c : Cluster) (s k : Text) : Script Shell (List Text) :=
  look fun sh =>
    listWords m sh.fs sh.cwd (commandSubst (readCfg m sh.fs sh.cwd c.nodesCfg s k))

/-- `nodeslist` (lines 299–300, 470–471). -/
def nodesList (m : Machine) (c : Cluster) : Script Shell (List Text) :=
  listSetting m c "redis_cluster".toList "nodes".toList

end RedisCluster
