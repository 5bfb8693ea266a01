import RedisCluster.Tool.Clean
import RedisCluster.Tool.Build
import RedisCluster.Tool.Config
import RedisCluster.Tool.Deploy

/-!
# The script

Lines 51–154 and 562–569 of `redis_cluster.sh`: the action flags, the validation
rules and the dispatch, and whole invocations one after the other.
-/

namespace RedisCluster

open Errexit Script

/-! ## Actions and validation -/

/-- `reserved_clusterids` (line 52). -/
def reservedClusterids : List Text :=
  ["default", "redis", "config", "deploy", "clean", "all", "build", "standalone",
    "distributed"].map String.toList

/-- Lines 62–79. -/
def flagsOf (actions : List Text) : Flags :=
  let all := arrayFind actions "ALL".toList != -1
  { hasConfig := all || arrayFind actions "config".toList != -1
    hasBuild := all || arrayFind actions "build".toList != -1
    hasDeploy := all || arrayFind actions "deploy".toList != -1
    hasClean := arrayFind actions "clean".toList != -1 }

def isIdStart (c : Char) : Bool := 'a' ≤ c && c ≤ 'z'
def isIdChar (c : Char) : Bool := isIdStart c || c.isDigit || c == '_'

/-- `[[ "$clusterid" =~ ^[a-z][a-z0-9_]{5,}$ ]]` (line 94). -/
def isClusterid : Text → Bool
  | [] => false
  | c :: cs => isIdStart c && cs.all isIdChar && 5 ≤ cs.length

/-- An id that the first two validation rules accept. -/
def AcceptedId (id : Text) : Prop := isClusterid id = true ∧ id ∉ reservedClusterids

instance (id : Text) : Decidable (AcceptedId id) := inferInstanceAs (Decidable (_ ∧ _))

/-- `${pkg%.tar.gz*}`: what precedes the last `.tar.gz`. -/
def stripTarGz (pkg : Text) : Text :=
  match (pkg.inits.filter fun p => ".tar.gz".toList <+: pkg.drop p.length).getLast? with
  | some p => p
  | none => pkg

/-- `$(echo "$t" | awk -F '[-]' '{print $n}')`, with the fields counted from zero. -/
def dashField (m : Machine) (n : ℕ) (t : Text) : Text :=
  commandSubst ((records (echo m [t])).flatMap fun r => (r.splitOn '-').getD n [] ++ ['\n'])

/-- The name and the version number of a package. -/
def pkgName (m : Machine) (pkg : Text) : Text := dashField m 0 (stripTarGz pkg)
def pkgVerno (m : Machine) (pkg : Text) : Text := dashField m 1 (stripTarGz pkg)

/-- `if [[ ${major_verno} -lt bound ]]; then exit 1; fi`; an operand that is no
    number makes the test fail, and an unset name in it stops the script. -/
def refuseOld (m : Machine) (major : Text) (bound : ℤ) (r : Refusal) : Script Shell Unit :=
  match arith m major with
  | .value n => refuseIf (decide (n < bound)) r
  | .malformed => pure ()
  | .unbound => stop

/-- Lines 125–135 and 138–148: a package has to have the name and at least the
    major version; its version number is the result. -/
def checkPkg (m : Machine) (pkg name : Text) (bound : ℤ) (wrongName old : Refusal) :
    Script Shell Text := do
  refuseIf (pkgName m pkg != name) wrongName
  let major ← look fun s => vernoMajorId m s.fs s.cwd (pkgVerno m pkg)
  require major.isSome
  refuseOld m (major.getD []) bound old
  pure (pkgVerno m pkg)

/-- Lines 81–154: the validation rules, for `$1` and the files of its conf directory. -/
def validate (m : Machine) (tool : Path) (clusterid : Text) (inputs : Inputs) :
    Script Shell Cluster := do
  refuseIf (!isClusterid clusterid) .badClusterid
  refuseIf (decide (clusterid ∈ reservedClusterids)) .reservedClusterid
  match inputs.ini, inputs.nodesCfg with
  | some ini, some nodesCfg =>
    let redisVerno ← checkPkg m ini.redisPkg "redis".toList 7 .notRedisPkg .oldRedis
    let hiredisVerno ← checkPkg m ini.hiredisPkg "hiredis".toList 1 .notHiredisPkg .oldHiredis
    pure { tool, clusterid, inputs, ini, nodesCfg, redisVerno, hiredisVerno }
  | none, _ => do
    refuseIf true .noIniFile
    stop
  | some _, none => do
    refuseIf true .noNodesCfg
    stop

/-! ## Dispatch -/

/-- Lines 563–569. -/
def dispatch (m : Machine) (c : Cluster) (f : Flags) : Script Shell Unit :=
  if f.hasClean then clean m c f
  else do
    whenever f.hasBuild (build m c)
    whenever f.hasConfig (config m c)
    whenever f.hasDeploy (deploy m c)

/-- `actions` (line 68). -/
def actionsOf (m : Machine) (fs : FS) (cwd : Path) (args : List Text) : List Text :=
  listWords m fs cwd (join args)

/-- The script, with `$_thisdir` and its arguments. -/
def main (m : Machine) (tool : Path) (inputs : Text → Inputs) (args : List Text) :
    Script Shell Unit := do
  let actions ← look fun s => actionsOf m s.fs s.cwd args
  match args with
  | [] => stop
  | clusterid :: _ => do
    let c ← validate m tool clusterid (inputs clusterid)
    dispatch m c (flagsOf actions)

/-! ## Invocations -/

/-- One invocation of the script: the machine it runs on, its arguments, its input
    directories (for each cluster id), the directory it is started in, the answers
    typed at its prompts and the faults that strike its commands. -/
structure Invocation where
  machine : Machine
  args : List Text
  inputs : Text → Inputs
  cwd : Path
  answers : List Text
  faults : List (Option Fault)

/-- The state an invocation begins in. -/
def Invocation.start (inv : Invocation) (fs : FS) : Shell where
  fs := fs
  cwd := inv.cwd
  answers := inv.answers
  faults := inv.faults
  trace := []

/-- The run of an invocation on a tree. -/
def Invocation.run (inv : Invocation) (tool : Path) (fs : FS) : Option Unit × Shell :=
  (main inv.machine tool inv.inputs inv.args).run (inv.start fs)

/-- The tree after a sequence of invocations. -/
def history (tool : Path) : List Invocation → FS → FS
  | [], fs => fs
  | inv :: invs, fs => history tool invs (inv.run tool fs).2.fs

/-! ## A small cluster -/

/-- The shipped settings. -/
def demoIni : Ini where
  redisPkg := "redis-8.2.0.tar.gz".toList
  hiredisPkg := "hiredis-1.30.tar.gz".toList
  buildWithModules := "no".toList
  clusterParentDir := "/opt".toList
  redisAuthpassFile := "PASS".toList
  rdbDirName := "rdb".toList
  redisClusterReplicas := "1".toList
  buildTlsMode := "yes".toList
  tlsEnabled := "no".toList
  tlsCacertdir := "certs".toList
  tlsCacert := "ca.crt".toList

/-- One node with one port. -/
def demoNodesCfg : Text :=
  "[redis_cluster]\nnodes=\"n1\"\n[n1]\nhost=\"h1\"\nconf=\"c0\"\naddrs=\"a1\"\nports=\"6377\"\n".toList

/-- A conf directory with a template `c0` and a password file, and `redis/sbin` with
    one text for all its templates. -/
def demoInputs (ini : Ini) (nodesCfg template password script : Text) : Inputs where
  ini := some ini
  nodesCfg := some nodesCfg
  confFile name :=
    if name = "c0".toList then some template
    else if name = "PASS".toList then some password else none
  sbinFile _ := some script
  pkgFile _ := true

/-- The tool in `/rct`, for the cluster `mycluster`. -/
def demoCluster (ini : Ini) (inputs : Inputs) : Cluster where
  tool := ["rct".toList]
  clusterid := "mycluster".toList
  inputs := inputs
  ini := ini
  nodesCfg := inputs.nodesCfg.getD []
  redisVerno := "8.2.0".toList
  hiredisVerno := "1.30".toList

/-- The settings of the one instance, when the password is `s`. -/
def demoInstance : Instance where
  nodeid := "n1".toList
  host := "h1".toList
  port := "6377".toList
  addrstr := "a1".toList
  redisAuthPass := "s".toList

/-- A run that begins in a tree with nothing but its root, and meets no fault. -/
def demoShell : Shell where
  fs p := if p = [] then some .dir else none
  cwd := []
  answers := []
  faults := []
  trace := []

end RedisCluster
