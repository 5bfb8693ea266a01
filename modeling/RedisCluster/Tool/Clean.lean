import RedisCluster.Tool.Cluster

/-!
# `clean`

Lines 166–214 of `redis_cluster.sh`.
-/

namespace RedisCluster

open Errexit Script

/-- `[[ "$confirm" == [Yy][Ee][Ss] || "$confirm" == [Yy] ]]` -/
def isYes : Text → Bool
  | [y] => y == 'Y' || y == 'y'
  | [y, e, s] => (y == 'Y' || y == 'y') && (e == 'E' || e == 'e') && (s == 'S' || s == 's')
  | _ => false

/-- Ask, and remove the directory on a yes. -/
def confirmRemoval (m : Machine) (q : Question) (dir : PathWord) : Script Shell Unit := do
  let confirm ← ask q
  whenever (isYes confirm) (exec m (.rmRf dir))

/-- One of the first two blocks of `clean()`. -/
def cleanDir (m : Machine) (q : Question) (dir : PathWord) : Script Shell Unit := do
  let there ← isDirAt dir
  whenever there (confirmRemoval m q dir)

/-- `clean` (lines 166–214). The last block tests the directory first and the flag
    after it. -/
def clean (m : Machine) (c : Cluster) (f : Flags) : Script Shell Unit := do
  whenever f.hasBuild (cleanDir m .removeBuild c.clusterBuildDir)
  whenever f.hasConfig (cleanDir m .removeConfig c.clusterConfigDir)
  let there ← isDirAt c.clusterHomeDir
  whenever there (whenever f.hasDeploy (confirmRemoval m .removeHome c.clusterHomeDir))

end RedisCluster
