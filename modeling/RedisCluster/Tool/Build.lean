import RedisCluster.Tool.Cluster

/-!
# `build`

Lines 217–262 of `redis_cluster.sh`.
-/

namespace RedisCluster

open Errexit Script

/-- `BUILD_WITH_MODULES=$build_with_modules BUILD_TLS="$build_tls_mode"`: the first
    argument is not quoted, and so split and expanded. -/
def redisMakeArgs (m : Machine) (ini : Ini) (fs : FS) (cwd : Path) : List Text :=
  unquoted m fs cwd ("BUILD_WITH_MODULES=".toList ++ ini.buildWithModules) ++
    ["BUILD_TLS=".toList ++ ini.buildTlsMode]

/-- `USE_SSL=1` -/
def hiredisMakeArgs (_ : FS) (_ : Path) : List Text := ["USE_SSL=1".toList]

/-- Lines 218–259: all but the marker. -/
def buildBody (m : Machine) (c : Cluster) : Script Shell Unit := do
  let done ← isFileAt (c.inBuild buildSuccess)
  refuseIf done .alreadyBuilt
  exec m (.mkdirP [c.clusterBuildDir])
  refuseIf (!c.inputs.pkgFile c.ini.redisPkg) .noRedisPkg
  refuseIf (!c.inputs.pkgFile c.ini.hiredisPkg) .noHiredisPkg
  let redisThere ← isDirAt c.redisBuildDir
  refuseIf redisThere .redisDirExists
  let hiredisThere ← isDirAt c.hiredisBuildDir
  refuseIf hiredisThere .hiredisDirExists
  exec m (.tar c.ini.redisPkg c.clusterBuildDir)
  exec m (.tar c.ini.hiredisPkg c.clusterBuildDir)
  cdMake m c.redisBuildDir (redisMakeArgs m c.ini) none
  cdMake m c.hiredisBuildDir hiredisMakeArgs none

/-- `echo "BUILD_SUCCESS" > "$cluster_build_dir/BUILD_SUCCESS"` -/
def buildMarker (m : Machine) (c : Cluster) : Cmd :=
  .write (c.inBuild buildSuccess) (echo m [buildSuccess])

/-- `build` (lines 217–262). -/
def build (m : Machine) (c : Cluster) : Script Shell Unit := do
  buildBody m c
  exec m (buildMarker m c)

end RedisCluster
