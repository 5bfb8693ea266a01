import RedisCluster.Tool.Runs

/-!
# The files that `config()` writes

`config()` writes files of a few names only, and copies the password file to
`CLUSTER_AUTH_PASS`; every other entry of `$cluster_config_dir` keeps its data.

* `ConfigAct.touches`: what the commands of `config()` touch.
* `configBody_dataAt_eq`: a file of another name is left as it was, in every run.
-/

namespace RedisCluster

open FileTree Errexit Script

/-- What `$cluster_config_dir` leads to. -/
def Cluster.configTarget (c : Cluster) : Path := target [] c.clusterConfigDir

/-- `$cluster_config_dir/name` -/
def Cluster.configEntry (c : Cluster) (name : Text) : Path := c.configTarget ++ [name]

theorem target_inConfig (c : Cluster) {n : Text} (h : IsName n) (cwd : Path) :
    target cwd (c.inConfig n) = c.configEntry n := target_append_name h cwd _

/-- The names of the files that `config()` writes, the instance confs, its marker and
    the copy of the password file aside. -/
def configNames : List Text :=
  [clusterAllNodes, "start_redis.sh".toList, "shutdown_redis.sh".toList,
    "connect_redis.sh".toList, "cluster_env.sh".toList, "create_cluster.sh".toList]

/-- These, and the names of instance confs. -/
def IsConfigName (n : Text) : Prop := n ∈ configNames ∨ ".conf".toList <:+ n

instance (n : Text) : Decidable (IsConfigName n) :=
  inferInstanceAs (Decidable (n ∈ configNames ∨ ".conf".toList <:+ n))

theorem lastName_nodeConfFile (c : Cluster) (nodeid port : Text) :
    ".conf".toList <:+ lastName (c.nodeConfFile nodeid port) := by
  have hdot : '/' ∉ ".conf".toList := by decide
  have hlast : lastName (c.nodeConfFile nodeid port) =
      lastName (pathWord (Cluster.confName nodeid port)) := lastName_append (pathWord_ne_nil _)
  rw [hlast]
  exact ⟨_, (lastName_pathWord_append _ hdot).symm⟩

variable {m : Machine} {c : Cluster}

/-- The file that a write or a copy makes has the last component of its word for a name. -/
theorem name_of_touches {cm : Cmd} {dest : PathWord} {cwd : Path} {fs : FS} {p : Path}
    (hcm : (∃ t, cm = .write dest t) ∨ (∃ t, cm = .append dest t) ∨ ∃ pl, cm = .pipeline pl dest)
    (h : cm.touches m cwd fs p = true) : ∃ d, p = d ++ [lastName dest] := by
  rcases hcm with ⟨t, rfl⟩ | ⟨t, rfl⟩ | ⟨pl, rfl⟩ <;>
    exact exists_of_fileTarget (of_decide_eq_true h)

/-- The copy of the password file goes to `CLUSTER_AUTH_PASS`, or into a directory of that
    name. -/
theorem authPass_touches {source : Option Text} {name : Text} {cwd : Path} {fs : FS} {p : Path}
    (h : (Cmd.copyIn source name (c.inConfig clusterAuthPass)).touches m cwd fs p = true) :
    c.configEntry clusterAuthPass <+: p := by
  have htarget : target cwd (c.inConfig clusterAuthPass) = c.configEntry clusterAuthPass :=
    target_inConfig c (by decide +kernel) cwd
  have h := of_decide_eq_true h
  rw [copyTarget] at h
  split at h
  · obtain ⟨hr, hname, -⟩ := fileTarget_eq_some_iff.mp h
    rw [lastName_snoc] at hname
    rw [resolve_eq_target hr, target_append_name hname, htarget]
    exact List.prefix_append _ _
  · rw [resolve_eq_target (fileTarget_eq_some_iff.mp h).1, htarget]

/-- What the commands of `config()` touch. -/
theorem ConfigAct.touches {a : Act} (ha : ConfigAct m c a) {cm : Cmd} (hcm : a.Issues cm)
    {cwd : Path} {fs : FS} {p : Path} (h : cm.touches m cwd fs p = true) :
    (∃ d n, p = d ++ [n] ∧ IsConfigName n) ∨ c.configEntry clusterAuthPass <+: p := by
  cases ha with
  | configDir | nodeDir =>
    cases hcm
    cases h
  | authPass =>
    cases hcm
    exact Or.inr (authPass_touches h)
  | noNodes =>
    cases hcm
    obtain ⟨d, hd⟩ := name_of_touches (Or.inl ⟨_, rfl⟩) h
    exact Or.inl ⟨d, _, hd, by simp [IsConfigName, configNames, Cluster.inConfig]⟩
  | addNode =>
    cases hcm
    obtain ⟨d, hd⟩ := name_of_touches (Or.inr (Or.inl ⟨_, rfl⟩)) h
    exact Or.inl ⟨d, _, hd, by simp [IsConfigName, configNames, Cluster.inConfig]⟩
  | conf =>
    cases hcm
    obtain ⟨d, hd⟩ := name_of_touches (Or.inr (Or.inr ⟨_, rfl⟩)) h
    exact Or.inl ⟨d, _, hd, Or.inr (lastName_nodeConfFile c _ _)⟩
  | start | shutdown | connect | env | create =>
    cases hcm
    obtain ⟨d, hd⟩ := name_of_touches (Or.inr (Or.inr ⟨_, rfl⟩)) h
    exact Or.inl ⟨d, _, hd, by simp [IsConfigName, configNames, Cluster.inConfig]⟩

/-- An entry of `$cluster_config_dir` with another name is not touched. -/
theorem ConfigAct.not_touches_entry {a : Act} (ha : ConfigAct m c a) {cm : Cmd}
    (hcm : a.Issues cm) {n : Text} (hname : ¬ IsConfigName n) (hauth : n ≠ clusterAuthPass)
    (cwd : Path) (fs : FS) : cm.touches m cwd fs (c.configEntry n) = false := by
  rw [Bool.eq_false_iff]
  intro h
  rcases ha.touches hcm h with ⟨d, n', hd, hn'⟩ | ⟨r, hr⟩
  · have hlast : [n] = [n'] := List.append_inj_right' hd rfl
    exact hname (List.singleton_inj.mp hlast ▸ hn')
  · have hlen : ([clusterAuthPass] ++ r).length = [n].length := by
      rw [Cluster.configEntry, Cluster.configEntry, List.append_assoc] at hr
      exact congrArg List.length (List.append_cancel_left hr)
    have hnil : r = [] := by simpa using hlen
    rw [hnil, List.append_nil] at hr
    have hlast : [clusterAuthPass] = [n] := List.append_cancel_left hr
    exact hauth (List.singleton_inj.mp hlast).symm

/-- **A file of another name** in `$cluster_config_dir` is left as it was by every run of
    `config()`, completed or not, the marker aside. -/
theorem configBody_dataAt_eq {n : Text} (hname : ¬ IsConfigName n) (hauth : n ≠ clusterAuthPass)
    (s : Shell) :
    dataAt ((configBody m c).run s).2.fs (c.configEntry n) = dataAt s.fs (c.configEntry n) := by
  have hkeeps := (built_configBody m c).keeps_commands
    (I := fun t => dataAt t.fs (c.configEntry n) = dataAt s.fs (c.configEntry n)) ?_ ?_
  · exact hkeeps s rfl
  · intro a ha cm hcm t ht
    have hframe := (t.changes_after m cm).dataAt_eq (p := c.configEntry n)
      (by simp [ha.not_touches_entry hcm hname hauth])
    rw [hframe, ht]
  · intro t e as _ ht
    exact ht

end RedisCluster
