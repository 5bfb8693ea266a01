import RedisCluster.Tool.Plain

/-!
# What stands in the files of `config()`

The content of a file after a completed run: what the last command that wrote it has put
there, as no later one touches it.

* `contentOf_of_exec`: a command that does not touch a path leaves its content.
* `contentOf_of_write`, `contentOf_of_append`, `contentOf_of_pipeline`: what the writing
  commands put there.
* `config_allNodes`: `CLUSTER_ALL_NODES` lists every port of every node, in order.
* `config_clusterEnv`: `cluster_env.sh` is what its pipeline prints.
-/

namespace RedisCluster

open FileTree Errexit Script

variable {m : Machine} {c : Cluster} {s t : Shell}

/-! ## Commands -/

theorem contentOf_of_exec {cm : Cmd} {p : Path} (htouch : cm.touches m s.cwd s.fs p = false)
    (h : (exec m cm).run s = (some (), t)) : contentOf t.fs p = contentOf s.fs p := by
  obtain ⟨-, rfl⟩ := exec_eq_some_iff.mp h
  rw [contentOf, (s.changes_after m cm).dataAt_eq (by simp [htouch]), contentOf]

theorem contentOf_putContent (fs : FS) (p : Path) (x : Text) :
    contentOf (putContent fs p x) p = some x := by
  simp [contentOf, dataAt, putContent]

theorem contentOf_of_write {dest : PathWord} {x : Text}
    (h : (exec m (.write dest x)).run s = (some (), t)) :
    contentOf t.fs (target s.cwd dest) = some x := by
  obtain ⟨hok, rfl⟩ := exec_eq_some_iff.mp h
  rw [Shell.after_fs_of_ok hok]
  rw [Shell.run_of_outcome hok] at hok
  simp only [Cmd.run] at hok ⊢
  cases htarget : fileTarget s.fs s.cwd dest with
  | none => simp [htarget] at hok
  | some p =>
    rw [← resolve_eq_target (fileTarget_eq_some_iff.mp htarget).1]
    exact contentOf_putContent _ _ _

theorem contentOf_of_append {dest : PathWord} {x y : Text}
    (hbefore : contentOf s.fs (target s.cwd dest) = some y)
    (h : (exec m (.append dest x)).run s = (some (), t)) :
    contentOf t.fs (target s.cwd dest) = some (y ++ x) := by
  obtain ⟨hok, rfl⟩ := exec_eq_some_iff.mp h
  rw [Shell.after_fs_of_ok hok]
  rw [Shell.run_of_outcome hok] at hok
  simp only [Cmd.run] at hok ⊢
  cases htarget : fileTarget s.fs s.cwd dest with
  | none => simp [htarget] at hok
  | some p =>
    have hp := resolve_eq_target (fileTarget_eq_some_iff.mp htarget).1
    rw [← hp, contentOf] at hbefore
    rw [← hp]
    simp only [hbefore]
    exact contentOf_putContent _ _ _

theorem contentOf_of_pipeline {pl : Pipeline} {dest : PathWord}
    (h : (exec m (.pipeline pl dest)).run s = (some (), t)) :
    contentOf t.fs (target s.cwd dest) = some (pl.output m) := by
  obtain ⟨hok, rfl⟩ := exec_eq_some_iff.mp h
  rw [Shell.after_fs_of_ok hok]
  rw [Shell.run_of_outcome hok] at hok
  simp only [Cmd.run] at hok ⊢
  cases htarget : fileTarget s.fs s.cwd dest with
  | none => simp [htarget] at hok
  | some p =>
    rw [← resolve_eq_target (fileTarget_eq_some_iff.mp htarget).1]
    simp only [htarget] at hok ⊢
    split at hok
    · next hopens =>
      rw [if_pos hopens]
      exact contentOf_putContent _ _ _
    · cases hok

theorem lastName_inConfig (c : Cluster) (n : Text) : lastName (c.inConfig n) = n := lastName_snoc _ _

/-- A write under another name does not touch a path. -/
theorem not_touches_of_lastName {cm : Cmd} {dest : PathWord}
    (hcm : (∃ x, cm = .write dest x) ∨ (∃ x, cm = .append dest x) ∨ ∃ pl, cm = .pipeline pl dest)
    {n : Text} (hname : lastName dest ≠ n) (cwd : Path) (fs : FS) (d : Path) :
    cm.touches m cwd fs (d ++ [n]) = false := by
  rw [Bool.eq_false_iff]
  intro htouch
  obtain ⟨d', hd⟩ := name_of_touches hcm htouch
  exact hname (List.singleton_inj.mp (List.append_inj_right' hd rfl)).symm

/-- The copy of the password file does not touch another entry. -/
theorem not_touches_authPass {source : Option Text} {name n : Text} (hname : n ≠ clusterAuthPass)
    (cwd : Path) (fs : FS) :
    (Cmd.copyIn source name (c.inConfig clusterAuthPass)).touches m cwd fs (c.configEntry n) =
      false := by
  rw [Bool.eq_false_iff]
  intro htouch
  obtain ⟨r, hr⟩ := authPass_touches htouch
  rw [Cluster.configEntry, Cluster.configEntry, List.append_assoc] at hr
  have hcons := List.append_cancel_left hr
  rw [List.singleton_append] at hcons
  exact hname (List.cons.inj hcons).1.symm

/-! ## `CLUSTER_ALL_NODES` -/

/-- The line of an instance. -/
def instanceLine (m : Machine) (host port : Text) : Text := echo m [host ++ ':' :: port]

/-- The lines of a node, as a state reads it. -/
def nodeLines (m : Machine) (c : Cluster) (s : Shell) (nodeid : Text) : Text :=
  (nodeAt m c s nodeid).ports.flatMap (instanceLine m (nodeAt m c s nodeid).host)

/-- `CLUSTER_ALL_NODES` has the text `x`. -/
def AllNodesHas (c : Cluster) (s : Shell) (x : Text) : Prop :=
  contentOf s.fs (c.configEntry clusterAllNodes) = some x

theorem AllNodesHas.of_exec {x : Text} (h : AllNodesHas c s x) {cm : Cmd}
    (htouch : cm.touches m s.cwd s.fs (c.configEntry clusterAllNodes) = false)
    (hrun : (exec m cm).run s = (some (), t)) : AllNodesHas c t x :=
  (contentOf_of_exec htouch hrun).trans h

theorem AllNodesHas.of_pipeline {x : Text} (h : AllNodesHas c s x) {pl : Pipeline} {dest : PathWord}
    (hname : lastName dest ≠ clusterAllNodes)
    (hrun : (exec m (.pipeline pl dest)).run s = (some (), t)) : AllNodesHas c t x :=
  h.of_exec (not_touches_of_lastName (Or.inr (Or.inr ⟨_, rfl⟩)) hname _ _ _) hrun

theorem lastName_nodeConfFile_ne (c : Cluster) (nodeid port : Text) :
    lastName (c.nodeConfFile nodeid port) ≠ clusterAllNodes := by
  intro he
  have hsuffix := lastName_nodeConfFile c nodeid port
  rw [he] at hsuffix
  exact absurd hsuffix (by decide +kernel)

/-- A pass over a port appends its line. -/
theorem AllNodesHas.of_configInstance {x pass : Text} {n : Node} (hn : n.tls = none) {p : Text × ℕ}
    (h : AllNodesHas c s x) (hrun : (configInstance m c pass n p).run s = (some (), t)) :
    AllNodesHas c t (x ++ instanceLine m n.host p.1) := by
  obtain ⟨s₁, hadd, hconf⟩ := (configInstance_eq_some_iff hn).mp hrun
  have htarget : target s.cwd (c.inConfig clusterAllNodes) = c.configEntry clusterAllNodes :=
    target_inConfig c (by decide +kernel) s.cwd
  rw [AllNodesHas, ← htarget] at h
  have h₁ := contentOf_of_append h hadd
  rw [htarget] at h₁
  exact AllNodesHas.of_pipeline h₁ (lastName_nodeConfFile_ne c _ _) hconf

theorem AllNodesHas.of_configScripts {x : Text} {n : Node} (hn : n.tls = none) (h : AllNodesHas c s x)
    (hrun : (configScripts m c n).run s = (some (), t)) : AllNodesHas c t x := by
  obtain ⟨s₁, h₁, s₂, h₂, s₃, h₃, h₄⟩ := (configScripts_eq_some_iff hn).mp hrun
  have a₁ := h.of_exec (not_touches_authPass (by decide +kernel) _ _) h₁
  have a₂ := a₁.of_pipeline (by rw [lastName_snoc]; decide +kernel) h₂
  have a₃ := a₂.of_pipeline (by rw [lastName_snoc]; decide +kernel) h₃
  exact a₃.of_pipeline (by rw [lastName_snoc]; decide +kernel) h₄

/-- The list of the instances is read alike in all states. -/
structure StableInstances (m : Machine) (c : Cluster) : Prop where
  nodes : ∀ s t, nodesAt m c s = nodesAt m c t
  host : ∀ s t id, Listed m c id →
    settingAt m c s id "host".toList = settingAt m c t id "host".toList
  ports : ∀ s t id, Listed m c id →
    listAt m c s id "ports".toList = listAt m c t id "ports".toList

theorem StableInstances.nodeLines_eq (h : StableInstances m c) (s t : Shell) {nodeid : Text}
    (hid : Listed m c nodeid) : nodeLines m c s nodeid = nodeLines m c t nodeid := by
  simp only [nodeLines, nodeAt, h.host s t nodeid hid, h.ports s t nodeid hid]

/-- A pass over a node appends the lines of its ports. -/
theorem AllNodesHas.of_configNode (hstable : StableInstances m c) (u : Shell) {x pass nodeid : Text}
    (hid : Listed m c nodeid) (h : AllNodesHas c s x)
    (hrun : (configNode m c pass nodeid).run s = (some (), t)) :
    AllNodesHas c t (x ++ nodeLines m c u nodeid) := by
  obtain ⟨s₁, hmk, s₂, hconfs, hscripts⟩ := configNode_eq_some_iff.mp hrun
  have htls := nodeAt_tls (m := m) (c := c) s₁ nodeid
  have h₁ := h.of_exec rfl hmk
  rw [hstable.nodeLines_eq u s₁ hid, nodeLines]
  generalize nodeAt m c s₁ nodeid = n at hconfs hscripts htls
  have h₂ := forEach_flatMap (V := AllNodesHas c) (f := fun p => instanceLine m n.host p.1)
    (fun p _ _ _ _ hv hp => hv.of_configInstance htls hp) h₁ hconfs
  have hports : n.ports.zipIdx.flatMap (fun p => instanceLine m n.host p.1) =
      n.ports.flatMap (instanceLine m n.host) := by
    rw [← List.flatMap_map, List.zipIdx_map_fst]
  rw [hports] at h₂
  exact h₂.of_configScripts htls hscripts

/-- The text of `CLUSTER_ALL_NODES`, as a state reads the nodes. -/
def allNodesText (m : Machine) (c : Cluster) (s : Shell) : Text :=
  (nodesAt m c s).flatMap (nodeLines m c s)

/-- **`CLUSTER_ALL_NODES`** lists every port of every node, in order, whatever it had before. -/
theorem config_allNodes (hstable : StableInstances m c) (hrun : (config m c).run s = (some (), t)) :
    contentOf t.fs (c.configEntry clusterAllNodes) = some (allNodesText m c s) := by
  obtain ⟨u, hbody, hmarker⟩ := config_eq_some_iff.mp hrun
  obtain ⟨-, s₁, hmk, -, s₂, hwrite, s₃, hloop, htail⟩ := configBody_eq_some_iff.mp hbody
  obtain ⟨s₄, henv, hcreate⟩ := configTail_eq_some_iff.mp htail
  have h₂ : AllNodesHas c s₂ [] := by
    rw [AllNodesHas, ← target_inConfig c (by decide +kernel) s₁.cwd]
    exact contentOf_of_write hwrite
  have h₃ : AllNodesHas c s₃ (allNodesText m c s) := by
    rw [hstable.nodes s₂ s] at hloop
    have hbody : ∀ nodeid ∈ nodesAt m c s, ∀ v w l, AllNodesHas c v l →
        (configNode m c (c.redisAuthPass.getD []) nodeid).run v = (some (), w) →
        AllNodesHas c w (l ++ nodeLines m c s nodeid) :=
      fun _ hid _ _ _ hv hnode => hv.of_configNode hstable s (listed_of_mem_nodesAt hid) hnode
    have hall := forEach_flatMap hbody h₂ hloop
    rw [List.nil_append] at hall
    unfold allNodesText
    exact hall
  have h₄ := h₃.of_pipeline (by rw [lastName_inConfig]; decide +kernel) henv
  have h₅ := h₄.of_pipeline (by rw [lastName_inConfig]; decide +kernel) hcreate
  exact h₅.of_exec (not_touches_of_lastName (Or.inl ⟨_, rfl⟩)
    (by rw [lastName_inConfig]; decide +kernel) _ _ _) hmarker

/-- **`cluster_env.sh`** is what its pipeline prints. -/
theorem config_clusterEnv (hrun : (config m c).run s = (some (), t)) :
    contentOf t.fs (c.configEntry "cluster_env.sh".toList) = some ((clusterEnv c).output m) := by
  obtain ⟨u, hbody, hmarker⟩ := config_eq_some_iff.mp hrun
  obtain ⟨-, s₁, -, -, s₂, -, s₃, -, htail⟩ := configBody_eq_some_iff.mp hbody
  obtain ⟨s₄, henv, hcreate⟩ := configTail_eq_some_iff.mp htail
  have h₄ := contentOf_of_pipeline henv
  rw [target_inConfig c (by decide +kernel)] at h₄
  have h₅ := contentOf_of_exec (p := c.configEntry "cluster_env.sh".toList)
    (not_touches_of_lastName (Or.inr (Or.inr ⟨_, rfl⟩))
      (by rw [lastName_inConfig]; decide +kernel) _ _ _) hcreate
  have h₆ := contentOf_of_exec (p := c.configEntry "cluster_env.sh".toList)
    (not_touches_of_lastName (Or.inl ⟨_, rfl⟩)
      (by rw [lastName_inConfig]; decide +kernel) _ _ _) hmarker
  rw [h₆, h₅, h₄]

end RedisCluster
