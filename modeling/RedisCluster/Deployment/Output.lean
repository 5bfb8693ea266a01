import RedisCluster.Deployment.Rendered

/-!
# What `config()` leaves

The whole of `$cluster_config_dir` after a completed `config()` that has found it empty: which
files and directories are there, with what content, and that there are no others.

* `ConfigOutput`: what is there, and where.
* `Tidy`: the directories are those of nodes, and the files are outputs; each command keeps it.
* `config_hasOutputs`: the directory after a completed run.
-/

namespace RedisCluster

open FileTree Errexit Script

/-- What `config()` leaves in an empty directory, and where. -/
inductive ConfigOutput (m : Machine) (c : Cluster) (s : Shell) : Path → FileTree.Node File → Prop
  | allNodes : ConfigOutput m c s (c.configEntry clusterAllNodes)
      (.file ⟨allNodesText m c s, false⟩)
  | authPass {text : Text} (hnodes : nodesAt m c s ≠ [])
      (htext : c.inputs.confFile c.ini.redisAuthpassFile = some text) :
      ConfigOutput m c s (c.configEntry clusterAuthPass) (.file ⟨text, false⟩)
  | nodeDir {id : Text} (hid : id ∈ nodesAt m c s) : ConfigOutput m c s (c.configEntry id) .dir
  | nodeFile {id name : Text} {p : Pipeline} (hid : id ∈ nodesAt m c s)
      (hp : NodeFile m c id name p) :
      ConfigOutput m c s (c.configEntry id ++ [name]) (.file ⟨p.output m, false⟩)
  | clusterEnv : ConfigOutput m c s (c.configEntry "cluster_env.sh".toList)
      (.file ⟨(clusterEnv c).output m, false⟩)
  | createCluster : ConfigOutput m c s (c.configEntry "create_cluster.sh".toList)
      (.file ⟨(createCluster c).output m, false⟩)
  | marker : ConfigOutput m c s (c.configEntry configSuccess) (.file ⟨echo m [configSuccess], false⟩)

/-- Below the config directory of `t` there are these outputs, and nothing else. -/
def HasOutputs (m : Machine) (c : Cluster) (s t : Shell) : Prop :=
  ∀ p, c.InConfigDir p → ∀ x, t.fs p = some x ↔ ConfigOutput m c s p x

/-! ## Where it writes -/

/-- A path that `config()` writes to. -/
inductive OutputPath (m : Machine) (c : Cluster) : Path → Prop
  | entry {n : Text} (hn : n ∈ outputNames) (htls : n ≠ clusterTlsNodes) :
      OutputPath m c (c.configEntry n)
  | file {id name : Text} {p : Pipeline} (hp : NodeFile m c id name p) :
      OutputPath m c (c.configEntry id ++ [name])

/-- The directories are those of nodes, and the files are outputs that nobody may run. -/
structure Tidy (m : Machine) (c : Cluster) (fs : FS) : Prop where
  dirs : ∀ p, c.InConfigDir p → fs p = some .dir → ∃ id, Listed m c id ∧ p = c.configEntry id
  files : ∀ p f, c.InConfigDir p → fs p = some (.file f) → f.executable = false ∧ OutputPath m c p

section Tidy

variable {m : Machine} {c : Cluster} {s t : Shell} {id name : Text}

theorem tidy_of_emptyBelow {fs : FS} (h : EmptyBelow fs c.configTarget) : Tidy m c fs where
  dirs p hp hdir := by
    rw [h p hp.1 hp.2] at hdir
    cases hdir
  files p f hp hfile := by
    rw [h p hp.1 hp.2] at hfile
    cases hfile

theorem configEntry_injective {n n' : Text} (h : c.configEntry n = c.configEntry n') : n = n' :=
  List.singleton_inj.mp (List.append_cancel_left h)

theorem inConfigDir_entry (c : Cluster) (n : Text) : c.InConfigDir (c.configEntry n) := by
  have hentry := inConfigDir_entry_append (c := c) n []
  rwa [List.append_nil] at hentry

/-- There is no directory at an output. -/
theorem Tidy.ne_dir (ht : Tidy m c s.fs) (h : PlainNodes m c) {n : Text} (hn : n ∈ outputNames) :
    s.fs (c.configEntry n) ≠ some .dir := by
  intro hdir
  obtain ⟨id, hid, heq⟩ := ht.dirs _ (inConfigDir_entry c n) hdir
  exact (h.ids id hid).not_output (configEntry_injective heq ▸ hn)

/-- A copy to `CLUSTER_AUTH_PASS` is a file of this name. -/
theorem authPass_target (hne : s.fs (c.configEntry clusterAuthPass) ≠ some .dir) (source : Text) :
    copyTarget s.fs s.cwd (c.inConfig clusterAuthPass) source =
      fileTarget s.fs s.cwd (c.inConfig clusterAuthPass) := by
  refine if_neg fun hD => ?_
  obtain ⟨p, hp, hp'⟩ := testD_eq_true_iff.mp hD
  rw [resolve_eq_target hp, target_inConfig c isName_clusterAuthPass] at hp'
  exact hne (isDir_iff.mp hp')

/-- What a command of `config()` touches is an output. -/
theorem ConfigAct.outputPath_of_touches (h : PlainNodes m c) (ht : Tidy m c s.fs) {a : Act}
    (ha : WithMarker (ConfigAct m c) (configMarker m c) a) {cm : Cmd} (hcm : a.Issues cm) {p : Path}
    (htouch : cm.touches m s.cwd s.fs p = true) : OutputPath m c p := by
  have hentry : ∀ {n : Text}, n ∈ outputNames → n ≠ clusterTlsNodes → IsName n →
      p = target s.cwd (c.inConfig n) → OutputPath m c p := by
    intro n hn htls hname hp
    rw [hp, target_inConfig c hname]
    exact .entry hn htls
  have hscript : ∀ {n : Node} (stem : String) (q : Pipeline), IsNode m c n →
      (stem, q) ∈ nodeScripts c n → IsName (stem ++ ".sh").toList →
      p = target s.cwd (c.nodeconfdir n.nodeid ++ [(stem ++ ".sh").toList]) → OutputPath m c p := by
    intro n stem q hn hq hname hp
    rw [hp, h.target_script hn.listed hname]
    exact .file (.script hn hq)
  rcases ha with ha | rfl
  · cases ha with
    | configDir | nodeDir =>
      cases hcm
      cases htouch
    | noNodes =>
      cases hcm
      exact hentry (by decide +kernel) (by decide +kernel) (by decide +kernel)
        (target_of_touches (Or.inl ⟨_, rfl⟩) htouch)
    | addNode =>
      cases hcm
      exact hentry (by decide +kernel) (by decide +kernel) (by decide +kernel)
        (target_of_touches (Or.inr (Or.inl ⟨_, rfl⟩)) htouch)
    | conf hn hp hpass =>
      cases hcm
      rw [target_of_touches (Or.inr (Or.inr ⟨_, rfl⟩)) htouch, h.target_conf hn hp]
      exact .file (.conf hn hp hpass)
    | authPass =>
      cases hcm
      have hcopy : copyTarget s.fs s.cwd (c.inConfig clusterAuthPass)
          (baseName (pathWord c.ini.redisAuthpassFile)) = some p := of_decide_eq_true htouch
      rw [authPass_target (ht.ne_dir h (by decide +kernel))] at hcopy
      exact hentry (by decide +kernel) (by decide +kernel) (by decide +kernel)
        (resolve_eq_target (fileTarget_eq_some_iff.mp hcopy).1)
    | @start n hn =>
      cases hcm
      exact hscript "start_redis" (nodeScript c .startScript "start_redis.sh.0" n) hn
          (by simp [nodeScripts]) (by decide +kernel)
        (target_of_touches (Or.inr (Or.inr ⟨_, rfl⟩)) htouch)
    | @shutdown n hn =>
      cases hcm
      exact hscript "shutdown_redis" (nodeScript c .shutdownScript "shutdown_redis.sh.0" n) hn
          (by simp [nodeScripts]) (by decide +kernel)
        (target_of_touches (Or.inr (Or.inr ⟨_, rfl⟩)) htouch)
    | @connect n hn =>
      cases hcm
      exact hscript "connect_redis" (connectScript c n) hn (by simp [nodeScripts]) (by decide +kernel)
        (target_of_touches (Or.inr (Or.inr ⟨_, rfl⟩)) htouch)
    | env | create =>
      cases hcm
      exact hentry (by decide +kernel) (by decide +kernel) (by decide +kernel)
        (target_of_touches (Or.inr (Or.inr ⟨_, rfl⟩)) htouch)
  · cases hcm
    exact hentry (by decide +kernel) (by decide +kernel) (by decide +kernel)
      (target_of_touches (Or.inl ⟨_, rfl⟩) htouch)

/-- The commands that write a content. -/
def Cmd.Puts : Cmd → Prop
  | .write _ _ | .append _ _ | .pipeline _ _ | .copyIn _ _ _ => True
  | _ => False

/-- A completed one has put it at a path that it touches. -/
theorem putContent_of_exec {cm : Cmd} (hputs : cm.Puts) (hrun : (exec m cm).run s = (some (), t)) :
    ∃ p x, cm.touches m s.cwd s.fs p = true ∧ t.fs = putContent s.fs p x := by
  obtain ⟨hok, rfl⟩ := exec_eq_some_iff.mp hrun
  have hfs := Shell.after_fs_of_ok hok
  rw [Shell.run_of_outcome hok] at hok
  cases cm with
  | write dest x | append dest x =>
    simp only [Cmd.run] at hok hfs
    cases htarget : fileTarget s.fs s.cwd dest with
    | none => simp [htarget] at hok
    | some p =>
      simp only [htarget] at hfs
      exact ⟨p, _, decide_eq_true htarget, hfs⟩
  | pipeline pl dest =>
    simp only [Cmd.run] at hok hfs
    cases htarget : fileTarget s.fs s.cwd dest with
    | none => simp [htarget] at hok
    | some p =>
      simp only [htarget] at hok hfs
      by_cases hopens : pl.opens = true
      · rw [if_pos hopens] at hfs
        exact ⟨p, _, decide_eq_true htarget, hfs⟩
      · rw [if_neg hopens] at hok
        cases hok
  | copyIn source name dest =>
    simp only [Cmd.run] at hok hfs
    cases htarget : copyTarget s.fs s.cwd dest name with
    | none => simp [htarget] at hok
    | some p =>
      cases source with
      | none => simp [htarget] at hok
      | some x =>
        simp only [htarget] at hfs
        exact ⟨p, _, decide_eq_true htarget, hfs⟩
  | mkdirP | cp | cpR | chmodX | rmRf | tar | make | cd => cases hputs

/-- A new content keeps things tidy, at an output. -/
theorem Tidy.of_putContent {fs : FS} (ht : Tidy m c fs) {p : Path} (hp : OutputPath m c p) (x : Text) :
    Tidy m c (putContent fs p x) where
  dirs q hq hdir := by
    rw [putContent] at hdir
    split at hdir
    · cases hdir
    · exact ht.dirs q hq hdir
  files q f hq hfile := by
    rw [putContent] at hfile
    split at hfile
    · next heq =>
      subst heq
      simp only [Option.some.injEq, FileTree.Node.file.injEq] at hfile
      subst hfile
      refine ⟨?_, hp⟩
      rw [Bool.eq_false_iff]
      intro hexec
      obtain ⟨g, hg, hmode⟩ := (Option.any_eq_true _ _).mp hexec
      rw [(ht.files q g hq (dataAt_eq_some_iff.mp hg)).1] at hmode
      cases hmode
    · exact ht.files q f hq hfile

/-- So does a new directory of a node. -/
theorem Tidy.of_makeDirs {fs : FS} (ht : Tidy m c fs) {ps : List Path}
    (hps : ∀ p ∈ ps, c.InConfigDir p → ∃ id, Listed m c id ∧ p = c.configEntry id) :
    Tidy m c (makeDirs fs ps).1 where
  dirs p hp hdir := by
    rcases makeDirs_at fs ps p with heq | ⟨hmem, -, -⟩
    · exact ht.dirs p hp (heq ▸ hdir)
    · exact hps p hmem hp
  files p f hp hfile := by
    rcases makeDirs_at fs ps p with heq | ⟨-, -, hmade⟩
    · exact ht.files p f hp (heq ▸ hfile)
    · rw [hmade] at hfile
      cases hfile

/-- The directory that `config()` makes is above all of this. -/
theorem not_inConfigDir_of_configDir (hcanon : c.Canonical) {p cwd : Path}
    (hp : p ∈ mkdirPaths cwd [c.clusterConfigDir]) : ¬ c.InConfigDir p := by
  rintro ⟨hbelow, hne⟩
  have hp' : p ∈ visited [] (configPath c.tool c.clusterid) := by
    simp only [mkdirPaths, List.flatMap_cons, List.flatMap_nil, List.append_nil] at hp
    exact hp
  have habove := prefix_of_mem_visited hcanon hp'
  rw [List.nil_append, ← configTarget_eq hcanon] at habove
  exact hne (habove.eq_of_length (Nat.le_antisymm habove.length_le hbelow.length_le))

/-- Of the directories made for a node only its own is below. -/
theorem eq_of_mem_nodeDirs (h : PlainNodes m c) (hcanon : c.Canonical) (hid : Listed m c id)
    {p cwd : Path} (hp : p ∈ mkdirPaths cwd [c.nodeconfdir id]) (hbelow : c.InConfigDir p) :
    p = c.configEntry id := by
  have habove : p <+: c.configEntry id :=
    prefix_of_mem_nodeDirs hcanon (h.ids id hid) (h.isName hid) hp
  obtain ⟨⟨r, rfl⟩, hne⟩ := hbelow
  obtain ⟨r', hr'⟩ := habove
  rw [Cluster.configEntry, List.append_assoc] at hr'
  have hsplit := List.append_cancel_left hr'
  cases r with
  | nil => exact absurd (List.append_nil _) hne
  | cons n r =>
    rw [List.cons_append] at hsplit
    obtain ⟨rfl, hnil⟩ := List.cons.inj hsplit
    rw [(List.append_eq_nil_iff.mp hnil).1, Cluster.configEntry]

/-- **Each command keeps things tidy.** -/
theorem Tidy.exec (ht : Tidy m c s.fs) (h : PlainNodes m c) (hcanon : c.Canonical) {cm : Cmd}
    (ha : WithMarker (ConfigAct m c) (configMarker m c) (.cmd cm))
    (hrun : (exec m cm).run s = (some (), t)) : Tidy m c t.fs := by
  have hputs : cm.Puts → Tidy m c t.fs := by
    intro hputs
    obtain ⟨p, x, htouch, hfs⟩ := putContent_of_exec hputs hrun
    rw [hfs]
    exact ht.of_putContent (ConfigAct.outputPath_of_touches h ht ha rfl htouch) x
  have hmkdir : ∀ dirs, cm = .mkdirP dirs → t.fs = (makeDirs s.fs (mkdirPaths s.cwd dirs)).1 := by
    rintro dirs rfl
    obtain ⟨hok, rfl⟩ := exec_eq_some_iff.mp hrun
    exact Shell.after_fs_of_ok hok
  generalize ha' : Act.cmd cm = a at ha
  rcases ha with ha | rfl
  · cases ha with
    | configDir =>
      rw [hmkdir _ (Act.cmd.inj ha')]
      exact ht.of_makeDirs fun p hp hbelow => absurd hbelow (not_inConfigDir_of_configDir hcanon hp)
    | nodeDir hid =>
      rw [hmkdir _ (Act.cmd.inj ha')]
      exact ht.of_makeDirs fun p hp hbelow => ⟨_, hid, eq_of_mem_nodeDirs h hcanon hid hp hbelow⟩
    | noNodes | addNode | conf | authPass | start | shutdown | connect | env | create =>
      rw [Act.cmd.inj ha'] at hputs
      exact hputs trivial
  · rw [Act.cmd.inj ha'] at hputs
    exact hputs trivial

theorem Tidy.of_built (ht : Tidy m c s.fs) (h : PlainNodes m c) (hcanon : c.Canonical)
    {x : Script Shell Unit} (hx : Built m c (WithMarker (ConfigAct m c) (configMarker m c)) x)
    (hrun : x.run s = (some (), t)) : Tidy m c t.fs := by
  refine hx.of_completed (I := fun u => Tidy m c u.fs) (fun a ha => ?_) (fun _ _ _ _ hu => hu) ht hrun
  have hcmd : ∃ cm, a = .cmd cm := by
    rcases ha with ha | rfl
    · obtain ⟨cm, rfl, -⟩ := ConfigAct.additive a ha
      exact ⟨cm, rfl⟩
    · exact ⟨_, rfl⟩
  obtain ⟨cm, rfl⟩ := hcmd
  exact ⟨cm, rfl, fun u hu hok => hu.exec h hcanon ha (exec_eq_some_iff.mpr ⟨hok, rfl⟩)⟩

/-! ## What is in them -/

/-- The content of a file, read off the tree. -/
theorem Tidy.eq_file (ht : Tidy m c s.fs) {p : Path} (hp : c.InConfigDir p) {x : Text}
    (hx : contentOf s.fs p = some x) : s.fs p = some (.file ⟨x, false⟩) := by
  obtain ⟨f, hf, rfl⟩ := Option.map_eq_some_iff.mp hx
  rw [dataAt_eq_some_iff] at hf
  have hmode := (ht.files p f hp hf).1
  obtain ⟨x, executable⟩ := f
  rw [hf, ← hmode]

theorem config_createCluster (hrun : (config m c).run s = (some (), t)) :
    contentOf t.fs (c.configEntry "create_cluster.sh".toList) =
      some ((createCluster c).output m) := by
  obtain ⟨u, hbody, hmarker⟩ := config_eq_some_iff.mp hrun
  obtain ⟨-, s₁, -, -, s₂, -, s₃, -, htail⟩ := configBody_eq_some_iff.mp hbody
  obtain ⟨s₄, -, hcreate⟩ := configTail_eq_some_iff.mp htail
  have hwritten := contentOf_of_pipeline hcreate
  rw [target_inConfig c (by decide +kernel)] at hwritten
  have hkept := contentOf_of_exec (p := c.configEntry "create_cluster.sh".toList)
    (not_touches_of_lastName (Or.inl ⟨_, rfl⟩)
      (by rw [lastName_inConfig]; decide +kernel) _ _ _) hmarker
  rw [hkept, hwritten]

theorem config_marker (hrun : (config m c).run s = (some (), t)) :
    contentOf t.fs (c.configEntry configSuccess) = some (echo m [configSuccess]) := by
  obtain ⟨u, -, hmarker⟩ := config_eq_some_iff.mp hrun
  have hwritten := contentOf_of_write hmarker
  rwa [target_inConfig c (by decide +kernel)] at hwritten

/-- A pipeline of a script leaves the copy of the password file alone. -/
theorem authPass_of_pipeline {pl : Pipeline} {dest : PathWord} (hname : lastName dest ≠ clusterAuthPass)
    (hrun : (exec m (.pipeline pl dest)).run s = (some (), t)) :
    contentOf t.fs (c.configEntry clusterAuthPass) = contentOf s.fs (c.configEntry clusterAuthPass) :=
  contentOf_of_exec (not_touches_of_lastName (Or.inr (Or.inr ⟨_, rfl⟩)) hname _ _ _) hrun

theorem authPass_of_tail (hrun : (configTail m c).run s = (some (), t)) :
    contentOf t.fs (c.configEntry clusterAuthPass) = contentOf s.fs (c.configEntry clusterAuthPass) := by
  obtain ⟨u, henv, hcreate⟩ := configTail_eq_some_iff.mp hrun
  rw [authPass_of_pipeline (by rw [lastName_inConfig]; decide +kernel) hcreate,
    authPass_of_pipeline (by rw [lastName_inConfig]; decide +kernel) henv]

theorem authPass_of_marker (hrun : (exec m (configMarker m c)).run s = (some (), t)) :
    contentOf t.fs (c.configEntry clusterAuthPass) = contentOf s.fs (c.configEntry clusterAuthPass) :=
  contentOf_of_exec (not_touches_of_lastName (Or.inl ⟨_, rfl⟩)
    (by rw [lastName_inConfig]; decide +kernel) _ _ _) hrun

/-- The copy of the password file, where nothing else is in its place. -/
theorem authPass_of_copyIn {text name : Text} (hne : s.fs (c.configEntry clusterAuthPass) ≠ some .dir)
    (hrun : (exec m (.copyIn (some text) name (c.inConfig clusterAuthPass))).run s = (some (), t)) :
    contentOf t.fs (c.configEntry clusterAuthPass) = some text := by
  obtain ⟨hok, rfl⟩ := exec_eq_some_iff.mp hrun
  have hfs := Shell.after_fs_of_ok hok
  rw [Shell.run_of_outcome hok] at hok
  simp only [Cmd.run, authPass_target hne] at hok hfs
  cases htarget : fileTarget s.fs s.cwd (c.inConfig clusterAuthPass) with
  | none => simp [htarget] at hok
  | some p =>
    simp only [htarget] at hfs
    have hp := resolve_eq_target (fileTarget_eq_some_iff.mp htarget).1
    rw [target_inConfig c isName_clusterAuthPass] at hp
    rw [hfs, hp]
    exact contentOf_putContent _ _ _

/-- Each node copies the password file. -/
theorem authPass_of_configNode (h : PlainNodes m c) (hcanon : c.Canonical) (ht : Tidy m c s.fs)
    {pass text : Text} (hpass : c.redisAuthPass = some pass)
    (htext : c.inputs.confFile c.ini.redisAuthpassFile = some text) (hid : Listed m c id)
    (hrun : (configNode m c pass id).run s = (some (), t)) :
    contentOf t.fs (c.configEntry clusterAuthPass) = some text := by
  obtain ⟨s₁, hmk, s₂, hconfs, hscripts⟩ := configNode_eq_some_iff.mp hrun
  obtain ⟨s₃, hcopy, s₄, hstart, s₅, hshutdown, hconnect⟩ :=
    (configScripts_eq_some_iff rfl).mp hscripts
  have hn : IsNode m c (nodeAt m c s₁ id) := isNode_nodeAt hid
  have h₁ : Tidy m c s₁.fs := ht.exec h hcanon (Or.inl (.nodeDir hid)) hmk
  have h₂ : Tidy m c s₂.fs := by
    refine forEach_keeps_of_some (I := fun u => Tidy m c u.fs) (fun p hp u v hu hinst => ?_) h₁ hconfs
    obtain ⟨u₁, hadd, hconf⟩ := (configInstance_eq_some_iff rfl).mp hinst
    have hport := mem_of_mem_zipIdx hp
    exact (hu.exec h hcanon (Or.inl (.addNode hn hport)) hadd).exec h hcanon
      (Or.inl (.conf hn hport hpass)) hconf
  rw [htext] at hcopy
  have h₃ := authPass_of_copyIn (h₂.ne_dir h (by decide +kernel)) hcopy
  rw [authPass_of_pipeline (by simp; decide) hconnect, authPass_of_pipeline (by simp; decide) hshutdown,
    authPass_of_pipeline (by simp; decide) hstart, h₃]

/-- The copy of the password file after a completed run. -/
theorem config_authPass (h : PlainNodes m c) (hcanon : c.Canonical) (ht : Tidy m c s.fs)
    {text : Text} (htext : c.inputs.confFile c.ini.redisAuthpassFile = some text)
    (hnodes : nodesAt m c s ≠ []) (hrun : (config m c).run s = (some (), t)) :
    contentOf t.fs (c.configEntry clusterAuthPass) = some text := by
  obtain ⟨u, hbody, hmarker⟩ := config_eq_some_iff.mp hrun
  obtain ⟨-, s₁, hmk, -, s₂, hwrite, s₃, hloop, htail⟩ := configBody_eq_some_iff.mp hbody
  have hpass : c.redisAuthPass = some (commandSubst text) := by
    rw [Cluster.redisAuthPass, htext, Option.map_some]
  rw [hpass, Option.getD_some, h.stable.nodesAt_eq s₂ s] at hloop
  have h₁ : Tidy m c s₁.fs := ht.exec h hcanon (Or.inl .configDir) hmk
  have h₂ : Tidy m c s₂.fs := h₁.exec h hcanon (Or.inl .noNodes) hwrite
  obtain ⟨id, hid⟩ := List.exists_mem_of_ne_nil _ hnodes
  rw [authPass_of_marker hmarker, authPass_of_tail htail]
  have hcopied : ∀ id ∈ nodesAt m c s, ∀ v w, Tidy m c v.fs →
      (configNode m c (commandSubst text) id).run v = (some (), w) →
      contentOf w.fs (c.configEntry clusterAuthPass) = some text := fun id hid v w hv hnode =>
    authPass_of_configNode h hcanon hv hpass htext (listed_of_mem_nodesAt hid) hnode
  refine forEach_reaches (I := fun v => Tidy m c v.fs) (G := fun v =>
    contentOf v.fs (c.configEntry clusterAuthPass) = some text) (fun id' hid' v w hv hnode => ?_)
    (fun id' hid' v w hv _ hnode => hcopied id' hid' v w hv hnode) hid (hcopied id hid) h₂ hloop
  exact hv.of_built h hcanon ((built_configNode m c hpass (listed_of_mem_nodesAt hid')).mono
    fun _ ha => Or.inl ha) hnode

/-- Without nodes nothing is copied. -/
theorem config_noAuthPass (h : PlainNodes m c) (hnodes : nodesAt m c s = [])
    (hrun : (config m c).run s = (some (), t)) :
    contentOf t.fs (c.configEntry clusterAuthPass) = contentOf s.fs (c.configEntry clusterAuthPass) := by
  obtain ⟨u, hbody, hmarker⟩ := config_eq_some_iff.mp hrun
  obtain ⟨-, s₁, hmk, -, s₂, hwrite, s₃, hloop, htail⟩ := configBody_eq_some_iff.mp hbody
  rw [h.stable.nodesAt_eq s₂ s, hnodes] at hloop
  obtain rfl : s₂ = s₃ := congrArg Prod.snd hloop
  have hwritten : contentOf s₂.fs (c.configEntry clusterAuthPass) =
      contentOf s₁.fs (c.configEntry clusterAuthPass) :=
    contentOf_of_exec (not_touches_of_lastName (Or.inl ⟨_, rfl⟩)
      (by rw [lastName_inConfig]; decide +kernel) _ _ _) hwrite
  rw [authPass_of_marker hmarker, authPass_of_tail htail, hwritten, contentOf_of_exec rfl hmk]

theorem PlainNodes.stableInstances (h : PlainNodes m c) : StableInstances m c where
  nodes u v := h.stable.nodesAt_eq u v
  host u v id _ := by rw [settingAt, settingAt, h.stable.setting u.fs u.cwd v.fs v.cwd]
  ports u v id _ := h.stable.listAt_eq u v id _

theorem NodeFile.listed {p : Pipeline} (hp : NodeFile m c id name p) : Listed m c id := by
  cases hp with
  | conf hn => exact hn.listed
  | script hn => exact hn.listed

/-- The pass of a node makes its directory. -/
theorem nodeDir_of_configNode (h : PlainNodes m c) (hid : Listed m c id) {pass : Text}
    (hrun : (configNode m c pass id).run s = (some (), t)) : t.fs (c.configEntry id) = some .dir := by
  obtain ⟨u, hmk, hgrows⟩ := configNode_grows_from hrun
  have hmade : c.configEntry id ∈ mkdirPaths s.cwd [c.nodeconfdir id] := by
    rw [← target_nodeconfdir (h.ids id hid) (h.isName hid) s.cwd, mkdirPaths,
      List.flatMap_cons, List.flatMap_nil, List.append_nil]
    exact end_mem_visited _ _
  have hdir : u.fs (c.configEntry id) = some .dir := by
    obtain ⟨hok, hafter⟩ := exec_eq_some_iff.mp hmk
    rw [hafter, Shell.after_fs_of_ok hok]
    rw [Shell.run_of_outcome hok, Cmd.run] at hok
    rw [Cmd.run]
    exact makeDirs_isDir hok hmade
  exact (hgrows (c.configEntry id)).1 hdir
/-- The directory of a node that is listed. -/
theorem config_nodeDir (h : PlainNodes m c) (hid : id ∈ nodesAt m c s)
    (hrun : (config m c).run s = (some (), t)) : t.fs (c.configEntry id) = some .dir := by
  obtain ⟨u, hbody, hmarker⟩ := config_eq_some_iff.mp hrun
  obtain ⟨-, s₁, -, -, s₂, -, s₃, hloop, htail⟩ := configBody_eq_some_iff.mp hbody
  obtain ⟨s₄, henv, hcreate⟩ := configTail_eq_some_iff.mp htail
  have hlisted := listed_of_mem_nodesAt hid
  rw [h.stable.nodesAt_eq s₂ s] at hloop
  generalize c.redisAuthPass.getD [] = pass at hloop
  have hkeep : ∀ id' v w, v.fs (c.configEntry id) = some .dir →
      (configNode m c pass id').run v = (some (), w) → w.fs (c.configEntry id) = some .dir :=
    fun _ _ _ hv hnode => (configNode_grows hnode (c.configEntry id)).1 hv
  have hnode : s₃.fs (c.configEntry id) = some .dir :=
    forEach_reaches (I := fun _ => True) (fun _ _ _ _ _ _ => trivial)
      (fun id' _ v w _ hv => hkeep id' v w hv) hid
      (fun v w _ => nodeDir_of_configNode h hlisted) trivial hloop
  have hgrows : Grows s₃.fs t.fs :=
    ((grows_of_exec (by trivial) henv).trans (grows_of_exec (by trivial) hcreate)).trans
      (grows_of_exec (by trivial) hmarker)
  exact (hgrows (c.configEntry id)).1 hnode

end Tidy

end RedisCluster
