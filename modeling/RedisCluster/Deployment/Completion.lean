import RedisCluster.Deployment.Output
import RedisCluster.Library.Completes

/-!
# When `config()` completes

Under `errexit` a pipeline stops the script only through its last command: templates that are
missing do not, nor values that an earlier `sed` rejects. From an empty config directory the run
completes exactly when the password file can be read, each node has a port, the last `sed` of
`cluster_env.sh` takes the replicas, and `create_cluster.sh.0` is there.

* `pipeline_ok_of_last`: a pipeline whose last value is plain.
* `Writable`: the directories are there, and what is below is tidy.
* `config_completes_iff`: the exact condition.
-/

namespace RedisCluster

open FileTree Errexit Script

/-! ## The last command of a pipeline -/

theorem runStages_snoc (m : Machine) (front : List Stage) (s : Stage) (input : Text) :
    (runStages m (front ++ [s]) input).1 =
      (runStages m front input).1 ++ [(s.run m (runStages m front input).2).isSome] := by
  induction front generalizing input with
  | nil =>
    rw [List.nil_append, runStages, runStages]
    cases s.run m input <;> rfl
  | cons s' front ih =>
    rw [List.cons_append, runStages, runStages]
    cases s'.run m input with
    | none => simp only [ih, List.cons_append]
    | some out => simp only [ih, List.cons_append]

/-- Plain text is a replacement: a pipeline that ends with one succeeds, whatever comes before. -/
theorem pipeline_ok_of_last (m : Machine) (p : Pipeline) (front : List Stage) (name : Placeholder)
    (v : Text) (hstages : p.stages = front ++ [sub name v]) (hv : PlainValue v) :
    p.opens = true ∧ p.ok m = true := by
  have hrun : ∀ input, ((sub name v).run m input).isSome = true := by
    intro input
    rw [Stage.run, sub, Option.bind_some, sed, sedScript_of_plain hv, Option.isSome_some]
  constructor
  · rw [Pipeline.opens, hstages, List.getLast?_append, List.getLast?_singleton, Option.some_or,
      Option.all_some, sub, Option.isSome_some]
  · rw [Pipeline.ok, Pipeline.statuses, hstages, runStages_snoc, ← List.cons_append,
      List.getLast?_append, List.getLast?_singleton, Option.some_or, Option.all_some, id, hrun]

/-- What `config()` needs. -/
structure Configurable (m : Machine) (c : Cluster) (s : Shell) : Prop where
  password : c.redisAuthPass.isSome = true
  ports : ∀ id ∈ nodesAt m c s, (nodeAt m c s id).ports ≠ []
  replicas : (clusterEnv c).ok m = true
  create : (c.inputs.sbinFile "create_cluster.sh.0".toList).isSome = true

/-! ## Before a write -/

/-- The directories of the words `dirs` are there, what is below the config directory is tidy, and
    no fault is to strike. -/
structure Writable (m : Machine) (c : Cluster) (dirs : List PathWord) (s : Shell) : Prop where
  tidy : Tidy m c s.fs
  made : ∀ w ∈ dirs, IsAbsolute w ∧ ∀ p ∈ mkdirPaths [] [w], s.fs p = some .dir
  noFaults : s.faults = []

section Writable

variable {m : Machine} {c : Cluster} {dirs : List PathWord} {s t : Shell} {id name : Text}

theorem Writable.mono (hr : Writable m c dirs s) {dirs' : List PathWord} (h : ∀ w ∈ dirs', w ∈ dirs) :
    Writable m c dirs' s :=
  ⟨hr.tidy, fun w hw => hr.made w (h w hw), hr.noFaults⟩

/-- A command that can be run completes, and leaves things ready. -/
theorem Writable.of_ok (hr : Writable m c dirs s) (h : PlainNodes m c) (hcanon : c.Canonical) {cm : Cmd}
    (ha : WithMarker (ConfigAct m c) (configMarker m c) (.cmd cm))
    (hok : (cm.run m s.cwd s.fs).2 = true) :
    (exec m cm).run s = (some (), s.after m cm) ∧ Writable m c dirs (s.after m cm) := by
  have hadd : cm.Additive := by
    rcases ha with ha | ha
    · obtain ⟨cm', heq, hadd⟩ := ConfigAct.additive _ ha
      rwa [Act.cmd.inj heq]
    · rw [Act.cmd.inj ha]
      trivial
  have hrun : (exec m cm).run s = (some (), s.after m cm) :=
    exec_eq_some_iff.mpr ⟨by rw [outcome_of_noFaults hr.noFaults cm, hok], rfl⟩
  refine ⟨hrun, hr.tidy.exec h hcanon ha hrun, fun w hw => ⟨(hr.made w hw).1, fun p hp => ?_⟩, ?_⟩
  · exact (grows_of_exec hadd hrun p).1 ((hr.made w hw).2 p hp)
  · rw [Shell.after, hr.noFaults, List.tail_nil]

theorem Writable.completes (h : PlainNodes m c) (hcanon : c.Canonical) {cm : Cmd}
    (ha : WithMarker (ConfigAct m c) (configMarker m c) (.cmd cm))
    (hok : ∀ s, Writable m c dirs s → (cm.run m s.cwd s.fs).2 = true) :
    Completes (Writable m c dirs) (exec m cm) fun _ => Writable m c dirs := by
  intro s hs
  obtain ⟨hrun, hr⟩ := hs.of_ok h hcanon ha (hok s hs)
  exact ⟨(), _, hrun, hr⟩

/-- Where a word of one more component leads. -/
theorem Writable.fileTarget_eq (hr : Writable m c dirs s) {w : PathWord} (hw : w ∈ dirs) {n : Text}
    (hn : IsName n) {p : Path} (hp : target s.cwd (w ++ [n]) = p) (hdir : s.fs p ≠ some .dir) :
    fileTarget s.fs s.cwd (w ++ [n]) = some p := by
  obtain ⟨habs, hmade⟩ := hr.made w hw
  refine fileTarget_eq_some_iff.mpr ⟨?_, ?_, ?_⟩
  · rw [resolve_snoc habs hmade, hp]
  · rwa [lastName_snoc]
  · rw [Bool.eq_false_iff]
    exact fun hd => hdir (isDir_iff.mp hd)

/-- An output can be written. -/
theorem Writable.fileTarget_entry (hr : Writable m c dirs s) (h : PlainNodes m c)
    (hw : c.clusterConfigDir ∈ dirs) {n : Text} (hn : n ∈ outputNames) (hname : IsName n) :
    fileTarget s.fs s.cwd (c.inConfig n) = some (c.configEntry n) :=
  hr.fileTarget_eq hw hname (target_inConfig c hname s.cwd) (hr.tidy.ne_dir h hn)

/-- And a file of a node, in its directory. -/
theorem Writable.fileTarget_node (hr : Writable m c dirs s) (h : PlainNodes m c) (hid : Listed m c id)
    (hw : c.nodeconfdir id ∈ dirs) (hname : IsName name) :
    fileTarget s.fs s.cwd (c.nodeconfdir id ++ [name]) = some (c.configEntry id ++ [name]) := by
  refine hr.fileTarget_eq hw hname (h.target_script hid hname s.cwd) fun hdir => ?_
  obtain ⟨id', -, heq⟩ := hr.tidy.dirs _ (inConfigDir_entry_append _ _) hdir
  exact configEntry_ne_nodeFile c id' id name heq.symm

theorem run_write_ok {dest : PathWord} {x : Text} {p : Path}
    (hp : fileTarget s.fs s.cwd dest = some p) :
    ((Cmd.write dest x).run m s.cwd s.fs).2 = true := by
  simp only [Cmd.run, hp]

theorem run_append_ok {dest : PathWord} {x : Text} {p : Path}
    (hp : fileTarget s.fs s.cwd dest = some p) :
    ((Cmd.append dest x).run m s.cwd s.fs).2 = true := by
  simp only [Cmd.run, hp]

theorem run_pipeline_ok {pl : Pipeline} {dest : PathWord} {p : Path}
    (hp : fileTarget s.fs s.cwd dest = some p) (hpl : pl.opens = true ∧ pl.ok m = true) :
    ((Cmd.pipeline pl dest).run m s.cwd s.fs).2 = true := by
  simp only [Cmd.run, hp, hpl.1, hpl.2, if_true]

/-- The directories that are made for a node are those of the config directory, and its own. -/
theorem mem_nodeDirs (hplain : PlainId id) (hname : IsName id) {p cwd : Path}
    (hp : p ∈ mkdirPaths cwd [c.nodeconfdir id]) :
    p ∈ mkdirPaths [] [c.clusterConfigDir] ∨ p = c.configEntry id := by
  have hsnoc := dropLast_visited_snoc [] (configPath c.tool c.clusterid) id
  have hlast := getLast_visited [] (configPath c.tool c.clusterid ++ [id])
  have hend : (configPath c.tool c.clusterid ++ [id]).foldl step [] = c.configEntry id :=
    target_nodeconfdir hplain hname [] ▸ (by rw [nodeconfdir_eq hplain]; rfl)
  rw [nodeconfdir_eq hplain] at hp
  simp only [mkdirPaths, List.flatMap_cons, List.flatMap_nil, List.append_nil] at hp ⊢
  have hp' : p ∈ visited [] (configPath c.tool c.clusterid ++ [id]) := hp
  rw [← List.dropLast_append_getLast (visited_ne_nil _ _), List.mem_append, hsnoc, hlast, hend,
    List.mem_singleton] at hp'
  exact hp'

/-- The directory of a node can be made. -/
theorem Writable.run_nodeDir (hr : Writable m c [c.clusterConfigDir] s) (h : PlainNodes m c)
    (hid : Listed m c id) :
    ((Cmd.mkdirP [c.nodeconfdir id]).run m s.cwd s.fs).2 = true := by
  rw [Cmd.run, makeDirs_ok_iff]
  intro p hp
  have hmade := (hr.made _ (List.mem_singleton_self _)).2
  rcases mem_nodeDirs (h.ids id hid) (h.isName hid) hp with hp | rfl
  · rw [isFile, hmade p hp]
  · rw [Bool.eq_false_iff]
    intro hfile
    obtain ⟨f, hf⟩ := isFile_iff.mp hfile
    generalize hq : c.configEntry id = q at hf
    cases (hr.tidy.files q f (hq ▸ inConfigDir_entry c id) hf).2 with
    | entry hn => exact (h.ids id hid).not_output (configEntry_injective hq ▸ hn)
    | file => exact configEntry_ne_nodeFile c _ _ _ hq

/-- And has been. -/
theorem Writable.nodeDir (h : PlainNodes m c) (hcanon : c.Canonical) (hid : Listed m c id) :
    Completes (Writable m c [c.clusterConfigDir]) (exec m (.mkdirP [c.nodeconfdir id]))
      fun _ => Writable m c [c.nodeconfdir id, c.clusterConfigDir] := by
  intro s hr
  have hok := hr.run_nodeDir h hid
  obtain ⟨hrun, hr'⟩ := hr.of_ok h hcanon (Or.inl (.nodeDir hid)) hok
  refine ⟨(), _, hrun, hr'.tidy, fun w hw => ?_, hr'.noFaults⟩
  rcases List.mem_cons.mp hw with rfl | hw
  · refine ⟨isAbsolute_nodeconfdir c id, fun p hp => ?_⟩
    obtain ⟨hdone, -⟩ := exec_eq_some_iff.mp hrun
    rw [Shell.after_fs_of_ok hdone]
    rw [Cmd.run] at hok ⊢
    exact makeDirs_isDir hok hp
  · exact hr'.made w hw

/-! ## The passes of `config()` -/

theorem plainValue_of_isPort {port : Text} (h : IsPort port) : PlainValue port :=
  ⟨h.noSlash, fun hmem => absurd (h _ hmem) (by decide), fun hmem => absurd (h _ hmem) (by decide),
    fun hmem => absurd (h _ hmem) (by decide)⟩

theorem plainValue_join {ports : List Text} (h : ∀ port ∈ ports, IsPort port) :
    PlainValue (join ports) := by
  have hnot : ∀ ch : Char, ch ≠ ' ' → ch.isDigit = false → ch ∉ join ports := by
    intro ch hblank hdigit hmem
    rcases mem_join hmem with rfl | ⟨port, hport, hch⟩
    · exact hblank rfl
    · rw [h port hport ch hch] at hdigit
      cases hdigit
  exact ⟨hnot _ (by decide) (by decide), hnot _ (by decide) (by decide),
    hnot _ (by decide) (by decide), hnot _ (by decide) (by decide)⟩

theorem completes_configInstance (h : PlainNodes m c) (hcanon : c.Canonical) {n : Node}
    (hn : IsNode m c n) {pass : Text} (hpass : c.redisAuthPass = some pass) {p : Text × ℕ}
    (hp : p.1 ∈ n.ports) :
    Completes (Writable m c [c.nodeconfdir n.nodeid, c.clusterConfigDir])
      (configInstance m c pass n p)
      fun _ => Writable m c [c.nodeconfdir n.nodeid, c.clusterConfigDir] := by
  have hport := h.ports _ hn.listed _ hn.ports _ hp
  have hok := pipeline_ok_of_last m (confPipeline c n.conf (n.instance pass p.1) none)
    (confStages c (n.instance pass p.1)).dropLast .tlsHashtag c.hashTag rfl (plainValue_hashTag c)
  simp only [configInstance, hn.tls]
  refine completes_bind (Writable.completes h hcanon (Or.inl (.addNode hn hp)) fun s hs => ?_) fun _ =>
    Writable.completes h hcanon (Or.inl (.conf hn hp hpass)) fun s hs => ?_
  · exact run_append_ok (hs.fileTarget_entry h (by simp) (by decide +kernel) (by decide +kernel))
  · rw [nodeConfFile_eq (h.ids _ hn.listed) hport]
    exact run_pipeline_ok (hs.fileTarget_node h hn.listed (by simp) (isName_confName _ _)) hok

theorem completes_configScripts (h : PlainNodes m c) (hcanon : c.Canonical) {n : Node}
    (hn : IsNode m c n) (hne : n.ports ≠ []) (hpass : c.redisAuthPass.isSome = true) :
    Completes (Writable m c [c.nodeconfdir n.nodeid, c.clusterConfigDir]) (configScripts m c n)
      fun _ => Writable m c [c.nodeconfdir n.nodeid, c.clusterConfigDir] := by
  have hports : ∀ port ∈ n.ports, IsPort port := h.ports _ hn.listed _ hn.ports
  obtain ⟨text, htext⟩ : ∃ text, c.inputs.confFile c.ini.redisAuthpassFile = some text := by
    rw [Cluster.redisAuthPass, Option.isSome_map] at hpass
    exact Option.isSome_iff_exists.mp hpass
  obtain ⟨port, ports, hfirst⟩ := List.exists_cons_of_ne_nil hne
  have hscript : ∀ (kind : Output) (template : String),
      (nodeScript c kind template n).opens = true ∧ (nodeScript c kind template n).ok m = true :=
    fun kind template => pipeline_ok_of_last m _ [sub .nodeid n.nodeid, sub .nodehost n.host] .ports
      (join n.ports) rfl (plainValue_join hports)
  have hconnect : (connectScript c n).opens = true ∧ (connectScript c n).ok m = true := by
    refine pipeline_ok_of_last m _ [sub .nodeid n.nodeid, sub .nodehost n.host] .port port ?_
      (plainValue_of_isPort (hports port (by simp [hfirst])))
    simp only [connectScript, hfirst, List.head?_cons, sub, List.cons_append, List.nil_append]
  simp only [configScripts, hn.tls]
  refine completes_bind (Writable.completes h hcanon (Or.inl .authPass) fun s hs => ?_) fun _ =>
    completes_bind (Writable.completes h hcanon (Or.inl (.start hn)) fun s hs => ?_) fun _ =>
    completes_bind (Writable.completes h hcanon (Or.inl (.shutdown hn)) fun s hs => ?_) fun _ =>
    completes_bind (Writable.completes h hcanon (Or.inl (.connect hn)) fun s hs => ?_) fun _ =>
    completes_pure () fun _ hs => hs
  · have htarget := hs.fileTarget_entry h (by simp) (n := clusterAuthPass) (by decide +kernel)
      (by decide +kernel)
    simp only [Cmd.run, authPass_target (hs.tidy.ne_dir h (by decide +kernel)), htarget, htext]
  · exact run_pipeline_ok (hs.fileTarget_node h hn.listed (by simp) (by decide +kernel)) (hscript _ _)
  · exact run_pipeline_ok (hs.fileTarget_node h hn.listed (by simp) (by decide +kernel)) (hscript _ _)
  · exact run_pipeline_ok (hs.fileTarget_node h hn.listed (by simp) (by decide +kernel)) hconnect

/-- The pass of a node with a port. -/
theorem completes_configNode (h : PlainNodes m c) (hcanon : c.Canonical) (hid : Listed m c id)
    (hne : ∀ u, (nodeAt m c u id).ports ≠ []) {pass : Text} (hpass : c.redisAuthPass = some pass) :
    Completes (Writable m c [c.clusterConfigDir]) (configNode m c pass id)
      fun _ => Writable m c [c.clusterConfigDir] := by
  unfold configNode
  refine completes_bind (Writable.nodeDir h hcanon hid) fun _ => ?_
  intro u hu
  have hn : IsNode m c (nodeAt m c u id) := isNode_nodeAt hid
  have hread : (readNode m c id).run u = (some (nodeAt m c u id), u) :=
    readNode_eq_nodeAt.mpr ⟨rfl, rfl⟩
  have hne := hne u
  rw [bind_run_of_some hread]
  rw [← nodeAt_nodeid (m := m) (c := c) u id] at hu
  generalize nodeAt m c u id = n at hn hne hu
  have hconfs := completes_forEach fun p (hp : p ∈ n.ports.zipIdx) =>
    completes_configInstance h hcanon hn hpass (mem_of_mem_zipIdx hp)
  obtain ⟨a, v, hrun, hv⟩ := completes_bind hconfs
    (fun _ => completes_configScripts h hcanon hn hne (by rw [hpass]; rfl)) u hu
  exact ⟨a, v, hrun, hv.mono (by simp)⟩

/-- An output can be written in the config directory. -/
theorem completes_write (h : PlainNodes m c) (hcanon : c.Canonical) {n x : Text} (hn : n ∈ outputNames)
    (hname : IsName n)
    (ha : WithMarker (ConfigAct m c) (configMarker m c) (.cmd (.write (c.inConfig n) x))) :
    Completes (Writable m c [c.clusterConfigDir]) (exec m (.write (c.inConfig n) x))
      fun _ => Writable m c [c.clusterConfigDir] :=
  Writable.completes h hcanon ha fun _ hs =>
    run_write_ok (hs.fileTarget_entry h (by simp) hn hname)

theorem completes_configTail (h : PlainNodes m c) (hcanon : c.Canonical)
    (hreplicas : (clusterEnv c).ok m = true)
    (hcreate : (c.inputs.sbinFile "create_cluster.sh.0".toList).isSome = true) :
    Completes (Writable m c [c.clusterConfigDir]) (configTail m c)
      fun _ => Writable m c [c.clusterConfigDir] := by
  have hopens : (createCluster c).opens = true ∧ (createCluster c).ok m = true := by
    refine ⟨rfl, ?_⟩
    rw [Pipeline.ok, Pipeline.statuses, createCluster, runStages, List.getLast?_singleton,
      Option.all_some, id, hcreate]
  unfold configTail
  refine completes_bind (Writable.completes h hcanon (Or.inl .env) fun s hs => ?_) fun _ =>
    Writable.completes h hcanon (Or.inl .create) fun s hs => ?_
  · exact run_pipeline_ok (hs.fileTarget_entry h (by simp) (by decide +kernel) (by decide +kernel))
      ⟨rfl, hreplicas⟩
  · exact run_pipeline_ok (hs.fileTarget_entry h (by simp) (by decide +kernel) (by decide +kernel))
      hopens

/-- The config directory is made, where it was empty and nothing stands in its way. -/
theorem completes_configDir (h : PlainNodes m c) (hcanon : c.Canonical) :
    Completes (fun u => EmptyBelow u.fs c.configTarget ∧
        (∀ p, p <+: c.configTarget → isFile u.fs p = false) ∧ u.faults = [])
      (exec m (.mkdirP [c.clusterConfigDir])) fun _ => Writable m c [c.clusterConfigDir] := by
  rintro s ⟨hempty, hroom, hfaults⟩
  have hmk : ((Cmd.mkdirP [c.clusterConfigDir]).run m s.cwd s.fs).2 = true := by
    rw [Cmd.run, makeDirs_ok_iff]
    intro p hp
    have hp' : p ∈ visited [] (configPath c.tool c.clusterid) := by
      simp only [mkdirPaths, List.flatMap_cons, List.flatMap_nil, List.append_nil] at hp
      exact hp
    have habove := prefix_of_mem_visited hcanon hp'
    rw [List.nil_append, ← configTarget_eq hcanon] at habove
    exact hroom p habove
  have hstart : Writable m c [] s := ⟨tidy_of_emptyBelow hempty, by simp, hfaults⟩
  obtain ⟨hrun, hdone⟩ := hstart.of_ok h hcanon (Or.inl .configDir) hmk
  refine ⟨(), _, hrun, hdone.tidy, fun w hw => ?_, hdone.noFaults⟩
  obtain rfl := List.mem_singleton.mp hw
  refine ⟨isAbsolute_clusterConfigDir c, fun p hp => ?_⟩
  obtain ⟨hok, -⟩ := exec_eq_some_iff.mp hrun
  rw [Shell.after_fs_of_ok hok]
  rw [Cmd.run] at hmk ⊢
  exact makeDirs_isDir hmk hp

/-- From an empty directory with room for it the run completes, if all is there. -/
theorem config_completes (h : PlainNodes m c) (hcanon : c.Canonical)
    (hempty : EmptyBelow s.fs c.configTarget) (hroom : ∀ p, p <+: c.configTarget → isFile s.fs p = false)
    (hfaults : s.faults = []) (hneeds : Configurable m c s) : ∃ t, (config m c).run s = (some (), t) := by
  obtain ⟨pass, hpass⟩ := Option.isSome_iff_exists.mp hneeds.password
  have hfresh : testF s.fs s.cwd (c.inConfig configSuccess) = false := by
    rw [Bool.eq_false_iff]
    intro hthere
    have hfile := isFile_of_testF_inConfig (by decide +kernel) hthere
    rw [isFile, hempty.entry] at hfile
    cases hfile
  have hloop : Completes (Writable m c [c.clusterConfigDir])
      (forEach (nodesAt m c s) (configNode m c pass)) fun _ => Writable m c [c.clusterConfigDir] := by
    refine completes_forEach fun id hid =>
      completes_configNode h hcanon (listed_of_mem_nodesAt hid) (fun u => ?_) hpass
    rw [h.stable.nodeAt_eq u s]
    exact hneeds.ports id hid
  have hwrite := completes_write h hcanon (n := clusterAllNodes) (x := [])
    (by decide +kernel) (by decide +kernel) (Or.inl .noNodes)
  have hmarker := completes_write h hcanon (n := configSuccess) (x := echo m [configSuccess])
    (by decide +kernel) (by decide +kernel) (Or.inr rfl)
  obtain ⟨s₁, hrun₁, h₁⟩ := (completes_configDir h hcanon).after ⟨hempty, hroom, hfaults⟩
  obtain ⟨s₂, hrun₂, h₂⟩ := hwrite.after h₁
  obtain ⟨s₃, hrun₃, h₃⟩ := hloop.after h₂
  obtain ⟨s₄, hrun₄, h₄⟩ :=
    (completes_configTail h hcanon hneeds.replicas hneeds.create).after h₃
  obtain ⟨s₅, hrun₅, -⟩ := hmarker.after h₄
  refine ⟨s₅, config_eq_some_iff.mpr ⟨s₄, configBody_eq_some_iff.mpr ?_, hrun₅⟩⟩
  refine ⟨hfresh, s₁, hrun₁, hneeds.password, s₂, hrun₂, s₃, ?_, hrun₄⟩
  rw [hpass, Option.getD_some, h.stable.nodesAt_eq s₂ s]
  exact hrun₃

/-- A pipeline that has completed. -/
theorem pipeline_ok_of_exec {pl : Pipeline} {dest : PathWord}
    (hrun : (exec m (.pipeline pl dest)).run s = (some (), t)) :
    pl.opens = true ∧ pl.ok m = true := by
  obtain ⟨hok, -⟩ := exec_eq_some_iff.mp hrun
  rw [Shell.run_of_outcome hok] at hok
  simp only [Cmd.run] at hok
  cases htarget : fileTarget s.fs s.cwd dest with
  | none => simp [htarget] at hok
  | some p =>
    simp only [htarget] at hok
    by_cases hopens : pl.opens = true
    · rw [if_pos hopens] at hok
      exact ⟨hopens, hok⟩
    · rw [if_neg hopens] at hok
      cases hok

/-- Without a port the last command of `connect_redis.sh` dies of `nounset`. -/
theorem ports_ne_nil_of_configNode (h : PlainNodes m c) (u : Shell) {pass : Text}
    (hrun : (configNode m c pass id).run s = (some (), t)) : (nodeAt m c u id).ports ≠ [] := by
  obtain ⟨s₁, -, s₂, -, hscripts⟩ := configNode_eq_some_iff.mp hrun
  obtain ⟨_, -, _, -, _, -, hconnect⟩ := (configScripts_eq_some_iff rfl).mp hscripts
  rw [h.stable.nodeAt_eq s₁ u] at hconnect
  intro hnil
  have hopens := (pipeline_ok_of_exec hconnect).1
  simp only [Pipeline.opens, connectScript, hnil, List.head?_nil, List.getLast?_cons_cons,
    List.getLast?_singleton, Option.all_some, Option.isSome_none] at hopens
  cases hopens

/-- What a completed run has needed. -/
theorem configurable_of_config (h : PlainNodes m c) (hrun : (config m c).run s = (some (), t)) :
    Configurable m c s := by
  obtain ⟨u, hbody, -⟩ := config_eq_some_iff.mp hrun
  obtain ⟨-, s₁, -, hpass, s₂, -, s₃, hloop, htail⟩ := configBody_eq_some_iff.mp hbody
  obtain ⟨s₄, henv, hcreate⟩ := configTail_eq_some_iff.mp htail
  rw [h.stable.nodesAt_eq s₂ s] at hloop
  generalize c.redisAuthPass.getD [] = pass at hloop
  refine ⟨hpass, fun id hid => ?_, (pipeline_ok_of_exec henv).2, ?_⟩
  · exact forEach_reaches (I := fun _ => True) (G := fun _ => (nodeAt m c s id).ports ≠ [])
      (fun _ _ _ _ _ _ => trivial) (fun _ _ _ _ _ hne _ => hne) hid
      (fun v w _ hnode => ports_ne_nil_of_configNode h s hnode) trivial hloop
  · have hok := (pipeline_ok_of_exec hcreate).2
    rw [Pipeline.ok, Pipeline.statuses, createCluster, runStages, List.getLast?_singleton,
      Option.all_some] at hok
    exact hok

end Writable

end RedisCluster
