import RedisCluster.Tool.Plain
import RedisCluster.Properties.Handover

/-!
# Retrying `config()`

A retry finds what aborted attempts have left in `$cluster_config_dir`: only the marker is
tested. What `deploy()` reads does not show it, as every file that it reads is truncated or
written anew by the run that completes.

* `Cleaner`: a state whose tree is within that of another one.
* `follows_config`: what `config()` completes in a used directory it completes in an empty
  one, and the files are the same.
* `config_retry_eq`: the files that `deploy()` reads after failed attempts.
-/

namespace RedisCluster

open FileTree Errexit Script

variable {m : Machine} {c : Cluster}

/-! ## Side by side -/

/-- The tree of `t` is within that of `s`, up to the modes of files. The directories of the
    words `dirs` and the files at `files` are there in both, `CLUSTER_AUTH_PASS` is no
    directory, and no fault is to strike in `t`. -/
structure Cleaner (c : Cluster) (dirs : List PathWord) (files : List Path) (s t : Shell) : Prop where
  within : Within File.content t.fs s.fs
  noFaults : t.faults = []
  made : ∀ w ∈ dirs, IsAbsolute w ∧ ∀ p ∈ mkdirPaths [] [w], t.fs p = some .dir
  there : ∀ p ∈ files, isFile t.fs p = true
  authPass : s.fs (c.configEntry clusterAuthPass) ≠ some .dir

section Cleaner

variable {dirs : List PathWord} {files : List Path} {s t : Shell}

theorem Cleaner.mono (h : Cleaner c dirs files s t) {dirs' : List PathWord} {files' : List Path}
    (hd : ∀ w ∈ dirs', w ∈ dirs) (hf : ∀ p ∈ files', p ∈ files) : Cleaner c dirs' files' s t :=
  ⟨h.within, h.noFaults, fun w hw => h.made w (hd w hw), fun p hp => h.there p (hf p hp), h.authPass⟩

/-- A word of one more component can be followed, once its directories are there. -/
theorem resolve_snoc {fs : FS} {w : PathWord} (hw : IsAbsolute w)
    (hdirs : ∀ p ∈ mkdirPaths [] [w], fs p = some .dir) (cwd : Path) (n : Text) :
    resolve fs cwd (w ++ [n]) = some (target cwd (w ++ [n])) := by
  obtain ⟨ns, rfl⟩ := hw
  have hne : [] :: ns ++ [n] ≠ [[]] := by simp
  rw [resolve, if_neg hne]
  refine walk_eq_some_iff.mpr ⟨rfl, fun q hq => isDir_iff.mpr (hdirs q ?_)⟩
  have hstart : startOf cwd ([] :: ns ++ [n]) = ([], ns ++ [n]) := rfl
  rw [hstart, dropLast_visited_snoc] at hq
  simp only [mkdirPaths, List.flatMap_cons, List.flatMap_nil, List.append_nil]
  exact hq

/-- What can be written in the first state can be written in the second. -/
theorem Cleaner.fileTarget_eq (h : Cleaner c dirs files s t) {w : PathWord} (hw : w ∈ dirs)
    {n : Text} {p : Path} (hp : fileTarget s.fs s.cwd (w ++ [n]) = some p) :
    fileTarget t.fs t.cwd (w ++ [n]) = some p := by
  obtain ⟨habs, hdirs⟩ := h.made w hw
  obtain ⟨hr, hname, hdir⟩ := fileTarget_eq_some_iff.mp hp
  have hp' : p = target t.cwd (w ++ [n]) := by
    rw [resolve_eq_target hr, (habs.append [n]).target_eq]
  refine fileTarget_eq_some_iff.mpr ⟨?_, hname, ?_⟩
  · rw [resolve_snoc habs hdirs, hp']
  · rw [Bool.eq_false_iff]
    intro hd
    rw [isDir_iff.mpr (h.within.dir (isDir_iff.mp hd))] at hdir
    cases hdir

/-- A command that can be followed within keeps the states side by side. -/
theorem Cleaner.follows_exec {cm : Cmd} (hadd : cm.Additive)
    (hmakes : ∀ cwd, c.configEntry clusterAuthPass ∉ cm.makes cwd)
    (hstep : ∀ s t, Cleaner c dirs files s t → (cm.run m s.cwd s.fs).2 = true →
      (cm.run m t.cwd t.fs).2 = true ∧
        Within File.content (cm.run m t.cwd t.fs).1 (cm.run m s.cwd s.fs).1) :
    Follows (Cleaner c dirs files) (exec m cm) (Cleaner c dirs files) := by
  intro s t _ s' h hrun
  have hauth := ne_dir_of_exec hadd (hmakes s.cwd) h.authPass hrun
  obtain ⟨hok, hs'⟩ := exec_eq_some_iff.mp hrun
  have hfs := Shell.after_fs_of_ok hok
  rw [Shell.run_of_outcome hok] at hok
  obtain ⟨hok', hwithin⟩ := hstep s t h hok
  have hout := outcome_of_noFaults (m := m) h.noFaults cm
  have hrun' : (exec m cm).run t = (some (), t.after m cm) :=
    exec_eq_some_iff.mpr ⟨by rw [hout, hok'], rfl⟩
  have hfs' : (t.after m cm).fs = (cm.run m t.cwd t.fs).1 := congrArg Prod.fst hout
  have hgrows : Grows t.fs (t.after m cm).fs := grows_of_exec hadd hrun'
  refine ⟨_, hrun', ?_, ?_, fun w hw => ⟨(h.made w hw).1, fun p hp => ?_⟩, fun p hp => ?_, hauth⟩
  · rw [hs', hfs, hfs']
    exact hwithin
  · rw [Shell.after, h.noFaults, List.tail_nil]
  · exact (hgrows p).1 ((h.made w hw).2 p hp)
  · exact (hgrows p).2 (h.there p hp)

theorem Cleaner.follows_mkdirP {w : PathWord} (hw : IsAbsolute w)
    (hmakes : c.configEntry clusterAuthPass ∉ mkdirPaths [] [w]) :
    Follows (Cleaner c dirs files) (exec m (.mkdirP [w])) (Cleaner c (w :: dirs) files) := by
  have hpaths : ∀ cwd, mkdirPaths cwd [w] = mkdirPaths [] [w] := by
    intro cwd
    simp only [mkdirPaths, List.flatMap_cons, List.flatMap_nil, hw.startOf_eq (d := [])]
  have hstep : Follows (Cleaner c dirs files) (exec m (.mkdirP [w])) (Cleaner c dirs files) := by
    refine Cleaner.follows_exec trivial (fun cwd => ?_) fun s t h hok => ?_
    · rw [Cmd.makes, hpaths]
      exact hmakes
    · simp only [Cmd.run, hpaths s.cwd, hpaths t.cwd] at hok ⊢
      exact h.within.of_makeDirs hok
  intro s t a s' h hrun
  obtain ⟨t', hrun', h'⟩ := hstep s t a s' h hrun
  refine ⟨t', hrun', h'.within, h'.noFaults, fun v hv => ?_, h'.there, h'.authPass⟩
  rcases List.mem_cons.mp hv with rfl | hv
  · refine ⟨hw, fun p hp => ?_⟩
    obtain ⟨hok, rfl⟩ := exec_eq_some_iff.mp hrun'
    rw [Shell.after_fs_of_ok hok]
    rw [Shell.run_of_outcome hok, Cmd.run, hpaths] at hok
    rw [Cmd.run, hpaths]
    exact makeDirs_isDir hok hp
  · exact h'.made v hv

theorem Cleaner.follows_write {w : PathWord} (hw : w ∈ dirs) {n : Text} (text : Text) :
    Follows (Cleaner c dirs files) (exec m (.write (w ++ [n]) text))
      (Cleaner c dirs (target [] (w ++ [n]) :: files)) := by
  have hstep : Follows (Cleaner c dirs files) (exec m (.write (w ++ [n]) text))
      (Cleaner c dirs files) := by
    refine Cleaner.follows_exec trivial (fun _ => by simp [Cmd.makes]) fun s t h hok => ?_
    simp only [Cmd.run] at hok ⊢
    cases htarget : fileTarget s.fs s.cwd (w ++ [n]) with
    | none => simp [htarget] at hok
    | some p =>
      rw [h.fileTarget_eq hw htarget]
      exact ⟨rfl, h.within.set_file rfl⟩
  intro s t a s' h hrun
  obtain ⟨t', hrun', h'⟩ := hstep s t a s' h hrun
  refine ⟨t', hrun', h'.within, h'.noFaults, h'.made, fun p hp => ?_, h'.authPass⟩
  rcases List.mem_cons.mp hp with rfl | hp
  · obtain ⟨q, hq, hfile⟩ := testF_eq_true_iff.mp (testF_of_exec_write hrun')
    rwa [resolve_eq_target hq, ((h.made w hw).1.append [n]).target_eq (d := [])] at hfile
  · exact h'.there p hp

theorem Cleaner.follows_append {w : PathWord} (hw : w ∈ dirs) {n : Text}
    (hfile : target [] (w ++ [n]) ∈ files) (text : Text) :
    Follows (Cleaner c dirs files) (exec m (.append (w ++ [n]) text)) (Cleaner c dirs files) := by
  refine Cleaner.follows_exec trivial (fun _ => by simp [Cmd.makes]) fun s t h hok => ?_
  simp only [Cmd.run] at hok ⊢
  cases htarget : fileTarget s.fs s.cwd (w ++ [n]) with
  | none => simp [htarget] at hok
  | some p =>
    have htarget' := h.fileTarget_eq hw htarget
    have hp : isFile t.fs p = true := by
      rw [resolve_eq_target (fileTarget_eq_some_iff.mp htarget').1,
        ((h.made w hw).1.append [n]).target_eq (d := [])]
      exact h.there _ hfile
    have hsame := h.within.dataAt_eq hp
    rw [htarget']
    refine ⟨rfl, h.within.set_file ?_⟩
    simp only [hsame]

theorem Cleaner.follows_pipeline {w : PathWord} (hw : w ∈ dirs) (n : Text) (p : Pipeline) :
    Follows (Cleaner c dirs files) (exec m (.pipeline p (w ++ [n]))) (Cleaner c dirs files) := by
  refine Cleaner.follows_exec trivial (fun _ => by simp [Cmd.makes]) fun s t h hok => ?_
  simp only [Cmd.run] at hok ⊢
  cases htarget : fileTarget s.fs s.cwd (w ++ [n]) with
  | none => simp [htarget] at hok
  | some q =>
    rw [h.fileTarget_eq hw htarget]
    simp only [htarget] at hok ⊢
    split at hok
    · next hopens =>
      rw [if_pos hopens, if_pos hopens]
      exact ⟨hok, h.within.set_file rfl⟩
    · cases hok

/-- The copy of the password file. -/
theorem Cleaner.follows_authPass (hw : c.clusterConfigDir ∈ dirs) (source : Option Text)
    (name : Text) : Follows (Cleaner c dirs files)
      (exec m (.copyIn source name (c.inConfig clusterAuthPass))) (Cleaner c dirs files) := by
  refine Cleaner.follows_exec trivial (fun _ => by simp [Cmd.makes]) fun s t h hok => ?_
  have hnot : ∀ {u : Shell}, u.fs (c.configEntry clusterAuthPass) ≠ some .dir →
      copyTarget u.fs u.cwd (c.inConfig clusterAuthPass) name =
        fileTarget u.fs u.cwd (c.inConfig clusterAuthPass) := by
    intro u hu
    refine if_neg fun hD => ?_
    obtain ⟨p, hp, hp'⟩ := testD_eq_true_iff.mp hD
    rw [resolve_eq_target hp, target_inConfig c isName_clusterAuthPass] at hp'
    exact hu (isDir_iff.mp hp')
  have htdir : t.fs (c.configEntry clusterAuthPass) ≠ some .dir :=
    fun hd => h.authPass (h.within.dir hd)
  simp only [Cmd.run, hnot h.authPass, hnot htdir] at hok ⊢
  cases htarget : fileTarget s.fs s.cwd (c.inConfig clusterAuthPass) with
  | none => simp [htarget] at hok
  | some p =>
    rw [show fileTarget t.fs t.cwd (c.inConfig clusterAuthPass) = some p from
      h.fileTarget_eq hw htarget]
    cases source with
    | none => simp [htarget] at hok
    | some text => exact ⟨rfl, h.within.set_file rfl⟩

end Cleaner

/-! ## `config()` follows -/

/-- The words and files that the loop over the nodes relies on. -/
def Looping (c : Cluster) (dirs : List PathWord) : Shell → Shell → Prop :=
  Cleaner c (dirs ++ [c.clusterConfigDir]) [c.configEntry clusterAllNodes]

section Follows

variable (hplain : PlainNodes m c)

theorem target_allNodes (c : Cluster) :
    target [] (c.clusterConfigDir ++ [clusterAllNodes]) = c.configEntry clusterAllNodes :=
  target_inConfig c (by decide +kernel) []

theorem follows_configScripts {n : Node} (hn : IsNode m c n) :
    Follows (Looping c [c.nodeconfdir n.nodeid]) (configScripts m c n)
      (Looping c [c.nodeconfdir n.nodeid]) := by
  simp only [configScripts, hn.tls]
  refine follows_bind (Cleaner.follows_authPass (by simp) _ _) fun _ => ?_
  refine follows_bind (Cleaner.follows_pipeline (by simp) _ _) fun _ => ?_
  refine follows_bind (Cleaner.follows_pipeline (by simp) _ _) fun _ => ?_
  exact follows_bind (Cleaner.follows_pipeline (by simp) _ _) fun _ => follows_pure ()

theorem follows_configTail : Follows (Looping c []) (configTail m c) (Looping c []) :=
  follows_bind (Cleaner.follows_pipeline (by simp) _ _) fun _ =>
    Cleaner.follows_pipeline (by simp) _ _

theorem follows_configMarker : Follows (Looping c []) (exec m (configMarker m c)) (Looping c []) := by
  unfold configMarker Cluster.inConfig
  exact (Cleaner.follows_write (by simp) _).mono (fun _ _ h => h)
    fun _ _ h => h.mono (fun _ hw => hw) (by simp)

include hplain

theorem follows_configInstance {pass : Text} {n : Node} (hn : IsNode m c n) {p : Text × ℕ}
    (hp : p.1 ∈ n.ports) : Follows (Looping c [c.nodeconfdir n.nodeid])
      (configInstance m c pass n p) (Looping c [c.nodeconfdir n.nodeid]) := by
  have hconf := nodeConfFile_eq (c := c) (hplain.ids _ hn.listed) (hplain.ports _ hn.listed _ hn.ports p.1 hp)
  simp only [configInstance, hn.tls, hconf]
  refine follows_bind ?_ fun _ => Cleaner.follows_pipeline (by simp) _ _
  refine Cleaner.follows_append (by simp) ?_ _
  rw [target_allNodes]
  exact List.mem_singleton_self _

theorem follows_configNode (hcanon : c.Canonical) {pass nodeid : Text} (hid : Listed m c nodeid) :
    Follows (Looping c []) (configNode m c pass nodeid) (Looping c []) := by
  have hmakes : c.configEntry clusterAuthPass ∉ mkdirPaths [] [c.nodeconfdir nodeid] :=
    ConfigAct.not_makes_entry hplain hcanon (Or.inl (.nodeDir hid)) rfl [] (by simp [outputNames])
  have hread : Follows (Looping c [c.nodeconfdir nodeid]) (readNode m c nodeid)
      (Looping c [c.nodeconfdir nodeid]) := by
    intro s t n s' h hrun
    obtain ⟨hn, rfl⟩ := readNode_eq_nodeAt.mp hrun
    rw [hplain.stable.nodeAt_eq s t] at hn
    exact ⟨t, readNode_eq_nodeAt.mpr ⟨hn, rfl⟩, h⟩
  have hreturns : Returns (fun _ => True) (readNode m c nodeid)
      fun n => IsNode m c n ∧ n.nodeid = nodeid := by
    intro s n t _ hrun
    refine ⟨returns_readNode m c hid s n t trivial hrun, ?_⟩
    rw [(readNode_eq_nodeAt.mp hrun).1, nodeAt_nodeid]
  unfold configNode
  refine follows_bind (Cleaner.follows_mkdirP (isAbsolute_nodeconfdir c nodeid) hmakes) fun _ => ?_
  refine follows_bind_of_returns hread hreturns fun n ⟨hn, hnodeid⟩ => ?_
  subst hnodeid
  refine follows_bind (follows_forEach fun p hp => ?_) fun _ => ?_
  · exact follows_configInstance hplain hn (mem_of_mem_zipIdx hp)
  · exact (follows_configScripts hn).mono (fun _ _ h => h)
      fun _ _ h => h.mono (by simp) fun _ hp => hp

/-- What `config()` completes in the first state it completes in the second. -/
theorem follows_config (hcanon : c.Canonical) : Follows (Cleaner c [] []) (config m c)
    (Looping c []) := by
  intro s u _ t h hrun
  obtain ⟨t', hbody, hmarker⟩ := config_eq_some_iff.mp hrun
  obtain ⟨hfresh, s₁, hmk, hpass, s₂, hwrite, s₃, hloop, htail⟩ := configBody_eq_some_iff.mp hbody
  have hmakes : c.configEntry clusterAuthPass ∉ mkdirPaths [] [c.clusterConfigDir] :=
    ConfigAct.not_makes_entry hplain hcanon (Or.inl .configDir) rfl [] (by simp [outputNames])
  have hfresh' : testF u.fs u.cwd (c.inConfig configSuccess) = false := by
    rw [Bool.eq_false_iff]
    intro hthere
    rw [(isAbsolute_inConfig c _).testF_of_within h.within hthere] at hfresh
    cases hfresh
  obtain ⟨u₁, hmk', h₁⟩ :=
    Cleaner.follows_mkdirP (isAbsolute_clusterConfigDir c) hmakes s u () s₁ h hmk
  obtain ⟨u₂, hwrite', h₂⟩ := Cleaner.follows_write (by simp) [] s₁ u₁ () s₂ h₁ hwrite
  rw [target_allNodes] at h₂
  have hnodes : Follows (Looping c [])
      (forEach (nodesAt m c s₂) (configNode m c (c.redisAuthPass.getD []))) (Looping c []) :=
    follows_forEach fun nodeid hn => follows_configNode hplain hcanon (listed_of_mem_nodesAt hn)
  rw [hplain.stable.nodesAt_eq s₂ u₂] at hloop hnodes
  obtain ⟨u₃, hloop', h₃⟩ := hnodes s₂ u₂ () s₃ h₂ hloop
  obtain ⟨u₄, htail', h₄⟩ := follows_configTail s₃ u₃ () t' h₃ htail
  obtain ⟨u₅, hmarker', h₅⟩ := follows_configMarker t' u₄ () t h₄ hmarker
  refine ⟨u₅, config_eq_some_iff.mpr ⟨u₄, ?_, hmarker'⟩, h₅⟩
  exact configBody_eq_some_iff.mpr ⟨hfresh', u₁, hmk', hpass, u₂, hwrite', u₃, hloop', htail'⟩

end Follows

/-! ## Attempts -/

/-- A run of `config()`: on some machine, with its own inputs, in some directory, struck by
    faults or not. -/
structure Attempt where
  machine : Machine
  cluster : Cluster
  cwd : Path
  faults : List (Option Fault)

/-- The tree that an attempt leaves. -/
def Attempt.leaves (fs : FS) (a : Attempt) : FS :=
  ((config a.machine a.cluster).run
    { fs := fs, cwd := a.cwd, answers := [], faults := a.faults, trace := [] }).2.fs

/-- An attempt for the cluster of `c`, with plain nodes; its faults leave no directories in
    the place of files. -/
structure AttemptFor (c : Cluster) (a : Attempt) : Prop where
  tool : a.cluster.tool = c.tool
  clusterid : a.cluster.clusterid = c.clusterid
  plain : PlainNodes a.machine a.cluster
  faults : PlainFaults a.faults

/-- What attempts leave on the tree `fs₀`: more in `$cluster_config_dir`, and the directories
    above it. -/
structure Leftover (c : Cluster) (fs₀ fs : FS) : Prop where
  within : Within File.content fs₀ fs
  authPass : fs (c.configEntry clusterAuthPass) ≠ some .dir
  noTls : isFile fs (c.configEntry clusterTlsNodes) = false

section Attempts

variable {fs₀ : FS}

theorem leftover_refl (hempty : EmptyBelow fs₀ c.configTarget) : Leftover c fs₀ fs₀ where
  within := Within.refl _ _
  authPass := by simp [hempty.entry]
  noTls := by simp [isFile, hempty.entry]

/-- A command of an attempt adds to what is left. -/
theorem Leftover.after (hempty : EmptyBelow fs₀ c.configTarget) (hplain : PlainNodes m c)
    (hcanon : c.Canonical) {s : Shell} (h : Leftover c fs₀ s.fs) (hfaults : PlainFaults s.faults)
    {a : Act} (ha : WithMarker (ConfigAct m c) (configMarker m c) a) {cm : Cmd} (hcm : a.Issues cm) :
    Leftover c fs₀ (s.after m cm).fs := by
  have hadd : cm.Additive := by
    rcases ha with ha | rfl
    · obtain ⟨cm', rfl, hadd⟩ := ConfigAct.additive a ha
      cases hcm
      exact hadd
    · cases hcm
      trivial
  have hchanges := s.changes_after m cm
  refine ⟨fun p => ?_, ?_, ?_⟩
  · rcases hchanges p with e | htouch | ⟨-, hnone, -⟩
    · rw [e]
      exact h.within p
    · obtain ⟨hbelow, hne⟩ := ConfigAct.touches_below hplain ha hcm htouch
      exact Or.inl (hempty p hbelow hne)
    · left
      rcases h.within p with h | h
      · exact h
      · rw [hnone, Option.map_none, eq_comm, Option.map_eq_none_iff] at h
        exact h
  · refine Shell.ne_dir_after hfaults hadd ?_ h.authPass
    exact ConfigAct.not_makes_entry hplain hcanon ha hcm s.cwd (by simp [outputNames])
  · rw [hchanges.isFile_eq, h.noTls]
    intro htouch
    rcases ha with ha | rfl
    · rw [Set.mem_ofPred_eq, ha.not_touches_entry hcm not_isConfigName_clusterTlsNodes.1
        not_isConfigName_clusterTlsNodes.2] at htouch
      cases htouch
    · cases hcm
      obtain ⟨d, hd⟩ := name_of_touches (Or.inl ⟨_, rfl⟩) htouch
      have hlast : [clusterTlsNodes] = [lastName (c.inConfig configSuccess)] :=
        List.append_inj_right' hd rfl
      rw [Cluster.inConfig, lastName_snoc] at hlast
      exact absurd hlast (by decide +kernel)

/-- So does an attempt. -/
theorem Leftover.leaves (hempty : EmptyBelow fs₀ c.configTarget) (hcanon : c.Canonical) {fs : FS}
    (h : Leftover c fs₀ fs) {a : Attempt} (ha : AttemptFor c a) : Leftover c fs₀ (a.leaves fs) := by
  have hpath : configPath a.cluster.tool a.cluster.clusterid = configPath c.tool c.clusterid := by
    rw [ha.tool, ha.clusterid]
  have htarget : a.cluster.configTarget = c.configTarget := by
    unfold Cluster.configTarget Cluster.clusterConfigDir
    rw [hpath]
  have hentry : a.cluster.configEntry = c.configEntry := by
    funext n
    unfold Cluster.configEntry
    rw [htarget]
  have hcanon' : a.cluster.Canonical := by
    unfold Cluster.Canonical
    rw [hpath]
    exact hcanon
  have hiff : ∀ fs, Leftover c fs₀ fs ↔ Leftover a.cluster fs₀ fs := by
    intro fs
    constructor
    · exact fun h => ⟨h.within, by rw [hentry]; exact h.authPass, by rw [hentry]; exact h.noTls⟩
    · exact fun h => ⟨h.within, by rw [← hentry]; exact h.authPass, by rw [← hentry]; exact h.noTls⟩
  rw [← htarget] at hempty
  have hkeeps := (built_config a.machine a.cluster).keeps_commands
    (I := fun s => Leftover a.cluster fs₀ s.fs ∧ PlainFaults s.faults)
    (fun b hb cm hcm s hs => ⟨hs.1.after hempty ha.plain hcanon' hs.2 hb hcm,
      fun f hf => hs.2 f (List.mem_of_mem_tail hf)⟩)
    (fun s e as _ hs => hs)
  exact (hiff _).mpr (hkeeps _ ⟨(hiff fs).mp h, ha.faults⟩).1

theorem leftover_foldl (hempty : EmptyBelow fs₀ c.configTarget) (hcanon : c.Canonical)
    {attempts : List Attempt} (hattempts : ∀ a ∈ attempts, AttemptFor c a) {fs : FS}
    (h : Leftover c fs₀ fs) : Leftover c fs₀ (attempts.foldl Attempt.leaves fs) := by
  induction attempts generalizing fs with
  | nil => exact h
  | cons a attempts ih =>
    exact ih (fun b hb => hattempts b (by simp [hb])) (h.leaves hempty hcanon (hattempts a (by simp)))

end Attempts

/-! ## The result -/

/-- The files of `$cluster_config_dir` that `deploy()` tests or copies, when every node may be
    local. -/
def DeployReads (m : Machine) (c : Cluster) (t : Shell) (w : PathWord) : Prop :=
  Copied m c t w ∨ w = c.inConfig configSuccess ∨ w = c.inConfig clusterTlsNodes

/-- A file of the smaller tree has the same content in the larger one. -/
theorem contentAt_of_within {fs fs' : FS} (h : Within File.content fs fs') {w : PathWord}
    (hw : IsAbsolute w) {d : Path} (hfile : testF fs d w = true) :
    contentAt fs' w = contentAt fs w := by
  rw [hw.testF_eq (d := [])] at hfile
  obtain ⟨p, hp, hfile⟩ := testF_eq_true_iff.mp hfile
  rw [contentAt, contentAt, hp, resolve_of_within h hp, Option.bind_some, Option.bind_some]
  exact h.dataAt_eq hfile

/-- An entry that is no file has no content. -/
theorem contentAt_entry_eq_none {fs : FS} {n : Text} (hname : IsName n)
    (h : isFile fs (c.configEntry n) = false) : contentAt fs (c.inConfig n) = none := by
  rw [contentAt, Option.map_eq_none_iff, Option.bind_eq_none_iff]
  intro p hp
  rw [resolve_eq_target hp, target_inConfig c hname, Option.eq_none_iff_forall_ne_some]
  intro d hd
  rw [isFile_iff.mpr ⟨d, dataAt_eq_some_iff.mp hd⟩] at h
  cases h

theorem Copied.isAbsolute {t : Shell} {w : PathWord} (h : Copied m c t w) : IsAbsolute w := by
  cases h with
  | conf => exact isAbsolute_nodeConfFile c _ _
  | script | tlsScript => exact (isAbsolute_nodeconfdir c _).append _
  | fixed => exact isAbsolute_inConfig c _

/-- No run of `config()` makes `CLUSTER_TLS_NODES`. -/
theorem config_isFile_tlsNodes {s t : Shell} (hrun : (config m c).run s = (some (), t))
    (h : isFile s.fs (c.configEntry clusterTlsNodes) = false) :
    isFile t.fs (c.configEntry clusterTlsNodes) = false := by
  have hsame := config_dataAt_clusterTlsNodes m c hrun
  rw [isFile_eq_false_iff] at h ⊢
  intro d hd
  rw [dataAt_eq_some_iff.mpr hd, eq_comm, dataAt_eq_some_iff] at hsame
  exact h d hsame

/-- **What `deploy()` reads after failed attempts** is what it would read had only the last
    `config()` been run, in an empty directory. -/
theorem config_retry_eq (hplain : PlainNodes m c) (hcanon : c.Canonical) {fs₀ : FS}
    (hempty : EmptyBelow fs₀ c.configTarget) {attempts : List Attempt}
    (hattempts : ∀ a ∈ attempts, AttemptFor c a) {s t : Shell}
    (hs : s.fs = attempts.foldl Attempt.leaves fs₀) (hnodes : nodesAt m c s ≠ [])
    (hrun : (config m c).run s = (some (), t)) :
    ∃ t₀, (config m c).run
        { fs := fs₀, cwd := s.cwd, answers := [], faults := [], trace := [] } = (some (), t₀) ∧
      ∀ w, DeployReads m c t w → contentAt t.fs w = contentAt t₀.fs w := by
  have hleft := leftover_foldl hempty hcanon hattempts (leftover_refl hempty)
  rw [← hs] at hleft
  obtain ⟨t₀, hrun₀, hwithin, -⟩ := follows_config hplain hcanon s
    { fs := fs₀, cwd := s.cwd, answers := [], faults := [], trace := [] } () t
    ⟨hleft.within, rfl, by simp, by simp, hleft.authPass⟩ hrun
  refine ⟨t₀, hrun₀, fun w hw => ?_⟩
  have htls := config_isFile_tlsNodes hrun hleft.noTls
  obtain ⟨r⟩ := configRun_of_some hrun₀
  rcases hw with hw | rfl | rfl
  · refine contentAt_of_within hwithin hw.isAbsolute (d := t₀.cwd) ?_
    obtain ⟨first, rest, hids⟩ := List.exists_cons_of_ne_nil hnodes
    have hfirst : Listed m c first := listed_of_mem_nodesAt (s := s) (by simp [hids])
    have hauth := (r.testF_authPass_iff hplain.stable (hempty.entry _)).mpr
      ⟨first, rest, by rw [← hids]; exact hplain.stable.nodesAt_eq _ s,
        ConfigAct.not_makes_entry hplain hcanon (Or.inl (.nodeDir hfirst)) rfl []
          (by simp [outputNames])⟩
    refine (handedOver_of_authPass hplain.stable hempty hrun₀ hauth).files w ?_
    cases hw with
    | conf hn hp =>
      rw [hplain.stable.nodesAt_eq t t₀] at hn
      rw [hplain.stable.listAt_eq t t₀] at hp
      exact .conf hn hp
    | script hn hstem =>
      rw [hplain.stable.nodesAt_eq t t₀] at hn
      exact .script hn hstem
    | fixed hname => exact .fixed hname
    | tlsScript hn ht =>
      rw [isFile_of_testF_inConfig (by decide +kernel) ht] at htls
      cases htls
  · refine contentAt_of_within hwithin (isAbsolute_inConfig c _) (d := r.tailed.cwd) ?_
    exact testF_of_exec_write r.marker
  · rw [contentAt_entry_eq_none (by decide +kernel) htls, contentAt_entry_eq_none (by decide +kernel)]
    refine config_isFile_tlsNodes hrun₀ ?_
    simp [isFile, hempty.entry]

/-- A cluster for the same directory with two nodes. -/
def twoNodesCluster : Cluster :=
  let cfg := "[redis_cluster]\nnodes=\"n2,n3\"\n[n2]\nhost=\"h2\"\nconf=\"c0\"\naddrs=\"a2\"\nports=\"7000\"\n[n3]\nhost=\"h3\"\nconf=\"c0\"\naddrs=\"a3\"\nports=\"7001\"\n"
  demoCluster demoIni (demoInputs demoIni cfg.toList "old".toList "x".toList "s".toList)

/-- A first attempt with it, which is interrupted at the second node: its ninth command fails. -/
def demoAttempt : Attempt where
  machine := plainHost
  cluster := twoNodesCluster
  cwd := []
  faults := List.replicate 8 none ++ [some ⟨fun _ => none, 0⟩]

/-- What the attempt leaves. -/
def afterAttempt : Shell := { demoShell with fs := demoAttempt.leaves demoShell.fs }

/-- On a plain host it can be computed that the nodes are plain. -/
theorem plainNodes_of_plainHost {c : Cluster}
    (hcfg : (records c.nodesCfg).any (fun r => (valueField r).any isGlobChar) = false)
    (hids : ∀ id ∈ nodesAt plainHost c demoShell, PlainId id ∧
      ∀ port ∈ listAt plainHost c demoShell id "ports".toList, port.all Char.isDigit = true) :
    PlainNodes plainHost c := by
  have hglob := globFreeSettings_plainHost hcfg
  have hstable := stableReads_of_globFree hglob
  refine ⟨hglob, fun id hid => (hids id (hstable.mem_nodesAt demoShell hid)).1, ?_⟩
  intro id hid l hl port hport ch hch
  rw [hstable.eq_listAt demoShell hl] at hport
  exact List.all_eq_true.mp ((hids id (hstable.mem_nodesAt demoShell hid)).2 port hport) ch hch

theorem config_retry_eq_demo :
    ∃ t₀, (config plainHost oneNodeCluster).run
        { fs := demoShell.fs, cwd := afterAttempt.cwd, answers := [], faults := [], trace := [] } =
          (some (), t₀) ∧
      ∀ w, DeployReads plainHost oneNodeCluster
          ((config plainHost oneNodeCluster).run afterAttempt).2 w →
        contentAt ((config plainHost oneNodeCluster).run afterAttempt).2.fs w = contentAt t₀.fs w := by
  have hplain : PlainNodes plainHost oneNodeCluster :=
    plainNodes_of_plainHost (by decide +kernel) (by decide +kernel)
  have htwo : PlainNodes plainHost twoNodesCluster :=
    plainNodes_of_plainHost (by decide +kernel) (by decide +kernel)
  have hattempts : ∀ a ∈ [demoAttempt], AttemptFor oneNodeCluster a := by
    intro a ha
    rw [List.mem_singleton.mp ha]
    refine ⟨by decide +kernel, by decide +kernel, htwo, fun f hf p => ?_⟩
    have hf' : some f = some (⟨fun _ => none, 0⟩ : Fault) := by
      simpa [demoAttempt] using hf
    rw [Option.some.inj hf']
    simp
  have hfs : afterAttempt.fs = [demoAttempt].foldl Attempt.leaves demoShell.fs := by
    rw [List.foldl_cons, List.foldl_nil, afterAttempt]
  exact config_retry_eq hplain (by decide +kernel) (emptyBelow_demoShell _) hattempts hfs
    (by decide +kernel) (run_eq_of_fst (by decide +kernel))

end RedisCluster
