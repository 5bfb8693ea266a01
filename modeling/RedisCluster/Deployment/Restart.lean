import RedisCluster.Shell.Edits
import RedisCluster.Deployment.Delivery
import RedisCluster.Properties.Combined

/-!
# A deployment that was cut off

`CLUSTER_ALL_NODES` is copied last, so a `deploy()` that was cut off is not refused the next
time. Its steps make and overwrite what the ones before have left, all but the copy of the
certificates, which would be put into the copy that is there.

* `Reinstalls`: the installations lay the same files each time.
* `Underway`: what the steps keep; `repeatable_act`: each of them can be repeated.
* `deploy_restarts`: cut off in front of the certificates and run again, `deploy()` leaves what it
  would have left at once.
-/

namespace RedisCluster

open FileTree Errexit Script

/-- The package directories are there, and each `make install` lays the same files whenever it is
    run; the list of the nodes is none of them. -/
structure Reinstalls (m : Machine) (c : Cluster) (fs : FS) : Prop where
  redisDir : testD fs [] c.redisBuildDir = true
  hiredisDir : testD fs [] c.hiredisBuildDir = true
  redis : ∃ files, files (c.homeEntry clusterAllNodes) = none ∧
    LaysFiles m (redisInstallArgs c fs []) (target [] c.redisBuildDir) c.homeTarget fs files
  hiredis : ∃ files, files (c.homeEntry clusterAllNodes) = none ∧
    LaysFiles m (hiredisInstallArgs c fs []) (target [] c.hiredisBuildDir) c.homeTarget fs files

/-- What the steps keep, from a state `s` in which the config directory and the home directory are
    there. -/
structure Underway (c : Cluster) (s u : Shell) : Prop where
  noFaults : u.faults = []
  answers : u.answers = s.answers
  config : SameAround c.configTarget s.fs u.fs
  grown : Grows s.fs u.fs

section Steps

variable {m : Machine} {c : Cluster} {s u v : Shell} {a : Act} {cm : Cmd}

theorem testD_of_grows {fs fs' : FS} {cwd : Path} {w : PathWord} (h : Grows fs fs')
    (hw : testD fs cwd w = true) : testD fs' cwd w = true := by
  obtain ⟨p, hp, hdir⟩ := testD_eq_true_iff.mp hw
  exact testD_eq_true_iff.mpr
    ⟨p, resolve_of_grows h hp, isDir_iff.mpr ((h p).1 (isDir_iff.mp hdir))⟩

theorem underway_refl (h : s.faults = []) : Underway c s s :=
  ⟨h, rfl, fun _ _ => rfl, Grows.refl _⟩

theorem Underway.trans (h : Underway c s u) (h' : Underway c u v) : Underway c s v where
  noFaults := h'.noFaults
  answers := h'.answers.trans h.answers
  config := fun p hp => (h'.config p hp).trans (h.config p hp)
  grown := h.grown.trans h'.grown

/-- The steps that take nothing away keep it. -/
theorem Underway.after (h : PlainPaths m c) (hsep : Separate c.homeTarget c.configTarget)
    (hs : testF s.fs s.cwd (c.inConfig configSuccess) = true)
    (ha : WithMarker (DeployAct m c) (deployMarker c) (.cmd cm)) (hadd : cm.Additive)
    (hu : Underway c s u) : Underway c s (u.after m cm) where
  noFaults := by rw [Shell.after, hu.noFaults, List.tail_nil]
  answers := hu.answers
  config := by
    have hkeeps := DeployAct.keeps_config h hsep hs ha u hu.config
    rw [Act.run, exec_run_snd] at hkeeps
    exact hkeeps
  grown := by
    refine hu.grown.trans ?_
    rw [Shell.after, outcome_of_noFaults hu.noFaults]
    exact cm.grows_run m u.cwd u.fs hadd

/-- A source in the config directory is the same in two such states. -/
theorem Underway.sameSource (hu : Underway c s u) (hv : Underway c s v) {src dest x : PathWord}
    (hsrc : Into c.configTarget src x) : (Cmd.cp src dest).SameSource u.fs v.fs := by
  have hsame : SameAround c.configTarget u.fs v.fs := fun p hp =>
    (hv.config p hp).trans (hu.config p hp).symm
  refine ⟨hsame.resolve_eq hsrc, fun q hq => hsame q (Or.inl ?_)⟩
  exact hsrc.prefix_of_resolve hq

theorem PlainPaths.into_nodeconfdir (h : PlainPaths m c) {id : Text} (hid : IsPlainName id)
    {x : PathWord} (hx : ['.', '.'] ∉ x) :
    Into c.configTarget (c.nodeconfdir id ++ x) (pathWord id ++ x) := by
  rw [Cluster.nodeconfdir, List.append_assoc]
  exact h.into_config (by simp [hid.noDots, hx])

/-- The commands of `deploy()` but the installations and the copy of the certificates. -/
theorem DeployAct.edits (h : PlainPaths m c) (ha : DeployAct m c (.cmd cm))
    (hcerts : (.cmd cm : Act) ≠ certsAct c) : cm.Edits ∧ cm.Additive ∧
      (∀ u v, Underway c s u → Underway c s v → cm.SameSource u.fs v.fs) ∧
      ∀ cwd fs, cm.touches m cwd fs (c.homeEntry clusterAllNodes) = false := by
  have hname : NotInstalled clusterAllNodes := by decide +kernel
  have havoid : ∀ id, ScriptsAvoid id clusterAllNodes := fun id =>
    scriptsAvoid_of_not_sh id (by decide +kernel)
  cases ha with
  | homeDirs => exact ⟨trivial, trivial, fun _ _ _ _ => trivial, fun _ _ => rfl⟩
  | @conf nodeid port ports hid hl hp =>
    have hsrc := h.into_nodeconfdir (h.ids _ hid)
      (noDots_confName (h.ids _ hid) (h.ports _ hid _ hl port hp))
    refine ⟨trivial, trivial, fun u v hu hv => hu.sameSource hv hsrc, fun cwd fs => ?_⟩
    refine not_touches_cp (lastName_nodeConfFile_ne c nodeid port) (fun hempty => ?_) cwd fs _
    exact absurd (by simp [lastName]) hempty.1
  | @copyScript nodeid stem hid hstem =>
    have hdots : ['.', '.'] ∉ [(stem ++ ".sh").toList] := by
      simp only [scriptStems, List.mem_cons, List.not_mem_nil, or_false] at hstem
      rcases hstem with rfl | rfl | rfl | rfl <;> decide +kernel
    have hsrc := h.into_nodeconfdir (h.ids _ hid) hdots
    refine ⟨trivial, trivial, fun u v hu hv => hu.sameSource hv hsrc, fun cwd fs => ?_⟩
    refine not_touches_cp ?_ (fun _ => ?_) cwd fs _
    · rw [lastName_snoc]
      exact hname.stem_ne hstem
    · rw [lastName_script]
      exact havoid nodeid stem hstem
  | @chmodScript nodeid stem hid hstem =>
    refine ⟨trivial, trivial, fun _ _ _ _ => trivial, fun cwd fs => ?_⟩
    refine not_touches_chmodX ?_ cwd fs _
    rw [lastName_script]
    exact havoid nodeid stem hstem
  | chmodCreate =>
    refine ⟨trivial, trivial, fun _ _ _ _ => trivial, fun cwd fs => ?_⟩
    refine not_touches_chmodX ?_ cwd fs _
    rw [Cluster.inHome, lastName_snoc]
    decide +kernel
  | @copyHome name hmem =>
    have hplain : ['.', '.'] ∉ [name] ∧ name ≠ clusterAllNodes := by
      simp only [List.mem_cons, List.not_mem_nil, or_false] at hmem
      rcases hmem with rfl | rfl | rfl | rfl <;> decide +kernel
    refine ⟨trivial, trivial, fun u v hu hv => hu.sameSource hv (h.into_config hplain.1),
      fun cwd fs => ?_⟩
    refine not_touches_cp ?_ (fun hempty => ?_) cwd fs _
    · rw [lastName_inConfig]
      exact hplain.2
    · rw [Cluster.homeSlash, lastName_snoc] at hempty
      exact absurd rfl hempty.1
  | certs => exact absurd rfl hcerts

/-- An installation, from a state in which its directories are there. -/
theorem repeatable_install (h : PlainPaths m c) (hsep : Separate c.homeTarget c.configTarget)
    (hs : testF s.fs s.cwd (c.inConfig configSuccess) = true)
    (hhome : resolve s.fs [] c.clusterHomeDir = some c.homeTarget) {dir : PathWord}
    {args : List Text} (hdir : IsAbsolute dir) (hthere : testD s.fs [] dir = true)
    (hinstalls : ∃ files, files (c.homeEntry clusterAllNodes) = none ∧
      LaysFiles m args (target [] dir) c.homeTarget s.fs files)
    (ha : DeployAct m c (.list dir (fun _ _ => args) (some c.clusterHomeDir)))
    (hu : Underway c s u)
    (hrun : (cdMake m dir (fun _ _ => args) (some c.clusterHomeDir)).run u = (some (), v)) :
    Underway c s v ∧ v.fs (c.homeEntry clusterAllNodes) = u.fs (c.homeEntry clusterAllNodes) ∧
      ∃ es, v.fs = applyEdits es u.fs ∧ Repeatable Shell.fs (Underway c s)
        (cdMake m dir (fun _ _ => args) (some c.clusterHomeDir)) es u.fs := by
  obtain ⟨files, hnone, hlays⟩ := hinstalls
  have hthere' : ∀ t, Underway c s t → testD t.fs [] dir = true := by
    intro t ht
    exact testD_of_grows ht.grown hthere
  have hanswers : Keeps (fun t => t.answers = s.answers)
      (Act.run m (.list dir (fun _ _ => args) (some c.clusterHomeDir))) :=
    Act.keeps_in _ fun t cm _ ht => ht
  have hconfig := DeployAct.keeps_config h hsep hs (Or.inl ha)
  obtain ⟨hv, hfs, hagain⟩ := repeatable_cdMake (I := Underway c s) hdir h.isAbsolute_home hlays
    (fun t ht => ht.noFaults) (fun t ht => ht.grown) hthere'
    (fun t ht => resolve_of_grows ht.grown hhome)
    (fun t t' ht hrun hgrows hnone => ⟨hnone, hanswers.of_run ht.answers hrun,
      hconfig.of_run ht.config hrun, ht.grown.trans hgrows⟩) hu hrun
  refine ⟨hv, ?_, _, hfs, hagain⟩
  rw [hfs, applyEdits_singleton, layEdits, hnone]
  rfl

/-- **Each step can be repeated** where it has run, and leaves `CLUSTER_ALL_NODES` alone. The home
    directory is there, as in all states but the first one. -/
theorem repeatable_act (h : PlainPaths m c) (hsep : Separate c.homeTarget c.configTarget)
    (hinstalls : Reinstalls m c s.fs) (hs : testF s.fs s.cwd (c.inConfig configSuccess) = true)
    (hhome : resolve s.fs [] c.clusterHomeDir = some c.homeTarget) (ha : DeployAct m c a)
    (hcerts : a ≠ certsAct c) (hu : Underway c s u) (hrun : (a.run m).run u = (some (), v)) :
    Underway c s v ∧
      (isFile u.fs (c.homeEntry clusterAllNodes) = false →
        isFile v.fs (c.homeEntry clusterAllNodes) = false) ∧
      ∃ es, v.fs = applyEdits es u.fs ∧
        Repeatable Shell.fs (Underway c s) (a.run m) es u.fs := by
  have hmark : WithMarker (DeployAct m c) (deployMarker c) a := Or.inl ha
  cases a with
  | cmd cm =>
    obtain ⟨hedits, hadd, hsource, hnot⟩ := DeployAct.edits (s := s) h ha hcerts
    have hkeeps : Keeps (Underway c s) (exec m cm) := by
      intro t ht
      rw [exec_run_snd]
      exact ht.after h hsep hs hmark hadd
    obtain ⟨hfs, hagain⟩ := repeatable_exec (I := Underway c s) hedits
      (DeployAct.absolute h.isAbsolute_home hmark) (fun t ht => ht.noFaults) hkeeps
      (fun t ht => hsource u t hu ht) hu.noFaults hrun
    refine ⟨hkeeps.of_run hu hrun, fun hfile => ?_, _, hfs, hagain⟩
    obtain ⟨-, rfl⟩ := exec_eq_some_iff.mp hrun
    rw [(u.changes_after m cm).isFile_eq (by simp [hnot])]
    exact hfile
  | list dir args installDir =>
    cases ha with
    | redisInstall =>
      obtain ⟨hv, hnode, hes⟩ := repeatable_install h hsep hs hhome ⟨_, rfl⟩ hinstalls.redisDir
        hinstalls.redis .redisInstall hu hrun
      exact ⟨hv, fun hfile => (isFile_congr hnode).trans hfile, hes⟩
    | hiredisInstall =>
      obtain ⟨hv, hnode, hes⟩ := repeatable_install h hsep hs hhome ⟨_, rfl⟩ hinstalls.hiredisDir
        hinstalls.hiredis .hiredisInstall hu hrun
      exact ⟨hv, fun hfile => (isFile_congr hnode).trans hfile, hes⟩

end Steps

/-! ## The restart -/

section Restart

variable {m : Machine} {c : Cluster} {s t u v : Shell} {fs fs' : FS}

theorem LaysFiles.mono {args : List Text} {dir home : Path} {files : FS}
    (h : LaysFiles m args dir home fs files) (hgrows : Grows fs fs') :
    LaysFiles m args dir home fs' files := by
  have hpart : ∀ {fs₁}, Grows (partAt dir fs') fs₁ → Grows (partAt dir fs) fs₁ := by
    intro fs₁ h₁ p
    have hp := h₁ p
    cases hbelow : below dir p
    · simp [partAt, isFile, hbelow]
    · simp only [partAt, isFile, hbelow, if_true] at hp ⊢
      exact ⟨fun hdir => hp.1 ((hgrows p).1 hdir), fun hfile => hp.2 ((hgrows p).2 hfile)⟩
  exact ⟨h.placed, fun fs₁ h₁ => h.status fs₁ (hpart h₁), fun fs₁ h₁ => h.result fs₁ (hpart h₁)⟩

theorem Reinstalls.mono (h : Reinstalls m c fs) (hgrows : Grows fs fs') : Reinstalls m c fs' where
  redisDir := testD_of_grows hgrows h.redisDir
  hiredisDir := testD_of_grows hgrows h.hiredisDir
  redis := by
    obtain ⟨files, hnone, hlays⟩ := h.redis
    exact ⟨files, hnone, hlays.mono hgrows⟩
  hiredis := by
    obtain ⟨files, hnone, hlays⟩ := h.hiredis
    exact ⟨files, hnone, hlays.mono hgrows⟩

/-- The home directory, once its subdirectories have been made. -/
theorem home_of_subdirs (h : PlainPaths m c)
    (hdirs : ∀ p ∈ mkdirPaths [] (homeSubdirs c), fs p = some .dir) :
    resolve fs [] c.clusterHomeDir = some c.homeTarget := by
  have hsplit : c.clusterHomeDir = pathWord c.ini.clusterParentDir ++ pathWord c.clusterid :=
    List.splitOn_append_cons_self _ _
  obtain ⟨ns, hns⟩ := h.isAbsolute_home
  have hne : c.clusterHomeDir ≠ [[]] := by
    intro he
    have hlength := congrArg List.length (hsplit.symm.trans he)
    have hparent := List.length_pos_of_ne_nil (pathWord_ne_nil c.ini.clusterParentDir)
    have hid := List.length_pos_of_ne_nil (pathWord_ne_nil c.clusterid)
    rw [List.length_append, List.length_singleton] at hlength
    omega
  rw [resolve, if_neg hne, Cluster.homeTarget, target, hns]
  refine walk_eq_some_iff.mpr ⟨rfl, fun q hq => isDir_iff.mpr (hdirs q ?_)⟩
  have hmem : c.inHome "conf".toList ∈ homeSubdirs c := by simp [homeSubdirs]
  refine List.mem_flatMap.mpr ⟨_, hmem, ?_⟩
  rw [Cluster.inHome, hns, List.cons_append]
  show q ∈ visited [] (ns ++ ["conf".toList])
  rw [visited_append]
  exact List.mem_append.mpr (Or.inl hq)

/-- The steps of `deploy()` are the same where the same is read. -/
theorem deployActs_eq (hstable : StableReads m c) (htls : tlsAt c v = tlsAt c s) :
    deployActs m c v = deployActs m c s := by
  have hlist : listAt m c v = listAt m c s := by
    funext n k
    exact hstable.listAt_eq v s n k
  have hlocal : isLocalAt m c v = isLocalAt m c s := by
    funext id
    rw [isLocalAt, isLocalAt, hlist, hstable.settingAt_eq v s]
  rw [deployActs, deployActs, nodesActs, nodesActs, localNodes, localNodes, hstable.nodesAt_eq v s,
    hlocal, hlist, htls]

/-- What has been reached, from which the steps can be run again. -/
structure CutOff (m : Machine) (c : Cluster) (front : List Act) (s u : Shell) : Prop where
  underway : Underway c s u
  unmarked : isFile u.fs (c.homeEntry clusterAllNodes) = false
  again : ∀ v, v.fs = u.fs → v.faults = [] → v.answers = s.answers →
    ∃ w, (forEach front (Act.run m)).run v = (some (), w) ∧ Underway c s w ∧ w.fs = u.fs

/-- Behind any number of steps that do not copy the certificates. -/
theorem cutOff_of_run (h : PlainPaths m c) (hsep : Separate c.homeTarget c.configTarget)
    (hinstalls : Reinstalls m c s.fs) (hs : testF s.fs s.cwd (c.inConfig configSuccess) = true)
    (hfaults : s.faults = []) (hunmarked : isFile s.fs (c.homeEntry clusterAllNodes) = false)
    {as : List Act} (has : ∀ a ∈ as, DeployAct m c a ∧ a ≠ certsAct c)
    (hrun : (forEach (.cmd (.mkdirP (homeSubdirs c)) :: as) (Act.run m)).run s = (some (), u)) :
    CutOff m c (.cmd (.mkdirP (homeSubdirs c)) :: as) s u := by
  obtain ⟨s₁, hmkdir, hrest⟩ := forEach_cons_eq_some_iff.mp hrun
  have hmark : WithMarker (DeployAct m c) (deployMarker c) (.cmd (.mkdirP (homeSubdirs c))) :=
    Or.inl .homeDirs
  have habs : (Cmd.mkdirP (homeSubdirs c)).Absolute :=
    DeployAct.absolute h.isAbsolute_home hmark
  have hrefl := underway_refl (c := c) hfaults
  obtain ⟨hok, hs₁⟩ := exec_eq_some_iff.mp hmkdir
  have hfirst : Underway c s s₁ := by
    rw [hs₁]
    exact hrefl.after h hsep hs hmark trivial
  -- The home directory is there from now on.
  have hhome : resolve s₁.fs [] c.clusterHomeDir = some c.homeTarget := by
    refine home_of_subdirs h fun p hp => ?_
    rw [hs₁, Shell.after_fs_of_ok hok, habs.run_eq m s.fs s.cwd []]
    rw [outcome_of_noFaults hfaults, habs.run_eq m s.fs s.cwd []] at hok
    exact makeDirs_isDir hok hp
  have hs' : testF s₁.fs s₁.cwd (c.inConfig configSuccess) = true := by
    rw [(isAbsolute_inConfig c _).testF_eq (d := s.cwd)]
    exact testF_of_grows hfirst.grown hs
  have hinstalls' := hinstalls.mono hfirst.grown
  have hkeeps : Keeps (Underway c s₁) (exec m (.mkdirP (homeSubdirs c))) := by
    intro t ht
    rw [exec_run_snd]
    exact ht.after h hsep hs' hmark trivial
  have hedits : (Cmd.mkdirP (homeSubdirs c)).Edits := trivial
  obtain ⟨hfs₁, hmkdirs⟩ := repeatable_exec (I := Underway c s₁) hedits habs
    (fun t ht => ht.noFaults) hkeeps (fun _ _ => trivial) hfaults hmkdir
  have hstep := fun a ha t t' ht hrun => repeatable_act (u := t) (v := t') h hsep hinstalls' hs' hhome
    (has a ha).1 (has a ha).2 ht hrun
  have hstart := underway_refl (c := c) hfirst.noFaults
  have hsteps : ∀ a ∈ as, ∀ t t', Underway c s₁ t → (a.run m).run t = (some (), t') →
      Underway c s₁ t' ∧ ∃ es, t'.fs = applyEdits es t.fs ∧
        Repeatable Shell.fs (Underway c s₁) (a.run m) es t.fs := fun a ha t t' ht hrun =>
    ⟨(hstep a ha t t' ht hrun).1, (hstep a ha t t' ht hrun).2.2⟩
  obtain ⟨es, hes, hothers⟩ := repeatable_forEach hsteps hstart hrest
  have hunmarked' : isFile s₁.fs (c.homeEntry clusterAllNodes) = false := by
    rw [hs₁, (s.changes_after m _).isFile_eq (by simp [Cmd.touches])]
    exact hunmarked
  obtain ⟨hu, hfile⟩ := forEach_keeps_of_some
    (I := fun t => Underway c s₁ t ∧ isFile t.fs (c.homeEntry clusterAllNodes) = false)
    (fun a ha t t' ht hrun => ⟨(hstep a ha t t' ht.1 hrun).1, (hstep a ha t t' ht.1 hrun).2.1 ht.2⟩)
    ⟨hstart, hunmarked'⟩ hrest
  rw [hfs₁] at hes hothers
  rw [← applyEdits_append] at hes
  have hall := hmkdirs.seq hothers
  refine ⟨hfirst.trans hu, hfile, fun v hv hnone hanswers => ?_⟩
  obtain ⟨w, hw, hunder, hfs⟩ := hall.again_same
    ⟨hnone, hanswers.trans hfirst.answers.symm, hv ▸ hu.config, hv ▸ hu.grown⟩ (hv.trans hes)
  exact ⟨w, hw, hfirst.trans hunder, hfs.trans hv⟩

/-- The steps in front of the marker. -/
theorem of_deployActs_front {as rest : List Act}
    (hsplit : deployActs m c s = .cmd (.mkdirP (homeSubdirs c)) :: as ++ rest) (hrest : rest ≠ [])
    {a : Act} (ha : a ∈ as) : DeployAct m c a := by
  have hlast := List.dropLast_append_getLast hrest
  have hall : nodesActs m c s ++ (installActs c ++ tailActs c (tlsAt c s)) = as ++ rest.dropLast := by
    rw [← hlast, deployActs, List.cons_append, List.cons.injEq, ← List.append_assoc,
      ← List.append_assoc, ← List.append_assoc] at hsplit
    rw [← List.append_assoc]
    exact (List.append_inj' hsplit.2 rfl).1
  have hmem := List.mem_append.mpr (Or.inl ha : a ∈ as ∨ a ∈ rest.dropLast)
  rw [← hall] at hmem
  rcases List.mem_append.mp hmem with hmem | hmem
  · exact mem_nodesActs hmem
  rcases List.mem_append.mp hmem with hmem | hmem
  · exact mem_installActs hmem
  · exact mem_tailActs hmem

theorem cutOff_of_front (h : PlainPaths m c) (hsep : Separate c.homeTarget c.configTarget)
    (hinstalls : Reinstalls m c s.fs) (hs : testF s.fs s.cwd (c.inConfig configSuccess) = true)
    (hfaults : s.faults = []) (hunmarked : isFile s.fs (c.homeEntry clusterAllNodes) = false)
    {front rest : List Act} (hsplit : deployActs m c s = front ++ rest) (hrest : rest ≠ [])
    (hcerts : certsAct c ∉ front) (hrun : (forEach front (Act.run m)).run s = (some (), u)) :
    CutOff m c front s u := by
  cases front with
  | nil =>
    obtain rfl : s = u := congrArg Prod.snd hrun
    refine ⟨underway_refl hfaults, hunmarked, fun v hv hnone hanswers => ⟨v, rfl, ?_, hv⟩⟩
    exact ⟨hnone, hanswers, fun p _ => congrFun hv p, hv ▸ Grows.refl _⟩
  | cons a as =>
    obtain rfl : .cmd (.mkdirP (homeSubdirs c)) = a := (List.cons.inj hsplit).1
    refine cutOff_of_run h hsep hinstalls hs hfaults hunmarked (fun b hb => ?_) hrun
    refine ⟨of_deployActs_front hsplit hrest hb, ?_⟩
    rintro rfl
    exact hcerts (List.mem_cons_of_mem _ hb)

/-- Without `CLUSTER_TLS_NODES` no certificates are copied, and a `deploy()` may be cut off
    anywhere. -/
theorem tls_of_certs (h : certsAct c ∈ deployActs m c s) : tlsAt c s = true := by
  by_contra htls
  rw [Bool.not_eq_true] at htls
  have hfiles : ∀ nodeid ports, certsAct c ∉ fileActs c false nodeid ports := by
    intro nodeid ports hmem
    simp [fileActs, plainStems, certsAct, confAct, homeAct, copyAct, chmodAct] at hmem
  simp only [deployActs, nodesActs, htls, List.mem_cons, List.mem_append, List.mem_flatMap,
    List.not_mem_nil, or_false] at h
  rcases h with h | ⟨nodeid, -, h⟩ | h | h | h
  · simp [certsAct] at h
  · exact hfiles _ _ h
  · simp [installActs, certsAct] at h
  · simp [tailActs, homeAct, certsAct] at h
  · simp [certsAct, deployMarker] at h

end Restart

/-! ## A cut behind the first installation -/

/-- What the `make install` of redis lays in the home directory. -/
def installedFiles : FS := fun p =>
  if p = twoHostsCluster.homeEntry "bin".toList then some .dir
  else if p = twoHostsCluster.homeEntry "bin".toList ++ ["redis-server".toList] then
    some (.file ⟨"ELF".toList, true⟩)
  else none

/-- A host whose `make install` does that, where it can. -/
def installingHost : Machine :=
  { plainHost with
    make := fun args _ fs =>
      if prefixArg twoHostsCluster ∈ args then
        (applyEdits [layEdits installedFiles] fs,
          !isFile fs (twoHostsCluster.homeEntry "bin".toList) &&
            !isDir fs (twoHostsCluster.homeEntry "bin".toList ++ ["redis-server".toList]))
      else (fs, true) }

theorem laysFiles_installingHost {args : List Text} (hargs : prefixArg twoHostsCluster ∈ args)
    (dir : Path) (fs : FS) :
    LaysFiles installingHost args dir twoHostsCluster.homeTarget fs installedFiles where
  placed := by
    intro p hp
    right
    unfold installedFiles at hp
    split_ifs at hp with h h'
    · rw [h]
      exact List.prefix_append _ _
    · rw [h', Cluster.homeEntry, List.append_assoc]
      exact List.prefix_append _ _
    · exact absurd rfl hp
  status := by
    intro fs' _
    simp only [installingHost, hargs, if_true, Bool.and_eq_true, Bool.not_eq_true']
    rw [fitTree_singleton]
    constructor
    · rintro ⟨hfile, hdir⟩ p ed hed
      unfold layEdits installedFiles at hed
      split_ifs at hed with h h'
      · obtain rfl : Edit.dir = ed := Option.some.inj hed
        rw [h]
        exact isFile_eq_false_iff.mp hfile
      · obtain rfl : Edit.lay _ = ed := Option.some.inj hed
        rw [h']
        intro hd
        rw [isDir_iff.mpr hd] at hdir
        cases hdir
      · cases hed
    · intro hfits
      refine ⟨isFile_eq_false_iff.mpr (hfits _ .dir ?_), ?_⟩
      · simp [layEdits, installedFiles]
      · rw [Bool.eq_false_iff]
        exact fun hd => hfits _ (.lay _) (by simp [layEdits, installedFiles]; rfl) (isDir_iff.mp hd)
  result := by
    intro fs' _ _
    simp only [installingHost, hargs, if_true]

/-- The cluster of two hosts there, in front of its deployment, and what the steps up to the first
    installation leave. -/
def restartShell : Shell :=
  ((config installingHost twoHostsCluster).run
    ((build installingHost twoHostsCluster).run demoShell).2).2
def cutOffShell : Shell :=
  ((forEach ((deployActs installingHost twoHostsCluster restartShell).take 12)
    (Act.run installingHost)).run restartShell).2

/-- The second time `deploy()` is called from another directory. -/
def calledAgain : Shell :=
  { fs := cutOffShell.fs, cwd := ["tmp".toList], answers := [], faults := [], trace := [] }

end RedisCluster
