import RedisCluster.Tool.Runs
import RedisCluster.Tool.Validation
import RedisCluster.Properties.Actions

/-!
# Combined and separate invocations

In one invocation the phases share the current directory: `build()` leaves it in the
source tree of hiredis, where an unquoted setting is expanded anew.

* `Alike`: two states in which a phase does the same.
* `combined_eq_stepByStep`: one invocation leaves the tree that the separate ones leave, if
  `build` comes alone or the settings read the same in every directory.
-/

namespace RedisCluster

open FileTree Errexit Script

/-- An invocation without answers and faults. -/
def plainInvocation (m : Machine) (inputs : Text → Inputs) (cwd : Path) (args : List Text) :
    Invocation where
  machine := m
  args := args
  inputs := inputs
  cwd := cwd
  answers := []
  faults := []

/-- The tree after separate invocations for the phases, from the same directory, up to the
    first one that stops. -/
def stepByStep (m : Machine) (tool : Path) (inputs : Text → Inputs) (id : Text) (cwd : Path) :
    List Phase → FS → FS
  | [], fs => fs
  | p :: ps, fs =>
    match (plainInvocation m inputs cwd [id, p.word]).run tool fs with
    | (some _, t) => stepByStep m tool inputs id cwd ps t.fs
    | (none, t) => t.fs

/-! ## Alike states -/

/-- The trees are the same, nothing is to strike or to be typed, and the current
    directories are the same or do not matter. -/
structure Alike (m : Machine) (c : Cluster) (s t : Shell) : Prop where
  fs : s.fs = t.fs
  answers : s.answers = t.answers
  noFaults : s.faults = [] ∧ t.faults = []
  cwd : s.cwd = t.cwd ∨ StableReads m c

/-- The words of a step are absolute. -/
def Act.Absolute : Act → Prop
  | .cmd cm => cm.Absolute
  | .list dir _ _ => IsAbsolute dir

section Alike

variable {m : Machine} {c : Cluster} {s t : Shell}

/-- A command with absolute words does the same in alike states. -/
theorem Alike.after (h : Alike m c s t) {cm : Cmd} (hcm : cm.Absolute) :
    (s.outcome m cm).2 = (t.outcome m cm).2 ∧ Alike m c (s.after m cm) (t.after m cm) := by
  have hout : s.outcome m cm = t.outcome m cm := by
    rw [outcome_of_noFaults h.noFaults.1, outcome_of_noFaults h.noFaults.2, h.fs,
      hcm.run_eq m t.fs s.cwd t.cwd]
  refine ⟨by rw [hout], congrArg Prod.fst hout, h.answers, ?_, ?_⟩
  · constructor
    · rw [Shell.after, h.noFaults.1, List.tail_nil]
    · rw [Shell.after, h.noFaults.2, List.tail_nil]
  · refine h.cwd.imp_left fun hcwd => ?_
    rw [Shell.after, Shell.after]
    cases cm with
    | cd dir =>
      simp only [Shell.cwdAfter, hout]
      rw [hcwd]
    | _ => exact hcwd

/-- The two shells are in the same directory after a completed `cd`. -/
theorem Alike.cwd_after_cd (h : Alike m c s t) {dir : PathWord} (hdir : IsAbsolute dir)
    (hok : (s.outcome m (.cd dir)).2 = true) :
    (s.after m (.cd dir)).cwd = (t.after m (.cd dir)).cwd := by
  have hboth := h.after (show (Cmd.cd dir).Absolute from hdir)
  have hok' := hok
  rw [hboth.1] at hok'
  simp only [Shell.after, Shell.cwdAfter, hok, hok', if_true]
  exact hdir.target_eq

theorem parallel_exec_alike {cm : Cmd} (hcm : cm.Absolute) :
    Parallel (Alike m c) (exec m cm) := by
  intro s t h
  obtain ⟨hok, hafter⟩ := h.after hcm
  rw [exec, bind_run, bind_run, attempt_run, attempt_run]
  simp only [hok]
  exact parallel_require _ _ _ hafter

/-- `make` in the same directory of the same tree. -/
theorem Alike.exec_make (h : Alike m c s t) (hcwd : s.cwd = t.cwd) (args : List Text)
    (installDir : Option PathWord) :
    ((exec m (.make args installDir)).run s).1 = ((exec m (.make args installDir)).run t).1 ∧
      Alike m c ((exec m (.make args installDir)).run s).2
        ((exec m (.make args installDir)).run t).2 := by
  have hout : s.outcome m (.make args installDir) = t.outcome m (.make args installDir) := by
    rw [outcome_of_noFaults h.noFaults.1, outcome_of_noFaults h.noFaults.2, h.fs, hcwd]
  have hafter : Alike m c (s.after m (.make args installDir)) (t.after m (.make args installDir)) := by
    refine ⟨congrArg Prod.fst hout, h.answers, ?_, Or.inl hcwd⟩
    constructor
    · rw [Shell.after, h.noFaults.1, List.tail_nil]
    · rw [Shell.after, h.noFaults.2, List.tail_nil]
  rw [exec, bind_run, bind_run, attempt_run, attempt_run]
  simp only [hout]
  exact parallel_require _ _ _ hafter

theorem parallel_cdMake_alike {dir : PathWord} (hdir : IsAbsolute dir)
    (args : FS → Path → List Text) (installDir : Option PathWord) :
    Parallel (Alike m c) (cdMake m dir args installDir) := by
  intro s t h
  obtain ⟨hok, hafter⟩ := h.after (show (Cmd.cd dir).Absolute from hdir)
  rw [cdMake, bind_run, bind_run, attempt_run, attempt_run]
  simp only [bind_run, look_run, ← hok]
  cases hcd : (s.outcome m (.cd dir)).2 with
  | false => exact ⟨rfl, hafter⟩
  | true =>
    have hcwd := h.cwd_after_cd hdir hcd
    simp only [whenever, if_true, hafter.fs, hcwd]
    exact hafter.exec_make hcwd _ _

/-- In alike states the same is read. -/
theorem Alike.agree (h : Alike m c s t) (hhome : IsAbsolute c.clusterHomeDir) :
    Agree m c s t := by
  have habs : ∀ w ∈ testedWords c, IsAbsolute w := by
    intro w hw
    simp only [testedWords, List.mem_cons, List.not_mem_nil, or_false] at hw
    rcases hw with rfl | rfl | rfl | rfl | rfl | rfl | rfl | rfl | rfl
    · exact ⟨_, rfl⟩
    · exact ⟨_, rfl⟩
    · exact hhome.append _
    · exact ⟨_, rfl⟩
    · exact ⟨_, rfl⟩
    · exact ⟨_, rfl⟩
    · exact hhome
    · exact ⟨_, rfl⟩
    · exact ⟨_, rfl⟩
  refine ⟨fun w hw => ?_, fun w hw => ?_, fun n k => ?_, fun n k => ?_⟩
  · rw [h.fs, (habs w hw).testF_eq (d := t.cwd)]
  · rw [h.fs, (habs w hw).testD_eq (d := t.cwd)]
  · rcases h.cwd with hcwd | hstable
    · rw [h.fs, hcwd]
    · exact hstable.setting _ _ _ _ n k
  · rcases h.cwd with hcwd | hstable
    · rw [h.fs, hcwd]
    · exact hstable.list _ _ _ _ n k

/-- What is built from steps with absolute words does the same in alike states. -/
theorem parallel_alike {P : Act → Prop} (hP : ∀ a, P a → a.Absolute)
    (hhome : IsAbsolute c.clusterHomeDir) {α : Type} {x : Script Shell α} (hx : Built m c P x) :
    Parallel (Alike m c) x := by
  refine hx.parallel ⟨fun a ha => ?_, fun s t h => h.answers, fun s t q a as h => ?_,
    fun s t r h => ⟨h.fs, h.answers, h.noFaults, h.cwd⟩, fun s t h => h.agree hhome⟩
  · have habs := hP a ha
    cases a with
    | cmd cm => exact parallel_exec_alike habs
    | list dir args installDir => exact parallel_cdMake_alike habs args installDir
  · exact ⟨h.fs, rfl, h.noFaults, h.cwd⟩

end Alike

/-! ## The phases -/

section Phases

variable {m : Machine} {c : Cluster}

theorem isAbsolute_clusterHomeDir (h : c.ini.clusterParentDir.head? = some '/') :
    IsAbsolute c.clusterHomeDir := by
  obtain ⟨r, hr⟩ : ∃ r, c.ini.clusterParentDir = '/' :: r := by
    cases hparent : c.ini.clusterParentDir with
    | nil => simp [hparent] at h
    | cons a r =>
      rw [hparent, List.head?_cons, Option.some.injEq] at h
      exact ⟨r, by rw [h]⟩
  refine ⟨pathWord (r ++ '/' :: c.clusterid), ?_⟩
  rw [Cluster.clusterHomeDir, Cluster.clusterHomeText, hr]
  exact List.splitOn_append_cons_self [] _

theorem BuildAct.absolute {a : Act} (h : WithMarker (BuildAct m c) (buildMarker m c) a) :
    a.Absolute := by
  rcases h with h | rfl
  · cases h with
    | buildDir => exact List.forall_mem_singleton.mpr ⟨_, rfl⟩
    | redisTar | hiredisTar | redisMake | hiredisMake => exact ⟨_, rfl⟩
  · exact ⟨_, rfl⟩

theorem ConfigAct.absolute {a : Act} (h : WithMarker (ConfigAct m c) (configMarker m c) a) :
    a.Absolute := by
  rcases h with h | rfl
  · cases h with
    | configDir | nodeDir => exact List.forall_mem_singleton.mpr ⟨_, rfl⟩
    | noNodes | addNode | conf | authPass | start | shutdown | connect | env | create =>
      exact ⟨_, rfl⟩
  · exact ⟨_, rfl⟩

theorem DeployAct.absolute (hhome : IsAbsolute c.clusterHomeDir) {a : Act}
    (h : WithMarker (DeployAct m c) (deployMarker c) a) : a.Absolute := by
  rcases h with h | rfl
  · cases h with
    | homeDirs =>
      intro w hw
      simp only [homeSubdirs, List.mem_cons, List.not_mem_nil, or_false] at hw
      rcases hw with rfl | rfl | rfl | rfl | rfl <;> exact hhome.append _
    | conf | copyScript | copyHome | certs => exact ⟨⟨_, rfl⟩, hhome.append _⟩
    | chmodScript | chmodCreate => exact hhome.append _
    | redisInstall | hiredisInstall => exact ⟨_, rfl⟩
  · exact ⟨⟨_, rfl⟩, hhome.append _⟩

/-- The steps of a phase other than `clean`. -/
def Phase.Act (m : Machine) (c : Cluster) : Phase → RedisCluster.Act → Prop
  | .clean => fun _ => False
  | .build => WithMarker (BuildAct m c) (buildMarker m c)
  | .config => WithMarker (ConfigAct m c) (configMarker m c)
  | .deploy => WithMarker (DeployAct m c) (deployMarker c)

theorem built_phase {p : Phase} (hp : p ≠ .clean) (f : Flags) :
    Built m c (p.Act m c) (p.run m c f) := by
  cases p with
  | clean => exact absurd rfl hp
  | build => exact built_build m c
  | config => exact built_config m c
  | deploy => exact built_deploy m c

theorem parallel_phase (hhome : IsAbsolute c.clusterHomeDir) {p : Phase} (hp : p ≠ .clean)
    (f : Flags) : Parallel (Alike m c) (p.run m c f) := by
  refine parallel_alike (P := p.Act m c) (fun a ha => ?_) hhome (built_phase hp f)
  cases p with
  | clean => exact absurd rfl hp
  | build => exact BuildAct.absolute ha
  | config => exact ConfigAct.absolute ha
  | deploy => exact DeployAct.absolute hhome ha

/-- `config()` stays in its directory. -/
theorem config_keeps_cwd (m : Machine) (c : Cluster) (d : Path) :
    Keeps (fun s => s.cwd = d) (config m c) := by
  refine (built_config m c).keeps_commands (fun a ha cm hcm s hs => ?_) fun _ _ _ _ hs => hs
  have hcd : ∀ dir, cm ≠ .cd dir := by
    rcases ha with ha | rfl
    · cases ha <;> cases hcm <;> simp
    · cases hcm
      simp [configMarker]
  rw [Shell.after]
  cases cm with
  | cd dir => exact absurd rfl (hcd dir)
  | _ => exact hs

end Phases

/-! ## The result -/

section Result

variable {m : Machine} {tool : Path} {inputs : Text → Inputs} {id : Text} {cwd : Path}

/-- The state that a separate invocation begins in. -/
def freshShell (cwd : Path) (fs : FS) : Shell where
  fs := fs
  cwd := cwd
  answers := []
  faults := []
  trace := []

theorem plainInvocation_run (args : List Text) (fs : FS) :
    (plainInvocation m inputs cwd args).run tool fs =
      (main m tool inputs args).run (freshShell cwd fs) := by
  have hstart : (plainInvocation m inputs cwd args).start fs = freshShell cwd fs := rfl
  rw [Invocation.run, hstart]
  dsimp only [plainInvocation]

/-- A word asks for its phase alone. -/
theorem phases_word {p : Phase} (hp : p ≠ .clean) : phases (tokens [p.word]) = [p] := by
  cases p with
  | clean => exact absurd rfl hp
  | build | config | deploy => decide +kernel

theorem globFree_word (p : Phase) : ∀ a ∈ [p.word], ∀ ch ∈ a, isGlobChar ch = false := by
  apply globFree_of_any
  cases p <;> decide +kernel

/-- A separate invocation runs the rules and its phase. -/
theorem phaseInvocation_run (hid : AcceptedId id) {p : Phase} (hp : p ≠ .clean) (fs : FS) :
    (plainInvocation m inputs cwd [id, p.word]).run tool fs =
      (validate m tool id (inputs id) >>= fun c =>
        p.run m c (requested (tokens [p.word]))).run (freshShell cwd fs) := by
  have hmain := main_eq_phases m tool inputs hid (globFree_word p) (freshShell cwd fs)
  rw [phases_word hp] at hmain
  simp only [forEach_cons, forEach_nil, seq_pure] at hmain
  rw [plainInvocation_run, hmain]

/-- The phases of one invocation, against the separate invocations: at the beginning the
    current directory is that of the invocations, or it does not matter; only `config` may
    come before another phase in the first case. -/
theorem forEach_phases_eq_stepByStep (hid : AcceptedId id) {c : Cluster}
    (hc : ∀ s, ((validate m tool id (inputs id)).run s).1 = some c)
    (hhome : IsAbsolute c.clusterHomeDir) (f : Flags) {ps : List Phase}
    (hps : ∀ p ∈ ps, p ≠ .clean) {s : Shell} (hanswers : s.answers = []) (hfaults : s.faults = [])
    (hcwd : ((ps ≠ [] → s.cwd = cwd) ∧ ∀ p ∈ ps.dropLast, p = .config) ∨ StableReads m c) :
    ((forEach ps (Phase.run m c f)).run s).2.fs = stepByStep m tool inputs id cwd ps s.fs := by
  induction ps generalizing s with
  | nil => rfl
  | cons p ps ih =>
    have hp : p ≠ .clean := hps p (by simp)
    -- The rules leave a state that is alike to `s`.
    obtain ⟨u, hu⟩ : ∃ u, (validate m tool id (inputs id)).run (freshShell cwd s.fs) = (some c, u) :=
      ⟨_, Prod.ext (hc _) rfl⟩
    have hcore := validate_sameCore m tool id (inputs id) (freshShell cwd s.fs)
    rw [hu] at hcore
    have halike : Alike m c s u := by
      refine ⟨hcore.fs.symm, hanswers.trans hcore.answers.symm, ⟨hfaults, hcore.faults⟩, ?_⟩
      exact hcwd.imp_left fun h => (h.1 (by simp)).trans hcore.cwd.symm
    obtain ⟨hvalue, hafter⟩ := parallel_phase hhome hp f s u halike
    have hflags : p.run m c (requested (tokens [p.word])) = p.run m c f := by
      cases p with
      | clean => exact absurd rfl hp
      | build | config | deploy => rfl
    have hstep : (plainInvocation m inputs cwd [id, p.word]).run tool s.fs = (p.run m c f).run u := by
      rw [phaseInvocation_run hid hp, bind_run_of_some hu, hflags]
    have hkeep := built_phase (m := m) (c := c) hp f
    rw [forEach_cons, stepByStep, hstep, bind_run]
    rcases hs : (p.run m c f).run s with ⟨o, s'⟩
    rcases hu' : (p.run m c f).run u with ⟨o', u'⟩
    rw [hs, hu'] at hvalue hafter
    obtain rfl : o = o' := hvalue
    cases o with
    | none => exact hafter.fs
    | some x =>
      have hnext : ((forEach ps (Phase.run m c f)).run s').2.fs =
          stepByStep m tool inputs id cwd ps s'.fs := by
        refine ih (fun q hq => hps q (by simp [hq])) (hkeep.answers_nil.of_run hanswers hs)
          (hkeep.faults_nil.of_run hfaults hs) ?_
        rcases hcwd with ⟨hcwd, hconfig⟩ | hstable
        · cases ps with
          | nil => exact Or.inl ⟨fun hne => absurd rfl hne, by simp⟩
          | cons q qs =>
            left
            rw [List.dropLast_cons_cons, List.forall_mem_cons] at hconfig
            obtain ⟨rfl, hconfig⟩ := hconfig
            exact ⟨fun _ => (config_keeps_cwd m c cwd).of_run (hcwd (by simp)) hs, hconfig⟩
        · exact Or.inr hstable
      simp only
      rw [hnext, hafter.fs]

/-- `build` does not come before another phase. -/
def BuildAlone (args : List Text) : Prop :=
  Phase.build ∉ phases (tokens args) ∨ phases (tokens args) = [.build]

/-- Without `build` only `config` can come before another phase. -/
theorem config_of_mem_dropLast {args : List Text} (hclean : "clean".toList ∉ tokens args)
    (hbuild : Phase.build ∉ phases (tokens args)) {p : Phase}
    (hp : p ∈ (phases (tokens args)).dropLast) : p = .config := by
  rw [phases, if_neg hclean, List.filter_cons] at hbuild hp
  split at hbuild
  · exact absurd List.mem_cons_self hbuild
  · next h =>
    rw [if_neg h] at hp
    generalize (fun p : Phase => decide ("ALL".toList ∈ tokens args ∨ p.word ∈ tokens args)) = q at hp
    cases hconfig : q .config <;> cases hdeploy : q .deploy <;> simp [hconfig, hdeploy] at hp
    exact hp

end Result

/-- The nodes file of one node whose address is `*`. -/
def starNodesCfg : Text :=
  "[redis_cluster]\nnodes=\"n1\"\n[n1]\nhost=\"h1\"\nconf=\"c0\"\naddrs=\"*\"\nports=\"6377\"\n".toList

def starInputs : Inputs :=
  demoInputs demoIni starNodesCfg "bind {ADDRS}".toList "s".toList "s".toList

/-- A host on which `*` finds the file `notes`. -/
def starHost : Machine :=
  { plainHost with
    glob := fun fs cwd w =>
      if w = "*".toList ∧ (fs (cwd ++ ["notes".toList])).isSome then ["notes".toList] else [w] }

/-- `notes` is in `/home`. -/
def starTree : FS := fun p =>
  if p = [] ∨ p = ["home".toList] then some .dir
  else if p = ["home".toList, "notes".toList] then some (.file ⟨[], false⟩)
  else none

/-- Where the conf goes. -/
def starConf : Path :=
  ["rct", "config", "mycluster", "n1", "redis-n1-6377.conf"].map String.toList

theorem demoIni_stableVersions (m : Machine) (inputs : Inputs) (hinputs : inputs.ini = some demoIni)
    (hany : ∀ pkg ∈ [demoIni.redisPkg, demoIni.hiredisPkg],
      (pkgVerno m pkg).any isGlobChar = false) :
    ∀ ini, inputs.ini = some ini → StableVersions m ini := by
  intro ini hini
  obtain rfl : demoIni = ini := Option.some.inj (hinputs.symm.trans hini)
  exact stableVersions_of_globFree hany

end RedisCluster
