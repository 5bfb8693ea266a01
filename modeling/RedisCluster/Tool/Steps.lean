import RedisCluster.Shell.Rules
import RedisCluster.Tool.Main

/-!
# What the phases do, step by step

A phase is built from steps: commands, `cd dir && make ...` lists, prompts, error
exits, and reads of the tree and of the nodes file. `Built m c P x` says that `x`
is built from the commands and lists of `P`; each phase has the inductive
predicate that lists its own. What every step of `P` respects, the phase then
respects: `Built.parallel` for two runs side by side, `Built.keeps` for one.

* `built_build`, `built_config`, `built_deploy`, `built_clean`.
-/

namespace RedisCluster

open FileTree Errexit Script

/-- A step that may change the tree or the current directory. -/
inductive Act where
  | cmd (c : Cmd)
  | list (dir : PathWord) (args : FS → Path → List Text) (installDir : Option PathWord)

/-- The script of a step. -/
def Act.run (m : Machine) : Act → Script Shell Unit
  | .cmd c => exec m c
  | .list dir args installDir => cdMake m dir args installDir

/-- The words that the phases test for a file or a directory. -/
def testedWords (c : Cluster) : List PathWord :=
  [c.inBuild buildSuccess, c.inConfig configSuccess, c.inHome clusterAllNodes,
    c.inConfig clusterTlsNodes, c.clusterBuildDir, c.clusterConfigDir, c.clusterHomeDir,
    c.redisBuildDir, c.hiredisBuildDir]

/-- What the phases read is the same in two states. -/
structure Agree (m : Machine) (c : Cluster) (s t : Shell) : Prop where
  file : ∀ w ∈ testedWords c, testF s.fs s.cwd w = testF t.fs t.cwd w
  dir : ∀ w ∈ testedWords c, testD s.fs s.cwd w = testD t.fs t.cwd w
  setting : ∀ n k, readCfg m s.fs s.cwd c.nodesCfg n k = readCfg m t.fs t.cwd c.nodesCfg n k
  list : ∀ n k, listWords m s.fs s.cwd (commandSubst (readCfg m s.fs s.cwd c.nodesCfg n k)) =
    listWords m t.fs t.cwd (commandSubst (readCfg m t.fs t.cwd c.nodesCfg n k))

/-- `R` is a relation that the steps of `P`, and all prompts, error exits and reads respect. -/
structure Respects (m : Machine) (c : Cluster) (P : Act → Prop) (R : Shell → Shell → Prop) :
    Prop where
  act : ∀ a, P a → Parallel R (a.run m)
  answers : ∀ s t, R s t → s.answers = t.answers
  answered : ∀ s t q a as, R s t →
    R { s.note (.asked q a) with answers := as } { t.note (.asked q a) with answers := as }
  refused : ∀ s t r, R s t → R (s.note (.refused r)) (t.note (.refused r))
  reads : ∀ s t, R s t → Agree m c s t

/-- The script is built from the steps of `P`, prompts, error exits and reads that agree
    where the state does. -/
inductive Built (m : Machine) (c : Cluster) (P : Act → Prop) : {α : Type} → Script Shell α → Prop
  | pure {α : Type} (a : α) : Built m c P (pure a)
  | stop {α : Type} : Built m c P (stop : Script Shell α)
  | bind_of_returns {α β : Type} {x : Script Shell α} {f : α → Script Shell β} {V : α → Prop}
      (hx : Built m c P x) (hv : Returns (fun _ => True) x V) (hf : ∀ a, V a → Built m c P (f a)) :
      Built m c P (x >>= f)
  | act {a : Act} (h : P a) : Built m c P (a.run m)
  | refuse (r : Refusal) : Built m c P (update fun s => s.note (.refused r))
  | ask (q : Question) : Built m c P (ask q)
  | read {α : Type} {f : Shell → α} (h : ∀ s t, Agree m c s t → f s = f t) : Built m c P (look f)

section Rules

variable {m : Machine} {c : Cluster} {P : Act → Prop} {α β : Type}

theorem built_bind {x : Script Shell α} {f : α → Script Shell β} (hx : Built m c P x)
    (hf : ∀ a, Built m c P (f a)) : Built m c P (x >>= f) :=
  .bind_of_returns (V := fun _ => True) hx (fun _ _ _ _ _ => trivial) fun a _ => hf a

theorem built_whenever {b : Bool} {x : Script Shell Unit} (hx : b = true → Built m c P x) :
    Built m c P (whenever b x) := by
  cases b
  · exact .pure ()
  · exact hx rfl

theorem built_require (b : Bool) : Built m c P (require b) := by
  cases b
  · exact .stop
  · exact .pure ()

theorem built_forEach {xs : List α} {body : α → Script Shell Unit}
    (h : ∀ x ∈ xs, Built m c P (body x)) : Built m c P (forEach xs body) := by
  induction xs with
  | nil => exact .pure ()
  | cons x xs ih => exact built_bind (h x (by simp)) fun _ => ih fun y hy => h y (by simp [hy])

theorem built_exec {cm : Cmd} (h : P (.cmd cm)) : Built m c P (exec m cm) := .act h

theorem built_cdMake {dir : PathWord} {args : FS → Path → List Text} {installDir : Option PathWord}
    (h : P (.list dir args installDir)) : Built m c P (cdMake m dir args installDir) := .act h

theorem built_refuseIf (b : Bool) (r : Refusal) : Built m c P (refuseIf b r) := by
  cases b
  · exact .pure ()
  · exact built_bind (.refuse r) fun _ => .stop

theorem built_isFileAt {w : PathWord} (h : w ∈ testedWords c) : Built m c P (isFileAt w) :=
  .read fun _ _ hst => hst.file w h

theorem built_isDirAt {w : PathWord} (h : w ∈ testedWords c) : Built m c P (isDirAt w) :=
  .read fun _ _ hst => hst.dir w h

theorem built_setting (n k : Text) : Built m c P (setting m c n k) :=
  .read fun _ _ hst => by rw [hst.setting n k]

theorem built_listSetting (n k : Text) : Built m c P (listSetting m c n k) :=
  .read fun _ _ hst => hst.list n k

theorem Built.mono {x : Script Shell α} {Q : Act → Prop} (h : Built m c P x)
    (hPQ : ∀ a, P a → Q a) : Built m c Q x := by
  induction h with
  | pure a => exact .pure a
  | stop => exact .stop
  | bind_of_returns _ hv _ hx hf => exact .bind_of_returns hx hv hf
  | act h => exact .act (hPQ _ h)
  | refuse r => exact .refuse r
  | ask q => exact .ask q
  | read h => exact .read h

/-- Two runs of what is built from `P` stay side by side in a relation that `P` respects. -/
theorem Built.parallel {x : Script Shell α} {R : Shell → Shell → Prop} (h : Built m c P x)
    (hR : Respects m c P R) : Parallel R x := by
  induction h with
  | pure a => exact parallel_pure a
  | stop => exact parallel_stop
  | bind_of_returns _ hv _ hx hf =>
    exact parallel_bind_of_returns hx hv hf
  | act h => exact hR.act _ h
  | refuse r => exact parallel_update fun s t hst => hR.refused s t r hst
  | ask q =>
    intro s t hst
    have ha := hR.answers s t hst
    simp only [RedisCluster.ask, ← ha]
    cases hs : s.answers with
    | nil => exact ⟨rfl, hst⟩
    | cons a as => exact ⟨rfl, hR.answered s t q a as hst⟩
  | read h => exact parallel_look fun s t hst => h s t (hR.reads s t hst)

/-- What the steps of `P` lead to, the script leads to: `I` holds all along, and `K`
    where the script stops. -/
theorem Built.ends {x : Script Shell α} {I K : Shell → Prop} (h : Built m c P x)
    (hact : ∀ a, P a → Ends I (a.run m) (fun _ => I) K) (hstop : ∀ s, I s → K s)
    (hnote : ∀ s e as, (∀ d cm ok, e ≠ .ran d cm ok) → I s →
      I { s.note e with answers := as }) : Ends I x (fun _ => I) K := by
  induction h with
  | pure a => exact fun s hs => hs
  | stop => exact hstop
  | bind_of_returns _ hv _ hx hf => exact ends_bind_of_returns hx hv hf
  | act h => exact hact _ h
  | refuse r => exact fun s hs => hnote s _ s.answers (by simp) hs
  | ask q =>
    intro s hs
    simp only [RedisCluster.ask]
    cases ha : s.answers with
    | nil => exact hstop s hs
    | cons a as => exact hnote s _ as (by simp) hs
  | read h => exact fun s hs => hs

/-- An invariant of the steps of `P` is one of what is built from them. -/
theorem Built.keeps {x : Script Shell α} {I : Shell → Prop} (h : Built m c P x)
    (hact : ∀ a, P a → Keeps I (a.run m))
    (hnote : ∀ s e as, (∀ d cm ok, e ≠ .ran d cm ok) → I s →
      I { s.note e with answers := as }) : Keeps I x :=
  (h.ends (fun a ha => (hact a ha).ends) (fun _ hs => hs) hnote).keeps

/-- The commands that a step runs. -/
def Act.Issues : Act → Cmd → Prop
  | .cmd c, cm => cm = c
  | .list dir _ installDir, cm => cm = .cd dir ∨ ∃ args, cm = .make args installDir

/-- The commands that a step runs in a directory: `make` comes behind its `cd`. -/
def Act.IssuesIn (cwd : Path) : Act → Cmd → Prop
  | .cmd c, cm => cm = c
  | .list dir _ installDir, cm =>
    cm = .cd dir ∨ (∃ args, cm = .make args installDir) ∧ ∃ d, cwd = target d dir

theorem Act.IssuesIn.issues {cwd : Path} {a : Act} {cm : Cmd} (h : a.IssuesIn cwd cm) :
    a.Issues cm := by
  cases a with
  | cmd => exact h
  | list => exact h.imp_right And.left

/-- What the commands of a step keep, the step keeps. -/
theorem Act.keeps_in {I : Shell → Prop} (a : Act)
    (h : ∀ s cm, a.IssuesIn s.cwd cm → I s → I (s.after m cm)) : Keeps I (a.run m) := by
  intro s hs
  cases a with
  | cmd cm =>
    rw [Act.run, exec_run_snd]
    exact h s cm rfl hs
  | list dir args installDir =>
    have hcd := h s (.cd dir) (Or.inl rfl) hs
    rw [Act.run, cdMake, bind_run, attempt_run]
    simp only [bind_run, look_run]
    cases hok : (s.outcome m (.cd dir)).2 with
    | false => exact hcd
    | true =>
      have hcwd : (s.after m (.cd dir)).cwd = target s.cwd dir := by
        rw [Shell.after, Shell.cwdAfter, if_pos hok]
      simp only [whenever, if_true, exec_run_snd]
      exact h _ _ (Or.inr ⟨⟨_, rfl⟩, s.cwd, hcwd⟩) hcd

theorem Act.keeps {I : Shell → Prop} (a : Act)
    (h : ∀ cm, a.Issues cm → ∀ s, I s → I (s.after m cm)) : Keeps I (a.run m) :=
  a.keeps_in fun s cm hcm hs => h cm hcm.issues s hs

/-- What the commands of `P`, and notes of other events, keep. -/
theorem Built.keeps_commands_in {x : Script Shell α} {I : Shell → Prop} (h : Built m c P x)
    (hcm : ∀ a, P a → ∀ s cm, a.IssuesIn s.cwd cm → I s → I (s.after m cm))
    (hnote : ∀ s e as, (∀ d cm ok, e ≠ .ran d cm ok) → I s →
      I { s.note e with answers := as }) : Keeps I x :=
  h.keeps (fun a ha => a.keeps_in (hcm a ha)) hnote

theorem Built.keeps_commands {x : Script Shell α} {I : Shell → Prop} (h : Built m c P x)
    (hcm : ∀ a, P a → ∀ cm, a.Issues cm → ∀ s, I s → I (s.after m cm))
    (hnote : ∀ s e as, (∀ d cm ok, e ≠ .ran d cm ok) → I s →
      I { s.note e with answers := as }) : Keeps I x :=
  h.keeps (fun a ha => a.keeps (hcm a ha)) hnote

/-- The trace goes on from `tr` with commands, in their directories and with their
    statuses, in `G`. -/
def Extends (G : Path → Cmd → Bool → Prop) (tr : List Event) (s : Shell) : Prop :=
  ∃ evs, s.trace = tr ++ evs ∧ ∀ cwd cm ok, .ran cwd cm ok ∈ evs → G cwd cm ok

theorem Extends.refl (G : Path → Cmd → Bool → Prop) (s : Shell) : Extends G s.trace s :=
  ⟨[], by simp, by simp⟩

theorem Extends.after {G : Path → Cmd → Bool → Prop} {tr : List Event} {s : Shell}
    (h : Extends G tr s) {cm : Cmd} (hcm : G s.cwd cm (s.outcome m cm).2) :
    Extends G tr (s.after m cm) := by
  obtain ⟨evs, htr, hG⟩ := h
  refine ⟨evs ++ [.ran s.cwd cm (s.outcome m cm).2], by simp [Shell.after, htr], ?_⟩
  intro cwd cm' ok hmem
  rcases List.mem_append.mp hmem with hmem | hmem
  · exact hG cwd cm' ok hmem
  · simp only [List.mem_singleton, Event.ran.injEq] at hmem
    obtain ⟨rfl, rfl, rfl⟩ := hmem
    exact hcm

theorem Extends.note {G : Path → Cmd → Bool → Prop} {tr : List Event} {s : Shell}
    (h : Extends G tr s) {e : Event} (he : ∀ d cm ok, e ≠ .ran d cm ok) (as : List Text) :
    Extends G tr { s.note e with answers := as } := by
  obtain ⟨evs, htr, hG⟩ := h
  refine ⟨evs ++ [e], by simp [Shell.note, htr], ?_⟩
  intro cwd cm ok hmem
  rcases List.mem_append.mp hmem with hmem | hmem
  · exact hG cwd cm ok hmem
  · exact absurd (List.mem_singleton.mp hmem).symm (he cwd cm ok)

/-- What is known of the events since `tr`. -/
theorem Extends.of_trace {G : Path → Cmd → Bool → Prop} {tr evs : List Event} {s : Shell}
    (h : Extends G tr s) (htr : s.trace = tr ++ evs) {cwd : Path} {cm : Cmd} {ok : Bool}
    (hev : .ran cwd cm ok ∈ evs) : G cwd cm ok := by
  obtain ⟨evs', htr', hG⟩ := h
  rw [htr] at htr'
  rw [← List.append_cancel_left htr'] at hG
  exact hG cwd cm ok hev

/-- The commands in the trace of what is built from `P` are commands of `P`. -/
theorem Built.extends_trace {x : Script Shell α} (h : Built m c P x)
    {G : Path → Cmd → Bool → Prop}
    (hG : ∀ a, P a → ∀ cm, a.Issues cm → ∀ cwd ok, G cwd cm ok) (s : Shell) :
    Extends G s.trace (x.run s).2 :=
  h.keeps_commands (I := Extends G s.trace)
    (fun a ha cm hcm _ ht => ht.after (hG a ha cm hcm _ _)) (fun _ _ as he ht => ht.note he as) s
    (.refl G s)

/-- Where no answers are left none come. -/
theorem Built.answers_nil {x : Script Shell α} (h : Built m c P x) :
    Keeps (fun s => s.answers = []) x := by
  induction h with
  | pure a => exact keeps_pure a
  | stop => exact keeps_stop
  | bind_of_returns _ hv _ hx hf =>
    exact keeps_bind_of_returns hx (fun s a t _ hrun => hv s a t trivial hrun) hf
  | act => exact Act.keeps _ fun cm _ s hs => hs
  | refuse r => exact fun s hs => hs
  | ask q =>
    intro s hs
    simp only [RedisCluster.ask, hs]
  | read => exact fun s hs => hs

/-- Where no faults are left none strike. -/
theorem Built.faults_nil {x : Script Shell α} (h : Built m c P x) :
    Keeps (fun s => s.faults = []) x :=
  h.keeps_commands (fun _ _ cm _ s hs => by rw [Shell.after, hs, List.tail_nil])
    fun _ _ _ _ hs => hs

/-- All steps of `P` are commands that take nothing away. -/
def AdditiveActs (P : Act → Prop) : Prop := ∀ a, P a → ∃ cm : Cmd, a = .cmd cm ∧ cm.Additive

/-- What is built from such steps, as long as it does not stop, keeps what each completed
    command keeps. -/
theorem Built.of_completed {x : Script Shell α} {I : Shell → Prop} (h : Built m c P x)
    (hP : ∀ a, P a → ∃ cm : Cmd, a = .cmd cm ∧
      ∀ s, I s → (s.outcome m cm).2 = true → I (s.after m cm))
    (hnote : ∀ s e as, (∀ d cm ok, e ≠ .ran d cm ok) → I s → I { s.note e with answers := as })
    {s t : Shell} {a : α} (hs : I s) (hrun : x.run s = (some a, t)) : I t := by
  have hends := h.ends (I := I) (K := fun _ => True) (fun b hb => ?_) (fun _ _ => trivial) hnote
  · exact hends.of_some hs hrun
  · obtain ⟨cm, rfl, hcm⟩ := hP b hb
    exact ends_exec hcm fun _ _ _ => trivial

/-- A completed run keeps the directories and files. -/
theorem Built.grows {x : Script Shell α} (h : Built m c P x) (hP : AdditiveActs P) {s t : Shell}
    {a : α} (hrun : x.run s = (some a, t)) : Grows s.fs t.fs := by
  refine h.of_completed (I := fun u => Grows s.fs u.fs) (fun b hb => ?_)
    (fun _ _ _ _ hu => hu) (Grows.refl _) hrun
  obtain ⟨cm, rfl, hadd⟩ := hP b hb
  refine ⟨cm, rfl, fun u hu hok => hu.trans ?_⟩
  rw [Shell.after_fs_of_ok hok]
  exact cm.grows_run m u.cwd u.fs hadd

end Rules

/-! ## The steps of the phases -/

/-- The steps of `clean()`. -/
inductive CleanAct (c : Cluster) (f : Flags) : Act → Prop
  | removeBuild (h : f.hasBuild = true) : CleanAct c f (.cmd (.rmRf c.clusterBuildDir))
  | removeConfig (h : f.hasConfig = true) : CleanAct c f (.cmd (.rmRf c.clusterConfigDir))
  | removeHome (h : f.hasDeploy = true) : CleanAct c f (.cmd (.rmRf c.clusterHomeDir))

/-- The steps of `P`, and the command that writes a marker. -/
def WithMarker (P : Act → Prop) (marker : Cmd) (a : Act) : Prop := P a ∨ a = .cmd marker

/-- The steps of `build()`, the marker aside. -/
inductive BuildAct (m : Machine) (c : Cluster) : Act → Prop
  | buildDir : BuildAct m c (.cmd (.mkdirP [c.clusterBuildDir]))
  | redisTar : BuildAct m c (.cmd (.tar c.ini.redisPkg c.clusterBuildDir))
  | hiredisTar : BuildAct m c (.cmd (.tar c.ini.hiredisPkg c.clusterBuildDir))
  | redisMake : BuildAct m c (.list c.redisBuildDir (redisMakeArgs m c.ini) none)
  | hiredisMake : BuildAct m c (.list c.hiredisBuildDir hiredisMakeArgs none)

/-- `$(read_cfg ...)` for a setting, as some directory has it. -/
def IsSetting (m : Machine) (c : Cluster) (n k v : Text) : Prop :=
  ∃ fs cwd, v = commandSubst (readCfg m fs cwd c.nodesCfg n k)

/-- The list made of a setting, as some directory has it. -/
def IsList (m : Machine) (c : Cluster) (n k : Text) (l : List Text) : Prop :=
  ∃ fs cwd, l = listWords m fs cwd (commandSubst (readCfg m fs cwd c.nodesCfg n k))

/-- A node id that the nodes file lists. -/
def Listed (m : Machine) (c : Cluster) (nodeid : Text) : Prop :=
  ∃ l, IsList m c "redis_cluster".toList "nodes".toList l ∧ nodeid ∈ l

/-- A node as the nodes file describes it. The TLS settings are never read. -/
structure IsNode (m : Machine) (c : Cluster) (n : Node) : Prop where
  listed : Listed m c n.nodeid
  conf : IsSetting m c n.nodeid "conf".toList n.conf
  host : IsSetting m c n.nodeid "host".toList n.host
  addrs : IsList m c n.nodeid "addrs".toList n.addrs
  ports : IsList m c n.nodeid "ports".toList n.ports
  tls : n.tls = none

/-- The steps of `config()`, the marker aside. -/
inductive ConfigAct (m : Machine) (c : Cluster) : Act → Prop
  | configDir : ConfigAct m c (.cmd (.mkdirP [c.clusterConfigDir]))
  | noNodes : ConfigAct m c (.cmd (.write (c.inConfig clusterAllNodes) []))
  | nodeDir {nodeid : Text} (h : Listed m c nodeid) :
      ConfigAct m c (.cmd (.mkdirP [c.nodeconfdir nodeid]))
  | addNode {n : Node} {port : Text} (h : IsNode m c n) (hp : port ∈ n.ports) :
      ConfigAct m c (.cmd (.append (c.inConfig clusterAllNodes) (echo m [n.host ++ ':' :: port])))
  | conf {n : Node} {port pass : Text} (h : IsNode m c n) (hp : port ∈ n.ports)
      (hpass : c.redisAuthPass = some pass) :
      ConfigAct m c (.cmd (.pipeline (confPipeline c n.conf (n.instance pass port) none)
        (c.nodeConfFile n.nodeid port)))
  | authPass : ConfigAct m c (.cmd (.copyIn (c.inputs.confFile c.ini.redisAuthpassFile)
      (baseName (pathWord c.ini.redisAuthpassFile)) (c.inConfig clusterAuthPass)))
  | start {n : Node} (h : IsNode m c n) :
      ConfigAct m c (.cmd (.pipeline (nodeScript c .startScript "start_redis.sh.0" n)
        (c.nodeconfdir n.nodeid ++ ["start_redis.sh".toList])))
  | shutdown {n : Node} (h : IsNode m c n) :
      ConfigAct m c (.cmd (.pipeline (nodeScript c .shutdownScript "shutdown_redis.sh.0" n)
        (c.nodeconfdir n.nodeid ++ ["shutdown_redis.sh".toList])))
  | connect {n : Node} (h : IsNode m c n) :
      ConfigAct m c (.cmd (.pipeline (connectScript c n)
        (c.nodeconfdir n.nodeid ++ ["connect_redis.sh".toList])))
  | env : ConfigAct m c (.cmd (.pipeline (clusterEnv c) (c.inConfig "cluster_env.sh".toList)))
  | create :
      ConfigAct m c (.cmd (.pipeline (createCluster c) (c.inConfig "create_cluster.sh".toList)))

theorem ConfigAct.additive {m : Machine} {c : Cluster} : AdditiveActs (ConfigAct m c) := by
  intro a ha
  cases ha <;> exact ⟨_, rfl, trivial⟩

/-- The stems of the scripts that `deploy()` installs for a node. -/
def scriptStems : List String := ["start_redis", "shutdown_redis", "connect_redis", "tlsconnect_redis"]

/-- The steps of `deploy()`, the marker aside. -/
inductive DeployAct (m : Machine) (c : Cluster) : Act → Prop
  | homeDirs : DeployAct m c (.cmd (.mkdirP (homeSubdirs c)))
  | conf {nodeid port : Text} {ports : List Text} (h : Listed m c nodeid)
      (hl : IsList m c nodeid "ports".toList ports) (hp : port ∈ ports) :
      DeployAct m c (.cmd (.cp (c.nodeConfFile nodeid port)
        (c.clusterHomeDir ++ ["conf".toList, []])))
  | copyScript {nodeid : Text} {stem : String} (h : Listed m c nodeid) (hs : stem ∈ scriptStems) :
      DeployAct m c (.cmd (.cp (c.nodeconfdir nodeid ++ [(stem ++ ".sh").toList])
        (c.clusterHomeDir ++ pathWord (scriptName stem nodeid))))
  | chmodScript {nodeid : Text} {stem : String} (h : Listed m c nodeid) (hs : stem ∈ scriptStems) :
      DeployAct m c (.cmd (.chmodX (c.clusterHomeDir ++ pathWord (scriptName stem nodeid))))
  | chmodCreate : DeployAct m c (.cmd (.chmodX (c.inHome "create_cluster.sh".toList)))
  | copyHome {name : Text} (h : name ∈ ["create_cluster.sh".toList, clusterTlsNodes,
      "cluster_env.sh".toList, clusterAuthPass]) :
      DeployAct m c (.cmd (.cp (c.inConfig name) c.homeSlash))
  | redisInstall :
      DeployAct m c (.list c.redisBuildDir (redisInstallArgs c) (some c.clusterHomeDir))
  | hiredisInstall :
      DeployAct m c (.list c.hiredisBuildDir (hiredisInstallArgs c) (some c.clusterHomeDir))
  | certs : DeployAct m c (.cmd (.cpR (c.clusterConfigDir ++ pathWord c.ini.tlsCacertdir)
      c.tlsCacertDir))

section Phases

variable (m : Machine) (c : Cluster)

theorem built_confirmRemoval {P : Act → Prop} (q : Question) {dir : PathWord}
    (h : P (.cmd (.rmRf dir))) : Built m c P (confirmRemoval m q dir) :=
  built_bind (.ask q) fun _ => built_whenever fun _ => built_exec h

theorem built_cleanDir {P : Act → Prop} (q : Question) {dir : PathWord} (hdir : dir ∈ testedWords c)
    (h : P (.cmd (.rmRf dir))) : Built m c P (cleanDir m q dir) :=
  built_bind (built_isDirAt hdir) fun _ => built_whenever fun _ => built_confirmRemoval m c q h

theorem built_clean (f : Flags) : Built m c (CleanAct c f) (clean m c f) := by
  unfold clean
  refine built_bind (built_whenever fun hb => ?_) fun _ => ?_
  · exact built_cleanDir m c _ (by simp [testedWords]) (.removeBuild hb)
  refine built_bind (built_whenever fun hc => ?_) fun _ => ?_
  · exact built_cleanDir m c _ (by simp [testedWords]) (.removeConfig hc)
  refine built_bind (built_isDirAt (by simp [testedWords])) fun _ => built_whenever fun _ => ?_
  exact built_whenever fun hd => built_confirmRemoval m c _ (.removeHome hd)

/-- A body and its marker. -/
theorem built_seq_marker {P : Act → Prop} {x : Script Shell Unit} (hx : Built m c P x)
    (marker : Cmd) : Built m c (WithMarker P marker) (x >>= fun _ => exec m marker) :=
  built_bind (hx.mono fun _ h => Or.inl h) fun _ => built_exec (Or.inr rfl)

/-- What follows the `mkdir -p` of `build()`. -/
theorem built_buildRest : Built m c (BuildAct m c) (refuseIf (!c.inputs.pkgFile c.ini.redisPkg)
    .noRedisPkg >>= fun _ => refuseIf (!c.inputs.pkgFile c.ini.hiredisPkg) .noHiredisPkg >>= fun _ =>
    isDirAt c.redisBuildDir >>= fun redisThere => refuseIf redisThere .redisDirExists >>= fun _ =>
    isDirAt c.hiredisBuildDir >>= fun hiredisThere =>
    refuseIf hiredisThere .hiredisDirExists >>= fun _ =>
    exec m (.tar c.ini.redisPkg c.clusterBuildDir) >>= fun _ =>
    exec m (.tar c.ini.hiredisPkg c.clusterBuildDir) >>= fun _ =>
    cdMake m c.redisBuildDir (redisMakeArgs m c.ini) none >>= fun _ =>
    cdMake m c.hiredisBuildDir hiredisMakeArgs none) := by
  refine built_bind (built_refuseIf _ _) fun _ => ?_
  refine built_bind (built_refuseIf _ _) fun _ => ?_
  refine built_bind (built_isDirAt (by simp [testedWords])) fun _ => ?_
  refine built_bind (built_refuseIf _ _) fun _ => ?_
  refine built_bind (built_isDirAt (by simp [testedWords])) fun _ => ?_
  refine built_bind (built_refuseIf _ _) fun _ => ?_
  refine built_bind (built_exec .redisTar) fun _ => ?_
  refine built_bind (built_exec .hiredisTar) fun _ => ?_
  exact built_bind (built_cdMake .redisMake) fun _ => built_cdMake .hiredisMake

theorem built_buildBody : Built m c (BuildAct m c) (buildBody m c) := by
  unfold buildBody
  refine built_bind (built_isFileAt (by simp [testedWords])) fun _ => ?_
  refine built_bind (built_refuseIf _ _) fun _ => ?_
  exact built_bind (built_exec .buildDir) fun _ => built_buildRest m c

theorem built_build : Built m c (WithMarker (BuildAct m c) (buildMarker m c)) (build m c) :=
  built_seq_marker m c (built_buildBody m c) _

theorem returns_setting (n k : Text) :
    Returns (fun _ => True) (setting m c n k) (IsSetting m c n k) := by
  intro s v t _ h
  obtain ⟨rfl, -⟩ := look_eq_some_iff.mp h
  exact ⟨s.fs, s.cwd, rfl⟩

theorem returns_listSetting (n k : Text) :
    Returns (fun _ => True) (listSetting m c n k) (IsList m c n k) := by
  intro s v t _ h
  obtain ⟨rfl, -⟩ := look_eq_some_iff.mp h
  exact ⟨s.fs, s.cwd, rfl⟩

/-- `readNode` reads the four settings and leaves the state alone. -/
theorem readNode_eq_some_iff {nodeid : Text} {s t : Shell} {n : Node} :
    (readNode m c nodeid).run s = (some n, t) ↔ s = t ∧
      n = { nodeid := nodeid
            conf := commandSubst (readCfg m s.fs s.cwd c.nodesCfg nodeid "conf".toList)
            host := commandSubst (readCfg m s.fs s.cwd c.nodesCfg nodeid "host".toList)
            addrs := listWords m s.fs s.cwd
              (commandSubst (readCfg m s.fs s.cwd c.nodesCfg nodeid "addrs".toList))
            ports := listWords m s.fs s.cwd
              (commandSubst (readCfg m s.fs s.cwd c.nodesCfg nodeid "ports".toList))
            tls := none } := by
  simp only [readNode, c.tlsBranch_eq_false, setting, listSetting, bind_run, look_run]
  simp only [Bool.false_eq_true, if_false, pure_run, Prod.mk.injEq, Option.some.injEq]
  exact ⟨fun h => ⟨h.2, h.1.symm⟩, fun h => ⟨h.2.symm, h.1⟩⟩

theorem returns_readNode {nodeid : Text} (h : Listed m c nodeid) :
    Returns (fun _ => True) (readNode m c nodeid) (IsNode m c) := by
  intro s n t _ hrun
  have hn := ((readNode_eq_some_iff m c).mp hrun).2
  rw [hn]
  exact {
    listed := h
    conf := ⟨s.fs, s.cwd, by dsimp only⟩
    host := ⟨s.fs, s.cwd, by dsimp only⟩
    addrs := ⟨s.fs, s.cwd, by dsimp only⟩
    ports := ⟨s.fs, s.cwd, by dsimp only⟩
    tls := by dsimp only }

theorem built_readNode {P : Act → Prop} (nodeid : Text) : Built m c P (readNode m c nodeid) := by
  unfold readNode
  refine built_bind (built_setting _ _) fun _ => built_bind (built_setting _ _) fun _ => ?_
  refine built_bind (built_listSetting _ _) fun _ => built_bind (built_listSetting _ _) fun _ => ?_
  rw [c.tlsBranch_eq_false]
  exact Built.pure _

theorem mem_of_mem_zipIdx {ports : List Text} {p : Text × ℕ} (h : p ∈ ports.zipIdx) :
    p.1 ∈ ports := List.fst_mem_of_mem_zipIdx h

theorem built_configNode {pass nodeid : Text} (hpass : c.redisAuthPass = some pass)
    (h : Listed m c nodeid) : Built m c (ConfigAct m c) (configNode m c pass nodeid) := by
  unfold configNode
  refine built_bind (built_exec (.nodeDir h)) fun _ => ?_
  refine Built.bind_of_returns (built_readNode m c nodeid) (returns_readNode m c h) fun n hn => ?_
  refine built_bind (built_forEach fun p hp => ?_) fun _ => ?_
  · have hport := mem_of_mem_zipIdx hp
    unfold configInstance
    refine built_bind (built_exec (.addNode hn hport)) fun _ => ?_
    rw [hn.tls]
    exact built_exec (.conf hn hport hpass)
  · unfold configScripts
    refine built_bind (built_exec .authPass) fun _ => ?_
    refine built_bind (built_exec (.start hn)) fun _ => ?_
    refine built_bind (built_exec (.shutdown hn)) fun _ => ?_
    refine built_bind (built_exec (.connect hn)) fun _ => ?_
    rw [hn.tls]
    exact Built.pure ()

theorem returns_nodesList : Returns (fun _ => True) (nodesList m c)
    (fun l => ∀ nodeid ∈ l, Listed m c nodeid) := by
  intro s l t h hrun nodeid hmem
  exact ⟨l, returns_listSetting m c _ _ s l t h hrun, hmem⟩

theorem built_configBody : Built m c (ConfigAct m c) (configBody m c) := by
  unfold configBody
  refine built_bind (built_isFileAt (by simp [testedWords])) fun _ => ?_
  refine built_bind (built_refuseIf _ _) fun _ => ?_
  refine built_bind (built_exec .configDir) fun _ => ?_
  cases hpass : c.redisAuthPass with
  | none =>
    refine Built.bind_of_returns (V := fun _ => False) (built_require _) ?_ fun _ h => h.elim
    intro s a t _ h
    simp [require] at h
  | some pass =>
    refine built_bind (built_require _) fun _ => built_bind (built_exec .noNodes) fun _ => ?_
    refine Built.bind_of_returns (built_listSetting _ _) (returns_nodesList m c) fun l hl => ?_
    refine built_bind (built_forEach fun nodeid hid => ?_) fun _ => ?_
    · exact built_configNode m c hpass (hl nodeid hid)
    · unfold configTail
      exact built_bind (built_exec .env) fun _ => built_exec .create

theorem built_config : Built m c (WithMarker (ConfigAct m c) (configMarker m c)) (config m c) :=
  built_seq_marker m c (built_configBody m c) _

theorem built_copyScript {nodeid : Text} {stem : String} (h : Listed m c nodeid)
    (hs : stem ∈ scriptStems) : Built m c (DeployAct m c) (copyScript m c stem nodeid) :=
  built_exec (.copyScript h hs)

theorem built_chmodScript {nodeid : Text} {stem : String} (h : Listed m c nodeid)
    (hs : stem ∈ scriptStems) : Built m c (DeployAct m c) (chmodScript m c stem nodeid) :=
  built_exec (.chmodScript h hs)

theorem built_deployFiles {nodeid : Text} (h : Listed m c nodeid) :
    Built m c (DeployAct m c) (deployFiles m c nodeid) := by
  unfold deployFiles
  refine Built.bind_of_returns (built_listSetting _ _) (returns_listSetting m c _ _) fun l hl => ?_
  refine built_bind (built_forEach fun port hp => built_exec (.conf h hl hp)) fun _ => ?_
  refine built_bind (built_exec (.copyHome (by simp))) fun _ => ?_
  refine built_bind (built_copyScript m c h (by simp [scriptStems])) fun _ => ?_
  refine built_bind (built_copyScript m c h (by simp [scriptStems])) fun _ => ?_
  refine built_bind (built_copyScript m c h (by simp [scriptStems])) fun _ => ?_
  refine built_bind (built_exec .chmodCreate) fun _ => ?_
  refine built_bind (built_chmodScript m c h (by simp [scriptStems])) fun _ => ?_
  refine built_bind (built_chmodScript m c h (by simp [scriptStems])) fun _ => ?_
  refine built_bind (built_chmodScript m c h (by simp [scriptStems])) fun _ => ?_
  refine built_bind (built_isFileAt (by simp [testedWords])) fun _ => built_whenever fun _ => ?_
  refine built_bind (built_copyScript m c h (by simp [scriptStems])) fun _ => ?_
  exact built_chmodScript m c h (by simp [scriptStems])

theorem built_deployNode {nodeid : Text} (h : Listed m c nodeid) :
    Built m c (DeployAct m c) (deployNode m c nodeid) := by
  unfold deployNode
  refine built_bind (built_listSetting _ _) fun _ => built_bind (built_setting _ _) fun _ => ?_
  exact built_whenever fun _ => built_deployFiles m c h

theorem built_deployInstall : Built m c (DeployAct m c) (deployInstall m c) := by
  unfold deployInstall
  exact built_bind (built_cdMake .redisInstall) fun _ => built_cdMake .hiredisInstall

theorem built_deployTail : Built m c (DeployAct m c) (deployTail m c) := by
  unfold deployTail
  refine built_bind (built_isFileAt (by simp [testedWords])) fun _ => ?_
  refine built_bind (built_whenever fun _ => ?_) fun _ => ?_
  · exact built_bind (built_exec .certs) fun _ => built_exec (.copyHome (by simp))
  · exact built_bind (built_exec (.copyHome (by simp))) fun _ => built_exec (.copyHome (by simp))

/-- What follows the `mkdir -p` of `deploy()`. -/
theorem built_deployRest : Built m c (DeployAct m c) (nodesList m c >>= fun nodeslist =>
    forEach nodeslist (deployNode m c) >>= fun _ => deployInstall m c >>= fun _ =>
    deployTail m c) := by
  refine Built.bind_of_returns (built_listSetting _ _) (returns_nodesList m c) fun l hl => ?_
  refine built_bind (built_forEach fun nodeid hid => built_deployNode m c (hl nodeid hid)) fun _ => ?_
  exact built_bind (built_deployInstall m c) fun _ => built_deployTail m c

theorem built_deployBody : Built m c (DeployAct m c) (deployBody m c) := by
  unfold deployBody
  refine built_bind (built_isFileAt (by simp [testedWords])) fun _ => ?_
  refine built_bind (built_refuseIf _ _) fun _ => ?_
  refine built_bind (built_isFileAt (by simp [testedWords])) fun _ => ?_
  refine built_bind (built_refuseIf _ _) fun _ => ?_
  refine built_bind (built_isFileAt (by simp [testedWords])) fun _ => ?_
  refine built_bind (built_refuseIf _ _) fun _ => ?_
  exact built_bind (built_exec .homeDirs) fun _ => built_deployRest m c

theorem built_deploy : Built m c (WithMarker (DeployAct m c) (deployMarker c)) (deploy m c) :=
  built_seq_marker m c (built_deployBody m c) _

end Phases

end RedisCluster
