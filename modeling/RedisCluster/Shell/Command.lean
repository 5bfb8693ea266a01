import RedisCluster.Library.Script
import RedisCluster.Shell.Machine
import RedisCluster.Shell.Placeholder

/-!
# The commands of the script

`Cmd` lists the commands by which the tool changes the file tree. Each has an
effect on the tree and a status (`Cmd.run`); a command that is interrupted or
fails half-way leaves anything at the paths it touches (`Cmd.interrupted`).

`Shell` is the state of a run: the tree, the current directory, the answers that
are still to be typed, the faults that are still to strike, and the trace of the
commands run and the prompts answered so far.

* `attempt`, `exec`: run a command; under `errexit` a failing one stops the
  script, which `exec` does.
* `cdMake`: `cd dir && make ...`; a failing `cd` is not the last command of the
  list and does not stop the script.
-/

namespace RedisCluster

open FileTree Errexit Script

/-! ## Pipelines -/

/-- One stage `sed 's/{name}/value/g'`. Without a value an array element was
    unset, and the stage's subshell dies of `nounset`. -/
structure Stage where
  name : Placeholder
  value : Option Text
  deriving DecidableEq

/-- The kinds of files that `config()` writes through `cat`. -/
inductive Output where
  | instanceConf
  | startScript
  | shutdownScript
  | connectScript
  | tlsconnectScript
  | clusterEnv
  | createCluster
  deriving DecidableEq

/-- `cat source | sed ... | ... | sed ...`. Without a source the template cannot be read. -/
structure Pipeline where
  kind : Output
  source : Option Text
  stages : List Stage
  deriving DecidableEq

/-- What a stage prints; `none` when it fails, having printed nothing. -/
def Stage.run (m : Machine) (s : Stage) (input : Text) : Option Text :=
  s.value.bind fun v => sed m (braces.mark s.name) v input

/-- The statuses of the stages, and what the last one prints. -/
def runStages (m : Machine) : List Stage → Text → List Bool × Text
  | [], input => ([], input)
  | s :: ss, input =>
    match s.run m input with
    | some out => (true :: (runStages m ss out).1, (runStages m ss out).2)
    | none => (false :: (runStages m ss []).1, (runStages m ss []).2)

namespace Pipeline

/-- The statuses of `cat` and the stages. -/
def statuses (m : Machine) (p : Pipeline) : List Bool :=
  p.source.isSome :: (runStages m p.stages (p.source.getD [])).1

/-- What the pipeline prints. -/
def output (m : Machine) (p : Pipeline) : Text := (runStages m p.stages (p.source.getD [])).2

/-- The status of the pipeline, which is that of its last command: `pipefail` is not set. -/
def ok (m : Machine) (p : Pipeline) : Bool := (p.statuses m).getLast?.all id

/-- The last command comes to opening the file it is redirected to: the
    expansions of its words do not fail. -/
def opens (p : Pipeline) : Bool := p.stages.getLast?.all fun s => s.value.isSome

end Pipeline

/-! ## Commands -/

/-- The commands that change the file tree or the current directory. `copyIn` is
    `cp` of a file of the cluster's conf directory, given by its content and its
    name. -/
inductive Cmd where
  | mkdirP (dirs : List PathWord)
  | write (dest : PathWord) (content : Text)
  | append (dest : PathWord) (content : Text)
  | pipeline (p : Pipeline) (dest : PathWord)
  | copyIn (source : Option Text) (name : Text) (dest : PathWord)
  | cp (src dest : PathWord)
  | cpR (src dest : PathWord)
  | chmodX (file : PathWord)
  | rmRf (dir : PathWord)
  | tar (pkg : Text) (dir : PathWord)
  | make (args : List Text) (installDir : Option PathWord)
  | cd (dir : PathWord)
  deriving DecidableEq

/-- `d` or below it. -/
def below (d p : Path) : Bool := d.isPrefixOf p

/-- The directories that `mkdir -p` makes where they are missing. -/
def mkdirPaths (cwd : Path) (dirs : List PathWord) : List Path :=
  dirs.flatMap fun w => visited (startOf cwd w).1 (startOf cwd w).2

/-- Where `cp` and `cp -r` put a copy of something named `name`: into `dest`, if
    that is a directory. -/
def copyTarget (fs : FS) (cwd : Path) (dest : PathWord) (name : Text) : Option Path :=
  if testD fs cwd dest then fileTarget fs cwd (dest ++ [name]) else fileTarget fs cwd dest

/-- Where `cp -r` puts a copy of a directory named `name`. -/
def copyTreeTarget (fs : FS) (cwd : Path) (dest : PathWord) (name : Text) : Option Path :=
  resolve fs cwd (if testD fs cwd dest then dest ++ [name] else dest)

/-- The last component of a path, slashes at its end aside. -/
def baseName (w : PathWord) : Text := lastName (w.filter (· ≠ []))

/-- Write a content; a file that is there keeps its mode. -/
def putContent (fs : FS) (p : Path) (t : Text) : FS := fun q =>
  if q = p then some (.file ⟨t, (dataAt fs p).any File.executable⟩) else fs q

/-- Copy a file; a file that is there keeps its mode. -/
def putCopy (fs : FS) (p : Path) (f : File) : FS := fun q =>
  if q = p then some (.file ⟨f.content, ((dataAt fs p).getD f).executable⟩) else fs q

theorem putContent_eq_set (fs : FS) (p : Path) (t : Text) :
    putContent fs p t = set fs p (.file ⟨t, (dataAt fs p).any File.executable⟩) := rfl

theorem putCopy_eq_set (fs : FS) (p : Path) (f : File) :
    putCopy fs p f = set fs p (.file ⟨f.content, ((dataAt fs p).getD f).executable⟩) := rfl

/-- At or below one of `ds`. -/
def belowAny (ds : List Path) (p : Path) : Bool := ds.any fun d => below d p

theorem belowAny_iff {ds : List Path} {p : Path} : belowAny ds p = true ↔ ∃ d ∈ ds, d <+: p := by
  simp [belowAny, below]

/-- The trees that `make` works in: the current directory, and the one it installs to. -/
def makeTrees (fs : FS) (cwd : Path) (installDir : Option PathWord) : List Path :=
  cwd :: (installDir.bind (resolve fs cwd)).toList

/-- The trees that `tar` unpacks in `dir`. -/
def tarTrees (m : Machine) (fs : FS) (cwd : Path) (pkg : Text) (dir : PathWord) : List Path :=
  match resolve fs cwd dir with
  | some d => (m.topLevel pkg).map fun top => d ++ [top]
  | none => []

/-- The tree that a command leaves, and its status. -/
def Cmd.run (m : Machine) (cwd : Path) (fs : FS) : Cmd → FS × Bool
  | .mkdirP dirs => makeDirs fs (mkdirPaths cwd dirs)
  | .write dest t =>
    match fileTarget fs cwd dest with
    | some p => (putContent fs p t, true)
    | none => (fs, false)
  | .append dest t =>
    match fileTarget fs cwd dest with
    | some p => (putContent fs p (((dataAt fs p).map File.content).getD [] ++ t), true)
    | none => (fs, false)
  | .pipeline pl dest =>
    match fileTarget fs cwd dest with
    | some p => if pl.opens then (putContent fs p (pl.output m), pl.ok m) else (fs, false)
    | none => (fs, false)
  | .copyIn source name dest =>
    match copyTarget fs cwd dest name, source with
    | some p, some t => (putContent fs p t, true)
    | _, _ => (fs, false)
  | .cp src dest =>
    match copyTarget fs cwd dest (lastName src), (resolve fs cwd src).bind (dataAt fs) with
    | some p, some f =>
      if resolve fs cwd src = some p then (fs, false) else (putCopy fs p f, true)
    | _, _ => (fs, false)
  | .cpR src dest =>
    match copyTreeTarget fs cwd dest (lastName src), resolve fs cwd src with
    | some p, some q =>
      if isDir fs q && !isFile fs p && !below q p then (copyBelow fs q p, true) else (fs, false)
    | _, _ => (fs, false)
  | .chmodX file =>
    match fileTarget fs cwd file with
    | some p =>
      match dataAt fs p with
      | some f => (set fs p (.file { f with executable := true }), true)
      | none => (fs, false)
    | none => (fs, testD fs cwd file)
  | .rmRf dir =>
    match resolve fs cwd dir with
    | some p => (removeBelow fs p, true)
    | none => (fs, true)
  | .tar pkg dir =>
    if testD fs cwd dir then confine (belowAny (tarTrees m fs cwd pkg dir)) (m.tar pkg (target cwd dir)) fs
    else (fs, false)
  | .make args installDir => confine (belowAny (makeTrees fs cwd installDir)) (m.make args cwd) fs
  | .cd dir => (fs, testD fs cwd dir)

/-- The paths whose nodes a command may replace; `mkdir -p` only adds directories. -/
def Cmd.touches (m : Machine) (cwd : Path) (fs : FS) : Cmd → Path → Bool
  | .mkdirP _, _ => false
  | .write dest _, p => fileTarget fs cwd dest = some p
  | .append dest _, p => fileTarget fs cwd dest = some p
  | .pipeline _ dest, p => fileTarget fs cwd dest = some p
  | .copyIn _ name dest, p => copyTarget fs cwd dest name = some p
  | .cp src dest, p => copyTarget fs cwd dest (lastName src) = some p
  | .cpR src dest, p => belowAny (copyTreeTarget fs cwd dest (lastName src)).toList p
  | .chmodX file, p => fileTarget fs cwd file = some p
  | .rmRf dir, p => belowAny (resolve fs cwd dir).toList p
  | .tar pkg dir, p => belowAny (tarTrees m fs cwd pkg dir) p
  | .make _ installDir, p => belowAny (makeTrees fs cwd installDir) p
  | .cd _, _ => false

/-- A fault strikes a command half-way: `left` is what it leaves at the paths it
    touches, `made` the number of directories a `mkdir -p` has come to. -/
structure Fault where
  left : FS
  made : ℕ

/-- The tree that a struck command leaves. -/
def Cmd.interrupted (m : Machine) (cwd : Path) (fs : FS) (f : Fault) : Cmd → FS
  | .mkdirP dirs => (makeDirs fs ((mkdirPaths cwd dirs).take f.made)).1
  | c => overlay (c.touches m cwd fs) f.left fs

/-! ## Runs -/

/-- What the prompts of `clean()` ask to remove. -/
inductive Question where
  | removeBuild
  | removeConfig
  | removeHome
  deriving DecidableEq

/-- The reasons for which the tool prints an error and exits by itself. -/
inductive Refusal where
  | badClusterid
  | reservedClusterid
  | noIniFile
  | noNodesCfg
  | notRedisPkg
  | oldRedis
  | notHiredisPkg
  | oldHiredis
  | alreadyBuilt
  | noRedisPkg
  | noHiredisPkg
  | redisDirExists
  | hiredisDirExists
  | alreadyConfigured
  | portsDiffer
  | notBuilt
  | notConfigured
  | alreadyDeployed
  deriving DecidableEq

/-- What a run does: a command in a directory, with its status; a prompt with its
    answer; an error exit. -/
inductive Event where
  | ran (cwd : Path) (c : Cmd) (ok : Bool)
  | asked (q : Question) (answer : Text)
  | refused (r : Refusal)
  deriving DecidableEq

/-- The state of a run. -/
structure Shell where
  fs : FS
  cwd : Path
  answers : List Text
  faults : List (Option Fault)
  trace : List Event

/-- The tree and the status that a command ends with; an interrupted one fails. -/
def Shell.outcome (m : Machine) (s : Shell) (c : Cmd) : FS × Bool :=
  match s.faults.head?.join with
  | some f => (c.interrupted m s.cwd s.fs f, false)
  | none => c.run m s.cwd s.fs

/-- The directory a command leaves the shell in. -/
def Shell.cwdAfter (m : Machine) (s : Shell) : Cmd → Path
  | .cd dir => if (s.outcome m (.cd dir)).2 then target s.cwd dir else s.cwd
  | _ => s.cwd

/-- The state after a command. -/
def Shell.after (m : Machine) (s : Shell) (c : Cmd) : Shell where
  fs := (s.outcome m c).1
  cwd := s.cwdAfter m c
  answers := s.answers
  faults := s.faults.tail
  trace := s.trace ++ [.ran s.cwd c (s.outcome m c).2]

/-- Note what else has happened. -/
def Shell.note (s : Shell) (e : Event) : Shell := { s with trace := s.trace ++ [e] }

/-- Run a command; its status is the result. -/
def attempt (m : Machine) (c : Cmd) : Script Shell Bool :=
  ⟨fun s => (some (s.outcome m c).2, s.after m c)⟩

/-- Run a command; stop if it fails. -/
def exec (m : Machine) (c : Cmd) : Script Shell Unit := do
  let ok ← attempt m c
  require ok

/-- `cd dir && make args`. The arguments are expanded in the directory that the `cd`
    has entered. -/
def cdMake (m : Machine) (dir : PathWord) (args : FS → Path → List Text)
    (installDir : Option PathWord) : Script Shell Unit := do
  let ok ← attempt m (.cd dir)
  let expanded ← look fun s => args s.fs s.cwd
  whenever ok (exec m (.make expanded installDir))

/-- `read -p ... confirm`; at the end of the input `read` fails. -/
def ask (q : Question) : Script Shell Text :=
  ⟨fun s =>
    match s.answers with
    | [] => (none, s)
    | a :: rest =>
      (some a, { s.note (.asked q a) with answers := rest })⟩

/-- `if bad; then echoerror ...; exit 1; fi` -/
def refuseIf (bad : Bool) (r : Refusal) : Script Shell Unit :=
  if bad then (do
    update fun s => s.note (.refused r)
    stop)
  else pure ()

/-- `[[ -f w ]]` -/
def isFileAt (w : PathWord) : Script Shell Bool := look fun s => testF s.fs s.cwd w

/-- `[[ -d w ]]` -/
def isDirAt (w : PathWord) : Script Shell Bool := look fun s => testD s.fs s.cwd w

end RedisCluster
