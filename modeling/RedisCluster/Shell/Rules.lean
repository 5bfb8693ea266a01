import RedisCluster.Shell.Command

/-!
# What a command does

* `Shell.changes_after`: a command, struck by a fault or not, changes only the
  paths it touches, and makes directories only where `mkdir -p` passes.
* `Cmd.grows_run`: most commands keep the directories and files.
* `Cmd.Absolute.run_eq`: with absolute words the current directory does not matter.
* `exec_eq_some_iff`, `refuseIf_eq_some_iff`, `cdMake_eq_some_iff`: the completed
  runs of the steps of a phase.
-/

namespace RedisCluster

open FileTree Errexit Script

/-- The directories that a command may make where nothing is. -/
def Cmd.makes (cwd : Path) : Cmd → List Path
  | .mkdirP dirs => mkdirPaths cwd dirs
  | _ => []

/-! ## Frames -/

theorem changes_putContent {A B : Set Path} (fs : FS) {p : Path} (t : Text) (h : p ∈ A) :
    Changes A B fs (putContent fs p t) := changes_set fs _ h

theorem changes_putCopy {A B : Set Path} (fs : FS) {p : Path} (f : File) (h : p ∈ A) :
    Changes A B fs (putCopy fs p f) := changes_set fs _ h

/-- A command that no fault strikes changes only what it touches. -/
theorem Cmd.changes_run (m : Machine) (cwd : Path) (fs : FS) (c : Cmd) :
    Changes {p | c.touches m cwd fs p = true} {p | p ∈ c.makes cwd} fs (c.run m cwd fs).1 := by
  cases c with
  | mkdirP dirs => exact changes_makeDirs fs fun p hp => hp
  | write dest t =>
    simp only [Cmd.run]
    split
    · next p hp => exact changes_putContent fs t (by simp [Cmd.touches, hp])
    · exact Changes.refl _ _ _
  | append dest t =>
    simp only [Cmd.run]
    split
    · next p hp => exact changes_putContent fs _ (by simp [Cmd.touches, hp])
    · exact Changes.refl _ _ _
  | pipeline pl dest =>
    simp only [Cmd.run]
    split
    · next p hp =>
      split
      · exact changes_putContent fs _ (by simp [Cmd.touches, hp])
      · exact Changes.refl _ _ _
    · exact Changes.refl _ _ _
  | copyIn source name dest =>
    simp only [Cmd.run]
    split
    · next p t hp => exact changes_putContent fs _ (by simp [Cmd.touches, hp])
    · exact Changes.refl _ _ _
  | cp src dest =>
    simp only [Cmd.run]
    split
    · next p f hp hf =>
      split
      · exact Changes.refl _ _ _
      · exact changes_putCopy fs _ (by simp [Cmd.touches, hp])
    · exact Changes.refl _ _ _
  | cpR src dest =>
    simp only [Cmd.run]
    split
    · next p q hp hq =>
      split
      · refine changes_copyBelow fs fun r hr => ?_
        simpa [Cmd.touches, hp, belowAny, below] using hr
      · exact Changes.refl _ _ _
    · exact Changes.refl _ _ _
  | chmodX file =>
    simp only [Cmd.run]
    split
    · next p hp =>
      split
      · exact changes_set fs _ (by simp [Cmd.touches, hp])
      · exact Changes.refl _ _ _
    · exact Changes.refl _ _ _
  | rmRf dir =>
    simp only [Cmd.run]
    split
    · next p hp =>
      refine changes_removeBelow fs fun r hr => ?_
      simpa [Cmd.touches, hp, belowAny, below] using hr
    · exact Changes.refl _ _ _
  | tar pkg dir =>
    simp only [Cmd.run]
    split
    · exact changes_confine fs _ fun p hp => hp
    · exact Changes.refl _ _ _
  | make args installDir => exact changes_confine fs _ fun p hp => hp
  | cd dir => exact Changes.refl _ _ _

theorem Cmd.changes_interrupted (m : Machine) (cwd : Path) (fs : FS) (f : Fault) (c : Cmd) :
    Changes {p | c.touches m cwd fs p = true} {p | p ∈ c.makes cwd} fs
      (c.interrupted m cwd fs f) := by
  cases c with
  | mkdirP dirs => exact changes_makeDirs fs fun p hp => List.mem_of_mem_take hp
  | _ => exact changes_overlay fs f.left fun p hp => hp

/-- A command, struck or not, changes only what it touches. -/
theorem Shell.changes_after (m : Machine) (s : Shell) (c : Cmd) :
    Changes {p | c.touches m s.cwd s.fs p = true} {p | p ∈ c.makes s.cwd} s.fs (s.after m c).fs := by
  simp only [Shell.after, Shell.outcome]
  split
  · exact Cmd.changes_interrupted m s.cwd s.fs _ c
  · exact Cmd.changes_run m s.cwd s.fs c

/-- A command that succeeds was not struck. -/
theorem Shell.run_of_outcome {m : Machine} {s : Shell} {c : Cmd} (h : (s.outcome m c).2 = true) :
    s.outcome m c = c.run m s.cwd s.fs := by
  unfold Shell.outcome at h ⊢
  split at h
  · simp at h
  · rfl

theorem outcome_of_noFaults {m : Machine} {s : Shell} (h : s.faults = []) (cm : Cmd) :
    s.outcome m cm = cm.run m s.cwd s.fs := by
  rw [Shell.outcome, h]
  rfl

/-! ## Growth -/

/-- The commands that take nothing away: no `cp -r`, `rm`, `tar` or `make`. -/
def Cmd.Additive : Cmd → Prop
  | .cpR _ _ | .rmRf _ | .tar _ _ | .make _ _ => False
  | _ => True

theorem ne_dir_of_fileTarget {fs : FS} {cwd p : Path} {w : PathWord}
    (h : fileTarget fs cwd w = some p) : fs p ≠ some .dir := by
  intro hp
  have hdir := (fileTarget_eq_some_iff.mp h).2.2
  rw [isDir_iff.mpr hp] at hdir
  cases hdir

theorem ne_dir_of_copyTarget {fs : FS} {cwd p : Path} {w : PathWord} {n : Text}
    (h : copyTarget fs cwd w n = some p) : fs p ≠ some .dir := by
  unfold copyTarget at h
  split at h
  · exact ne_dir_of_fileTarget h
  · exact ne_dir_of_fileTarget h

/-- Such a command keeps the directories and files. -/
theorem Cmd.grows_run (m : Machine) (cwd : Path) (fs : FS) {c : Cmd} (hc : c.Additive) :
    Grows fs (c.run m cwd fs).1 := by
  cases c with
  | mkdirP dirs => exact grows_makeDirs fs _
  | write dest t | append dest t =>
    simp only [Cmd.run]
    split
    · next p hp => exact grows_set_file _ (ne_dir_of_fileTarget hp)
    · exact Grows.refl fs
  | pipeline pl dest =>
    simp only [Cmd.run]
    split
    · next p hp =>
      split
      · exact grows_set_file _ (ne_dir_of_fileTarget hp)
      · exact Grows.refl fs
    · exact Grows.refl fs
  | copyIn source name dest =>
    simp only [Cmd.run]
    split
    · next p t hp => exact grows_set_file _ (ne_dir_of_copyTarget hp)
    · exact Grows.refl fs
  | cp src dest =>
    simp only [Cmd.run]
    split
    · next p f hp hf =>
      split
      · exact Grows.refl fs
      · exact grows_set_file _ (ne_dir_of_copyTarget hp)
    · exact Grows.refl fs
  | chmodX file =>
    simp only [Cmd.run]
    split
    · next p hp =>
      split
      · exact grows_set_file _ (ne_dir_of_fileTarget hp)
      · exact Grows.refl fs
    · exact Grows.refl fs
  | cd dir => exact Grows.refl fs
  | cpR | rmRf | tar | make => exact hc.elim

theorem dir_of_set_file {fs : FS} {p q : Path} {d : File} (h : set fs q (.file d) p = some .dir) :
    fs p = some .dir := by
  by_cases hp : p = q
  · rw [hp, set_same] at h
    cases h
  · rwa [set_of_ne hp] at h

/-- A directory behind such a command was there before, or `mkdir -p` has made it. -/
theorem Cmd.dir_of_run (m : Machine) (cwd : Path) (fs : FS) {c : Cmd} (hc : c.Additive) {p : Path}
    (h : (c.run m cwd fs).1 p = some .dir) : fs p = some .dir ∨ p ∈ c.makes cwd := by
  cases c with
  | mkdirP dirs =>
    rcases makeDirs_at fs (mkdirPaths cwd dirs) p with e | ⟨hp, -, -⟩
    · exact Or.inl (e.symm.trans h)
    · exact Or.inr hp
  | write dest t | append dest t =>
    left
    simp only [Cmd.run] at h
    split at h
    · exact dir_of_set_file h
    · exact h
  | pipeline pl dest =>
    left
    simp only [Cmd.run] at h
    split at h
    · split at h
      · exact dir_of_set_file h
      · exact h
    · exact h
  | copyIn source name dest =>
    left
    simp only [Cmd.run] at h
    split at h
    · exact dir_of_set_file h
    · exact h
  | cp src dest =>
    left
    simp only [Cmd.run] at h
    split at h
    · split at h
      · exact h
      · exact dir_of_set_file h
    · exact h
  | chmodX file =>
    left
    simp only [Cmd.run] at h
    split at h
    · split at h
      · exact dir_of_set_file h
      · exact h
    · exact h
  | cd dir => exact Or.inl h
  | cpR | rmRf | tar | make => exact hc.elim

/-- What a fault leaves at the paths of files is no directory. -/
def PlainFaults (faults : List (Option Fault)) : Prop :=
  ∀ f, some f ∈ faults → ∀ p, f.left p ≠ some .dir

/-- Such a command, struck or not, makes no directory but those of `mkdir -p`. -/
theorem Shell.ne_dir_after {m : Machine} {s : Shell} (hfaults : PlainFaults s.faults) {c : Cmd}
    (hc : c.Additive) {p : Path} (hmakes : p ∉ c.makes s.cwd) (hp : s.fs p ≠ some .dir) :
    (s.after m c).fs p ≠ some .dir := by
  intro hdir
  simp only [Shell.after, Shell.outcome] at hdir
  cases hstrike : s.faults.head?.join with
  | none =>
    simp only [hstrike] at hdir
    rcases c.dir_of_run m s.cwd s.fs hc hdir with h | h
    · exact hp h
    · exact hmakes h
  | some f =>
    have hmem : some f ∈ s.faults := by
      rw [Option.join_eq_some_iff] at hstrike
      exact List.mem_of_mem_head? hstrike
    simp only [hstrike] at hdir
    cases c with
    | mkdirP dirs =>
      rcases makeDirs_at s.fs ((mkdirPaths s.cwd dirs).take f.made) p with e | ⟨hp', -, -⟩
      · exact hp (e.symm.trans hdir)
      · exact hmakes (List.mem_of_mem_take hp')
    | _ =>
      simp only [Cmd.interrupted, overlay] at hdir
      split at hdir
      · exact hfaults f hmem p hdir
      · exact hp hdir

/-! ## Absolute words -/

section Absolute

variable {w : PathWord} {fs : FS} {cwd cwd' : Path}

theorem IsAbsolute.copyTarget_eq (h : IsAbsolute w) (n : Text) :
    copyTarget fs cwd w n = copyTarget fs cwd' w n := by
  rw [copyTarget, copyTarget, h.testD_eq (d := cwd'), h.fileTarget_eq (d := cwd'),
    (h.append [n]).fileTarget_eq (d := cwd')]

theorem IsAbsolute.copyTreeTarget_eq (h : IsAbsolute w) (n : Text) :
    copyTreeTarget fs cwd w n = copyTreeTarget fs cwd' w n := by
  rw [copyTreeTarget, copyTreeTarget, h.testD_eq (d := cwd')]
  split
  · exact (h.append [n]).resolve_eq
  · exact h.resolve_eq

end Absolute

/-- The words of a command are absolute. `make` works in the current directory. -/
def Cmd.Absolute : Cmd → Prop
  | .mkdirP dirs => ∀ w ∈ dirs, IsAbsolute w
  | .write w _ | .append w _ | .pipeline _ w | .copyIn _ _ w | .chmodX w | .rmRf w | .tar _ w
  | .cd w => IsAbsolute w
  | .cp src dest | .cpR src dest => IsAbsolute src ∧ IsAbsolute dest
  | .make _ _ => False

/-- Such a command does the same in every current directory. -/
theorem Cmd.Absolute.run_eq {c : Cmd} (h : c.Absolute) (m : Machine) (fs : FS) (cwd cwd' : Path) :
    c.run m cwd fs = c.run m cwd' fs := by
  cases c with
  | mkdirP dirs =>
    have hpaths : mkdirPaths cwd dirs = mkdirPaths cwd' dirs :=
      List.flatMap_congr fun w hw => by rw [(h w hw).startOf_eq (d := cwd')]
    rw [Cmd.run, Cmd.run, hpaths]
  | write w t | append w t | pipeline p w =>
    simp only [Cmd.run]
    rw [IsAbsolute.fileTarget_eq h]
  | copyIn source n w =>
    simp only [Cmd.run]
    rw [IsAbsolute.copyTarget_eq h]
  | chmodX w =>
    simp only [Cmd.run]
    rw [IsAbsolute.fileTarget_eq h, IsAbsolute.testD_eq h]
  | rmRf w =>
    simp only [Cmd.run]
    rw [IsAbsolute.resolve_eq h]
  | tar pkg w =>
    simp only [Cmd.run, tarTrees]
    rw [IsAbsolute.testD_eq h, IsAbsolute.target_eq h, IsAbsolute.resolve_eq h]
  | cd w =>
    simp only [Cmd.run]
    rw [IsAbsolute.testD_eq h]
  | cp src dest =>
    simp only [Cmd.run]
    rw [h.2.copyTarget_eq, h.1.resolve_eq]
  | cpR src dest =>
    simp only [Cmd.run]
    rw [h.2.copyTreeTarget_eq, h.1.resolve_eq]
  | make => exact h.elim

/-! ## Completed runs -/

theorem attempt_run (m : Machine) (c : Cmd) (s : Shell) :
    (attempt m c).run s = (some (s.outcome m c).2, s.after m c) := rfl

theorem exec_eq_some_iff {m : Machine} {c : Cmd} {s t : Shell} :
    (exec m c).run s = (some (), t) ↔ (s.outcome m c).2 = true ∧ t = s.after m c := by
  rw [exec, bind_run, attempt_run]
  cases h : (s.outcome m c).2 <;> simp [require, eq_comm]

theorem exec_seq_eq_some_iff {β : Type} {m : Machine} {c : Cmd} {f : Unit → Script Shell β}
    {s u : Shell} {b : β} : (exec m c >>= f).run s = (some b, u) ↔
      ∃ t, (exec m c).run s = (some (), t) ∧ (f ()).run t = (some b, u) := seq_eq_some_iff

theorem exec_run_snd (m : Machine) (c : Cmd) (s : Shell) :
    ((exec m c).run s).2 = s.after m c := by
  rw [exec, bind_run, attempt_run]
  cases (s.outcome m c).2 <;> rfl

theorem refuseIf_eq_some_iff {bad : Bool} {r : Refusal} {s t : Shell} :
    (refuseIf bad r).run s = (some (), t) ↔ bad = false ∧ s = t := by
  cases bad <;> simp [refuseIf, bind_run]

theorem refuseIf_seq_eq_some_iff {β : Type} {bad : Bool} {r : Refusal} {f : Unit → Script Shell β}
    {s t : Shell} {b : β} :
    (refuseIf bad r >>= f).run s = (some b, t) ↔ bad = false ∧ (f ()).run s = (some b, t) := by
  cases bad <;> simp [refuseIf, bind_run]

theorem ask_run_of_nil {q : Question} {s : Shell} (h : s.answers = []) :
    (ask q).run s = (none, s) := by
  simp only [ask, h]

theorem ask_run_of_cons {q : Question} {s : Shell} {a : Text} {as : List Text}
    (h : s.answers = a :: as) :
    (ask q).run s = (some a, { s.note (.asked q a) with answers := as }) := by
  simp only [ask, h]

theorem refuseIf_true_seq_run {β : Type} (r : Refusal) (f : Unit → Script Shell β) (s : Shell) :
    (refuseIf true r >>= f).run s = (none, s.note (.refused r)) := rfl

theorem refuseIf_false_seq {β : Type} (r : Refusal) (f : Unit → Script Shell β) :
    (refuseIf false r >>= f) = f () := rfl

theorem isFileAt_eq_some_iff {w : PathWord} {s t : Shell} {b : Bool} :
    (isFileAt w).run s = (some b, t) ↔ testF s.fs s.cwd w = b ∧ s = t := look_eq_some_iff

theorem isDirAt_eq_some_iff {w : PathWord} {s t : Shell} {b : Bool} :
    (isDirAt w).run s = (some b, t) ↔ testD s.fs s.cwd w = b ∧ s = t := look_eq_some_iff

/-- What a command leaves, where it succeeds and where it stops the script. -/
theorem ends_exec {m : Machine} {c : Cmd} {I J K : Shell → Prop}
    (hok : ∀ s, I s → (s.outcome m c).2 = true → J (s.after m c))
    (hfail : ∀ s, I s → (s.outcome m c).2 = false → K (s.after m c)) :
    Ends I (exec m c) (fun _ => J) K := by
  intro s hs
  rw [exec, bind_run, attempt_run]
  cases h : (s.outcome m c).2
  · exact hfail s hs h
  · exact hok s hs h

/-- `cd dir && make` completes when the `cd` fails or `make` succeeds after it. -/
theorem cdMake_eq_some_iff {m : Machine} {dir : PathWord} {args : FS → Path → List Text}
    {installDir : Option PathWord} {s t : Shell} :
    (cdMake m dir args installDir).run s = (some (), t) ↔
      ((s.outcome m (.cd dir)).2 = true ∧
        (exec m (.make (args (s.after m (.cd dir)).fs (s.after m (.cd dir)).cwd) installDir)).run
          (s.after m (.cd dir)) = (some (), t)) ∨
        ((s.outcome m (.cd dir)).2 = false ∧ t = s.after m (.cd dir)) := by
  rw [cdMake, bind_run, attempt_run]
  simp only [bind_run, look_run, whenever_eq_some_iff]
  constructor
  · rintro (h | ⟨h, rfl⟩)
    · exact Or.inl h
    · exact Or.inr ⟨h, rfl⟩
  · rintro (h | ⟨h, rfl⟩)
    · exact Or.inl h
    · exact Or.inr ⟨h, rfl⟩

theorem cdMake_seq_eq_some_iff {β : Type} {m : Machine} {dir : PathWord}
    {args : FS → Path → List Text} {installDir : Option PathWord} {f : Unit → Script Shell β}
    {s u : Shell} {b : β} : (cdMake m dir args installDir >>= f).run s = (some b, u) ↔
      ∃ t, (cdMake m dir args installDir).run s = (some (), t) ∧ (f ()).run t = (some b, u) :=
  seq_eq_some_iff

theorem Shell.after_fs_of_ok {m : Machine} {s : Shell} {c : Cmd} (h : (s.outcome m c).2 = true) :
    (s.after m c).fs = (c.run m s.cwd s.fs).1 := congrArg Prod.fst (Shell.run_of_outcome h)

/-- A completed step that takes nothing away keeps the directories and files. -/
theorem grows_of_exec {m : Machine} {c : Cmd} (hc : c.Additive) {s t : Shell}
    (h : (exec m c).run s = (some (), t)) : Grows s.fs t.fs := by
  obtain ⟨hok, rfl⟩ := exec_eq_some_iff.mp h
  rw [Shell.after_fs_of_ok hok]
  exact c.grows_run m s.cwd s.fs hc

/-- A completed step makes no directory but those of `mkdir -p`. -/
theorem ne_dir_of_exec {m : Machine} {c : Cmd} (hc : c.Additive) {s t : Shell} {p : Path}
    (hmakes : p ∉ c.makes s.cwd) (hp : s.fs p ≠ some .dir)
    (h : (exec m c).run s = (some (), t)) : t.fs p ≠ some .dir := by
  obtain ⟨hok, rfl⟩ := exec_eq_some_iff.mp h
  rw [Shell.after_fs_of_ok hok]
  intro hdir
  rcases c.dir_of_run m s.cwd s.fs hc hdir with h | h
  · exact hp h
  · exact hmakes h

/-- A file put at the target of a word is found there. -/
theorem testF_of_fileTarget {fs fs' : FS} {cwd p : Path} {w : PathWord}
    (h : fileTarget fs cwd w = some p) (hgrows : Grows fs fs') (hp : isFile fs' p = true) :
    testF fs' cwd w = true :=
  testF_eq_true_iff.mpr ⟨p, resolve_of_grows hgrows (fileTarget_eq_some_iff.mp h).1, hp⟩

/-- After a completed write its file is there. -/
theorem testF_of_exec_write {dest : PathWord} {text : Text} {m : Machine} {s t : Shell}
    (h : (exec m (.write dest text)).run s = (some (), t)) : testF t.fs s.cwd dest = true := by
  have hgrows := grows_of_exec (c := .write dest text) trivial h
  obtain ⟨hok, rfl⟩ := exec_eq_some_iff.mp h
  rw [Shell.after_fs_of_ok hok] at hgrows ⊢
  rw [Shell.run_of_outcome hok] at hok
  simp only [Cmd.run] at hok hgrows ⊢
  cases htarget : fileTarget s.fs s.cwd dest with
  | none => simp [htarget] at hok
  | some q =>
    simp only [htarget] at hgrows ⊢
    exact testF_of_fileTarget htarget hgrows (by simp [isFile, putContent])

/-- After a completed copy its file is there, unless the word leads to a directory. -/
theorem testF_of_exec_copyIn {source : Option Text} {name : Text} {dest : PathWord} {m : Machine}
    {s t : Shell} (hdir : s.fs (target s.cwd dest) ≠ some .dir)
    (h : (exec m (.copyIn source name dest)).run s = (some (), t)) :
    testF t.fs s.cwd dest = true := by
  have hgrows := grows_of_exec (c := .copyIn source name dest) trivial h
  obtain ⟨hok, rfl⟩ := exec_eq_some_iff.mp h
  rw [Shell.after_fs_of_ok hok] at hgrows ⊢
  rw [Shell.run_of_outcome hok] at hok
  have hnot : testD s.fs s.cwd dest = false := by
    rw [Bool.eq_false_iff]
    intro hD
    obtain ⟨p, hp, hp'⟩ := testD_eq_true_iff.mp hD
    rw [resolve_eq_target hp] at hp'
    exact hdir (isDir_iff.mp hp')
  simp only [Cmd.run, copyTarget, hnot, Bool.false_eq_true, if_false] at hok hgrows ⊢
  cases htarget : fileTarget s.fs s.cwd dest with
  | none => simp [htarget] at hok
  | some q =>
    cases source with
    | none => simp [htarget] at hok
    | some text =>
      simp only [htarget] at hgrows ⊢
      exact testF_of_fileTarget htarget hgrows (by simp [isFile, putContent])

/-- After a completed pipeline its file is there. -/
theorem testF_of_exec_pipeline {m : Machine} {p : Pipeline} {dest : PathWord} {s t : Shell}
    (h : (exec m (.pipeline p dest)).run s = (some (), t)) : testF t.fs s.cwd dest = true := by
  have hgrows := grows_of_exec (c := .pipeline p dest) trivial h
  obtain ⟨hok, rfl⟩ := exec_eq_some_iff.mp h
  rw [Shell.after_fs_of_ok hok] at hgrows ⊢
  rw [Shell.run_of_outcome hok] at hok
  simp only [Cmd.run] at hok hgrows ⊢
  cases htarget : fileTarget s.fs s.cwd dest with
  | none => simp [htarget] at hok
  | some q =>
    simp only [htarget] at hok hgrows ⊢
    split at hok
    · next hopens =>
      rw [if_pos hopens] at hgrows ⊢
      exact testF_of_fileTarget htarget hgrows (by simp [isFile, putContent])
    · cases hok

end RedisCluster
