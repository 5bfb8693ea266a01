import RedisCluster.Library.Edits
import RedisCluster.Shell.Rules

/-!
# Commands as edits

A `mkdir -p`, copy or `chmod +x` that succeeds makes one edit at each path it changes, and so does
a `make install` that lays the same files each time.

* `Cmd.edit`: the edits of a command in a tree; `Cmd.run_eq_applyEdits`, `Cmd.fitTree_edit`.
* `Cmd.edit_again`: a command that has succeeded once makes the same edits later on, when the
  directories and files it has left are still there and its source is the same.
* `LaysFiles`: what such a `make install` does.
* `repeatable_exec`, `repeatable_cdMake`: the steps that can be repeated.
-/

namespace RedisCluster

open FileTree Errexit Script

/-- A copy keeps the mode of the file that it overwrites. -/
instance : Overwrite File where
  putOver f g := ⟨f.content, g.executable⟩
  mark f := { f with executable := true }
  putOver_self _ := rfl
  putOver_putOver _ _ _ := rfl
  mark_putOver _ _ := rfl
  mark_mark _ := rfl

/-- The commands that are seen as edits here. -/
def Cmd.Edits : Cmd → Prop
  | .mkdirP _ | .cp _ _ | .chmodX _ => True
  | _ => False

/-- The edits of such a command, with absolute words, in a tree. -/
def Cmd.edit (fs : FS) : Cmd → TreeEdit Text File
  | .mkdirP dirs => fun p => if (mkdirPaths [] dirs).contains p then some .dir else none
  | .cp src dest => fun p =>
    if copyTarget fs [] dest (lastName src) = some p then
      ((resolve fs [] src).bind (dataAt fs)).map .put
    else none
  | .chmodX file => fun p => if fileTarget fs [] file = some p then some .mark else none
  | _ => fun _ => none

section Edits

variable {m : Machine} {cm : Cmd} {fs fs' : FS} {cwd p : Path}

theorem runAt_toList (o : Option (Edit File)) (v : Option (Node File)) :
    runAt o.toList v = o.elim v fun e => e.apply v := by
  cases o <;> rfl

theorem editsAt_singleton (e : TreeEdit Text File) (p : Path) : editsAt [e] p = (e p).toList := by
  unfold editsAt
  cases he : e p <;> simp [he]

theorem applyEdits_singleton (e : TreeEdit Text File) (fs : FS) (p : Path) :
    applyEdits [e] fs p = (e p).elim (fs p) fun ed => ed.apply (fs p) := by
  rw [applyEdits, editsAt_singleton, runAt_toList]

theorem fitTree_singleton {e : TreeEdit Text File} :
    FitTree [e] fs ↔ ∀ p, ∀ ed ∈ e p, ed.Fits (fs p) := by
  refine forall_congr' fun p => ?_
  rw [editsAt_singleton]
  cases he : e p <;> simp [FitAll]

/-- What a successful command leaves is what its edits make. -/
theorem Cmd.run_eq_applyEdits (hcm : cm.Edits) (habs : cm.Absolute)
    (hok : (cm.run m cwd fs).2 = true) : (cm.run m cwd fs).1 = applyEdits [cm.edit fs] fs := by
  rw [habs.run_eq m fs cwd []] at hok ⊢
  funext p
  rw [applyEdits_singleton]
  cases cm with
  | mkdirP dirs =>
    simp only [Cmd.run, Cmd.edit] at hok ⊢
    by_cases hp : p ∈ mkdirPaths [] dirs
    · rw [if_pos (List.contains_iff_mem.mpr hp), makeDirs_isDir hok hp]
      have hfile := (makeDirs_ok_iff _ _).mp hok p hp
      rcases hv : fs p with _ | _ | d
      · rfl
      · rfl
      · rw [isFile, hv] at hfile
        cases hfile
    · rw [if_neg (mt List.contains_iff_mem.mp hp)]
      rcases makeDirs_at fs (mkdirPaths [] dirs) p with h | h
      · exact h
      · exact absurd h.1 hp
  | cp src dest =>
    simp only [Cmd.run, Cmd.edit] at hok ⊢
    cases htarget : copyTarget fs [] dest (lastName src) with
    | none => simp [htarget] at hok
    | some q =>
      cases hdata : (resolve fs [] src).bind (dataAt fs) with
      | none => simp [htarget, hdata] at hok
      | some f =>
        simp only [htarget, hdata] at hok ⊢
        split at hok
        · cases hok
        · next hne =>
          have hdir := ne_dir_of_copyTarget htarget
          rw [if_neg hne]
          by_cases hp : q = p
          · subst hp
            simp only [putCopy, if_true]
            rcases hv : fs q with _ | _ | d
            · simp [dataAt, hv, Edit.apply]
            · exact absurd hv hdir
            · simp [dataAt, hv, Edit.apply, Overwrite.putOver]
          · have hp' : ¬some q = some p := fun h => hp (Option.some.inj h)
            simp only [hp', if_false, Option.elim_none, putCopy, Ne.symm hp]
  | chmodX file =>
    simp only [Cmd.run, Cmd.edit] at hok ⊢
    cases htarget : fileTarget fs [] file with
    | none => rfl
    | some q =>
      simp only [htarget] at hok ⊢
      cases hdata : dataAt fs q with
      | none => simp [hdata] at hok
      | some f =>
        by_cases hp : q = p
        · subst hp
          simp only [if_true]
          rw [set_same, dataAt_eq_some_iff.mp hdata]
          rfl
        · have hp' : ¬some q = some p := fun h => hp (Option.some.inj h)
          simp only [hp', if_false, Option.elim_none]
          exact set_of_ne (Ne.symm hp)
  | write | append | pipeline | copyIn | cpR | rmRf | tar | make | cd => exact hcm.elim

/-- The edits of a successful command fit. -/
theorem Cmd.fitTree_edit (hcm : cm.Edits) (habs : cm.Absolute)
    (hok : (cm.run m cwd fs).2 = true) : FitTree [cm.edit fs] fs := by
  rw [habs.run_eq m fs cwd []] at hok
  rw [fitTree_singleton]
  intro p ed hed
  cases cm with
  | mkdirP dirs =>
    simp only [Cmd.run, Cmd.edit] at hok hed
    split at hed
    · next hp =>
      cases hed
      exact isFile_eq_false_iff.mp
        ((makeDirs_ok_iff _ _).mp hok p (List.contains_iff_mem.mp hp))
    · cases hed
  | cp src dest =>
    simp only [Cmd.edit] at hed
    split at hed
    · next htarget =>
      obtain ⟨f, -, rfl⟩ := Option.map_eq_some_iff.mp hed
      exact ne_dir_of_copyTarget htarget
    · cases hed
  | chmodX file =>
    simp only [Cmd.run, Cmd.edit] at hok hed
    split at hed
    · next htarget =>
      cases hed
      simp only [htarget] at hok
      cases hdata : dataAt fs p with
      | none => simp [hdata] at hok
      | some f => exact ⟨f, dataAt_eq_some_iff.mp hdata⟩
    · cases hed
  | write | append | pipeline | copyIn | cpR | rmRf | tar | make | cd => exact hcm.elim

/-- A target that a command has made a file is one later on. -/
theorem fileTarget_again {w : PathWord} {fs₁ : FS} (h : fileTarget fs cwd w = some p)
    (hgrows : Grows fs fs₁) (hfile : isFile fs₁ p = true) : fileTarget fs₁ cwd w = some p := by
  obtain ⟨hresolve, hname, -⟩ := fileTarget_eq_some_iff.mp h
  exact fileTarget_eq_some_iff.mpr ⟨resolve_of_grows hgrows hresolve, hname, isDir_of_isFile hfile⟩

theorem copyTarget_again {w : PathWord} {n : Text} {fs₁ : FS}
    (h : copyTarget fs cwd w n = some p) (hgrows : Grows fs fs₁) (hfile : isFile fs₁ p = true) :
    copyTarget fs₁ cwd w n = some p := by
  unfold copyTarget at h ⊢
  split at h
  · next hdir =>
    obtain ⟨q, hq, hqdir⟩ := testD_eq_true_iff.mp hdir
    have hdir' : testD fs₁ cwd w = true :=
      testD_eq_true_iff.mpr ⟨q, resolve_of_grows hgrows hq,
        isDir_iff.mpr ((hgrows q).1 (isDir_iff.mp hqdir))⟩
    rw [if_pos hdir']
    exact fileTarget_again h hgrows hfile
  · have htarget := fileTarget_again h hgrows hfile
    have hdir' : testD fs₁ cwd w = false := by
      obtain ⟨hresolve, -, hnot⟩ := fileTarget_eq_some_iff.mp htarget
      rw [testD, hresolve]
      exact hnot
    rw [if_neg (by simp [hdir'])]
    exact htarget

/-- The source of a copy is the same in two trees. -/
def Cmd.SameSource (fs fs' : FS) : Cmd → Prop
  | .cp src _ => resolve fs' [] src = resolve fs [] src ∧
      ∀ q ∈ resolve fs [] src, fs' q = fs q
  | _ => True

/-- **Once more**: what a command has done can be done again, with the same edits. -/
theorem Cmd.edit_again (hcm : cm.Edits) (habs : cm.Absolute) (hok : (cm.run m cwd fs).2 = true)
    (hgrows : Grows (cm.run m cwd fs).1 fs') (hsource : cm.SameSource fs fs') :
    (cm.run m cwd fs').2 = true ∧ cm.edit fs' = cm.edit fs := by
  rw [habs.run_eq m fs cwd []] at hok hgrows
  rw [habs.run_eq m fs' cwd []]
  cases cm with
  | mkdirP dirs =>
    refine ⟨(makeDirs_ok_iff _ _).mpr fun p hp => ?_, rfl⟩
    have hdir := (hgrows p).1 (makeDirs_isDir hok hp)
    rw [isFile, hdir]
  | cp src dest =>
    have hall := (Cmd.grows_run m [] fs (c := .cp src dest) trivial).trans hgrows
    simp only [Cmd.run] at hok hgrows
    cases htarget : copyTarget fs [] dest (lastName src) with
    | none => simp [htarget] at hok
    | some p =>
      cases hdata : (resolve fs [] src).bind (dataAt fs) with
      | none => simp [htarget, hdata] at hok
      | some f =>
        simp only [htarget, hdata] at hok hgrows
        split at hok
        · cases hok
        · next hne =>
          rw [if_neg hne] at hgrows
          have hfile : isFile fs' p = true := (hgrows p).2 (by simp [putCopy, isFile])
          have htarget' := copyTarget_again htarget hall hfile
          have hdata' : (resolve fs' [] src).bind (dataAt fs') = some f := by
            rw [hsource.1, ← hdata]
            cases hq : resolve fs [] src with
            | none => rfl
            | some q => exact dataAt_congr (hsource.2 q hq)
          have hne' : resolve fs' [] src ≠ some p := by rwa [hsource.1]
          simp only [Cmd.run, htarget', hdata', if_neg hne', Cmd.edit, htarget, hdata, true_and]
  | chmodX file =>
    have hall := (Cmd.grows_run m [] fs (c := .chmodX file) trivial).trans hgrows
    simp only [Cmd.run] at hok hgrows
    cases htarget : fileTarget fs [] file with
    | none =>
      simp only [htarget] at hok hgrows
      obtain ⟨q, hq, hqdir⟩ := testD_eq_true_iff.mp hok
      have hq' := resolve_of_grows hgrows hq
      have hqdir' : isDir fs' q = true := isDir_iff.mpr ((hgrows q).1 (isDir_iff.mp hqdir))
      have htarget' : fileTarget fs' [] file = none := by
        rw [Option.eq_none_iff_forall_ne_some]
        intro p hp
        obtain ⟨hp, -, hpdir⟩ := fileTarget_eq_some_iff.mp hp
        rw [hq', Option.some.injEq] at hp
        rw [← hp, hqdir'] at hpdir
        cases hpdir
      simp only [Cmd.run, Cmd.edit, htarget, htarget', and_true]
      exact testD_eq_true_iff.mpr ⟨q, hq', hqdir'⟩
    | some p =>
      simp only [htarget] at hok hgrows
      cases hdata : dataAt fs p with
      | none => simp [hdata] at hok
      | some f =>
        simp only [hdata] at hgrows
        have hfile : isFile fs' p = true := (hgrows p).2 (by simp [isFile])
        have htarget' := fileTarget_again htarget hall hfile
        obtain ⟨g, hg⟩ := isFile_iff.mp hfile
        have hg' := dataAt_eq_some_iff.mpr hg
        simp only [Cmd.run, Cmd.edit, htarget, htarget', hg', true_and]
  | write | append | pipeline | copyIn | cpR | rmRf | tar | make | cd => exact hcm.elim

end Edits

/-! ## Installations -/

/-- Directories are made, and files laid. -/
def layEdits (files : FS) : TreeEdit Text File := fun p =>
  (files p).map fun
    | .dir => .dir
    | .file f => .lay f

/-- What is at `d` and below it. -/
def partAt (d : Path) (fs : FS) : FS := fun p => if below d p then fs p else none

/-- From what `fs₀` has in the directory `dir`, `make` lays the same files each time, there and in
    `home`, and fails only where one of them cannot be laid. -/
structure LaysFiles (m : Machine) (args : List Text) (dir home : Path) (fs₀ files : FS) : Prop where
  placed : ∀ p, files p ≠ none → dir <+: p ∨ home <+: p
  status : ∀ fs, Grows (partAt dir fs₀) fs →
    ((m.make args dir fs).2 = true ↔ FitTree [layEdits files] fs)
  result : ∀ fs, Grows (partAt dir fs₀) fs → (m.make args dir fs).2 = true →
    (m.make args dir fs).1 = applyEdits [layEdits files] fs

section Installations

variable {m : Machine} {args : List Text} {dir home : Path} {fs₀ files fs : FS}

/-- What is given to `make` has all that its status depends on. -/
theorem LaysFiles.fitTree_iff (h : LaysFiles m args dir home fs₀ files) {fs' : FS}
    (hsame : ∀ p, dir <+: p ∨ home <+: p → fs' p = fs p) :
    FitTree [layEdits files] fs' ↔ FitTree [layEdits files] fs := by
  rw [fitTree_singleton, fitTree_singleton]
  refine forall_congr' fun p => ?_
  by_cases hp : files p = none
  · simp [layEdits, hp]
  · rw [hsame p (h.placed p hp)]

/-- `make` there succeeds if and only if the files can be laid, and then they are. -/
theorem LaysFiles.run_make (h : LaysFiles m args dir home fs₀ files) {w : PathWord}
    (hhome : resolve fs dir w = some home) (hgrows : Grows fs₀ fs) :
    (((Cmd.make args (some w)).run m dir fs).2 = true ↔ FitTree [layEdits files] fs) ∧
      (((Cmd.make args (some w)).run m dir fs).2 = true →
        ((Cmd.make args (some w)).run m dir fs).1 = applyEdits [layEdits files] fs) := by
  have htrees : ∀ p, belowAny (makeTrees fs dir (some w)) p = true ↔ dir <+: p ∨ home <+: p := by
    simp [belowAny_iff, makeTrees, hhome]
  have hpart : Grows (partAt dir fs₀)
      fun p => if belowAny (makeTrees fs dir (some w)) p then fs p else none := by
    intro p
    by_cases hp : dir <+: p
    · have hin : below dir p = true := List.isPrefixOf_iff_prefix.mpr hp
      have hregion := (htrees p).mpr (Or.inl hp)
      simp only [partAt, isFile, hin, hregion, if_true]
      exact hgrows p
    · have hin : below dir p = false := by
        rw [Bool.eq_false_iff]
        exact fun hbelow => hp (List.isPrefixOf_iff_prefix.mp hbelow)
      simp [partAt, isFile, hin]
  have hstatus := h.status _ hpart
  rw [h.fitTree_iff fun p hp => if_pos ((htrees p).mpr hp)] at hstatus
  refine ⟨hstatus, fun hok => ?_⟩
  funext p
  have hresult := congrFun (h.result _ hpart hok) p
  simp only [Cmd.run, confine]
  rw [hresult, applyEdits_singleton, applyEdits_singleton]
  by_cases hp : dir <+: p ∨ home <+: p
  · simp only [(htrees p).mpr hp, if_true]
  · have hnone : files p = none := by
      by_contra hsome
      exact hp (h.placed p hsome)
    rw [if_neg (fun hregion => hp ((htrees p).mp hregion))]
    simp [layEdits, hnone]

/-- From a state with its directories and without faults, `cd` and `make` come to their end if and
    only if the files can be laid. -/
theorem LaysFiles.run_cdMake {v w : PathWord} {t : Shell}
    (h : LaysFiles m args (target [] v) home fs₀ files) (hv : IsAbsolute v) (hw : IsAbsolute w)
    (hfaults : t.faults = []) (hgrows : Grows fs₀ t.fs) (hthere : testD t.fs [] v = true)
    (hhome : resolve t.fs [] w = some home) :
    (FitTree [layEdits files] t.fs →
        ∃ u, (cdMake m v (fun _ _ => args) (some w)).run t = (some (), u)) ∧
      ∀ u, (cdMake m v (fun _ _ => args) (some w)).run t = (some (), u) →
        FitTree [layEdits files] t.fs ∧ u.fs = applyEdits [layEdits files] t.fs ∧ u.faults = [] := by
  have hcd : t.outcome m (.cd v) = (t.fs, true) := by
    rw [outcome_of_noFaults hfaults, Cmd.run, hv.testD_eq (d := []), hthere]
  -- The state behind the `cd`.
  obtain ⟨s, hs⟩ : ∃ s, s = t.after m (.cd v) := ⟨_, rfl⟩
  have hfs : s.fs = t.fs := by rw [hs, Shell.after, hcd]
  have hcwd : s.cwd = target [] v := by
    rw [hs, Shell.after, Shell.cwdAfter, hcd, if_pos rfl, hv.target_eq]
  have hnone : s.faults = [] := by rw [hs, Shell.after, hfaults, List.tail_nil]
  have hhome' : resolve s.fs s.cwd w = some home := by
    rw [hw.resolve_eq (d := []), hfs, hhome]
  rw [hcwd] at hhome'
  obtain ⟨hstatus, hresult⟩ := h.run_make hhome' (hfs ▸ hgrows)
  rw [← hcwd, ← outcome_of_noFaults hnone, hfs] at hstatus hresult
  have hiff : ∀ u, (cdMake m v (fun _ _ => args) (some w)).run t = (some (), u) ↔
      (exec m (.make args (some w))).run s = (some (), u) := by
    intro u
    rw [cdMake_eq_some_iff, hcd, ← hs]
    simp
  constructor
  · intro hfit
    exact ⟨_, (hiff _).mpr (exec_eq_some_iff.mpr ⟨hstatus.mpr hfit, rfl⟩)⟩
  · intro u hu
    obtain ⟨hok, rfl⟩ := exec_eq_some_iff.mp ((hiff u).mp hu)
    refine ⟨hstatus.mp hok, ?_, ?_⟩
    · rw [← hresult hok]
      rfl
    · rw [Shell.after, hnone, List.tail_nil]

end Installations

/-! ## Steps that can be repeated -/

section Repeatable

variable {m : Machine} {I : Shell → Prop} {s s' : Shell}

/-- A command that makes edits can be repeated where it has run, if its source stays the same. -/
theorem repeatable_exec {cm : Cmd} (hcm : cm.Edits) (habs : cm.Absolute)
    (hfaults : ∀ s, I s → s.faults = []) (hkeeps : Keeps I (exec m cm))
    (hsource : ∀ t, I t → cm.SameSource s.fs t.fs) (hs : s.faults = [])
    (hrun : (exec m cm).run s = (some (), s')) :
    s'.fs = applyEdits [cm.edit s.fs] s.fs ∧
      Repeatable Shell.fs I (exec m cm) [cm.edit s.fs] s.fs := by
  obtain ⟨hok, rfl⟩ := exec_eq_some_iff.mp hrun
  have hfs := Shell.after_fs_of_ok hok
  rw [outcome_of_noFaults hs] at hok
  have hedits := Cmd.run_eq_applyEdits hcm habs hok
  refine ⟨hfs.trans hedits, Cmd.fitTree_edit hcm habs hok, fun t ht hgrows => ?_⟩
  rw [← hedits] at hgrows
  obtain ⟨hok', hedit⟩ := Cmd.edit_again hcm habs hok hgrows (hsource t ht)
  rw [habs.run_eq m t.fs s.cwd t.cwd] at hok'
  have hout : (t.outcome m cm).2 = true := by rw [outcome_of_noFaults (hfaults t ht), hok']
  have hrun' := exec_eq_some_iff.mpr ⟨hout, rfl⟩
  refine ⟨_, hrun', hkeeps.of_run ht hrun', ?_⟩
  rw [Shell.after_fs_of_ok hout, Cmd.run_eq_applyEdits hcm habs hok', hedit]

/-- So can an installation, from the states in which its directories are there. -/
theorem repeatable_cdMake {dir w : PathWord} {args : List Text} {home : Path} {fs₀ files : FS}
    (hdir : IsAbsolute dir) (hw : IsAbsolute w)
    (hlays : LaysFiles m args (target [] dir) home fs₀ files)
    (hfaults : ∀ s, I s → s.faults = []) (hgrows : ∀ s, I s → Grows fs₀ s.fs)
    (hthere : ∀ s, I s → testD s.fs [] dir = true)
    (hhome : ∀ s, I s → resolve s.fs [] w = some home)
    (hkeeps : ∀ s s', I s → (cdMake m dir (fun _ _ => args) (some w)).run s = (some (), s') →
      Grows s.fs s'.fs → s'.faults = [] → I s')
    (hs : I s) (hrun : (cdMake m dir (fun _ _ => args) (some w)).run s = (some (), s')) :
    I s' ∧ s'.fs = applyEdits [layEdits files] s.fs ∧
      Repeatable Shell.fs I (cdMake m dir (fun _ _ => args) (some w)) [layEdits files] s.fs := by
  have hstep := fun t ht =>
    hlays.run_cdMake hdir hw (hfaults t ht) (hgrows t ht) (hthere t ht) (hhome t ht)
  obtain ⟨hfit, hfs, hnone⟩ := (hstep s hs).2 s' hrun
  refine ⟨hkeeps s s' hs hrun (hfs ▸ hfit.grows) hnone, hfs, hfit, fun t ht hgrown => ?_⟩
  have hfit' : FitTree [layEdits files] t.fs := hfit.again hgrown
  obtain ⟨u, hu⟩ := (hstep t ht).1 hfit'
  obtain ⟨-, hfs', hnone'⟩ := (hstep t ht).2 u hu
  exact ⟨u, hu, hkeeps t u ht hu (hfs' ▸ hfit'.grows) hnone', hfs'⟩

end Repeatable

end RedisCluster
