import RedisCluster.Tool.Validation
import RedisCluster.Tool.Steps

/-!
# Accepted invocations

An invocation whose id, files and packages the validation rules accept runs its phases from
the state it begins in; any other leaves the tree alone.

* `Invocation.run_of_accepts`, `Invocation.fs_run_of_not_accepts`.
* `Throughout`: what holds of every invocation of a sequence.
* `Built.isPrefix_trace`: the events of a run stay in the trace.
-/

namespace RedisCluster

open Errexit Script

/-- The flags that the actions of an invocation set. -/
def Invocation.flags (inv : Invocation) (fs : FS) : Flags :=
  flagsOf (actionsOf inv.machine fs inv.cwd inv.args)

/-- The events of an invocation. -/
def Invocation.events (inv : Invocation) (tool : Path) (fs : FS) : List Event :=
  (inv.run tool fs).2.trace

/-- The rules accept the invocation, and make the cluster `c` of it. -/
def Invocation.Accepts (inv : Invocation) (tool : Path) (fs : FS) (c : Cluster) : Prop :=
  ∃ id args s, inv.args = id :: args ∧
    (validate inv.machine tool id (inv.inputs id)).run (inv.start fs) = (some c, s)

section Rules

variable {m : Machine} {s t : Shell}

theorem state_of_refuseOld {major : Text} {bound : ℤ} {r : Refusal}
    (h : (refuseOld m major bound r).run s = (some (), t)) : t = s := by
  unfold refuseOld at h
  split at h
  · exact (refuseIf_eq_some_iff.mp h).2.symm
  · rw [pure_run, Prod.mk.injEq] at h
    exact h.2.symm
  · cases h

theorem state_of_checkPkg {pkg name v : Text} {bound : ℤ} {wrongName old : Refusal}
    (h : (checkPkg m pkg name bound wrongName old).run s = (some v, t)) : t = s := by
  rw [checkPkg, refuseIf_seq_eq_some_iff, look_bind_run, require_seq_eq_some_iff,
    seq_eq_some_iff] at h
  obtain ⟨-, -, u, hold, h⟩ := h
  rw [pure_run, Prod.mk.injEq] at h
  rw [← h.2, state_of_refuseOld hold]

/-- Rules that pass leave the state as it was. -/
theorem state_of_validate {tool : Path} {id : Text} {inputs : Inputs} {c : Cluster}
    (h : (validate m tool id inputs).run s = (some c, t)) : t = s := by
  rw [validate, refuseIf_seq_eq_some_iff, refuseIf_seq_eq_some_iff] at h
  obtain ⟨-, -, h⟩ := h
  split at h
  · obtain ⟨_, s₁, hredis, h⟩ := bind_eq_some_iff.mp h
    obtain ⟨_, s₂, hhiredis, h⟩ := bind_eq_some_iff.mp h
    rw [pure_run, Prod.mk.injEq] at h
    rw [← h.2, state_of_checkPkg hhiredis, state_of_checkPkg hredis]
  · rw [refuseIf_seq_eq_some_iff] at h
    cases h.1
  · rw [refuseIf_seq_eq_some_iff] at h
    cases h.1

end Rules

section Invocation

variable {inv : Invocation} {tool : Path} {fs : FS} {c : Cluster}

theorem Invocation.Accepts.madeOf (h : inv.Accepts tool fs c) :
    ∃ id args, inv.args = id :: args ∧ c.MadeOf inv.machine tool id (inv.inputs id) := by
  obtain ⟨id, args, s, hargs, hv⟩ := h
  exact ⟨id, args, hargs, of_validate_eq_some hv⟩

/-- An accepted invocation runs its phases. -/
theorem Invocation.run_of_accepts (h : inv.Accepts tool fs c) :
    inv.run tool fs = (dispatch inv.machine c (inv.flags fs)).run (inv.start fs) := by
  obtain ⟨id, args, s, hargs, hv⟩ := h
  have hs := state_of_validate hv
  rw [hs] at hv
  unfold Invocation.run main
  rw [look_bind_run, hargs]
  simp only [bind_run_of_some hv]
  rw [Invocation.flags, hargs]
  rfl

/-- Any other leaves the tree as it was. -/
theorem Invocation.fs_run_of_not_accepts (h : ∀ c, ¬ inv.Accepts tool fs c) :
    (inv.run tool fs).2.fs = fs := by
  unfold Invocation.run main
  rw [look_bind_run]
  cases hargs : inv.args with
  | nil => rfl
  | cons id args =>
    rcases hv : (validate inv.machine tool id (inv.inputs id)).run (inv.start fs) with ⟨_ | c, s⟩
    · have hcore := validate_sameCore inv.machine tool id (inv.inputs id) (inv.start fs)
      rw [hv] at hcore
      simp only [bind_run_of_none hv]
      exact hcore.fs
    · exact absurd ⟨id, args, s, hargs, hv⟩ (h c)

/-- `P` holds of every invocation of a sequence, in the tree that it begins in. -/
def Throughout (tool : Path) (P : Invocation → FS → Prop) : List Invocation → FS → Prop
  | [], _ => True
  | inv :: invs, fs => P inv fs ∧ Throughout tool P invs (inv.run tool fs).2.fs

theorem Throughout.mono {P Q : Invocation → FS → Prop} {invs : List Invocation}
    (h : Throughout tool P invs fs) (hPQ : ∀ inv fs, P inv fs → Q inv fs) :
    Throughout tool Q invs fs := by
  induction invs generalizing fs with
  | nil => trivial
  | cons inv invs ih => exact ⟨hPQ inv fs h.1, ih h.2⟩

end Invocation

/-! ## Traces -/

section Traces

variable {m : Machine} {c : Cluster} {P : Act → Prop} {α : Type} {x : Script Shell α}

/-- The trace only grows. -/
theorem Built.isPrefix_trace (h : Built m c P x) (s : Shell) : s.trace <+: (x.run s).2.trace := by
  obtain ⟨evs, htrace, -⟩ := h.extends_trace (G := fun _ _ _ => True) (fun _ _ _ _ _ _ => trivial) s
  exact ⟨evs, htrace.symm⟩

theorem Built.isPrefix_trace_of_run (h : Built m c P x) {s t : Shell} {o : Option α}
    (hrun : x.run s = (o, t)) : s.trace <+: t.trace := by
  have hprefix := h.isPrefix_trace s
  rwa [hrun] at hprefix

/-- A command that no step of `P` issues is in the trace only if it was there before. -/
theorem Built.mem_trace (h : Built m c P x) {cm : Cmd}
    (hcm : ∀ a, P a → ∀ cm', a.Issues cm' → cm' ≠ cm) {s t : Shell} {o : Option α}
    (hrun : x.run s = (o, t)) {cwd : Path} {ok : Bool} (hev : .ran cwd cm ok ∈ t.trace) :
    .ran cwd cm ok ∈ s.trace := by
  obtain ⟨evs, htrace, hnot⟩ := h.extends_trace (G := fun _ cm' _ => cm' ≠ cm)
    (fun a ha cm' hcm' _ _ => hcm a ha cm' hcm') s
  rw [hrun] at htrace
  rw [htrace] at hev
  rcases List.mem_append.mp hev with hev | hev
  · exact hev
  · exact absurd rfl (hnot cwd cm ok hev)

end Traces

/-! ## A small invocation -/

/-- `mycluster ALL` in the tool's directory, with a package of redis beside the shipped
    settings. -/
def allInvocation (redisPkg : Text) : Invocation where
  machine := plainHost
  args := ["mycluster".toList, "ALL".toList]
  inputs _ := demoInputs { demoIni with redisPkg := redisPkg } demoNodesCfg [] "s\n".toList "s".toList
  cwd := []
  answers := []
  faults := []

def redisPackage : Text := "redis-8.2.0.tar.gz".toList

end RedisCluster
