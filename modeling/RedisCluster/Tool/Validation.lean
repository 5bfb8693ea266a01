import RedisCluster.Shell.Rules
import RedisCluster.Tool.Main

/-!
# What the validation leaves

The validation rules read the package names and may stop the script; they change neither
the tree nor the current directory.

* `validate_sameCore`, `of_validate_eq_some`: what is the same after the rules, and what is
  known of a cluster that has passed them.
* `validate_fst_eq`: the rules come to the same result in every tree, if the version
  numbers expand to the same.
-/

namespace RedisCluster

open Errexit Script

/-- All but the trace is as it was. -/
structure SameCore (s t : Shell) : Prop where
  fs : t.fs = s.fs
  cwd : t.cwd = s.cwd
  answers : t.answers = s.answers
  faults : t.faults = s.faults

theorem SameCore.refl (s : Shell) : SameCore s s := ⟨rfl, rfl, rfl, rfl⟩

/-- The script leaves all but the trace as it is. -/
def Quiet {α : Type} (x : Script Shell α) : Prop := ∀ s, SameCore s (x.run s).2

/-! ## Accepted ids -/

/-- The characters of an accepted id. -/
theorem isIdChar_of_acceptedId {id : Text} (h : AcceptedId id) :
    id ≠ [] ∧ ∀ c ∈ id, isIdChar c = true := by
  cases id with
  | nil => exact absurd h.1 (by decide)
  | cons a as =>
    have hid := h.1
    simp only [isClusterid, Bool.and_eq_true, List.all_eq_true] at hid
    refine ⟨by simp, fun c hc => ?_⟩
    rcases List.mem_cons.mp hc with rfl | hc
    · simp [isIdChar, hid.1.1]
    · exact hid.1.2 c hc

theorem isIdChar_eq_false {c : Char}
    (h : c ∈ [' ', '\t', '\n', ',', '*', '?', '[', '-', '/', '.', '=']) : isIdChar c = false := by
  revert h
  simp only [List.mem_cons, List.not_mem_nil, or_false]
  rintro (rfl | rfl | rfl | rfl | rfl | rfl | rfl | rfl | rfl | rfl | rfl) <;> decide

theorem ne_of_isIdChar {c d : Char} (hc : isIdChar c = true) (hd : isIdChar d = false) : c ≠ d := by
  rintro rfl
  rw [hc] at hd
  cases hd

/-- An accepted id is the name of an entry, without slashes. -/
theorem isName_of_acceptedId {id : Text} (h : AcceptedId id) : IsName id ∧ '/' ∉ id := by
  obtain ⟨hne, hchars⟩ := isIdChar_of_acceptedId h
  have hnot : ∀ {d : Char}, isIdChar d = false → d ∉ id :=
    fun hd hmem => ne_of_isIdChar (hchars _ hmem) hd rfl
  refine ⟨⟨hne, ?_, ?_⟩, hnot (d := '/') (by decide)⟩
  · rintro rfl
    exact hnot (d := '.') (by decide) (by simp)
  · rintro rfl
    exact hnot (d := '.') (by decide) (by simp)

/-! ## The rules -/

variable (m : Machine) (tool : Path) (id : Text) (inputs : Inputs)

section Keeps

variable {I : Shell → Prop} (hI : ∀ s r, I s → I (s.note (.refused r)))

include hI

theorem keeps_refuseIf (b : Bool) (r : Refusal) : Keeps I (refuseIf b r) := by
  cases b
  · exact keeps_pure ()
  · exact keeps_bind (keeps_update fun s h => hI s r h) fun _ => keeps_stop

theorem keeps_refuseOld (major : Text) (bound : ℤ) (r : Refusal) :
    Keeps I (refuseOld m major bound r) := by
  unfold refuseOld
  split
  · exact keeps_refuseIf hI _ r
  · exact keeps_pure ()
  · exact keeps_stop

theorem keeps_checkPkg (pkg name : Text) (bound : ℤ) (wrongName old : Refusal) :
    Keeps I (checkPkg m pkg name bound wrongName old) := by
  unfold checkPkg
  refine keeps_bind (keeps_refuseIf hI _ _) fun _ => keeps_bind (keeps_look _) fun _ => ?_
  exact keeps_bind (keeps_require _) fun _ => keeps_bind (keeps_refuseOld m hI _ _ _) fun _ =>
    keeps_pure _

/-- What an error message leaves as it is, the rules leave as it is. -/
theorem keeps_validate : Keeps I (validate m tool id inputs) := by
  unfold validate
  refine keeps_bind (keeps_refuseIf hI _ _) fun _ => keeps_bind (keeps_refuseIf hI _ _) fun _ => ?_
  split
  · exact keeps_bind (keeps_checkPkg m hI _ _ _ _ _) fun _ =>
      keeps_bind (keeps_checkPkg m hI _ _ _ _ _) fun _ => keeps_pure _
  · exact keeps_bind (keeps_refuseIf hI _ _) fun _ => keeps_stop
  · exact keeps_bind (keeps_refuseIf hI _ _) fun _ => keeps_stop

end Keeps

theorem validate_sameCore : Quiet (validate m tool id inputs) := fun s =>
  keeps_validate m tool id inputs (I := SameCore s)
    (fun _ _ h => ⟨h.fs, h.cwd, h.answers, h.faults⟩) s (.refl s)

/-- A cluster made of the inputs. -/
structure Cluster.MadeOf (c : Cluster) : Prop where
  tool : c.tool = tool
  clusterid : c.clusterid = id
  ini : inputs.ini = some c.ini
  nodesCfg : inputs.nodesCfg = some c.nodesCfg
  inputs : c.inputs = inputs
  accepted : AcceptedId id
  redisName : pkgName m c.ini.redisPkg = "redis".toList
  redisVerno : c.redisVerno = pkgVerno m c.ini.redisPkg
  hiredisName : pkgName m c.ini.hiredisPkg = "hiredis".toList
  hiredisVerno : c.hiredisVerno = pkgVerno m c.ini.hiredisPkg

variable {m tool id inputs}

theorem of_checkPkg_eq_some {pkg name v : Text} {bound : ℤ} {wrongName old : Refusal} {s t : Shell}
    (h : (checkPkg m pkg name bound wrongName old).run s = (some v, t)) :
    pkgName m pkg = name ∧ v = pkgVerno m pkg := by
  rw [checkPkg, refuseIf_seq_eq_some_iff] at h
  obtain ⟨hname, h⟩ := h
  rw [look_bind_run, require_seq_eq_some_iff, seq_eq_some_iff] at h
  obtain ⟨-, u, -, h⟩ := h
  refine ⟨by simpa using hname, ?_⟩
  rw [pure_run, Prod.mk.injEq, Option.some.injEq] at h
  exact h.1.symm

/-- What is known of a cluster that has passed the rules. -/
theorem of_validate_eq_some {s t : Shell} {c : Cluster}
    (h : (validate m tool id inputs).run s = (some c, t)) : c.MadeOf m tool id inputs := by
  rw [validate, refuseIf_seq_eq_some_iff, refuseIf_seq_eq_some_iff] at h
  obtain ⟨hid, hreserved, h⟩ := h
  split at h
  · next ini nodesCfg hini hnodes =>
    obtain ⟨redisVerno, s₁, hredis, h⟩ := bind_eq_some_iff.mp h
    obtain ⟨hiredisVerno, s₂, hhiredis, h⟩ := bind_eq_some_iff.mp h
    rw [pure_run, Prod.mk.injEq, Option.some.injEq] at h
    obtain ⟨rfl, -⟩ := h
    obtain ⟨hname, hverno⟩ := of_checkPkg_eq_some hredis
    obtain ⟨hname', hverno'⟩ := of_checkPkg_eq_some hhiredis
    exact {
      tool := rfl
      clusterid := rfl
      inputs := rfl
      ini := hini
      nodesCfg := hnodes
      accepted := ⟨by simpa using hid, of_decide_eq_false hreserved⟩
      redisName := hname
      redisVerno := hverno
      hiredisName := hname'
      hiredisVerno := hverno' }
  · rw [refuseIf_seq_eq_some_iff] at h
    cases h.1
  · rw [refuseIf_seq_eq_some_iff] at h
    cases h.1

/-! ## The result -/

/-- The version numbers of the packages expand to the same in every directory. -/
def StableVersions (m : Machine) (ini : Ini) : Prop :=
  ∀ pkg ∈ [ini.redisPkg, ini.hiredisPkg], ∀ fs cwd fs' cwd',
    vernoMajorId m fs cwd (pkgVerno m pkg) = vernoMajorId m fs' cwd' (pkgVerno m pkg)

section Parallel

variable {R : Shell → Shell → Prop}
  (hR : ∀ s t r, R s t → R (s.note (.refused r)) (t.note (.refused r)))

include hR

theorem parallel_refuseIf (b : Bool) (r : Refusal) : Parallel R (refuseIf b r) := by
  cases b
  · exact parallel_pure ()
  · exact parallel_bind (parallel_update fun s t h => hR s t r h) fun _ => parallel_stop

theorem parallel_checkPkg {pkg name : Text} {bound : ℤ} {wrongName old : Refusal}
    (h : ∀ fs cwd fs' cwd',
      vernoMajorId m fs cwd (pkgVerno m pkg) = vernoMajorId m fs' cwd' (pkgVerno m pkg)) :
    Parallel R (checkPkg m pkg name bound wrongName old) := by
  unfold checkPkg
  refine parallel_bind (parallel_refuseIf hR _ _) fun _ => ?_
  refine parallel_bind (parallel_look fun s t _ => h _ _ _ _) fun major => ?_
  refine parallel_bind (parallel_require _) fun _ => parallel_bind ?_ fun _ => parallel_pure _
  unfold refuseOld
  split
  · exact parallel_refuseIf hR _ _
  · exact parallel_pure ()
  · exact parallel_stop

/-- With such versions the rules do the same in states related by what an error message keeps. -/
theorem parallel_validate (h : ∀ ini, inputs.ini = some ini → StableVersions m ini) :
    Parallel R (validate m tool id inputs) := by
  unfold validate
  refine parallel_bind (parallel_refuseIf hR _ _) fun _ => ?_
  refine parallel_bind (parallel_refuseIf hR _ _) fun _ => ?_
  split
  · next ini nodesCfg hini _ =>
    have hstable := h ini hini
    refine parallel_bind (parallel_checkPkg hR (hstable _ (by simp))) fun _ => ?_
    exact parallel_bind (parallel_checkPkg hR (hstable _ (by simp))) fun _ => parallel_pure _
  · exact parallel_bind (parallel_refuseIf hR _ _) fun _ => parallel_stop
  · exact parallel_bind (parallel_refuseIf hR _ _) fun _ => parallel_stop

end Parallel

/-- With such versions the rules come to the same result in every state. -/
theorem validate_fst_eq (h : ∀ ini, inputs.ini = some ini → StableVersions m ini) (s t : Shell) :
    ((validate m tool id inputs).run s).1 = ((validate m tool id inputs).run t).1 :=
  (parallel_validate (R := fun _ _ => True) (fun _ _ _ h => h) h s t trivial).1

/-- Version numbers without glob characters expand to themselves. -/
theorem stableVersions_of_globFree {ini : Ini}
    (h : ∀ pkg ∈ [ini.redisPkg, ini.hiredisPkg], (pkgVerno m pkg).any isGlobChar = false) :
    StableVersions m ini := by
  intro pkg hpkg fs cwd fs' cwd'
  have hany : ((pkgVerno m pkg).takeWhile (· != '.')).any isGlobChar = false := by
    rw [List.any_eq_false]
    intro ch hch
    exact List.any_eq_false.mp (h pkg hpkg) ch ((List.takeWhile_sublist _).subset hch)
  simp only [vernoMajorId, expand, hany, Bool.false_eq_true, if_false]

end RedisCluster
