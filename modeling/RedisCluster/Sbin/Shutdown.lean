import RedisCluster.Library.Script
import RedisCluster.Shell.Text

/-!
# `shutdown_redis.sh`

Lines 15–33 of the template: for each port the pid file is read, the instance is told to
shut down, and its exit is awaited. Under `errexit` the loop ends at the first port
without an instance.

* `shutdown_allDown_iff`: from which states the script brings the whole node down.
-/

namespace RedisCluster

open Errexit Script

/-- The instances of a node, by port: which are running, and which have a pid file. -/
structure Instances where
  running : Text → Bool
  pidfile : Text → Bool

/-- A running instance has its pid file, a stopped one has none. -/
def Instances.Consistent (s : Instances) : Prop := ∀ port, s.pidfile port = s.running port

/-- The instance on a port exits and removes its pid file. -/
def Instances.exit (s : Instances) (port : Text) : Instances where
  running q := q != port && s.running q
  pidfile q := q != port && s.pidfile q

/-- `nodepid=$(cat "$CLUSTERHOME/run/redis-{NODEID}-$port.pid")` (line 22): the status is
    that of `cat`. -/
def readPid (port : Text) : Script Instances Unit := do
  let there ← look fun s => s.pidfile port
  require there

/-- `redis-cli -p "$port" SHUTDOWN SAVE` and the loop that waits for the exit (lines
    24–30); a stopped instance refuses the connection. -/
def shutdownSave (port : Text) : Script Instances Unit := do
  let up ← look fun s => s.running port
  require up
  update fun s => s.exit port

/-- The loop over `ports` (lines 20–33). -/
def shutdown (ports : List Text) : Script Instances Unit :=
  forEach ports fun port => do
    readPid port
    shutdownSave port

/-! ## One pass -/

theorem Instances.Consistent.exit {s : Instances} (h : s.Consistent) (port : Text) :
    (s.exit port).Consistent := fun q => by simp [Instances.exit, h q]

/-- A pass stops the instance, if it is running, and the script otherwise. -/
theorem shutdownPort_run {s : Instances} (h : s.Consistent) (port : Text) :
    (readPid port >>= fun _ => shutdownSave port).run s =
      if s.running port then (some (), s.exit port) else (none, s) := by
  have hfile := h port
  cases hup : s.running port with
  | true =>
    rw [hup] at hfile
    simp [readPid, shutdownSave, bind_run, require, hfile, hup]
  | false =>
    rw [hup] at hfile
    simp [readPid, bind_run, require, hfile]

theorem shutdown_cons_run {s : Instances} (h : s.Consistent) (port : Text) (ports : List Text) :
    (shutdown (port :: ports)).run s =
      if s.running port then (shutdown ports).run (s.exit port) else (none, s) := by
  have hpass := shutdownPort_run h port
  rw [shutdown, forEach_cons]
  cases hup : s.running port with
  | true =>
    rw [hup, if_pos rfl] at hpass
    rw [bind_run_of_some hpass, if_pos rfl]
    rfl
  | false =>
    rw [hup, if_neg (by simp)] at hpass
    rw [bind_run_of_none hpass, if_neg (by simp)]

/-- Nothing that is down comes up. -/
theorem shutdown_running_le {s : Instances} (h : s.Consistent) (ports : List Text) {q : Text}
    (hq : s.running q = false) : ((shutdown ports).run s).2.running q = false := by
  induction ports generalizing s with
  | nil => exact hq
  | cons port ports ih =>
    rw [shutdown_cons_run h]
    split
    · exact ih (h.exit port) (by simp [Instances.exit, hq])
    · exact hq

/-! ## The whole loop -/

/-- In front of each running instance, as it is first listed, all ports are running ones
    and different. -/
def RunningFirst (ports : List Text) (s : Instances) : Prop :=
  ∀ pre port post, ports = pre ++ port :: post → port ∉ pre → s.running port = true →
    (∀ q ∈ pre, s.running q = true) ∧ pre.Nodup

theorem runningFirst_cons_of_down {port : Text} {ports : List Text} {s : Instances}
    (hdown : s.running port = false) :
    RunningFirst (port :: ports) s ↔ ∀ q ∈ port :: ports, s.running q = false := by
  constructor
  · intro h q hq
    obtain ⟨pre, post, hsplit, hfirst⟩ := List.eq_append_cons_of_mem hq
    rw [Bool.eq_false_iff]
    intro hup
    cases pre with
    | nil =>
      obtain ⟨rfl, -⟩ := List.cons.inj hsplit
      rw [hdown] at hup
      cases hup
    | cons p pre =>
      obtain ⟨rfl, -⟩ := List.cons.inj hsplit
      have := (h _ q post hsplit hfirst hup).1 port (by simp)
      rw [hdown] at this
      cases this
  · rintro h pre q post hsplit - hup
    rw [h q (by simp [hsplit])] at hup
    cases hup

theorem runningFirst_cons_of_up {port : Text} {ports : List Text} {s : Instances}
    (hup : s.running port = true) :
    RunningFirst (port :: ports) s ↔ RunningFirst ports (s.exit port) := by
  have hexit : ∀ q, (s.exit port).running q = true ↔ q ≠ port ∧ s.running q = true := by
    intro q
    simp [Instances.exit]
  constructor
  · intro h pre q post hsplit hfirst hq
    obtain ⟨hne, hq⟩ := (hexit q).mp hq
    have hpre := h (port :: pre) q post (by simp [hsplit]) (by simp [hne, hfirst]) hq
    obtain ⟨hport, hnodup⟩ := List.nodup_cons.mp hpre.2
    refine ⟨fun r hr => (hexit r).mpr ⟨?_, hpre.1 r (by simp [hr])⟩, hnodup⟩
    rintro rfl
    exact hport hr
  · intro h pre q post hsplit hfirst hq
    cases pre with
    | nil => exact ⟨by simp, List.nodup_nil⟩
    | cons p pre =>
      obtain ⟨rfl, hrest⟩ := List.cons.inj hsplit
      rw [List.mem_cons, not_or] at hfirst
      have hpre := h pre q post hrest hfirst.2 ((hexit q).mpr ⟨hfirst.1, hq⟩)
      have hport : port ∉ pre := fun hr => ((hexit port).mp (hpre.1 port hr)).1 rfl
      refine ⟨fun r hr => ?_, List.nodup_cons.mpr ⟨hport, hpre.2⟩⟩
      rcases List.mem_cons.mp hr with rfl | hr
      · exact hup
      · exact ((hexit r).mp (hpre.1 r hr)).2

/-- **The script brings the whole node down** exactly from the states in which the running
    instances are listed first. -/
theorem shutdown_allDown_iff (ports : List Text) {s : Instances} (h : s.Consistent) :
    (∀ port ∈ ports, ((shutdown ports).run s).2.running port = false) ↔ RunningFirst ports s := by
  induction ports generalizing s with
  | nil => simp [RunningFirst]
  | cons port ports ih =>
    rw [shutdown_cons_run h]
    cases hup : s.running port with
    | false => rw [runningFirst_cons_of_down hup, if_neg (by simp)]
    | true =>
      have hdown : ((shutdown ports).run (s.exit port)).2.running port = false :=
        shutdown_running_le (h.exit port) ports (by simp [Instances.exit])
      rw [runningFirst_cons_of_up hup, if_pos rfl, ← ih (h.exit port), List.forall_mem_cons]
      exact and_iff_right hdown

/-- The states with these ports up. -/
def upAt (up : List Text) : Instances where
  running q := up.contains q
  pidfile q := up.contains q

theorem shutdown_allDown_demo :
    (∀ port ∈ ["6377".toList, "6378".toList],
      ((shutdown ["6377".toList, "6378".toList]).run (upAt ["6377".toList])).2.running port = false) ↔
      RunningFirst ["6377".toList, "6378".toList] (upAt ["6377".toList]) :=
  shutdown_allDown_iff _ fun _ => rfl

/-- What an earlier run has left: the first port is down, the second one up. The script
    stops at the first, and the second stays up. -/
theorem shutdown_after_interruption :
    (upAt ["6378".toList]).Consistent ∧
      ((shutdown ["6377".toList]).run (upAt ["6377".toList, "6378".toList])).2.running "6377".toList =
        false ∧
      ((shutdown ["6377".toList, "6378".toList]).run (upAt ["6378".toList])).1 = none ∧
      ((shutdown ["6377".toList, "6378".toList]).run (upAt ["6378".toList])).2.running
        "6378".toList = true :=
  ⟨fun _ => rfl, by decide +kernel, by decide +kernel, by decide +kernel⟩

end RedisCluster
