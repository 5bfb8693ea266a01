import RedisCluster.Tool.Validation

/-!
# The action words

All arguments, the cluster id among them, are joined, split at commas and blanks and
searched for the action words. An accepted id is none of these words.

* `actionsOf_eq`: the words that the flags are read off.
* `main_phases`: the phases that an invocation runs, as a function of the set of its
  action words.
-/

namespace RedisCluster

open Errexit Script

/-- The words at the separators of the arguments. -/
def tokens (args : List Text) : List Text := args.flatMap items

/-- The phases of the tool. -/
inductive Phase where
  | clean
  | build
  | config
  | deploy
  deriving DecidableEq

namespace Phase

/-- The word that asks for a phase. -/
def word : Phase → Text
  | clean => "clean".toList
  | build => "build".toList
  | config => "config".toList
  | deploy => "deploy".toList

/-- The phase runs under the flags `f`. -/
def run (m : Machine) (c : Cluster) (f : Flags) : Phase → Script Shell Unit
  | clean => RedisCluster.clean m c f
  | build => RedisCluster.build m c
  | config => RedisCluster.config m c
  | deploy => RedisCluster.deploy m c

end Phase

/-- The words that ask for something. -/
def actionWords : List Text := ["ALL", "config", "build", "deploy", "clean"].map String.toList

/-- The flags that a list of words sets. -/
def requested (ws : List Text) : Flags where
  hasConfig := "ALL".toList ∈ ws ∨ "config".toList ∈ ws
  hasBuild := "ALL".toList ∈ ws ∨ "build".toList ∈ ws
  hasDeploy := "ALL".toList ∈ ws ∨ "deploy".toList ∈ ws
  hasClean := "clean".toList ∈ ws

/-- The phases that a list of words asks for: `clean` alone, or the others in their order. -/
def phases (ws : List Text) : List Phase :=
  if "clean".toList ∈ ws then [.clean]
  else [Phase.build, .config, .deploy].filter fun p => "ALL".toList ∈ ws ∨ p.word ∈ ws

/-! ## The words -/

/-- An accepted id is a word of its own. -/
theorem items_of_acceptedId {id : Text} (h : AcceptedId id) : items id = [id] := by
  obtain ⟨hne, hchars⟩ := isIdChar_of_acceptedId h
  have hsep : ∀ c ∈ id, isSeparator c = false := by
    intro c hc
    have hid := hchars c hc
    simp [isSeparator, isBlank, ne_of_isIdChar hid (isIdChar_eq_false (c := ' ') (by simp)),
      ne_of_isIdChar hid (isIdChar_eq_false (c := '\t') (by simp)),
      ne_of_isIdChar hid (isIdChar_eq_false (c := '\n') (by simp)),
      ne_of_isIdChar hid (isIdChar_eq_false (c := ',') (by simp))]
  rw [items, fields, List.splitOnP_eq_singleton hsep]
  simp [hne]

theorem isGlobChar_of_isIdChar {c : Char} (h : isIdChar c = true) : isGlobChar c = false := by
  simp [isGlobChar, ne_of_isIdChar h (isIdChar_eq_false (c := '*') (by simp)),
    ne_of_isIdChar h (isIdChar_eq_false (c := '?') (by simp)),
    ne_of_isIdChar h (isIdChar_eq_false (c := '[') (by simp))]

/-- An accepted id asks for nothing. -/
theorem not_mem_actionWords {id : Text} (h : AcceptedId id) : id ∉ actionWords := by
  intro hmem
  simp only [actionWords, List.map_cons, List.map_nil, List.mem_cons, List.not_mem_nil,
    or_false] at hmem
  rcases hmem with rfl | rfl | rfl | rfl | rfl <;> revert h <;> decide +kernel

/-- The words that the flags are read off: the id, and the tokens behind it. -/
theorem actionsOf_eq (m : Machine) (fs : FS) (cwd : Path) {id : Text} {args : List Text}
    (hid : AcceptedId id) (hglob : ∀ a ∈ args, ∀ c ∈ a, isGlobChar c = false) :
    actionsOf m fs cwd (id :: args) = id :: tokens args := by
  obtain ⟨hne, hchars⟩ := isIdChar_of_acceptedId hid
  have hoption : isEchoOption (join (id :: args)) = false := by
    obtain ⟨a, as, rfl⟩ := List.exists_cons_of_ne_nil hne
    have ha : a ≠ '-' :=
      ne_of_isIdChar (hchars a (by simp)) (isIdChar_eq_false (c := '-') (by simp))
    have hjoin : ∃ r, join ((a :: as) :: args) = a :: r := by
      cases args with
      | nil => exact ⟨as, by simp [join]⟩
      | cons b bs => exact ⟨_, by rw [join_cons_cons, List.cons_append]⟩
    obtain ⟨r, hr⟩ := hjoin
    rw [hr]
    exact isEchoOption_of_head (by simpa using ha)
  have hplain : ∀ c ∈ join (id :: args), isGlobChar c = false := by
    intro c hc
    rcases mem_join hc with rfl | ⟨w, hw, hcw⟩
    · decide
    · rcases List.mem_cons.mp hw with rfl | hw
      · exact isGlobChar_of_isIdChar (hchars c hcw)
      · exact hglob w hw c hcw
  rw [actionsOf, listWords_eq_items m fs cwd hoption hplain, items, join,
    fields_intercalate rfl, List.flatMap_cons]
  exact congrArg (· ++ tokens args) (items_of_acceptedId hid)

/-- The flags depend on the tokens behind the id only. -/
theorem flagsOf_cons {id : Text} (hid : AcceptedId id) (ws : List Text) :
    flagsOf (id :: ws) = requested ws := by
  have hword : ∀ w ∈ actionWords, (arrayFind (id :: ws) w != -1) = decide (w ∈ ws) := by
    intro w hw
    have hne : w ≠ id := by
      rintro rfl
      exact not_mem_actionWords hid hw
    rw [Bool.eq_iff_iff, bne_iff_ne, ne_eq, arrayFind_eq_neg_one_iff, not_not, decide_eq_true_eq,
      List.mem_cons, or_iff_right hne]
  simp only [actionWords, List.map_cons, List.map_nil, List.mem_cons, List.not_mem_nil, or_false,
    forall_eq_or_imp, forall_eq] at hword
  obtain ⟨hall, hconfig, hbuild, hdeploy, hclean⟩ := hword
  simp only [flagsOf, requested, hall, hconfig, hbuild, hdeploy, hclean, Bool.decide_or]

/-! ## The phases -/

/-- The dispatch runs the phases that the words ask for, in their order. -/
theorem dispatch_eq_phases (m : Machine) (c : Cluster) (ws : List Text) :
    dispatch m c (requested ws) = forEach (phases ws) (Phase.run m c (requested ws)) := by
  rw [dispatch, phases]
  by_cases hclean : "clean".toList ∈ ws
  · have hflag : (requested ws).hasClean = true := decide_eq_true hclean
    rw [if_pos hflag, if_pos hclean, forEach_cons, forEach_nil, seq_pure, Phase.run]
  · have hflag : ¬ (requested ws).hasClean = true := fun h => hclean (of_decide_eq_true h)
    rw [if_neg hflag, if_neg hclean, forEach_filter, forEach_cons, forEach_cons, forEach_cons,
      forEach_nil, seq_pure]
    rfl

/-- The phases depend on the set of the action words only. -/
theorem phases_congr {ws ws' : List Text} (h : ∀ w ∈ actionWords, w ∈ ws ↔ w ∈ ws') :
    requested ws = requested ws' ∧ phases ws = phases ws' := by
  simp only [actionWords, List.map_cons, List.map_nil, List.mem_cons, List.not_mem_nil, or_false,
    forall_eq_or_imp, forall_eq] at h
  obtain ⟨hall, hconfig, hbuild, hdeploy, hclean⟩ := h
  constructor
  · simp only [requested, hall, hconfig, hbuild, hdeploy, hclean]
  · rw [phases, phases]
    by_cases hc : "clean".toList ∈ ws
    · rw [if_pos hc, if_pos (hclean.mp hc)]
    · rw [if_neg hc, if_neg (hclean.not.mp hc)]
      refine List.filter_congr fun p hp => ?_
      rw [decide_eq_decide]
      simp only [List.mem_cons, List.not_mem_nil, or_false] at hp
      rcases hp with rfl | rfl | rfl
      · exact or_congr hall hbuild
      · exact or_congr hall hconfig
      · exact or_congr hall hdeploy

/-- What an invocation runs. -/
theorem main_eq_phases (m : Machine) (tool : Path) (inputs : Text → Inputs) {id : Text}
    (hid : AcceptedId id) {args : List Text}
    (hglob : ∀ a ∈ args, ∀ c ∈ a, isGlobChar c = false) (s : Shell) :
    (main m tool inputs (id :: args)).run s =
      (validate m tool id (inputs id) >>= fun c =>
        forEach (phases (tokens args)) (Phase.run m c (requested (tokens args)))).run s := by
  have hphases : (fun c => dispatch m c (requested (tokens args))) =
      fun c => forEach (phases (tokens args)) (Phase.run m c (requested (tokens args))) :=
    funext fun c => dispatch_eq_phases m c (tokens args)
  rw [main, look_bind_run, actionsOf_eq m s.fs s.cwd hid hglob, flagsOf_cons hid, ← hphases]

/-- That arguments have no glob characters can be computed. -/
theorem globFree_of_any {args : List Text} (h : args.any (fun a => a.any isGlobChar) = false) :
    ∀ a ∈ args, ∀ c ∈ a, isGlobChar c = false := by
  intro a ha c hc
  have hany := List.any_eq_false.mp h a ha
  rw [Bool.not_eq_true] at hany
  simpa using List.any_eq_false.mp hany c hc

/-- **The phases of an invocation**: those that the tokens behind the id ask for, whatever
    their order, number and grouping. With `clean` among them no other phase runs. -/
theorem main_phases (m : Machine) (tool : Path) (inputs : Text → Inputs) {id : Text}
    (hid : AcceptedId id) {args : List Text}
    (hglob : ∀ a ∈ args, ∀ c ∈ a, isGlobChar c = false) :
    (∀ s, (main m tool inputs (id :: args)).run s =
      (validate m tool id (inputs id) >>= fun c =>
        forEach (phases (tokens args)) (Phase.run m c (requested (tokens args)))).run s) ∧
    (∀ args' : List Text, (∀ a ∈ args', ∀ c ∈ a, isGlobChar c = false) →
      (∀ w ∈ actionWords, w ∈ tokens args ↔ w ∈ tokens args') →
      ∀ s, (main m tool inputs (id :: args)).run s = (main m tool inputs (id :: args')).run s) ∧
    ("clean".toList ∈ tokens args → phases (tokens args) = [.clean]) := by
  refine ⟨main_eq_phases m tool inputs hid hglob, fun args' hglob' hsame s => ?_,
    fun hclean => if_pos hclean⟩
  obtain ⟨hflags, hphases⟩ := phases_congr hsame
  rw [main_eq_phases m tool inputs hid hglob, main_eq_phases m tool inputs hid hglob', hflags,
    hphases]

/-- The arguments `mycluster deploy,foo "config ALL"`. -/
theorem main_phases_demo :
    (∀ s, (main plainHost [] (fun _ => demoInputs demoIni demoNodesCfg [] [] [])
        ["mycluster".toList, "deploy,foo".toList, "config ALL".toList]).run s =
      (validate plainHost [] "mycluster".toList (demoInputs demoIni demoNodesCfg [] [] []) >>= fun c =>
        forEach (phases (tokens ["deploy,foo".toList, "config ALL".toList]))
          (Phase.run plainHost c
            (requested (tokens ["deploy,foo".toList, "config ALL".toList])))).run s) ∧
      phases (tokens ["deploy,foo".toList, "config ALL".toList]) = [.build, .config, .deploy] :=
  ⟨(main_phases plainHost [] (fun _ => demoInputs demoIni demoNodesCfg [] [] [])
    (by decide +kernel) (globFree_of_any (by decide +kernel))).1, by decide +kernel⟩

end RedisCluster
