import RedisCluster.Properties.Isolation

/-!
# What `clean()` removes

`clean()` asks before it removes a directory. It leaves the tree without the directories whose
removal has been confirmed, whatever is answered, and also when the answers run out.

* `keeps_clean_unless`: a tree stays, struck by faults or not, until its removal is confirmed.
* `Invocation.sameAround_unless`, `sameAround_history`: the same of invocations.
* `Cleaned`: what a run without faults has come to; `ends_clean`: where it ends.
-/

namespace RedisCluster

open FileTree Errexit Script

/-! ## The questions -/

/-- The question has been answered with a yes. -/
def Confirmed (q : Question) (s : Shell) : Prop := ∃ a, .asked q a ∈ s.trace ∧ isYes a = true

/-- The directory that a question asks to remove. -/
def Cluster.questioned (c : Cluster) : Question → PathWord
  | .removeBuild => c.clusterBuildDir
  | .removeConfig => c.clusterConfigDir
  | .removeHome => c.clusterHomeDir

/-- The flag with which `clean()` comes to a question. -/
def Flags.asks (f : Flags) : Question → Bool
  | .removeBuild => f.hasBuild
  | .removeConfig => f.hasConfig
  | .removeHome => f.hasDeploy

/-- The trees that the other questions ask to remove. -/
def Cluster.otherTrees (c : Cluster) (q : Question) : List Path :=
  ([Question.removeBuild, .removeConfig, .removeHome].filter (· ≠ q)).map
    fun q' => target [] (c.questioned q')

section Questions

variable {m : Machine} {c : Cluster} {f : Flags} {q : Question} {s t : Shell}

/-- The last block of `clean()` is like the others: the flag and the test can be taken in either
    order. -/
theorem clean_eq (m : Machine) (c : Cluster) (f : Flags) : clean m c f = (do
    whenever f.hasBuild (cleanDir m .removeBuild c.clusterBuildDir)
    whenever f.hasConfig (cleanDir m .removeConfig c.clusterConfigDir)
    whenever f.hasDeploy (cleanDir m .removeHome c.clusterHomeDir)) := by
  unfold clean
  cases f.hasDeploy with
  | true => rfl
  | false =>
    have hlast : (isDirAt c.clusterHomeDir >>= fun there =>
        whenever there (whenever false (confirmRemoval m .removeHome c.clusterHomeDir))) =
        whenever false (cleanDir m .removeHome c.clusterHomeDir) := by
      refine congrArg Script.mk (funext fun s => ?_)
      rw [isDirAt, look_run]
      cases testD s.fs s.cwd c.clusterHomeDir <;> rfl
    rw [hlast]

theorem Confirmed.of_isPrefix (h : Confirmed q s) (hp : s.trace <+: t.trace) : Confirmed q t := by
  obtain ⟨a, ha, hyes⟩ := h
  exact ⟨a, hp.subset ha, hyes⟩

/-- Nothing is removed without a yes. -/
theorem confirmRemoval_fs (m : Machine) (q : Question) (dir : PathWord) (s : Shell) :
    ((confirmRemoval m q dir).run s).2.fs = s.fs ∨
      Confirmed q ((confirmRemoval m q dir).run s).2 := by
  rw [confirmRemoval, bind_run]
  cases hanswers : s.answers with
  | nil =>
    rw [ask_run_of_nil hanswers]
    exact Or.inl rfl
  | cons a rest =>
    rw [ask_run_of_cons hanswers]
    dsimp only
    cases hyes : isYes a with
    | false => exact Or.inl rfl
    | true =>
      right
      refine ⟨a, ?_, hyes⟩
      rw [whenever, if_pos rfl, exec_run_snd]
      simp [Shell.after, Shell.note]

theorem confirmRemoval_isPrefix (m : Machine) (c : Cluster) (q : Question) (dir : PathWord)
    (s : Shell) : s.trace <+: ((confirmRemoval m q dir).run s).2.trace := by
  have hbuilt : Built m c (fun _ => True) (confirmRemoval m q dir) :=
    built_confirmRemoval m c q trivial
  exact hbuilt.isPrefix_trace s

theorem PlainPaths.questioned (h : PlainPaths m c) (q : Question) :
    IsAbsolute (c.questioned q) ∧ ['.', '.'] ∉ c.questioned q := by
  cases q with
  | removeBuild => exact ⟨⟨_, rfl⟩, h.noDots_tool _ (by decide)⟩
  | removeConfig => exact ⟨⟨_, rfl⟩, h.noDots_tool _ (by decide)⟩
  | removeHome => exact ⟨h.isAbsolute_home, h.noDots_home⟩

/-- One block of `clean()`, about this question or about another one. -/
theorem keeps_cleanDir_unless (h : PlainPaths m c) (f : Flags) (q q' : Question) (fs : FS) :
    Keeps (fun s => ChangesBelow (c.otherTrees q) fs s.fs ∨ f.asks q = true ∧ Confirmed q s)
      (whenever (f.asks q') (cleanDir m q' (c.questioned q'))) := by
  refine keeps_whenever fun hasks => ?_
  by_cases hq : q' = q
  · subst hq
    refine keeps_bind (keeps_look _) fun _ => keeps_whenever fun _ => ?_
    intro s hs
    rcases hs with hs | ⟨-, hs⟩
    · rcases confirmRemoval_fs m q' (c.questioned q') s with hfs | hyes
      · exact Or.inl (hfs ▸ hs)
      · exact Or.inr ⟨hasks, hyes⟩
    · exact Or.inr ⟨hasks, hs.of_isPrefix (confirmRemoval_isPrefix m c _ _ s)⟩
  · have hbuilt : Built m c (fun a => a = .cmd (.rmRf (c.questioned q')))
        (cleanDir m q' (c.questioned q')) := by
      refine built_cleanDir m c _ ?_ rfl
      cases q' <;> simp [Cluster.questioned, testedWords]
    refine hbuilt.keeps_commands_in (fun a ha s cm hcm hs => ?_) fun s e as _ hs => ?_
    · subst ha
      cases hcm
      refine hs.imp (fun hs => hs.trans ?_) fun hs => ⟨hs.1, hs.2.of_isPrefix ⟨_, rfl⟩⟩
      refine (staysBelow_rmRf fun cwd => ?_).changes_after
      rw [(h.questioned q').1.target_eq (d := [])]
      refine List.mem_map.mpr ⟨q', List.mem_filter.mpr ⟨?_, by simp [hq]⟩, rfl⟩
      cases q' <;> simp
    · exact hs.imp_right fun hs => ⟨hs.1, hs.2.of_isPrefix ⟨_, rfl⟩⟩

/-- **Without a yes** to its question `clean()` leaves a directory alone. -/
theorem keeps_clean_unless (h : PlainPaths m c) (f : Flags) (q : Question) (fs : FS) :
    Keeps (fun s => ChangesBelow (c.otherTrees q) fs s.fs ∨ f.asks q = true ∧ Confirmed q s)
      (clean m c f) := by
  rw [clean_eq]
  exact keeps_bind (keeps_cleanDir_unless h f q .removeBuild fs) fun _ =>
    keeps_bind (keeps_cleanDir_unless h f q .removeConfig fs) fun _ =>
      keeps_cleanDir_unless h f q .removeHome fs

end Questions

/-! ## Invocations -/

/-- The tree that a question asks to remove, of the cluster with the id. -/
def questionTree (tool : Path) (parent id : Text) : Question → Path
  | .removeBuild => buildPath tool id
  | .removeConfig => configPath tool id
  | .removeHome => homePath parent id

/-- The invocation cleans the cluster, and the question whether to remove the directory is
    answered with a yes. -/
def Invocation.Removes (inv : Invocation) (tool : Path) (id : Text) (q : Question) (fs : FS) : Prop :=
  inv.isFor id = true ∧ (inv.flags fs).hasClean = true ∧ (inv.flags fs).asks q = true ∧
    Confirmed q (inv.run tool fs).2

section Invocations

variable {tool : Path} {parent id : Text} {fs : FS} {m : Machine} {c : Cluster} {q : Question}

theorem questionTree_mem (tool : Path) (parent id : Text) (q : Question) :
    questionTree tool parent id q ∈ treesOf tool parent id := by
  cases q <;> simp [questionTree, treesOf]

theorem target_questioned (hc : SharesParent tool parent m c) (q : Question) :
    target [] (c.questioned q) = questionTree tool parent c.clusterid q := by
  have htrees := trees_eq hc
  simp only [Cluster.trees, treesOf, List.cons.injEq, and_true] at htrees
  cases q
  · exact htrees.1
  · exact htrees.2.1
  · exact htrees.2.2

/-- The trees that the other questions ask to remove are separate. -/
theorem Outside.separate_otherTrees (h : Outside tool parent) (hid : AcceptedId c.clusterid)
    (hc : SharesParent tool parent m c) (q : Question) :
    ∀ d ∈ c.otherTrees q, Separate d (questionTree tool parent c.clusterid q) := by
  intro d hd
  obtain ⟨q', hq', rfl⟩ := List.mem_map.mp hd
  have hne : q' ≠ q := by simpa using (List.mem_filter.mp hq').2
  have hmem : ∀ q, questionTree tool parent c.clusterid q ∈ treesOf tool parent c.clusterid :=
    questionTree_mem tool parent c.clusterid
  have hdiff : questionTree tool parent c.clusterid q' ≠ questionTree tool parent c.clusterid q := by
    have hbuild : Separate (buildPath tool c.clusterid) (homePath parent c.clusterid) :=
      h.separate_home hid (by simp) _
    have hconfig : Separate (configPath tool c.clusterid) (homePath parent c.clusterid) :=
      h.separate_home hid (by simp) _
    have hkinds := separate_kinds tool c.clusterid c.clusterid
    intro heq
    have hle : questionTree tool parent c.clusterid q' <+: questionTree tool parent c.clusterid q := by
      rw [heq]
    cases q' <;> cases q
    · exact hne rfl
    · exact hkinds.1 hle
    · exact hbuild.1 hle
    · exact hkinds.2 hle
    · exact hne rfl
    · exact hconfig.1 hle
    · exact hbuild.2 hle
    · exact hconfig.2 hle
    · exact hne rfl
  rw [target_questioned hc]
  exact ⟨fun hle => hdiff (unnested_trees h hid _ (hmem q') _ (hmem q) hle),
    fun hle => hdiff (unnested_trees h hid _ (hmem q) _ (hmem q') hle).symm⟩

/-- **One invocation** leaves a directory alone that the phases of its own cluster leave alone,
    unless its removal has been confirmed. -/
theorem Invocation.sameAround_unless {inv : Invocation} (h : Outside tool parent)
    (hid : AcceptedId id) (hplain : inv.PlainBelow tool parent)
    (hdirs : ∀ p, p <+: questionTree tool parent id q → fs p = some .dir)
    (hphases : ∀ c, inv.Accepts tool fs c → c.clusterid = id → (inv.flags fs).hasClean = false →
      SameAround (questionTree tool parent id q) fs (inv.run tool fs).2.fs)
    (hnot : ¬ inv.Removes tool id q fs) :
    SameAround (questionTree tool parent id q) fs (inv.run tool fs).2.fs := by
  by_cases haccepts : ∃ c, inv.Accepts tool fs c
  · obtain ⟨c, hc⟩ := haccepts
    have hshares := hc.sharesParent h.names hplain
    obtain ⟨cid, args, hargs, hmade⟩ := hc.madeOf
    have hcid : AcceptedId c.clusterid := hmade.clusterid ▸ hmade.accepted
    by_cases hsame : c.clusterid = id
    · cases hclean : (inv.flags fs).hasClean with
      | false => exact hphases c hc hsame hclean
      | true =>
        subst hsame
        have hrun : inv.run tool fs = (clean inv.machine c (inv.flags fs)).run (inv.start fs) := by
          rw [Invocation.run_of_accepts hc, dispatch, if_pos hclean]
        rcases keeps_clean_unless hshares.toPlainPaths (inv.flags fs) q fs (inv.start fs)
          (Or.inl (Changes.refl _ _ _)) with hchanges | ⟨hflag, hyes⟩
        · rw [hrun]
          exact hchanges.sameAround (h.separate_otherTrees hcid hshares q) hdirs
        · refine absurd ⟨?_, hclean, hflag, hrun ▸ hyes⟩ hnot
          rw [Invocation.isFor, hargs, List.head?_cons, hmade.clusterid, beq_self_eq_true]
    · refine (Invocation.changes h.names hc hshares.toPlainNames).sameAround (fun d hd => ?_) hdirs
      rw [trees_eq hshares] at hd
      exact separate_trees h hcid hid hsame d hd _ (questionTree_mem tool parent id q)
  · rw [Invocation.fs_run_of_not_accepts fun c hc => haccepts ⟨c, hc⟩]
    exact fun _ _ => rfl

/-- What single invocations leave around a directory, their history leaves, as long as what they
    rest on is part of it. -/
theorem sameAround_history {d : Path} {P : FS → Prop} {Q : Invocation → FS → Prop}
    {invs : List Invocation} (hkeep : ∀ fs fs', P fs → SameAround d fs fs' → P fs')
    (hstep : ∀ inv ∈ invs, ∀ fs, P fs → Q inv fs → SameAround d fs (inv.run tool fs).2.fs)
    (hP : P fs) (hQ : Throughout tool Q invs fs) : SameAround d fs (history tool invs fs) := by
  induction invs generalizing fs with
  | nil => exact fun _ _ => rfl
  | cons inv invs ih =>
    have hone := hstep inv (by simp) fs hP hQ.1
    exact hone.trans (ih (fun i hi => hstep i (by simp [hi])) (hkeep _ _ hP hone) hQ.2)

/-- What each invocation does where a fact is kept, all of them do. -/
theorem throughout_of_kept {P : FS → Prop} {Q R : Invocation → FS → Prop} {invs : List Invocation}
    (hkeep : ∀ inv ∈ invs, ∀ fs, P fs → Q inv fs → P (inv.run tool fs).2.fs)
    (hR : ∀ inv ∈ invs, ∀ fs, P fs → Q inv fs → R inv fs) (hP : P fs)
    (hQ : Throughout tool Q invs fs) : Throughout tool R invs fs := by
  induction invs generalizing fs with
  | nil => trivial
  | cons inv invs ih =>
    exact ⟨hR inv (by simp) fs hP hQ.1, ih (fun i hi => hkeep i (by simp [hi]))
      (fun i hi => hR i (by simp [hi])) (hkeep inv (by simp) fs hP hQ.1) hQ.2⟩

end Invocations

/-! ## Runs without faults -/

/-- The answer to a question. -/
def Event.answer : Event → Option Text
  | .asked _ a => some a
  | _ => none

/-- At or below a directory whose removal has been confirmed. -/
def IsRemoved (c : Cluster) (t : Shell) (p : Path) : Prop :=
  ∃ q, Confirmed q t ∧ target t.cwd (c.questioned q) <+: p

/-- What `clean()` has come to in `t`, from `s`. It has asked for directories that are there, and
    has taken the answers in turn; what has been confirmed is gone, and all else is as it was. -/
structure Cleaned (c : Cluster) (f : Flags) (s t : Shell) : Prop where
  cwd : t.cwd = s.cwd
  faults : t.faults = []
  asked : ∀ q a, .asked q a ∈ t.trace →
    f.asks q = true ∧ testD s.fs s.cwd (c.questioned q) = true
  answers : s.answers = t.trace.filterMap Event.answer ++ t.answers
  removed : ∀ p, IsRemoved c t p → t.fs p = none
  kept : ∀ p, ¬ IsRemoved c t p → t.fs p = s.fs p

section Clean

variable {m : Machine} {c : Cluster} {f : Flags} {q : Question} {dir : PathWord} {s t u : Shell}

/-- A question has been answered. -/
def Shell.answered (s : Shell) (q : Question) (a : Text) (rest : List Text) : Shell :=
  { s.note (.asked q a) with answers := rest }

/-- A prompt takes an answer, and with a yes the directory is removed. -/
theorem confirmRemoval_run_of_cons (m : Machine) (q : Question) (dir : PathWord) {s : Shell}
    {a : Text} {rest : List Text} (hanswers : s.answers = a :: rest) :
    (confirmRemoval m q dir).run s =
      (whenever (isYes a) (exec m (.rmRf dir))).run (s.answered q a rest) := by
  rw [confirmRemoval, bind_run, ask_run_of_cons hanswers]
  rfl

theorem confirmRemoval_run_of_nil (m : Machine) (q : Question) (dir : PathWord) {s : Shell}
    (hanswers : s.answers = []) : (confirmRemoval m q dir).run s = (none, s) := by
  rw [confirmRemoval, bind_run, ask_run_of_nil hanswers]

/-- `rm -rf` of a directory that is there succeeds. -/
theorem rmRf_run (m : Machine) (hfaults : s.faults = []) (hthere : testD s.fs s.cwd dir = true) :
    s.outcome m (.rmRf dir) = (removeBelow s.fs (target s.cwd dir), true) := by
  obtain ⟨p, hp, -⟩ := testD_eq_true_iff.mp hthere
  rw [outcome_of_noFaults hfaults]
  simp only [Cmd.run, hp]
  rw [resolve_eq_target hp]

/-- What is there was there before. -/
theorem Cleaned.within (h : Cleaned c f s t) : Within id t.fs s.fs := by
  intro p
  by_cases hp : IsRemoved c t p
  · exact Or.inl (h.removed p hp)
  · exact Or.inr (by rw [h.kept p hp])

theorem testD_of_within {fs fs' : FS} (h : Within id fs fs') {cwd : Path} {w : PathWord}
    (hw : testD fs cwd w = true) : testD fs' cwd w = true := by
  obtain ⟨p, hp, hdir⟩ := testD_eq_true_iff.mp hw
  exact testD_eq_true_iff.mpr ⟨p, resolve_of_within h hp, isDir_iff.mpr (h.dir (isDir_iff.mp hdir))⟩

theorem cleaned_refl (htrace : s.trace = []) (hfaults : s.faults = []) : Cleaned c f s s where
  cwd := rfl
  faults := hfaults
  asked := by simp [htrace]
  answers := by simp [htrace]
  removed := by
    rintro p ⟨q, ⟨a, ha, -⟩, -⟩
    simp [htrace] at ha
  kept := fun _ _ => rfl

/-- What an answer adds to what has been confirmed. -/
theorem confirmed_answered_iff {q' : Question} {a : Text} {rest : List Text} :
    Confirmed q' (s.answered q a rest) ↔ Confirmed q' s ∨ (q' = q ∧ isYes a = true) := by
  constructor
  · rintro ⟨b, hb, hyes⟩
    rcases List.mem_append.mp hb with hb | hb
    · exact Or.inl ⟨b, hb, hyes⟩
    · rw [List.mem_singleton, Event.asked.injEq] at hb
      exact Or.inr ⟨hb.1, hb.2 ▸ hyes⟩
  · rintro (⟨b, hb, hyes⟩ | ⟨rfl, hyes⟩)
    · exact ⟨b, List.mem_append_left _ hb, hyes⟩
    · exact ⟨a, List.mem_append_right _ (by simp), hyes⟩

/-- The answer is not a yes. -/
theorem Cleaned.answered_no (h : Cleaned c f s t) (hf : f.asks q = true)
    (hthere : testD t.fs t.cwd (c.questioned q) = true) {a : Text} {rest : List Text}
    (hanswers : t.answers = a :: rest) (hno : isYes a = false) :
    Cleaned c f s (t.answered q a rest) := by
  have hremoved : ∀ p, IsRemoved c (t.answered q a rest) p ↔ IsRemoved c t p := by
    intro p
    unfold IsRemoved
    simp only [confirmed_answered_iff, hno, Bool.false_eq_true, and_false, or_false]
    rfl
  refine ⟨h.cwd, h.faults, fun q' b hb => ?_, ?_, fun p hp => h.removed p ((hremoved p).mp hp),
    fun p hp => h.kept p fun hp' => hp ((hremoved p).mpr hp')⟩
  · rcases List.mem_append.mp hb with hb | hb
    · exact h.asked q' b hb
    · rw [List.mem_singleton, Event.asked.injEq] at hb
      rw [hb.1, ← h.cwd]
      exact ⟨hf, testD_of_within h.within hthere⟩
  · have htrace : (t.answered q a rest).trace = t.trace ++ [.asked q a] := rfl
    rw [htrace, List.filterMap_append, h.answers, hanswers, List.append_assoc]
    rfl

/-- The answer is a yes. -/
theorem Cleaned.answered_yes (h : Cleaned c f s t) (hf : f.asks q = true)
    (hthere : testD t.fs t.cwd (c.questioned q) = true) {a : Text} {rest : List Text}
    (hanswers : t.answers = a :: rest) (hyes : isYes a = true) :
    Cleaned c f s ((t.answered q a rest).after m (.rmRf (c.questioned q))) := by
  have houtcome := rmRf_run (s := t.answered q a rest) m h.faults hthere
  have hfs : ((t.answered q a rest).after m (.rmRf (c.questioned q))).fs =
      removeBelow t.fs (target t.cwd (c.questioned q)) := by
    rw [Shell.after, houtcome]
    rfl
  have htrace : ((t.answered q a rest).after m (.rmRf (c.questioned q))).trace =
      t.trace ++ [.asked q a] ++ [.ran t.cwd (.rmRf (c.questioned q)) true] := by
    rw [Shell.after, houtcome]
    rfl
  have hconfirmed : ∀ q', Confirmed q' ((t.answered q a rest).after m (.rmRf (c.questioned q))) ↔
      Confirmed q' t ∨ q' = q := by
    intro q'
    have hiff : Confirmed q' (t.answered q a rest) ↔ Confirmed q' t ∨ q' = q := by
      rw [confirmed_answered_iff, hyes]
      simp only [and_true]
    rw [← hiff, Confirmed, Confirmed, htrace]
    simp [Shell.answered, Shell.note]
  have hremoved : ∀ p, IsRemoved c ((t.answered q a rest).after m (.rmRf (c.questioned q))) p ↔
      IsRemoved c t p ∨ target t.cwd (c.questioned q) <+: p := by
    intro p
    constructor
    · rintro ⟨q', hq', hp⟩
      rcases (hconfirmed q').mp hq' with hq' | rfl
      · exact Or.inl ⟨q', hq', hp⟩
      · exact Or.inr hp
    · rintro (⟨q', hq', hp⟩ | hp)
      · exact ⟨q', (hconfirmed q').mpr (Or.inl hq'), hp⟩
      · exact ⟨q, (hconfirmed q).mpr (Or.inr rfl), hp⟩
  refine ⟨h.cwd, ?_, fun q' b hb => ?_, ?_, fun p hp => ?_, fun p hp => ?_⟩
  · have htail : ((t.answered q a rest).after m (.rmRf (c.questioned q))).faults =
        t.faults.tail := rfl
    rw [htail, h.faults, List.tail_nil]
  · rw [htrace] at hb
    simp only [List.mem_append, List.mem_singleton, reduceCtorEq, or_false, Event.asked.injEq] at hb
    rcases hb with hb | ⟨rfl, -⟩
    · exact h.asked q' b hb
    · rw [← h.cwd]
      exact ⟨hf, testD_of_within h.within hthere⟩
  · have hrest : ((t.answered q a rest).after m (.rmRf (c.questioned q))).answers = rest := rfl
    rw [htrace, hrest, h.answers, hanswers]
    simp [Event.answer]
  · rw [hfs, removeBelow]
    split
    · rfl
    · next hnot => exact h.removed p (((hremoved p).mp hp).resolve_right hnot)
  · rw [hremoved, not_or] at hp
    rw [hfs, removeBelow_of_not_below hp.2, h.kept p hp.1]

/-- A directory that `clean()` comes to and that is still there has been kept by an answer. -/
def Declined (c : Cluster) (f : Flags) (q : Question) (t : Shell) : Prop :=
  f.asks q = true → testD t.fs t.cwd (c.questioned q) = true →
    ∃ a, .asked q a ∈ t.trace ∧ isYes a = false

theorem Declined.mono (h : Declined c f q t) (hcwd : u.cwd = t.cwd) (hfs : Within id u.fs t.fs)
    (htrace : t.trace ⊆ u.trace) : Declined c f q u := by
  intro hf hthere
  rw [hcwd] at hthere
  obtain ⟨a, ha, hno⟩ := h hf (testD_of_within hfs hthere)
  exact ⟨a, htrace ha, hno⟩

/-- A directory whose removal has been confirmed is not there. -/
theorem Cleaned.not_testD (h : Cleaned c f s t) (hq : Confirmed q t) :
    testD t.fs t.cwd (c.questioned q) = false := by
  rw [← Bool.not_eq_true, testD_eq_true_iff]
  rintro ⟨p, hp, hdir⟩
  have hnone := h.removed p ⟨q, hq, by rw [resolve_eq_target hp]⟩
  rw [isDir_iff, hnone] at hdir
  cases hdir

/-- One block: where it ends, its directory is gone or has been kept by an answer; it stops only
    when there is no answer left. -/
theorem ends_cleanDir (m : Machine) (q : Question) (qs : List Question) :
    Ends (fun t => Cleaned c f s t ∧ ∀ q' ∈ qs, Declined c f q' t)
      (whenever (f.asks q) (cleanDir m q (c.questioned q)))
      (fun _ t => Cleaned c f s t ∧ ∀ q' ∈ q :: qs, Declined c f q' t)
      (fun t => Cleaned c f s t ∧ t.answers = []) := by
  rintro t ⟨ht, hqs⟩
  cases hf : f.asks q with
  | false =>
    rw [whenever, if_neg (by simp), pure_run]
    refine ⟨ht, fun q' hq' => ?_⟩
    rcases List.mem_cons.mp hq' with rfl | hq'
    · intro hasks
      rw [hf] at hasks
      cases hasks
    · exact hqs q' hq'
  | true =>
    rw [whenever, if_pos rfl, cleanDir, isDirAt, look_bind_run]
    cases hthere : testD t.fs t.cwd (c.questioned q) with
    | false =>
      rw [whenever, if_neg (by simp), pure_run]
      refine ⟨ht, fun q' hq' => ?_⟩
      rcases List.mem_cons.mp hq' with rfl | hq'
      · intro _ hnow
        rw [hthere] at hnow
        cases hnow
      · exact hqs q' hq'
    | true =>
      rw [whenever, if_pos rfl]
      cases hanswers : t.answers with
      | nil =>
        rw [confirmRemoval_run_of_nil m q _ hanswers]
        exact ⟨ht, hanswers⟩
      | cons a rest =>
        rw [confirmRemoval_run_of_cons m q _ hanswers]
        cases hyes : isYes a with
        | false =>
          rw [whenever, if_neg (by simp), pure_run]
          refine ⟨ht.answered_no hf hthere hanswers hyes, fun q' hq' => ?_⟩
          rcases List.mem_cons.mp hq' with rfl | hq'
          · exact fun _ _ => ⟨a, List.mem_append_right _ (by simp), hyes⟩
          · exact (hqs q' hq').mono rfl (Within.refl _ _) (List.subset_append_left _ _)
        | true =>
          have hnow := ht.answered_yes (m := m) hf hthere hanswers hyes
          have hok := rmRf_run (s := t.answered q a rest) m ht.faults hthere
          have hrun : (exec m (.rmRf (c.questioned q))).run (t.answered q a rest) =
              (some (), (t.answered q a rest).after m (.rmRf (c.questioned q))) :=
            exec_eq_some_iff.mpr ⟨by rw [hok], rfl⟩
          rw [whenever, if_pos rfl, hrun]
          refine ⟨hnow, fun q' hq' => ?_⟩
          rcases List.mem_cons.mp hq' with rfl | hq'
          · intro _ hthere'
            rw [hnow.not_testD ⟨a, ?_, hyes⟩] at hthere'
            · cases hthere'
            · simp [Shell.after, Shell.answered, Shell.note]
          · refine (hqs q' hq').mono rfl ?_ fun e he => ?_
            · intro p
              rw [Shell.after, hok]
              dsimp only
              rw [removeBelow]
              split
              · exact Or.inl rfl
              · exact Or.inr rfl
            · simp [Shell.after, Shell.answered, Shell.note, he]

/-- `clean()` by its questions. -/
theorem ends_clean (m : Machine) (c : Cluster) (f : Flags) (s : Shell) :
    Ends (Cleaned c f s) (clean m c f) (fun _ t => Cleaned c f s t ∧ ∀ q, Declined c f q t)
      (fun t => Cleaned c f s t ∧ t.answers = []) := by
  rw [clean_eq]
  have hall : ∀ q, q ∈ [Question.removeHome, .removeConfig, .removeBuild] := by
    intro q
    cases q <;> simp
  intro t ht
  refine ends_bind (ends_cleanDir m .removeBuild []) (fun _ => ends_bind
    (ends_cleanDir m .removeConfig [.removeBuild]) fun _ => ?_) t ⟨ht, by simp⟩
  intro u hu
  have hlast := ends_cleanDir m .removeHome [.removeConfig, .removeBuild] u hu
  rcases hrun : (whenever f.hasDeploy (cleanDir m .removeHome c.clusterHomeDir)).run u with
    ⟨_ | _, v⟩
  · simpa [Flags.asks, Cluster.questioned, hrun] using hlast
  · have hlast : Cleaned c f s v ∧ ∀ q' ∈ [Question.removeHome, .removeConfig, .removeBuild],
        Declined c f q' v := by
      simpa [Flags.asks, Cluster.questioned, hrun] using hlast
    exact ⟨hlast.1, fun q => hlast.2 q (hall q)⟩

end Clean

end RedisCluster
