import RedisCluster.Tool.Steps

/-!
# The `sed` chains

* `sedScript_of_plain`, `sedScript_escapeSlashes`: a value without the characters
  that mean something to `sed`, and a path whose slashes are escaped, are put in
  as they are.
* `runStages_eq`: a chain of such stages rewrites each line by a chain of
  replacements.
* `confStages_chain`: the chain of an instance conf.
-/

namespace RedisCluster

open Substitution

/-! ## Scripts -/

theorem scanReplacement_cons {mk : Text} {c : Char} (hc : c ≠ '\\' ∧ c ≠ '/' ∧ c ≠ '\n' ∧ c ≠ '&')
    (s : Text) : scanReplacement mk (c :: s) =
      (scanReplacement mk s).map fun r => (r.1.map (c :: ·), r.2) := by
  rw [scanReplacement.eq_def]
  split
  · next h => cases h
  · next h => exact absurd (List.cons.inj h).1 hc.1
  · next h => exact absurd (List.cons.inj h).1 hc.1
  · next h =>
    obtain ⟨rfl, rfl⟩ := List.cons.inj h
    simp [hc.2]

theorem scanReplacement_slash (mk s : Text) : scanReplacement mk ('/' :: s) = some (some [], s) := by
  rw [scanReplacement.eq_def]
  simp

theorem scanReplacement_plain {mk v : Text} (h : PlainValue v) (s : Text) :
    scanReplacement mk (v ++ '/' :: s) = some (some v, s) := by
  induction v with
  | nil => exact scanReplacement_slash mk s
  | cons c v ih =>
    obtain ⟨h1, h2, h3, h4⟩ := h
    simp only [List.mem_cons, not_or] at h1 h2 h3 h4
    rw [List.cons_append, scanReplacement_cons ⟨Ne.symm h3.1, Ne.symm h1.1, Ne.symm h4.1,
      Ne.symm h2.1⟩, ih ⟨h1.2, h2.2, h3.2, h4.2⟩]
    rfl

/-- A plain value is put in as it is. -/
theorem sedScript_of_plain {mk v : Text} (h : PlainValue v) : sedScript mk v = .replace v := by
  simp [sedScript, scanReplacement_plain h ['g']]

theorem scanReplacement_escapeSlashes {mk v : Text} (h : '&' ∉ v ∧ '\\' ∉ v ∧ '\n' ∉ v) (s : Text) :
    scanReplacement mk (escapeSlashes v ++ '/' :: s) = some (some v, s) := by
  induction v with
  | nil => exact scanReplacement_slash mk s
  | cons c v ih =>
    obtain ⟨h2, h3, h4⟩ := h
    simp only [List.mem_cons, not_or] at h2 h3 h4
    have ih := ih ⟨h2.2, h3.2, h4.2⟩
    by_cases hc : c = '/'
    · subst hc
      have hesc : escapeSlashes ('/' :: v) ++ '/' :: s = '\\' :: '/' :: (escapeSlashes v ++ '/' :: s) := by
        simp [escapeSlashes]
      rw [hesc, scanReplacement.eq_def]
      simp [ih]
    · have hesc : escapeSlashes (c :: v) ++ '/' :: s = c :: (escapeSlashes v ++ '/' :: s) := by
        simp [escapeSlashes, hc]
      rw [hesc, scanReplacement_cons ⟨Ne.symm h3.1, hc, Ne.symm h4.1, Ne.symm h2.1⟩, ih]
      rfl

/-- A path is put in as it is, once its slashes are escaped. -/
theorem sedScript_escapeSlashes {mk v : Text} (h : '&' ∉ v ∧ '\\' ∉ v ∧ '\n' ∉ v) :
    sedScript mk (escapeSlashes v) = .replace v := by
  simp [sedScript, scanReplacement_escapeSlashes h ['g']]

theorem commandSubst_escapeSlashes {v : Text} (h : '\n' ∉ v) :
    commandSubst (escapeSlashes v) = escapeSlashes v := by
  apply commandSubst_eq_self
  simp only [escapeSlashes, List.mem_flatMap, not_exists, not_and]
  intro c hc
  split
  · decide
  · simpa using fun he : '\n' = c => h (he ▸ hc)

/-! ## Chains -/

/-- The stage replaces its placeholder by `rep`. -/
def Stage.Replaces (s : Stage) (nv : Placeholder × Text) : Prop :=
  s.name = nv.1 ∧ ∃ v, s.value = some v ∧ sedScript (braces.mark s.name) v = .replace nv.2

theorem sub_replaces {n : Placeholder} {v : Text} (h : PlainValue v) : (sub n v).Replaces (n, v) :=
  ⟨rfl, v, rfl, sedScript_of_plain h⟩

theorem Stage.Replaces.run_eq {s : Stage} {nv : Placeholder × Text} (h : s.Replaces nv)
    (m : Machine) (input : Text) :
    s.run m input = some (mapLines (replaceAll (braces.mark nv.1) nv.2) input) := by
  obtain ⟨hname, v, hv, hscript⟩ := h
  rw [hname] at hscript
  simp [Stage.run, hv, sed, hname, hscript]

theorem newline_not_mem_replaceAll {n : Placeholder} {v l : Text} (hv : '\n' ∉ v) (hl : '\n' ∉ l) :
    '\n' ∉ replaceAll (braces.mark n) v l := by
  intro hm
  rcases mem_of_mem_replaceAll (braces.mark_ne_nil n) hm with h | h
  · exact hl h
  · exact hv h

theorem newline_not_mem_replaceChain {nvs : List (Placeholder × Text)}
    (h : ∀ nv ∈ nvs, '\n' ∉ nv.2) {l : Text} (hl : '\n' ∉ l) :
    '\n' ∉ replaceChain braces nvs l := by
  induction nvs generalizing l with
  | nil => exact hl
  | cons nv nvs ih =>
    exact ih (fun x hx => h x (by simp [hx])) (newline_not_mem_replaceAll (h nv (by simp)) hl)

/-- **A chain of replacing stages** succeeds, and rewrites each line by the chain of
    replacements. -/
theorem runStages_eq (m : Machine) {ss : List Stage} {nvs : List (Placeholder × Text)}
    (h : List.Forall₂ Stage.Replaces ss nvs) (hnl : ∀ nv ∈ nvs, '\n' ∉ nv.2) (input : Text) :
    runStages m ss input = (ss.map fun _ => true, mapLines (replaceChain braces nvs) input) := by
  induction h generalizing input with
  | nil => exact Prod.ext rfl (mapLines_id input).symm
  | @cons s nv ss nvs hs _ ih =>
    have hcompose := mapLines_mapLines (f := replaceAll (braces.mark nv.1) nv.2)
      (g := replaceChain braces nvs) (t := input)
      fun l hl => newline_not_mem_replaceAll (hnl nv (by simp)) (newline_not_mem_of_mem_lines hl)
    rw [runStages, hs.run_eq m input]
    simp only [ih fun x hx => hnl x (by simp [hx])]
    exact Prod.ext rfl hcompose

theorem runStages_append (m : Machine) (ss ss' : List Stage) (input : Text) :
    (runStages m (ss ++ ss') input).2 = (runStages m ss' (runStages m ss input).2).2 := by
  induction ss generalizing input with
  | nil => rfl
  | cons s ss ih =>
    rw [List.cons_append, runStages, runStages]
    cases s.run m input with
    | none => exact ih []
    | some out => exact ih out

/-- The lines that such a chain prints. -/
theorem lines_replaceChain {nvs : List (Placeholder × Text)} (hnl : ∀ nv ∈ nvs, '\n' ∉ nv.2)
    (input : Text) : lines (mapLines (replaceChain braces nvs) input) =
      (lines input).map (replaceChain braces nvs) :=
  lines_mapLines fun _ hl => newline_not_mem_replaceChain hnl (newline_not_mem_of_mem_lines hl)

/-! ## The chain of an instance conf -/

/-- The settings of an instance conf, the home directory and the password aside. -/
def confSettings (c : Cluster) (i : Instance) : List Text :=
  [c.clusterid, i.nodeid, c.ini.rdbDirName, i.host, i.port, i.addrstr]

/-- The settings mean nothing to `sed`; the home directory may have slashes, which
    `config()` escapes. -/
def PlainSettings (c : Cluster) (i : Instance) : Prop :=
  ('&' ∉ c.clusterHomeText ∧ '\\' ∉ c.clusterHomeText ∧ '\n' ∉ c.clusterHomeText) ∧
    ∀ v ∈ confSettings c i, PlainValue v

/-- The values of the nine placeholders that the chain without TLS substitutes, when
    the password is put in as `pass`. -/
def confValues (c : Cluster) (i : Instance) (pass : Text) : List (Placeholder × Text) :=
  [(.clusterHomeDir, c.clusterHomeText), (.clusterid, c.clusterid), (.nodeid, i.nodeid),
    (.rdbDir, c.ini.rdbDirName), (.host, i.host), (.port, i.port), (.addrs, i.addrstr),
    (.password, pass), (.tlsHashtag, c.hashTag)]

theorem plainValue_hashTag (c : Cluster) : PlainValue c.hashTag := by
  unfold Cluster.hashTag
  split <;> decide

/-- The nine stages replace the nine placeholders by their values. -/
theorem confStages_chain {c : Cluster} {i : Instance} (h : PlainSettings c i) {pass : Text}
    (hpass : sedScript (braces.mark .password) i.redisAuthPass = .replace pass) :
    List.Forall₂ Stage.Replaces (confStages c i) (confValues c i pass) := by
  obtain ⟨hhome, hsettings⟩ := h
  have home : (sub .clusterHomeDir c.redisClusterHome).Replaces
      (.clusterHomeDir, c.clusterHomeText) := by
    refine ⟨rfl, _, rfl, ?_⟩
    rw [Cluster.redisClusterHome, commandSubst_escapeSlashes hhome.2.2]
    exact sedScript_escapeSlashes hhome
  have plain : ∀ {n : Placeholder} {v : Text}, v ∈ confSettings c i → (sub n v).Replaces (n, v) :=
    fun hv => sub_replaces (hsettings _ hv)
  refine .cons home (.cons (plain ?_) (.cons (plain ?_) (.cons (plain ?_) (.cons (plain ?_)
    (.cons (plain ?_) (.cons (plain ?_) (.cons ⟨rfl, _, rfl, hpass⟩
      (.cons (sub_replaces (plainValue_hashTag c)) .nil))))))))
  all_goals simp [confSettings]

theorem newline_not_mem_confValues {c : Cluster} {i : Instance} (h : PlainSettings c i)
    {pass : Text} (hpass : '\n' ∉ pass) : ∀ nv ∈ confValues c i pass, '\n' ∉ nv.2 := by
  have hs := h.2
  simp only [confSettings, List.mem_cons, List.not_mem_nil, or_false, forall_eq_or_imp,
    forall_eq] at hs
  simp only [confValues, List.mem_cons, List.not_mem_nil, or_false, forall_eq_or_imp, forall_eq]
  exact ⟨h.1.2.2, hs.1.2.2.2, hs.2.1.2.2.2, hs.2.2.1.2.2.2, hs.2.2.2.1.2.2.2, hs.2.2.2.2.1.2.2.2,
    hs.2.2.2.2.2.2.2.2, hpass, (plainValue_hashTag c).2.2.2⟩

/-- **The instance conf without TLS**: with plain settings, and a password that `sed`
    puts in as `pass`, every line of the template is rewritten by the chain of the
    nine replacements. -/
theorem confPipeline_output (m : Machine) {c : Cluster} {conf t pass : Text} {i : Instance}
    (h : PlainSettings c i) (ht : c.inputs.confFile conf = some t)
    (hpass : sedScript (braces.mark .password) i.redisAuthPass = .replace pass)
    (hnl : '\n' ∉ pass) :
    (confPipeline c conf i none).output m = mapLines (replaceChain braces (confValues c i pass)) t := by
  rw [Pipeline.output]
  simp only [confPipeline, ht, Option.getD_some]
  rw [runStages_eq m (confStages_chain h hpass) (newline_not_mem_confValues h hnl)]

/-- A command that writes an instance conf without TLS, if it writes one at all. -/
def WritesPlainConf (m : Machine) (c : Cluster) (cm : Cmd) : Prop :=
  ∀ p dest, cm = .pipeline p dest → p.kind = .instanceConf →
    ∃ n port pass, IsNode m c n ∧ port ∈ n.ports ∧ c.redisAuthPass = some pass ∧
      p = confPipeline c n.conf (n.instance pass port) none ∧ dest = c.nodeConfFile n.nodeid port

/-- The pipelines of the instance confs in a run of `config()`. -/
theorem config_writesPlainConf (m : Machine) (c : Cluster) {s : Shell} {evs : List Event}
    (htrace : ((config m c).run s).2.trace = s.trace ++ evs) {cwd : Path} {cm : Cmd} {ok : Bool} (hev : .ran cwd cm ok ∈ evs) : WritesPlainConf m c cm := by
  refine Extends.of_trace ((built_config m c).extends_trace (G := fun _ cm _ => WritesPlainConf m c cm)
    ?_ s) htrace hev
  rintro a (ha | rfl) cm hcm cwd ok p dest rfl hkind
  · cases ha with
    | conf h hp hpass =>
      obtain ⟨rfl, rfl⟩ := Cmd.pipeline.inj hcm
      exact ⟨_, _, _, h, hp, hpass, rfl, rfl⟩
    | start h | shutdown h | connect h | env | create =>
      obtain ⟨rfl, -⟩ := Cmd.pipeline.inj hcm
      cases hkind
    | _ => cases hcm
  · cases hcm

end RedisCluster
