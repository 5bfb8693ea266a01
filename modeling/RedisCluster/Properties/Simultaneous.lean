import RedisCluster.Tool.Chain

/-!
# The chains as simultaneous substitutions

The `sed`s of a chain rewrite each other's output. On a template whose braces are those of
the placeholders, and with values without braces, no `sed` makes or spoils a placeholder
of another.

* `mapLines_replaceChain_flatten`: a chain of replacements, line by line, is one
  substitution.
* `confPipeline_render`: what the two chains of `config()` put out, whatever the order of
  their stages.
-/

namespace RedisCluster

open Substitution

theorem newline_not_mem_mark (p : Placeholder) : '\n' ∉ braces.mark p := by
  cases p <;> decide

theorem newline_not_mem_flatten {ts : List (Token Placeholder Char)} (h : Token.lit '\n' ∉ ts) :
    '\n' ∉ flatten braces ts := by
  induction ts with
  | nil => simp
  | cons t ts ih =>
    rw [List.mem_cons, not_or] at h
    cases t with
    | lit a =>
      rw [flatten_lit, List.mem_cons, not_or]
      exact ⟨fun ha => h.1 (ha ▸ rfl), ih h.2⟩
    | hole n =>
      rw [flatten_hole, List.mem_append, not_or]
      exact ⟨newline_not_mem_mark n, ih h.2⟩

/-- A chain of replacements, line by line, is one substitution in the whole text. -/
theorem mapLines_replaceChain_flatten {nvs : List (Placeholder × Text)}
    (hopen : ∀ nv ∈ nvs, braces.opener ∉ nv.2) {ts : List (Token Placeholder Char)}
    (hts : LitsOk braces ts) :
    mapLines (replaceChain braces nvs) (flatten braces ts) = render braces (valueOf nvs) ts := by
  induction hn : ts.length using Nat.strong_induction_on generalizing ts with
  | _ n ih =>
    by_cases hnl : Token.lit '\n' ∈ ts
    · obtain ⟨us, vs, rfl, hus⟩ := List.eq_append_cons_of_mem hnl
      have hu : LitsOk braces us := fun hm => hts (by simp [hm])
      have hv : LitsOk braces vs := fun hm => hts (by simp [hm])
      have hlen : vs.length < n := by
        rw [← hn, List.length_append, List.length_cons]
        omega
      rw [flatten_append, flatten_lit, mapLines_append_newline _ (newline_not_mem_flatten hus),
        replaceChain_flatten hu hopen, ih vs.length hlen hv rfl, render_append, render_lit]
    · rw [mapLines, lines_eq_singleton (newline_not_mem_flatten hnl), List.map_singleton,
        replaceChain_flatten hts hopen]
      simp


/-! ## The two chains -/

/-- A value that means nothing to `sed` and has no braces; a path may have slashes. -/
structure PlainPath (v : Text) : Prop where
  noOpen : '{' ∉ v
  noClose : '}' ∉ v
  noAmpersand : '&' ∉ v
  noBackslash : '\\' ∉ v
  noNewline : '\n' ∉ v

/-- Any other value has no slashes either. -/
structure PlainSetting (v : Text) : Prop extends PlainPath v where
  noSlash : '/' ∉ v

instance (v : Text) : Decidable (PlainPath v) :=
  decidable_of_iff ('{' ∉ v ∧ '}' ∉ v ∧ '&' ∉ v ∧ '\\' ∉ v ∧ '\n' ∉ v)
    ⟨fun ⟨h1, h2, h3, h4, h5⟩ => ⟨h1, h2, h3, h4, h5⟩,
      fun h => ⟨h.noOpen, h.noClose, h.noAmpersand, h.noBackslash, h.noNewline⟩⟩

instance (v : Text) : Decidable (PlainSetting v) :=
  decidable_of_iff (PlainPath v ∧ '/' ∉ v)
    ⟨fun h => ⟨h.1, h.2⟩, fun h => ⟨h.toPlainPath, h.noSlash⟩⟩

theorem PlainSetting.plainValue {v : Text} (h : PlainSetting v) : PlainValue v :=
  ⟨h.noSlash, h.noAmpersand, h.noBackslash, h.noNewline⟩

/-- The paths of a node's certificate, key and DH file. -/
structure TlsPaths where
  certFile : Text
  keyFile : Text
  dhFile : Text

/-- Lines 340–342. -/
def TlsPaths.settings (t : TlsPaths) (tlsports : List Text) : TlsSettings where
  tlsports := tlsports
  certFile := commandSubst (escapeSlashes t.certFile)
  keyFile := commandSubst (escapeSlashes t.keyFile)
  dhFile := commandSubst (escapeSlashes t.dhFile)

/-- The values of the six placeholders that only the TLS chain substitutes. -/
def tlsConfValues (c : Cluster) (t : TlsPaths) (tlsport : Text) : List (Placeholder × Text) :=
  [(.tlsPort, tlsport), (.tlsCertfile, t.certFile), (.tlsKeyfile, t.keyFile),
    (.tlsDhfile, t.dhFile), (.tlsCacert, c.ini.tlsCacert), (.tlsCacertdir, c.tlsCacertText)]

/-- A template whose braces are those of the fifteen placeholders. -/
structure TemplateTokens (ts : List (Token Placeholder Char)) : Prop where
  noOpen : Token.lit '{' ∉ ts
  noClose : Token.lit '}' ∉ ts
  known : ∀ n, Token.hole n ∈ ts → n ∈ confPlaceholders

/-- The values of an instance are plain. -/
structure PlainInstance (c : Cluster) (i : Instance) : Prop where
  home : PlainPath c.clusterHomeText
  password : PlainSetting i.redisAuthPass
  settings : ∀ v ∈ confSettings c i, PlainSetting v

/-- The values of the TLS chain are plain. -/
structure PlainTls (c : Cluster) (t : TlsPaths) (tlsport : Text) : Prop where
  port : PlainSetting tlsport
  cacert : PlainSetting c.ini.tlsCacert
  certFile : PlainPath t.certFile
  keyFile : PlainPath t.keyFile
  dhFile : PlainPath t.dhFile
  cacertdir : PlainPath c.tlsCacertText

/-- A path is put in as it is, once `config()` has escaped it. -/
theorem sub_replaces_path {n : Placeholder} {v : Text} (h : PlainPath v) :
    (sub n (commandSubst (escapeSlashes v))).Replaces (n, v) := by
  refine ⟨rfl, _, rfl, ?_⟩
  rw [commandSubst_escapeSlashes h.noNewline]
  exact sedScript_escapeSlashes ⟨h.noAmpersand, h.noBackslash, h.noNewline⟩

theorem confStages_replaces {c : Cluster} {i : Instance} (h : PlainInstance c i) :
    List.Forall₂ Stage.Replaces (confStages c i) (confValues c i i.redisAuthPass) :=
  confStages_chain
    ⟨⟨h.home.noAmpersand, h.home.noBackslash, h.home.noNewline⟩,
      fun v hv => (h.settings v hv).plainValue⟩
    (sedScript_of_plain h.password.plainValue)

theorem tlsConfStages_replaces {c : Cluster} {t : TlsPaths} {tlsport : Text}
    (h : PlainTls c t tlsport) (tlsports : List Text) :
    List.Forall₂ Stage.Replaces (tlsConfStages c (t.settings tlsports) tlsport)
      (tlsConfValues c t tlsport) :=
  .cons (sub_replaces h.port.plainValue) (.cons (sub_replaces_path h.certFile)
    (.cons (sub_replaces_path h.keyFile) (.cons (sub_replaces_path h.dhFile)
      (.cons (sub_replaces h.cacert.plainValue) (.cons (sub_replaces_path h.cacertdir) .nil)))))

theorem plainPath_hashTag (c : Cluster) : PlainPath c.hashTag := by
  unfold Cluster.hashTag
  split <;> constructor <;> decide

theorem plainPath_confValues {c : Cluster} {i : Instance} (h : PlainInstance c i) :
    ∀ nv ∈ confValues c i i.redisAuthPass, PlainPath nv.2 := by
  have hs := fun v hv => (h.settings v hv).toPlainPath
  simp only [confSettings, List.mem_cons, List.not_mem_nil, or_false, forall_eq_or_imp,
    forall_eq] at hs
  simp only [confValues, List.mem_cons, List.not_mem_nil, or_false, forall_eq_or_imp, forall_eq]
  exact ⟨h.home, hs.1, hs.2.1, hs.2.2.1, hs.2.2.2.1, hs.2.2.2.2.1, hs.2.2.2.2.2,
    h.password.toPlainPath, plainPath_hashTag c⟩

theorem plainPath_tlsConfValues {c : Cluster} {t : TlsPaths} {tlsport : Text}
    (h : PlainTls c t tlsport) : ∀ nv ∈ tlsConfValues c t tlsport, PlainPath nv.2 := by
  simp only [tlsConfValues, List.mem_cons, List.not_mem_nil, or_false, forall_eq_or_imp, forall_eq]
  exact ⟨h.port.toPlainPath, h.certFile, h.keyFile, h.dhFile, h.cacert.toPlainPath, h.cacertdir⟩

/-- **A chain of `sed`s is a simultaneous substitution**, in whatever order its stages
    stand. -/
theorem runStages_render (m : Machine) {ss ss' : List Stage} {nvs : List (Placeholder × Text)}
    (hss : List.Forall₂ Stage.Replaces ss nvs) (hperm : ss'.Perm ss)
    (hplain : ∀ nv ∈ nvs, PlainPath nv.2) (hnodup : (nvs.map Prod.fst).Nodup)
    {ts : List (Token Placeholder Char)} (hts : Token.lit '{' ∉ ts) :
    (runStages m ss' (flatten braces ts)).2 = render braces (valueOf nvs) ts := by
  obtain ⟨nvs', hss', hperm'⟩ := List.perm_comp_forall₂ hperm hss
  have hplain' : ∀ nv ∈ nvs', PlainPath nv.2 := fun nv hnv => hplain nv (hperm'.mem_iff.mp hnv)
  rw [runStages_eq m hss' fun nv hnv => (hplain' nv hnv).noNewline,
    mapLines_replaceChain_flatten (fun nv hnv => (hplain' nv hnv).noOpen) hts,
    valueOf_perm hperm'.symm hnodup]

/-- **Both chains of an instance conf** put out the template with each placeholder that
    they handle replaced by its value, and the order of their stages does not matter. -/
theorem confPipeline_render (m : Machine) {c : Cluster} {conf : Text} {i : Instance}
    {ts : List (Token Placeholder Char)} (hts : TemplateTokens ts)
    (hsource : c.inputs.confFile conf = some (flatten braces ts)) (hi : PlainInstance c i) :
    (confPipeline c conf i none).output m =
        render braces (valueOf (confValues c i i.redisAuthPass)) ts ∧
      (∀ ss, ss.Perm (confStages c i) → (runStages m ss (flatten braces ts)).2 =
        (confPipeline c conf i none).output m) ∧
      ∀ (t : TlsPaths) (tlsports : List Text) (tlsport : Text), PlainTls c t tlsport →
        (confPipeline c conf i (some (t.settings tlsports, tlsport))).output m =
          render braces
            (valueOf (confValues c i i.redisAuthPass ++ tlsConfValues c t tlsport)) ts ∧
        ∀ ss, ss.Perm (confStages c i ++ tlsConfStages c (t.settings tlsports) tlsport) →
          (runStages m ss (flatten braces ts)).2 =
            (confPipeline c conf i (some (t.settings tlsports, tlsport))).output m := by
  have hnames : ((confValues c i i.redisAuthPass).map Prod.fst).Nodup := by
    simp [confValues]
  have hplain : ∀ ss, ss.Perm (confStages c i) → (runStages m ss (flatten braces ts)).2 =
      render braces (valueOf (confValues c i i.redisAuthPass)) ts := fun ss hss =>
    runStages_render m (confStages_replaces hi) hss (plainPath_confValues hi) hnames hts.noOpen
  have houtput : (confPipeline c conf i none).output m =
      render braces (valueOf (confValues c i i.redisAuthPass)) ts := by
    rw [← hplain _ (List.Perm.refl _), Pipeline.output]
    simp only [confPipeline, hsource, Option.getD_some]
  refine ⟨houtput, fun ss hss => by rw [hplain ss hss, houtput], fun t tlsports tlsport ht => ?_⟩
  have htlsnames : ((confValues c i i.redisAuthPass ++ tlsConfValues c t tlsport).map
      Prod.fst).Nodup := by
    simp [confValues, tlsConfValues]
  have htls : ∀ ss, ss.Perm (confStages c i ++ tlsConfStages c (t.settings tlsports) tlsport) →
      (runStages m ss (flatten braces ts)).2 =
        render braces (valueOf (confValues c i i.redisAuthPass ++ tlsConfValues c t tlsport)) ts := by
    intro ss hss
    refine runStages_render m
      (List.rel_append (confStages_replaces hi) (tlsConfStages_replaces ht tlsports)) hss
      (fun nv hnv => ?_) htlsnames hts.noOpen
    rcases List.mem_append.mp hnv with hnv | hnv
    · exact plainPath_confValues hi nv hnv
    · exact plainPath_tlsConfValues ht nv hnv
  have htlsoutput : (confPipeline c conf i (some (t.settings tlsports, tlsport))).output m =
      render braces (valueOf (confValues c i i.redisAuthPass ++ tlsConfValues c t tlsport)) ts := by
    rw [← htls _ (List.Perm.refl _), Pipeline.output]
    simp only [confPipeline, hsource, Option.getD_some]
  exact ⟨htlsoutput, fun ss hss => by rw [htls ss hss, htlsoutput]⟩

/-- A template with two placeholders side by side. -/
def adjacentTokens : List (Token Placeholder Char) :=
  [.hole .tlsHashtag, .lit 'p', .hole .nodeid, .hole .port, .lit '\n', .hole .tlsCertfile]

def adjacentCluster : Cluster :=
  demoCluster demoIni (demoInputs demoIni demoNodesCfg (flatten braces adjacentTokens) [] [])

theorem confPipeline_render_adjacent :
    (confPipeline adjacentCluster "c0".toList demoInstance none).output plainHost =
      render braces (valueOf (confValues adjacentCluster demoInstance "s".toList)) adjacentTokens :=
  (confPipeline_render plainHost (i := demoInstance)
    ⟨by decide +kernel, by decide +kernel, by
      intro n hn
      simp only [adjacentTokens, List.mem_cons, Token.hole.injEq, reduceCtorEq, List.not_mem_nil,
        or_false, false_or] at hn
      rcases hn with rfl | rfl | rfl | rfl <;> decide⟩
    (by decide +kernel)
    { home := by decide +kernel
      password := by decide +kernel
      settings := by decide +kernel }).1

end RedisCluster
