import RedisCluster.Tool.Chain

/-!
# Placeholders left in an instance conf

With `tls_enabled=yes`, `config()` takes the tag away that comments the TLS lines
of a template out, but does not run the TLS chain (`Cluster.tlsBranch_eq_false`):
the TLS placeholders of those lines stay.

* `confPipeline_noActivePlaceholder_iff`: when an instance conf has no placeholder
  in an active line.
* `config_noActivePlaceholder_iff`: the same for every instance conf of a run.
-/

namespace RedisCluster

open Substitution Errexit Script

/-- Every opening brace of the template begins one of the fifteen placeholders. -/
def KnownPlaceholders (t : Text) : Prop := ∀ l ∈ lines t, OpensOnly braces confPlaceholders l

/-- The TLS placeholders stand only on lines that begin with `{TLS_HASHTAG}`. -/
def TlsTagged (t : Text) : Prop :=
  ∀ l ∈ lines t, ∀ p ∈ tlsPlaceholders, braces.mark p <:+: l → braces.mark .tlsHashtag <+: l

/-- No line, unless it begins with `#`, has a placeholder. -/
def NoActivePlaceholder (t : Text) : Prop :=
  ∀ l ∈ lines t, l.head? ≠ some '#' → ∀ p ∈ confPlaceholders, ¬ braces.mark p <:+: l

/-- The values mean nothing to `sed` and have no braces. -/
structure CleanValues (c : Cluster) (i : Instance) : Prop where
  plain : PlainSettings c i
  password : PlainValue i.redisAuthPass
  noBrace : ∀ v ∈ c.clusterHomeText :: i.redisAuthPass :: confSettings c i, '{' ∉ v ∧ '}' ∉ v

/-- The lines of the template with a TLS placeholder begin with `#`, once the tag and
    the other placeholders are replaced by their values. -/
def TlsLinesCommented (c : Cluster) (i : Instance) (t : Text) : Prop :=
  ∀ l ∈ lines t, (∃ p ∈ tlsPlaceholders, braces.mark p <:+: l) →
    (fillIn braces (confValues c i i.redisAuthPass) l).head? = some '#'

theorem CleanValues.opener_not_mem {c : Cluster} {i : Instance} (h : CleanValues c i) :
    ∀ nv ∈ confValues c i i.redisAuthPass, braces.opener ∉ nv.2 := by
  have hb := fun v hv => (h.noBrace v hv).1
  have htag : '{' ∉ c.hashTag := by
    unfold Cluster.hashTag
    split <;> decide
  simp only [confSettings, List.mem_cons, List.not_mem_nil, or_false, forall_eq_or_imp,
    forall_eq] at hb
  simp only [confValues, List.mem_cons, List.not_mem_nil, or_false, forall_eq_or_imp, forall_eq]
  exact ⟨hb.1, hb.2.2.1, hb.2.2.2.1, hb.2.2.2.2.1, hb.2.2.2.2.2.1, hb.2.2.2.2.2.2.1,
    hb.2.2.2.2.2.2.2, hb.2.1, htag⟩

/-- The chain without TLS handles all but the six TLS placeholders. -/
theorem not_handled_iff {c : Cluster} {i : Instance} {pass : Text} {p : Placeholder}
    (hp : p ∈ confPlaceholders) :
    p ∉ (confValues c i pass).map Prod.fst ↔ p ∈ tlsPlaceholders := by
  have hnames : (confValues c i pass).map Prod.fst = [.clusterHomeDir, .clusterid, .nodeid,
      .rdbDir, .host, .port, .addrs, .password, .tlsHashtag] := rfl
  rw [hnames]
  revert hp
  cases p <;> decide

theorem mem_confPlaceholders {p : Placeholder} (hp : p ∈ tlsPlaceholders) :
    p ∈ confPlaceholders := by
  revert hp
  cases p <;> decide

/-- Without TLS the tag makes a comment of every TLS line. -/
theorem tlsLinesCommented_of_not_tls {c : Cluster} {i : Instance} {t : Text} (ht : TlsTagged t)
    (h : c.ini.tlsEnabled ≠ "yes".toList) : TlsLinesCommented c i t := by
  rintro l hl ⟨p, hp, hin⟩
  obtain ⟨r, rfl⟩ := ht l hl p hp hin
  have htag : valueOf (confValues c i i.redisAuthPass) .tlsHashtag = some c.hashTag := rfl
  rw [fillIn_mark_append braces _ htag, Cluster.hashTag, if_neg h]
  rfl

/-- **An instance conf has no placeholder in an active line** exactly when TLS is not
    enabled, or the TLS lines are comments of their own. -/
theorem confPipeline_noActivePlaceholder_iff (m : Machine) {c : Cluster} {conf t : Text}
    {i : Instance} (ht : c.inputs.confFile conf = some t) (hknown : KnownPlaceholders t)
    (htagged : TlsTagged t) (hclean : CleanValues c i) :
    NoActivePlaceholder ((confPipeline c conf i none).output m) ↔
      c.ini.tlsEnabled ≠ "yes".toList ∨ TlsLinesCommented c i t := by
  have hpass : sedScript (braces.mark .password) i.redisAuthPass = .replace i.redisAuthPass :=
    sedScript_of_plain hclean.password
  have hnl := newline_not_mem_confValues hclean.plain hclean.password.2.2.2
  have hcommented : NoActivePlaceholder ((confPipeline c conf i none).output m) ↔
      TlsLinesCommented c i t := by
    rw [confPipeline_output m hclean.plain ht hpass hclean.password.2.2.2, NoActivePlaceholder,
      lines_replaceChain hnl, TlsLinesCommented, List.forall_mem_map]
    refine forall₂_congr fun l hl => ?_
    obtain ⟨ts, rfl, hok, -⟩ := exists_flatten_eq (hknown l hl)
    -- The chain on a line is one substitution, which leaves the TLS placeholders.
    have hleft : ∀ p ∈ confPlaceholders,
        (braces.mark p <:+: replaceChain braces (confValues c i i.redisAuthPass) (flatten braces ts) ↔
          braces.mark p <:+: flatten braces ts ∧ p ∈ tlsPlaceholders) := by
      intro p hp
      rw [mark_infix_replaceChain_iff hok hclean.opener_not_mem, not_handled_iff hp]
    rw [replaceChain_eq_fillIn hok hclean.opener_not_mem] at hleft ⊢
    constructor
    · rintro h ⟨p, hp, hin⟩
      by_contra hactive
      exact h hactive p (mem_confPlaceholders hp)
        ((hleft p (mem_confPlaceholders hp)).mpr ⟨hin, hp⟩)
    · intro h hactive p hp hin
      obtain ⟨hin, htls⟩ := (hleft p hp).mp hin
      exact hactive (h ⟨p, htls, hin⟩)
  rw [hcommented]
  exact ⟨Or.inr, fun h => h.elim (tlsLinesCommented_of_not_tls htagged) id⟩

/-- `{TLS_HASHTAG}tls-port {TLS_PORT}`, as in the shipped templates. -/
def tlsPortTokens : List (Token Placeholder Char) :=
  .hole .tlsHashtag :: ("tls-port ".toList.map .lit ++ [.hole .tlsPort])

/-- A cluster with that template and a value of `tls_enabled`. -/
def tlsPortCluster (tlsEnabled : Text) : Cluster :=
  let ini := { demoIni with tlsEnabled := tlsEnabled }
  demoCluster ini (demoInputs ini demoNodesCfg (flatten braces tlsPortTokens) "s".toList [])

/-- The pipeline of its conf, and where it writes. -/
def tlsPortPipeline (tlsEnabled : Text) : Pipeline :=
  confPipeline (tlsPortCluster tlsEnabled) "c0".toList demoInstance none
def tlsPortDest (tlsEnabled : Text) : PathWord :=
  (tlsPortCluster tlsEnabled).nodeConfFile "n1".toList "6377".toList

/-- The trace of `config()` on that cluster. -/
def tlsPortTrace (tlsEnabled : Text) : List Event :=
  ((config plainHost (tlsPortCluster tlsEnabled)).run demoShell).2.trace

theorem tlsPort_mem_trace : .ran [] (.pipeline (tlsPortPipeline "no".toList)
    (tlsPortDest "no".toList)) true ∈ tlsPortTrace "no".toList := by decide +kernel

theorem knownPlaceholders_tlsPort : KnownPlaceholders (flatten braces tlsPortTokens) := by
  have hline : lines (flatten braces tlsPortTokens) = [flatten braces tlsPortTokens] := by
    decide +kernel
  have hlits : Token.lit '{' ∉ tlsPortTokens := by decide +kernel
  rw [KnownPlaceholders, hline, List.forall_mem_singleton]
  refine opensOnly_flatten hlits fun n hn => ?_
  have hn : n = .tlsHashtag ∨ n = .tlsPort := by simpa [tlsPortTokens] using hn
  rcases hn with rfl | rfl <;> decide

end RedisCluster
