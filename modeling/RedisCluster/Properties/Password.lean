import RedisCluster.Tool.Templates
import RedisCluster.Tool.Outputs

/-!
# The password of the servers and of the clients

The servers get the password from the conf, where `sed` has put it; the clients
from `CLUSTER_AUTH_PASS`, a copy of the password file.

* `Scanned`: what `sed` makes of a replacement text; every backslash and every `&`
  in it is lost (`Scanned.count_backslash`, `Scanned.count_ampersand`).
* `confPipeline_password`: which passwords arrive in an instance conf.
* `config_passwordAgrees`: the same for a completed run and the file
  `CLUSTER_AUTH_PASS` it leaves.
-/

namespace RedisCluster

open FileTree Substitution Errexit Script

/-! ## Replacement texts -/

/-- `sed` reads `p` as the replacement text `r`, in a script whose pattern matches `mark`. -/
inductive Scanned (mark : Text) : Text → Text → Prop
  | nil : Scanned mark [] []
  | escape {c : Char} {p r : Text} (h : Scanned mark p r) : Scanned mark ('\\' :: c :: p) (c :: r)
  | ampersand {p r : Text} (h : Scanned mark p r) : Scanned mark ('&' :: p) (mark ++ r)
  | plain {c : Char} {p r : Text} (hc : c ≠ '\\' ∧ c ≠ '/' ∧ c ≠ '&') (h : Scanned mark p r) :
      Scanned mark (c :: p) (c :: r)

theorem scanned_of_scanReplacement {mark s rep rest : Text}
    (h : scanReplacement mark s = some (some rep, rest)) :
    ∃ p, s = p ++ '/' :: rest ∧ Scanned mark p rep := by
  fun_induction scanReplacement mark s generalizing rep rest with
  | case1 => cases h
  | case2 => cases h
  | case3 c s ih =>
    obtain ⟨⟨r, rest'⟩, hs, he⟩ := Option.map_eq_some_iff.mp h
    obtain ⟨hr, rfl⟩ := Prod.mk.inj he
    by_cases hc : c.isAlphanum = true
    · simp [hc] at hr
    · simp only [hc, Bool.false_eq_true, if_false, Option.map_eq_some_iff] at hr
      obtain ⟨r, rfl, rfl⟩ := hr
      obtain ⟨p, rfl, hp⟩ := ih hs
      exact ⟨'\\' :: c :: p, rfl, .escape hp⟩
  | case4 =>
    cases h
    exact ⟨[], rfl, .nil⟩
  | case5 => cases h
  | case6 s _ _ _ _ ih =>
    obtain ⟨⟨r, rest'⟩, hs, he⟩ := Option.map_eq_some_iff.mp h
    obtain ⟨hr, rfl⟩ := Prod.mk.inj he
    obtain ⟨r, rfl, rfl⟩ := Option.map_eq_some_iff.mp hr
    obtain ⟨p, rfl, hp⟩ := ih hs
    exact ⟨'&' :: p, rfl, .ampersand hp⟩
  | case7 c s hlone hpair hslash _ hamp ih =>
    have hback : c ≠ '\\' := by
      intro hc
      cases s with
      | nil => exact hlone hc rfl
      | cons d s => exact hpair d s hc rfl
    obtain ⟨⟨r, rest'⟩, hs, he⟩ := Option.map_eq_some_iff.mp h
    obtain ⟨hr, rfl⟩ := Prod.mk.inj he
    obtain ⟨r, rfl, rfl⟩ := Option.map_eq_some_iff.mp hr
    obtain ⟨p, rfl, hp⟩ := ih hs
    exact ⟨c :: p, rfl, .plain ⟨hback, hslash, hamp⟩ hp⟩

/-- Backslashes are lost. -/
theorem Scanned.count_backslash {mark p r : Text} (h : Scanned mark p r) (hmark : '\\' ∉ mark) :
    r.count '\\' ≤ p.count '\\' ∧ ('\\' ∈ p → r.count '\\' < p.count '\\') := by
  induction h with
  | nil => simp
  | @escape c p r h ih =>
    have hhead : ('\\' :: c :: p).count '\\' = (c :: p).count '\\' + 1 := List.count_cons_self
    rw [hhead, List.count_cons, List.count_cons]
    omega
  | ampersand h ih =>
    rw [List.count_append, List.count_eq_zero_of_not_mem hmark, List.count_cons_of_ne (by decide)]
    simpa using ih
  | plain hc h ih =>
    rw [List.count_cons_of_ne hc.1, List.count_cons_of_ne hc.1]
    simpa [Ne.symm hc.1] using ih

/-- Where there are no backslashes, every `&` is lost. -/
theorem Scanned.count_ampersand {mark p r : Text} (h : Scanned mark p r) (hmark : '&' ∉ mark)
    (hback : '\\' ∉ p) : r.count '&' ≤ p.count '&' ∧ ('&' ∈ p → r.count '&' < p.count '&') := by
  induction h with
  | nil => simp
  | escape h ih => exact absurd (by simp) hback
  | @ampersand p r h ih =>
    have ih := ih fun hm => hback (by simp [hm])
    have hhead : ('&' :: p).count '&' = p.count '&' + 1 := List.count_cons_self
    rw [hhead, List.count_append, List.count_eq_zero_of_not_mem hmark]
    omega
  | plain hc h ih =>
    have ih := ih fun hm => hback (by simp [hm])
    rw [List.count_cons_of_ne hc.2.2, List.count_cons_of_ne hc.2.2]
    simpa [Ne.symm hc.2.2] using ih

/-- Where there is neither, the text is put in as it is; it has no slash. -/
theorem Scanned.eq_of_plain {mark p r : Text} (h : Scanned mark p r) (hback : '\\' ∉ p)
    (hamp : '&' ∉ p) : r = p ∧ '/' ∉ p := by
  induction h with
  | nil => simp
  | escape h ih => exact absurd (by simp) hback
  | ampersand h ih => exact absurd (by simp) hamp
  | plain hc h ih =>
    obtain ⟨rfl, hslash⟩ := ih (fun hm => hback (by simp [hm])) fun hm => hamp (by simp [hm])
    exact ⟨rfl, by simp [hslash, Ne.symm hc.2.1]⟩

theorem Scanned.newline_not_mem {mark p r : Text} (h : Scanned mark p r) (hmark : '\n' ∉ mark)
    (hp : '\n' ∉ p) : '\n' ∉ r := by
  induction h with
  | nil => simp
  | escape h ih =>
    simp only [List.mem_cons, not_or] at hp ⊢
    exact ⟨hp.2.1, ih hp.2.2⟩
  | ampersand h ih =>
    simp only [List.mem_cons, not_or] at hp
    simp [hmark, ih hp.2]
  | plain hc h ih =>
    simp only [List.mem_cons, not_or] at hp ⊢
    exact ⟨hp.1, ih hp.2⟩

theorem scanned_of_replace {mark p r : Text} (h : sedScript mark p = .replace r) :
    Scanned mark p r := by
  unfold sedScript at h
  split at h
  · cases h
  · next rep rest hscan =>
    split at h
    · next hrest =>
      subst hrest
      split at h
      · cases h
        obtain ⟨q, hq, hscanned⟩ := scanned_of_scanReplacement hscan
        have hpq : p = q := List.append_cancel_right hq
        exact hpq ▸ hscanned
      · cases h
    · split at h
      · cases h
      · split at h <;> cases h

/-! ## Passwords that arrive -/

/-- A password that means nothing to `sed`, has no `{TLS_HASHTAG}` in it and does not
    begin with a blank. -/
def PlainPassword (p : Text) : Prop :=
  ('/' ∉ p ∧ '&' ∉ p ∧ '\\' ∉ p) ∧ ¬ braces.mark .tlsHashtag <:+: p ∧
    p.head?.any isBlank = false

/-- `requirepass` and `masterauth` are followed by `p` in a conf. -/
def HasPassword (conf p : Text) : Prop :=
  Directive.requirepass.valuesIn conf = [p] ∧ Directive.masterauth.valuesIn conf = [p]

/-- What the conf has for the replacement text `r`. -/
def arrived (c : Cluster) (r : Text) : Text :=
  (replaceAll (braces.mark .tlsHashtag) c.hashTag r).dropWhile isBlank

theorem dropWhile_isBlank_eq_self_iff {t : Text} :
    t.dropWhile isBlank = t ↔ t.head?.any isBlank = false := by
  cases t with
  | nil => simp
  | cons a t =>
    cases ha : isBlank a
    · simp [ha]
    · simp only [List.dropWhile_cons, ha, if_true, List.head?_cons, Option.any_some]
      constructor
      · intro h
        have := (List.dropWhile_suffix isBlank (l := t)).length_le
        rw [h, List.length_cons] at this
        omega
      · simp

theorem arrived_of_plain (c : Cluster) {p : Text} (h : PlainPassword p) : arrived c p = p := by
  rw [arrived, replaceAll_eq_self (braces.mark_ne_nil _) h.2.1]
  exact dropWhile_isBlank_eq_self_iff.mpr h.2.2

/-- **Only plain passwords arrive**: each of the others loses a character. -/
theorem plainPassword_of_arrived {c : Cluster} {p r : Text}
    (hscan : Scanned (braces.mark .password) p r) (h : arrived c r = p) : PlainPassword p := by
  have hsuffix : p <:+ replaceAll (braces.mark .tlsHashtag) c.hashTag r :=
    h ▸ List.dropWhile_suffix isBlank
  have hcount : ∀ b, c.hashTag.count b ≤ (braces.mark .tlsHashtag).count b →
      p.count b ≤ r.count b := fun b hb =>
    (hsuffix.sublist.count_le b).trans (count_replaceAll_le (braces.mark_ne_nil _) b hb r)
  have htag : c.hashTag = [] ∨ c.hashTag = ['#', '!'] := by
    unfold Cluster.hashTag
    split
    · exact Or.inl rfl
    · exact Or.inr rfl
  have hback : '\\' ∉ p := by
    intro hm
    have hlost := (hscan.count_backslash (by decide)).2 hm
    have hkept := hcount '\\' (by rcases htag with h | h <;> rw [h] <;> decide)
    omega
  have hamp : '&' ∉ p := by
    intro hm
    have hlost := (hscan.count_ampersand (by decide) hback).2 hm
    have hkept := hcount '&' (by rcases htag with h | h <;> rw [h] <;> decide)
    omega
  obtain ⟨rfl, hslash⟩ := hscan.eq_of_plain hback hamp
  have hnotag : ¬ braces.mark .tlsHashtag <:+: r := by
    intro hin
    have hshort : c.hashTag.length < (braces.mark .tlsHashtag).length := by
      rcases htag with h | h <;> rw [h] <;> decide
    have hlost := length_replaceAll_lt hshort hin
    have hkept := hsuffix.length_le
    omega
  rw [arrived, replaceAll_eq_self (braces.mark_ne_nil _) hnotag] at h
  exact ⟨⟨hslash, hamp, hback⟩, hnotag, dropWhile_isBlank_eq_self_iff.mp h⟩

/-- The two directives of the shipped conf have what `sed` has put in. -/
theorem valuesIn_confPipeline (m : Machine) {c : Cluster} {conf : Text} {i : Instance}
    (ht : c.inputs.confFile conf = some confTemplate) (hset : PlainSettings c i) {r : Text}
    (hr : sedScript (braces.mark .password) i.redisAuthPass = .replace r) (hnl : '\n' ∉ r)
    {d : Directive} (hd : d = .requirepass ∨ d = .masterauth) :
    d.valuesIn ((confPipeline c conf i none).output m) = [arrived c r] := by
  have hshared : d ∈ sharedDirectives := by
    rcases hd with rfl | rfl <;> simp [sharedDirectives]
  obtain ⟨hkeyed, hrest⟩ := confTemplate_directive d (List.mem_append_left _ hshared)
  have hkey : d.key ≠ [] ∧ d.key.head? ≠ some '#' ∧ '{' ∉ d.key := by
    rcases hd with rfl | rfl <;> decide
  have hmark : d.rest = List.replicate d.blanks ' ' ++ braces.mark .password := by
    rcases hd with rfl | rfl <;> rfl
  have hblanks : '{' ∉ List.replicate d.blanks ' ' := by simp
  have hname : Placeholder.password ∉ ((confValues c i r).take 7).map Prod.fst := by
    simp [confValues]
  have hchain : replaceChain braces (confValues c i r) (braces.mark .password) =
      replaceAll (braces.mark .tlsHashtag) c.hashTag r := by
    have hsplit : confValues c i r =
        (confValues c i r).take 7 ++ (.password, r) :: [(.tlsHashtag, c.hashTag)] := rfl
    rw [hsplit]
    exact replaceChain_mark braces hname
  rw [Directive.valuesIn, confPipeline_output m hset ht hr hnl,
    rests_replaceChain hkey.1 hkey.2.1 hkey.2.2 hkeyed (tagFilled_confValues c i r)
      (newline_not_mem_confValues hset hnl), hrest, hmark, List.map_singleton, List.map_singleton,
    replaceChain_append_of_not_mem braces _ hblanks, hchain, arrived]
  refine List.singleton_inj.mpr (List.dropWhile_append_of_pos fun a ha => ?_)
  rw [List.eq_of_mem_replicate ha]
  rfl

/-- A conf from a chain with a stage that `sed` rejects is empty. -/
theorem output_of_rejected (m : Machine) {c : Cluster} {conf : Text} {i : Instance}
    (h : sedScript (braces.mark .password) i.redisAuthPass = .rejected) :
    (confPipeline c conf i none).output m = [] := by
  have hsplit : confStages c i =
      (confStages c i).take 7 ++ [sub .password i.redisAuthPass, sub .tlsHashtag c.hashTag] := rfl
  have hnone : ∀ input, (sub .password i.redisAuthPass).run m input = none := by
    intro input
    simp [Stage.run, sub, sed, h]
  have hempty : (sub .tlsHashtag c.hashTag).run m [] = some [] := by
    have hplain : sedScript (braces.mark .tlsHashtag) c.hashTag = .replace c.hashTag :=
      sedScript_of_plain (plainValue_hashTag c)
    simp [Stage.run, sub, sed, hplain, mapLines, lines]
  rw [Pipeline.output]
  simp only [confPipeline]
  rw [hsplit, runStages_append, runStages, hnone]
  simp only [runStages, hempty]

/-- **The password in an instance conf** made from the shipped template: a plain one
    arrives, and of the others none does, as far as `sed` takes them for a plain
    replacement or rejects them. -/
theorem confPipeline_password (m : Machine) {c : Cluster} {conf : Text} {i : Instance}
    (ht : c.inputs.confFile conf = some confTemplate) (hset : PlainSettings c i)
    (hline : '\n' ∉ i.redisAuthPass) :
    (PlainPassword i.redisAuthPass →
        HasPassword ((confPipeline c conf i none).output m) i.redisAuthPass) ∧
      (sedScript (braces.mark .password) i.redisAuthPass ≠ .other →
        HasPassword ((confPipeline c conf i none).output m) i.redisAuthPass →
        PlainPassword i.redisAuthPass) := by
  constructor
  · intro hplain
    have hr := @sedScript_of_plain (braces.mark .password) _
      ⟨hplain.1.1, hplain.1.2.1, hplain.1.2.2, hline⟩
    have harrived := arrived_of_plain c hplain
    constructor
    · rw [valuesIn_confPipeline m ht hset hr hline (Or.inl rfl), harrived]
    · rw [valuesIn_confPipeline m ht hset hr hline (Or.inr rfl), harrived]
  · intro hother hhas
    cases hscript : sedScript (braces.mark .password) i.redisAuthPass with
    | other => exact absurd hscript hother
    | rejected =>
      rw [output_of_rejected m hscript] at hhas
      exact absurd hhas.1 (by simp [Directive.valuesIn, rests, lines, restOf, Directive.key])
    | replace r =>
      have hscan := scanned_of_replace hscript
      have hnl : '\n' ∉ r := hscan.newline_not_mem (by decide) hline
      have hvalues := hhas.1
      rw [valuesIn_confPipeline m ht hset hscript hnl (Or.inl rfl)] at hvalues
      exact plainPassword_of_arrived hscan (List.singleton_inj.mp hvalues)

/-! ## The file of the clients -/

/-- `CLUSTERAUTHPASS=$(cat "$CLUSTERHOME/CLUSTER_AUTH_PASS")`, for the file that `config()`
    has left: what the scripts export as `REDISCLI_AUTH`. -/
def redisCliAuth (c : Cluster) (s : Shell) : Option Text :=
  (dataAt s.fs (c.configEntry clusterAuthPass)).map fun f => commandSubst f.content

/-- If there is a file for the clients, it has the password. -/
def AuthCopied (c : Cluster) (pass : Text) (s : Shell) : Prop :=
  ∀ auth, redisCliAuth c s = some auth → auth = pass

/-- A file with another name is not the file of the clients. -/
theorem fileTarget_ne_authPass (c : Cluster) (fs : FS) (cwd : Path) {w : PathWord}
    (h : lastName w ≠ clusterAuthPass) :
    fileTarget fs cwd w ≠ some (c.configEntry clusterAuthPass) := by
  intro ht
  obtain ⟨d, hd⟩ := exists_of_fileTarget ht
  have hlast : [clusterAuthPass] = [lastName w] := List.append_inj_right' hd rfl
  exact h (List.singleton_inj.mp hlast).symm

section AuthPass

variable {m : Machine} {c : Cluster} {pass : Text}

/-- A command that does not touch the file of the clients leaves it. -/
theorem AuthCopied.after {s : Shell} {cm : Cmd} (h : AuthCopied c pass s)
    (htouch : cm.touches m s.cwd s.fs (c.configEntry clusterAuthPass) = false) :
    AuthCopied c pass (s.after m cm) := by
  have hsame : dataAt (s.after m cm).fs (c.configEntry clusterAuthPass) = dataAt s.fs (c.configEntry clusterAuthPass) :=
    (s.changes_after m cm).dataAt_eq (by simp [htouch])
  unfold AuthCopied redisCliAuth at h ⊢
  rw [hsame]
  exact h

/-- The same for a write to a file with another name. -/
theorem AuthCopied.exec_pipeline {s t : Shell} {p : Pipeline} {dest : PathWord}
    (h : AuthCopied c pass s) (hname : lastName dest ≠ clusterAuthPass)
    (hrun : (exec m (.pipeline p dest)).run s = (some (), t)) : AuthCopied c pass t := by
  obtain ⟨-, rfl⟩ := exec_eq_some_iff.mp hrun
  exact h.after (decide_eq_false (fileTarget_ne_authPass c s.fs s.cwd hname))

/-- The copy of the password file. -/
theorem authCopied_copyIn {s t : Shell} {source : Option Text} {name : Text}
    (hpass : source.map commandSubst = some pass)
    (hrun : (exec m (.copyIn source name (c.inConfig clusterAuthPass))).run s = (some (), t)) :
    AuthCopied c pass t := by
  obtain ⟨content, rfl, rfl⟩ := Option.map_eq_some_iff.mp hpass
  obtain ⟨hok, rfl⟩ := exec_eq_some_iff.mp hrun
  have hrun := Shell.run_of_outcome hok
  have hfs : (s.after m (.copyIn (some content) name (c.inConfig clusterAuthPass))).fs =
      (Cmd.run m s.cwd s.fs (.copyIn (some content) name (c.inConfig clusterAuthPass))).1 :=
    congrArg Prod.fst hrun
  have habs : target s.cwd (c.inConfig clusterAuthPass) = c.configEntry clusterAuthPass :=
    target_inConfig c (by decide +kernel) s.cwd
  unfold AuthCopied redisCliAuth
  rw [hfs]
  intro auth hauth
  rw [hrun] at hok
  simp only [Cmd.run, copyTarget] at hok hauth
  by_cases hdir : testD s.fs s.cwd (c.inConfig clusterAuthPass) = true
  · -- The copy has gone into a directory, and there is no file for the clients.
    obtain ⟨q, hq, hqd⟩ := testD_eq_true_iff.mp hdir
    obtain rfl : q = c.configEntry clusterAuthPass := (resolve_eq_target hq).trans habs
    simp only [hdir, if_true] at hok hauth
    cases htarget : fileTarget s.fs s.cwd (c.inConfig clusterAuthPass ++ [name]) with
    | none => simp [htarget] at hok
    | some p =>
      have hp : c.configEntry clusterAuthPass ≠ p := by
        rintro rfl
        rw [(fileTarget_eq_some_iff.mp htarget).2.2] at hqd
        cases hqd
      simp [htarget, dataAt, putContent, hp, isDir_iff.mp hqd] at hauth
  · simp only [hdir, Bool.false_eq_true, if_false] at hok hauth
    cases htarget : fileTarget s.fs s.cwd (c.inConfig clusterAuthPass) with
    | none => simp [htarget] at hok
    | some p =>
      obtain rfl : p = c.configEntry clusterAuthPass :=
        (resolve_eq_target (fileTarget_eq_some_iff.mp htarget).1).trans habs
      simp [htarget, dataAt, putContent] at hauth
      exact hauth.symm

theorem configNode_authCopied (hpass : c.redisAuthPass = some pass) {nodeid : Text} {s t : Shell}
    (hrun : (configNode m c pass nodeid).run s = (some (), t)) : AuthCopied c pass t := by
  obtain ⟨s₁, -, s₂, -, hscripts⟩ := configNode_eq_some_iff.mp hrun
  obtain ⟨s₃, hcopy, s₄, hstart, s₅, hshutdown, hconnect⟩ :=
    (configScripts_eq_some_iff rfl).mp hscripts
  have h₃ := authCopied_copyIn hpass hcopy
  have h₄ := h₃.exec_pipeline (by simp; decide) hstart
  have h₅ := h₄.exec_pipeline (by simp; decide) hshutdown
  exact h₅.exec_pipeline (by simp; decide) hconnect

/-- After the loop over the nodes the file of the clients has the password, unless there
    are no nodes. -/
theorem configNodes_authCopied (hpass : c.redisAuthPass = some pass) {ids : List Text}
    (hne : ids ≠ []) {s t : Shell}
    (hrun : (forEach ids (configNode m c pass)).run s = (some (), t)) : AuthCopied c pass t := by
  induction ids generalizing s with
  | nil => exact absurd rfl hne
  | cons nodeid ids ih =>
    obtain ⟨u, hnode, hrest⟩ := forEach_cons_eq_some_iff.mp hrun
    cases ids with
    | nil =>
      cases hrest
      exact configNode_authCopied hpass hnode
    | cons nodeid' ids => exact ih (by simp) hrest

theorem configTail_authCopied {s t : Shell} (h : AuthCopied c pass s)
    (hrun : (configTail m c).run s = (some (), t)) : AuthCopied c pass t := by
  obtain ⟨s₁, henv, hcreate⟩ := configTail_eq_some_iff.mp hrun
  have h₁ := h.exec_pipeline (by simp [Cluster.inConfig]; decide) henv
  exact h₁.exec_pipeline (by simp [Cluster.inConfig]; decide) hcreate

/-- A completed run of `config()` that has written an instance conf has left the
    password in the file of the clients. -/
theorem config_authCopied (hpass : c.redisAuthPass = some pass) {s t : Shell}
    (hrun : (config m c).run s = (some (), t)) {evs : List Event}
    (htrace : t.trace = s.trace ++ evs) {cwd : Path} {p : Pipeline} {dest : PathWord} {ok : Bool}
    (hev : .ran cwd (.pipeline p dest) ok ∈ evs) (hkind : p.kind = .instanceConf) :
    AuthCopied c pass t := by
  obtain ⟨u, hbody, hsuccess⟩ := config_eq_some_iff.mp hrun
  obtain ⟨-, s₁, hdir, -, s₂, hwrite, s₃, hnodes, htail⟩ := configBody_eq_some_iff.mp hbody
  rw [hpass, Option.getD_some] at hnodes
  by_cases hne : nodesAt m c s₂ = []
  · -- Without nodes there is no instance conf.
    rw [hne] at hnodes
    cases hnodes
    obtain ⟨s₄, henv, hcreate⟩ := configTail_eq_some_iff.mp htail
    obtain ⟨-, rfl⟩ := exec_eq_some_iff.mp hdir
    obtain ⟨-, rfl⟩ := exec_eq_some_iff.mp hwrite
    obtain ⟨-, rfl⟩ := exec_eq_some_iff.mp henv
    obtain ⟨-, rfl⟩ := exec_eq_some_iff.mp hcreate
    obtain ⟨-, rfl⟩ := exec_eq_some_iff.mp hsuccess
    simp only [configMarker, Shell.after, List.append_assoc, List.append_cancel_left_eq] at htrace
    rw [← htrace] at hev
    have hp : p = clusterEnv c ∨ p = createCluster c := by
      simp only [List.singleton_append, List.mem_cons, Event.ran.injEq, reduceCtorEq,
        Cmd.pipeline.injEq, false_and, and_false, false_or, List.not_mem_nil, or_false] at hev
      exact hev.imp (fun h => h.2.1.1) fun h => h.2.1.1
    rcases hp with rfl | rfl <;> cases hkind
  · have hcopied := configTail_authCopied (configNodes_authCopied hpass hne hnodes) htail
    obtain ⟨-, rfl⟩ := exec_eq_some_iff.mp hsuccess
    have hname : lastName (c.inConfig configSuccess) ≠ clusterAuthPass := by
      simp [Cluster.inConfig]
      decide
    exact hcopied.after (decide_eq_false (fileTarget_ne_authPass c u.fs u.cwd hname))

end AuthPass

/-- **Servers and clients have the same password** after a completed run of `config()`, in
    every instance conf made from the shipped template, if the password is plain; and
    only then, as far as `sed` takes it for a plain replacement or rejects it. -/
theorem config_passwordAgrees (m : Machine) (c : Cluster) {s t : Shell} {evs : List Event}
    (hrun : (config m c).run s = (some (), t)) (htrace : t.trace = s.trace ++ evs)
    {cwd : Path} {p : Pipeline} {dest : PathWord} {ok : Bool}
    (hev : .ran cwd (.pipeline p dest) ok ∈ evs) (hkind : p.kind = .instanceConf)
    {auth : Text} (hauth : redisCliAuth c t = some auth) (hline : '\n' ∉ auth) :
    ∃ conf i, p = confPipeline c conf i none ∧ dest = c.nodeConfFile i.nodeid i.port ∧
      (c.inputs.confFile conf = some confTemplate → PlainSettings c i →
        (PlainPassword auth → HasPassword (p.output m) auth) ∧
          (sedScript (braces.mark .password) auth ≠ .other →
            HasPassword (p.output m) auth → PlainPassword auth)) := by
  have htrace' : ((config m c).run s).2.trace = s.trace ++ evs := by rw [hrun, htrace]
  obtain ⟨n, port, pass, -, -, hpass, rfl, rfl⟩ :=
    config_writesPlainConf m c htrace' hev p dest rfl hkind
  obtain rfl : auth = pass := config_authCopied hpass hrun htrace hev hkind auth hauth
  refine ⟨n.conf, n.instance auth port, rfl, rfl, fun ht hset => ?_⟩
  exact confPipeline_password m ht hset hline

/-- A cluster with the shipped template and the password `a&b`. -/
def ampersandCluster : Cluster :=
  demoCluster demoIni (demoInputs demoIni demoNodesCfg confTemplate "a&b\n".toList "s".toList)

/-- The settings of its one instance. -/
def ampersandInstance : Instance := { demoInstance with redisAuthPass := "a&b".toList }

/-- The pipeline of its conf, and where it writes. -/
def ampersandPipeline : Pipeline := confPipeline ampersandCluster "c0".toList ampersandInstance none
def ampersandDest : PathWord := ampersandCluster.nodeConfFile "n1".toList "6377".toList

/-- What `config()` leaves. -/
def ampersandShell : Shell := ((config plainHost ampersandCluster).run demoShell).2

theorem config_ampersand :
    (config plainHost ampersandCluster).run demoShell = (some (), ampersandShell) :=
  run_eq_of_fst (by decide +kernel)

theorem ampersandShell_trace : ((config plainHost ampersandCluster).run demoShell).2.trace =
    demoShell.trace ++ ampersandShell.trace := (List.nil_append ampersandShell.trace).symm

/-- The command writes the conf of the instance, from a template that begins with `#`. -/
def writesAmpersandConf : Event → Bool
  | .ran [] (.pipeline p dest) true =>
    p.kind == .instanceConf && p.stages == confStages ampersandCluster ampersandInstance &&
      p.source.bind List.head? == some '#' && dest == ampersandDest
  | _ => false

theorem ampersandPipeline_mem_trace :
    .ran [] (.pipeline ampersandPipeline ampersandDest) true ∈ ampersandShell.trace := by
  have hany : ampersandShell.trace.any writesAmpersandConf = true := by decide +kernel
  obtain ⟨e, he, hwrites⟩ := List.any_eq_true.mp hany
  unfold writesAmpersandConf at hwrites
  split at hwrites
  · next p dest =>
    simp only [Bool.and_eq_true, beq_iff_eq] at hwrites
    obtain ⟨⟨⟨hkind, hstages⟩, hhead⟩, rfl⟩ := hwrites
    obtain ⟨n, port, pass, -, -, -, hp, -⟩ := config_writesPlainConf plainHost ampersandCluster
      (s := demoShell) ampersandShell_trace he p _ rfl hkind
    have hsource : p.source = some confTemplate := by
      have hfile : p.source = ampersandCluster.inputs.confFile n.conf := by rw [hp]; rfl
      rw [hfile] at hhead ⊢
      simp only [ampersandCluster, demoCluster, demoInputs] at hhead ⊢
      split
      · rfl
      · next hc0 =>
        rw [if_neg hc0] at hhead
        split at hhead
        · exact absurd hhead (by decide +kernel)
        · cases hhead
    have hsame : p = ampersandPipeline := by
      rcases p with ⟨kind, source, stages⟩
      simp only at hkind hstages hsource
      rw [hkind, hstages, hsource]
      rfl
    exact hsame ▸ he
  · cases hwrites

theorem redisCliAuth_ampersand :
    redisCliAuth ampersandCluster ampersandShell = some "a&b".toList := by decide +kernel

theorem config_passwordAgrees_ampersand :
    ∃ conf i, ampersandPipeline = confPipeline ampersandCluster conf i none ∧
      ampersandDest = ampersandCluster.nodeConfFile i.nodeid i.port ∧
      (ampersandCluster.inputs.confFile conf = some confTemplate →
        PlainSettings ampersandCluster i →
        (PlainPassword "a&b".toList → HasPassword (ampersandPipeline.output plainHost) "a&b".toList) ∧
          (sedScript (braces.mark .password) "a&b".toList ≠ .other →
            HasPassword (ampersandPipeline.output plainHost) "a&b".toList →
              PlainPassword "a&b".toList)) :=
  config_passwordAgrees plainHost ampersandCluster config_ampersand
    (List.nil_append ampersandShell.trace).symm ampersandPipeline_mem_trace rfl
    redisCliAuth_ampersand (by decide)

/-- With the password `a&b` the run completes, and the conf has `a{PASSWORD}b`. -/
theorem config_ampersand_differs :
    ((config plainHost ampersandCluster).run demoShell).1 = some () ∧
      .ran [] (.pipeline ampersandPipeline ampersandDest) true ∈ ampersandShell.trace ∧
      ampersandPipeline.source = some confTemplate ∧
      PlainSettings ampersandCluster ampersandInstance ∧
      redisCliAuth ampersandCluster ampersandShell = some "a&b".toList ∧
      Directive.requirepass.valuesIn (ampersandPipeline.output plainHost) =
        ["a{PASSWORD}b".toList] ∧
      ¬ HasPassword (ampersandPipeline.output plainHost) "a&b".toList := by
  have hset : PlainSettings ampersandCluster ampersandInstance := by
    unfold PlainSettings
    decide +kernel
  have hvalues : Directive.requirepass.valuesIn (ampersandPipeline.output plainHost) =
      ["a{PASSWORD}b".toList] := by
    have hscript : sedScript (braces.mark .password) ampersandInstance.redisAuthPass =
        .replace "a{PASSWORD}b".toList := by decide +kernel
    have harrived : arrived ampersandCluster "a{PASSWORD}b".toList = "a{PASSWORD}b".toList := by
      decide +kernel
    rw [← harrived]
    exact valuesIn_confPipeline plainHost rfl hset hscript (by decide) (Or.inl rfl)
  refine ⟨by rw [config_ampersand], ampersandPipeline_mem_trace, rfl, hset, redisCliAuth_ampersand,
    hvalues, fun h => ?_⟩
  rw [HasPassword, hvalues] at h
  exact absurd h.1 (by decide)

end RedisCluster
