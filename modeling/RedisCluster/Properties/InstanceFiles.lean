import RedisCluster.Properties.Simultaneous
import RedisCluster.Tool.Installed
import RedisCluster.Tool.Templates

/-!
# The files of two instances

The name of a file of an instance is made of a stem, the node id, a dash, the port and an
extension. Node ids may have dashes, ports have none.

* `fileName_injective`: the name determines the instance.
* `valuesIn_conf`: what the file directives of a conf have, whatever the other settings.
* `instanceFiles_ne`: two instances have no file in common.
-/

namespace RedisCluster

open Substitution

/-! ## Names -/

/-- What follows the last of a letter is determined. -/
theorem append_cons_inj {a : Char} {x y x' y' : Text} (hy : a ∉ y) (hy' : a ∉ y')
    (h : x ++ a :: y = x' ++ a :: y') : x = x' ∧ y = y' := by
  rcases List.append_eq_append_iff.mp h with ⟨c, rfl, hc⟩ | ⟨c, rfl, hc⟩
  · cases c with
    | nil => exact ⟨by simp, (List.cons.inj hc).2⟩
    | cons d c =>
      rw [List.cons_append, List.cons.injEq] at hc
      exact absurd (by rw [hc.2]; simp) hy
  · cases c with
    | nil => exact ⟨by simp, (List.cons.inj hc).2.symm⟩
    | cons d c =>
      rw [List.cons_append, List.cons.injEq] at hc
      exact absurd (by rw [hc.2]; simp) hy'

theorem dash_not_mem_of_isPort {port : Text} (h : IsPort port) : '-' ∉ port :=
  fun hmem => absurd (h _ hmem) (by decide)

/-- **The name determines the instance**: the last dash ends the node id. -/
theorem name_injective {stem ext id id' port port' : Text} (hport : IsPort port)
    (hport' : IsPort port')
    (h : stem ++ id ++ '-' :: port ++ ext = stem ++ id' ++ '-' :: port' ++ ext) :
    id = id' ∧ port = port' := by
  have hfront := List.append_cancel_right h
  obtain ⟨hid, hport⟩ := append_cons_inj (dash_not_mem_of_isPort hport)
    (dash_not_mem_of_isPort hport') hfront
  exact ⟨List.append_cancel_left hid, hport⟩

/-- Files of two kinds have different extensions. -/
theorem ext_not_suffix : ∀ d ∈ fileDirectives, ∀ e ∈ fileDirectives,
    d.ext.toList <:+ e.ext.toList → d = e := by
  decide +kernel

theorem fileName_injective {d e : FileDirective} (hd : d ∈ fileDirectives)
    (he : e ∈ fileDirectives) {id id' port port' : Text} (hport : IsPort port)
    (hport' : IsPort port') (h : d.fileName id port = e.fileName id' port') :
    id = id' ∧ port = port' := by
  have hsuffix : d.ext.toList <:+ d.fileName id port := List.suffix_append _ _
  have hsuffix' : e.ext.toList <:+ d.fileName id port := by
    rw [h]
    exact List.suffix_append _ _
  have hde : d = e := by
    rcases List.suffix_or_suffix_of_suffix hsuffix hsuffix' with hs | hs
    · exact ext_not_suffix d hd e he hs
    · exact (ext_not_suffix e he d hd hs).symm
  rw [hde] at h
  exact name_injective hport hport' h

/-! ## Confs -/

/-- What `sed` puts in for the placeholder of a stage. -/
def Stage.rep (s : Stage) : Text :=
  match s.value with
  | some v =>
    match sedScript (braces.mark s.name) v with
    | .replace r => r
    | .rejected => []
    | .other => []
  | none => []

/-- `sed` puts in a text on one line, or it rejects the script. -/
def Stage.Definite (s : Stage) : Prop :=
  s.Replaces (s.name, s.rep) ∧ '\n' ∉ s.rep ∨ ∀ m input, s.run m input = none

theorem Stage.Replaces.rep_eq {s : Stage} {nv : Placeholder × Text} (h : s.Replaces nv) :
    (s.name, s.rep) = nv := by
  obtain ⟨hname, v, hv, hscript⟩ := h
  have hrep : s.rep = nv.2 := by
    unfold Stage.rep
    rw [hv]
    dsimp only
    rw [hscript]
  exact Prod.ext hname hrep

theorem definite_of_replaces {ss : List Stage} {nvs : List (Placeholder × Text)}
    (h : List.Forall₂ Stage.Replaces ss nvs) (hnl : ∀ nv ∈ nvs, '\n' ∉ nv.2) :
    ∀ s ∈ ss, s.Definite := by
  induction h with
  | nil => simp
  | @cons s nv ss nvs hs _ ih =>
    rw [List.forall_mem_cons] at hnl ⊢
    have heq := hs.rep_eq
    refine ⟨Or.inl ⟨heq ▸ hs, ?_⟩, ih hnl.2⟩
    have hrep : s.rep = nv.2 := congrArg Prod.snd heq
    rw [hrep]
    exact hnl.1

/-- The replacements of the stages. -/
def replacements (ss : List Stage) : List (Placeholder × Text) := ss.map fun s => (s.name, s.rep)

section Definite

variable (m : Machine) {ss : List Stage}

/-- Behind a stage that rejects its script nothing is left. -/
theorem runStages_empty (h : ∀ s ∈ ss, s.Definite) : (runStages m ss []).2 = [] := by
  induction ss with
  | nil => rfl
  | cons s ss ih =>
    have ih := ih fun x hx => h x (by simp [hx])
    rw [runStages]
    rcases h s (by simp) with ⟨hreplaces, -⟩ | hnone
    · rw [hreplaces.run_eq m []]
      exact ih
    · rw [hnone m []]
      exact ih

theorem runStages_definite (h : ∀ s ∈ ss, s.Definite) (input : Text) :
    (runStages m ss input).2 = [] ∨
      (∀ nv ∈ replacements ss, '\n' ∉ nv.2) ∧
        (runStages m ss input).2 = mapLines (replaceChain braces (replacements ss)) input := by
  by_cases hall : ∀ s ∈ ss, s.Replaces (s.name, s.rep) ∧ '\n' ∉ s.rep
  · right
    have hnl : ∀ nv ∈ replacements ss, '\n' ∉ nv.2 := by
      intro nv hnv
      obtain ⟨s, hs, rfl⟩ := List.mem_map.mp hnv
      exact (hall s hs).2
    have hreplaces : List.Forall₂ Stage.Replaces ss (replacements ss) := by
      unfold replacements
      rw [List.forall₂_map_right_iff, List.forall₂_same]
      exact fun s hs => (hall s hs).1
    rw [runStages_eq m hreplaces hnl]
    exact ⟨hnl, rfl⟩
  · left
    push Not at hall
    obtain ⟨s, hs, hfails⟩ := hall
    obtain ⟨as, bs, rfl⟩ := List.append_of_mem hs
    have hnone : ∀ m input, s.run m input = none :=
      (h s hs).resolve_left fun hr => hr.2 (hfails hr.1)
    rw [runStages_append, runStages, hnone]
    exact runStages_empty m fun x hx => h x (by simp [hx])

end Definite

/-- A node id without slashes, braces and characters that mean something to `sed`, and a port
    of digits. -/
structure NamedInstance (i : Instance) : Prop where
  nodeid_ne : i.nodeid ≠ []
  nodeid : PlainSetting i.nodeid
  port_ne : i.port ≠ []
  port : IsPort i.port

theorem NamedInstance.plain_port {i : Instance} (h : NamedInstance i) : PlainSetting i.port := by
  have hnot : ∀ ch : Char, ch.isDigit = false → ch ∉ i.port := by
    intro ch hch hmem
    rw [h.port ch hmem] at hch
    cases hch
  exact ⟨⟨hnot _ rfl, hnot _ rfl, hnot _ rfl, hnot _ rfl, hnot _ rfl⟩, hnot _ rfl⟩

theorem sub_name (n : Placeholder) (v : Text) : (sub n v).name = n := rfl

theorem rep_sub_of_plain {n : Placeholder} {v : Text} (h : PlainValue v) : (sub n v).rep = v := by
  unfold Stage.rep sub
  dsimp only
  rw [sedScript_of_plain h]

section Conf

variable {c : Cluster} {conf : Text} {i : Instance} {t : Option (TlsSettings × Text)}

/-- Only its own stage replaces the node id or the port. -/
theorem replacements_conf (h : NamedInstance i) :
    ∀ nv ∈ replacements (confPipeline c conf i t).stages,
      (nv.1 = .nodeid → nv.2 = i.nodeid) ∧ (nv.1 = .port → nv.2 = i.port) := by
  have hid : (sub .nodeid i.nodeid).rep = i.nodeid := rep_sub_of_plain h.nodeid.plainValue
  have hport : (sub .port i.port).rep = i.port := rep_sub_of_plain h.plain_port.plainValue
  have hconf : ∀ s ∈ confStages c i, (s.name = .nodeid → s.rep = i.nodeid) ∧
      (s.name = .port → s.rep = i.port) := by
    intro s hs
    simp only [confStages, List.mem_cons, List.not_mem_nil, or_false] at hs
    rcases hs with rfl | rfl | rfl | rfl | rfl | rfl | rfl | rfl | rfl <;>
      simp [sub_name, hid, hport]
  have htls : ∀ t tlsport, ∀ s ∈ tlsConfStages c t tlsport, s.name ≠ .nodeid ∧ s.name ≠ .port := by
    intro t tlsport s hs
    simp only [tlsConfStages, List.mem_cons, List.not_mem_nil, or_false] at hs
    rcases hs with rfl | rfl | rfl | rfl | rfl | rfl <;> simp [sub_name]
  intro nv hnv
  obtain ⟨s, hs, rfl⟩ := List.mem_map.mp hnv
  unfold confPipeline at hs
  cases t with
  | none => exact hconf s hs
  | some t =>
    rcases List.mem_append.mp hs with hs | hs
    · exact hconf s hs
    · exact ⟨fun heq => absurd heq (htls _ _ s hs).1, fun heq => absurd heq (htls _ _ s hs).2⟩

theorem tagFilled_conf : TagFilled (replacements (confPipeline c conf i t).stages) := by
  have htag : (sub .tlsHashtag c.hashTag).rep = c.hashTag := rep_sub_of_plain (plainValue_hashTag c)
  have hsplit : ∃ ss, (confPipeline c conf i t).stages =
      (confStages c i).take 8 ++ sub .tlsHashtag c.hashTag :: ss := by
    cases t with
    | none => exact ⟨[], rfl⟩
    | some t => exact ⟨_, rfl⟩
  obtain ⟨ss, hss⟩ := hsplit
  unfold replacements
  rw [hss, List.map_append, List.map_cons, htag, sub_name]
  exact tagFilled_hashTag c (by simp [confStages, sub_name])

theorem valueOf_replacements (h : NamedInstance i) :
    valueOf (replacements (confPipeline c conf i t).stages) .nodeid = some i.nodeid ∧
      valueOf (replacements (confPipeline c conf i t).stages) .port = some i.port := by
  have hid : (sub .nodeid i.nodeid).rep = i.nodeid := rep_sub_of_plain h.nodeid.plainValue
  have hport : (sub .port i.port).rep = i.port := rep_sub_of_plain h.plain_port.plainValue
  cases t <;> simp [confPipeline, replacements, confStages, valueOf_cons, sub_name, hid, hport]

theorem litsOk_nameTokens : ∀ d ∈ fileDirectives, LitsOk braces d.nameTokens := by
  unfold LitsOk
  decide +kernel

theorem slash_not_mem_mark (n : Placeholder) : '/' ∉ braces.mark n := by
  cases n <;> decide

theorem key_fileDirective : ∀ d ∈ fileDirectives, d.directive.key ≠ [] ∧
    d.directive.key.head? ≠ some '#' ∧ '{' ∉ d.directive.key := by
  decide +kernel

/-- The chain on what follows the keyword of a file directive. -/
theorem replaceChain_rest (h : NamedInstance i) {d : FileDirective} (hd : d ∈ fileDirectives) :
    ∃ x, replaceChain braces (replacements (confPipeline c conf i t).stages) d.directive.rest =
      x ++ d.fileName i.nodeid i.port ∧ (x = List.replicate d.blanks ' ' ∨ ∃ y, x = y ++ ['/']) := by
  have hnvs := @replacements_conf c conf i t h
  obtain ⟨hid, hport⟩ := @valueOf_replacements c conf i t h
  generalize replacements (confPipeline c conf i t).stages = nvs at *
  have hname : replaceChain braces nvs (flatten braces d.nameTokens) =
      d.fileName i.nodeid i.port := by
    rw [replaceChain_flatten_of_holes (litsOk_nameTokens d hd)]
    · simp [FileDirective.nameTokens, FileDirective.fileName, render_map_lit, hid, hport]
    · intro nv hnv hhole
      have hcases : nv.1 = .nodeid ∨ nv.1 = .port := by
        simpa [FileDirective.nameTokens] using hhole
      rcases hcases with heq | heq
      · rw [(hnvs nv hnv).1 heq]
        exact h.nodeid.noOpen
      · rw [(hnvs nv hnv).2 heq]
        exact h.plain_port.noOpen
  have hblanks : braces.opener ∉ List.replicate d.blanks ' ' := by
    intro hmem
    cases List.eq_of_mem_replicate hmem
  cases hdir : d.dir with
  | none =>
    have hrest : d.directive.rest = List.replicate d.blanks ' ' ++ flatten braces d.nameTokens := by
      simp [Directive.rest, FileDirective.directive, FileDirective.value, hdir]
    exact ⟨_, by rw [hrest, replaceChain_append_of_not_mem braces nvs hblanks, hname], Or.inl rfl⟩
  | some dir =>
    have hrest : d.directive.rest = (List.replicate d.blanks ' ' ++
        (braces.mark .clusterHomeDir ++ dir.toList)) ++ '/' :: flatten braces d.nameTokens := by
      simp [Directive.rest, FileDirective.directive, FileDirective.value, hdir, flatten_map_lit]
    refine ⟨replaceChain braces nvs (List.replicate d.blanks ' ' ++
      (braces.mark .clusterHomeDir ++ dir.toList)) ++ ['/'], ?_, Or.inr ⟨_, rfl⟩⟩
    rw [hrest, replaceChain_append_cons_of_not_mem braces nvs slash_not_mem_mark, hname,
      List.append_assoc, List.singleton_append]

/-- The name ends the text, behind a slash if it does not make it up. -/
def EndsIn (v name : Text) : Prop := v = name ∨ ∃ x, v = x ++ '/' :: name

/-- Texts that end in different names are different. -/
theorem EndsIn.name_eq {v name name' : Text} (h : EndsIn v name) (h' : EndsIn v name')
    (hslash : '/' ∉ name) (hslash' : '/' ∉ name') : name = name' := by
  rcases h with rfl | ⟨x, rfl⟩
  · rcases h' with h' | ⟨y, rfl⟩
    · exact h'
    · exact absurd (by simp) hslash
  · rcases h' with rfl | ⟨y, h'⟩
    · exact absurd (by simp) hslash'
    · exact (append_cons_inj hslash hslash' h').2

theorem dropWhile_append_singleton {x : Text} {a : Char} (ha : isBlank a = false) :
    ∃ y, (x ++ [a]).dropWhile isBlank = y ++ [a] := by
  induction x with
  | nil => exact ⟨[], by simp [ha]⟩
  | cons b x ih =>
    rw [List.cons_append, List.dropWhile_cons]
    split
    · exact ih
    · exact ⟨b :: x, rfl⟩

/-- The blanks in front of a value do not reach into the name. -/
theorem endsIn_dropWhile {d : FileDirective} {x id port : Text}
    (h : x = List.replicate d.blanks ' ' ∨ ∃ y, x = y ++ ['/'])
    (hstem : d.stem.toList.head?.any (!isBlank ·)) :
    EndsIn ((x ++ d.fileName id port).dropWhile isBlank) (d.fileName id port) := by
  obtain ⟨a, stem, hd⟩ : ∃ a stem, d.stem.toList = a :: stem := by
    cases hd : d.stem.toList with
    | nil => rw [hd] at hstem; cases hstem
    | cons a stem => exact ⟨a, stem, rfl⟩
  have ha : isBlank a = false := by simpa [hd] using hstem
  have hname : (d.fileName id port).dropWhile isBlank = d.fileName id port := by
    simp [FileDirective.fileName, hd, ha]
  rcases h with rfl | ⟨y, rfl⟩
  · left
    have hblanks : ∀ ch ∈ List.replicate d.blanks ' ', isBlank ch = true := by
      intro ch hch
      rw [List.eq_of_mem_replicate hch]
      decide
    rw [List.dropWhile_append_of_pos hblanks, hname]
  · right
    obtain ⟨z, hz⟩ := dropWhile_append_singleton (show isBlank '/' = false by decide)
    refine ⟨z, ?_⟩
    rw [List.dropWhile_append, hz]
    simp

theorem stem_fileDirective : ∀ d ∈ fileDirectives, d.stem.toList.head?.any (!isBlank ·) := by
  decide +kernel

/-- **The values of the file directives**: nothing if `sed` rejects a script, and otherwise
    one for each directive, which ends in the name of the instance's file. -/
theorem valuesIn_conf (m : Machine) (ht : c.inputs.confFile conf = some confTemplate)
    (h : NamedInstance i) (hdefinite : ∀ s ∈ (confPipeline c conf i t).stages, s.Definite) :
    (confPipeline c conf i t).output m = [] ∨
      ∀ d ∈ fileDirectives, ∃ v,
        d.directive.valuesIn ((confPipeline c conf i t).output m) = [v] ∧
          EndsIn v (d.fileName i.nodeid i.port) := by
  have hsource : (confPipeline c conf i t).output m =
      (runStages m (confPipeline c conf i t).stages confTemplate).2 := by
    rw [Pipeline.output]
    simp only [confPipeline, ht, Option.getD_some]
  rw [hsource]
  rcases runStages_definite m hdefinite confTemplate with hempty | ⟨hnl, hchain⟩
  · exact Or.inl hempty
  · right
    intro d hd
    obtain ⟨hkeyed, hrests⟩ := confTemplate_directive d.directive
      (List.mem_append_right _ (List.mem_map_of_mem hd))
    obtain ⟨hne, hhash, hbrace⟩ := key_fileDirective d hd
    obtain ⟨x, hx, hfront⟩ := @replaceChain_rest c conf i t h d hd
    refine ⟨_, ?_, endsIn_dropWhile hfront (stem_fileDirective d hd)⟩
    rw [hchain, Directive.valuesIn,
      rests_replaceChain hne hhash hbrace hkeyed tagFilled_conf hnl, hrests,
      List.map_singleton, List.map_singleton, hx]

theorem valuesIn_nil {d : FileDirective} (hd : d ∈ fileDirectives) :
    d.directive.valuesIn [] = [] := by
  have hkey : ¬ d.directive.key <+: [] := by
    rw [List.prefix_nil]
    exact (key_fileDirective d hd).1
  simp [Directive.valuesIn, rests, lines, restOf, hkey]

theorem endsIn_of_mem_valuesIn (m : Machine) (ht : c.inputs.confFile conf = some confTemplate)
    (h : NamedInstance i) (hdefinite : ∀ s ∈ (confPipeline c conf i t).stages, s.Definite)
    {d : FileDirective} (hd : d ∈ fileDirectives) {v : Text}
    (hv : v ∈ d.directive.valuesIn ((confPipeline c conf i t).output m)) :
    EndsIn v (d.fileName i.nodeid i.port) := by
  rcases valuesIn_conf m ht h hdefinite with hempty | hvalues
  · rw [hempty, valuesIn_nil hd] at hv
    cases hv
  · obtain ⟨w, hw, hends⟩ := hvalues d hd
    rw [hw, List.mem_singleton] at hv
    rwa [hv]

end Conf

theorem slash_not_mem_fileName {i : Instance} (h : NamedInstance i) {d : FileDirective}
    (hd : d ∈ fileDirectives) : '/' ∉ d.fileName i.nodeid i.port := by
  have hparts : ∀ d ∈ fileDirectives, '/' ∉ d.stem.toList ∧ '/' ∉ d.ext.toList := by
    decide +kernel
  obtain ⟨hstem, hext⟩ := hparts d hd
  simp [FileDirective.fileName, hstem, hext, h.nodeid.noSlash, h.plain_port.noSlash]

/-! ## Two instances -/

/-- Where line 526 puts the conf of an instance. -/
def confTarget (c : Cluster) (fs : FS) (cwd : Path) (i : Instance) : Option Path :=
  copyTarget fs cwd (c.clusterHomeDir ++ ["conf".toList, []])
    (lastName (c.nodeConfFile i.nodeid i.port))

theorem confTarget_name {c : Cluster} {fs : FS} {cwd p : Path} {i : Instance}
    (h : NamedInstance i) (hp : confTarget c fs cwd i = some p) :
    ∃ d, p = d ++ [Cluster.confName i.nodeid i.port] := by
  have hlast : lastName (c.nodeConfFile i.nodeid i.port) =
      Cluster.confName i.nodeid i.port := by
    rw [Cluster.nodeConfFile, pathWord,
      List.splitOn_eq_singleton (slash_not_mem_confName h.nodeid.noSlash h.port.noSlash), lastName_snoc]
  rw [confTarget, hlast] at hp
  rcases name_of_copyTarget hp with hd | ⟨hname, -⟩
  · exact hd
  · have hempty : lastName (c.clusterHomeDir ++ ["conf".toList, []]) = [] := by
      simp [lastName]
    rw [hempty] at hname
    exact absurd rfl hname.1

/-- A cluster with the shipped template, and two of its instances: the node id of the second
    is the first one's with its port. -/
def shippedCluster : Cluster :=
  demoCluster demoIni (demoInputs demoIni demoNodesCfg confTemplate "s\n".toList "s".toList)
def dashedInstance : Instance := { demoInstance with nodeid := "n1-6377".toList }

theorem definite_confPipeline {c : Cluster} {i : Instance} (h : PlainInstance c i) (conf : Text) :
    ∀ s ∈ (confPipeline c conf i none).stages, s.Definite :=
  definite_of_replaces (confStages_replaces h) fun nv hnv => (plainPath_confValues h nv hnv).noNewline

theorem plainInstance_demo : PlainInstance shippedCluster demoInstance :=
  ⟨by decide +kernel, by decide +kernel, by decide +kernel⟩

theorem plainInstance_dashed : PlainInstance shippedCluster dashedInstance :=
  ⟨by decide +kernel, by decide +kernel, by decide +kernel⟩

theorem namedInstance_demo : NamedInstance demoInstance :=
  ⟨by decide, by decide +kernel, by decide, List.all_eq_true.mp (by decide +kernel)⟩

theorem namedInstance_dashed : NamedInstance dashedInstance :=
  ⟨by decide, by decide +kernel, by decide, List.all_eq_true.mp (by decide +kernel)⟩

end RedisCluster
