import RedisCluster.Properties.Handover

/-!
# How the lists are written

Two nodes files that differ only in the separators of their quoted lists are read alike: the
same items, and the same other settings.

* `SameFile`: the two files, line by line.
* `AwkReads`: how `awk` looks for a section.
* `listWords_printed`: the items of a quoted list, as the shell gets them.
* `reformat_eq`: `config()` and `deploy()` run alike on both files.
-/

namespace RedisCluster

open Errexit Script

/-! ## The files -/

/-- What stands in front of the `=` of a list: `nodes`, `addrs`, `ports`, blanks or other
    characters around them, and neither `conf` nor `host` in it. -/
structure IsListKey (k : Text) : Prop where
  noEquals : '=' ∉ k
  noBracket : '[' ∉ k
  noConf : ¬ "conf".toList <:+: k
  noHost : ¬ "host".toList <:+: k

/-- The text of a list: its items have no quotes, no `=`, no glob characters, and no dash at
    their front. -/
structure ListText (v : Text) : Prop where
  plain : ∀ ch ∈ v, ch ≠ '=' ∧ ch ≠ '"' ∧ isGlobChar ch = false
  items : ∀ w ∈ items v, w.head? ≠ some '-'

/-- Two lines that differ at most in how the items of a quoted list are separated. What
    follows the quote, a comment, say, is apart from it. -/
inductive SameLine : Text → Text → Prop where
  | refl (l : Text) : SameLine l l
  | list {k v v' rest : Text} (hk : IsListKey k) (hv : ListText v) (hv' : ListText v')
      (hrest : ListText rest) (hapart : rest.head?.all isSeparator = true)
      (hitems : items v = items v') :
      SameLine (k ++ '=' :: '"' :: (v ++ '"' :: rest)) (k ++ '=' :: '"' :: (v' ++ '"' :: rest))

/-- Two files of such lines. -/
def SameFile (cfg cfg' : Text) : Prop := List.Forall₂ SameLine (lines cfg) (lines cfg')

/-! ## `awk` -/

/-- The first record at or behind one where the section begins that has the key. -/
def hit (sec : Text → Bool) (k cfg : Text) : Option Text :=
  ((records cfg).dropWhile fun r => !sec r).find? fun r => k <:+: keyField r

/-- What `awk` prints of it. -/
def printed : Option Text → Text
  | some r => valueField r ++ ['\n']
  | none => []

/-- How `awk` takes a section name with characters that mean something in a pattern: it looks
    at one record after the other, and a name without alternatives and intervals leaves the
    bracket in front of it to be matched. -/
def AwkReads (m : Machine) : Prop :=
  ∀ n, '|' ∉ n → '{' ∉ n → ∃ sec : Text → Bool, (∀ r, sec r = true → '[' ∈ r) ∧
    ∀ cfg k, k.all isRegexLiteral = true → m.awkOther cfg n k = printed (hit sec k cfg)

/-- The same for all section names. -/
theorem AwkReads.awkCfg_eq {m : Machine} (h : AwkReads m) {n : Text} (hbar : '|' ∉ n)
    (hbrace : '{' ∉ n) : ∃ sec : Text → Bool, (∀ r, sec r = true → '[' ∈ r) ∧
      ∀ cfg k, k.all isRegexLiteral = true → awkCfg m cfg n k = printed (hit sec k cfg) := by
  by_cases hn : n.all isRegexLiteral = true
  · refine ⟨fun r => bracketed n <:+: r, fun r hr => ?_, fun cfg k hk => ?_⟩
    · have hinfix : bracketed n <:+: r := of_decide_eq_true hr
      exact hinfix.mem (by simp [bracketed])
    · have hhit : hit (fun r => bracketed n <:+: r) k cfg = awkHit cfg n k := by
        simp only [hit, awkHit, decide_not]
      rw [awkCfg, if_pos ⟨hn, hk⟩, hhit]
      cases awkHit cfg n k <;> rfl
  · obtain ⟨sec, hsec, hother⟩ := h n hbar hbrace
    refine ⟨sec, hsec, fun cfg k hk => ?_⟩
    rw [awkCfg, if_neg fun hand => hn hand.1, hother cfg k hk]

/-! ## Line by line -/

section Pointwise

variable {α : Type} {R : α → α → Prop} {ls ls' : List α}

/-- Scans that look at related elements alike find related ones. -/
theorem forall₂_dropWhile {p : α → Bool} (hp : ∀ a b, R a b → p a = p b)
    (h : List.Forall₂ R ls ls') : List.Forall₂ R (ls.dropWhile p) (ls'.dropWhile p) := by
  induction h with
  | nil => exact .nil
  | @cons a b ls ls' hab hrest ih =>
    rw [List.dropWhile_cons, List.dropWhile_cons, ← hp a b hab]
    split
    · exact ih
    · exact .cons hab hrest

theorem forall₂_find? {p : α → Bool} (hp : ∀ a b, R a b → p a = p b) (h : List.Forall₂ R ls ls') :
    (ls.find? p = none ∧ ls'.find? p = none) ∨
      ∃ a b, ls.find? p = some a ∧ ls'.find? p = some b ∧ R a b := by
  induction h with
  | nil => exact Or.inl ⟨rfl, rfl⟩
  | @cons a b ls ls' hab hrest ih =>
    rw [List.find?_cons, List.find?_cons, ← hp a b hab]
    cases p a with
    | true => exact Or.inr ⟨a, b, rfl, rfl, hab⟩
    | false => exact ih

theorem forall₂_dropLast (h : List.Forall₂ R ls ls') : List.Forall₂ R ls.dropLast ls'.dropLast := by
  induction h with
  | nil => exact .nil
  | @cons a b ls ls' hab hrest ih =>
    cases hrest with
    | nil => exact .nil
    | cons hcd hrest => exact .cons hab ih

theorem forall₂_getLast? (h : List.Forall₂ R ls ls') :
    (ls.getLast? = none ∧ ls'.getLast? = none) ∨
      ∃ a b, ls.getLast? = some a ∧ ls'.getLast? = some b ∧ R a b := by
  induction h with
  | nil => exact Or.inl ⟨rfl, rfl⟩
  | @cons a b ls ls' hab hrest ih =>
    cases hrest with
    | nil => exact Or.inr ⟨a, b, rfl, rfl, hab⟩
    | cons hcd hrest =>
      rw [List.getLast?_cons_cons, List.getLast?_cons_cons]
      exact ih

end Pointwise

theorem SameLine.nil_iff {l l' : Text} (h : SameLine l l') : l = [] ↔ l' = [] := by
  cases h with
  | refl => rfl
  | list => simp

theorem SameFile.records {cfg cfg' : Text} (h : SameFile cfg cfg') :
    List.Forall₂ SameLine (records cfg) (records cfg') := by
  have hlast : (lines cfg).getLast? = some [] ↔ (lines cfg').getLast? = some [] := by
    rcases forall₂_getLast? h with ⟨h₁, h₂⟩ | ⟨a, b, h₁, h₂, hab⟩
    · rw [h₁, h₂]
    · rw [h₁, h₂, Option.some.injEq, Option.some.injEq]
      exact hab.nil_iff
  rw [RedisCluster.records, RedisCluster.records]
  by_cases hend : (lines cfg).getLast? = some []
  · rw [if_pos hend, if_pos (hlast.mp hend)]
    exact forall₂_dropLast h
  · rw [if_neg hend, if_neg fun h' => hend (hlast.mpr h')]
    exact h

theorem keyField_append {k : Text} (hk : '=' ∉ k) (x : Text) : keyField (k ++ '=' :: x) = k := by
  rw [keyField, List.takeWhile_append_of_pos fun ch hch => by
    simpa using fun he : ch = '=' => hk (he ▸ hch)]
  simp

theorem SameLine.keyField_eq {l l' : Text} (h : SameLine l l') : keyField l = keyField l' := by
  cases h with
  | refl => rfl
  | list hk => rw [keyField_append hk.noEquals, keyField_append hk.noEquals]

/-- No line of a list begins a section. -/
theorem bracket_not_mem_list {k v rest : Text} (hk : IsListKey k) (hv : ListText v)
    (hrest : ListText rest) : '[' ∉ k ++ '=' :: '"' :: (v ++ '"' :: rest) := by
  have hno : ∀ {x : Text}, ListText x → '[' ∉ x := fun hx hm => by
    have := (hx.plain '[' hm).2.2
    cases this
  simp [hk.noBracket, hno hv, hno hrest]

theorem SameLine.section_eq {l l' : Text} (h : SameLine l l') {sec : Text → Bool}
    (hsec : ∀ r, sec r = true → '[' ∈ r) : sec l = sec l' := by
  cases h with
  | refl => rfl
  | list hk hv hv' hrest =>
    have h₁ : ∀ {r : Text}, '[' ∉ r → sec r = false := fun hr => by
      rw [Bool.eq_false_iff]
      exact fun hs => hr (hsec _ hs)
    rw [h₁ (bracket_not_mem_list hk hv hrest), h₁ (bracket_not_mem_list hk hv' hrest)]

/-- What is found in the two files. -/
theorem SameFile.hit_eq {cfg cfg' : Text} (h : SameFile cfg cfg') {sec : Text → Bool}
    (hsec : ∀ r, sec r = true → '[' ∈ r) (k : Text) :
    (hit sec k cfg = none ∧ hit sec k cfg' = none) ∨
      ∃ l l', hit sec k cfg = some l ∧ hit sec k cfg' = some l' ∧ SameLine l l' :=
  forall₂_find? (fun a b hab => by rw [hab.keyField_eq])
    (forall₂_dropWhile (fun a b hab => by rw [hab.section_eq hsec]) h.records)

/-! ## The items of a list -/

theorem valueField_append {k x : Text} (hk : '=' ∉ k) (hx : '=' ∉ x) : valueField (k ++ '=' :: x) = x := by
  have hkey : ∀ ch ∈ k, (ch != '=') = true := fun ch hch => by
    simpa using fun he : ch = '=' => hk (he ▸ hch)
  have hvalue : ∀ ch ∈ x, (ch != '=') = true := fun ch hch => by
    simpa using fun he : ch = '=' => hx (he ▸ hch)
  rw [valueField, List.dropWhile_append_of_pos hkey]
  simpa using List.takeWhile_eq_self_iff.mpr hvalue

/-- Putting the words together again keeps the items. -/
theorem items_join_words (t : Text) : items (join (words t)) = items t := by
  have hblank : ∀ c, isBlank c = true → isSeparator c = true := fun c hc => by simp [isSeparator, hc]
  have hwords : words t = fields isBlank t := rfl
  rw [join, items, fields_intercalate (by decide), hwords, flatMap_fields hblank, items]

/-- The first word of a text that begins with a quote begins with it. -/
theorem head?_words_quote (t : Text) : ∃ w ws, words ('"' :: t) = ('"' :: w) :: ws := by
  obtain ⟨w, ws, hw⟩ := List.exists_cons_of_ne_nil (List.splitOnP_ne_nil isBlank t)
  refine ⟨w, ws.filter (· ≠ []), ?_⟩
  rw [words, List.splitOnP_cons_eq_if_modifyHead, if_neg (by decide), hw, List.modifyHead_cons,
    List.filter_cons_of_pos (by simp)]

theorem newline_not_mem_join_words (t : Text) : '\n' ∉ join (words t) := by
  intro hm
  rcases mem_join hm with h | ⟨w, hw, h⟩
  · cases h
  · have hblank := (isWord_of_mem_words hw).2 '\n' h
    cases hblank

/-- A text with an item that is an option has it for its only item. -/
theorem isEchoOption_eq_false {t : Text} (h : ∀ w ∈ items t, w.head? ≠ some '-') :
    isEchoOption t = false := by
  rw [Bool.eq_false_iff]
  intro hoption
  unfold isEchoOption at hoption
  split at hoption
  · next c cs =>
    have hno : ∀ ch ∈ '-' :: c :: cs, isSeparator ch = false := by
      intro ch hch
      rcases List.mem_cons.mp hch with rfl | hch
      · rfl
      · have hletter := List.all_eq_true.mp hoption ch hch
        simp only [Bool.or_eq_true, beq_iff_eq] at hletter
        rcases hletter with (rfl | rfl) | rfl <;> rfl
    have hitems : items ('-' :: c :: cs) = ['-' :: c :: cs] := by
      rw [items, fields_of_not_separator hno]
      rfl
    exact h ('-' :: c :: cs) (by simp [hitems]) rfl
  · cases hoption

/-- What `read_cfg` prints of a value in quotes, before the trailing newline goes. -/
def unquotedValue (y : Text) : Text := (join (words y)).filter (· != '"')

theorem items_unquotedValue (y : Text) : items (unquotedValue y) = items (y.filter (· != '"')) := by
  have hkeep : ∀ c, isSeparator c = true → (c != '"') = true := by
    intro c hc
    have hne : c ≠ '"' := by
      rintro rfl
      cases hc
    simpa using hne
  have h₁ := fields_filter hkeep (join (words y))
  have h₂ := fields_filter hkeep y
  have hsame : fields isSeparator (join (words y)) = fields isSeparator y := items_join_words y
  rw [unquotedValue, items, h₁, hsame, items, h₂]

/-- `read_cfg` and the splitting make the items of a quoted list. -/
theorem listWords_printed (m : Machine) (fs : FS) (cwd : Path) {t : Text}
    (hglob : ∀ ch ∈ t, isGlobChar ch = false)
    (hdash : ∀ w ∈ items (('"' :: t).filter (· != '"')), w.head? ≠ some '-') :
    listWords m fs cwd (commandSubst ((echo m (unquoted m fs cwd
      (commandSubst ('"' :: t ++ ['\n'])))).filter (· != '"'))) = items (('"' :: t).filter (· != '"')) := by
  have hglob' : ∀ ch ∈ '"' :: t, isGlobChar ch = false := by
    intro ch hch
    rcases List.mem_cons.mp hch with rfl | hch
    · rfl
    · exact hglob ch hch
  obtain ⟨w, ws, hw⟩ := head?_words_quote t
  have hecho : echo m (words ('"' :: t)) = join (words ('"' :: t)) ++ ['\n'] := by
    apply echo_of_not_option
    rw [hw]
    rfl
  have hprint : commandSubst ((echo m (unquoted m fs cwd
      (commandSubst ('"' :: t ++ ['\n'])))).filter (· != '"')) = unquotedValue ('"' :: t) := by
    rw [commandSubst_newline, unquoted_of_not_glob m fs cwd fun ch hch =>
      hglob' ch (mem_of_mem_commandSubst hch), words_commandSubst, hecho, List.filter_append]
    have hnl : '\n' ∉ unquotedValue ('"' :: t) := fun hm =>
      newline_not_mem_join_words _ (List.mem_of_mem_filter hm)
    exact (commandSubst_newline _).trans (commandSubst_eq_self hnl)
  have hitems := items_unquotedValue ('"' :: t)
  have hoption : isEchoOption (unquotedValue ('"' :: t)) = false :=
    isEchoOption_eq_false (by rw [hitems]; exact hdash)
  have hplain : ∀ ch ∈ unquotedValue ('"' :: t), isGlobChar ch = false := by
    intro ch hch
    rcases mem_join (List.mem_of_mem_filter hch) with rfl | ⟨w, hw, hch⟩
    · rfl
    · exact hglob' ch (mem_of_mem_words hw ch hch)
  rw [hprint, listWords_eq_items m fs cwd hoption hplain, hitems]

/-- The items of a list are those between its quotes, and those of what follows. -/
theorem items_of_list {v rest : Text} (hv : ListText v) (hrest : ListText rest)
    (hapart : rest.head?.all isSeparator = true) :
    items (('"' :: (v ++ '"' :: rest)).filter (· != '"')) = items v ++ items rest := by
  have hkeep : ∀ {x : Text}, ListText x → x.filter (· != '"') = x := fun hx => by
    refine List.filter_eq_self.mpr fun ch hch => ?_
    simpa using (hx.plain ch hch).2.1
  have hsplit : ('"' :: (v ++ '"' :: rest)).filter (· != '"') = v ++ rest := by
    rw [List.filter_cons_of_neg (by decide), List.filter_append, hkeep hv,
      List.filter_cons_of_neg (by decide), hkeep hrest]
  rw [hsplit]
  cases rest with
  | nil => simp [items]
  | cons b rest =>
    have hb : isSeparator b = true := by simpa using hapart
    rw [items, fields_append_cons hb, items, items, fields_cons hb]

/-! ## What is read -/

section Reads

variable {m : Machine} {n cfg cfg' : Text} (hawk : AwkReads m) (h : SameFile cfg cfg')
  (hbar : '|' ∉ n) (hbrace : '{' ∉ n)

include hawk h hbar hbrace

/-- `awk` prints the same, or it prints two lists with the same items. -/
theorem awkCfg_cases {k : Text} (hk : k.all isRegexLiteral = true) :
    awkCfg m cfg n k = awkCfg m cfg' n k ∨
      ∃ key v v' rest, k <:+: key ∧ IsListKey key ∧ ListText v ∧ ListText v' ∧ ListText rest ∧
        rest.head?.all isSeparator = true ∧ items v = items v' ∧
        awkCfg m cfg n k = '"' :: (v ++ '"' :: rest) ++ ['\n'] ∧
        awkCfg m cfg' n k = '"' :: (v' ++ '"' :: rest) ++ ['\n'] := by
  obtain ⟨sec, hsec, hscan⟩ := hawk.awkCfg_eq hbar hbrace
  rw [hscan cfg k hk, hscan cfg' k hk]
  rcases h.hit_eq hsec k with ⟨h₁, h₂⟩ | ⟨l, l', h₁, h₂, hsame⟩
  · rw [h₁, h₂]
    exact Or.inl rfl
  · rw [h₁, h₂]
    have hkey : k <:+: keyField l := by
      unfold hit at h₁
      simpa using List.find?_some h₁
    cases hsame with
    | refl => exact Or.inl rfl
    | @list key v v' rest hlist hv hv' hrest hapart hitems =>
      rw [keyField_append hlist.noEquals] at hkey
      have hvalue : ∀ {x : Text}, ListText x → '=' ∉ '"' :: (x ++ '"' :: rest) := fun hx hm => by
        rw [List.mem_cons, List.mem_append, List.mem_cons] at hm
        rcases hm with hm | hm | hm | hm
        · cases hm
        · exact (hx.plain '=' hm).1 rfl
        · cases hm
        · exact (hrest.plain '=' hm).1 rfl
      refine Or.inr ⟨key, v, v', rest, hkey, hlist, hv, hv', hrest, hapart, hitems, ?_, ?_⟩
      · rw [printed, valueField_append hlist.noEquals (hvalue hv)]
      · rw [printed, valueField_append hlist.noEquals (hvalue hv')]

/-- A setting that is no list is read alike. -/
theorem readCfg_reformat {k : Text} (hk : k = "conf".toList ∨ k = "host".toList) (fs : FS) (cwd : Path) :
    readCfg m fs cwd cfg n k = readCfg m fs cwd cfg' n k := by
  have hliteral : k.all isRegexLiteral = true := by rcases hk with rfl | rfl <;> decide +kernel
  rcases awkCfg_cases hawk h hbar hbrace hliteral with heq | ⟨key, -, -, -, hkey, hlist, -⟩
  · rw [readCfg, readCfg, heq]
  · rcases hk with rfl | rfl
    · exact absurd hkey hlist.noConf
    · exact absurd hkey hlist.noHost

/-- A list is read alike. -/
theorem listWords_reformat {k : Text} (hk : k.all isRegexLiteral = true) (fs : FS) (cwd : Path) :
    listWords m fs cwd (commandSubst (readCfg m fs cwd cfg n k)) =
      listWords m fs cwd (commandSubst (readCfg m fs cwd cfg' n k)) := by
  rcases awkCfg_cases hawk h hbar hbrace hk with heq |
    ⟨key, v, v', rest, -, -, hv, hv', hrest, hapart, hitems, h₁, h₂⟩
  · rw [readCfg, readCfg, heq]
  · have hone : ∀ {x : Text}, ListText x →
        listWords m fs cwd (commandSubst ((echo m (unquoted m fs cwd
          (commandSubst ('"' :: (x ++ '"' :: rest) ++ ['\n'])))).filter (· != '"'))) =
            items x ++ items rest := by
      intro x hx
      have hglob : ∀ ch ∈ x ++ '"' :: rest, isGlobChar ch = false := by
        intro ch hch
        rw [List.mem_append, List.mem_cons] at hch
        rcases hch with hch | rfl | hch
        · exact (hx.plain ch hch).2.2
        · rfl
        · exact (hrest.plain ch hch).2.2
      rw [listWords_printed m fs cwd hglob, items_of_list hx hrest hapart]
      rw [items_of_list hx hrest hapart]
      intro w hw
      rcases List.mem_append.mp hw with hw | hw
      · exact hx.items w hw
      · exact hrest.items w hw
    rw [readCfg, readCfg, h₁, h₂]
    exact (hone hv).trans ((congrArg (· ++ items rest) hitems).trans (hone hv').symm)

end Reads

/-! ## The phases -/

/-- The cluster with another nodes file. -/
def Cluster.withNodes (c : Cluster) (cfg : Text) : Cluster := { c with nodesCfg := cfg }

section WithNodes

variable (m : Machine) (c : Cluster) (cfg : Text)

@[simp] theorem inBuild_withNodes : (c.withNodes cfg).inBuild = c.inBuild := rfl
@[simp] theorem inConfig_withNodes : (c.withNodes cfg).inConfig = c.inConfig := rfl
@[simp] theorem inHome_withNodes : (c.withNodes cfg).inHome = c.inHome := rfl
@[simp] theorem homeSlash_withNodes : (c.withNodes cfg).homeSlash = c.homeSlash := rfl
@[simp] theorem clusterHomeDir_withNodes : (c.withNodes cfg).clusterHomeDir = c.clusterHomeDir := rfl
@[simp] theorem clusterConfigDir_withNodes : (c.withNodes cfg).clusterConfigDir = c.clusterConfigDir :=
  rfl
@[simp] theorem nodeconfdir_withNodes : (c.withNodes cfg).nodeconfdir = c.nodeconfdir := rfl
@[simp] theorem nodeConfFile_withNodes : (c.withNodes cfg).nodeConfFile = c.nodeConfFile := rfl
@[simp] theorem redisAuthPass_withNodes : (c.withNodes cfg).redisAuthPass = c.redisAuthPass := rfl
@[simp] theorem configInstance_withNodes : configInstance m (c.withNodes cfg) = configInstance m c := rfl
@[simp] theorem configScripts_withNodes : configScripts m (c.withNodes cfg) = configScripts m c := rfl
@[simp] theorem configTail_withNodes : configTail m (c.withNodes cfg) = configTail m c := rfl
@[simp] theorem configMarker_withNodes : configMarker m (c.withNodes cfg) = configMarker m c := rfl
@[simp] theorem copyScript_withNodes : copyScript m (c.withNodes cfg) = copyScript m c := rfl
@[simp] theorem chmodScript_withNodes : chmodScript m (c.withNodes cfg) = chmodScript m c := rfl
@[simp] theorem homeSubdirs_withNodes : homeSubdirs (c.withNodes cfg) = homeSubdirs c := rfl
@[simp] theorem deployInstall_withNodes : deployInstall m (c.withNodes cfg) = deployInstall m c := rfl
@[simp] theorem deployTail_withNodes : deployTail m (c.withNodes cfg) = deployTail m c := rfl
@[simp] theorem deployMarker_withNodes : deployMarker (c.withNodes cfg) = deployMarker c := rfl

end WithNodes

section Phases

variable {m : Machine} {c : Cluster} {cfg : Text} (hawk : AwkReads m) (h : SameFile c.nodesCfg cfg)

include hawk h

theorem setting_reformat {n k : Text} (hbar : '|' ∉ n) (hbrace : '{' ∉ n)
    (hk : k = "conf".toList ∨ k = "host".toList) :
    setting m (c.withNodes cfg) n k = setting m c n k := by
  refine congrArg look (funext fun sh => congrArg commandSubst ?_)
  exact (readCfg_reformat hawk h hbar hbrace hk sh.fs sh.cwd).symm

theorem listSetting_reformat {n k : Text} (hbar : '|' ∉ n) (hbrace : '{' ∉ n)
    (hk : k.all isRegexLiteral = true) :
    listSetting m (c.withNodes cfg) n k = listSetting m c n k :=
  congrArg look (funext fun sh => (listWords_reformat hawk h hbar hbrace hk sh.fs sh.cwd).symm)

theorem configNode_reformat {id : Text} (hbar : '|' ∉ id) (hbrace : '{' ∉ id) (pass : Text) :
    configNode m (c.withNodes cfg) pass id = configNode m c pass id := by
  have hread : readNode m (c.withNodes cfg) id = readNode m c id := by
    unfold readNode
    rw [setting_reformat hawk h hbar hbrace (Or.inl rfl),
      setting_reformat hawk h hbar hbrace (Or.inr rfl),
      listSetting_reformat hawk h hbar hbrace (by decide +kernel),
      listSetting_reformat hawk h hbar hbrace (by decide +kernel)]
    simp only [Cluster.tlsBranch_eq_false, Bool.false_eq_true, if_false]
  unfold configNode
  simp only [hread, nodeconfdir_withNodes, configInstance_withNodes, configScripts_withNodes]

theorem deployNode_reformat {id : Text} (hbar : '|' ∉ id) (hbrace : '{' ∉ id) :
    deployNode m (c.withNodes cfg) id = deployNode m c id := by
  have hfiles : deployFiles m (c.withNodes cfg) id = deployFiles m c id := by
    unfold deployFiles
    rw [listSetting_reformat hawk h hbar hbrace (by decide +kernel)]
    simp only [nodeConfFile_withNodes, clusterHomeDir_withNodes, inConfig_withNodes,
      homeSlash_withNodes, copyScript_withNodes, chmodScript_withNodes, inHome_withNodes]
  unfold deployNode
  rw [setting_reformat hawk h hbar hbrace (Or.inr rfl),
    listSetting_reformat hawk h hbar hbrace (by decide +kernel), hfiles]

/-- What is done with each node of the list. -/
theorem nodesList_reformat (hids : ∀ id, Listed m c id → '|' ∉ id ∧ '{' ∉ id)
    {body body' : Text → Script Shell Unit}
    (hbody : ∀ id, '|' ∉ id → '{' ∉ id → body' id = body id) (rest : Script Shell Unit) :
    (nodesList m (c.withNodes cfg) >>= fun ids => forEach ids body' >>= fun _ => rest) =
      (nodesList m c >>= fun ids => forEach ids body >>= fun _ => rest) := by
  refine look_bind_congr (fun sh => ?_) fun sh => ?_
  · exact (listWords_reformat hawk h (by decide +kernel) (by decide +kernel) (by decide +kernel)
      sh.fs sh.cwd).symm
  · rw [forEach_congr fun id hid => ?_]
    obtain ⟨hbar, hbrace⟩ := hids id ⟨_, ⟨sh.fs, sh.cwd, rfl⟩, hid⟩
    exact hbody id hbar hbrace

end Phases

/-! ## Two ways to write a list -/

/-- A nodes file with `v` for the ports of its node. -/
def portsLines (v : String) : List String :=
  ["[redis_cluster]", "nodes=\"n1\"", "[n1]", "host=\"hacl-node1\"", "conf=\"c0\"", "addrs=\"a1\"",
    "ports=\"" ++ v ++ "\"", ""]

def portsCfg (v : String) : Text := ['\n'].intercalate ((portsLines v).map String.toList)

theorem awkReads_plainHost : AwkReads plainHost := by
  refine fun n _ _ => ⟨fun _ => false, by simp, fun cfg k _ => ?_⟩
  have hdrop : (records cfg).dropWhile (fun _ => !false) = [] :=
    List.dropWhile_eq_nil_iff.mpr fun _ _ => rfl
  rw [hit, hdrop]
  rfl

instance (k : Text) : Decidable (IsListKey k) :=
  decidable_of_iff ('=' ∉ k ∧ '[' ∉ k ∧ ¬ "conf".toList <:+: k ∧ ¬ "host".toList <:+: k)
    ⟨fun ⟨h1, h2, h3, h4⟩ => ⟨h1, h2, h3, h4⟩,
      fun h => ⟨h.noEquals, h.noBracket, h.noConf, h.noHost⟩⟩

/-- That a text is one of a list can be computed. -/
theorem listText_of_all {v : Text} (h : v.all (fun ch => ch != '=' && ch != '"' && !isGlobChar ch) = true)
    (hitems : (items v).all (fun w => w.head? != some '-') = true) : ListText v where
  plain ch hch := by
    have hok := List.all_eq_true.mp h ch hch
    simp only [Bool.and_eq_true, bne_iff_ne, ne_eq, Bool.not_eq_true'] at hok
    exact ⟨hok.1.1, hok.1.2, hok.2⟩
  items w hw := by simpa using List.all_eq_true.mp hitems w hw

/-- Two files with one list between the same lines. -/
theorem sameFile_of_lines {cfg cfg' k v v' : Text} {before after : List Text} (hk : IsListKey k)
    (hv : ListText v) (hv' : ListText v') (hitems : items v = items v')
    (hcfg : lines cfg = before ++ (k ++ '=' :: '"' :: (v ++ ['"'])) :: after)
    (hcfg' : lines cfg' = before ++ (k ++ '=' :: '"' :: (v' ++ ['"'])) :: after) :
    SameFile cfg cfg' := by
  have hsame : ∀ ls : List Text, List.Forall₂ SameLine ls ls :=
    fun ls => List.forall₂_same.mpr fun l _ => .refl l
  have hnil : ListText [] := listText_of_all rfl rfl
  rw [SameFile, hcfg, hcfg']
  exact List.rel_append (hsame before) (.cons (.list hk hv hv' hnil rfl hitems) (hsame after))

def portsCluster : Cluster :=
  demoCluster demoIni (demoInputs demoIni (portsCfg "6377 6378") "t".toList "s".toList "s".toList)

/-- What the pattern made of `a|(1).2|b` matches. -/
def matchesPattern (r : Text) : Bool :=
  "[a".toList <:+: r || "b]".toList <:+: r || r.any fun ch => ['1', ch, '2'] <:+: r

/-- A host whose `awk` takes that id as the pattern it is. -/
def patternHost : Machine :=
  { plainHost with
    awkOther := fun cfg n k =>
      if n = "a|(1).2|b".toList then printed (hit matchesPattern k cfg) else [] }

/-- A node with that id, behind one whose addresses are `1` and `2`. -/
def patternCfg (sep : String) : Text :=
  ("[redis_cluster]\nnodes=\"n0 a|(1).2|b\"\n[n0]\naddrs=\"1" ++ sep ++
    "2\"\nhost=\"h0\"\nconf=\"c0\"\nports=\"6376\"\n[a|(1).2|b]\naddrs=\"a1\"\nhost=\"h1\"\nconf=\"c0\"\nports=\"6377\"\n").toList

def patternCluster (sep : String) : Cluster :=
  demoCluster demoIni (demoInputs demoIni (patternCfg sep) "t".toList "s".toList "s".toList)

theorem sameFile_patternCfg : SameFile (patternCfg " ") (patternCfg ", ") := by
  have hlines : ∀ sep ∈ [" ", ", "], lines (patternCfg sep) =
      ["[redis_cluster]", "nodes=\"n0 a|(1).2|b\"", "[n0]"].map String.toList ++
        ("addrs".toList ++ '=' :: '"' :: (("1" ++ sep ++ "2").toList ++ ['"'])) ::
          ["host=\"h0\"", "conf=\"c0\"", "ports=\"6376\"", "[a|(1).2|b]", "addrs=\"a1\"", "host=\"h1\"",
            "conf=\"c0\"", "ports=\"6377\"", ""].map String.toList := by
    decide +kernel
  exact sameFile_of_lines (by decide +kernel) (listText_of_all (by decide +kernel) (by decide +kernel))
    (listText_of_all (by decide +kernel) (by decide +kernel)) (by decide +kernel)
    (hlines _ (by simp)) (hlines _ (by simp))

end RedisCluster
