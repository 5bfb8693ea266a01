import RedisCluster.Common.WriteCfg

/-!
# Reading what was written

`write_cfg` rewrites the lines of a section that its pattern takes for the key's;
`read_cfg` prints the value of the first line, from the first mention of the
section on, that has the key somewhere in front of its `=`.

* `rewrites`: the lines of a file, with a mark on those that `write_cfg` rewrites.
* `readLine`: the line that is read after the writing; `awkHit_writeCfg`.
* `readCfg_writeCfg_iff`: when the value that was written is read.
-/

namespace RedisCluster

/-! ## The written file -/

/-- The lines, and whether `write_cfg` rewrites them; the flag says whether the lines are in
    section `s`. -/
def rewrites (s k : Text) : Bool → List Text → List (Text × Bool)
  | _, [] => []
  | inside, l :: ls =>
    match headerName l with
    | some n => (l, false) :: rewrites s k (n == s) ls
    | none => (l, inside && starKey k l) :: rewrites s k inside ls

/-- The line that a marked line becomes. -/
def rewritten (k v : Text) (x : Text × Bool) : Text := if x.2 then k ++ '=' :: v else x.1

/-- The line that is read after the writing: from the first mention of the section on, the
    first one that is rewritten or has the key in its first field. -/
def readLine (s k : Text) (ls : List Text) : Option (Text × Bool) :=
  ((rewrites s k false ls).dropWhile fun x => ¬ bracketed s <:+: x.1).find? fun x =>
    x.2 || decide (k <:+: keyField x.1)

section Rewrites

variable {s k v : Text}

/-- In front of the section nothing is rewritten. -/
theorem rewrites_cons_of_ne {l : Text} (h : headerName l ≠ some s) (ls : List Text) :
    rewrites s k false (l :: ls) = (l, false) :: rewrites s k false ls := by
  rw [rewrites]
  split
  · next n hn =>
    have hne : n ≠ s := by
      rintro rfl
      exact h hn
    rw [beq_eq_false_iff_ne.mpr hne]
  · rfl

theorem mapSection_editLine {ls : List Text} {inside : Bool}
    (h : ∀ l ∈ ls, l.head? = some '[' → (headerName l).isSome = true) :
    mapSection s (editLine s k v) inside ls = (rewrites s k inside ls).map (rewritten k v) := by
  induction ls generalizing inside with
  | nil => rfl
  | cons l ls ih =>
    have ih := fun {b} => @ih b fun l' hl' => h l' (by simp [hl'])
    cases hl : headerName l with
    | some n =>
      rw [mapSection_cons_of_some hl, rewrites, hl, List.map_cons, ih]
      rfl
    | none =>
      have hhead : l.head? ≠ some '[' := by
        intro he
        have := h l (by simp) he
        rw [hl] at this
        cases this
      have hprefix : ¬ (bracketed s).isPrefixOf l = true := by
        rw [List.isPrefixOf_iff_prefix]
        rintro ⟨r, rfl⟩
        exact hhead rfl
      have hline : (if inside then editLine s k v l else l) =
          rewritten k v (l, inside && starKey k l) := by
        have hbeq : ¬ (l.head? == some '[') = true := by simpa using hhead
        rw [editLine, if_neg hprefix, if_neg hbeq, rewritten]
        cases inside <;> simp
      rw [mapSection_cons_of_none hl, rewrites, hl, List.map_cons, ih, hline]

/-- Up to the first mention of the section nothing is rewritten. -/
theorem dropWhile_rewrites (hs : ']' ∉ s) (ls : List Text) :
    ((rewrites s k false ls).dropWhile fun x => ¬ bracketed s <:+: rewritten k v x) =
      (rewrites s k false ls).dropWhile fun x => ¬ bracketed s <:+: x.1 := by
  induction ls with
  | nil => rfl
  | cons l ls ih =>
    by_cases hmention : bracketed s <:+: l
    · have hfirst : ∃ xs, rewrites s k false (l :: ls) = (l, false) :: xs := by
        rw [rewrites]
        split <;> exact ⟨_, rfl⟩
      obtain ⟨xs, hxs⟩ := hfirst
      rw [hxs, List.dropWhile_cons_of_neg (by simpa [rewritten] using hmention),
        List.dropWhile_cons_of_neg (by simpa using hmention)]
    · have hne : headerName l ≠ some s := by
        intro hl
        have hprefix := List.isPrefixOf_iff_prefix.mp ((isPrefixOf_bracketed_iff hs).mpr hl)
        exact hmention hprefix.isInfix
      rw [rewrites_cons_of_ne hne, List.dropWhile_cons_of_pos (by simpa [rewritten] using hmention),
        List.dropWhile_cons_of_pos (by simpa using hmention), ih]

theorem mem_rewrites_of_mem_takeWhile {ls : List Text} {l : Text}
    (h : l ∈ ls.takeWhile fun l => headerName l = none) :
    (l, starKey k l) ∈ rewrites s k true ls := by
  induction ls with
  | nil => cases h
  | cons l' ls ih =>
    cases hl : headerName l' with
    | some n => simp [hl] at h
    | none =>
      rw [List.takeWhile_cons_of_pos (by simp [hl]), List.mem_cons] at h
      rw [rewrites, hl]
      rcases h with rfl | h
      · simp
      · exact List.mem_cons_of_mem _ (ih h)

/-- The lines of the section come after its first mention. -/
theorem mem_dropWhile_rewrites (hs : ']' ∉ s) {ls : List Text} {l : Text}
    (h : l ∈ sectionBody s ls) :
    (l, starKey k l) ∈ (rewrites s k false ls).dropWhile fun x => ¬ bracketed s <:+: x.1 := by
  induction ls with
  | nil => simp [sectionBody] at h
  | cons l' ls ih =>
    by_cases hl : headerName l' = some s
    · have hmention : bracketed s <:+: l' :=
        (List.isPrefixOf_iff_prefix.mp ((isPrefixOf_bracketed_iff hs).mpr hl)).isInfix
      rw [sectionBody_cons_of_eq hl] at h
      rw [rewrites, hl]
      dsimp only
      rw [List.dropWhile_cons_of_neg (by simpa using hmention), beq_self_eq_true]
      exact List.mem_cons_of_mem _ (mem_rewrites_of_mem_takeWhile h)
    · rw [sectionBody_cons_of_ne hl] at h
      have htail := ih h
      rw [rewrites_cons_of_ne hl]
      by_cases hmention : bracketed s <:+: l'
      · rw [List.dropWhile_cons_of_neg (by simpa using hmention)]
        exact List.mem_cons_of_mem _ ((List.dropWhile_sublist _).subset htail)
      · rwa [List.dropWhile_cons_of_pos (by simpa using hmention)]

end Rewrites

/-! ## The line that is read -/

/-- An empty line at the end is no hit. -/
theorem awkHit_eq_lines {cfg s k : Text} (hk : k ≠ []) : awkHit cfg s k =
    ((lines cfg).dropWhile fun r => ¬ bracketed s <:+: r).find? fun r => k <:+: keyField r := by
  have hnil : ¬ k <:+: keyField [] := by
    intro h
    exact hk (List.infix_nil.mp h)
  unfold awkHit records
  split
  · next hlast =>
    have hne := lines_ne_nil cfg
    have hsplit : lines cfg = (lines cfg).dropLast ++ [[]] := by
      conv_lhs => rw [← List.dropLast_append_getLast hne]
      rw [List.getLast?_eq_some_getLast hne, Option.some.injEq] at hlast
      rw [hlast]
    conv_rhs => rw [hsplit]
    rw [List.dropWhile_append]
    split
    · next hempty =>
      rw [List.isEmpty_iff] at hempty
      have hmention : ¬ bracketed s <:+: [] := by
        intro h
        cases List.infix_nil.mp h
      rw [hempty]
      simp [hmention]
    · rw [List.find?_append]
      simp [hnil]
  · rfl

/-- What `read_cfg` makes of a value. -/
def shownValue (m : Machine) (fs : FS) (cwd : Path) (t : Text) : Text :=
  commandSubst ((echo m (unquoted m fs cwd t)).filter (· != '"'))

/-- A letter, a digit, or what else stands in addresses and lists of them. -/
def isSettingChar (c : Char) : Bool :=
  isWordChar c || c == '.' || c == ':' || c == '-' || c == ' ' || c == '\t'

section ReadLine

variable {cfg s k v : Text}

theorem awkHit_writeCfg (other : (cfgFile sectionName keyName newVal : Text) → Text)
    (hcfg : SectionFile cfg) (hs : IsIdent s) (hk : IsIdent k) (hv : PlainValue v) :
    awkHit (writeCfg other cfg s k v) s k = (readLine s k (lines cfg)).map (rewritten k v) := by
  have hbracket : ']' ∉ s := fun h => absurd (hs.2 _ h) (by decide)
  have hequals : '=' ∉ k := fun h => absurd (hk.2 _ h) (by decide)
  have hfield : keyField (k ++ '=' :: v) = k := by
    refine takeWhile_append_cons (fun c hc => ?_) (by decide) _
    simpa using fun he : c = '=' => hequals (he ▸ hc)
  have hfind : ∀ x : Text × Bool, decide (k <:+: keyField (rewritten k v x)) =
      (x.2 || decide (k <:+: keyField x.1)) := by
    rintro ⟨l, b⟩
    cases b with
    | true => simp [rewritten, hfield]
    | false => simp [rewritten]
  rw [awkHit_eq_lines hk.1, lines_writeCfg other hcfg hs hk hv, mapSection_editLine hcfg.headers,
    List.dropWhile_map, List.find?_map, readLine]
  have hcut := @dropWhile_rewrites s k v hbracket (lines cfg)
  have hfind' : ((fun r => decide (k <:+: keyField r)) ∘ rewritten k v) =
      fun x : Text × Bool => x.2 || decide (k <:+: keyField x.1) := funext hfind
  rw [hfind']
  exact congrArg (fun xs => (List.find? _ xs).map _) hcut

/-- A section with the key has a line that is read. -/
theorem readLine_isSome (hs : IsIdent s) (hk : IsIdent k)
    (hline : ∃ l ∈ sectionBody s (lines cfg), isEntry k l = true) :
    ∃ x, readLine s k (lines cfg) = some x := by
  have hbracket : ']' ∉ s := fun h => absurd (hs.2 _ h) (by decide)
  have hequals : '=' ∉ k := fun h => absurd (hk.2 _ h) (by decide)
  obtain ⟨l, hl, hentry⟩ := hline
  have hmem := mem_dropWhile_rewrites (k := k) hbracket hl
  rw [starKey_of_isEntry hk.1 hequals hentry] at hmem
  rw [← Option.isSome_iff_exists, readLine, List.find?_isSome]
  exact ⟨_, hmem, rfl⟩

/-- `echo` shows a value as it stands exactly when it is stable: it drops an option at the front,
    and prints single blanks. -/
theorem shownValue_eq_self_iff (m : Machine) (fs : FS) (cwd : Path) {t : Text}
    (ht : ∀ c ∈ t, isSettingChar c = true) : shownValue m fs cwd t = t ↔ EchoStable t := by
  have hglob : ∀ c ∈ t, isGlobChar c = false := by
    intro c hc
    rw [Bool.eq_false_iff]
    intro hglob
    simp only [isGlobChar, Bool.or_eq_true, beq_iff_eq] at hglob
    rcases hglob with (rfl | rfl) | rfl <;> exact absurd (ht _ hc) (by decide)
  have hword : ∀ w ∈ words t, IsWord w := fun w hw => isWord_of_mem_words hw
  have hchars : ∀ ws, (∀ w ∈ ws, w ∈ words t) → ∀ c ∈ join ws, isSettingChar c = true := by
    intro ws hws c hc
    rcases mem_join hc with rfl | ⟨w, hw, hcw⟩
    · decide
    · exact ht c (mem_of_mem_words (hws w hw) c hcw)
  have hprinted : ∀ ws, (∀ w ∈ ws, w ∈ words t) →
      commandSubst ((join ws).filter (· != '"')) = join ws := by
    intro ws hws
    have hquotes : (join ws).filter (· != '"') = join ws := by
      rw [List.filter_eq_self]
      intro c hc
      simpa using fun he : c = '"' => absurd (hchars ws hws c hc) (by rw [he]; decide)
    rw [hquotes, commandSubst_eq_self]
    exact fun hc => absurd (hchars ws hws _ hc) (by decide)
  have hline : ∀ ws, (∀ w ∈ ws, w ∈ words t) →
      commandSubst ((join ws ++ ['\n']).filter (· != '"')) = join ws := by
    intro ws hws
    have hnl : (['\n'] : Text).filter (· != '"') = ['\n'] := by decide
    rw [List.filter_append, hnl, commandSubst_newline, hprinted ws hws]
  unfold shownValue EchoStable
  rw [unquoted_of_not_glob m fs cwd hglob]
  cases hoption : (words t).head?.any isEchoOption with
  | false =>
    rw [echo_of_not_option m hoption, hline _ fun _ h => h]
    simp
  | true =>
    have hrest : ∀ w ∈ (words t).dropWhile isEchoOption, w ∈ words t :=
      fun w hw => (List.dropWhile_sublist _).subset hw
    have hshown : commandSubst ((echo m (words t)).filter (· != '"')) =
        join ((words t).dropWhile isEchoOption) := by
      have hbackslash : '\\' ∉ join ((words t).dropWhile isEchoOption) :=
        fun h => absurd (hchars _ hrest _ h) (by decide)
      rcases echo_of_not_backslash m hbackslash with hecho | hecho <;> rw [hecho]
      · exact hprinted _ hrest
      · exact hline _ hrest
    rw [hshown]
    -- the words that are left are fewer than those of the text
    have hfewer : join ((words t).dropWhile isEchoOption) ≠ t := by
      intro heq
      have hwords := words_join fun w hw => hword w (hrest w hw)
      rw [heq] at hwords
      cases hws : words t with
      | nil => simp [hws] at hoption
      | cons a ws =>
        rw [hws, List.head?_cons, Option.any_some] at hoption
        rw [hws, List.dropWhile_cons_of_pos hoption] at hwords
        have hlen := (List.dropWhile_sublist (l := ws) isEchoOption).length_le
        rw [← hwords, List.length_cons] at hlen
        omega
    simp [hfewer]

/-- What `read_cfg` prints is what `echo` shows of the value at the hit. -/
theorem readCfg_eq_shownValue (m : Machine) (fs : FS) (cwd : Path) (hs : IsIdent s)
    (hk : IsIdent k) : commandSubst (readCfg m fs cwd cfg s k) =
      shownValue m fs cwd (((awkHit cfg s k).map valueField).getD []) := by
  unfold readCfg awkCfg shownValue
  rw [if_pos ⟨all_isRegexLiteral hs, all_isRegexLiteral hk⟩]
  cases hhit : awkHit cfg s k with
  | none => rfl
  | some r =>
    have hr : '\n' ∉ valueField r := by
      rw [awkHit_eq_lines hk.1] at hhit
      have hmem := (List.dropWhile_sublist _).subset (List.mem_of_find?_eq_some hhit)
      exact fun h => newline_not_mem_of_mem_lines hmem (mem_of_mem_valueField h)
    simp only [Option.map_some, Option.getD_some]
    rw [commandSubst_newline, commandSubst_eq_self hr]

/-- **What is written is read** exactly when the line that is read is one that was rewritten,
    and `echo` shows the value as it stands; or when it is another line, and its value happens
    to show the same text. -/
theorem readCfg_writeCfg_iff (m : Machine) (fs : FS) (cwd : Path)
    (other : (cfgFile sectionName keyName newVal : Text) → Text) (hcfg : SectionFile cfg)
    (hs : IsIdent s) (hk : IsIdent k) (hv : ∀ c ∈ v, isSettingChar c = true)
    (hline : ∃ l ∈ sectionBody s (lines cfg), isEntry k l = true) :
    commandSubst (readCfg m fs cwd (writeCfg other cfg s k v) s k) = v ↔
      ∃ x, readLine s k (lines cfg) = some x ∧
        if x.2 then EchoStable v else shownValue m fs cwd (valueField x.1) = v := by
  have hequals : '=' ∉ k := fun h => absurd (hk.2 _ h) (by decide)
  have hplain : PlainValue v := by
    refine ⟨?_, ?_, ?_, ?_⟩ <;> exact fun h => absurd (hv _ h) (by decide)
  obtain ⟨x, hx⟩ := readLine_isSome hs hk hline
  have hread : commandSubst (readCfg m fs cwd (writeCfg other cfg s k v) s k) =
      shownValue m fs cwd (valueField (rewritten k v x)) := by
    rw [readCfg_eq_shownValue m fs cwd hs hk, awkHit_writeCfg other hcfg hs hk hplain, hx]
    rfl
  rw [hread, hx]
  simp only [Option.some.injEq, exists_eq_left']
  cases hb : x.2 with
  | false => simp [rewritten, hb]
  | true =>
    have hvalue : valueField (rewritten k v x) = v := by
      have hdrop : (k ++ '=' :: v).dropWhile (· != '=') = '=' :: v := by
        refine dropWhile_append_cons (fun c hc => ?_) (by decide) _
        simpa using fun he : c = '=' => hequals (he ▸ hc)
      have hfield := keyField_eq_self (t := v) fun h => absurd (hv _ h) (by decide)
      unfold keyField at hfield
      rw [rewritten, if_pos hb, valueField, hdrop, List.drop_succ_cons, List.drop_zero, hfield]
    rw [hvalue, if_pos rfl]
    exact shownValue_eq_self_iff m fs cwd hv

end ReadLine

/-! ## Two files -/

/-- A node with `ports` before `tlsports`. -/
def portsFirstCfg : Text := "[node1]\nports=6377\ntlsports=5377\n".toList

/-- The same node with the two keys the other way round. -/
def tlsportsFirstCfg : Text := "[node1]\ntlsports=5377\nports=6377\n".toList

theorem readCfg_writeCfg_ports :
    commandSubst (readCfg plainHost (fun _ => none) [] (writeCfg (fun _ _ _ _ => []) portsFirstCfg
      "node1".toList "ports".toList "6379 6380".toList) "node1".toList "ports".toList) =
        "6379 6380".toList := by
  refine (readCfg_writeCfg_iff plainHost (fun _ => none) [] _ ⟨by decide +kernel, by decide +kernel⟩
    (by decide +kernel) (by decide +kernel) (List.all_eq_true.mp (by decide +kernel))
    ⟨"ports=6377".toList, by decide +kernel, by decide +kernel⟩).mpr ?_
  exact ⟨("ports=6377".toList, true), by decide +kernel, by decide +kernel⟩

/-- With `tlsports` first, its value is read instead of the one that was written to `ports`. -/
theorem readCfg_writeCfg_tlsports :
    SectionFile tlsportsFirstCfg ∧ IsIdent "node1".toList ∧ IsIdent "ports".toList ∧
      (∃ l ∈ sectionBody "node1".toList (lines tlsportsFirstCfg),
        isEntry "ports".toList l = true) ∧
      "6379".toList.all isSettingChar = true ∧
      commandSubst (readCfg plainHost (fun _ => none) [] (writeCfg (fun _ _ _ _ => [])
        tlsportsFirstCfg "node1".toList "ports".toList "6379".toList) "node1".toList
          "ports".toList) = "5377".toList :=
  ⟨⟨by decide +kernel, by decide +kernel⟩, by decide +kernel, by decide +kernel,
    ⟨"ports=6377".toList, by decide +kernel, by decide +kernel⟩, by decide +kernel,
    by decide +kernel⟩

end RedisCluster
