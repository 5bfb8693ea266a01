import RedisCluster.Common.ReadCfg

/-!
# `write_cfg`

Lines 192–200 of `common.sh`. Its `sed` script edits the lines from the header of the
section to the next line with a bracket in front; there it replaces what the pattern
`^K*=.*` matches, whose star repeats the last letter of the key.

* `setCfg`: what `write_cfg` is for.
* `writeCfg_eq_setCfg_iff`: when it does that.
-/

namespace RedisCluster

/-- What the pattern `^K*=` matches at the front of a line: the key without its last
    letter, that letter any number of times, and `=`. -/
def starKey (k l : Text) : Bool :=
  k.dropLast.isPrefixOf l &&
    ((l.drop k.dropLast.length).dropWhile fun c => some c == k.getLast?).head? == some '='

/-- `/^\[S\]/b;/^\[/b;s/^K*=.*/K=V/g` -/
def editLine (s k v l : Text) : Text :=
  if (bracketed s).isPrefixOf l then l
  else if l.head? == some '[' then l
  else if starKey k l then k ++ '=' :: v
  else l

/-- `/^\[S\]/,/^\[/{...}`, inside the range or outside of it. The line that opens the
    range is not looked at for its end; the line that ends it is still edited. -/
def editRange (s k v : Text) : Bool → List Text → List Text
  | _, [] => []
  | true, l :: ls => editLine s k v l :: editRange s k v (l.head? != some '[') ls
  | false, l :: ls =>
    if (bracketed s).isPrefixOf l then editLine s k v l :: editRange s k v true ls
    else l :: editRange s k v false ls

/-- `write_cfg` (lines 192–200): what it leaves in the file. `other` is what `sed` makes
    of names and values that mean more to it than themselves. -/
def writeCfg (other : (cfgFile sectionName keyName newVal : Text) → Text) (cfg s k v : Text) : Text :=
  if s.all isRegexLiteral ∧ k.all isRegexLiteral ∧ k ≠ [] ∧ PlainValue v then
    ['\n'].intercalate (editRange s k v false (lines cfg))
  else other cfg s k v

/-! ## Sections -/

/-- The name in the brackets at the front of a line. -/
def headerName : Text → Option Text
  | '[' :: r => if ']' ∈ r then some (r.takeWhile (· ≠ ']')) else none
  | _ => none

/-- A file whose lines with a bracket in front are headers, of different sections. -/
structure SectionFile (cfg : Text) : Prop where
  headers : ∀ l ∈ lines cfg, l.head? = some '[' → (headerName l).isSome = true
  distinct : ((lines cfg).filterMap headerName).Nodup

/-- `K=...` -/
def isEntry (k l : Text) : Bool := (k ++ ['=']).isPrefixOf l

/-- The lines of section `s`: from its header to the next one. -/
def sectionBody (s : Text) (ls : List Text) : List Text :=
  ((ls.dropWhile fun l => headerName l ≠ some s).drop 1).takeWhile fun l => headerName l = none

/-- Rewrite the lines of section `s` by `f`; the flag says whether the lines are in it. -/
def mapSection (s : Text) (f : Text → Text) : Bool → List Text → List Text
  | _, [] => []
  | inside, l :: ls =>
    match headerName l with
    | some n => l :: mapSection s f (n == s) ls
    | none => (if inside then f l else l) :: mapSection s f inside ls

/-- A line `K=...` becomes `K=V`. -/
def setLine (k v l : Text) : Text := if isEntry k l then k ++ '=' :: v else l

/-- **What `write_cfg` is for**: each line `K=...` of section `s` becomes `K=V`. -/
def setCfg (cfg s k v : Text) : Text :=
  ['\n'].intercalate (mapSection s (setLine k v) false (lines cfg))

/-- The pattern takes the line for an entry of the key, but it has another key. -/
def Mistaken (k l : Text) : Prop := starKey k l = true ∧ isEntry k l = false

instance (k l : Text) : Decidable (Mistaken k l) := inferInstanceAs (Decidable (_ ∧ _))

/-! ## The pattern -/

theorem head?_of_headerName {l n : Text} (h : headerName l = some n) : l.head? = some '[' := by
  unfold headerName at h
  split at h
  · rfl
  · cases h

theorem takeWhile_bracket {s : Text} (hs : ']' ∉ s) (r : Text) :
    (s ++ ']' :: r).takeWhile (· ≠ ']') = s := by
  refine takeWhile_append_cons (fun c hc => ?_) (by decide) r
  simpa using fun he : c = ']' => hs (he ▸ hc)

/-- The address `/^\[S\]/` finds the headers of section `s`. -/
theorem isPrefixOf_bracketed_iff {s l : Text} (hs : ']' ∉ s) :
    (bracketed s).isPrefixOf l = true ↔ headerName l = some s := by
  rw [List.isPrefixOf_iff_prefix, bracketed]
  constructor
  · rintro ⟨r, rfl⟩
    rw [List.cons_append, List.append_assoc, List.singleton_append, headerName, if_pos (by simp),
      takeWhile_bracket hs]
  · intro h
    unfold headerName at h
    split at h
    · next r =>
      split at h
      · next hmem =>
        obtain ⟨u, w, rfl, hu⟩ := List.eq_append_cons_of_mem hmem
        rw [takeWhile_bracket hu, Option.some.injEq] at h
        subst h
        exact ⟨w, by simp⟩
      · cases h
    · cases h

/-- A line `K=...` matches the pattern. -/
theorem starKey_of_isEntry {k l : Text} (hk : k ≠ []) (heq : '=' ∉ k) (h : isEntry k l = true) :
    starKey k l = true := by
  obtain ⟨r, rfl⟩ := List.isPrefixOf_iff_prefix.mp h
  have hlast := List.dropLast_append_getLast hk
  have hne : k.getLast hk ≠ '=' := fun he => heq (he ▸ List.getLast_mem hk)
  have hsplit : k ++ ['='] ++ r = k.dropLast ++ (k.getLast hk :: '=' :: r) := by
    conv_lhs => rw [← hlast]
    simp
  rw [starKey, hsplit, Bool.and_eq_true, List.isPrefixOf_iff_prefix, List.drop_left]
  refine ⟨List.prefix_append _ _, ?_⟩
  simp [List.getLast?_eq_some_getLast hk, hne.symm]

/-! ## The range -/

section Range

variable {s k v : Text}

theorem mapSection_cons_of_some {f : Text → Text} {l n : Text} (h : headerName l = some n)
    (inside : Bool) (ls : List Text) :
    mapSection s f inside (l :: ls) = l :: mapSection s f (n == s) ls := by
  rw [mapSection, h]

theorem mapSection_cons_of_none {f : Text → Text} {l : Text} (h : headerName l = none)
    (inside : Bool) (ls : List Text) :
    mapSection s f inside (l :: ls) = (if inside then f l else l) :: mapSection s f inside ls := by
  rw [mapSection, h]

theorem editLine_of_headerName {l n : Text} (h : headerName l = some n) :
    editLine s k v l = l := by
  rw [editLine, head?_of_headerName h]
  split <;> rfl

/-- The range is the section, if its header comes once and every bracket begins a header. -/
theorem editRange_eq_mapSection (hs : ']' ∉ s) {ls : List Text}
    (hheaders : ∀ l ∈ ls, l.head? = some '[' → (headerName l).isSome = true)
    (hdistinct : (ls.filterMap headerName).Nodup) {inside : Bool}
    (hinside : inside = true → s ∉ ls.filterMap headerName) :
    editRange s k v inside ls = mapSection s (editLine s k v) inside ls := by
  induction ls generalizing inside with
  | nil => cases inside <;> rfl
  | cons l ls ih =>
    have ih := @ih fun l' hl' => hheaders l' (by simp [hl'])
    cases hl : headerName l with
    | none =>
      have hhead : l.head? ≠ some '[' := by
        intro he
        have := hheaders l (by simp) he
        rw [hl] at this
        cases this
      have hprefix : ¬ (bracketed s).isPrefixOf l = true := by
        rw [isPrefixOf_bracketed_iff hs, hl]
        simp
      rw [List.filterMap_cons_none hl] at hdistinct hinside
      rw [mapSection_cons_of_none hl]
      cases inside with
      | true =>
        have hbne : (l.head? != some '[') = true := by simpa using hhead
        rw [editRange, hbne, ih hdistinct hinside]
        rfl
      | false =>
        rw [editRange, if_neg hprefix, ih hdistinct hinside]
        rfl
    | some n =>
      rw [List.filterMap_cons_some hl] at hdistinct hinside
      obtain ⟨hn, hdistinct⟩ := List.nodup_cons.mp hdistinct
      have hbeq : (l.head? != some '[') = false := by simp [head?_of_headerName hl]
      rw [mapSection_cons_of_some hl]
      by_cases hns : n = s
      · subst hns
        cases inside with
        | true => exact absurd (hinside rfl) (by simp)
        | false =>
          rw [editRange, if_pos ((isPrefixOf_bracketed_iff hs).mpr hl), editLine_of_headerName hl,
            ih hdistinct fun _ => hn]
          simp
      · have hprefix : ¬ (bracketed s).isPrefixOf l = true := by
          rw [isPrefixOf_bracketed_iff hs, hl]
          simpa using hns
        have hnbeq : (n == s) = false := by simpa using hns
        cases inside with
        | true =>
          rw [editRange, hbeq, editLine_of_headerName hl, hnbeq, ih hdistinct (by simp)]
        | false =>
          rw [editRange, if_neg hprefix, hnbeq, ih hdistinct (by simp)]

theorem sectionBody_cons_of_ne {l : Text} (h : headerName l ≠ some s) (ls : List Text) :
    sectionBody s (l :: ls) = sectionBody s ls := by
  simp [sectionBody, h]

theorem sectionBody_cons_of_eq {l : Text} (h : headerName l = some s) (ls : List Text) :
    sectionBody s (l :: ls) = ls.takeWhile fun l => headerName l = none := by
  simp [sectionBody, h]

/-- Outside of the section nothing is rewritten. -/
theorem mapSection_of_not_mem {f : Text → Text} {ls : List Text}
    (h : s ∉ ls.filterMap headerName) : mapSection s f false ls = ls := by
  induction ls with
  | nil => rfl
  | cons l ls ih =>
    cases hl : headerName l with
    | none =>
      rw [List.filterMap_cons_none hl] at h
      rw [mapSection_cons_of_none hl, ih h]
      rfl
    | some n =>
      rw [List.filterMap_cons_some hl, List.mem_cons, not_or] at h
      have hns : (n == s) = false := by simpa using Ne.symm h.1
      rw [mapSection_cons_of_some hl, hns, ih h.2]

/-- Two rewritings of a section agree when they do so on its lines. -/
theorem mapSection_eq_iff {f g : Text → Text} {ls : List Text}
    (hdistinct : (ls.filterMap headerName).Nodup) {inside : Bool}
    (hinside : inside = true → s ∉ ls.filterMap headerName) :
    mapSection s f inside ls = mapSection s g inside ls ↔
      ∀ l ∈ if inside then ls.takeWhile (fun l => headerName l = none) else sectionBody s ls,
        f l = g l := by
  induction ls generalizing inside with
  | nil => cases inside <;> simp [mapSection, sectionBody]
  | cons l ls ih =>
    cases hl : headerName l with
    | none =>
      rw [mapSection_cons_of_none hl, mapSection_cons_of_none hl]
      rw [List.filterMap_cons_none hl] at hdistinct hinside
      have ih := ih hdistinct hinside
      cases inside with
      | true => simpa [hl] using fun _ => ih
      | false =>
        rw [sectionBody_cons_of_ne (by simp [hl])]
        simpa using ih
    | some n =>
      rw [mapSection_cons_of_some hl, mapSection_cons_of_some hl]
      rw [List.filterMap_cons_some hl] at hdistinct hinside
      obtain ⟨hn, hdistinct⟩ := List.nodup_cons.mp hdistinct
      by_cases hns : n = s
      · subst hns
        have ih := @ih hdistinct true fun _ => hn
        cases inside with
        | true => exact absurd (hinside rfl) (by simp)
        | false =>
          rw [sectionBody_cons_of_eq hl]
          simpa using ih
      · have hnbeq : (n == s) = false := by simpa using hns
        cases inside with
        | true =>
          have hrest : s ∉ ls.filterMap headerName := fun h => hinside rfl (by simp [h])
          simp [hnbeq, mapSection_of_not_mem hrest, hl]
        | false =>
          have ih := @ih hdistinct false (by simp)
          rw [sectionBody_cons_of_ne (by simpa [hl] using hns)]
          simpa [hnbeq] using ih

end Range

/-! ## The result -/

/-- Rewriting lines makes no newlines, if the rewriting does not. -/
theorem newline_not_mem_mapSection {s : Text} {f : Text → Text} {inside : Bool} {ls : List Text}
    (hls : ∀ l ∈ ls, '\n' ∉ l) (hf : ∀ l, '\n' ∉ l → '\n' ∉ f l) :
    ∀ l ∈ mapSection s f inside ls, '\n' ∉ l := by
  induction ls generalizing inside with
  | nil => simp [mapSection]
  | cons l ls ih =>
    have ih := fun {b} => @ih b fun l' hl' => hls l' (by simp [hl'])
    have hl := hls l (by simp)
    rw [mapSection]
    split
    · simpa using ⟨hl, ih⟩
    · refine List.forall_mem_cons.mpr ⟨?_, ih⟩
      split
      · exact hf l hl
      · exact hl

/-- Where the two rewritings of a line of the section differ. -/
theorem editLine_eq_setLine_iff {s k v l : Text} (hs : ']' ∉ s) (hk : k ≠ []) (heq : '=' ∉ k)
    (hl : l.head? ≠ some '[') : editLine s k v l = setLine k v l ↔ ¬ Mistaken k l := by
  have hprefix : ¬ (bracketed s).isPrefixOf l = true := by
    rw [isPrefixOf_bracketed_iff hs]
    exact fun h => hl (head?_of_headerName h)
  have hbeq : ¬ (l.head? == some '[') = true := by simpa using hl
  rw [editLine, if_neg hprefix, if_neg hbeq, setLine, Mistaken]
  cases hentry : isEntry k l with
  | true => simp [starKey_of_isEntry hk heq hentry]
  | false =>
    cases hstar : starKey k l with
    | false => simp
    | true =>
      have hne : k ++ '=' :: v ≠ l := by
        rintro rfl
        rw [isEntry, ← Bool.not_eq_true, List.isPrefixOf_iff_prefix] at hentry
        exact hentry ⟨v, by simp⟩
      simpa using hne

/-- The lines of a rewritten file. -/
theorem lines_mapSection {s cfg : Text} {f : Text → Text} (hf : ∀ l, '\n' ∉ l → '\n' ∉ f l) :
    lines (['\n'].intercalate (mapSection s f false (lines cfg))) =
      mapSection s f false (lines cfg) := by
  refine List.splitOn_intercalate _ (newline_not_mem_mapSection
    (fun _ => newline_not_mem_of_mem_lines) hf) ?_
  obtain ⟨l, ls, hls⟩ := List.exists_cons_of_ne_nil (lines_ne_nil cfg)
  rw [hls, mapSection]
  split <;> simp

theorem newline_not_mem_editLine {s k v l : Text} (hk : IsIdent k) (hv : '\n' ∉ v)
    (hl : '\n' ∉ l) : '\n' ∉ editLine s k v l := by
  have hkey : '\n' ∉ k := fun h => absurd (hk.2 _ h) (by decide)
  have hline : '\n' ∉ k ++ '=' :: v := by simp [hkey, hv]
  unfold editLine
  split_ifs <;> assumption

section Write

variable (other : (cfgFile sectionName keyName newVal : Text) → Text) {cfg s k v : Text}
  (hcfg : SectionFile cfg) (hs : IsIdent s) (hk : IsIdent k) (hv : PlainValue v)

include hcfg hs hk hv

/-- `write_cfg` edits the lines of the section. -/
theorem writeCfg_eq_mapSection : writeCfg other cfg s k v =
    ['\n'].intercalate (mapSection s (editLine s k v) false (lines cfg)) := by
  have hbracket : ']' ∉ s := fun h => absurd (hs.2 _ h) (by decide)
  rw [writeCfg, if_pos ⟨all_isRegexLiteral hs, all_isRegexLiteral hk, hk.1, hv⟩,
    editRange_eq_mapSection hbracket hcfg.headers hcfg.distinct (by simp)]

theorem lines_writeCfg :
    lines (writeCfg other cfg s k v) = mapSection s (editLine s k v) false (lines cfg) := by
  rw [writeCfg_eq_mapSection other hcfg hs hk hv]
  exact lines_mapSection fun _ => newline_not_mem_editLine hk hv.2.2.2

/-- **`write_cfg` does what it is for** exactly when no line of the section is taken for the
    key's although it has another key. -/
theorem writeCfg_eq_setCfg_iff :
    writeCfg other cfg s k v = setCfg cfg s k v ↔
      ∀ l ∈ sectionBody s (lines cfg), ¬ Mistaken k l := by
  have hbracket : ']' ∉ s := fun h => absurd (hs.2 _ h) (by decide)
  have hequals : '=' ∉ k := fun h => absurd (hk.2 _ h) (by decide)
  have hnewline : '\n' ∉ k := fun h => absurd (hk.2 _ h) (by decide)
  have hset : ∀ l, '\n' ∉ l → '\n' ∉ setLine k v l := by
    intro l hl
    unfold setLine
    split_ifs
    · simp [hnewline, hv.2.2.2]
    · exact hl
  calc writeCfg other cfg s k v = setCfg cfg s k v ↔
        mapSection s (editLine s k v) false (lines cfg) =
          mapSection s (setLine k v) false (lines cfg) := by
        constructor
        · intro h
          rw [← lines_writeCfg other hcfg hs hk hv, h, setCfg, lines_mapSection hset]
        · intro h
          rw [writeCfg_eq_mapSection other hcfg hs hk hv, h, setCfg]
    _ ↔ ∀ l ∈ sectionBody s (lines cfg), editLine s k v l = setLine k v l :=
        mapSection_eq_iff hcfg.distinct (by simp)
    _ ↔ ∀ l ∈ sectionBody s (lines cfg), ¬ Mistaken k l := by
        refine forall₂_congr fun l hl => editLine_eq_setLine_iff hbracket hk.1 hequals fun he => ?_
        have hnone : headerName l = none := by simpa using List.mem_takeWhile_imp hl
        have hmem : l ∈ lines cfg :=
          (List.dropWhile_sublist _).subset ((List.drop_sublist _ _).subset
            ((List.takeWhile_sublist _).subset hl))
        have := hcfg.headers l hmem he
        rw [hnone] at this
        cases this

end Write

/-- Two keys, of which one is the other and an `s`. -/
def addrsCfg : Text := "[node1]\naddr=10.0.2.7\naddrs=10.0.2.8\n".toList

theorem writeCfg_addr : writeCfg (fun _ _ _ _ => []) addrsCfg "node1".toList "addr".toList
      "10.0.2.9".toList = setCfg addrsCfg "node1".toList "addr".toList "10.0.2.9".toList ↔
    ∀ l ∈ sectionBody "node1".toList (lines addrsCfg), ¬ Mistaken "addr".toList l :=
  writeCfg_eq_setCfg_iff _ ⟨by decide +kernel, by decide +kernel⟩ (by decide +kernel)
    (by decide +kernel) (by decide +kernel)

/-- Writing `addrs` overwrites `addr` as well. -/
theorem writeCfg_addrs :
    SectionFile addrsCfg ∧ IsIdent "node1".toList ∧ IsIdent "addrs".toList ∧
      PlainValue "10.0.2.9".toList ∧
      writeCfg (fun _ _ _ _ => []) addrsCfg "node1".toList "addrs".toList "10.0.2.9".toList ≠
        setCfg addrsCfg "node1".toList "addrs".toList "10.0.2.9".toList ∧
      writeCfg (fun _ _ _ _ => []) addrsCfg "node1".toList "addrs".toList "10.0.2.9".toList =
        "[node1]\naddrs=10.0.2.9\naddrs=10.0.2.9\n".toList ∧
      setCfg addrsCfg "node1".toList "addrs".toList "10.0.2.9".toList =
        "[node1]\naddr=10.0.2.7\naddrs=10.0.2.9\n".toList :=
  ⟨⟨by decide +kernel, by decide +kernel⟩, by decide +kernel, by decide +kernel,
    by decide +kernel, by decide +kernel, by decide +kernel, by decide +kernel⟩

end RedisCluster
