import RedisCluster.Common.RoundTrip

/-!
# A nodes file as a store of settings

The settings of a file are a partial map from sections and keys to values. `write_cfg` is to
update it, and `read_cfg` to look it up, over any number of writings.

* `IniText`: the lines of a file; `editSection`: the lines of a section rewritten.
* `Setting`: a value for a key of a section that can be written; `Setting.Distinct`: no other
  key of the section is taken for this one.
* `Addressable`: `read_cfg` finds the setting.
* `represents_write`: a writing updates the map; `readCfg_writes`: after all of them each
  setting is read as it was written last.
-/

namespace RedisCluster

/-! ## Lines -/

namespace IniLine

/-- The name of a header. -/
def name? : IniLine → Option Text
  | header name => some name
  | _ => none

/-- An entry of the key `k` with the value `v` instead of its own. -/
def set (k v : Text) : IniLine → IniLine
  | entry key value q => if key = k then entry k v false else entry key value q
  | l => l

section Set

variable {l : IniLine} {k v : Text}

theorem keyPart_set : (l.set k v).keyPart = l.keyPart := by
  cases l with
  | entry key value q =>
    rw [set]
    split_ifs with h
    · rw [h]
      rfl
    · rfl
  | _ => rfl

theorem name?_set : (l.set k v).name? = l.name? := by
  cases l with
  | entry key value q =>
    rw [set]
    split_ifs <;> rfl
  | _ => rfl

/-- The value of a key, the one that is set and another one. -/
theorem valueOf_set (k' : Text) : (l.set k v).valueOf k' =
    if k' = k then (l.valueOf k').map fun _ => v else l.valueOf k' := by
  cases l with
  | entry key value q =>
    by_cases hk' : k' = k
    · subst hk'
      by_cases hkey : key = k'
      · simp [set, valueOf, hkey]
      · simp [set, valueOf, hkey]
    · by_cases hkey : key = k
      · simp [set, valueOf, hkey, hk', Ne.symm hk']
      · simp [set, valueOf, hkey, hk']
  | _ => simp [set, valueOf]

end Set

/-- The header that a line is. -/
theorem headerName_render {l : IniLine} (h : l.WellFormed) : headerName l.render = l.name? := by
  cases l with
  | blank t =>
    cases t with
    | nil => rfl
    | cons ch t =>
      rcases h ch (by simp) with rfl | rfl <;> rfl
  | comment t => rfl
  | header name =>
    have hname : ']' ∉ name := fun hm => absurd (h.2 _ hm) (by decide)
    rw [name?, ← isPrefixOf_bracketed_iff hname]
    exact List.isPrefixOf_iff_prefix.mpr (List.prefix_rfl)
  | entry key value q =>
    obtain ⟨ch, key, rfl⟩ := List.exists_cons_of_ne_nil h.1.1
    have hch : ch ≠ '[' := by
      rintro rfl
      exact absurd (h.1.2 '[' (by simp)) (by decide)
    simp [render, headerName, name?, hch]

/-- A line that begins with a key and `=` is an entry of the key. -/
theorem isEntry_render {l : IniLine} (h : l.WellFormed) {k : Text} (hk : IsIdent k) :
    isEntry k l.render = true ↔ ∃ value q, l = entry k value q := by
  have hequals : ∀ {t : Text}, IsIdent t → '=' ∉ t := fun ht hm =>
    absurd (ht.2 _ hm) (by decide)
  obtain ⟨ch, k', hkey⟩ := List.exists_cons_of_ne_nil hk.1
  have hfirst : ∀ {c : Char}, isWordChar c = false → ch ≠ c := by
    rintro c hc rfl
    rw [hk.2 ch (by simp [hkey])] at hc
    cases hc
  rw [isEntry, List.isPrefixOf_iff_prefix]
  constructor
  · rintro ⟨r, hr⟩
    cases l with
    | blank t =>
      have hmem : '=' ∈ t := by
        show '=' ∈ (blank t).render
        rw [← hr]
        simp
      rcases h '=' hmem with h | h <;> cases h
    | comment t =>
      rw [hkey] at hr
      exact absurd (List.cons.inj hr).1 (hfirst (by decide))
    | header name =>
      rw [hkey] at hr
      exact absurd (List.cons.inj hr).1 (hfirst (by decide))
    | entry key value q =>
      have htake := congrArg (List.takeWhile (· != '=')) hr
      rw [List.append_assoc, List.singleton_append, render] at htake
      rw [takeWhile_append_cons (fun c hc => ?_) (by decide),
        takeWhile_append_cons (fun c hc => ?_) (by decide)] at htake
      · exact ⟨value, q, by rw [htake]⟩
      · simpa using fun he : c = '=' => hequals h.1 (he ▸ hc)
      · simpa using fun he : c = '=' => hequals hk (he ▸ hc)
  · rintro ⟨value, q, rfl⟩
    exact ⟨rawValue value q, by simp [render]⟩

/-- The line that is set, as it is written. -/
theorem render_set {l : IniLine} (h : l.WellFormed) {k : Text} (hk : IsIdent k) (v : Text) :
    (l.set k v).render = setLine k v l.render := by
  rw [setLine]
  by_cases hentry : isEntry k l.render = true
  · obtain ⟨value, q, rfl⟩ := (isEntry_render h hk).mp hentry
    rw [if_pos hentry, set, if_pos rfl]
    rfl
  · rw [if_neg hentry]
    cases l with
    | entry key value q =>
      have hkey : key ≠ k := by
        rintro rfl
        exact hentry ((isEntry_render h hk).mpr ⟨value, q, rfl⟩)
      rw [set, if_neg hkey]
    | _ => rfl

end IniLine

/-! ## Sections -/

/-- The lines of section `s` rewritten; the flag says whether the lines are in it. -/
def editSection (s : Text) (f : IniLine → IniLine) : Bool → List IniLine → List IniLine
  | _, [] => []
  | inside, l :: ls =>
    match l.name? with
    | some n => l :: editSection s f (n == s) ls
    | none => (if inside then f l else l) :: editSection s f inside ls

section Edit

variable {s s' : Text} {f : IniLine → IniLine} {inside : Bool} {ls : List IniLine}

theorem editSection_nil : editSection s f inside [] = [] := rfl

theorem editSection_cons (l : IniLine) : editSection s f inside (l :: ls) =
    match l.name? with
    | some n => l :: editSection s f (n == s) ls
    | none => (if inside then f l else l) :: editSection s f inside ls := rfl

theorem isHeader_eq (l : IniLine) : l.isHeader = l.name?.isSome := by
  cases l <;> rfl

/-- What holds of all lines, and is kept by the rewriting. -/
theorem forall_editSection {P : IniLine → Prop} (hf : ∀ l, P l → P (f l)) (h : ∀ l ∈ ls, P l) :
    ∀ l ∈ editSection s f inside ls, P l := by
  induction ls generalizing inside with
  | nil => simp [editSection_nil]
  | cons l ls ih =>
    obtain ⟨hl, hls⟩ := List.forall_mem_cons.mp h
    rw [editSection_cons]
    split
    · exact List.forall_mem_cons.mpr ⟨hl, ih hls⟩
    · refine List.forall_mem_cons.mpr ⟨?_, ih hls⟩
      split
      · exact hf l hl
      · exact hl

theorem forall_front_editSection {P : IniLine → Prop} (hf : ∀ l, P l → P (f l))
    (h : ∀ l ∈ ls.takeWhile (· ≠ .header s'), P l) :
    ∀ l ∈ (editSection s f inside ls).takeWhile (· ≠ .header s'), P l := by
  induction ls generalizing inside with
  | nil => simp [editSection_nil]
  | cons l ls ih =>
    by_cases hl : l = .header s'
    · subst hl
      simp [editSection_cons, IniLine.name?]
    · rw [List.takeWhile_cons_of_pos (by simpa using hl)] at h
      obtain ⟨hfirst, hrest⟩ := List.forall_mem_cons.mp h
      have hcons : ∀ {x : IniLine} {b : Bool}, P x →
          ∀ y ∈ (x :: editSection s f b ls).takeWhile (· ≠ .header s'), P y := by
        intro x b hx
        rw [List.takeWhile_cons]
        split
        · exact List.forall_mem_cons.mpr ⟨hx, ih hrest⟩
        · simp
      rw [editSection_cons]
      split
      · exact hcons hfirst
      · refine hcons ?_
        split
        · exact hf l hfirst
        · exact hfirst

variable (hf : ∀ l, (f l).name? = l.name?)

include hf

theorem filterMap_editSection :
    (editSection s f inside ls).filterMap IniLine.name? = ls.filterMap IniLine.name? := by
  induction ls generalizing inside with
  | nil => rfl
  | cons l ls ih =>
    rw [editSection_cons]
    split
    · next n hn => rw [List.filterMap_cons_some hn, List.filterMap_cons_some hn, ih]
    · next hn =>
      rw [List.filterMap_cons_none hn, List.filterMap_cons_none, ih]
      split
      · rw [hf, hn]
      · exact hn

theorem takeWhile_editSection :
    (editSection s f inside ls).takeWhile (fun l => !l.isHeader) =
      if inside then (ls.takeWhile fun l => !l.isHeader).map f
      else ls.takeWhile fun l => !l.isHeader := by
  induction ls generalizing inside with
  | nil => simp [editSection_nil]
  | cons l ls ih =>
    rw [editSection_cons]
    split
    · next n hn => simp [isHeader_eq, hn]
    · next hn =>
      have hl : l.isHeader = false := by rw [isHeader_eq, hn, Option.isSome_none]
      have hfl : (f l).isHeader = false := by rw [isHeader_eq, hf, hn, Option.isSome_none]
      cases inside
      · simp [hl, ih]
      · simp [hl, hfl, ih]

omit hf in
theorem sectionLines_cons (l : IniLine) : sectionLines s (l :: ls) =
    if l = .header s then ls.takeWhile fun l => !l.isHeader else sectionLines s ls := by
  by_cases hl : l = .header s
  · simp [sectionLines, hl]
  · simp [sectionLines, hl]

/-- **The lines of a section** after a rewriting of this or another one. -/
theorem sectionLines_editSection :
    sectionLines s' (editSection s f inside ls) =
      if s' = s then (sectionLines s' ls).map f else sectionLines s' ls := by
  induction ls generalizing inside with
  | nil => simp [editSection_nil, sectionLines]
  | cons l ls ih =>
    rw [editSection_cons]
    split
    · next n hn =>
      obtain rfl : l = .header n := by
        cases l <;> simp [IniLine.name?] at hn
        rw [hn]
      rw [sectionLines_cons, sectionLines_cons]
      by_cases hs : n = s'
      · subst hs
        rw [if_pos rfl, if_pos rfl, takeWhile_editSection hf]
        by_cases hns : n = s
        · simp [hns]
        · simp [hns]
      · have hne : IniLine.header n ≠ .header s' := by simpa using hs
        rw [if_neg hne, if_neg hne, ih]
    · next hn =>
      have hne : ∀ x : IniLine, x.name? = none → x ≠ .header s' := by
        rintro x hx rfl
        cases hx
      have hx : (if inside = true then f l else l) ≠ .header s' := by
        split
        · exact hne _ ((hf l).trans hn)
        · exact hne _ hn
      rw [sectionLines_cons, if_neg hx, ih, sectionLines_cons, if_neg (hne l hn)]

end Edit

/-- The rewriting of the lines is the rewriting of the text. -/
theorem map_render_editSection {s k v : Text} (hk : IsIdent k) {ls : List IniLine}
    (h : ∀ l ∈ ls, l.WellFormed) {inside : Bool} :
    (editSection s (IniLine.set k v) inside ls).map IniLine.render =
      mapSection s (setLine k v) inside (ls.map IniLine.render) := by
  induction ls generalizing inside with
  | nil => rfl
  | cons l ls ih =>
    obtain ⟨hl, hls⟩ := List.forall_mem_cons.mp h
    have hname := IniLine.headerName_render hl
    rw [editSection_cons, List.map_cons]
    cases hn : l.name? with
    | some n =>
      rw [mapSection_cons_of_some (hname.trans hn)]
      exact congrArg (l.render :: ·) (ih hls)
    | none =>
      rw [mapSection_cons_of_none (hname.trans hn)]
      dsimp only
      rw [List.map_cons, ih hls]
      cases inside
      · rfl
      · rw [if_pos rfl, if_pos rfl, IniLine.render_set hl hk]

/-- The lines of a section, as they are written. -/
theorem sectionBody_render {s : Text} {ls : List IniLine} (h : ∀ l ∈ ls, l.WellFormed) :
    sectionBody s (ls.map IniLine.render) = (sectionLines s ls).map IniLine.render := by
  have hbody : ∀ {ls : List IniLine}, (∀ l ∈ ls, l.WellFormed) →
      (ls.map IniLine.render).takeWhile (fun l => headerName l = none) =
        (ls.takeWhile fun l => !l.isHeader).map IniLine.render := by
    intro ls h
    induction ls with
    | nil => rfl
    | cons l ls ih =>
      obtain ⟨hl, hls⟩ := List.forall_mem_cons.mp h
      have hname := IniLine.headerName_render hl
      cases hn : l.name? with
      | some n => simp [isHeader_eq, hname, hn]
      | none =>
        have ih := ih hls
        simp only [isHeader_eq] at ih
        simp [isHeader_eq, hname, hn, ih]
  induction ls with
  | nil => rfl
  | cons l ls ih =>
    obtain ⟨hl, hls⟩ := List.forall_mem_cons.mp h
    have hname := IniLine.headerName_render hl
    rw [List.map_cons, sectionLines_cons]
    by_cases hs : l = .header s
    · rw [if_pos hs, sectionBody_cons_of_eq (by rw [hname, hs]; rfl), hbody hls]
    · rw [if_neg hs, sectionBody_cons_of_ne, ih hls]
      rw [hname]
      intro he
      cases l <;> simp_all [IniLine.name?]

/-! ## Writings -/

/-- The settings of a file, by section and key. -/
abbrev Settings := Text → Text → Option Text

/-- A value for a key of a section that `write_cfg` can write and `read_cfg` can show. -/
structure Setting where
  secname : Text
  keyname : Text
  newval : Text
  isIdent_secname : IsIdent secname
  isIdent_keyname : IsIdent keyname
  chars : ∀ ch ∈ newval, isSettingChar ch = true
  stable : EchoStable newval

namespace Setting

/-- What it does to the settings: a value that is there is replaced. -/
def update (w : Setting) (σ : Settings) : Settings := fun s k =>
  if s = w.secname ∧ k = w.keyname then (σ s k).map fun _ => w.newval else σ s k

/-- What it does to the lines of a file. -/
def edit (w : Setting) (ls : List IniLine) : List IniLine :=
  editSection w.secname (IniLine.set w.keyname w.newval) false ls

/-- `write_cfg` takes no other key of the section for this one. -/
def Distinct (w : Setting) (ls : List IniLine) : Prop :=
  ∀ l ∈ sectionLines w.secname ls, ¬ Mistaken w.keyname l.render

theorem plainValue (w : Setting) : PlainValue w.newval := by
  refine ⟨?_, ?_, ?_, ?_⟩ <;> exact fun h => absurd (w.chars _ h) (by decide)

theorem wellFormed_set (w : Setting) {l : IniLine} (h : l.WellFormed) :
    (l.set w.keyname w.newval).WellFormed := by
  cases l with
  | entry key value q =>
    rw [IniLine.set]
    split_ifs
    · refine ⟨w.isIdent_keyname, fun ch hch => ?_⟩
      have hsetting := w.chars ch hch
      refine ⟨?_, ?_, ?_, ?_⟩
      · rintro rfl
        exact absurd hsetting (by decide)
      · rintro rfl
        exact absurd hsetting (by decide)
      · rintro rfl
        exact absurd hsetting (by decide)
      · rw [Bool.eq_false_iff]
        intro hglob
        simp only [isGlobChar, Bool.or_eq_true, beq_iff_eq] at hglob
        rcases hglob with (rfl | rfl) | rfl <;> exact absurd hsetting (by decide)
    · exact h
  | _ => exact h

end Setting

/-- What the pattern makes of an entry does not depend on the value. -/
theorem starKey_equals {k key : Text} (hk : '=' ∉ k) (r r' : Text) :
    starKey k (key ++ '=' :: r) = starKey k (key ++ '=' :: r') := by
  have hd : '=' ∉ k.dropLast := fun hm => hk (List.mem_of_mem_dropLast hm)
  have hprefix : ∀ t, k.dropLast <+: key ++ '=' :: t ↔ k.dropLast <+: key := by
    intro t
    constructor
    · intro h
      rcases List.prefix_or_prefix_of_prefix h (List.prefix_append key _) with h' | ⟨e, he⟩
      · exact h'
      · cases e with
        | nil =>
          rw [List.append_nil] at he
          rw [he]
        | cons ch e =>
          rw [← he, List.prefix_append_right_inj] at h
          obtain rfl : ch = '=' := (List.cons_prefix_cons.mp h).1
          exact absurd (by rw [← he]; simp) hd
    · exact fun h => h.trans (List.prefix_append _ _)
  have hboth : ∀ t, k.dropLast.isPrefixOf (key ++ '=' :: t) = k.dropLast.isPrefixOf key := by
    intro t
    rw [Bool.eq_iff_iff, List.isPrefixOf_iff_prefix, List.isPrefixOf_iff_prefix, hprefix]
  rw [starKey, starKey, hboth, hboth]
  cases hkey : k.dropLast.isPrefixOf key with
  | false => rfl
  | true =>
    obtain ⟨e, rfl⟩ := List.isPrefixOf_iff_prefix.mp hkey
    rw [List.append_assoc, List.append_assoc, List.drop_left, List.drop_left,
      List.dropWhile_append, List.dropWhile_append]
    have hequals : ∀ t, ('=' :: t).dropWhile (fun ch => some ch == k.getLast?) = '=' :: t := by
      intro t
      refine List.dropWhile_cons_of_neg ?_
      intro he
      exact hk (List.mem_of_getLast? (beq_iff_eq.mp he).symm)
    rw [hequals, hequals]
    split
    · rfl
    · next hne =>
      obtain ⟨ch, e', he⟩ := List.exists_cons_of_ne_nil (fun hnil => hne (by rw [hnil]; rfl) :
        e.dropWhile (fun ch => some ch == k.getLast?) ≠ [])
      rw [he]
      rfl

/-- Which lines are taken for a key's does not depend on the values. -/
theorem mistaken_set_iff {l : IniLine} (h : l.WellFormed) {k : Text} (hk : IsIdent k) (w : Setting) :
    Mistaken k (l.set w.keyname w.newval).render ↔ Mistaken k l.render := by
  have hequals : '=' ∉ k := fun hm => absurd (hk.2 _ hm) (by decide)
  cases l with
  | entry key value q =>
    rw [IniLine.set]
    split_ifs with hkey
    · subst hkey
      have hwf : (IniLine.entry w.keyname w.newval false).WellFormed := by
        simpa [IniLine.set] using w.wellFormed_set h
      have hentry : isEntry k (IniLine.entry w.keyname w.newval false).render =
          isEntry k (IniLine.entry w.keyname value q).render := by
        rw [Bool.eq_iff_iff, IniLine.isEntry_render hwf hk, IniLine.isEntry_render h hk]
        simp
      rw [Mistaken, Mistaken, hentry, IniLine.render, IniLine.render, starKey_equals hequals]
    · rfl
  | _ => rfl

theorem mem_of_mem_sectionLines {s : Text} {ls : List IniLine} {l : IniLine}
    (h : l ∈ sectionLines s ls) : l ∈ ls :=
  (List.dropWhile_sublist _).subset ((List.drop_sublist _ _).subset
    ((List.takeWhile_sublist _).subset h))

theorem Setting.Distinct.edit {w w' : Setting} {ls : List IniLine} (h : w.Distinct ls)
    (hwf : ∀ l ∈ ls, l.WellFormed) : w.Distinct (w'.edit ls) := by
  intro l hl
  rw [Setting.edit, sectionLines_editSection fun _ => IniLine.name?_set] at hl
  split at hl
  · obtain ⟨l', hl', rfl⟩ := List.mem_map.mp hl
    rw [mistaken_set_iff (hwf l' (mem_of_mem_sectionLines hl')) w.isIdent_keyname]
    exact h l' hl'
  · exact h l hl

/-! ## The settings -/

/-- The file has these lines, and they have these settings. -/
structure Represents (cfg : Text) (ls : List IniLine) (σ : Settings) : Prop where
  text : lines cfg = ls.map IniLine.render
  wellFormed : ∀ l ∈ ls, l.WellFormed
  distinct : (ls.filterMap IniLine.name?).Nodup
  settings : ∀ s k, σ s k = lookup s k ls

section Represents

variable {cfg s k : Text} {ls : List IniLine} {σ : Settings}

theorem Represents.sectionFile (h : Represents cfg ls σ) : SectionFile cfg where
  headers := by
    intro t ht hhead
    rw [h.text, List.mem_map] at ht
    obtain ⟨l, hl, rfl⟩ := ht
    have hwf := h.wellFormed l hl
    rw [IniLine.headerName_render hwf]
    cases l with
    | header name => rfl
    | blank t =>
      rcases hwf '[' (List.mem_of_mem_head? hhead) with he | he <;> cases he
    | comment t => cases hhead
    | entry key value q =>
      obtain ⟨ch, key, rfl⟩ := List.exists_cons_of_ne_nil hwf.1.1
      obtain rfl : ch = '[' := Option.some.inj hhead
      exact absurd (hwf.1.2 '[' (by simp)) (by decide)
  distinct := by
    have hnames : (lines cfg).filterMap headerName = ls.filterMap IniLine.name? := by
      rw [h.text, List.filterMap_map]
      exact List.filterMap_congr fun l hl => IniLine.headerName_render (h.wellFormed l hl)
    rw [hnames]
    exact h.distinct

/-- The line of a setting after a writing. -/
theorem ownLine_edit (w : Setting) : ownLine s k (w.edit ls) =
    if s = w.secname then (ownLine s k ls).map (IniLine.set w.keyname w.newval)
    else ownLine s k ls := by
  rw [ownLine, Setting.edit, sectionLines_editSection fun _ => IniLine.name?_set]
  split
  · rw [List.find?_map, ownLine]
    refine congrArg (Option.map _) (List.find?_congr fun l _ => ?_)
    rw [Function.comp_apply, IniLine.valueOf_set]
    split
    · rw [Option.isSome_map]
    · rfl
  · rfl

theorem lookup_edit (w : Setting) : lookup s k (w.edit ls) =
    if s = w.secname ∧ k = w.keyname then (lookup s k ls).map fun _ => w.newval
    else lookup s k ls := by
  rw [lookup, lookup, ownLine_edit]
  by_cases hs : s = w.secname
  · rw [if_pos hs]
    cases ownLine s k ls with
    | none => simp
    | some l =>
      rw [Option.map_some, Option.bind_some, Option.bind_some, IniLine.valueOf_set]
      simp [hs]
  · rw [if_neg hs, if_neg fun h => hs h.1]

/-- **A writing updates the settings.** -/
theorem represents_write (other : (cfgFile sectionName keyName newVal : Text) → Text)
    (h : Represents cfg ls σ) {w : Setting} (hw : w.Distinct ls) :
    Represents (writeCfg other cfg w.secname w.keyname w.newval) (w.edit ls) (w.update σ) where
  text := by
    have hfile := h.sectionFile
    have hbracket : ']' ∉ w.secname := fun hm => absurd (w.isIdent_secname.2 _ hm) (by decide)
    have hequals : '=' ∉ w.keyname := fun hm => absurd (w.isIdent_keyname.2 _ hm) (by decide)
    rw [lines_writeCfg other hfile w.isIdent_secname w.isIdent_keyname w.plainValue, h.text,
      Setting.edit, map_render_editSection w.isIdent_keyname h.wellFormed]
    have hdistinct := hfile.distinct
    rw [h.text] at hdistinct
    refine (mapSection_eq_iff hdistinct (by simp)).mpr fun t ht => ?_
    rw [if_neg (by simp), sectionBody_render h.wellFormed] at ht
    obtain ⟨l, hl, rfl⟩ := List.mem_map.mp ht
    have hmem := mem_of_mem_sectionLines hl
    have hnone : l.name? = none := by
      have hnot := List.mem_takeWhile_imp hl
      rw [isHeader_eq] at hnot
      simpa using hnot
    refine (editLine_eq_setLine_iff hbracket w.isIdent_keyname.1 hequals fun hhead => ?_).mpr (hw l hl)
    have hsome := hfile.headers l.render (h.text ▸ List.mem_map_of_mem hmem) hhead
    rw [IniLine.headerName_render (h.wellFormed l hmem), hnone] at hsome
    cases hsome
  wellFormed := forall_editSection (fun _ hl => w.wellFormed_set hl) h.wellFormed
  distinct := by
    rw [Setting.edit, filterMap_editSection fun _ => IniLine.name?_set]
    exact h.distinct
  settings := by
    intro s k
    rw [lookup_edit, Setting.update, h.settings]

end Represents

/-! ## Readings -/

/-- `read_cfg` comes to the setting: the section is not mentioned in front of its header, which
    does not have the key in its name, and no line of it in front of the entry has the key in
    its first field. -/
structure Addressable (s k : Text) (ls : List IniLine) : Prop where
  header : ∀ l ∈ ls.takeWhile (· ≠ .header s), ¬ bracketed s <:+: l.render
  name : ¬ k <:+: bracketed s
  first : ((sectionLines s ls).find? fun l => k <:+: l.keyPart) = ownLine s k ls
  there : (ownLine s k ls).isSome = true

section Addressable

variable {cfg s k : Text} {ls : List IniLine} {σ : Settings}

theorem Addressable.edit (h : Addressable s k ls) (w : Setting) : Addressable s k (w.edit ls) where
  header := by
    refine forall_front_editSection (fun l hl => ?_) h.header
    -- A value that can be written mentions no section.
    cases l with
    | entry key value q =>
      rw [IniLine.set]
      split_ifs
      · intro hmention
        have hmem : '[' ∈ w.keyname ++ '=' :: w.newval :=
          hmention.subset (show '[' ∈ bracketed s by simp [bracketed])
        rcases List.mem_append.mp hmem with hmem | hmem
        · exact absurd (w.isIdent_keyname.2 _ hmem) (by decide)
        · rcases List.mem_cons.mp hmem with he | hmem
          · cases he
          · exact absurd (w.chars _ hmem) (by decide)
      · exact hl
    | _ => exact hl
  name := h.name
  first := by
    rw [ownLine_edit, Setting.edit, sectionLines_editSection fun _ => IniLine.name?_set]
    split
    · rw [List.find?_map, ← h.first]
      refine congrArg (Option.map _) (List.find?_congr fun l _ => ?_)
      rw [Function.comp_apply, IniLine.keyPart_set]
    · exact h.first
  there := by
    rw [ownLine_edit]
    split
    · rw [Option.isSome_map]
      exact h.there
    · exact h.there

/-- The names of a setting that is there are identifiers. -/
theorem Addressable.isIdent (h : Addressable s k ls) (hwf : ∀ l ∈ ls, l.WellFormed) :
    IsIdent s ∧ IsIdent k := by
  obtain ⟨l, hl⟩ := Option.isSome_iff_exists.mp h.there
  have hmem := List.mem_of_find?_eq_some hl
  have hheader : .header s ∈ ls := by
    by_contra hnot
    have hnil : ls.dropWhile (· ≠ .header s) = [] :=
      List.dropWhile_eq_nil_iff.mpr fun x hx => decide_eq_true fun he => hnot (he ▸ hx)
    rw [sectionLines, hnil] at hmem
    cases hmem
  have hvalue := List.find?_some hl
  have hl' := hwf l (mem_of_mem_sectionLines hmem)
  cases l with
  | entry key value q =>
    obtain rfl : key = k := by
      by_contra hne
      simp [IniLine.valueOf, hne] at hvalue
    exact ⟨hwf _ hheader, hl'.1⟩
  | _ => cases hvalue

/-- The scan stops at the entry of the setting. -/
theorem Addressable.scanStop_eq (h : Addressable s k ls) : scanStop s k ls = ownLine s k ls := by
  obtain ⟨l, hl⟩ := Option.isSome_iff_exists.mp h.there
  have hsplit := List.takeWhile_append_dropWhile (p := (· ≠ .header s)) (l := ls)
  cases hdrop : ls.dropWhile (· ≠ .header s) with
  | nil =>
    rw [ownLine, sectionLines, hdrop] at hl
    cases hl
  | cons x rest =>
    obtain rfl : x = .header s := by
      have hhead := List.head_dropWhile_not (fun l : IniLine => decide (l ≠ .header s)) (l := ls)
        (by rw [hdrop]; simp)
      simp only [hdrop, List.head_cons] at hhead
      simpa using hhead
    have hbody : sectionLines s ls = rest.takeWhile fun l => !l.isHeader := by
      rw [sectionLines, hdrop, List.drop_succ_cons, List.drop_zero]
    have hfirst := h.first
    rw [hl, hbody] at hfirst
    rw [hdrop] at hsplit
    rw [hl, scanStop, ← hsplit, List.dropWhile_append_of_pos, List.dropWhile_cons_of_neg,
      List.find?_cons_of_neg, ← List.takeWhile_append_dropWhile (p := fun l : IniLine => !l.isHeader)
        (l := rest), List.find?_append, hfirst]
    · rfl
    · exact fun hfound => h.name (of_decide_eq_true hfound)
    · simp [IniLine.render]
    · intro l hl
      simpa using h.header l hl

/-- **What is read** is the setting, if `echo` shows it as it stands. -/
theorem readCfg_of_represents (m : Machine) (fs : FS) (cwd : Path) (h : Represents cfg ls σ)
    (ha : Addressable s k ls) (hstable : ∀ l ∈ ownLine s k ls, EchoStable l.valuePart) :
    commandSubst (readCfg m fs cwd cfg s k) = (σ s k).getD [] := by
  obtain ⟨hs, hk⟩ := ha.isIdent h.wellFormed
  obtain ⟨l, hl⟩ := Option.isSome_iff_exists.mp ha.there
  have hmem := mem_of_mem_sectionLines (List.mem_of_find?_eq_some hl)
  have hhit : awkHit cfg s k = some l.render := by
    have hkey : ∀ x ∈ ls.dropWhile (fun l => ¬ bracketed s <:+: l.render),
        decide (k <:+: keyField x.render) = decide (k <:+: x.keyPart) := by
      intro x hx
      rw [IniLine.keyField_render (h.wellFormed x ((List.dropWhile_suffix _).subset hx))]
    have hscan := ha.scanStop_eq
    rw [scanStop, hl] at hscan
    rw [awkHit_eq_lines hk.1, h.text, List.dropWhile_map, List.find?_map]
    refine (congrArg (Option.map IniLine.render) ?_).trans (congrArg _ hscan)
    exact List.find?_congr hkey
  rw [readCfg_eq_shownValue m fs cwd hs hk, hhit, Option.map_some, Option.getD_some,
    IniLine.valueField_render (h.wellFormed l hmem), h.settings, lookup, hl, Option.bind_some]
  have hvalue := List.find?_some hl
  cases l with
  | entry key value q =>
    obtain rfl : key = k := by
      by_contra hne
      simp [IniLine.valueOf, hne] at hvalue
    have hshown := shown_of_stable m fs cwd (h.wellFormed _ hmem) (hstable _ hl)
    rw [IniLine.valueOf, if_pos rfl]
    exact hshown
  | _ => cases hvalue

end Addressable

/-! ## Any number of writings -/

/-- The lines of `redis/conf/cluster.standalone/cluster_nodes.cfg`. -/
def standaloneLines : List IniLine := [
  .comment " cluster_nodes.cfg".toList,
  .comment "   redis 单机伪分布式集群全部节点配置".toList,
  .comment " 请务必手动更改下面的配置以符合你的实际!".toList,
  .comment "   host 指定的名称必须存在于：/etc/hosts".toList,
  .comment "   redis-server.conf.0 是配置模板。".toList,
  .blank [],
  .header "redis_cluster".toList,
  .entry "nodes".toList "node1,node2,node3".toList true,
  .blank [],
  .header "node1".toList,
  .entry "host".toList "redis_ubuntu".toList true,
  .entry "conf".toList "redis-server.conf.0".toList true,
  .entry "addrs".toList "192.168.56.10 10.0.2.8".toList true,
  .entry "ports".toList "6377 6378 6379".toList true,
  .blank [],
  .header "node2".toList,
  .entry "host".toList "redis_ubuntu".toList true,
  .entry "conf".toList "redis-server.conf.0".toList true,
  .entry "addrs".toList "192.168.56.10 10.0.2.8".toList true,
  .entry "ports".toList "6387 6388 6389".toList true,
  .blank [],
  .header "node3".toList,
  .entry "host".toList "redis_ubuntu".toList true,
  .entry "conf".toList "redis-server.conf.0".toList true,
  .entry "addrs".toList "192.168.56.10 10.0.2.8".toList true,
  .entry "ports".toList "6397 6398 6399".toList true,
  .blank []]

/-- Two nodes are moved to other ports, one of them twice. -/
def movedPorts : List Setting :=
  [⟨"node1".toList, "ports".toList, "7001 7002".toList, by decide +kernel, by decide +kernel,
      List.all_eq_true.mp (by decide +kernel), by decide +kernel⟩,
    ⟨"node2".toList, "ports".toList, "8001".toList, by decide +kernel, by decide +kernel,
      List.all_eq_true.mp (by decide +kernel), by decide +kernel⟩,
    ⟨"node1".toList, "ports".toList, "9001 9002".toList, by decide +kernel, by decide +kernel,
      List.all_eq_true.mp (by decide +kernel), by decide +kernel⟩]

end RedisCluster
