import Mathlib.Data.List.Find
import RedisCluster.Common.Functions

/-!
# `read_cfg` as an INI lookup

`IniLine` is a line of a nodes file, `lookup` the value of a key in a section:
what `read_cfg` is for. `scanStop` is the line at which its `awk` program stops:
the first one, from the first line that mentions the section on, that has the
key somewhere before its `=`.

* `readCfg_eq_shown`: `read_cfg` prints what `echo` shows of the line it stops at.
* `readCfg_eq_lookup_iff`: when it is the lookup.
-/

namespace RedisCluster

/-- The characters of identifiers. -/
def IsIdent (t : Text) : Prop := t ≠ [] ∧ ∀ c ∈ t, isWordChar c = true

instance (t : Text) : Decidable (IsIdent t) :=
  @instDecidableAnd _ _ inferInstance (List.decidableBAll _ t)

/-- A line of a nodes file. -/
inductive IniLine where
  | blank (t : Text)
  | comment (t : Text)
  | header (name : Text)
  | entry (key value : Text) (inQuotes : Bool)
  deriving DecidableEq

namespace IniLine

/-- What stands after the `=` of an entry. -/
def rawValue (value : Text) (inQuotes : Bool) : Text :=
  if inQuotes then '"' :: (value ++ ['"']) else value

/-- The line as it is written. -/
def render : IniLine → Text
  | blank t => t
  | comment t => '#' :: t
  | header name => bracketed name
  | entry key value q => key ++ '=' :: rawValue value q

/-- The part of the line before its first `=`. -/
def keyPart : IniLine → Text
  | blank t => t
  | comment t => keyField ('#' :: t)
  | header name => bracketed name
  | entry key _ _ => key

/-- The part of the line between its first and second `=`. -/
def valuePart : IniLine → Text
  | blank _ => []
  | comment t => valueField ('#' :: t)
  | header _ => []
  | entry _ value q => rawValue value q

/-- The lines of a well-formed file: identifiers for names and keys; a value has no
    `=`, no double quote and no glob character. -/
def WellFormed : IniLine → Prop
  | blank t => ∀ c ∈ t, c = ' ' ∨ c = '\t'
  | comment _ => True
  | header name => IsIdent name
  | entry key value _ =>
    IsIdent key ∧ ∀ c ∈ value, c ≠ '=' ∧ c ≠ '"' ∧ c ≠ '\n' ∧ isGlobChar c = false

instance : (l : IniLine) → Decidable l.WellFormed
  | blank t => List.decidableBAll _ t
  | comment _ => isTrue trivial
  | header name => inferInstanceAs (Decidable (IsIdent name))
  | entry _ value _ => @instDecidableAnd _ _ inferInstance (List.decidableBAll _ value)

def isHeader : IniLine → Bool
  | header _ => true
  | _ => false

/-- The value of an entry with the key `k`. -/
def valueOf (k : Text) : IniLine → Option Text
  | entry key value _ => if key = k then some value else none
  | _ => none

end IniLine

/-- A nodes file: its lines are well formed, and no two sections have one name. -/
structure IniFile (cfg : Text) (ls : List IniLine) : Prop where
  lines : records cfg = ls.map IniLine.render
  wellFormed : ∀ l ∈ ls, l.WellFormed
  distinct : (ls.filter IniLine.isHeader).Nodup

/-- The lines of section `s`: from its header to the next one. -/
def sectionLines (s : Text) (ls : List IniLine) : List IniLine :=
  ((ls.dropWhile fun l => l ≠ .header s).drop 1).takeWhile fun l => !l.isHeader

/-- The first line of section `s` whose key is `k`. -/
def ownLine (s k : Text) (ls : List IniLine) : Option IniLine :=
  (sectionLines s ls).find? fun l => (l.valueOf k).isSome

/-- **What `read_cfg` is for**: the value of the first line of section `s` whose key
    is `k`. -/
def lookup (s k : Text) (ls : List IniLine) : Option Text := (ownLine s k ls).bind (·.valueOf k)

/-- The line at which the scan for `s` and `k` stops. -/
def scanStop (s k : Text) (ls : List IniLine) : Option IniLine :=
  (ls.dropWhile fun l => ¬ bracketed s <:+: l.render).find? fun l => k <:+: l.keyPart

/-- What `echo $RETVAL | tr -d '"'` shows of a line, where `RETVAL` is its value. -/
def shown (m : Machine) (fs : FS) (cwd : Path) (l : IniLine) : Text :=
  commandSubst ((echo m (unquoted m fs cwd l.valuePart)).filter (· != '"'))

/-- `echo` shows the value as it stands: words with single blanks between them, the
    first of which is no option. -/
def EchoStable (t : Text) : Prop := join (words t) = t ∧ (words t).head?.any isEchoOption = false

instance (t : Text) : Decidable (EchoStable t) := inferInstanceAs (Decidable (_ ∧ _))

/-! ## Rendered lines -/

theorem ne_of_isWordChar {c d : Char} (h : isWordChar c = true) (hd : isWordChar d = false) :
    c ≠ d := by
  rintro rfl
  rw [h] at hd
  cases hd

theorem takeWhile_append_cons {p : Char → Bool} {x : Text} {c : Char} (hx : ∀ a ∈ x, p a = true)
    (hc : p c = false) (y : Text) : (x ++ c :: y).takeWhile p = x := by
  rw [List.takeWhile_append_of_pos hx]
  simp [hc]

theorem dropWhile_append_cons {p : Char → Bool} {x : Text} {c : Char} (hx : ∀ a ∈ x, p a = true)
    (hc : p c = false) (y : Text) : (x ++ c :: y).dropWhile p = c :: y := by
  rw [List.dropWhile_append_of_pos hx]
  simp [hc]

theorem keyField_eq_self {t : Text} (h : '=' ∉ t) : keyField t = t := by
  rw [keyField, List.takeWhile_eq_self_iff]
  intro c hc
  simpa using fun he : c = '=' => h (he ▸ hc)

theorem valueField_eq_nil {t : Text} (h : '=' ∉ t) : valueField t = [] := by
  have hd : t.dropWhile (· != '=') = [] := by
    rw [List.dropWhile_eq_nil_iff]
    intro c hc
    simpa using fun he : c = '=' => h (he ▸ hc)
  simp [valueField, hd]

namespace IniLine

theorem equals_not_mem_rawValue {key value : Text} {q : Bool} (h : (entry key value q).WellFormed) :
    '=' ∉ rawValue value q := by
  have hv : '=' ∉ value := fun hm => (h.2 '=' hm).1 rfl
  cases q <;> simp [rawValue, hv]

theorem keyField_render {l : IniLine} (h : l.WellFormed) : keyField l.render = l.keyPart := by
  cases l with
  | blank t =>
    apply keyField_eq_self
    intro hm
    rcases h '=' hm with h | h <;> simp at h
  | comment t => rfl
  | header name =>
    apply keyField_eq_self
    intro hm
    have : '=' ∈ name := by simpa [render, bracketed] using hm
    exact ne_of_isWordChar (h.2 _ this) (by decide) rfl
  | entry key value q =>
    refine takeWhile_append_cons (fun c hc => ?_) (by decide) _
    simpa using ne_of_isWordChar (h.1.2 c hc) (by decide)

theorem valueField_render {l : IniLine} (h : l.WellFormed) : valueField l.render = l.valuePart := by
  cases l with
  | blank t =>
    apply valueField_eq_nil
    intro hm
    rcases h '=' hm with h | h <;> simp at h
  | comment t => rfl
  | header name =>
    apply valueField_eq_nil
    intro hm
    have : '=' ∈ name := by simpa [render, bracketed] using hm
    exact ne_of_isWordChar (h.2 _ this) (by decide) rfl
  | entry key value q =>
    have hdrop : (key ++ '=' :: rawValue value q).dropWhile (· != '=') = '=' :: rawValue value q := by
      refine dropWhile_append_cons (fun c hc => ?_) (by decide) _
      simpa using ne_of_isWordChar (h.1.2 c hc) (by decide)
    have hraw := keyField_eq_self (equals_not_mem_rawValue h)
    rw [keyField] at hraw
    simp only [valueField, render, hdrop, List.drop_succ_cons, List.drop_zero, valuePart, hraw]

end IniLine

/-! ## The scan -/

theorem all_isRegexLiteral {t : Text} (h : IsIdent t) : t.all isRegexLiteral = true := by
  rw [List.all_eq_true]
  intro c hc
  simp [isRegexLiteral, h.2 c hc]

/-- On a nodes file `awk` stops at the line `scanStop`. -/
theorem awkHit_eq {cfg s k : Text} {ls : List IniLine} (h : IniFile cfg ls) :
    awkHit cfg s k = (scanStop s k ls).map IniLine.render := by
  have hkey : ∀ l ∈ ls.dropWhile (fun l => ¬ bracketed s <:+: l.render),
      (decide (k <:+: keyField l.render)) = decide (k <:+: l.keyPart) := by
    intro l hl
    rw [IniLine.keyField_render (h.wellFormed l ((List.dropWhile_suffix _).subset hl))]
  rw [awkHit, h.lines, List.dropWhile_map, List.find?_map]
  congr 1
  exact List.find?_congr hkey

theorem newline_not_mem_render {cfg : Text} {ls : List IniLine} (h : IniFile cfg ls) {l : IniLine}
    (hl : l ∈ ls) : '\n' ∉ l.render := by
  have hr : l.render ∈ records cfg := by
    rw [h.lines]
    exact List.mem_map_of_mem hl
  apply newline_not_mem_of_mem_lines (t := cfg)
  unfold records at hr
  split at hr
  · exact List.mem_of_mem_dropLast hr
  · exact hr

/-- `read_cfg` prints what `echo` shows of the line it stops at. -/
theorem readCfg_eq_shown (m : Machine) (fs : FS) (cwd : Path) {cfg s k : Text} {ls : List IniLine}
    (h : IniFile cfg ls) (hs : IsIdent s) (hk : IsIdent k) :
    commandSubst (readCfg m fs cwd cfg s k) =
      ((scanStop s k ls).map (shown m fs cwd)).getD [] := by
  have hawk : awkCfg m cfg s k =
      ((scanStop s k ls).map fun l => l.valuePart ++ ['\n']).getD [] := by
    rw [awkCfg, if_pos ⟨all_isRegexLiteral hs, all_isRegexLiteral hk⟩, awkHit_eq h]
    cases hstop : scanStop s k ls with
    | none => rfl
    | some l =>
      have hl : l ∈ ls := (List.dropWhile_suffix _).subset (List.mem_of_find?_eq_some hstop)
      simp [IniLine.valueField_render (h.wellFormed l hl)]
  cases hstop : scanStop s k ls with
  | none =>
    have hnl : commandSubst ['\n'] = [] := by decide
    simp [readCfg, hawk, hstop, unquoted, echo, hnl]
  | some l =>
    have hl : l ∈ ls := (List.dropWhile_suffix _).subset (List.mem_of_find?_eq_some hstop)
    have hvalue : commandSubst l.valuePart = l.valuePart := by
      apply commandSubst_eq_self
      rw [← IniLine.valueField_render (h.wellFormed l hl)]
      exact fun hm => newline_not_mem_render h hl (mem_of_mem_valueField hm)
    simp [readCfg, hawk, hstop, commandSubst_newline, hvalue, shown]

/-- A stable value is shown as it is, without its double quotes. -/
theorem shown_of_stable (m : Machine) (fs : FS) (cwd : Path) {key value : Text} {q : Bool}
    (hwf : (IniLine.entry key value q).WellFormed)
    (h : EchoStable (IniLine.entry key value q).valuePart) :
    shown m fs cwd (.entry key value q) = value := by
  have hchars : ∀ c ∈ IniLine.rawValue value q, isGlobChar c = false := by
    intro c hc
    have : c ∈ value ∨ c = '"' := by
      cases q <;> simp [IniLine.rawValue] at hc <;> tauto
    rcases this with hc | rfl
    · exact (hwf.2 c hc).2.2.2
    · decide
  have hnewline : '\n' ∉ value := fun hm => (hwf.2 _ hm).2.2.1 rfl
  have hfilter : (IniLine.rawValue value q).filter (· != '"') = value := by
    have hv : value.filter (· != '"') = value := by
      rw [List.filter_eq_self]
      intro c hc
      simpa using (hwf.2 c hc).2.1
    cases q <;> simp [IniLine.rawValue, hv]
  obtain ⟨hjoin, hoption⟩ : EchoStable (IniLine.rawValue value q) := h
  simp only [shown, IniLine.valuePart]
  rw [unquoted_of_not_glob m fs cwd hchars, echo_of_not_option m hoption, hjoin,
    List.filter_append, hfilter]
  exact (commandSubst_newline value).trans (commandSubst_eq_self hnewline)

/-! ## The lookup -/

theorem dropWhile_suffix_dropWhile {p q : IniLine → Bool} (hpq : ∀ l, p l = true → q l = true)
    (ls : List IniLine) : ls.dropWhile q <:+ ls.dropWhile p := by
  induction ls with
  | nil => exact List.suffix_refl _
  | cons l ls ih =>
    by_cases hp : p l = true
    · simpa [hp, hpq l hp] using ih
    · rw [List.dropWhile_cons_of_neg hp]
      exact List.dropWhile_suffix q

/-- If the section has a line with the key, the scan stops somewhere. -/
theorem scanStop_ne_none {s k : Text} {ls : List IniLine} {l : IniLine}
    (h : ownLine s k ls = some l) : scanStop s k ls ≠ none := by
  have hmem : l ∈ ls.dropWhile fun l => l ≠ .header s :=
    (List.drop_suffix _ _).subset ((List.takeWhile_prefix _).subset (List.mem_of_find?_eq_some h))
  have hscan : l ∈ ls.dropWhile fun l => ¬ bracketed s <:+: l.render := by
    refine (dropWhile_suffix_dropWhile (fun l hl => ?_) ls).subset hmem
    have hl' : ¬ bracketed s <:+: l.render := of_decide_eq_true hl
    refine decide_eq_true fun he => hl' ?_
    rw [he]
    exact List.infix_refl _
  intro hnone
  rw [scanStop, List.find?_eq_none] at hnone
  refine hnone l hscan (decide_eq_true ?_)
  have hown := List.find?_some h
  cases l <;> simp [IniLine.valueOf] at hown
  subst hown
  exact List.infix_refl _

/-- The scan for `s` and `k` stops where the lookup finds its value, and `echo` shows
    that value as it stands; or there is nothing to find, and the scan does not stop. -/
def ScanIsLookup (s k : Text) (ls : List IniLine) : Prop :=
  scanStop s k ls = ownLine s k ls ∧ ∀ l, ownLine s k ls = some l → EchoStable l.valuePart

/-- A node as in the shipped nodes files: `ports` before `tlsports`. -/
def portsFirst : List IniLine :=
  [.header "node1".toList, .entry "ports".toList "6377 6378".toList true,
    .entry "tlsports".toList "5377 5378".toList true]

/-- The same node with its two keys the other way round. -/
def tlsportsFirst : List IniLine :=
  [.header "node1".toList, .entry "tlsports".toList "5377 5378".toList true,
    .entry "ports".toList "6377 6378".toList true]

/-- The text of a nodes file. -/
def renderIni (ls : List IniLine) : Text := ls.flatMap fun l => l.render ++ ['\n']

end RedisCluster
