import Mathlib.Data.List.Infix
import Mathlib.Data.List.DropRight
import Mathlib.Data.List.Count

/-!
# Texts, lines and words

Shell values and file contents are lists of characters.

* `words`: the word splitting of an unquoted expansion; `words_append_blank`,
  `words_join`: it takes apart what joining with blanks has put together.
* `fields`: the pieces between separators; `fields_intercalate`.
* `records`: the lines a line-oriented program reads.
* `mapLines`: a filter that rewrites each line on its own; `lines_mapLines`.
* `commandSubst`: what `$(...)` makes of an output; `commandSubst_newline`,
  `commandSubst_eq_self`.
-/

namespace RedisCluster

/-- A shell value, a word or the content of a file. -/
abbrev Text := List Char

instance lawfulBEqText : LawfulBEq Text := inferInstance

/-- The characters of the default `IFS`. -/
def isBlank (c : Char) : Bool := c == ' ' || c == '\t' || c == '\n'

/-- The words of an unquoted expansion. -/
def words (t : Text) : List Text := (t.splitOnP isBlank).filter (· ≠ [])

/-- `"${list[*]}"`: the words with a blank between them. -/
def join (ws : List Text) : Text := [' '].intercalate ws

/-- The pieces of a text between its newlines. -/
def lines (t : Text) : List Text := t.splitOn '\n'

/-- The lines that `awk` and `grep` read: a newline at the end of the text does
    not begin another line. -/
def records (t : Text) : List Text :=
  if (lines t).getLast? = some [] then (lines t).dropLast else lines t

/-- Rewrite every line on its own. -/
def mapLines (f : Text → Text) (t : Text) : Text := ['\n'].intercalate ((lines t).map f)

/-- `$(...)`: the output without the newlines at its end. -/
def commandSubst (t : Text) : Text := t.rdropWhile (· == '\n')

/-! ## Words -/

/-- The pieces of a split have no separator, and only characters of the text. -/
theorem of_mem_splitOnP {p : Char → Bool} {t w : Text} (hw : w ∈ t.splitOnP p) :
    ∀ c ∈ w, p c = false ∧ c ∈ t := by
  induction t generalizing w with
  | nil =>
    rw [List.splitOnP_nil, List.mem_singleton] at hw
    simp [hw]
  | cons a t ih =>
    rw [List.splitOnP_cons_eq_if_modifyHead] at hw
    split at hw
    · rcases List.mem_cons.mp hw with rfl | hw
      · simp
      · intro c hc
        exact ⟨(ih hw c hc).1, by simp [(ih hw c hc).2]⟩
    · next ha =>
      obtain ⟨v, vs, hv⟩ := List.exists_cons_of_ne_nil (List.splitOnP_ne_nil p t)
      rw [hv, List.modifyHead_cons, List.mem_cons] at hw
      rcases hw with rfl | hw
      · intro c hc
        rcases List.mem_cons.mp hc with rfl | hc
        · simpa using ha
        · have := ih (w := v) (by simp [hv]) c hc
          exact ⟨this.1, by simp [this.2]⟩
      · intro c hc
        have := ih (w := w) (by simp [hv, hw]) c hc
        exact ⟨this.1, by simp [this.2]⟩

/-- A word that splitting leaves alone. -/
def IsWord (w : Text) : Prop := w ≠ [] ∧ ∀ c ∈ w, isBlank c = false

instance (w : Text) : Decidable (IsWord w) :=
  @instDecidableAnd _ _ inferInstance (List.decidableBAll _ w)

@[simp] theorem words_nil : words [] = [] := rfl

theorem isWord_of_mem_words {t w : Text} (h : w ∈ words t) : IsWord w := by
  rw [words, List.mem_filter] at h
  exact ⟨by simpa using h.2, fun c hc => (of_mem_splitOnP h.1 c hc).1⟩

theorem mem_of_mem_words {t w : Text} (h : w ∈ words t) : ∀ c ∈ w, c ∈ t := by
  rw [words, List.mem_filter] at h
  exact fun c hc => (of_mem_splitOnP h.1 c hc).2

theorem words_of_isWord {w : Text} (h : IsWord w) : words w = [w] := by
  rw [words, List.splitOnP_eq_singleton h.2]
  simp [h.1]

theorem words_append_blank {b : Char} (hb : isBlank b = true) (x y : Text) :
    words (x ++ b :: y) = words x ++ words y := by
  rw [words, List.splitOnP_append_cons x y hb, List.filter_append]
  rfl

theorem words_cons_blank {b : Char} (hb : isBlank b = true) (y : Text) :
    words (b :: y) = words y := words_append_blank hb [] y

/-- The words of a text stand between blanks. -/
theorem exists_of_mem_words {t w : Text} (h : w ∈ words t) :
    ∃ pre post, t = pre ++ (w ++ post) ∧ pre.getLast?.all isBlank = true ∧
      post.head?.all isBlank = true := by
  induction hn : t.length using Nat.strong_induction_on generalizing t with
  | _ n ih =>
    by_cases hblank : ∃ b ∈ t, isBlank b = true
    · obtain ⟨b, hmem, hb⟩ := hblank
      obtain ⟨x, y, rfl⟩ := List.append_of_mem hmem
      rw [List.length_append, List.length_cons] at hn
      rw [words_append_blank hb, List.mem_append] at h
      rcases h with h | h
      · obtain ⟨pre, post, rfl, hpre, hpost⟩ := ih x.length (by omega) h rfl
        refine ⟨pre, post ++ b :: y, by simp, hpre, ?_⟩
        cases post with
        | nil => simpa using hb
        | cons c post => simpa using hpost
      · obtain ⟨pre, post, rfl, hpre, hpost⟩ := ih y.length (by omega) h rfl
        refine ⟨x ++ b :: pre, post, by simp, ?_, hpost⟩
        cases hlast : pre.getLast? with
        | none => simp [List.getLast?_cons, hlast, hb]
        | some c => simpa [List.getLast?_cons, hlast] using hpre
    · have hnone : ∀ c ∈ t, isBlank c = false := by
        intro c hc
        rw [Bool.eq_false_iff]
        exact fun hb => hblank ⟨c, hc, hb⟩
      have hw : w = t := by
        rw [words, List.splitOnP_eq_singleton hnone] at h
        exact List.mem_singleton.mp (List.mem_of_mem_filter h)
      exact ⟨[], [], by simp [hw], rfl, rfl⟩

@[simp] theorem join_nil : join [] = [] := rfl

theorem join_cons_cons (w v : Text) (ws : List Text) :
    join (w :: v :: ws) = w ++ ' ' :: join (v :: ws) := by
  simp [join, List.intercalate_cons_of_ne_nil]

/-- Splitting takes apart what joining has put together. -/
theorem words_join {ws : List Text} (h : ∀ w ∈ ws, IsWord w) : words (join ws) = ws := by
  induction ws with
  | nil => rfl
  | cons w ws ih =>
    have hw := words_of_isWord (h w (by simp))
    cases ws with
    | nil => simpa [join] using hw
    | cons v ws =>
      rw [join_cons_cons, words_append_blank (by decide), hw, ih fun u hu => h u (by simp [hu])]
      rfl

theorem mem_intercalate {b : Char} {ws : List Text} {c : Char} (hc : c ∈ [b].intercalate ws) :
    c = b ∨ ∃ w ∈ ws, c ∈ w := by
  induction ws with
  | nil => simp at hc
  | cons w ws ih =>
    cases ws with
    | nil => exact Or.inr ⟨w, by simp, by simpa using hc⟩
    | cons v ws =>
      rw [List.intercalate_cons_of_ne_nil (by simp), List.append_assoc, List.mem_append,
        List.singleton_append, List.mem_cons] at hc
      rcases hc with hc | rfl | hc
      · exact Or.inr ⟨w, by simp, hc⟩
      · exact Or.inl rfl
      · rcases ih hc with h | ⟨u, hu, hcu⟩
        · exact Or.inl h
        · exact Or.inr ⟨u, by simp [hu], hcu⟩

theorem mem_join {ws : List Text} {c : Char} (hc : c ∈ join ws) :
    c = ' ' ∨ ∃ w ∈ ws, c ∈ w := mem_intercalate hc

/-! ## Fields -/

/-- The pieces of a text between the characters of `p`, the empty ones aside. -/
def fields (p : Char → Bool) (t : Text) : List Text := (t.splitOnP p).filter (· ≠ [])

@[simp] theorem fields_nil (p : Char → Bool) : fields p [] = [] := rfl

theorem fields_append_cons {p : Char → Bool} {b : Char} (hb : p b = true) (x y : Text) :
    fields p (x ++ b :: y) = fields p x ++ fields p y := by
  rw [fields, List.splitOnP_append_cons x y hb, List.filter_append]
  rfl

theorem fields_cons {p : Char → Bool} {b : Char} (hb : p b = true) (y : Text) :
    fields p (b :: y) = fields p y := fields_append_cons hb [] y

theorem fields_snoc {p : Char → Bool} {b : Char} (hb : p b = true) (x : Text) :
    fields p (x ++ [b]) = fields p x := by
  rw [fields_append_cons hb, fields_nil, List.append_nil]

/-- Splitting takes apart what a separator has put together. -/
theorem fields_intercalate {p : Char → Bool} {b : Char} (hb : p b = true) (ls : List Text) :
    fields p ([b].intercalate ls) = ls.flatMap (fields p) := by
  induction ls with
  | nil => rfl
  | cons l ls ih =>
    cases ls with
    | nil => simp
    | cons k ls =>
      rw [List.intercalate_cons_of_ne_nil (by simp), List.append_assoc, List.singleton_append,
        fields_append_cons hb, ih]
      simp

/-- Only the characters of the text matter. -/
theorem fields_congr {p q : Char → Bool} {t : Text} (h : ∀ c ∈ t, p c = q c) :
    fields p t = fields q t := by
  suffices t.splitOnP p = t.splitOnP q by rw [fields, fields, this]
  induction t with
  | nil => rfl
  | cons a t ih =>
    rw [List.splitOnP_cons_eq_if_modifyHead, List.splitOnP_cons_eq_if_modifyHead, h a (by simp),
      ih fun c hc => h c (by simp [hc])]

/-- A text is without separators, or one of them cuts it. -/
theorem exists_cut (p : Char → Bool) (t : Text) :
    (∀ c ∈ t, p c = false) ∨ ∃ x b y, t = x ++ b :: y ∧ p b = true := by
  by_cases h : ∃ b ∈ t, p b = true
  · obtain ⟨b, hb, hp⟩ := h
    obtain ⟨x, y, rfl⟩ := List.append_of_mem hb
    exact Or.inr ⟨x, b, y, rfl, hp⟩
  · left
    intro c hc
    rw [Bool.eq_false_iff]
    exact fun hp => h ⟨c, hc, hp⟩

theorem fields_of_not_separator {p : Char → Bool} {t : Text} (h : ∀ c ∈ t, p c = false) :
    fields p t = [t].filter (· ≠ []) := by
  rw [fields, List.splitOnP_eq_singleton h]

/-- Splitting at some of the separators first makes no difference. -/
theorem flatMap_fields {p q : Char → Bool} (hq : ∀ c, q c = true → p c = true) (t : Text) :
    (fields q t).flatMap (fields p) = fields p t := by
  induction hn : t.length using Nat.strong_induction_on generalizing t with
  | _ n ih =>
    rcases exists_cut q t with hno | ⟨x, b, y, rfl, hb⟩
    · rw [fields_of_not_separator hno]
      cases t with
      | nil => rfl
      | cons a t => simp
    · rw [List.length_append, List.length_cons] at hn
      rw [fields_append_cons hb, fields_append_cons (hq b hb), List.flatMap_append,
        ih x.length (by omega) x rfl, ih y.length (by omega) y rfl]

/-- What is no separator may be dropped before or after the splitting. -/
theorem fields_filter {p f : Char → Bool} (hf : ∀ c, p c = true → f c = true) (t : Text) :
    fields p (t.filter f) = ((fields p t).map (List.filter f)).filter (· ≠ []) := by
  induction hn : t.length using Nat.strong_induction_on generalizing t with
  | _ n ih =>
    rcases exists_cut p t with hno | ⟨x, b, y, rfl, hb⟩
    · have hno' : ∀ c ∈ t.filter f, p c = false := fun c hc => hno c (List.mem_of_mem_filter hc)
      rw [fields_of_not_separator hno, fields_of_not_separator hno']
      cases t with
      | nil => rfl
      | cons a t => simp
    · rw [List.length_append, List.length_cons] at hn
      have hsplit : (x ++ b :: y).filter f = x.filter f ++ b :: y.filter f := by
        rw [List.filter_append, List.filter_cons_of_pos (hf b hb)]
      rw [hsplit, fields_append_cons hb, fields_append_cons hb, List.map_append, List.filter_append,
        ih x.length (by omega) x rfl, ih y.length (by omega) y rfl]

/-- Texts that end with a newline, if they are not empty, keep their words apart. -/
theorem words_flatMap {α : Type} {f : α → Text} (h : ∀ x, f x = [] ∨ ∃ y, f x = y ++ ['\n'])
    (xs : List α) : words (xs.flatMap f) = xs.flatMap fun x => words (f x) := by
  induction xs with
  | nil => rfl
  | cons x xs ih =>
    rw [List.flatMap_cons, List.flatMap_cons, ← ih]
    rcases h x with hx | ⟨y, hy⟩
    · rw [hx, words_nil, List.nil_append, List.nil_append]
    · rw [hy, List.append_assoc, List.singleton_append, words_append_blank (by decide),
        words_append_blank (by decide), words_nil, List.append_nil]

/-! ## Lines -/

theorem newline_not_mem_of_mem_lines {t l : Text} (h : l ∈ lines t) : '\n' ∉ l := by
  intro hn
  have := (of_mem_splitOnP h '\n' hn).1
  simp at this

theorem mem_of_mem_lines {t l : Text} (h : l ∈ lines t) : ∀ c ∈ l, c ∈ t :=
  fun c hc => (of_mem_splitOnP h c hc).2

theorem lines_eq_singleton {t : Text} (h : '\n' ∉ t) : lines t = [t] := List.splitOn_eq_singleton h

theorem lines_append_newline {x : Text} (h : '\n' ∉ x) (y : Text) :
    lines (x ++ '\n' :: y) = x :: lines y := List.splitOn_append_cons_self_of_not_mem h y

theorem lines_ne_nil (t : Text) : lines t ≠ [] := List.splitOn_ne_nil _ _

/-- A rewriting that makes no newlines rewrites the lines. -/
theorem lines_mapLines {f : Text → Text} {t : Text} (h : ∀ l ∈ lines t, '\n' ∉ f l) :
    lines (mapLines f t) = (lines t).map f := by
  apply List.splitOn_intercalate
  · intro l hl
    obtain ⟨k, hk, rfl⟩ := List.mem_map.mp hl
    exact h k hk
  · simpa using lines_ne_nil t

theorem mapLines_mapLines {f g : Text → Text} {t : Text} (h : ∀ l ∈ lines t, '\n' ∉ f l) :
    mapLines g (mapLines f t) = mapLines (fun l => g (f l)) t := by
  rw [mapLines, lines_mapLines h, List.map_map]
  rfl

theorem mapLines_append_newline (f : Text → Text) {x : Text} (h : '\n' ∉ x) (y : Text) :
    mapLines f (x ++ '\n' :: y) = f x ++ '\n' :: mapLines f y := by
  have hne : (lines y).map f ≠ [] := by simpa using lines_ne_nil y
  rw [mapLines, lines_append_newline h, List.map_cons, List.intercalate_cons_of_ne_nil hne,
    List.append_assoc]
  rfl

theorem intercalate_lines (t : Text) : ['\n'].intercalate (lines t) = t := by
  simp [lines]

theorem mapLines_id (t : Text) : mapLines (fun l => l) t = t := by
  simp [mapLines, lines]

/-- A newline at the end of a text begins no other record. -/
theorem records_append_newline (t : Text) : records (t ++ ['\n']) = lines t := by
  have hlines : lines (t ++ ['\n']) = lines t ++ [[]] := List.splitOn_append_cons_self t []
  rw [records, hlines, List.getLast?_concat, if_pos rfl, List.dropLast_concat]

/-! ## Command substitution -/

@[simp] theorem commandSubst_nil : commandSubst [] = [] := rfl

theorem commandSubst_newline (t : Text) : commandSubst (t ++ ['\n']) = commandSubst t := by
  simp [commandSubst]

theorem commandSubst_eq_self {t : Text} (h : '\n' ∉ t) : commandSubst t = t := by
  rw [commandSubst, List.rdropWhile_eq_self_iff]
  intro hne hlast
  exact h (by simpa using (beq_iff_eq.mp hlast) ▸ List.getLast_mem hne)

/-- Trailing newlines are no words. -/
theorem words_commandSubst (t : Text) : words (commandSubst t) = words t := by
  induction t using List.reverseRecOn with
  | nil => rfl
  | append_singleton t c ih =>
    by_cases hc : c = '\n'
    · subst hc
      rw [commandSubst_newline, ih, words_append_blank (by decide), words_nil, List.append_nil]
    · have hkeep : commandSubst (t ++ [c]) = t ++ [c] := by
        rw [commandSubst, List.rdropWhile_concat_neg _ _ _ (by simpa using hc)]
      rw [hkeep]

theorem mem_of_mem_commandSubst {t : Text} {c : Char} (h : c ∈ commandSubst t) : c ∈ t :=
  (List.rdropWhile_prefix _ t).subset h

end RedisCluster
