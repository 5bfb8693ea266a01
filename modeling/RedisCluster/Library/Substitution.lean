import Mathlib.Data.List.Infix
import Mathlib.Data.List.Count
import Mathlib.Data.List.Perm.Basic

/-!
# Replacing literal patterns in texts

`replaceAll pat rep s` replaces every occurrence of the literal `pat` in `s`,
from the left, without looking again at what it has put in: the `s/pat/rep/g`
of a stream editor on one line.

A template is a list of tokens, single letters and holes; a hole is written as
its name between an opening and a closing letter (`Marks`).

* `replaceAll_induction`: how a replaced text relates to the text.
* `replaceAll_flatten`: on a written template, replacing the mark of one name
  fills the holes of that name, and nothing else; `mark_infix_replaceChain_iff`:
  which marks a chain of such replacements leaves.
* `replaceChain_flatten`: such a chain is one simultaneous
  substitution, if no value has an opening letter.
* `fillIn`: simultaneous substitution as a single pass over the written text;
  `replaceChain_eq_fillIn` compares the chain with it.
* `exists_flatten_eq`: a text whose opening letters all begin known marks is a
  written template.
-/

namespace Substitution

variable {α ν : Type}

section Replace

variable [DecidableEq α]

/-- `replaceAll`, after skipping the first letters of a text. -/
def replaceFrom (pat rep : List α) : ℕ → List α → List α
  | _, [] => []
  | k + 1, _ :: s => replaceFrom pat rep k s
  | 0, a :: s =>
    if pat <+: a :: s then rep ++ replaceFrom pat rep (pat.length - 1) s
    else a :: replaceFrom pat rep 0 s

/-- Replace every occurrence of `pat` in a text by `rep`. -/
def replaceAll (pat rep s : List α) : List α := replaceFrom pat rep 0 s

theorem replaceFrom_append (pat rep x s : List α) :
    replaceFrom pat rep x.length (x ++ s) = replaceAll pat rep s := by
  induction x with
  | nil => rfl
  | cons a x ih => simpa [replaceFrom] using ih

@[simp] theorem replaceAll_nil (pat rep : List α) : replaceAll pat rep [] = [] := rfl

theorem replaceAll_cons_of_miss {pat rep : List α} {a : α} {s : List α}
    (h : ¬ pat <+: a :: s) : replaceAll pat rep (a :: s) = a :: replaceAll pat rep s := by
  simp [replaceAll, replaceFrom, h]

theorem replaceAll_pat_append {pat rep : List α} (hpat : pat ≠ []) (s : List α) :
    replaceAll pat rep (pat ++ s) = rep ++ replaceAll pat rep s := by
  obtain ⟨a, p, rfl⟩ := List.exists_cons_of_ne_nil hpat
  have hp : a :: p <+: a :: (p ++ s) := ⟨s, rfl⟩
  have h := replaceFrom_append (a :: p) rep p s
  simp [replaceAll, replaceFrom, hp, h]

/-- The text is a run of letters that begin no occurrence and of occurrences;
    the result has the same letters and one `rep` for each occurrence. -/
theorem replaceAll_induction {pat rep : List α} (hpat : pat ≠ [])
    {P : List α → List α → Prop} (nil : P [] [])
    (hit : ∀ s t, P s t → P (pat ++ s) (rep ++ t))
    (miss : ∀ a s t, ¬ pat <+: a :: s → P s t → P (a :: s) (a :: t)) (s : List α) :
    P s (replaceAll pat rep s) := by
  induction hn : s.length using Nat.strong_induction_on generalizing s with
  | _ n ih =>
    by_cases hp : pat <+: s
    · obtain ⟨r, rfl⟩ := hp
      rw [replaceAll_pat_append hpat]
      have hlen : r.length < n := by
        have := List.length_pos_of_ne_nil hpat
        rw [← hn, List.length_append]
        omega
      exact hit _ _ (ih r.length hlen r rfl)
    · cases s with
      | nil => exact nil
      | cons a s =>
        rw [replaceAll_cons_of_miss hp]
        exact miss a s _ hp (ih s.length (by simp [← hn]) s rfl)

theorem replaceAll_eq_self {pat rep : List α} (hpat : pat ≠ []) {s : List α}
    (h : ¬ pat <:+: s) : replaceAll pat rep s = s := by
  refine replaceAll_induction hpat (P := fun s t => ¬ pat <:+: s → t = s) (fun _ => rfl) ?_ ?_ s h
  · intro s t _ hs
    exact absurd (List.prefix_append pat s).isInfix hs
  · intro a s t _ ih hs
    rw [ih fun h => hs (h.trans (List.suffix_cons a s).isInfix)]

/-- A stretch without the first letter of the pattern is copied. -/
theorem replaceAll_append_of_not_mem {a : α} {p rep x : List α} (h : a ∉ x) (s : List α) :
    replaceAll (a :: p) rep (x ++ s) = x ++ replaceAll (a :: p) rep s := by
  induction x with
  | nil => rfl
  | cons b x ih =>
    rw [List.cons_append, replaceAll_cons_of_miss, ih fun hx => h (by simp [hx])]
    · rfl
    · intro hp
      obtain ⟨r, hr⟩ := hp
      simp only [List.cons_append, List.cons.injEq] at hr
      exact h (by simp [hr.1])

/-- No occurrence reaches over a letter that the pattern does not have. -/
theorem replaceAll_append_cons_of_not_mem {a : α} {pat rep : List α} (hpat : pat ≠ [])
    (ha : a ∉ pat) (x s : List α) :
    replaceAll pat rep (x ++ a :: s) = replaceAll pat rep x ++ a :: replaceAll pat rep s := by
  refine replaceAll_induction hpat
    (P := fun x y => replaceAll pat rep (x ++ a :: s) = y ++ a :: replaceAll pat rep s) ?_ ?_ ?_ x
  · rw [List.nil_append, replaceAll_cons_of_miss, List.nil_append]
    intro hp
    obtain ⟨b, p, rfl⟩ := List.exists_cons_of_ne_nil hpat
    obtain ⟨r, hr⟩ := hp
    exact ha (by simp [(List.cons.inj hr).1])
  · intro x y ih
    rw [List.append_assoc, replaceAll_pat_append hpat, ih, List.append_assoc]
  · intro b x y hmiss ih
    rw [List.cons_append, replaceAll_cons_of_miss, ih, List.cons_append]
    rintro ⟨r, hr⟩
    have hr' : pat ++ r = (b :: x) ++ a :: s := hr
    rcases List.append_eq_append_iff.mp hr' with ⟨c, hc, -⟩ | ⟨c, hc, hcr⟩
    · exact hmiss ⟨c, hc.symm⟩
    · cases c with
      | nil => exact hmiss ⟨[], by rw [hc]; simp⟩
      | cons d c =>
        rw [List.cons_append, List.cons.injEq] at hcr
        exact ha (by rw [hc, hcr.1]; simp)

/-- The letters of a replaced text are from the text or from what was put in. -/
theorem mem_of_mem_replaceAll {pat rep : List α} (hpat : pat ≠ []) {s : List α} {b : α}
    (h : b ∈ replaceAll pat rep s) : b ∈ s ∨ b ∈ rep := by
  refine replaceAll_induction hpat (P := fun s t => b ∈ t → b ∈ s ∨ b ∈ rep) (by simp) ?_ ?_ s h
  · intro s t ih hb
    rcases List.mem_append.mp hb with hb | hb
    · exact Or.inr hb
    · rcases ih hb with hb | hb
      · exact Or.inl (by simp [hb])
      · exact Or.inr hb
  · intro a s t _ ih hb
    rcases List.mem_cons.mp hb with rfl | hb
    · exact Or.inl (by simp)
    · rcases ih hb with hb | hb
      · exact Or.inl (by simp [hb])
      · exact Or.inr hb

/-- A letter that `rep` has no more often than `pat` does not become more frequent. -/
theorem count_replaceAll_le {pat rep : List α} (hpat : pat ≠ []) (b : α)
    (h : rep.count b ≤ pat.count b) (s : List α) :
    (replaceAll pat rep s).count b ≤ s.count b := by
  refine replaceAll_induction hpat (P := fun s t => t.count b ≤ s.count b) le_rfl ?_ ?_ s
  · intro s t ih
    rw [List.count_append, List.count_append]
    omega
  · intro a s t _ ih
    rw [List.count_cons, List.count_cons]
    omega

/-- A shorter replacement shortens every text with an occurrence. -/
theorem length_replaceAll_lt {pat rep : List α} (h : rep.length < pat.length) {s : List α}
    (hs : pat <:+: s) : (replaceAll pat rep s).length < s.length := by
  have hpat : pat ≠ [] := by
    rintro rfl
    simp at h
  refine replaceAll_induction hpat (P := fun s t => t.length ≤ s.length ∧
    (pat <:+: s → t.length < s.length)) ⟨le_rfl, fun hn => ?_⟩ ?_ ?_ s |>.2 hs
  · exact absurd (List.infix_nil.mp hn) hpat
  · intro s t ih
    rw [List.length_append, List.length_append]
    exact ⟨by omega, fun _ => by omega⟩
  · intro a s t hmiss ih
    refine ⟨by simpa using ih.1, fun hin => ?_⟩
    rcases List.infix_cons_iff.mp hin with hp | hin
    · exact absurd hp hmiss
    · simpa using ih.2 hin

end Replace

/-! ## Templates -/

/-- A letter of a template, or a hole with a name. -/
inductive Token (ν α : Type) where
  | lit (a : α)
  | hole (n : ν)
  deriving DecidableEq

/-- How holes are written: the name between `opener` and `closer`. -/
structure Marks (ν α : Type) where
  opener : α
  closer : α
  name : ν → List α
  opener_ne_closer : opener ≠ closer
  opener_not_mem : ∀ n, opener ∉ name n
  closer_not_mem : ∀ n, closer ∉ name n
  name_injective : Function.Injective name

namespace Marks

/-- The written form of the hole `n`. -/
def mark (M : Marks ν α) (n : ν) : List α := M.opener :: (M.name n ++ [M.closer])

theorem mark_ne_nil (M : Marks ν α) (n : ν) : M.mark n ≠ [] := by simp [mark]

theorem mark_append (M : Marks ν α) (n : ν) (s : List α) :
    M.mark n ++ s = M.opener :: (M.name n ++ [M.closer] ++ s) := rfl

end Marks

theorem eq_of_append_prefix {c : α} {x y s : List α} (hx : c ∉ x) (hy : c ∉ y)
    (h : x ++ [c] <+: y ++ c :: s) : x = y := by
  induction x generalizing y with
  | nil =>
    cases y with
    | nil => rfl
    | cons b y =>
      obtain ⟨r, hr⟩ := h
      simp only [List.nil_append, List.cons_append, List.cons.injEq] at hr
      exact absurd (by simp [hr.1]) hy
  | cons a x ih =>
    cases y with
    | nil =>
      obtain ⟨r, hr⟩ := h
      simp only [List.nil_append, List.cons_append, List.cons.injEq] at hr
      exact absurd (by simp [hr.1]) hx
    | cons b y =>
      obtain ⟨r, hr⟩ := h
      simp only [List.cons_append, List.cons.injEq] at hr
      obtain ⟨rfl, hr⟩ := hr
      rw [ih (y := y) (fun h => hx (by simp [h])) (fun h => hy (by simp [h])) ⟨r, by simpa using hr⟩]

/-- A mark that begins a text determines its name. -/
theorem Marks.eq_of_mark_prefix (M : Marks ν α) {n m : ν} {s : List α}
    (h : M.mark n <+: M.mark m ++ s) : n = m := by
  apply M.name_injective
  refine eq_of_append_prefix (s := s) (M.closer_not_mem n) (M.closer_not_mem m) ?_
  have h' := (List.prefix_cons_inj M.opener).mp (by simpa [Marks.mark] using h)
  simpa using h'

/-- An occurrence that begins with a letter not in `x` lies behind `x`. -/
theorem infix_of_infix_append {a : α} {p x s : List α} (hx : a ∉ x) (h : a :: p <:+: x ++ s) :
    a :: p <:+: s := by
  induction x with
  | nil => exact h
  | cons b x ih =>
    rw [List.cons_append, List.infix_cons_iff] at h
    rcases h with ⟨r, hr⟩ | h
    · simp only [List.cons_append, List.cons.injEq] at hr
      exact absurd (by simp [hr.1]) hx
    · exact ih (fun hm => hx (by simp [hm])) h

/-- A letter that is not in `x` lies behind `x`. -/
theorem exists_of_append_eq_append {a : α} {x s y r : List α} (hx : a ∉ x)
    (h : x ++ s = y ++ a :: r) : ∃ z, s = z ++ a :: r := by
  induction x generalizing y with
  | nil => exact ⟨y, h⟩
  | cons b x ih =>
    cases y with
    | nil => exact absurd (by simp [(List.cons.inj h).1]) hx
    | cons c y => exact ih (fun hm => hx (by simp [hm])) (List.cons.inj h).2

/-- The text a template is written as. -/
def flatten (M : Marks ν α) (ts : List (Token ν α)) : List α :=
  ts.flatMap fun
    | .lit a => [a]
    | .hole n => M.mark n

/-- No letter of the template is an opening letter. -/
def LitsOk (M : Marks ν α) (ts : List (Token ν α)) : Prop := Token.lit M.opener ∉ ts

/-- The template with the holes that `σ` has a value for filled. -/
def render (M : Marks ν α) (σ : ν → Option (List α)) (ts : List (Token ν α)) : List α :=
  ts.flatMap fun
    | .lit a => [a]
    | .hole n => (σ n).getD (M.mark n)

@[simp] theorem flatten_nil (M : Marks ν α) : flatten M [] = [] := rfl

@[simp] theorem flatten_lit (M : Marks ν α) (a : α) (ts : List (Token ν α)) :
    flatten M (.lit a :: ts) = a :: flatten M ts := rfl

@[simp] theorem flatten_hole (M : Marks ν α) (n : ν) (ts : List (Token ν α)) :
    flatten M (.hole n :: ts) = M.mark n ++ flatten M ts := rfl

@[simp] theorem flatten_append (M : Marks ν α) (ts us : List (Token ν α)) :
    flatten M (ts ++ us) = flatten M ts ++ flatten M us := by
  simp [flatten]

@[simp] theorem render_nil (M : Marks ν α) (σ : ν → Option (List α)) : render M σ [] = [] := rfl

@[simp] theorem render_lit (M : Marks ν α) (σ : ν → Option (List α)) (a : α)
    (ts : List (Token ν α)) : render M σ (.lit a :: ts) = a :: render M σ ts := rfl

@[simp] theorem render_hole (M : Marks ν α) (σ : ν → Option (List α)) (n : ν)
    (ts : List (Token ν α)) :
    render M σ (.hole n :: ts) = (σ n).getD (M.mark n) ++ render M σ ts := rfl

@[simp] theorem render_append (M : Marks ν α) (σ : ν → Option (List α))
    (ts us : List (Token ν α)) : render M σ (ts ++ us) = render M σ ts ++ render M σ us := by
  simp [render]

theorem flatten_map_lit (M : Marks ν α) (v : List α) : flatten M (v.map .lit) = v := by
  induction v with
  | nil => rfl
  | cons a v ih => simp [ih]

theorem render_map_lit (M : Marks ν α) (σ : ν → Option (List α)) (v : List α) :
    render M σ (v.map .lit) = v := by
  induction v with
  | nil => rfl
  | cons a v ih => simp [ih]

theorem mark_infix_flatten_iff {M : Marks ν α} {n : ν} {ts : List (Token ν α)} (h : LitsOk M ts) :
    M.mark n <:+: flatten M ts ↔ Token.hole n ∈ ts := by
  induction ts with
  | nil => simp [M.mark_ne_nil n]
  | cons t ts ih =>
    have hts : LitsOk M ts := fun hm => h (by simp [hm])
    cases t with
    | lit a =>
      have ha : ¬ M.mark n <+: a :: flatten M ts := by
        rintro ⟨r, hr⟩
        simp only [Marks.mark, List.cons_append, List.cons.injEq] at hr
        exact h (by simp [hr.1])
      rw [flatten_lit, List.infix_cons_iff, ih hts]
      simp [ha]
    | hole m =>
      rw [flatten_hole]
      constructor
      · intro hin
        rw [M.mark_append, List.infix_cons_iff] at hin
        rcases hin with hp | hin
        · simp [M.eq_of_mark_prefix hp]
        · have hbody : M.opener ∉ M.name m ++ [M.closer] := by
            simp [M.opener_not_mem m, M.opener_ne_closer]
          have hrest : M.mark n <:+: flatten M ts := infix_of_infix_append hbody hin
          simp [(ih hts).mp hrest]
      · intro hm
        rcases List.mem_cons.mp hm with hm | hm
        · cases hm
          exact (List.prefix_append _ _).isInfix
        · exact ((ih hts).mpr hm).trans (List.suffix_append _ _).isInfix

section FillIn

variable [DecidableEq α]

/-- The mark of another name is copied. -/
theorem replaceAll_mark_append_of_ne (M : Marks ν α) {n m : ν} (h : n ≠ m) (v s : List α) :
    replaceAll (M.mark n) v (M.mark m ++ s) = M.mark m ++ replaceAll (M.mark n) v s := by
  have hmiss : ¬ M.mark n <+: M.mark m ++ s := fun hp => h (M.eq_of_mark_prefix hp)
  have hbody : M.opener ∉ M.name m ++ [M.closer] := by
    simp [M.opener_not_mem m, M.opener_ne_closer]
  rw [M.mark_append] at hmiss ⊢
  rw [replaceAll_cons_of_miss hmiss]
  exact congrArg _ (replaceAll_append_of_not_mem hbody s)

/-- `fillIn`, after skipping the first letters of a text. -/
def fillFrom (M : Marks ν α) (l : List (ν × List α)) : ℕ → List α → List α
  | _, [] => []
  | k + 1, _ :: s => fillFrom M l k s
  | 0, a :: s =>
    match l.find? fun nv => M.mark nv.1 <+: a :: s with
    | some (n, v) => v ++ fillFrom M l (M.name n).length.succ s
    | none => a :: fillFrom M l 0 s

/-- Simultaneous substitution: one pass over the text in which each mark of `l`
    is replaced by its value; nothing that is put in is looked at again. -/
def fillIn (M : Marks ν α) (l : List (ν × List α)) (s : List α) : List α := fillFrom M l 0 s

theorem fillFrom_append (M : Marks ν α) (l : List (ν × List α)) (x s : List α) :
    fillFrom M l x.length (x ++ s) = fillIn M l s := by
  induction x with
  | nil => rfl
  | cons a x ih => simpa [fillFrom] using ih

/-- A stretch without opening letters is copied. -/
theorem fillIn_append_of_not_mem (M : Marks ν α) (l : List (ν × List α)) {x : List α}
    (h : M.opener ∉ x) (s : List α) : fillIn M l (x ++ s) = x ++ fillIn M l s := by
  induction x with
  | nil => rfl
  | cons a x ih =>
    have ha : a ≠ M.opener := fun ha => h (by simp [ha])
    have hnone : l.find? (fun nv => M.mark nv.1 <+: a :: (x ++ s)) = none := by
      rw [List.find?_eq_none]
      intro nv _ hp
      obtain ⟨r, hr⟩ := of_decide_eq_true hp
      simp only [Marks.mark, List.cons_append, List.cons.injEq] at hr
      exact ha hr.1.symm
    rw [List.cons_append, fillIn, fillFrom, hnone]
    exact congrArg (a :: ·) (ih fun hx => h (by simp [hx]))

end FillIn

section Chain

variable [DecidableEq α]

/-- The replacements of the marks of `l`, in order. -/
def replaceChain (M : Marks ν α) (l : List (ν × List α)) (s : List α) : List α :=
  l.foldl (fun s nv => replaceAll (M.mark nv.1) nv.2 s) s

@[simp] theorem replaceChain_nil (M : Marks ν α) (s : List α) : replaceChain M [] s = s := rfl

@[simp] theorem replaceChain_cons (M : Marks ν α) (nv : ν × List α) (l : List (ν × List α))
    (s : List α) :
    replaceChain M (nv :: l) s = replaceChain M l (replaceAll (M.mark nv.1) nv.2 s) := rfl

theorem replaceChain_append (M : Marks ν α) (l l' : List (ν × List α)) (s : List α) :
    replaceChain M (l ++ l') s = replaceChain M l' (replaceChain M l s) := List.foldl_append

@[simp] theorem replaceChain_empty (M : Marks ν α) (l : List (ν × List α)) :
    replaceChain M l [] = [] := by
  induction l with
  | nil => rfl
  | cons nv l ih => rw [replaceChain_cons, replaceAll_nil, ih]

/-- A stretch without opening letters is copied. -/
theorem replaceChain_append_of_not_mem (M : Marks ν α) (l : List (ν × List α)) {x : List α}
    (h : M.opener ∉ x) (s : List α) : replaceChain M l (x ++ s) = x ++ replaceChain M l s := by
  induction l generalizing s with
  | nil => rfl
  | cons nv l ih =>
    have hone : replaceAll (M.mark nv.1) nv.2 (x ++ s) = x ++ replaceAll (M.mark nv.1) nv.2 s :=
      replaceAll_append_of_not_mem h s
    rw [replaceChain_cons, hone, ih, replaceChain_cons]

/-- The chain works apart on both sides of a letter that no mark has. -/
theorem replaceChain_append_cons_of_not_mem (M : Marks ν α) (l : List (ν × List α)) {a : α}
    (ha : ∀ n, a ∉ M.mark n) (x s : List α) :
    replaceChain M l (x ++ a :: s) = replaceChain M l x ++ a :: replaceChain M l s := by
  induction l generalizing x s with
  | nil => rfl
  | cons nv l ih =>
    rw [replaceChain_cons, replaceAll_append_cons_of_not_mem (M.mark_ne_nil _) (ha _), ih,
      replaceChain_cons, replaceChain_cons]

/-- A mark that the chain does not have is copied. -/
theorem replaceChain_mark_append_of_not_mem (M : Marks ν α) {l : List (ν × List α)} {n : ν}
    (h : n ∉ l.map Prod.fst) (s : List α) :
    replaceChain M l (M.mark n ++ s) = M.mark n ++ replaceChain M l s := by
  induction l generalizing s with
  | nil => rfl
  | cons nv l ih =>
    simp only [List.map_cons, List.mem_cons, not_or] at h
    rw [replaceChain_cons, replaceAll_mark_append_of_ne M (Ne.symm h.1), ih h.2, replaceChain_cons]

/-- A mark that a chain has once is replaced, and what was put in goes through the
    rest of the chain. -/
theorem replaceChain_mark (M : Marks ν α) {l l' : List (ν × List α)} {n : ν} {v : List α}
    (h : n ∉ l.map Prod.fst) :
    replaceChain M (l ++ (n, v) :: l') (M.mark n) = replaceChain M l' v := by
  have hcopy := replaceChain_mark_append_of_not_mem M h []
  rw [List.append_nil, replaceChain_empty, List.append_nil] at hcopy
  have hput := @replaceAll_pat_append _ _ _ v (M.mark_ne_nil n) []
  rw [List.append_nil, replaceAll_nil, List.append_nil] at hput
  rw [replaceChain_append, hcopy, replaceChain_cons, hput]

/-- A mark is replaced by the first value of its name, if later marks leave that alone. -/
theorem replaceChain_mark_append (M : Marks ν α) {l l' : List (ν × List α)} {n : ν} {v : List α}
    (h : n ∉ l.map Prod.fst) (hv : M.opener ∉ v) (s : List α) :
    replaceChain M (l ++ (n, v) :: l') (M.mark n ++ s) =
      v ++ replaceChain M (l ++ (n, v) :: l') s := by
  rw [replaceChain_append, replaceChain_mark_append_of_not_mem M h, replaceChain_cons,
    replaceAll_pat_append (M.mark_ne_nil n), replaceChain_append_of_not_mem M l' hv,
    replaceChain_append, replaceChain_cons]

end Chain

section Fill

variable [DecidableEq ν]

/-- Fill the holes named `n`. -/
def fillOne (n : ν) (v : List α) (ts : List (Token ν α)) : List (Token ν α) :=
  ts.flatMap fun
    | .lit a => [.lit a]
    | .hole m => if m = n then v.map .lit else [.hole m]

theorem litsOk_fillOne {M : Marks ν α} {n : ν} {v : List α} {ts : List (Token ν α)}
    (h : LitsOk M ts) (hv : M.opener ∉ v) : LitsOk M (fillOne n v ts) := by
  intro hm
  simp only [fillOne, List.mem_flatMap] at hm
  obtain ⟨t, ht, hm⟩ := hm
  cases t with
  | lit a =>
    simp only [List.mem_singleton] at hm
    exact h (hm ▸ ht)
  | hole m =>
    by_cases hmn : m = n
    · simp only [hmn, if_true, List.mem_map] at hm
      obtain ⟨a, ha, he⟩ := hm
      cases he
      exact hv ha
    · simp [hmn] at hm

theorem hole_mem_fillOne {n p : ν} {v : List α} {ts : List (Token ν α)} :
    Token.hole p ∈ fillOne n v ts ↔ Token.hole p ∈ ts ∧ p ≠ n := by
  simp only [fillOne, List.mem_flatMap]
  constructor
  · rintro ⟨t, ht, hm⟩
    cases t with
    | lit a => simp at hm
    | hole m =>
      by_cases hmn : m = n
      · simp [hmn] at hm
      · simp only [hmn, if_false, List.mem_singleton, Token.hole.injEq] at hm
        subst hm
        exact ⟨ht, hmn⟩
  · rintro ⟨ht, hpn⟩
    exact ⟨.hole p, ht, by simp [hpn]⟩

theorem fillOne_of_not_mem {n : ν} {v : List α} {ts : List (Token ν α)} (h : Token.hole n ∉ ts) :
    fillOne n v ts = ts := by
  induction ts with
  | nil => rfl
  | cons t ts ih =>
    rw [List.mem_cons, not_or] at h
    have hsplit : fillOne n v (t :: ts) = fillOne n v [t] ++ fillOne n v ts := by
      simp [fillOne]
    rw [hsplit, ih h.2]
    cases t with
    | lit a => rfl
    | hole m =>
      have hmn : m ≠ n := by
        rintro rfl
        exact h.1 rfl
      simp [fillOne, hmn]

/-- The value that `l` gives to `n`. -/
def valueOf (l : List (ν × List α)) (n : ν) : Option (List α) := l.lookup n

@[simp] theorem valueOf_nil (n : ν) : valueOf ([] : List (ν × List α)) n = none := rfl

theorem valueOf_cons (m n : ν) (v : List α) (l : List (ν × List α)) :
    valueOf ((m, v) :: l) n = if n = m then some v else valueOf l n := by
  by_cases h : n = m
  · simp [valueOf, h]
  · have hne : (n == m) = false := by simpa using h
    simp [valueOf, List.lookup_cons, h, hne]

/-- Where the names are different, a value is one of the list. -/
theorem valueOf_eq_some_iff {l : List (ν × List α)} (h : (l.map Prod.fst).Nodup) {n : ν}
    {v : List α} : valueOf l n = some v ↔ (n, v) ∈ l := by
  induction l with
  | nil => simp
  | cons nv l ih =>
    obtain ⟨m, w⟩ := nv
    rw [List.map_cons, List.nodup_cons] at h
    rw [valueOf_cons, List.mem_cons, Prod.mk.injEq]
    by_cases hnm : n = m
    · subst hnm
      have hout : (n, v) ∉ l := fun hmem => h.1 (List.mem_map.mpr ⟨_, hmem, rfl⟩)
      simp [hout, eq_comm]
    · simp [hnm, ih h.2]

/-- The order of the list does not matter then. -/
theorem valueOf_perm {l l' : List (ν × List α)} (hperm : l.Perm l') (h : (l.map Prod.fst).Nodup) :
    valueOf l = valueOf l' := by
  have h' : (l'.map Prod.fst).Nodup := (hperm.map Prod.fst).nodup_iff.mp h
  funext n
  refine Option.ext fun v => ?_
  rw [valueOf_eq_some_iff h, valueOf_eq_some_iff h', hperm.mem_iff]

theorem render_fillOne (M : Marks ν α) (n : ν) (v : List α) (l : List (ν × List α))
    (ts : List (Token ν α)) :
    render M (valueOf l) (fillOne n v ts) = render M (valueOf ((n, v) :: l)) ts := by
  induction ts with
  | nil => rfl
  | cons t ts ih =>
    have hsplit : fillOne n v (t :: ts) = fillOne n v [t] ++ fillOne n v ts := by
      simp [fillOne]
    rw [hsplit, render_append, ih]
    cases t with
    | lit a => rfl
    | hole m =>
      rw [render_hole]
      congr 1
      by_cases hmn : m = n
      · subst hmn
        simp [fillOne, render_map_lit, valueOf_cons]
      · simp [fillOne, hmn, valueOf_cons]

variable [DecidableEq α]

/-- Replacing the mark of `n` in a written template fills the holes named `n`. -/
theorem replaceAll_flatten {M : Marks ν α} {n : ν} {v : List α} {ts : List (Token ν α)}
    (h : LitsOk M ts) :
    replaceAll (M.mark n) v (flatten M ts) = flatten M (fillOne n v ts) := by
  induction ts with
  | nil => rfl
  | cons t ts ih =>
    have hts : LitsOk M ts := fun hm => h (by simp [hm])
    cases t with
    | lit a =>
      have ha : a ≠ M.opener := fun ha => h (by simp [ha])
      rw [flatten_lit, replaceAll_cons_of_miss, ih hts]
      · rfl
      · rintro ⟨r, hr⟩
        simp only [Marks.mark, List.cons_append, List.cons.injEq] at hr
        exact ha hr.1.symm
    | hole m =>
      rw [flatten_hole]
      by_cases hmn : m = n
      · subst hmn
        rw [replaceAll_pat_append (M.mark_ne_nil m), ih hts]
        simp [fillOne, flatten_map_lit]
      · have hone : fillOne n v (.hole m :: ts) = .hole m :: fillOne n v ts := by
          simp [fillOne, hmn]
        rw [hone, flatten_hole, ← ih hts, replaceAll_mark_append_of_ne M fun h => hmn h.symm]

/-- A chain of replacements on a written template is one substitution, whatever the values of
    names that the template does not have. -/
theorem replaceChain_flatten_of_holes {M : Marks ν α} {l : List (ν × List α)}
    {ts : List (Token ν α)} (h : LitsOk M ts)
    (hl : ∀ nv ∈ l, Token.hole nv.1 ∈ ts → M.opener ∉ nv.2) :
    replaceChain M l (flatten M ts) = render M (valueOf l) ts := by
  induction l generalizing ts with
  | nil =>
    simp only [replaceChain, List.foldl_nil, flatten, render]
    congr 1
  | cons nv l ih =>
    obtain ⟨n, v⟩ := nv
    have hfilled : LitsOk M (fillOne n v ts) := by
      by_cases hn : Token.hole n ∈ ts
      · exact litsOk_fillOne h (hl (n, v) (by simp) hn)
      · rwa [fillOne_of_not_mem hn]
    have hrest : ∀ nv ∈ l, Token.hole nv.1 ∈ fillOne n v ts → M.opener ∉ nv.2 :=
      fun nv hnv hhole => hl nv (by simp [hnv]) (hole_mem_fillOne.mp hhole).1
    rw [← render_fillOne, ← ih hfilled hrest, ← replaceAll_flatten h, replaceChain_cons]

/-- A chain of replacements on a written template is one substitution. -/
theorem replaceChain_flatten {M : Marks ν α} {l : List (ν × List α)} {ts : List (Token ν α)}
    (h : LitsOk M ts) (hl : ∀ nv ∈ l, M.opener ∉ nv.2) :
    replaceChain M l (flatten M ts) = render M (valueOf l) ts :=
  replaceChain_flatten_of_holes h fun nv hnv _ => hl nv hnv

theorem find?_mark (M : Marks ν α) (l : List (ν × List α)) (m : ν) (s : List α) :
    l.find? (fun nv => M.mark nv.1 <+: M.mark m ++ s) = (valueOf l m).map fun v => (m, v) := by
  induction l with
  | nil => rfl
  | cons nv l ih =>
    obtain ⟨n, v⟩ := nv
    by_cases hnm : n = m
    · subst hnm
      have hp : M.mark n <+: M.mark n ++ s := List.prefix_append _ _
      simp [hp, valueOf_cons]
    · have hp : ¬ M.mark n <+: M.mark m ++ s := fun hp => hnm (M.eq_of_mark_prefix hp)
      have hne : ¬ m = n := fun h => hnm h.symm
      simp [hp, hne, ih, valueOf_cons]

/-- A mark with a value is replaced. -/
theorem fillIn_mark_append (M : Marks ν α) (l : List (ν × List α)) {m : ν} {v : List α}
    (h : valueOf l m = some v) (s : List α) : fillIn M l (M.mark m ++ s) = v ++ fillIn M l s := by
  have hfind := find?_mark M l m s
  have hskip := fillFrom_append M l (M.name m ++ [M.closer]) s
  rw [h] at hfind
  rw [M.mark_append] at hfind ⊢
  rw [fillIn, fillFrom, hfind]
  simpa using hskip

/-- A mark without a value is copied. -/
theorem fillIn_mark_append_of_none (M : Marks ν α) (l : List (ν × List α)) {m : ν}
    (h : valueOf l m = none) (s : List α) :
    fillIn M l (M.mark m ++ s) = M.mark m ++ fillIn M l s := by
  have hfind := find?_mark M l m s
  have hbody : M.opener ∉ M.name m ++ [M.closer] := by
    simp [M.opener_not_mem m, M.opener_ne_closer]
  have hcopy := fillIn_append_of_not_mem M l hbody s
  rw [h] at hfind
  rw [M.mark_append] at hfind ⊢
  rw [fillIn, fillFrom, hfind]
  exact congrArg _ hcopy

/-- The single pass over a written template fills its holes. -/
theorem fillIn_flatten (M : Marks ν α) (l : List (ν × List α)) {ts : List (Token ν α)}
    (h : LitsOk M ts) : fillIn M l (flatten M ts) = render M (valueOf l) ts := by
  induction ts with
  | nil => rfl
  | cons t ts ih =>
    have hts : LitsOk M ts := fun hm => h (by simp [hm])
    cases t with
    | lit a =>
      have ha : M.opener ∉ [a] := by
        simp only [List.mem_singleton]
        exact fun ha => h (by simp [ha])
      have := fillIn_append_of_not_mem M l ha (flatten M ts)
      simpa [ih hts] using this
    | hole m =>
      rw [flatten_hole, render_hole, ← ih hts]
      cases hl : valueOf l m with
      | some v => exact fillIn_mark_append M l hl _
      | none => exact fillIn_mark_append_of_none M l hl _

/-- The chain of replacements does what the single pass does, on a written
    template and with values that have no opening letter. -/
theorem replaceChain_eq_fillIn {M : Marks ν α} {l : List (ν × List α)} {ts : List (Token ν α)}
    (h : LitsOk M ts) (hl : ∀ nv ∈ l, M.opener ∉ nv.2) :
    replaceChain M l (flatten M ts) = fillIn M l (flatten M ts) := by
  rw [replaceChain_flatten h hl, fillIn_flatten M l h]

/-! ## What is left to fill -/

/-- After a chain of replacements the marks that are left are those of the template
    whose names the chain does not have. -/
theorem mark_infix_replaceChain_iff {M : Marks ν α} {l : List (ν × List α)} {p : ν}
    {ts : List (Token ν α)} (h : LitsOk M ts) (hl : ∀ nv ∈ l, M.opener ∉ nv.2) :
    M.mark p <:+: replaceChain M l (flatten M ts) ↔
      M.mark p <:+: flatten M ts ∧ p ∉ l.map Prod.fst := by
  induction l generalizing ts with
  | nil => simp [replaceChain]
  | cons nv l ih =>
    obtain ⟨n, v⟩ := nv
    have hv : M.opener ∉ v := hl (n, v) (by simp)
    have hstep : replaceChain M ((n, v) :: l) (flatten M ts) =
        replaceChain M l (flatten M (fillOne n v ts)) := by
      rw [replaceChain_cons, replaceAll_flatten h]
    rw [hstep, ih (litsOk_fillOne h hv) fun nv hnv => hl nv (by simp [hnv]),
      mark_infix_flatten_iff (litsOk_fillOne h hv), hole_mem_fillOne, mark_infix_flatten_iff h]
    simp only [List.map_cons, List.mem_cons, not_or]
    tauto

end Fill

/-! ## Reading a template -/

/-- Every opening letter of `s` begins the mark of one of `names`. -/
def OpensOnly (M : Marks ν α) (names : List ν) (s : List α) : Prop :=
  ∀ x r, s = x ++ M.opener :: r → ∃ n ∈ names, M.mark n <+: M.opener :: r

theorem OpensOnly.of_append {M : Marks ν α} {names : List ν} {x s : List α}
    (h : OpensOnly M names (x ++ s)) : OpensOnly M names s := by
  intro y r hs
  exact h (x ++ y) r (by simp [hs])

/-- The opening letters of a written template all begin its marks. -/
theorem opensOnly_flatten {M : Marks ν α} {names : List ν} {ts : List (Token ν α)}
    (hok : LitsOk M ts) (h : ∀ n, Token.hole n ∈ ts → n ∈ names) :
    OpensOnly M names (flatten M ts) := by
  induction ts with
  | nil => exact fun x r hs => absurd hs (by simp)
  | cons t ts ih =>
    have ih := ih (fun hm => hok (by simp [hm])) fun n hn => h n (by simp [hn])
    cases t with
    | lit a =>
      intro x r hs
      cases x with
      | nil => exact absurd (List.cons.inj hs).1 fun ha => hok (by simp [ha])
      | cons b x => exact ih x r (List.cons.inj hs).2
    | hole n =>
      have hbody : M.opener ∉ M.name n ++ [M.closer] := by
        simp [M.opener_not_mem n, M.opener_ne_closer]
      intro x r hs
      rw [flatten_hole, M.mark_append] at hs
      cases x with
      | nil => exact ⟨n, h n (by simp), flatten M ts, by rw [M.mark_append, hs]; rfl⟩
      | cons b x =>
        obtain ⟨y, hy⟩ := exists_of_append_eq_append hbody (List.cons.inj hs).2
        exact ih y r hy

/-- A text whose opening letters all begin marks of `names` is a written template. -/
theorem exists_flatten_eq {M : Marks ν α} {names : List ν} {s : List α}
    (h : OpensOnly M names s) :
    ∃ ts : List (Token ν α), flatten M ts = s ∧ LitsOk M ts ∧
      ∀ n, Token.hole n ∈ ts → n ∈ names := by
  induction hlen : s.length using Nat.strong_induction_on generalizing s with
  | _ k ih =>
    cases s with
    | nil => exact ⟨[], rfl, by simp [LitsOk], by simp⟩
    | cons a s =>
      by_cases ha : a = M.opener
      · subst ha
        obtain ⟨n, hn, r, hr⟩ := h [] s rfl
        have hlt : r.length < k := by
          have := congrArg List.length hr
          simp only [Marks.mark, List.length_append, List.length_cons] at this hlen
          omega
        have hr' : OpensOnly M names r := OpensOnly.of_append (x := M.mark n) (by rwa [hr])
        obtain ⟨ts, hts, hok, hnames⟩ := ih r.length hlt hr' rfl
        refine ⟨.hole n :: ts, by rw [flatten_hole, hts, hr], ?_, ?_⟩
        · simpa [LitsOk] using hok
        · intro m hm
          rcases List.mem_cons.mp hm with hm | hm
          · cases hm
            exact hn
          · exact hnames m hm
      · have hs : OpensOnly M names s := OpensOnly.of_append (x := [a]) h
        obtain ⟨ts, hts, hok, hnames⟩ := ih s.length (by simp [← hlen]) hs rfl
        refine ⟨.lit a :: ts, by rw [flatten_lit, hts], ?_, ?_⟩
        · intro hm
          rcases List.mem_cons.mp hm with hm | hm
          · cases hm
            exact ha rfl
          · exact hok hm
        · intro m hm
          rcases List.mem_cons.mp hm with hm | hm
          · cases hm
          · exact hnames m hm

end Substitution
