import Mathlib.Logic.Basic
import Mathlib.Data.List.Basic

/-!
# Scripts that stop at the first error

A `Script σ α` is a computation over a state `σ` that either returns a value or
stops, as a shell script does under `errexit`; a stopped script keeps the
state it has reached, and nothing after it runs.

* `bind_eq_some_iff`, `forEach_cons_eq_some_iff`: a completed run is the chain of
  the completed runs of its parts.
* `Keeps`: an invariant that holds in every state a run ends in, completed or
  stopped, with one rule for each way to build a script.
* `Returns`: what is known of the value a completed run returns.
* `Parallel`: two runs from related states give the same value and end in
  related states.
* `Follows`: what completes in one state completes in a related one.
* `forEach_establishes`: a loop whose body establishes a fact for its own
  element, and spoils it for no other, has established it for all elements.
-/

namespace Errexit

/-- A script over the states `σ`: the value it returns, or `none` when it has
    stopped, and the state it leaves. -/
structure Script (σ α : Type) where
  run : σ → Option α × σ

namespace Script

variable {σ α β γ : Type}

instance : Monad (Script σ) where
  pure a := ⟨fun s => (some a, s)⟩
  bind m f := ⟨fun s =>
    match m.run s with
    | (some a, t) => (f a).run t
    | (none, t) => (none, t)⟩

/-- The script that stops at once. -/
def stop : Script σ α := ⟨fun s => (none, s)⟩

/-- Read a value off the state. -/
def look (f : σ → α) : Script σ α := ⟨fun s => (some (f s), s)⟩

/-- Update the state. -/
def update (f : σ → σ) : Script σ Unit := ⟨fun s => (some (), f s)⟩

/-- Run `m` if `b` holds. -/
def whenever (b : Bool) (m : Script σ Unit) : Script σ Unit := if b then m else pure ()

/-- Go on only if `b` holds. -/
def require (b : Bool) : Script σ Unit := if b then pure () else stop

/-- `for x in xs; do body x; done` -/
def forEach : List α → (α → Script σ Unit) → Script σ Unit
  | [], _ => pure ()
  | x :: xs, body => body x >>= fun _ => forEach xs body

/-! ## Runs -/

@[simp] theorem pure_run (a : α) (s : σ) : (pure a : Script σ α).run s = (some a, s) := rfl

@[simp] theorem stop_run (s : σ) : (stop : Script σ α).run s = (none, s) := rfl

@[simp] theorem look_run (f : σ → α) (s : σ) : (look f).run s = (some (f s), s) := rfl

@[simp] theorem update_run (f : σ → σ) (s : σ) : (update f).run s = (some (), f s) := rfl

theorem bind_run (m : Script σ α) (f : α → Script σ β) (s : σ) :
    (m >>= f).run s = match m.run s with
      | (some a, t) => (f a).run t
      | (none, t) => (none, t) := rfl

@[simp] theorem look_bind_run (f : σ → α) (g : α → Script σ β) (s : σ) :
    (look f >>= g).run s = (g (f s)).run s := rfl

/-- A run that completes, and the state it leaves. -/
theorem run_eq_of_fst {m : Script σ Unit} {s : σ} (h : (m.run s).1 = some ()) :
    m.run s = (some (), (m.run s).2) := Prod.ext h rfl

theorem bind_run_of_some {m : Script σ α} {f : α → Script σ β} {s t : σ} {a : α}
    (h : m.run s = (some a, t)) : (m >>= f).run s = (f a).run t := by rw [bind_run, h]

theorem bind_run_of_none {m : Script σ α} {f : α → Script σ β} {s t : σ}
    (h : m.run s = (none, t)) : (m >>= f).run s = (none, t) := by rw [bind_run, h]

/-- A sequence completes when both its parts do. -/
theorem bind_eq_some_iff {m : Script σ α} {f : α → Script σ β} {s u : σ} {b : β} :
    (m >>= f).run s = (some b, u) ↔ ∃ a t, m.run s = (some a, t) ∧ (f a).run t = (some b, u) := by
  rw [bind_run]
  rcases m.run s with ⟨_ | a, t⟩
  · simp
  · constructor
    · intro h
      exact ⟨a, t, rfl, h⟩
    · rintro ⟨a', t', h, h'⟩
      cases h
      exact h'

/-- The same after a step without a value. -/
theorem seq_eq_some_iff {m : Script σ Unit} {f : Unit → Script σ β} {s u : σ} {b : β} :
    (m >>= f).run s = (some b, u) ↔ ∃ t, m.run s = (some (), t) ∧ (f ()).run t = (some b, u) := by
  rw [bind_eq_some_iff]
  constructor
  · rintro ⟨⟨⟩, t, h⟩
    exact ⟨t, h⟩
  · rintro ⟨t, h⟩
    exact ⟨(), t, h⟩

/-- A sequence ends where its first part stops, or as its second part does. -/
theorem seq_run_cases {m : Script σ Unit} {f : Unit → Script σ β} {s t : σ} {o : Option β}
    (h : (m >>= f).run s = (o, t)) : (o = none ∧ m.run s = (none, t)) ∨
      ∃ u, m.run s = (some (), u) ∧ (f ()).run u = (o, t) := by
  rw [bind_run] at h
  rcases hm : m.run s with ⟨_ | ⟨⟩, u⟩
  · rw [hm, Prod.mk.injEq] at h
    exact Or.inl ⟨h.1.symm, Prod.ext rfl h.2⟩
  · rw [hm] at h
    exact Or.inr ⟨u, rfl, h⟩

theorem whenever_eq_some_iff {b : Bool} {m : Script σ Unit} {s t : σ} :
    (whenever b m).run s = (some (), t) ↔ (b = true ∧ m.run s = (some (), t)) ∨ (b = false ∧ s = t) := by
  cases b <;> simp [whenever]

theorem require_seq_eq_some_iff {b : Bool} {f : Unit → Script σ β} {s u : σ} {x : β} :
    (require b >>= f).run s = (some x, u) ↔ b = true ∧ (f ()).run s = (some x, u) := by
  cases b <;> simp [require, bind_run]

theorem look_eq_some_iff {f : σ → α} {s t : σ} {a : α} :
    (look f).run s = (some a, t) ↔ f s = a ∧ s = t := by
  simp

@[simp] theorem forEach_nil (body : α → Script σ Unit) : forEach [] body = pure () := rfl

theorem forEach_cons (x : α) (xs : List α) (body : α → Script σ Unit) :
    forEach (x :: xs) body = body x >>= fun _ => forEach xs body := rfl

theorem forEach_cons_eq_some_iff {x : α} {xs : List α} {body : α → Script σ Unit} {s u : σ} :
    (forEach (x :: xs) body).run s = (some (), u) ↔
      ∃ t, (body x).run s = (some (), t) ∧ (forEach xs body).run t = (some (), u) := by
  rw [forEach_cons, seq_eq_some_iff]

theorem forEach_seq_eq_some_iff {xs : List α} {body : α → Script σ Unit} {f : Unit → Script σ β}
    {s u : σ} {b : β} : (forEach xs body >>= f).run s = (some b, u) ↔
      ∃ t, (forEach xs body).run s = (some (), t) ∧ (f ()).run t = (some b, u) := seq_eq_some_iff

/-- A step that returns nothing new at the end of a script. -/
theorem seq_pure (m : Script σ Unit) : (m >>= fun _ => pure ()) = m := by
  have hrun : (m >>= fun _ => pure ()).run = m.run := by
    funext s
    rw [bind_run]
    rcases m.run s with ⟨_ | ⟨⟩, t⟩ <;> rfl
  exact congrArg Script.mk hrun

theorem bind_bind (m : Script σ α) (f : α → Script σ β) (g : β → Script σ γ) :
    (m >>= f) >>= g = m >>= fun a => f a >>= g := by
  have hrun : ((m >>= f) >>= g).run = (m >>= fun a => f a >>= g).run := by
    funext s
    simp only [bind_run]
    rcases m.run s with ⟨_ | a, t⟩ <;> rfl
  exact congrArg Script.mk hrun

theorem pure_seq (f : Unit → Script σ β) : (pure () >>= f) = f () := rfl

/-- A loop over the elements with `p` passes over the others. -/
theorem forEach_congr {xs : List α} {body body' : α → Script σ Unit}
    (h : ∀ x ∈ xs, body x = body' x) : forEach xs body = forEach xs body' := by
  induction xs with
  | nil => rfl
  | cons x xs ih =>
    rw [forEach_cons, forEach_cons, h x (by simp), ih fun y hy => h y (by simp [hy])]

/-- Scripts that read the same values and go on alike with them are the same. -/
theorem look_bind_congr {f f' : σ → α} {g g' : α → Script σ β} (hf : ∀ s, f' s = f s)
    (hg : ∀ s, g' (f s) = g (f s)) : (look f' >>= g') = (look f >>= g) := by
  have hrun : (look f' >>= g').run = (look f >>= g).run := by
    funext s
    rw [look_bind_run, look_bind_run, hf, hg]
  exact congrArg Script.mk hrun

theorem forEach_filter (p : α → Bool) (xs : List α) (body : α → Script σ Unit) :
    forEach (xs.filter p) body = forEach xs fun x => whenever (p x) (body x) := by
  induction xs with
  | nil => rfl
  | cons x xs ih =>
    rw [forEach_cons, ← ih]
    cases hp : p x with
    | false => rw [List.filter_cons_of_neg (by simp [hp]), whenever, if_neg (by simp), pure_seq]
    | true => rw [List.filter_cons_of_pos hp, whenever, if_pos rfl, forEach_cons]

/-! ## Invariants -/

/-- `m` keeps `I`: from a state with `I` every run of `m`, completed or stopped,
    ends in a state with `I`. -/
def Keeps (I : σ → Prop) (m : Script σ α) : Prop := ∀ s, I s → I (m.run s).2

/-- A completed run of `m` from a state with `I` returns a value with `V`. -/
def Returns (I : σ → Prop) (m : Script σ α) (V : α → Prop) : Prop :=
  ∀ s a t, I s → m.run s = (some a, t) → V a

section Keeps

variable {I : σ → Prop}

theorem keeps_pure (a : α) : Keeps I (pure a : Script σ α) := fun _ h => h

theorem keeps_stop : Keeps I (stop : Script σ α) := fun _ h => h

theorem keeps_look (f : σ → α) : Keeps I (look f) := fun _ h => h

theorem keeps_update {f : σ → σ} (h : ∀ s, I s → I (f s)) : Keeps I (update f) := h

theorem keeps_bind_of_returns {m : Script σ α} {f : α → Script σ β} {V : α → Prop}
    (hm : Keeps I m) (hv : Returns I m V) (hf : ∀ a, V a → Keeps I (f a)) :
    Keeps I (m >>= f) := by
  intro s hs
  have ht := hm s hs
  rw [bind_run]
  rcases h : m.run s with ⟨_ | a, t⟩
  · simpa [h] using ht
  · exact hf a (hv s a t hs h) t (by simpa [h] using ht)

theorem keeps_bind {m : Script σ α} {f : α → Script σ β} (hm : Keeps I m)
    (hf : ∀ a, Keeps I (f a)) : Keeps I (m >>= f) :=
  keeps_bind_of_returns (V := fun _ => True) hm (fun _ _ _ _ _ => trivial) fun a _ => hf a

theorem keeps_whenever {b : Bool} {m : Script σ Unit} (hm : b = true → Keeps I m) :
    Keeps I (whenever b m) := by
  cases b
  · exact keeps_pure ()
  · exact hm rfl

theorem keeps_require (b : Bool) : Keeps I (require b : Script σ Unit) := by
  cases b
  · exact keeps_stop
  · exact keeps_pure ()

theorem keeps_forEach {xs : List α} {body : α → Script σ Unit}
    (h : ∀ x ∈ xs, Keeps I (body x)) : Keeps I (forEach xs body) := by
  induction xs with
  | nil => exact keeps_pure ()
  | cons x xs ih =>
    exact keeps_bind (h x (by simp)) fun _ => ih fun y hy => h y (by simp [hy])

theorem Keeps.of_run {m : Script σ α} (h : Keeps I m) {s t : σ} {o : Option α} (hs : I s)
    (hrun : m.run s = (o, t)) : I t := by
  have := h s hs
  rwa [hrun] at this

end Keeps

/-! ## Completed and stopped runs -/

/-- From a state with `I` every completed run of `m` ends with `J`, and every run that
    stops leaves a state with `K`. -/
def Ends (I : σ → Prop) (m : Script σ α) (J : α → σ → Prop) (K : σ → Prop) : Prop :=
  ∀ s, I s → match m.run s with
    | (some a, t) => J a t
    | (none, t) => K t

section Ends

variable {I K : σ → Prop}

theorem ends_bind_of_returns {m : Script σ α} {f : α → Script σ β} {J : α → σ → Prop}
    {L : β → σ → Prop} {V : α → Prop} (hm : Ends I m J K) (hv : Returns (fun _ => True) m V)
    (hf : ∀ a, V a → Ends (J a) (f a) L K) : Ends I (m >>= f) L K := by
  intro s hs
  have ht := hm s hs
  rw [bind_run]
  rcases h : m.run s with ⟨_ | a, t⟩
  · simpa [h] using ht
  · exact hf a (hv s a t trivial h) t (by simpa [h] using ht)

theorem ends_bind {m : Script σ α} {f : α → Script σ β} {J : α → σ → Prop} {L : β → σ → Prop}
    (hm : Ends I m J K) (hf : ∀ a, Ends (J a) (f a) L K) : Ends I (m >>= f) L K :=
  ends_bind_of_returns (V := fun _ => True) hm (fun _ _ _ _ _ => trivial) fun a _ => hf a

theorem Keeps.ends {m : Script σ α} (h : Keeps I m) : Ends I m (fun _ => I) I := by
  intro s hs
  have ht := h s hs
  rcases hrun : m.run s with ⟨_ | a, t⟩ <;> simpa [hrun] using ht

theorem Ends.keeps {m : Script σ α} (h : Ends I m (fun _ => I) I) : Keeps I m := by
  intro s hs
  have ht := h s hs
  rcases hrun : m.run s with ⟨_ | a, t⟩ <;> simpa [hrun] using ht

theorem Ends.of_some {m : Script σ α} {J : α → σ → Prop} (h : Ends I m J K) {s t : σ} {a : α}
    (hs : I s) (hrun : m.run s = (some a, t)) : J a t := by
  have := h s hs
  rwa [hrun] at this

theorem Ends.of_none {m : Script σ α} {J : α → σ → Prop} (h : Ends I m J K) {s t : σ}
    (hs : I s) (hrun : m.run s = (none, t)) : K t := by
  have := h s hs
  rwa [hrun] at this

end Ends

/-! ## Two runs side by side -/

/-- From states related by `R`, two runs of `m` return the same value, or both
    stop, and end in related states. -/
def Parallel (R : σ → σ → Prop) (m : Script σ α) : Prop :=
  ∀ s t, R s t → (m.run s).1 = (m.run t).1 ∧ R (m.run s).2 (m.run t).2

section Parallel

variable {R : σ → σ → Prop}

theorem parallel_pure (a : α) : Parallel R (pure a : Script σ α) := fun _ _ h => ⟨rfl, h⟩

theorem parallel_stop : Parallel R (stop : Script σ α) := fun _ _ h => ⟨rfl, h⟩

theorem parallel_look {f : σ → α} (h : ∀ s t, R s t → f s = f t) : Parallel R (look f) :=
  fun s t hst => ⟨by simp [h s t hst], hst⟩

theorem parallel_update {f : σ → σ} (h : ∀ s t, R s t → R (f s) (f t)) :
    Parallel R (update f) := fun s t hst => ⟨rfl, h s t hst⟩

theorem parallel_bind_of_returns {m : Script σ α} {f : α → Script σ β} {V : α → Prop}
    (hm : Parallel R m) (hv : Returns (fun _ => True) m V) (hf : ∀ a, V a → Parallel R (f a)) :
    Parallel R (m >>= f) := by
  intro s t hst
  have h := hm s t hst
  rw [bind_run, bind_run]
  rcases hs : m.run s with ⟨_ | a, s'⟩ <;> rcases ht : m.run t with ⟨_ | b, t'⟩ <;> rw [hs, ht] at h
  · exact ⟨rfl, h.2⟩
  · exact absurd h.1 (by simp)
  · exact absurd h.1 (by simp)
  · have hab : a = b := Option.some.inj h.1
    subst hab
    exact hf a (hv s a s' trivial hs) s' t' h.2

theorem parallel_bind {m : Script σ α} {f : α → Script σ β} (hm : Parallel R m)
    (hf : ∀ a, Parallel R (f a)) : Parallel R (m >>= f) :=
  parallel_bind_of_returns (V := fun _ => True) hm (fun _ _ _ _ _ => trivial) fun a _ => hf a

/-- What the first part establishes in both runs, the second part may start from. -/
theorem parallel_bind_of_establishes {m : Script σ α} {f : α → Script σ β} {Q : α → σ → σ → Prop}
    (hm : Parallel R m)
    (hq : ∀ s t a s' t', R s t → R s' t' → m.run s = (some a, s') → m.run t = (some a, t') →
      Q a s' t')
    (hf : ∀ a, Parallel (Q a) (f a)) (hQR : ∀ a s t, Q a s t → R s t) : Parallel R (m >>= f) := by
  intro s t hst
  have h := hm s t hst
  rw [bind_run, bind_run]
  rcases hs : m.run s with ⟨_ | a, s'⟩ <;> rcases ht : m.run t with ⟨_ | b, t'⟩ <;> rw [hs, ht] at h
  · exact ⟨rfl, h.2⟩
  · exact absurd h.1 (by simp)
  · exact absurd h.1 (by simp)
  · obtain rfl : a = b := Option.some.inj h.1
    obtain ⟨hvalue, hstates⟩ := hf a s' t' (hq s t a s' t' hst h.2 hs ht)
    exact ⟨hvalue, hQR a _ _ hstates⟩

theorem parallel_whenever {b : Bool} {m : Script σ Unit} (hm : b = true → Parallel R m) :
    Parallel R (whenever b m) := by
  cases b
  · exact parallel_pure ()
  · exact hm rfl

theorem parallel_require (b : Bool) : Parallel R (require b : Script σ Unit) := by
  cases b
  · exact parallel_stop
  · exact parallel_pure ()

theorem parallel_forEach {xs : List α} {body : α → Script σ Unit}
    (h : ∀ x ∈ xs, Parallel R (body x)) : Parallel R (forEach xs body) := by
  induction xs with
  | nil => exact parallel_pure ()
  | cons x xs ih =>
    exact parallel_bind (h x (by simp)) fun _ => ih fun y hy => h y (by simp [hy])

end Parallel

/-! ## One run after another -/

/-- From states related by `R`, what `m` completes in the first it completes in the second,
    with the same value, and it ends in states related by `Q`. -/
def Follows (R : σ → σ → Prop) (m : Script σ α) (Q : σ → σ → Prop) : Prop :=
  ∀ s t a s', R s t → m.run s = (some a, s') → ∃ t', m.run t = (some a, t') ∧ Q s' t'

section Follows

variable {R Q S : σ → σ → Prop}

theorem follows_pure (a : α) : Follows R (pure a : Script σ α) R := by
  rintro s t b s' hst h
  cases h
  exact ⟨t, rfl, hst⟩

theorem follows_bind_of_returns {m : Script σ α} {f : α → Script σ β} {V : α → Prop}
    (hm : Follows R m Q) (hv : Returns (fun _ => True) m V) (hf : ∀ a, V a → Follows Q (f a) S) :
    Follows R (m >>= f) S := by
  intro s t b s' hst hrun
  obtain ⟨a, u, hm', hf'⟩ := bind_eq_some_iff.mp hrun
  obtain ⟨v, hv', huv⟩ := hm s t a u hst hm'
  obtain ⟨t', ht', hst'⟩ := hf a (hv s a u trivial hm') u v b s' huv hf'
  exact ⟨t', bind_eq_some_iff.mpr ⟨a, v, hv', ht'⟩, hst'⟩

theorem follows_bind {m : Script σ α} {f : α → Script σ β} (hm : Follows R m Q)
    (hf : ∀ a, Follows Q (f a) S) : Follows R (m >>= f) S :=
  follows_bind_of_returns (V := fun _ => True) hm (fun _ _ _ _ _ => trivial) fun a _ => hf a

theorem follows_forEach {xs : List α} {body : α → Script σ Unit}
    (h : ∀ x ∈ xs, Follows R (body x) R) : Follows R (forEach xs body) R := by
  induction xs with
  | nil => exact follows_pure ()
  | cons x xs ih =>
    exact follows_bind (h x (by simp)) fun _ => ih fun y hy => h y (by simp [hy])

theorem Follows.mono {m : Script σ α} {R' Q' : σ → σ → Prop} (h : Follows R m Q)
    (hR : ∀ s t, R' s t → R s t) (hQ : ∀ s t, Q s t → Q' s t) : Follows R' m Q' := by
  intro s t a s' hst hrun
  obtain ⟨t', ht', hQ'⟩ := h s t a s' (hR s t hst) hrun
  exact ⟨t', ht', hQ s' t' hQ'⟩

end Follows

/-! ## What a loop establishes -/

/-- A completed loop keeps what every completed pass of its body keeps. -/
theorem forEach_keeps_of_some {xs : List α} {body : α → Script σ Unit} {I : σ → Prop}
    (hbody : ∀ x ∈ xs, ∀ s t, I s → (body x).run s = (some (), t) → I t) {s u : σ} (hs : I s)
    (hrun : (forEach xs body).run s = (some (), u)) : I u := by
  induction xs generalizing s with
  | nil =>
    cases hrun
    exact hs
  | cons x xs ih =>
    obtain ⟨t, hx, hxs⟩ := forEach_cons_eq_some_iff.mp hrun
    exact ih (fun y hy => hbody y (by simp [hy])) (hbody x (by simp) s t hs hx) hxs

/-- If each pass establishes `G` for its own element and keeps it for every
    element, a completed loop has established `G` for all elements. `I` is an
    invariant of the passes. -/
theorem forEach_establishes {xs : List α} {body : α → Script σ Unit} {I : σ → Prop}
    {G : α → σ → Prop} (hinv : ∀ x ∈ xs, ∀ s t, I s → (body x).run s = (some (), t) → I t)
    (hest : ∀ x ∈ xs, ∀ s t, I s → (body x).run s = (some (), t) → G x t)
    (hkeep : ∀ x ∈ xs, ∀ y ∈ xs, ∀ s t, I s → G x s → (body y).run s = (some (), t) → G x t)
    {s u : σ} (hs : I s) (hrun : (forEach xs body).run s = (some (), u)) : ∀ x ∈ xs, G x u := by
  induction xs generalizing s with
  | nil => simp
  | cons x xs ih =>
    obtain ⟨t, hx, hxs⟩ := forEach_cons_eq_some_iff.mp hrun
    have ht := hinv x (by simp) s t hs hx
    have hkeepx := forEach_keeps_of_some (I := fun s => I s ∧ G x s)
      (fun y hy s t hst hrun => ⟨hinv y (by simp [hy]) s t hst.1 hrun,
        hkeep x (by simp) y (by simp [hy]) s t hst.1 hst.2 hrun⟩)
      ⟨ht, hest x (by simp) s t hs hx⟩ hxs
    intro y hy
    rcases List.mem_cons.mp hy with rfl | hy
    · exact hkeepx.2
    · exact ih (fun z hz => hinv z (by simp [hz])) (fun z hz => hest z (by simp [hz]))
        (fun z hz w hw => hkeep z (by simp [hz]) w (by simp [hw])) ht hxs y hy

/-- If each pass appends the output of its element, a completed loop has appended the outputs
    of all of them. `V s l` says that the output is `l` in `s`. -/
theorem forEach_flatMap {xs : List α} {body : α → Script σ Unit} {V : σ → List β → Prop}
    {f : α → List β}
    (h : ∀ x ∈ xs, ∀ s t l, V s l → (body x).run s = (some (), t) → V t (l ++ f x)) {s u : σ}
    {l : List β} (hs : V s l) (hrun : (forEach xs body).run s = (some (), u)) :
    V u (l ++ xs.flatMap f) := by
  induction xs generalizing s l with
  | nil =>
    cases hrun
    simpa using hs
  | cons x xs ih =>
    obtain ⟨t, hx, hxs⟩ := forEach_cons_eq_some_iff.mp hrun
    have ht := ih (fun y hy => h y (by simp [hy])) (h x (by simp) s t l hs hx) hxs
    rwa [List.append_assoc] at ht

end Script

end Errexit
