import RedisCluster.Library.Script

/-!
# Scripts as lists of steps

What a script reads in the states of an invariant may be known. There it is a list of steps.

* `SameFrom`: two scripts with the same runs from the states of an invariant.
* `forEach_append`, `forEach_map`, `forEach_flatten`: lists of steps put together.
* `forEach_reaches`: what one step establishes, and all of them keep, holds in the end.
-/

namespace Errexit

namespace Script

variable {σ α β : Type} {I : σ → Prop}

/-! ## Lists of steps -/

theorem forEach_append (xs ys : List α) (body : α → Script σ Unit) :
    forEach (xs ++ ys) body = forEach xs body >>= fun _ => forEach ys body := by
  induction xs with
  | nil => rfl
  | cons x xs ih => rw [List.cons_append, forEach_cons, forEach_cons, ih, bind_bind]

theorem forEach_singleton (x : α) (body : α → Script σ Unit) : forEach [x] body = body x :=
  seq_pure (body x)

theorem forEach_map (f : α → β) (xs : List α) (body : β → Script σ Unit) :
    forEach (xs.map f) body = forEach xs fun x => body (f x) := by
  induction xs with
  | nil => rfl
  | cons x xs ih => rw [List.map_cons, forEach_cons, forEach_cons, ih]

theorem forEach_flatten (f : α → List β) (xs : List α) (body : β → Script σ Unit) :
    forEach (xs.flatMap f) body = forEach xs fun x => forEach (f x) body := by
  induction xs with
  | nil => rfl
  | cons x xs ih => rw [List.flatMap_cons, forEach_append, forEach_cons, ih]

theorem forEach_append_eq_some_iff {xs ys : List α} {body : α → Script σ Unit} {s u : σ} :
    (forEach (xs ++ ys) body).run s = (some (), u) ↔
      ∃ t, (forEach xs body).run s = (some (), t) ∧ (forEach ys body).run t = (some (), u) := by
  rw [forEach_append, seq_eq_some_iff]

/-- A fact that a step establishes and no step spoils holds behind a completed list of steps. -/
theorem forEach_reaches {G : σ → Prop} {xs : List α} {body : α → Script σ Unit}
    (hinv : ∀ x ∈ xs, ∀ s t, I s → (body x).run s = (some (), t) → I t)
    (hkeep : ∀ x ∈ xs, ∀ s t, I s → G s → (body x).run s = (some (), t) → G t) {x : α}
    (hx : x ∈ xs) (hest : ∀ s t, I s → (body x).run s = (some (), t) → G t) {s u : σ} (hs : I s)
    (hrun : (forEach xs body).run s = (some (), u)) : G u := by
  obtain ⟨as, bs, rfl⟩ := List.append_of_mem hx
  obtain ⟨t, has, hrest⟩ := forEach_append_eq_some_iff.mp hrun
  obtain ⟨t', hbody, hbs⟩ := forEach_cons_eq_some_iff.mp hrest
  have ht : I t := forEach_keeps_of_some (fun y hy => hinv y (by simp [hy])) hs has
  have hstart : I t' ∧ G t' := ⟨hinv x hx t t' ht hbody, hest t t' ht hbody⟩
  refine (forEach_keeps_of_some (I := fun s => I s ∧ G s) (fun y hy v w hv hrun => ?_)
    hstart hbs).2
  exact ⟨hinv y (by simp [hy]) v w hv.1 hrun, hkeep y (by simp [hy]) v w hv.1 hv.2 hrun⟩

/-! ## The same runs -/

/-- From the states with `I` the two scripts do the same. -/
def SameFrom (I : σ → Prop) (x y : Script σ α) : Prop := ∀ s, I s → x.run s = y.run s

theorem sameFrom_refl (x : Script σ α) : SameFrom I x x := fun _ _ => rfl

theorem sameFrom_bind {x y : Script σ α} {f g : α → Script σ β} (hx : SameFrom I x y)
    (hkeeps : Keeps I y) (hf : ∀ a, SameFrom I (f a) (g a)) : SameFrom I (x >>= f) (y >>= g) := by
  intro s hs
  have ht := hkeeps s hs
  rw [bind_run, bind_run, hx s hs]
  rcases hy : y.run s with ⟨_ | a, t⟩
  · rfl
  · rw [hy] at ht
    exact hf a t ht

/-- A read whose value is known. -/
theorem sameFrom_look {f : σ → α} {g : α → Script σ β} {y : Script σ β} (a : α)
    (hf : ∀ s, I s → f s = a) (hg : SameFrom I (g a) y) : SameFrom I (look f >>= g) y := by
  intro s hs
  rw [look_bind_run, hf s hs]
  exact hg s hs

theorem sameFrom_whenever {b : Bool} {x y : Script σ Unit} (h : SameFrom I x y) :
    SameFrom I (whenever b x) (whenever b y) := by
  cases b
  · exact sameFrom_refl _
  · exact h

/-- A step in front of a list of steps. -/
theorem sameFrom_cons {x : Script σ Unit} {f : Unit → Script σ Unit} {a : α} {as : List α}
    {body : α → Script σ Unit} (hx : SameFrom I x (body a)) (hkeeps : Keeps I (body a))
    (hf : SameFrom I (f ()) (forEach as body)) : SameFrom I (x >>= f) (forEach (a :: as) body) := by
  rw [forEach_cons]
  exact sameFrom_bind hx hkeeps fun _ => hf

theorem sameFrom_append {x : Script σ Unit} {f : Unit → Script σ Unit} {as bs : List α}
    {body : α → Script σ Unit} (hx : SameFrom I x (forEach as body))
    (hkeeps : ∀ a ∈ as, Keeps I (body a)) (hf : SameFrom I (f ()) (forEach bs body)) :
    SameFrom I (x >>= f) (forEach (as ++ bs) body) := by
  rw [forEach_append]
  exact sameFrom_bind hx (keeps_forEach hkeeps) fun _ => hf

theorem sameFrom_forEach {xs : List α} {body body' : α → Script σ Unit}
    (hsame : ∀ x ∈ xs, SameFrom I (body x) (body' x)) (hkeeps : ∀ x ∈ xs, Keeps I (body' x)) :
    SameFrom I (forEach xs body) (forEach xs body') := by
  induction xs with
  | nil => exact sameFrom_refl _
  | cons x xs ih =>
    exact sameFrom_bind (hsame x (by simp)) (hkeeps x (by simp)) fun _ =>
      ih (fun y hy => hsame y (by simp [hy])) fun y hy => hkeeps y (by simp [hy])

end Script

end Errexit
