import RedisCluster.Library.Script

/-!
# Scripts that come to their end

`Completes P x Q`: from the states of `P` the script `x` runs to its end, with a value and in a
state that satisfy `Q`. Each way to build a script has its rule, a loop by an invariant.

* `completes_pure`, `completes_bind`, `completes_forEach`: the rules.
* `Completes.after`: the completed run; `Ends.result`: any run.
-/

namespace Errexit

namespace Script

variable {σ α β : Type}

/-- From the states of `P` the script comes to its end, and there `Q` holds. -/
def Completes (P : σ → Prop) (x : Script σ α) (Q : α → σ → Prop) : Prop :=
  ∀ s, P s → ∃ a t, x.run s = (some a, t) ∧ Q a t

variable {P P' : σ → Prop} {Q Q' : α → σ → Prop} {x : Script σ α}

theorem Completes.mono (h : Completes P x Q) (hP : ∀ s, P' s → P s)
    (hQ : ∀ a t, Q a t → Q' a t) : Completes P' x Q' := by
  intro s hs
  obtain ⟨a, t, hrun, hq⟩ := h s (hP s hs)
  exact ⟨a, t, hrun, hQ a t hq⟩

theorem completes_pure (a : α) (h : ∀ s, P s → Q a s) : Completes P (pure a : Script σ α) Q :=
  fun s hs => ⟨a, s, rfl, h s hs⟩

theorem completes_bind {f : α → Script σ β} {S : β → σ → Prop} (hx : Completes P x Q)
    (hf : ∀ a, Completes (Q a) (f a) S) : Completes P (x >>= f) S := by
  intro s hs
  obtain ⟨a, t, hrun, hq⟩ := hx s hs
  obtain ⟨b, u, hrun', hS⟩ := hf a t hq
  exact ⟨b, u, bind_eq_some_iff.mpr ⟨a, t, hrun, hrun'⟩, hS⟩

/-- A loop completes if every pass does, and each leaves what the next one needs. -/
theorem completes_forEach {xs : List β} {body : β → Script σ Unit}
    (h : ∀ y ∈ xs, Completes P (body y) fun _ => P) :
    Completes P (forEach xs body) fun _ => P := by
  induction xs with
  | nil => exact completes_pure () fun _ hs => hs
  | cons y ys ih =>
    exact completes_bind (h y (by simp)) fun _ => ih fun z hz => h z (by simp [hz])

/-- A script that completes, as a run. -/
theorem Completes.after {x : Script σ Unit} {Q : Unit → σ → Prop} (h : Completes P x Q) {s : σ}
    (hs : P s) : ∃ t, x.run s = (some (), t) ∧ Q () t := by
  obtain ⟨⟨⟩, t, hrun, hq⟩ := h s hs
  exact ⟨t, hrun, hq⟩

/-- What holds wherever a script ends, what holds where it completes, and what holds where it
    stops. -/
theorem Ends.result {I J K L : σ → Prop} {x : Script σ Unit}
    (h : Ends I x (fun _ t => L t ∧ J t) (fun t => L t ∧ K t)) {s : σ} (hs : I s) :
    L (x.run s).2 ∧ ((x.run s).1 = some () → J (x.run s).2) ∧
      ((x.run s).1 = none → K (x.run s).2) := by
  rcases hrun : x.run s with ⟨_ | _, t⟩
  · exact ⟨(h.of_none hs hrun).1, fun hsome => (by cases hsome), fun _ => (h.of_none hs hrun).2⟩
  · exact ⟨(h.of_some hs hrun).1, fun _ => (h.of_some hs hrun).2, fun hnone => (by cases hnone)⟩

end Script

end Errexit
