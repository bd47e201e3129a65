import Mathlib

/-!
# Two runs in step

* `Lockstep lift R x y`: the two end alike, with related results, or with the same error;
* `bind`, `check`, **`Lockstep.foldlM`**: sequences, and loops by an invariant over the number of rounds;
* `lockstep_eq_iff`: with equal results they are the same run.
-/

variable {ε ε' σ σ' τ τ' α : Type}

/-- Two runs that end alike. An error `e` of the second is the error `lift e` of the first. -/
inductive Lockstep (lift : ε → ε') (R : σ → τ → Prop) : Except ε' σ → Except ε τ → Prop
  | ok {s : σ} {t : τ} (h : R s t) : Lockstep lift R (.ok s) (.ok t)
  | error (e : ε) : Lockstep lift R (.error (lift e)) (.error e)

namespace Lockstep

variable {lift : ε → ε'} {R : σ → τ → Prop} {R' : σ' → τ' → Prop} {x : Except ε' σ} {y : Except ε τ}

theorem bind (h : Lockstep lift R x y) {f : σ → Except ε' σ'} {g : τ → Except ε τ'}
    (hfg : ∀ s t, R s t → Lockstep lift R' (f s) (g t)) : Lockstep lift R' (x >>= f) (y >>= g) := by
  cases h with
  | ok h => exact hfg _ _ h
  | error e => exact .error e

theorem check {c : Prop} [Decidable c] {e : ε} (h : ¬ c → Lockstep lift R x y) :
    Lockstep lift R (if c then .error (lift e) else x) (if c then .error e else y) := by
  split_ifs with hc
  · exact .error e
  · exact h hc

/-- **Loops**: `R i` holds when `i` elements have been treated. -/
theorem foldlM {f : σ → α → Except ε' σ} {g : τ → α → Except ε τ} {l : List α}
    {R : ℕ → σ → τ → Prop} {s : σ} {t : τ}
    (h : ∀ i a, l[i]? = some a → ∀ s t, R i s t → Lockstep lift (R (i + 1)) (f s a) (g t a))
    (h₀ : R 0 s t) : Lockstep lift (R l.length) (l.foldlM f s) (l.foldlM g t) := by
  induction l generalizing R s t with
  | nil => exact .ok h₀
  | cons a l ih =>
    rw [List.foldlM_cons, List.foldlM_cons]
    refine (h 0 a rfl s t h₀).bind fun s' t' h' => ?_
    exact ih (R := fun i => R (i + 1)) (fun i b hb => h (i + 1) b hb) h'

theorem foldlM_range {f : σ → ℕ → Except ε' σ} {g : τ → ℕ → Except ε τ} {n : ℕ}
    {R : ℕ → σ → τ → Prop} {s : σ} {t : τ}
    (h : ∀ i < n, ∀ s t, R i s t → Lockstep lift (R (i + 1)) (f s i) (g t i)) (h₀ : R 0 s t) :
    Lockstep lift (R n) ((List.range n).foldlM f s) ((List.range n).foldlM g t) := by
  have hall := foldlM (l := List.range n) (fun i a ha s t hst => by
    obtain ⟨hi, rfl⟩ := List.getElem?_eq_some_iff.mp ha
    rw [List.getElem_range]
    exact h i (List.length_range (n := n) ▸ hi) s t hst) h₀
  rwa [List.length_range] at hall

end Lockstep

theorem lockstep_mapError (lift : ε → ε') (y : Except ε τ) : Lockstep lift Eq (y.mapError lift) y := by
  cases y with
  | ok t => exact .ok rfl
  | error e => exact .error e

theorem lockstep_eq_iff {lift : ε → ε'} {x : Except ε' τ} {y : Except ε τ} :
    Lockstep lift Eq x y ↔ x = y.mapError lift := by
  constructor
  · intro h
    cases h with
    | ok h => rw [h]; rfl
    | error e => rfl
  · rintro rfl
    exact lockstep_mapError lift y
