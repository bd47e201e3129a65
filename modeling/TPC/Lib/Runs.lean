import Mathlib

/-!
# Runs under a condition

A labelled step relation, and the states that its runs reach when every step meets a condition on
the state before it and on its label.

* `Reach`, `Reachable`: with a condition, and without;
* **`Reach.invariant`**: what holds at the start and is kept by every admitted step;
* `Reach.map`: a view of the system that is a system of its own;
* `Reach.then`: one more step;
* `Counted`, **`Counted.done_or_rank_le`**: runs whose moves are counted, and a rank that bounds them;
* `not_transGen_self`, `exists_end`: waits that lower a rank.
-/

namespace Runs

variable {S T A B : Type}

/-- The states of the runs from `s₀` in which every step meets `ok`. -/
inductive Reach (step : S → A → S → Prop) (ok : S → A → Prop) (s₀ : S) : S → Prop
  | init : Reach step ok s₀ s₀
  | step {s s' : S} {a : A} (h : Reach step ok s₀ s) (hs : step s a s') (ha : ok s a) :
    Reach step ok s₀ s'

/-- The states of all runs. -/
abbrev Reachable (step : S → A → S → Prop) (s₀ : S) : S → Prop := Reach step (fun _ _ => True) s₀

variable {step : S → A → S → Prop} {ok : S → A → Prop} {s₀ s s' : S}

/-- **Invariants**: `I` may be used for the step together with the run so far. -/
theorem Reach.invariant {I : S → Prop} (h : Reach step ok s₀ s) (h₀ : I s₀)
    (hstep : ∀ s a s', Reach step ok s₀ s → I s → ok s a → step s a s' → I s') : I s := by
  induction h with
  | init => exact h₀
  | step h hs ha ih => exact hstep _ _ _ h ih ha hs

/-- A view `f` of the states under which every step is a step of another system, or none. -/
theorem Reach.map {step' : T → B → T → Prop} {ok' : T → B → Prop} (f : S → T)
    (hstep : ∀ s a s', ok s a → step s a s' →
      f s' = f s ∨ ∃ b, ok' (f s) b ∧ step' (f s) b (f s')) (h : Reach step ok s₀ s) :
    Reach step' ok' (f s₀) (f s) := by
  induction h with
  | init => exact .init
  | step _ hs ha ih =>
    rcases hstep _ _ _ ha hs with he | ⟨b, hb, hs'⟩
    · rw [he]
      exact ih
    · exact ih.step hs' hb

/-- A step that may be taken in any case. -/
theorem Reach.then (h : Reachable step s₀ s) {a : A} (hs : step s a s') : Reachable step s₀ s' :=
  h.step hs trivial

/-! ## Moves -/

/-- A run, with the number of its steps that are moves. -/
inductive Counted (next move : S → S → Prop) (s₀ : S) : ℕ → S → Prop
  | init : Counted next move s₀ 0 s₀
  | stay {n : ℕ} {s s' : S} (h : Counted next move s₀ n s) (hs : next s s') (hm : ¬ move s s') :
    Counted next move s₀ n s'
  | move {n : ℕ} {s s' : S} (h : Counted next move s₀ n s) (hs : next s s') (hm : move s s') :
    Counted next move s₀ (n + 1) s'

/-- **A rank** that every move lowers, and that no other step raises, bounds the moves of the runs that do
not reach their goal. -/
theorem Counted.done_or_rank_le {next move : S → S → Prop} {n : ℕ} (I done : S → Prop) (rank : S → ℕ)
    (h : Counted next move s₀ n s) (h₀ : I s₀) (hI : ∀ s s', I s → next s s' → I s')
    (hdone : ∀ s s', next s s' → done s → done s')
    (hrank : ∀ s s', I s → next s s' → ¬ done s →
      done s' ∨ rank s' ≤ rank s ∧ (move s s' → rank s' < rank s)) :
    I s ∧ (done s ∨ rank s + n ≤ rank s₀) := by
  induction h with
  | init => exact ⟨h₀, .inr le_rfl⟩
  | @stay n s s' h hs hm ih =>
    obtain ⟨hi, hd | hle⟩ := ih
    · exact ⟨hI _ _ hi hs, .inl (hdone _ _ hs hd)⟩
    · refine ⟨hI _ _ hi hs, ?_⟩
      by_cases hd : done s
      · exact .inl (hdone _ _ hs hd)
      · exact (hrank _ _ hi hs hd).imp_right fun hr => (Nat.add_le_add_right hr.1 n).trans hle
  | @move n s s' h hs hm ih =>
    obtain ⟨hi, hd | hle⟩ := ih
    · exact ⟨hI _ _ hi hs, .inl (hdone _ _ hs hd)⟩
    · refine ⟨hI _ _ hi hs, ?_⟩
      by_cases hd : done s
      · exact .inl (hdone _ _ hs hd)
      · refine (hrank _ _ hi hs hd).imp_right fun hr => ?_
        have hlt := hr.2 hm
        omega

/-! ## Waiting -/

/-- Nobody waits for itself, through others, when every wait lowers a rank, -/
theorem not_transGen_self {W : A → A → Prop} (rank : A → ℕ) (h : ∀ a b, W a b → rank b < rank a) (a : A) :
    ¬ Relation.TransGen W a a := by
  have hlt : ∀ b, Relation.TransGen W a b → rank b < rank a := by
    intro b hb
    induction hb with
    | single hs => exact h _ _ hs
    | tail _ hs ih => exact (h _ _ hs).trans ih
  exact fun ha => lt_irrefl _ (hlt a ha)

/-- and then every chain of waits has an end. -/
theorem exists_end {W : A → A → Prop} (rank : A → ℕ) (h : ∀ a b, W a b → rank b < rank a) (a : A) :
    ∃ b, Relation.ReflTransGen W a b ∧ ∀ c, ¬ W b c := by
  induction hn : rank a using Nat.strong_induction_on generalizing a with
  | _ n ih =>
    by_cases hw : ∃ b, W a b
    · obtain ⟨b, hb⟩ := hw
      obtain ⟨c, hbc, hc⟩ := ih (rank b) (hn ▸ h a b hb) b rfl
      exact ⟨c, .head hb hbc, hc⟩
    · exact ⟨a, .refl, not_exists.mp hw⟩

end Runs
