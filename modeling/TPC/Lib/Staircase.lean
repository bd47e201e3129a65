import Mathlib

/-!
# Staircases

Paths of lattice points that go from `p` to `q` in single steps to the right or up.

* `stairs`, `Staircase`; `Staircase.cons`, `Staircase.nil`;
* `Staircase.fst_add_snd`, **`Staircase.stop`**, `Staircase.monotoneOn`;
* **`Staircase.countP_fst`**, **`Staircase.countP_snd`**: every column and every row is crossed once;
* `sum_differences`: a telescope.
-/

/-- The number of single steps between two points. -/
def stairs (p q : ℕ × ℕ) : ℕ := q.1 - p.1 + (q.2 - p.2)

/-- `path` goes from `p` to `q` in single steps. -/
structure Staircase (p q : ℕ × ℕ) (path : ℕ → ℕ × ℕ) : Prop where
  start : path 0 = p
  step : ∀ k < stairs p q, path (k + 1) = ((path k).1 + 1, (path k).2) ∨
    path (k + 1) = ((path k).1, (path k).2 + 1)
  le : ∀ k ≤ stairs p q, path k ≤ q

namespace Staircase

/-- One point more at the beginning. -/
def cons (p : ℕ × ℕ) (path : ℕ → ℕ × ℕ) : ℕ → ℕ × ℕ
  | 0 => p
  | k + 1 => path k

variable {p q : ℕ × ℕ} {path : ℕ → ℕ × ℕ}

protected theorem nil (q : ℕ × ℕ) : Staircase q q fun _ => q where
  start := rfl
  step k hk := by
    simp only [stairs] at hk
    omega
  le _ _ := le_rfl

theorem stairs_succ {p' : ℕ × ℕ} (h : Staircase p' q path)
    (hstep : p' = (p.1 + 1, p.2) ∨ p' = (p.1, p.2 + 1)) : stairs p q = stairs p' q + 1 := by
  have hle : p' ≤ q := h.start ▸ h.le 0 (Nat.zero_le _)
  have h₁ := hle.1
  have h₂ := hle.2
  rcases hstep with rfl | rfl
  all_goals
    simp only [stairs] at h₁ h₂ ⊢
    omega

theorem cons_of {p' : ℕ × ℕ} (h : Staircase p' q path)
    (hstep : p' = (p.1 + 1, p.2) ∨ p' = (p.1, p.2 + 1)) : Staircase p q (cons p path) := by
  have hle : p' ≤ q := h.start ▸ h.le 0 (Nat.zero_le _)
  have hlen := h.stairs_succ hstep
  constructor
  case start => rfl
  case step =>
    intro k hk
    cases k with
    | zero =>
      show path 0 = _ ∨ path 0 = _
      rw [h.start]
      exact hstep
    | succ k => exact h.step k (by omega)
  case le =>
    intro k hk
    cases k with
    | zero =>
      refine le_trans ?_ hle
      rcases hstep with rfl | rfl
      · exact ⟨Nat.le_succ _, le_rfl⟩
      · exact ⟨le_rfl, Nat.le_succ _⟩
    | succ k => exact h.le k (by omega)

/-- A sequence of naturals that grows by single steps passes every value once. -/
theorem countP_crossing {f : ℕ → ℕ} {n : ℕ} (hf : ∀ k < n, f (k + 1) = f k + 1 ∨ f (k + 1) = f k) {i : ℕ}
    (hi : f 0 ≤ i) : (List.range n).countP (fun k => f k = i ∧ f (k + 1) = i + 1) = if i < f n then 1 else 0 := by
  induction n with
  | zero => rw [if_neg (not_lt.mpr hi), List.range_zero, List.countP_nil]
  | succ n ih =>
    rw [List.range_succ, List.countP_append, ih fun k hk => hf k (by omega), List.countP_singleton]
    simp only [decide_eq_true_eq]
    rcases hf n (Nat.lt_succ_self n) with he | he
    · rw [he]
      split_ifs <;> omega
    · rw [he]
      split_ifs <;> omega

variable (h : Staircase p q path)

include h

theorem fst_add_snd {k : ℕ} (hk : k ≤ stairs p q) : (path k).1 + (path k).2 = p.1 + p.2 + k := by
  induction k with
  | zero => rw [h.start, Nat.add_zero]
  | succ k ih =>
    have := ih (by omega)
    rcases h.step k hk with he | he
    · rw [he]
      dsimp only
      omega
    · rw [he]
      dsimp only
      omega

theorem stop : path (stairs p q) = q := by
  have hsum := h.fst_add_snd le_rfl
  have hle := h.le _ le_rfl
  have hpq : p ≤ q := h.start ▸ h.le 0 (Nat.zero_le _)
  have h₁ := hle.1
  have h₂ := hle.2
  have h₃ := hpq.1
  have h₄ := hpq.2
  simp only [stairs] at hsum h₁ h₂ ⊢
  ext
  · omega
  · omega

theorem le_succ {k : ℕ} (hk : k < stairs p q) : path k ≤ path (k + 1) := by
  rcases h.step k hk with he | he
  · rw [he]
    exact ⟨Nat.le_succ _, le_rfl⟩
  · rw [he]
    exact ⟨le_rfl, Nat.le_succ _⟩

theorem monotoneOn : MonotoneOn path (Set.Iic (stairs p q)) :=
  monotoneOn_of_le_add_one Set.ordConnected_Iic fun _ _ _ hk => h.le_succ hk

theorem start_le {k : ℕ} (hk : k ≤ stairs p q) : p ≤ path k := by
  have := h.monotoneOn (Nat.zero_le _) hk (Nat.zero_le k)
  rwa [h.start] at this

/-- **Every column is crossed once.** -/
theorem countP_fst {i : ℕ} (hi : p.1 ≤ i) (hi' : i < q.1) :
    (List.range (stairs p q)).countP (fun k => (path k).1 = i ∧ (path (k + 1)).1 = i + 1) = 1 := by
  rw [countP_crossing (f := fun k => (path k).1) (fun k hk => ?_) (by rwa [h.start]), h.stop, if_pos hi']
  rcases h.step k hk with he | he
  · left
    rw [he]
  · right
    rw [he]

/-- **Every row is crossed once.** -/
theorem countP_snd {j : ℕ} (hj : p.2 ≤ j) (hj' : j < q.2) :
    (List.range (stairs p q)).countP (fun k => (path k).2 = j ∧ (path (k + 1)).2 = j + 1) = 1 := by
  rw [countP_crossing (f := fun k => (path k).2) (fun k hk => ?_) (by rwa [h.start]), h.stop, if_pos hj']
  rcases h.step k hk with he | he
  · right
    rw [he]
  · left
    rw [he]

end Staircase

/-- The differences of a sequence add up to the difference of its ends. -/
theorem sum_differences {G : Type} [AddCommGroup G] (f : ℕ → G) (n : ℕ) :
    ((List.range n).map fun k => f (k + 1) - f k).sum = f n - f 0 := by
  induction n with
  | zero => rw [List.range_zero, List.map_nil, List.sum_nil, sub_self]
  | succ n ih =>
    rw [List.range_succ, List.map_append, List.sum_append, ih, List.map_singleton, List.sum_singleton]
    abel
