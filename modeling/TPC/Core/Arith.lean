import Mathlib

/-!
# Double arithmetic

The library computes with `double`. Every definition is written once, over a type `F` with the
operations of `Arith` and no laws: it holds for floating point as well as for exact arithmetic.
The instance on `ℝ` is exact real arithmetic, with `hypot`, `atan2`, `cos`, `sin` the real
functions and `epsilon` the machine epsilon of `double`.

* `Arith`, `Arith.max`;
* the instance on `ℝ` and its unfoldings `hypot_real`, `atan2_real`, …
-/

namespace TPC

/-- The operations on `double` that the library uses. -/
class Arith (F : Type) extends Zero F, One F, Add F, Sub F, Mul F, Div F, Neg F, NatCast F,
    OfScientific F, LE F, LT F where
  decidableLE : DecidableLE F
  decidableLT : DecidableLT F
  abs : F → F
  sqrt : F → F
  cos : F → F
  sin : F → F
  hypot : F → F → F
  /-- `atan2 y x`, in the argument order of the C library. -/
  atan2 : F → F → F
  epsilon : F

attribute [reducible, instance] Arith.decidableLE Arith.decidableLT

namespace Arith

-- The literals of `ℝ`, `Fin 2` and `Fin 3` elaborate to these constants, and not to auxiliary lemmas that every
-- module has under names of its own.
instance atLeastTwo_two : Nat.AtLeastTwo 2 := ⟨le_rfl⟩

instance neZero_two : NeZero 2 := ⟨by decide⟩

instance neZero_three : NeZero 3 := ⟨by decide⟩

/-- `std::max`: the first argument unless the second is larger. -/
def max {F : Type} [Arith F] (a b : F) : F := if a < b then b else a

noncomputable instance : Arith ℝ where
  decidableLE := inferInstance
  decidableLT := inferInstance
  abs x := |x|
  sqrt := Real.sqrt
  cos := Real.cos
  sin := Real.sin
  hypot x y := √(x ^ 2 + y ^ 2)
  atan2 y x := Complex.arg ⟨x, y⟩
  epsilon := 2⁻¹ ^ 52

theorem abs_real (x : ℝ) : abs x = |x| := rfl
theorem sqrt_real (x : ℝ) : sqrt x = √x := rfl
theorem cos_real (x : ℝ) : cos x = Real.cos x := rfl
theorem sin_real (x : ℝ) : sin x = Real.sin x := rfl
theorem hypot_real (x y : ℝ) : hypot x y = √(x ^ 2 + y ^ 2) := rfl
theorem atan2_real (y x : ℝ) : atan2 y x = Complex.arg ⟨x, y⟩ := rfl

theorem epsilon_real : (epsilon : ℝ) = 2⁻¹ ^ 52 := rfl

theorem epsilon_pos : (0 : ℝ) < epsilon := by rw [epsilon_real]; positivity

theorem max_real (a b : ℝ) : max a b = Max.max a b := by
  unfold max
  split_ifs with h
  · exact (max_eq_right h.le).symm
  · exact (max_eq_left (not_lt.mp h)).symm

end Arith

end TPC
