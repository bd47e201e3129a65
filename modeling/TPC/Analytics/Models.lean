import TPC.Core.Arith
import TPC.Core.Machine
import Mathlib

/-!
# Points, fields, measurements, collections

The data of `analytics/models/three_dimension_models.hpp`.

* `toArray`: a triple as a `std::array<double, 3>`;
* `transformPair`: the two conversions between Cartesian and cylindrical components undo each other;
* `PointComponents.transformCoordinates`: they are those of one point;
* `FieldCollection`: the flat coordinate and field buffers.
-/

namespace TPC.Analytics

open Arith

variable {F : Type} [Arith F]

/-- `core::definitions::DIMENSION`. -/
def kDimension : ℕ := 3

inductive CoordinateType
  | cartesian
  | cylindric
  deriving DecidableEq, Repr

inductive SliceDirection
  | x
  | y
  | z
  deriving DecidableEq, Repr

/-- Three values as a `std::array`. -/
def toArray (p : F × F × F) : Fin 3 → F := ![p.1, p.2.1, p.2.2]

omit [Arith F] in
@[simp] theorem toArray_self (v : Fin 3 → F) : toArray (v 0, v 1, v 2) = v := by
  funext i
  fin_cases i <;> rfl

/-- The first two components of a point, taken to the target type. -/
def transformPair (targetType : CoordinateType) (p : F × F) : F × F :=
  match targetType with
  | .cylindric => (hypot p.1 p.2, atan2 p.2 p.1)
  | .cartesian => (p.1 * cos p.2, p.1 * sin p.2)

/-- A radius and an angle as `hypot` and `atan2` return them. -/
def Principal (r phi : ℝ) : Prop := 0 < r ∧ phi ∈ Set.Ioc (-Real.pi) Real.pi ∨ r = 0 ∧ phi = 0

theorem principal_transformPair (x y : ℝ) :
    Principal (transformPair .cylindric (x, y)).1 (transformPair .cylindric (x, y)).2 := by
  have hnorm : √(x ^ 2 + y ^ 2) = ‖(⟨x, y⟩ : ℂ)‖ := (Complex.norm_eq_sqrt_sq_add_sq ⟨x, y⟩).symm
  show Principal √(x ^ 2 + y ^ 2) (Complex.arg ⟨x, y⟩)
  rw [hnorm]
  by_cases hzero : (⟨x, y⟩ : ℂ) = 0
  · rw [hzero]
    exact .inr ⟨norm_zero, Complex.arg_zero⟩
  · exact .inl ⟨norm_pos_iff.mpr hzero, Complex.arg_mem_Ioc _⟩

theorem transformPair_cylindric {r phi : ℝ} (h : Principal r phi) :
    transformPair .cylindric (transformPair .cartesian (r, phi)) = (r, phi) := by
  rcases h with ⟨hr, hphi⟩ | ⟨rfl, rfl⟩
  · have hhypot : √((r * Real.cos phi) ^ 2 + (r * Real.sin phi) ^ 2) = r := by
      rw [mul_pow, mul_pow, ← mul_add, Real.cos_sq_add_sin_sq, mul_one, Real.sqrt_sq hr.le]
    have harg : Complex.arg ⟨r * Real.cos phi, r * Real.sin phi⟩ = phi := by
      have h := Complex.arg_mul_cos_add_sin_mul_I hr hphi
      convert h using 2
      apply Complex.ext <;> simp [← Complex.ofReal_cos, ← Complex.ofReal_sin]
    exact Prod.ext hhypot harg
  · have hzero : (⟨0 * Real.cos 0, 0 * Real.sin 0⟩ : ℂ) = 0 := by
      apply Complex.ext <;> simp
    refine Prod.ext ?_ ?_
    · show √((0 * Real.cos 0) ^ 2 + (0 * Real.sin 0) ^ 2) = 0
      simp
    · show Complex.arg ⟨0 * Real.cos 0, 0 * Real.sin 0⟩ = 0
      rw [hzero, Complex.arg_zero]

theorem transformPair_cartesian (x y : ℝ) : transformPair .cartesian (transformPair .cylindric (x, y)) = (x, y) := by
  have hnorm : √(x ^ 2 + y ^ 2) = ‖(⟨x, y⟩ : ℂ)‖ := (Complex.norm_eq_sqrt_sq_add_sq ⟨x, y⟩).symm
  refine Prod.ext ?_ ?_
  · show √(x ^ 2 + y ^ 2) * Real.cos (Complex.arg ⟨x, y⟩) = x
    rw [hnorm, Complex.norm_mul_cos_arg]
  · show √(x ^ 2 + y ^ 2) * Real.sin (Complex.arg ⟨x, y⟩) = y
    rw [hnorm, Complex.norm_mul_sin_arg]

/-- A position, tagged with the meaning of its components. -/
structure PointComponents (F : Type) where
  components : Fin 3 → F
  coordinateType : CoordinateType

/-- The third branch of the source, "Unsupported coordinate type", has no enumerator. -/
def PointComponents.transformCoordinates (p : PointComponents F) (targetType : CoordinateType) :
    PointComponents F :=
  if targetType = p.coordinateType then p
  else match targetType with
    | .cylindric =>
      let x := p.components 0
      let y := p.components 1
      { components := ![hypot x y, atan2 y x, p.components 2], coordinateType := .cylindric }
    | .cartesian =>
      let r := p.components 0
      let phi := p.components 1
      { components := ![r * cos phi, r * sin phi, p.components 2], coordinateType := .cartesian }

theorem PointComponents.transformCoordinates_of_ne {p : PointComponents F} {targetType : CoordinateType}
    (h : targetType ≠ p.coordinateType) : p.transformCoordinates targetType =
      ⟨![(transformPair targetType (p.components 0, p.components 1)).1,
        (transformPair targetType (p.components 0, p.components 1)).2, p.components 2], targetType⟩ := by
  unfold transformCoordinates
  rw [if_neg h]
  cases targetType <;> rfl

/-- A field vector, tagged with the meaning of its components. -/
structure FieldComponents (F : Type) where
  components : Fin 3 → F
  coordinateType : CoordinateType

structure Measurement (F : Type) where
  pointComponents : PointComponents F
  fieldComponents : FieldComponents F

/-- A numerically evaluated regular slice; `field` holds Cartesian components. -/
structure FieldSlice (F : Type) where
  direction : SliceDirection
  coordinate : F
  grid : Fin 2 → ℕ
  horizontalBounds : F × F
  verticalBounds : F × F
  field : List F
  valid : List ℕ

/-- Flat coordinate and field buffers. -/
@[ext]
structure FieldCollection (F : Type) where
  dimension : ℕ
  coordinatesType : CoordinateType
  fieldType : CoordinateType
  coordinates : List F
  field : List F

/-- `std::vector::resize`: cut, or fill with zeros. -/
def resize (n : ℕ) (l : List F) : List F := l.take n ++ List.replicate (n - l.length) 0

@[simp] theorem length_resize (n : ℕ) (l : List F) : (resize n l).length = n := by
  simp only [resize, List.length_append, List.length_take, List.length_replicate]
  omega

namespace FieldCollection

/-- The constructor: empty buffers. -/
def new (dimension : ℕ) (coordinatesType fieldType : CoordinateType) : FieldCollection F :=
  ⟨dimension, coordinatesType, fieldType, [], []⟩

/-- One `push_back` of `append_coordinate`. -/
def pushCoordinate (fd : FieldCollection F) (v : F) : FieldCollection F :=
  { fd with coordinates := fd.coordinates ++ [v] }

def resizeFieldToCoordinates (fd : FieldCollection F) : FieldCollection F :=
  { fd with field := resize fd.coordinates.length fd.field }

end FieldCollection

end TPC.Analytics
