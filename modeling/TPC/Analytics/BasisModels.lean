import TPC.Analytics.Basis

/-!
# The default basis

The thirty expressions of `analytics/models/basis_models.hpp`, and the conversion of the mode
index from `std::size_t` to the `int` parameter of these functions.

* `defaultBasisR`, `defaultBasisPhi`, `defaultBasisZ`;
* `defaultBasis`: the three function objects that `TPC::TPC` hands to `create_default_basis`.
-/

namespace TPC.Analytics

open Arith

variable {F : Type} [Arith F]

def defaultModesCount : ℕ := 10

def defaultBasisR (k : ℤ) (r phi z : F) : F :=
  match k with
  | 0 => 0
  | 1 => -0.5 * r
  | 2 => -r * z
  | 3 => -1.5 * r * z * z + 0.375 * r * r * r
  | 4 => cos phi
  | 5 => sin phi
  | 6 => z * cos phi
  | 7 => z * sin phi
  | 8 => r * cos (2.0 * phi)
  | 9 => r * sin (2.0 * phi)
  | _ => 0

def defaultBasisPhi (k : ℤ) (r phi z : F) : F :=
  match k with
  | 0 => 0
  | 1 => 0
  | 2 => 0
  | 3 => 0
  | 4 => -sin phi
  | 5 => cos phi
  | 6 => -z * sin phi
  | 7 => z * cos phi
  | 8 => -r * sin (2.0 * phi)
  | 9 => r * cos (2.0 * phi)
  | _ => 0

def defaultBasisZ (k : ℤ) (r phi z : F) : F :=
  match k with
  | 0 => 1
  | 1 => z
  | 2 => z * z - 0.5 * r * r
  | 3 => z * z * z - 1.5 * r * r * z
  | 4 => 0
  | 5 => 0
  | 6 => r * cos phi
  | 7 => r * sin phi
  | 8 => 0
  | 9 => 0
  | _ => 0

/-- The conversion of a `std::size_t` argument to an `int` parameter. -/
def toInt (n : ℕ) : ℤ := Int.bmod n (2 ^ 32)

/-- A function with an `int` mode index as a function object with a `std::size_t` header. -/
def ofModel (f : ℤ → F → F → F → F) : HeaderFunction F := .ofFun fun k => f (toInt k)

/-- The function objects of the default basis. -/
def defaultBasis : List (HeaderFunction F) :=
  [ofModel defaultBasisR, ofModel defaultBasisPhi, ofModel defaultBasisZ]

end TPC.Analytics
