import TPC.Analytics.Models
import TPC.Lib.Fold

/-!
# The basis and the mode sum

`utilities::header_function` and `analytics/svd/basis.hpp`.

* `HeaderFunction`, `call`, `invokeFromSpan`: a function object that may be empty or throw;
* `BasisCollection`: at most `arity` functions, `arity` and `modes` positive, by construction;
* `modeSum`: the double loop over modes and components that `evaluate_for_point`,
  `evaluate_field_slice` and `calculate_field_kernel` run.
-/

namespace TPC.Analytics

open Arith

variable {F : Type} [Arith F]

/-- `header_function<double(std::size_t, double, double, double)>`. -/
structure HeaderFunction (F : Type) where
  function : Option (ℕ → F → F → F → Except Fault F)

namespace HeaderFunction

/-- `operator()`. -/
def call (f : HeaderFunction F) (header : ℕ) (a b c : F) : Call F :=
  match f.function with
  | none => .error (.exception .badFunctionCall)
  | some g =>
    match g header a b c with
    | .ok v => .ok v
    | .error e => .error (.exception e)

/-- `invoke_from_span`: the body values come as one span of `body_size() = 3` values. -/
def invokeFromSpan (f : HeaderFunction F) (header : ℕ) (bodyValues : List F) : Call F :=
  match bodyValues with
  | [a, b, c] => f.call header a b c
  | _ => .error (.exception (.invalidArgument
      "The array size does not match the number of body parameters!"))

/-- A function object holding a total function. -/
def ofFun (g : ℕ → F → F → F → F) : HeaderFunction F := ⟨some fun k a b c => .ok (g k a b c)⟩

omit [Arith F] in
@[simp] theorem call_ofFun (g : ℕ → F → F → F → F) (k : ℕ) (a b c : F) :
    (ofFun g).call k a b c = .ok (g k a b c) := rfl

end HeaderFunction

/-- A collection of basis functions. The two counts are positive and there are never more
functions than `arity`. -/
structure BasisCollection (F : Type) where
  arity : ℕ
  modes : ℕ
  basisType : CoordinateType
  basis : List (HeaderFunction F)
  arity_ne : arity ≠ 0
  modes_ne : modes ≠ 0
  modes_le : modes ≤ sizeMax
  size_le : basis.length ≤ arity

namespace BasisCollection

/-- `hm` holds of every `std::size_t`. -/
def create (arity modes : ℕ) (basisType : CoordinateType) (hm : modes ≤ sizeMax) :
    Call (BasisCollection F) :=
  if ha : arity = 0 then .error (.unexpected "Basis arity must be greater than zero")
  else if hz : modes = 0 then .error (.unexpected "Basis modes count must be greater than zero")
  else .ok ⟨arity, modes, basisType, [], ha, hz, hm, Nat.zero_le _⟩

def addBack (b : BasisCollection F) (f : HeaderFunction F) : Call (BasisCollection F) :=
  if h : b.arity ≤ b.basis.length then .error (.unexpected "Basis collection is full")
  else .ok { b with
    basis := b.basis ++ [f]
    size_le := by simp only [List.length_append, List.length_cons, List.length_nil]; omega }

end BasisCollection

/-! ## The mode sum -/

section ModeSum

variable (basis : List (HeaderFunction F)) (coefficients : List F)

/-- `components[i] += coefficient * basis[i](mode, …)`. -/
def addTerm (c : Fin 3 → F) (mode : ℕ) (coefficient : F) (components : Fin 3 → F) (i : Fin 3) :
    Call (Fin 3 → F) := do
  let f ← readAt basis i
  let v ← f.call mode (c 0) (c 1) (c 2)
  return Function.update components i (components i + coefficient * v)

/-- All components of one mode. -/
def addMode (c : Fin 3 → F) (components : Fin 3 → F) (mode : ℕ) : Call (Fin 3 → F) := do
  let coefficient ← readAt coefficients mode
  [0, 1, 2].foldlM (addTerm basis c mode coefficient) components

/-- The loop over the modes, from zero components. -/
def modeSum (modes : ℕ) (c : Fin 3 → F) : Call (Fin 3 → F) :=
  (List.range modes).foldlM (addMode basis coefficients c) fun _ => 0

variable {coefficients}

section Total

variable (f : Fin 3 → ℕ → F → F → F → F) (c : Fin 3 → F)

theorem addTerm_ofFun (mode : ℕ) (coefficient : F) (components : Fin 3 → F) (i : Fin 3) :
    addTerm (List.ofFn fun i => .ofFun (f i)) c mode coefficient components i =
      .ok (Function.update components i
        (components i + coefficient * f i mode (c 0) (c 1) (c 2))) := by
  have hi : (i : ℕ) < (List.ofFn fun i => HeaderFunction.ofFun (f i)).length := by
    rw [List.length_ofFn]
    exact i.isLt
  rw [addTerm, readAt_of_lt hi, List.getElem_ofFn, Fold.ok_bind, HeaderFunction.call_ofFun,
    Fold.ok_bind]
  rfl

theorem addMode_ofFun {mode : ℕ} (h : mode < coefficients.length) (components : Fin 3 → F) :
    addMode (List.ofFn fun i => .ofFun (f i)) coefficients c components mode =
      .ok fun i => components i + coefficients.getD mode 0 * f i mode (c 0) (c 1) (c 2) := by
  rw [addMode, readAt_of_lt h, Fold.ok_bind]
  simp only [List.foldlM_cons, List.foldlM_nil, addTerm_ofFun, Fold.ok_bind]
  congr 1
  funext i
  rw [List.getD_eq_getElem?_getD, List.getElem?_eq_getElem h, Option.getD_some]
  fin_cases i <;> simp [Function.update]

/-- **The sum of a basis of total functions.** -/
theorem modeSum_ofFun {modes : ℕ} (h : modes ≤ coefficients.length) :
    modeSum (List.ofFn fun i => .ofFun (f i)) coefficients modes c = .ok fun i =>
      (List.range modes).foldl
        (fun a k => a + coefficients.getD k 0 * f i k (c 0) (c 1) (c 2)) 0 := by
  unfold modeSum
  induction modes with
  | zero => rfl
  | succ n ih =>
    rw [List.range_succ, List.foldlM_append, ih (by omega), Fold.ok_bind, List.foldlM_cons,
      addMode_ofFun f c (by omega), Fold.ok_bind, List.foldlM_nil]
    simp only [List.foldl_append, List.foldl_cons, List.foldl_nil]
    rfl

end Total

end ModeSum

end TPC.Analytics
