import Mathlib

/-!
# Sizes and exits

* `sizeMax`, `wrap`: `std::size_t` arithmetic modulo `2 ^ 64`;
* `indexMax`, `toIndex`: the cast to the signed `Eigen::Index`;
* `vectorMax`: no `std::vector<double>` holds more values than `PTRDIFF_MAX / sizeof(double)`;
* `Fault`, `Exit`, `Call`: how a call can end other than by its value;
* `Call.Ends`: a call that ends with an error of its own, or with a value as stated.
-/

namespace TPC

/-- `std::numeric_limits<std::size_t>::max()`. -/
def sizeMax : ℕ := 2 ^ 64 - 1

/-- A `std::size_t` result, taken modulo `2 ^ 64`. -/
def wrap (n : ℕ) : ℕ := n % 2 ^ 64

theorem wrap_of_le {n : ℕ} (h : n ≤ sizeMax) : wrap n = n := by
  unfold sizeMax at h
  exact Nat.mod_eq_of_lt (by omega)

/-- `std::numeric_limits<Eigen::Index>::max()`. -/
def indexMax : ℕ := 2 ^ 63 - 1

/-- `static_cast<Eigen::Index>`: the low 64 bits, read as signed. -/
def toIndex (n : ℕ) : ℤ := Int.bmod n (2 ^ 64)

theorem toIndex_of_le {n : ℕ} (h : n ≤ indexMax) : toIndex n = n := by
  unfold indexMax at h
  unfold toIndex
  rw [Int.bmod_eq_of_le] <;> omega

theorem le_indexMax_of_toIndex {n : ℕ} (h : (n : ℤ) = toIndex n) : n ≤ indexMax := by
  have hlt : toIndex n < ((2 ^ 64 : ℕ) + 1) / 2 := Int.bmod_lt (by decide)
  rw [← h] at hlt
  unfold indexMax
  omega

/-- The largest number of values a `std::vector<double>` can hold. -/
def vectorMax : ℕ := 2 ^ 60 - 1

theorem vectorMax_le_sizeMax : vectorMax ≤ sizeMax := by decide

/-- What an exception or undefined behaviour leaves behind. -/
inductive Fault
  /-- An empty `std::function` was called. -/
  | badFunctionCall
  /-- `std::optional::value` on an empty optional. -/
  | badOptionalAccess
  /-- `std::invalid_argument`. -/
  | invalidArgument (what : String)
  /-- `std::bad_alloc` or `std::length_error`. -/
  | badAlloc
  /-- Another exception derived from `std::exception`. -/
  | stdException (what : String)
  /-- An exception of any other type. -/
  | otherException
  /-- A read or write outside its buffer. -/
  | outOfRange
  /-- A division or a remainder by zero. -/
  | divisionByZero
  /-- A loop did not end within its bound. -/
  | nonTermination
  deriving DecidableEq, Repr

/-- How a call leaves without its value: `std::unexpected`, or an exception. -/
inductive Exit
  | unexpected (error : String)
  | exception (fault : Fault)
  deriving DecidableEq, Repr

/-- A call: its value, or its exit. -/
abbrev Call (α : Type) : Type := Except Exit α

namespace Call

variable {α β : Type} {x : Call α} {f : α → Call β} {P : α → Prop} {Q : β → Prop}

/-- The call ends with an error of its own or with a value that has the property: no exception, no read
outside a buffer, no loop without end. -/
def Ends (x : Call α) (P : α → Prop) : Prop :=
  match x with
  | .ok a => P a
  | .error (.unexpected _) => True
  | .error (.exception _) => False

namespace Ends

theorem unexpected (error : String) : Ends (.error (.unexpected error) : Call α) P := trivial

theorem of_ok {a : α} (h : x.Ends P) (hx : x = .ok a) : P a := by
  rw [hx] at h
  exact h

theorem imp (h : x.Ends P) {P' : α → Prop} (hP : ∀ a, P a → P' a) : x.Ends P' := by
  match x with
  | .ok a => exact hP a h
  | .error (.unexpected _) => trivial

theorem bind (h : x.Ends P) (hf : ∀ a, P a → (f a).Ends Q) : (x >>= f).Ends Q := by
  match x with
  | .ok a => exact hf a h
  | .error (.unexpected _) => trivial

theorem ite {c : Prop} [Decidable c] {error : String} (h : ¬ c → x.Ends P) :
    Ends (if c then .error (.unexpected error) else x) P := by
  split_ifs with hc
  · trivial
  · exact h hc

theorem foldlM_unit {g : α → Call Unit} {l : List α} (h : ∀ a ∈ l, (g a).Ends fun _ => P a) :
    Ends (l.foldlM (fun _ => g) ()) fun _ => ∀ a ∈ l, P a := by
  induction l with
  | nil => exact nofun
  | cons a l ih =>
    rw [List.foldlM_cons]
    refine (h a List.mem_cons_self).bind fun _ ha => ?_
    exact (ih fun a' ha' => h a' (List.mem_cons_of_mem a ha')).imp fun _ hl => List.forall_mem_cons.mpr ⟨ha, hl⟩

end Ends

end Call

/-- Read one element of a buffer. -/
def readAt {α : Type} (xs : List α) (i : ℕ) : Call α :=
  match xs[i]? with
  | some a => .ok a
  | none => .error (.exception .outOfRange)

theorem readAt_of_lt {α : Type} {xs : List α} {i : ℕ} (h : i < xs.length) :
    readAt xs i = .ok xs[i] := by
  simp [readAt, h]

theorem readAt_eq_ok {α : Type} {xs : List α} {i : ℕ} {a : α} :
    readAt xs i = .ok a ↔ xs[i]? = some a := by
  unfold readAt
  cases xs[i]? <;> simp

/-- Write one element of a buffer, at a signed index. -/
def writeAt {α : Type} (xs : List α) (i : ℤ) (a : α) : Call (List α) :=
  if 0 ≤ i ∧ i < xs.length then .ok (xs.set i.toNat a) else .error (.exception .outOfRange)

theorem writeAt_of_lt {α : Type} {xs : List α} {i : ℕ} (h : i < xs.length) (a : α) :
    writeAt xs i a = .ok (xs.set i a) := by
  rw [writeAt, if_pos (by omega), Int.toNat_natCast]

end TPC
