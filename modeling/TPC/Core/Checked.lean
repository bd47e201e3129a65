import TPC.Core.Machine
import TPC.Lib.Lockstep

/-!
# Checked sizes and buffers

Size arithmetic that stops where the machine's would wrap, and buffers whose elements are written at most
once.

* `Trap`, `Checked`; `mul`, `add`, `sub`, `div`, `cast`;
* `read`; `Buffer`, `fresh`, `contents`, `write`;
* `Agree i xs ys`: a buffer with the contents `ys`, not written from element `i` on; **`lockstep_write`**.
-/

namespace TPC

/-- What stops a checked run. -/
inductive Trap
  /-- The result is not the mathematical one. -/
  | wraps
  | divisionByZero
  /-- The index is not inside the buffer. -/
  | outside
  /-- The element has been written before. -/
  | again

/-- A call that may be stopped, beside the ways in which it leaves by itself. -/
abbrev Checked (α : Type) : Type := Except (Trap ⊕ Exit) α

namespace Checked

variable {α : Type}

/-- A call without sizes in it. -/
def lift (x : Call α) : Checked α := x.mapError .inr

/-- `std::unexpected`. -/
def refuse (error : String) : Checked α := lift (.error (.unexpected error))

/-! ## Arithmetic -/

def mul (a b : ℕ) : Checked ℕ := if a * b ≤ sizeMax then .ok (a * b) else .error (.inl .wraps)

def add (a b : ℕ) : Checked ℕ := if a + b ≤ sizeMax then .ok (a + b) else .error (.inl .wraps)

def sub (a b : ℕ) : Checked ℕ := if b ≤ a then .ok (a - b) else .error (.inl .wraps)

def div (a b : ℕ) : Checked ℕ := if b = 0 then .error (.inl .divisionByZero) else .ok (a / b)

/-- `static_cast<Eigen::Index>`. -/
def cast (n : ℕ) : Checked ℕ := if n ≤ indexMax then .ok n else .error (.inl .wraps)

variable {a b n : ℕ}

theorem mul_of_le (h : a * b ≤ sizeMax) : mul a b = .ok (a * b) := if_pos h

theorem add_of_le (h : a + b ≤ sizeMax) : add a b = .ok (a + b) := if_pos h

theorem sub_of_le (h : b ≤ a) : sub a b = .ok (a - b) := if_pos h

theorem div_of_ne (h : b ≠ 0) : div a b = .ok (a / b) := if_neg h

theorem cast_of_le (h : n ≤ indexMax) : cast n = .ok n := if_pos h

/-! ## Buffers -/

/-- Read one element. -/
def read (xs : List α) (i : ℕ) : Checked α :=
  match xs[i]? with
  | some a => .ok a
  | none => .error (.inl .outside)

/-- A buffer, with a mark at each element that has been written. -/
abbrev Buffer (α : Type) : Type := List (α × Bool)

def fresh (xs : List α) : Buffer α := xs.map (·, false)

def contents (xs : Buffer α) : List α := xs.map Prod.fst

/-- Write one element that has not been written. -/
def write (xs : Buffer α) (i : ℕ) (a : α) : Checked (Buffer α) :=
  match xs[i]? with
  | some (_, false) => .ok (xs.set i (a, true))
  | some (_, true) => .error (.inl .again)
  | none => .error (.inl .outside)

/-- No element from `i` on has been written. -/
def Unwritten (i : ℕ) (xs : Buffer α) : Prop := ∀ j, i ≤ j → ∀ p, xs[j]? = some p → p.2 = false

/-- A buffer with the contents `ys`, not written from element `i` on. -/
structure Agree (i : ℕ) (xs : Buffer α) (ys : List α) : Prop where
  contents : contents xs = ys
  unwritten : Unwritten i xs

variable {xs : Buffer α} {ys : List α} {i j : ℕ}

theorem agree_fresh (ys : List α) : Agree 0 (fresh ys) ys where
  contents := by rw [Checked.contents, fresh, List.map_map]; exact List.map_id ys
  unwritten j _ p hp := by
    rw [fresh, List.getElem?_map, Option.map_eq_some_iff] at hp
    obtain ⟨a, -, rfl⟩ := hp
    rfl

theorem Agree.mono (h : Agree i xs ys) (hij : i ≤ j) : Agree j xs ys :=
  ⟨h.contents, fun k hk => h.unwritten k (hij.trans hk)⟩

theorem Agree.length_eq (h : Agree i xs ys) : xs.length = ys.length := by
  rw [← h.contents, Checked.contents, List.length_map]

theorem lockstep_lift (x : Call α) : Lockstep Sum.inr Eq (lift x) x := lockstep_mapError _ x

theorem lockstep_read (h : i < ys.length) : Lockstep Sum.inr Eq (read ys i) (readAt ys i) := by
  rw [readAt_of_lt h, read, List.getElem?_eq_getElem h]
  exact .ok rfl

/-- **A write to the next element.** -/
theorem lockstep_write (h : Agree i xs ys) (hi : i < ys.length) (a : α) :
    Lockstep Sum.inr (fun xs' ys' => Agree (i + 1) xs' ys' ∧ ys'.length = ys.length) (write xs i a)
      (writeAt ys i a) := by
  have hlt : i < xs.length := h.length_eq ▸ hi
  have hfresh : xs[i].2 = false := h.unwritten i le_rfl _ (List.getElem?_eq_getElem hlt)
  have hget : xs[i]? = some (xs[i].1, false) := by rw [List.getElem?_eq_getElem hlt, ← hfresh]
  rw [writeAt_of_lt hi, write, hget]
  refine .ok ⟨⟨?_, fun j hj p hp => ?_⟩, List.length_set⟩
  · rw [Checked.contents, List.map_set, ← h.contents, Checked.contents]
  · rw [List.getElem?_set_ne (by omega)] at hp
    exact h.unwritten j (by omega) p hp

end Checked

end TPC
