import Mathlib

/-!
# Readers

Functions that take a value from the front of a list of tokens, and the writers that they invert.

* `Reader`, `Reader.token`, `Reader.times`, `Reader.parse`;
* `Inverts r ts a`: whatever follows `ts`, the reader `r` takes exactly `ts` and returns `a`;
* `inverts_pure`, `Inverts.bind`, `inverts_token`, **`inverts_times`**: one rule for each of them;
* **`Inverts.parse_eq`**: what has been written is read back.
-/

/-- A function that takes a value from the front of a list of tokens. -/
abbrev Reader (T : Type) : Type → Type := StateT (List T) Option

namespace Reader

variable {T α β : Type}

/-- The next token, if it can be read. -/
def token (read : T → Option α) : Reader T α := fun ts =>
  match ts with
  | [] => none
  | t :: ts => (read t).map fun a => (a, ts)

/-- `n` values, one after another. -/
def times (r : Reader T α) : ℕ → Reader T (List α)
  | 0 => pure []
  | n + 1 => do
    let a ← r
    let as ← times r n
    pure (a :: as)

/-- A value that takes all tokens. -/
def parse (r : Reader T α) (ts : List T) : Option α :=
  match r.run ts with
  | some (a, []) => some a
  | _ => none

/-- Whatever follows `ts`, the reader takes exactly `ts` and returns `a`. -/
def Inverts (r : Reader T α) (ts : List T) (a : α) : Prop :=
  ∀ rest, r.run (ts ++ rest) = some (a, rest)

variable {r : Reader T α} {f : α → Reader T β} {ts us : List T} {a : α} {b : β}

theorem inverts_pure (a : α) : Inverts (pure a : Reader T α) [] a := fun _ => rfl

/-- **One after the other.** -/
theorem Inverts.bind (h : Inverts r ts a) (hf : Inverts (f a) us b) : Inverts (r >>= f) (ts ++ us) b := by
  intro rest
  rw [List.append_assoc, StateT.run_bind, h]
  exact hf rest

theorem Inverts.map (h : Inverts r ts a) (g : α → β) : Inverts (r >>= fun a => pure (g a)) ts (g a) := by
  have hbind := h.bind (f := fun a => pure (g a)) (inverts_pure (g a))
  rwa [List.append_nil] at hbind

theorem inverts_token {read : T → Option α} {t : T} (h : read t = some a) : Inverts (token read) [t] a := by
  intro rest
  show (read t).map (fun a => (a, rest)) = some (a, rest)
  rw [h, Option.map_some]

/-- **As many values as there are.** -/
theorem inverts_times {write : α → List T} {as : List α} (h : ∀ a ∈ as, Inverts r (write a) a) :
    Inverts (times r as.length) (as.flatMap write) as := by
  induction as with
  | nil => exact inverts_pure []
  | cons a as ih =>
    rw [List.flatMap_cons, List.length_cons]
    refine (h a List.mem_cons_self).bind ?_
    exact (ih fun a' ha' => h a' (List.mem_cons_of_mem a ha')).map (a :: ·)

/-- **What has been written is read back.** -/
theorem Inverts.parse_eq (h : Inverts r ts a) : parse r ts = some a := by
  have hrun := h []
  rw [List.append_nil] at hrun
  rw [parse, hrun]

end Reader
