import TPC.Lib.Prog

/-!
# Threads under locks

Steps of a program with what they do to the locks, for programs that share a state.

* `Effect`, `Moves`: a step, and the lock it takes or gives back;
* `moves_releasing`: a scoped program steps inside the scope until that has ended, and then releases;
* `LockFree`: a program that takes no lock; `LockFree.moves`, `LockFree.bind`, `LockFree.each`, `lockFree_within`;
* `Finishing`: nothing is left but to give back locks and to return;
* `Free`, `Exclusive`: conflicting locks are never held by two threads.
-/

namespace Prog

variable {S E L A B ι : Type}

/-- What a step does to the locks of its thread. -/
inductive Effect (L : Type)
  | none
  | acquired (l : L)
  | released (l : L)

/-- One step, with its effect on the locks. -/
inductive Moves : Prog S E L A × S → Effect L → Prog S E L A × S → Prop
  | read (k : S → Prog S E L A) (s : S) : Moves (read k, s) .none (k s, s)
  | write (f : S → S) (k : Prog S E L A) (s : S) : Moves (write f k, s) .none (k, f s)
  | choose (k : Bool → Prog S E L A) (b : Bool) (s : S) : Moves (choose k, s) .none (k b, s)
  | acquire (l : L) (k : Prog S E L A) (s : S) : Moves (acquire l k, s) (.acquired l) (k, s)
  | release (l : L) (k : Prog S E L A) (s : S) : Moves (release l k, s) (.released l) (k, s)

theorem Moves.step {c c' : Prog S E L A × S} {e : Effect L} (h : Moves c e c') : Step c c' := by
  cases h <;> constructor

theorem moves_read {k : S → Prog S E L A} {q : Prog S E L A} {s s' : S} {e : Effect L} :
    Moves (read k, s) e (q, s') ↔ e = .none ∧ q = k s ∧ s = s' := by
  constructor
  · intro h
    cases h
    exact ⟨rfl, rfl, rfl⟩
  · rintro ⟨rfl, rfl, rfl⟩
    exact .read k s

theorem not_moves_ended {r : Except E A} {s : S} {e : Effect L} {c : Prog S E L A × S} :
    ¬ Moves (ended r, s) e c := by
  intro h
  cases r <;> cases h

/-- **A scoped program** steps inside the scope, or gives the lock back at the end of it. -/
theorem moves_releasing {l : L} {p : Prog S E L A} {s : S} {e : Effect L} {c : Prog S E L A × S}
    (h : Moves (releasing l p, s) e c) :
    (∃ q s', c = (releasing l q, s') ∧ Moves (p, s) e (q, s')) ∨
      ∃ r, p = ended r ∧ e = .released l ∧ c = (ended r, s) := by
  cases p with
  | ret a =>
    cases h
    exact .inr ⟨.ok a, rfl, rfl, rfl⟩
  | throw x =>
    cases h
    exact .inr ⟨.error x, rfl, rfl, rfl⟩
  | diverge => cases h
  | read k | write f k | choose k | acquire l' k | release l' k =>
    cases h
    exact .inl ⟨_, _, rfl, by constructor⟩

/-- At the end of a scope there is still the lock to give back. -/
theorem releasing_ne_ended (l : L) (p : Prog S E L A) (r : Except E A) : releasing l p ≠ ended r := by
  cases p <;> cases r <;> nofun

theorem releasing_ended (l : L) (r : Except E A) :
    releasing l (ended r : Prog S E L A) = release l (ended r) := by
  cases r <;> rfl

theorem releasing_get_bind (l : L) (k : S → Prog S E L A) :
    releasing l (get >>= k) = read fun s => releasing l (k s) := rfl

theorem bind_ofExcept (c : Except E A) (g : A → Prog S E L B) : bind (ofExcept c) g =
    match c with
    | .ok a => g a
    | .error e => ended (.error e) := by
  cases c <;> rfl

/-! ## Programs without locks -/

/-- No lock is taken or given back. -/
def LockFree : Prog S E L A → Prop
  | ret _ => True
  | throw _ => True
  | diverge => True
  | read k => ∀ s, LockFree (k s)
  | write _ k => LockFree k
  | choose k => ∀ b, LockFree (k b)
  | acquire _ _ => False
  | release _ _ => False

@[simp] theorem lockFree_ret (a : A) : LockFree (ret a : Prog S E L A) := trivial

@[simp] theorem lockFree_pure (a : A) : LockFree (pure a : Prog S E L A) := trivial

@[simp] theorem lockFree_throw (e : E) : LockFree (throw e : Prog S E L A) := trivial

@[simp] theorem lockFree_diverge : LockFree (diverge : Prog S E L A) := trivial

@[simp] theorem lockFree_get : LockFree (get : Prog S E L S) := fun _ => trivial

@[simp] theorem lockFree_modify (f : S → S) : LockFree (modify f : Prog S E L Unit) := trivial

@[simp] theorem lockFree_ofExcept (c : Except E A) : LockFree (ofExcept c : Prog S E L A) := by
  cases c <;> trivial

theorem LockFree.bind {p : Prog S E L A} {g : A → Prog S E L B} (hp : LockFree p)
    (hg : ∀ a, LockFree (g a)) : LockFree (p >>= g) := by
  change LockFree (Prog.bind p g)
  induction p with
  | ret a => exact hg a
  | throw | diverge => trivial
  | read k ih => exact fun s => ih s (hp s)
  | write f k ih => exact ih hp
  | choose k ih => exact fun b => ih b (hp b)
  | acquire l k | release l k => exact hp.elim

theorem lockFree_within {T : Type} (view : S → T) (update : (T → T) → S → S) (p : Prog T E Empty A) :
    LockFree (within view update p : Prog S E L A) := by
  induction p with
  | ret | throw | diverge => trivial
  | read k ih => exact fun s => ih (view s)
  | write f k ih => exact ih
  | choose k ih => exact ih
  | acquire l | release l => exact l.elim

theorem LockFree.each {body : A → Prog S E L Unit} (h : ∀ a, LockFree (body a)) (l : List A) :
    LockFree (each body l) := by
  induction l with
  | nil => trivial
  | cons a l ih => exact (h a).bind fun _ => ih

/-- A step of such a program leaves the locks alone, and another such program is left. -/
theorem LockFree.moves {p q : Prog S E L A} {s s' : S} {e : Effect L} (hp : LockFree p)
    (h : Moves (p, s) e (q, s')) : e = .none ∧ LockFree q := by
  cases h with
  | read k => exact ⟨rfl, hp _⟩
  | write f k => exact ⟨rfl, hp⟩
  | choose k b => exact ⟨rfl, hp b⟩
  | acquire l k | release l k => exact hp.elim

/-! ## The end of a call -/

/-- Nothing is left but to give back locks and to return the value. -/
def Finishing : Prog S E L A → Prop
  | ret _ => True
  | release _ k => Finishing k
  | throw _ => False
  | diverge => False
  | read _ => False
  | write _ _ => False
  | choose _ => False
  | acquire _ _ => False

theorem Finishing.moves {p q : Prog S E L A} {s s' : S} {e : Effect L} (hp : Finishing p)
    (h : Moves (p, s) e (q, s')) : Finishing q := by
  cases h with
  | read k | write f k | choose k b | acquire l k => exact hp.elim
  | release l k => exact hp

theorem Finishing.ended {r : Except E A} (h : Finishing (ended r : Prog S E L A)) : ∃ a, r = .ok a := by
  cases r with
  | error e => exact h.elim
  | ok a => exact ⟨a, rfl⟩

/-! ## Locks -/

section Locks

variable (conflict : L → L → Prop) (held : ι → List L)

/-- No thread holds a lock that conflicts with `l`. -/
def Free (l : L) : Prop := ∀ i, ∀ l' ∈ held i, ¬ conflict l l'

/-- Two threads never hold conflicting locks. -/
def Exclusive : Prop := ∀ i j, i ≠ j → ∀ l ∈ held i, ∀ l' ∈ held j, ¬ conflict l l'

variable {conflict held} [DecidableEq ι]

theorem Exclusive.acquire (hsymm : ∀ l l', conflict l l' → conflict l' l) (h : Exclusive conflict held)
    {l : L} (hl : Free conflict held l) (i : ι) :
    Exclusive conflict (Function.update held i (l :: held i)) := by
  intro j k hjk a ha b hb
  by_cases hj : j = i
  · subst hj
    rw [Function.update_self] at ha
    rw [Function.update_of_ne (Ne.symm hjk)] at hb
    rcases List.mem_cons.mp ha with rfl | ha
    · exact hl k b hb
    · exact h j k hjk a ha b hb
  · rw [Function.update_of_ne hj] at ha
    by_cases hk : k = i
    · subst hk
      rw [Function.update_self] at hb
      rcases List.mem_cons.mp hb with rfl | hb
      · exact fun hc => hl j a ha (hsymm _ _ hc)
      · exact h j k hjk a ha b hb
    · rw [Function.update_of_ne hk] at hb
      exact h j k hjk a ha b hb

/-- A thread may give locks back. -/
theorem Exclusive.release (h : Exclusive conflict held) (i : ι) {rest : List L}
    (hrest : ∀ l ∈ rest, l ∈ held i) : Exclusive conflict (Function.update held i rest) := by
  have hsub : ∀ j, ∀ l ∈ Function.update held i rest j, l ∈ held j := by
    intro j l hl
    by_cases hj : j = i
    · subst hj
      rw [Function.update_self] at hl
      exact hrest l hl
    · rwa [Function.update_of_ne hj] at hl
  exact fun j k hjk a ha b hb => h j k hjk a (hsub j a ha) b (hsub k b hb)

end Locks

end Prog
