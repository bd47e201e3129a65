import TPC.Lib.Prog

/-!
# Programs that only read

A program that writes nothing, takes no locks, makes no choices and sees a view of the state alone. Its
steps leave its answer as it is, and so do the steps of others while they keep the view.

* `answer`: what a program ends with when it runs alone;
* `Observes view p`; `observes_bind`, `observes_ofExcept`, `observes_attempt`: how such programs are built;
* `Observes.exec_eq`, `Observes.congr`, **`Observes.step`**: the answer depends on the view, and is kept.
-/

namespace Prog

variable {S E E' L A B V : Type}

/-- What the program ends with, if it ends, when nothing else runs. -/
def answer (p : Prog S E L A) (s : S) : Option (Except E A) := (exec p s).map Prod.fst

@[simp] theorem answer_ended (r : Except E A) (s : S) : answer (ended r : Prog S E L A) s = some r := by
  cases r <;> rfl

/-- The program only reads, and sees only `view` of the states. -/
def Observes (view : S → V) : Prog S E L A → Prop
  | ret _ | throw _ | diverge => True
  | read next => (∀ s s', view s = view s' → next s = next s') ∧ ∀ s, Observes view (next s)
  | write _ _ | choose _ | acquire _ _ | release _ _ => False

variable {view : S → V} {p p' : Prog S E L A} {g : A → Prog S E L B} {s s' : S}

theorem observes_bind (hp : Observes view p) (hg : ∀ a, Observes view (g a)) : Observes view (p >>= g) := by
  show Observes view (bind p g)
  induction p with
  | ret a => exact hg a
  | throw | diverge => trivial
  | read next ih => exact ⟨fun s s' hv => congrArg (bind · g) (hp.1 s s' hv), fun s => ih s (hp.2 s)⟩
  | write | choose | acquire | release => exact hp.elim

theorem observes_ofExcept (c : Except E A) : Observes view (ofExcept c : Prog S E L A) := by
  cases c <;> trivial

theorem observes_get_bind {f : S → Prog S E L B} (hv : ∀ s s', view s = view s' → f s = f s')
    (hf : ∀ s, Observes view (f s)) : Observes view (get >>= f) := ⟨hv, hf⟩

theorem observes_attempt (hp : Observes view p) :
    Observes view (attempt p : Prog S E' L (Except E A)) := by
  induction p with
  | ret | throw | diverge => trivial
  | read next ih => exact ⟨fun s s' hv => congrArg attempt (hp.1 s s' hv), fun s => ih s (hp.2 s)⟩
  | write | choose | acquire | release => exact hp.elim

theorem Observes.exec_eq (h : Observes view p) (s : S) : exec p s = (answer p s).map fun r => (r, s) := by
  induction p with
  | ret | throw | diverge => rfl
  | read next ih => exact ih s (h.2 s)
  | write | choose | acquire | release => exact h.elim

theorem Observes.congr (h : Observes view p) (hv : view s = view s') : answer p s = answer p s' := by
  induction p with
  | ret | throw | diverge => rfl
  | read next ih =>
    have hnext : answer (next s) s = answer (next s) s' := ih s (h.2 s)
    show answer (next s) s = answer (next s') s'
    rw [hnext, h.1 s s' hv]
  | write | choose | acquire | release => exact h.elim

/-- **Its steps** change neither the state nor the answer. -/
theorem Observes.step (h : Observes view p) (hs : Step (p, s) (p', s')) :
    s' = s ∧ Observes view p' ∧ answer p' s = answer p s := by
  cases hs with
  | read next => exact ⟨rfl, h.2 s, rfl⟩
  | write | choose | acquire | release => exact h.elim

end Prog
