import Mathlib

/-!
# Lock orders

Threads that take mutexes for the extent of a scope, call handlers and wait for each other. What they
compute is left open: a branch is taken either way, and a loop runs any number of times.

* `Code`, `Frame`, `Thread`, `Moves`: code with scopes and exceptions, and the steps of one thread;
* `State`, **`Step`**: any number of threads and the mutexes that they hold;
* `Code.ordered`: a static check: mutexes are taken in the order of their ranks, outside code is called
  without any, and its callables are handled under one; `Code.quiet`: code that may be called then;
* `Good`, `Good.moves`: the check holds of every stack;
* **`waits_for_runnable`**: who waits for a mutex waits for a thread that can go on;
* **`outside_holds_nothing`**, **`callable_holds_one`**.
-/

namespace LockOrder

variable {L Op ι : Type}

inductive Mode
  | shared
  | unique
  deriving DecidableEq, Repr

/-- Code. `Op` names the functions that outside code may call. -/
inductive Code (L Op : Type)
  | skip
  | seq (first second : Code L Op)
  | either (left right : Code L Op)
  /-- Any number of times. -/
  | loop (body : Code L Op)
  /-- The mutex is held for the scope, whichever way it is left. -/
  | guarded (l : L) (m : Mode) (body : Code L Op)
  /-- An exception. -/
  | raise
  | attempt (body handler : Code L Op)
  /-- Code of others: it calls any of the functions, any number of times, and may throw. -/
  | outside
  /-- Copies or destroys callables of others while the mutex is held: that, too, is code of others, and it calls
  those of the functions that it may call then, any number of times. -/
  | callable (l : L)
  /-- Waits for something other than a mutex. -/
  | suspend

/-- What a thread has still to do, the innermost first. -/
inductive Frame (L Op : Type)
  | run (c : Code L Op)
  | release (l : L) (m : Mode)
  | handler (c : Code L Op)

/-- A thread, and whether an exception is on its way. -/
structure Thread (L Op : Type) where
  throwing : Bool
  stack : List (Frame L Op)

/-- The mutexes that a stack is going to give back. -/
def held : List (Frame L Op) → List (L × Mode)
  | [] => []
  | .release l m :: s => (l, m) :: held s
  | .run _ :: s | .handler _ :: s => held s

/-- One of them excludes the other. -/
def Mode.conflicts : Mode → Mode → Prop
  | shared, shared => False
  | _, _ => True

section Steps

variable (body : Op → Code L Op) (may : Op → Prop)

/-- One step of a thread, and the mutex that it takes. -/
inductive Moves : Thread L Op → Option (L × Mode) → Thread L Op → Prop
  | skip (s : List (Frame L Op)) : Moves ⟨false, .run .skip :: s⟩ none ⟨false, s⟩
  | seq (a b : Code L Op) (s : List (Frame L Op)) :
    Moves ⟨false, .run (.seq a b) :: s⟩ none ⟨false, .run a :: .run b :: s⟩
  | left (a b : Code L Op) (s : List (Frame L Op)) :
    Moves ⟨false, .run (.either a b) :: s⟩ none ⟨false, .run a :: s⟩
  | right (a b : Code L Op) (s : List (Frame L Op)) :
    Moves ⟨false, .run (.either a b) :: s⟩ none ⟨false, .run b :: s⟩
  | leave (a : Code L Op) (s : List (Frame L Op)) : Moves ⟨false, .run (.loop a) :: s⟩ none ⟨false, s⟩
  | again (a : Code L Op) (s : List (Frame L Op)) :
    Moves ⟨false, .run (.loop a) :: s⟩ none ⟨false, .run a :: .run (.loop a) :: s⟩
  | acquire (l : L) (m : Mode) (a : Code L Op) (s : List (Frame L Op)) :
    Moves ⟨false, .run (.guarded l m a) :: s⟩ (some (l, m)) ⟨false, .run a :: .release l m :: s⟩
  | release (b : Bool) (l : L) (m : Mode) (s : List (Frame L Op)) :
    Moves ⟨b, .release l m :: s⟩ none ⟨b, s⟩
  | raise (s : List (Frame L Op)) : Moves ⟨false, .run .raise :: s⟩ none ⟨true, s⟩
  | unwind (c : Code L Op) (s : List (Frame L Op)) : Moves ⟨true, .run c :: s⟩ none ⟨true, s⟩
  | attempt (a h : Code L Op) (s : List (Frame L Op)) :
    Moves ⟨false, .run (.attempt a h) :: s⟩ none ⟨false, .run a :: .handler h :: s⟩
  | done (h : Code L Op) (s : List (Frame L Op)) : Moves ⟨false, .handler h :: s⟩ none ⟨false, s⟩
  | caught (h : Code L Op) (s : List (Frame L Op)) :
    Moves ⟨true, .handler h :: s⟩ none ⟨false, .run h :: s⟩
  | calls (op : Op) (s : List (Frame L Op)) :
    Moves ⟨false, .run .outside :: s⟩ none ⟨false, .run (body op) :: .run .outside :: s⟩
  | returns (s : List (Frame L Op)) : Moves ⟨false, .run .outside :: s⟩ none ⟨false, s⟩
  | throws (s : List (Frame L Op)) : Moves ⟨false, .run .outside :: s⟩ none ⟨true, s⟩
  | handles (l : L) (op : Op) (s : List (Frame L Op)) (hop : may op) :
    Moves ⟨false, .run (.callable l) :: s⟩ none ⟨false, .run (body op) :: .run (.callable l) :: s⟩
  | handled (l : L) (s : List (Frame L Op)) : Moves ⟨false, .run (.callable l) :: s⟩ none ⟨false, s⟩
  | resume (s : List (Frame L Op)) : Moves ⟨false, .run .suspend :: s⟩ none ⟨false, s⟩

/-- The threads. -/
abbrev State (L Op ι : Type) : Type := ι → Thread L Op

/-- No thread, not even the one itself, holds the mutex in a mode that excludes this one. -/
def State.Free (σ : State L Op ι) (l : L) (m : Mode) : Prop :=
  ∀ u m', (l, m') ∈ held (σ u).stack → ¬ m.conflicts m'

variable [DecidableEq ι]

/-- One step of one thread. -/
inductive Step : State L Op ι → State L Op ι → Prop
  | free (σ : State L Op ι) (t : ι) (th : Thread L Op) (h : Moves body may (σ t) none th) :
    Step σ (Function.update σ t th)
  | acquire (σ : State L Op ι) (t : ι) (l : L) (m : Mode) (th : Thread L Op)
    (h : Moves body may (σ t) (some (l, m)) th) (hfree : σ.Free l m) : Step σ (Function.update σ t th)

/-- The states of all runs from `σ₀`. -/
def Reachable (σ₀ : State L Op ι) : State L Op ι → Prop := Relation.ReflTransGen (Step body may) σ₀

end Steps

/-! ## The static check -/

section Check

/-- It takes no mutex, waits for nothing and runs no code of others. -/
def Code.quiet : Code L Op → Bool
  | skip | raise => true
  | seq a c | either a c | attempt a c => a.quiet && c.quiet
  | loop a => a.quiet
  | guarded .. | outside | callable _ | suspend => false

variable (rank : L → ℕ)

/-- The rank of the innermost mutex. -/
def level : Option L → ℕ
  | none => 0
  | some l => rank l

/-- The code keeps to the order where this mutex is the innermost one that is held. Callables are handled under a
mutex of the lowest rank. -/
def Code.ordered [DecidableEq L] : Option L → Code L Op → Bool
  | _, skip | _, raise => true
  | o, seq a c | o, either a c | o, attempt a c => a.ordered o && c.ordered o
  | o, loop a => a.ordered o
  | o, guarded l _ a => level rank o < rank l && a.ordered (some l)
  | o, outside | o, suspend => o.isNone
  | o, callable l => o = some l && rank l = 1

/-- The mutex that was taken last. -/
def innermost : List (Frame L Op) → Option L
  | [] => none
  | .release l _ :: _ => some l
  | .run _ :: s | .handler _ :: s => innermost s

variable [DecidableEq L]

/-- Every frame of the stack keeps to the order. -/
def Good : List (Frame L Op) → Prop
  | [] => True
  | .run c :: s | .handler c :: s => c.ordered rank (innermost s) = true ∧ Good s
  | .release l _ :: s => level rank (innermost s) < rank l ∧ Good s

variable {rank} {s : List (Frame L Op)} {l : L} {m : Mode}

theorem Code.ordered_of_quiet {c : Code L Op} (h : c.quiet = true) (o : Option L) : c.ordered rank o = true := by
  induction c generalizing o with
  | skip | raise => rfl
  | seq a c iha ihc | either a c iha ihc | attempt a c iha ihc =>
    obtain ⟨ha, hc⟩ := Bool.and_eq_true_iff.mp h
    exact Bool.and_eq_true_iff.mpr ⟨iha ha o, ihc hc o⟩
  | loop a ih => exact ih h o
  | guarded l m a | outside | callable l | suspend => cases h

omit [DecidableEq L] in
theorem held_of_innermost_none (h : innermost s = none) : held s = [] := by
  induction s with
  | nil => rfl
  | cons f s ih =>
    cases f with
    | run c | handler c => exact ih h
    | release l m => cases h

omit [DecidableEq L] in
theorem held_of_innermost_some (h : innermost s = some l) : ∃ m below, held s = (l, m) :: held below ∧
    ∃ above, s = above ++ .release l m :: below := by
  induction s with
  | nil => cases h
  | cons f s ih =>
    cases f with
    | run c | handler c =>
      obtain ⟨m, below, hheld, above, habove⟩ := ih h
      exact ⟨m, below, hheld, _ :: above, congrArg (List.cons _) habove⟩
    | release l' m =>
      obtain rfl : l' = l := Option.some_inj.mp h
      exact ⟨m, s, rfl, [], rfl⟩

theorem Good.rank_le (h : Good rank s) (hl : (l, m) ∈ held s) : rank l ≤ level rank (innermost s) := by
  induction s with
  | nil => cases hl
  | cons f s ih =>
    cases f with
    | run c | handler c => exact ih h.2 hl
    | release l' m' =>
      rcases List.mem_cons.mp hl with he | hl
      · cases he
        exact le_rfl
      · exact (ih h.2 hl).trans h.1.le

theorem Good.pos (h : Good rank s) (hl : (l, m) ∈ held s) : 0 < rank l := by
  induction s with
  | nil => cases hl
  | cons f s ih =>
    cases f with
    | run c | handler c => exact ih h.2 hl
    | release l' m' =>
      rcases List.mem_cons.mp hl with he | hl
      · cases he
        exact (Nat.zero_le _).trans_lt h.1
      · exact ih h.2 hl

theorem Good.append {above : List (Frame L Op)} (h : Good rank (above ++ s)) : Good rank s := by
  induction above with
  | nil => exact h
  | cons f above ih =>
    cases f with
    | run c | handler c | release l m => exact ih h.2

theorem Good.held_of_rank_one (h : Good rank s) (hs : innermost s = some l) (hl : rank l = 1) :
    ∃ m, held s = [(l, m)] := by
  obtain ⟨m, below, hheld, above, rfl⟩ := held_of_innermost_some hs
  refine ⟨m, hheld.trans (congrArg (List.cons (l, m)) (List.eq_nil_iff_forall_not_mem.mpr fun p hp => ?_))⟩
  obtain ⟨hlt, hbelow⟩ := h.append
  have hle := hbelow.rank_le (l := p.1) (m := p.2) hp
  have hpos := hbelow.pos (l := p.1) (m := p.2) hp
  omega

/-- **The check is kept** by every step of a thread. -/
theorem Good.moves {body : Op → Code L Op} {may : Op → Prop} (hbody : ∀ op, (body op).ordered rank none = true)
    (hmay : ∀ op, may op → (body op).quiet = true) {th th' : Thread L Op} {a : Option (L × Mode)}
    (hm : Moves body may th a th') (h : Good rank th.stack) : Good rank th'.stack := by
  cases hm with
  | skip s | leave a s | release b l m s | raise s | unwind c s | done c s | returns s | throws s | handled l s
  | resume s =>
    exact h.2
  | seq a b s =>
    obtain ⟨hc, hs⟩ := h
    rw [Code.ordered, Bool.and_eq_true] at hc
    exact ⟨hc.1, hc.2, hs⟩
  | left a b s =>
    obtain ⟨hc, hs⟩ := h
    rw [Code.ordered, Bool.and_eq_true] at hc
    exact ⟨hc.1, hs⟩
  | right a b s =>
    obtain ⟨hc, hs⟩ := h
    rw [Code.ordered, Bool.and_eq_true] at hc
    exact ⟨hc.2, hs⟩
  | again a s =>
    obtain ⟨hc, hs⟩ := h
    exact ⟨hc, hc, hs⟩
  | acquire l m a s =>
    obtain ⟨hc, hs⟩ := h
    rw [Code.ordered, Bool.and_eq_true, decide_eq_true_eq] at hc
    exact ⟨hc.2, hc.1, hs⟩
  | attempt a c s =>
    obtain ⟨hc, hs⟩ := h
    rw [Code.ordered, Bool.and_eq_true] at hc
    exact ⟨hc.1, hc.2, hs⟩
  | caught c s => exact h
  | calls op s =>
    obtain ⟨hc, hs⟩ := h
    refine ⟨?_, hc, hs⟩
    show (body op).ordered rank (innermost s) = true
    rw [Option.isNone_iff_eq_none.mp hc]
    exact hbody op
  | handles l op s hop => exact ⟨Code.ordered_of_quiet (hmay op hop) _, h⟩

end Check

/-! ## Runs -/

section Runs

variable (body : Op → Code L Op) (may : Op → Prop) (σ : State L Op ι)

/-- The next step of the thread takes this mutex. -/
def Waits (t : ι) (l : L) (m : Mode) : Prop := ∃ a s, σ t = ⟨false, .run (.guarded l m a) :: s⟩

/-- The mutex cannot be taken now, or it may be denied to a reader because a writer waits for it. -/
def Blocked (l : L) (m : Mode) : Prop := ¬ σ.Free l m ∨ m = .shared ∧ ∃ u, Waits σ u l .unique

/-- The thread has a step, and nothing denies it the mutex for it. -/
def CanStep (t : ι) : Prop := ∃ a th, Moves body may (σ t) a th ∧ ∀ l m, a = some (l, m) → ¬ Blocked σ l m

/-- The first thread waits for a mutex that the second holds, or waits for as a writer. -/
def WaitsFor (t u : ι) : Prop :=
  ∃ l m, Waits σ t l m ∧ ((∃ m', (l, m') ∈ held (σ u).stack ∧ m.conflicts m') ∨ m = .shared ∧ Waits σ u l .unique)

variable {body may σ} {rank : L → ℕ}

variable (body may) in
/-- A thread that is not at its end can go on, or waits for a mutex. -/
theorem canStep_or_waits {u : ι} (h : (σ u).stack ≠ []) :
    CanStep body may σ u ∨ ∃ l m, Waits σ u l m ∧ Blocked σ l m := by
  have hstep : ∀ {th : Thread L Op}, Moves body may (σ u) none th → CanStep body may σ u :=
    fun hm => ⟨none, _, hm, nofun⟩
  cases hσ : σ u with
  | mk throwing stack =>
    rw [hσ] at h hstep
    cases stack with
    | nil => exact absurd rfl h
    | cons f s =>
      cases f with
      | release l m => exact .inl (hstep (.release throwing l m s))
      | handler c =>
        cases throwing with
        | true => exact .inl (hstep (.caught c s))
        | false => exact .inl (hstep (.done c s))
      | run c =>
        cases throwing with
        | true => exact .inl (hstep (.unwind c s))
        | false =>
          cases c with
          | skip => exact .inl (hstep (.skip s))
          | seq a b => exact .inl (hstep (.seq a b s))
          | either a b => exact .inl (hstep (.left a b s))
          | loop a => exact .inl (hstep (.leave a s))
          | raise => exact .inl (hstep (.raise s))
          | attempt a c => exact .inl (hstep (.attempt a c s))
          | outside => exact .inl (hstep (.returns s))
          | callable l => exact .inl (hstep (.handled l s))
          | suspend => exact .inl (hstep (.resume s))
          | guarded l m a =>
            by_cases hblocked : Blocked σ l m
            · exact .inr ⟨l, m, ⟨a, s, hσ⟩, hblocked⟩
            · have hm : Moves body may (σ u) (some (l, m)) ⟨false, .run a :: .release l m :: s⟩ := by
                rw [hσ]
                exact .acquire l m a s
              refine .inl ⟨some (l, m), _, hm, fun l' m' he => ?_⟩
              cases he
              exact hblocked

variable [DecidableEq L]

/-- A thread that holds a mutex waits only for mutexes of a higher rank. -/
theorem rank_lt_of_waits {u : ι} (hgood : Good rank (σ u).stack) {l l' : L} {m m' : Mode}
    (hheld : (l, m) ∈ held (σ u).stack) (hw : Waits σ u l' m') : rank l < rank l' := by
  obtain ⟨a, s, hσ⟩ := hw
  rw [hσ] at hgood hheld
  obtain ⟨hordered, hs⟩ := hgood
  rw [Code.ordered, Bool.and_eq_true, decide_eq_true_eq] at hordered
  exact (hs.rank_le hheld).trans_lt hordered.1

/-- **No deadlock.** With all stacks in order, a thread that waits for a mutex waits, through others that
wait, for one that can go on: from holder to holder the ranks of the mutexes grow. -/
theorem waits_for_runnable {K : ℕ} (hK : ∀ l, rank l ≤ K) (hgood : ∀ t, Good rank (σ t).stack) {t : ι} {l : L}
    {m : Mode} (hw : Waits σ t l m) (hblocked : Blocked σ l m) :
    ∃ u, Relation.TransGen (WaitsFor σ) t u ∧ CanStep body may σ u := by
  induction hn : K - rank l using Nat.strong_induction_on generalizing t l m with
  | _ n ih =>
    -- The mutex has a holder.
    have hholder : ∀ {t : ι} {m : Mode}, Waits σ t l m → ¬ σ.Free l m →
        ∃ u, Relation.TransGen (WaitsFor σ) t u ∧ CanStep body may σ u := by
      intro t m hw hheld
      unfold State.Free at hheld
      push Not at hheld
      obtain ⟨u, m', hu, hc⟩ := hheld
      have htu : WaitsFor σ t u := ⟨l, m, hw, .inl ⟨m', hu, hc⟩⟩
      have hstack : (σ u).stack ≠ [] := fun he => by
        rw [he] at hu
        cases hu
      rcases canStep_or_waits body may hstack with hstep | ⟨l', m'', hw', hblocked'⟩
      · exact ⟨u, .single htu, hstep⟩
      · have hlt := rank_lt_of_waits (hgood u) hu hw'
        have hK' := hK l'
        obtain ⟨v, huv, hv⟩ := ih (K - rank l') (by omega) hw' hblocked' rfl
        exact ⟨v, .head htu huv, hv⟩
    rcases hblocked with hheld | ⟨rfl, u, hu⟩
    · exact hholder hw hheld
    · -- A writer waits: it can go on, or the mutex has a holder.
      have htu : WaitsFor σ t u := ⟨l, .shared, hw, .inr ⟨rfl, hu⟩⟩
      by_cases hfree : σ.Free l .unique
      · obtain ⟨a, s, hσ⟩ := hu
        have hm : Moves body may (σ u) (some (l, .unique)) ⟨false, .run a :: .release l .unique :: s⟩ := by
          rw [hσ]
          exact .acquire l .unique a s
        refine ⟨u, .single htu, some (l, .unique), _, hm, fun l' m' he => ?_⟩
        cases he
        rintro (hheld | ⟨hmode, -⟩)
        · exact hheld hfree
        · cases hmode
      · obtain ⟨v, huv, hv⟩ := hholder hu hfree
        exact ⟨v, .head htu huv, hv⟩

/-- **Outside code runs without mutexes**, and so does a thread that waits for something else. -/
theorem outside_holds_nothing {s above below : List (Frame L Op)} {c : Code L Op} (hgood : Good rank s)
    (hs : s = above ++ .run c :: below) (hc : c = .outside ∨ c = .suspend) : held below = [] := by
  subst hs
  obtain ⟨hordered, -⟩ := hgood.append
  refine held_of_innermost_none (Option.isNone_iff_eq_none.mp ?_)
  rcases hc with rfl | rfl <;> exact hordered

/-- **Callables are handled under one mutex.** -/
theorem callable_holds_one {s above below : List (Frame L Op)} {l : L} (hgood : Good rank s)
    (hs : s = above ++ .run (.callable l) :: below) : rank l = 1 ∧ ∃ m, held below = [(l, m)] := by
  subst hs
  obtain ⟨hordered, hbelow⟩ := hgood.append
  rw [Code.ordered, Bool.and_eq_true, decide_eq_true_eq, decide_eq_true_eq] at hordered
  exact ⟨hordered.2, hbelow.held_of_rank_one hordered.1 hordered.2⟩

variable [DecidableEq ι] {σ₀ : State L Op ι}

/-- **The check holds in every state.** -/
theorem Reachable.good (hbody : ∀ op, (body op).ordered rank none = true)
    (hmay : ∀ op, may op → (body op).quiet = true) (h₀ : ∀ t, Good rank (σ₀ t).stack)
    (h : Reachable body may σ₀ σ) (t : ι) : Good rank (σ t).stack := by
  induction h generalizing t with
  | refl => exact h₀ t
  | tail _ hs ih =>
    cases hs with
    | free u th hm | acquire u l m th hm hfree =>
      by_cases hu : t = u
      · subst hu
        rw [Function.update_self]
        exact (ih t).moves hbody hmay hm
      · rw [Function.update_of_ne hu]
        exact ih t

end Runs

end LockOrder
