import TPC.Analytics.Containment
import TPC.Lib.Threads

/-!
# Readers of the stored field

Threads that calculate and threads that read, on one manager with its two shared mutexes. A thread
calls one of the two calculations, holds a `FieldReadView`, or runs `export_to_vtk()`.

* `Activity`, `State`, `Step`, `Reachable`: what the threads do, one step at a time;
* `Phase`: where a calculation stands, what it holds and what it knows of the manager;
* `Rely`, `Writes`: what a thread's locks keep from the others, and what they let it write;
* `Inv`, `inv_step`: whoever does not hold the field lock sees a published field, or none;
* **`Reachable.readers_see_output`**: what a reader sees is the output of one successful call.
-/

namespace TPC.Analytics.Readers

open Arith Prog AnalyticsManager

variable {F : Type} {ι : Type}

/-- Two modes of one shared mutex that cannot be held at once. -/
def conflict : Lock → Lock → Prop
  | .coefficientsShared, .coefficientsUnique => True
  | .coefficientsUnique, .coefficientsShared => True
  | .coefficientsUnique, .coefficientsUnique => True
  | .fieldDataShared, .fieldDataUnique => True
  | .fieldDataUnique, .fieldDataShared => True
  | .fieldDataUnique, .fieldDataUnique => True
  | _, _ => False

theorem conflict_symm (l l' : Lock) (h : conflict l l') : conflict l' l := by
  cases l <;> cases l' <;> exact h

/-- The two ways to read the stored field under the shared lock. -/
inductive Reader
  | fieldReadView
  | exportToVtk
  deriving DecidableEq, Repr

/-- The field and the coordinates that a reader is given by its guard. -/
def Reader.buffers (m : AnalyticsManager F) : Reader → Call (List F × List F)
  | .fieldReadView => m.getFieldData.map fun fd => (fd.field, fd.coordinates)
  | .exportToVtk => m.exportToVtk fun field coordinates _ => .ok (field, coordinates)

theorem buffers_eq_ok {m : AnalyticsManager F} {r : Reader} {b : List F × List F}
    (h : r.buffers m = .ok b) :
    m.fieldDataValid = true ∧ ∃ fd, m.fieldData = some fd ∧ b = (fd.field, fd.coordinates) := by
  cases r with
  | fieldReadView =>
    unfold Reader.buffers at h
    cases hfd : m.getFieldData with
    | error e =>
      rw [hfd] at h
      cases h
    | ok fd =>
      rw [hfd] at h
      cases h
      obtain ⟨hv, hd⟩ := getFieldData_eq_ok.mp hfd
      exact ⟨hv, fd, hd, rfl⟩
  | exportToVtk =>
    change m.exportToVtk (fun field coordinates _ => .ok (field, coordinates)) = _ at h
    unfold AnalyticsManager.exportToVtk at h
    split at h
    · next fd hv hd =>
      split_ifs at h
      cases h
      exact ⟨hv, fd, hd, rfl⟩
    · cases h

/-- What a thread is doing. A calculation carries its command, the coefficients that were stored
when it took the shared lock, and the code that is left. A reader carries the buffers that it was
given. -/
inductive Activity (F : Type)
  | idle
  | calculating (c : Command F) (coefficients : List F) (code : Code F Unit)
  | entering (r : Reader)
  | guarding (r : Reader)
  | reading (r : Reader) (buffers : List F × List F)

/-- The manager, its threads, and the calls that have returned: command, coefficients, outcome. -/
structure State (F ι : Type) where
  manager : AnalyticsManager F
  activity : ι → Activity F
  held : ι → List Lock
  returned : List (Command F × List F × Call Unit)

variable [DecidableEq ι]

/-- Thread `i` goes on to `a`, holding `hs`. -/
def State.goes (σ : State F ι) (i : ι) (a : Activity F) (hs : List Lock) : State F ι :=
  { σ with activity := Function.update σ.activity i a, held := Function.update σ.held i hs }

section Goes

variable (σ : State F ι) (i : ι) (a : Activity F) (hs : List Lock)

@[simp] theorem goes_activity_self : (σ.goes i a hs).activity i = a := Function.update_self ..

@[simp] theorem goes_held_self : (σ.goes i a hs).held i = hs := Function.update_self ..

@[simp] theorem goes_manager : (σ.goes i a hs).manager = σ.manager := rfl

@[simp] theorem goes_returned : (σ.goes i a hs).returned = σ.returned := rfl

variable {i}

theorem goes_activity_of_ne {j : ι} (h : j ≠ i) : (σ.goes i a hs).activity j = σ.activity j :=
  Function.update_of_ne h ..

theorem goes_held_of_ne {j : ι} (h : j ≠ i) : (σ.goes i a hs).held j = σ.held j :=
  Function.update_of_ne h ..

end Goes

variable [Arith F] (svd : JacobiSVD F)

/-- One step of one thread. -/
inductive Step (σ : State F ι) : State F ι → Prop
  | call (i : ι) (c : Command F) (h : σ.activity i = .idle) :
    Step σ (σ.goes i (.calculating c [] (c.code svd)) (σ.held i))
  | move (i : ι) (c : Command F) (cs : List F) (p q : Code F Unit) (m' : AnalyticsManager F)
    (h : σ.activity i = .calculating c cs p) (hp : Moves (p, σ.manager) .none (q, m')) :
    Step σ { σ.goes i (.calculating c cs q) (σ.held i) with manager := m' }
  | acquire (i : ι) (c : Command F) (cs : List F) (p q : Code F Unit) (l : Lock)
    (h : σ.activity i = .calculating c cs p)
    (hp : Moves (p, σ.manager) (.acquired l) (q, σ.manager)) (hl : Free conflict σ.held l) :
    Step σ (σ.goes i (.calculating c
      (if l = .coefficientsShared then σ.manager.storedCoefficients else cs) q) (l :: σ.held i))
  | release (i : ι) (c : Command F) (cs : List F) (p q : Code F Unit) (l : Lock)
    (h : σ.activity i = .calculating c cs p)
    (hp : Moves (p, σ.manager) (.released l) (q, σ.manager)) :
    Step σ (σ.goes i (.calculating c cs q) ((σ.held i).erase l))
  | returns (i : ι) (c : Command F) (cs : List F) (r : Call Unit)
    (h : σ.activity i = .calculating c cs (ended r)) :
    Step σ { σ.goes i .idle (σ.held i) with returned := σ.returned ++ [(c, cs, r)] }
  | request (i : ι) (r : Reader) (h : σ.activity i = .idle) :
    Step σ (σ.goes i (.entering r) (σ.held i))
  | enter (i : ι) (r : Reader) (h : σ.activity i = .entering r)
    (hl : Free conflict σ.held .fieldDataShared) :
    Step σ (σ.goes i (.guarding r) (.fieldDataShared :: σ.held i))
  | refuse (i : ι) (r : Reader) (e : Exit) (h : σ.activity i = .guarding r)
    (hb : r.buffers σ.manager = .error e) :
    Step σ (σ.goes i .idle ((σ.held i).erase .fieldDataShared))
  | pass (i : ι) (r : Reader) (b : List F × List F) (h : σ.activity i = .guarding r)
    (hb : r.buffers σ.manager = .ok b) : Step σ (σ.goes i (.reading r b) (σ.held i))
  | leave (i : ι) (r : Reader) (b : List F × List F) (h : σ.activity i = .reading r b) :
    Step σ (σ.goes i .idle ((σ.held i).erase .fieldDataShared))

omit [DecidableEq ι] [Arith F] in
/-- A manager that no thread has called. -/
def State.init (m : AnalyticsManager F) : State F ι := ⟨m, fun _ => .idle, fun _ => [], []⟩

/-- The states of all interleavings on a manager that `create` made. -/
def Reachable (σ : State F ι) : Prop :=
  ∃ basis m, create basis = .ok m ∧ Relation.ReflTransGen (Step svd) (.init m) σ

/-! ## Where a calculation stands -/

/-- `b` is everything that this call of `calculate_field` computes from the coefficients `cs`: the
points of its grid, and the mode sum at each of them. -/
def IsOutput (basis : BasisCollection F) (c : Command F) (cs : List F) (b : List F × List F) :
    Prop :=
  ∃ fuel g radius zLength points bs, c = .calculateField fuel g radius zLength ∧
    AnalyticsManager.Calculates ⟨basis, none, false, cs⟩ fuel g radius zLength points bs ∧
    b = (Fold.flat bs, Fold.flat (points.map polar))

/-- The stored buffers are the output of this call. -/
def Holds (c : Command F) (cs : List F) (m : AnalyticsManager F) : Prop :=
  ∃ fd, m.fieldData = some fd ∧ IsOutput m.basisCollection c cs (fd.field, fd.coordinates)

/-- The part of `calculate_field` that the lock of the coefficients covers, on the manager it finds. -/
def lockedPart (fuel : ℕ) (g : Fin 3 → ℕ) (radius zLength : F) (m : AnalyticsManager F) :
    Code F Unit :=
  if m.coefficientsMissing then
    Prog.throw (.unexpected "SVD coefficients are not calculated")
  else Prog.withLock .fieldDataUnique (rewriteFieldData fuel g radius zLength)

theorem calculateField_eq (fuel : ℕ) (g : Fin 3 → ℕ) (radius zLength : F) :
    calculateField fuel g radius zLength = Prog.read fun m =>
      Prog.bind (Prog.ofExcept (m.validate radius zLength)) fun _ =>
        Prog.withLock .coefficientsShared (Prog.get >>= lockedPart fuel g radius zLength) := rfl

/-- `calculate_svd_coefficients` on the manager it finds. -/
def fitPart (ms : List (Measurement F)) (t : F) (m : AnalyticsManager F) : Code F Unit :=
  if ms.isEmpty then Prog.throw (.unexpected "Measurements collection is empty!")
  else if m.basisCollection.basis.isEmpty then Prog.throw (.unexpected "Basis is incorrect!")
  else Prog.bind (Prog.ofExcept (SVDSolver.solveSvd svd (cylindricMeasurements ms)
      m.basisCollection.basis m.basisCollection.modes t)) fun result =>
    Prog.withLock .coefficientsUnique
      (Prog.modify fun m => { m with storedCoefficients := result })

theorem calculateSvdCoefficients_eq (ms : List (Measurement F)) (t : F) :
    calculateSvdCoefficients svd ms t = Prog.read (fitPart svd ms t) := rfl

/-- The code that is left of a calculation, with the locks it holds. `cs` are the coefficients it
found under the shared lock. -/
inductive Phase (m : AnalyticsManager F) : Command F → List F → Code F Unit → List Lock → Prop
  | calledField (fuel : ℕ) (g : Fin 3 → ℕ) (radius zLength : F) (cs : List F) :
    Phase m (.calculateField fuel g radius zLength) cs (calculateField fuel g radius zLength) []
  | validated (fuel : ℕ) (g : Fin 3 → ℕ) (radius zLength : F) (cs : List F) :
    Phase m (.calculateField fuel g radius zLength) cs
      (withLock .coefficientsShared (Prog.get >>= lockedPart fuel g radius zLength)) []
  | locked (fuel : ℕ) (g : Fin 3 → ℕ) (radius zLength : F) (cs : List F)
    (h : m.storedCoefficients = cs) : Phase m (.calculateField fuel g radius zLength) cs
      (releasing .coefficientsShared (Prog.get >>= lockedPart fuel g radius zLength))
      [.coefficientsShared]
  | accepted (fuel : ℕ) (g : Fin 3 → ℕ) (radius zLength : F) (cs : List F)
    (h : m.storedCoefficients = cs) : Phase m (.calculateField fuel g radius zLength) cs
      (releasing .coefficientsShared
        (withLock .fieldDataUnique (rewriteFieldData fuel g radius zLength)))
      [.coefficientsShared]
  | rewriting (c : Command F) (cs : List F) (q : Code F Unit) (h : m.storedCoefficients = cs)
    (hq : LockFree q) (hw : wp (fun m₁ m₂ => m₂.basisCollection = m₁.basisCollection ∧
        m₂.storedCoefficients = m₁.storedCoefficients)
      (fun _ => Holds c cs) (fun _ m' => m'.fieldDataValid = false) q m) :
    Phase m c cs (releasing .coefficientsShared (releasing .fieldDataUnique q))
      [.fieldDataUnique, .coefficientsShared]
  | calledFit (ms : List (Measurement F)) (t : F) (cs : List F) :
    Phase m (.calculateSvdCoefficients ms t) cs (calculateSvdCoefficients svd ms t) []
  | solved (c : Command F) (cs result : List F) : Phase m c cs (withLock .coefficientsUnique
      (Prog.modify fun m => { m with storedCoefficients := result })) []
  | storing (c : Command F) (cs result : List F) : Phase m c cs (releasing .coefficientsUnique
      (Prog.modify fun m => { m with storedCoefficients := result })) [.coefficientsUnique]
  | leaving (c : Command F) (cs : List F) (l : Lock) (r : Call Unit)
    (h : l = .coefficientsShared ∧ m.storedCoefficients = cs ∨ l = .coefficientsUnique) :
    Phase m c cs (releasing l (ended r)) [l]
  | left (c : Command F) (cs : List F) (r : Call Unit) : Phase m c cs (ended r) []

/-- What the locks `hs` let their thread write. -/
structure Writes (hs : List Lock) (m m' : AnalyticsManager F) : Prop where
  basis : m'.basisCollection = m.basisCollection
  coefficients : m'.storedCoefficients = m.storedCoefficients ∨ .coefficientsUnique ∈ hs
  field : (m'.fieldData = m.fieldData ∧ m'.fieldDataValid = m.fieldDataValid) ∨
    .fieldDataUnique ∈ hs

omit [Arith F] in
theorem Writes.refl (hs : List Lock) (m : AnalyticsManager F) : Writes hs m m :=
  ⟨rfl, .inl rfl, .inl ⟨rfl, rfl⟩⟩

/-- What the locks `hs` keep the other threads from writing. -/
structure Rely (hs : List Lock) (m m' : AnalyticsManager F) : Prop where
  basis : m'.basisCollection = m.basisCollection
  coefficients : .coefficientsShared ∈ hs → m'.storedCoefficients = m.storedCoefficients
  field : .fieldDataShared ∈ hs ∨ .fieldDataUnique ∈ hs →
    m'.fieldData = m.fieldData ∧ m'.fieldDataValid = m.fieldDataValid

omit [Arith F] [DecidableEq ι] in
/-- **Exclusion**: what one thread may write, another one that holds its locks does not notice. -/
theorem Writes.rely {held : ι → List Lock} {i j : ι} {m m' : AnalyticsManager F}
    (h : Writes (held i) m m') (he : Exclusive conflict held) (hij : j ≠ i) :
    Rely (held j) m m' := by
  refine ⟨h.basis, fun hj => ?_, fun hj => ?_⟩
  · rcases h.coefficients with h | hi
    · exact h
    · exact (he j i hij _ hj _ hi trivial).elim
  · rcases h.field with h | hi
    · exact h
    · rcases hj with hj | hj
      · exact (he j i hij _ hj _ hi trivial).elim
      · exact (he j i hij _ hj _ hi trivial).elim

theorem Phase.rely {m m' : AnalyticsManager F} {c : Command F} {cs : List F} {p : Code F Unit}
    {hs : List Lock} (h : Phase svd m c cs p hs) (hr : Rely hs m m') : Phase svd m' c cs p hs := by
  cases h with
  | calledField => exact .calledField ..
  | validated => exact .validated ..
  | locked _ _ _ _ _ h => exact .locked _ _ _ _ _ ((hr.coefficients (by simp)).trans h)
  | accepted _ _ _ _ _ h => exact .accepted _ _ _ _ _ ((hr.coefficients (by simp)).trans h)
  | rewriting _ _ q h hq hw =>
    have he : m' = m := by
      obtain ⟨h₁, h₂⟩ := hr.field (.inr (by simp))
      have h₃ := hr.coefficients (by simp)
      have h₄ := hr.basis
      cases m
      cases m'
      simp only at h₁ h₂ h₃ h₄
      rw [h₁, h₂, h₃, h₄]
    rw [he]
    exact .rewriting _ _ q h hq hw
  | calledFit => exact .calledFit ..
  | solved => exact .solved ..
  | storing => exact .storing ..
  | leaving _ _ l r h =>
    refine .leaving _ _ l r ?_
    rcases h with ⟨rfl, h⟩ | h
    · exact .inl ⟨rfl, (hr.coefficients (by simp)).trans h⟩
    · exact .inr h
  | left => exact .left ..

/-! ## Steps of a calculation -/

omit [Arith F] in
theorem lockFree_onFieldData {A : Type} (call : Collection.Code F A) : LockFree (onFieldData call) :=
  lockFree_within _ _ call

theorem lockFree_calculateGridKernel (fuel : ℕ) (g : Fin 3 → ℕ) (radius depth : F) :
    LockFree (calculateGridKernel fuel g radius depth) := by
  unfold calculateGridKernel
  split_ifs
  · trivial
  · trivial
  cases gridPoints fuel g radius depth with
  | none => trivial
  | some points =>
    dsimp only
    split_ifs
    · trivial
    · exact (lockFree_onFieldData _).bind fun _ => .each (fun _ => lockFree_onFieldData _) _

theorem lockFree_calculateFieldKernel : LockFree (calculateFieldKernel : Code F Unit) := by
  refine lockFree_get.bind fun m => ?_
  cases m.fieldData with
  | none => trivial
  | some fd =>
    dsimp only
    split_ifs
    · trivial
    · trivial
    · exact .each (fun id => lockFree_get.bind fun _ => (lockFree_ofExcept _).bind fun _ =>
        (lockFree_modify _).bind fun _ => (lockFree_modify _).bind fun _ => lockFree_modify _) _

theorem lockFree_rewriteFieldData (fuel : ℕ) (g : Fin 3 → ℕ) (radius zLength : F) :
    LockFree (rewriteFieldData fuel g radius zLength) := by
  have hreset : LockFree (resetFieldData : Code F Unit) := by
    refine lockFree_get.bind fun m => ?_
    cases m.fieldData with
    | none => trivial
    | some fd => exact lockFree_onFieldData _
  exact (lockFree_modify _).bind fun _ => hreset.bind fun _ =>
    (lockFree_calculateGridKernel fuel g radius zLength).bind fun _ => (lockFree_onFieldData _).bind fun _ =>
      lockFree_calculateFieldKernel.bind fun _ => lockFree_modify _

/-- The rewriting that starts in `m` ends with the output for the coefficients of `m`, or with no
valid field. -/
theorem wp_rewrite (fuel : ℕ) (g : Fin 3 → ℕ) (radius zLength : F) (m : AnalyticsManager F) :
    wp (fun m₁ m₂ => m₂.basisCollection = m₁.basisCollection ∧
        m₂.storedCoefficients = m₁.storedCoefficients)
      (fun _ => Holds (.calculateField fuel g radius zLength) m.storedCoefficients)
      (fun _ m' => m'.fieldDataValid = false) (rewriteFieldData fuel g radius zLength) m := by
  refine wp_rewriteFieldData (fun _ _ => ⟨rfl, rfl⟩) (fun _ _ _ => rfl) fuel g radius zLength
    ⟨rfl, rfl⟩ fun fd₀ points bs h => ⟨⟨rfl, rfl⟩, ?_⟩
  exact ⟨_, rfl, fuel, g, radius, zLength, points, bs, rfl, ⟨h.dims, h.grid, h.size, h.field⟩, rfl⟩

theorem Phase.held_ended {m : AnalyticsManager F} {c : Command F} {cs : List F} {r : Call Unit}
    {hs : List Lock} (h : Phase svd m c cs (ended r) hs) : hs = [] := by
  generalize hp : (ended r : Code F Unit) = p at h
  cases h with
  | calledField | validated | calledFit | solved | left => rfl
  | locked | accepted | rewriting | storing | leaving => exact (releasing_ne_ended _ _ _ hp.symm).elim

/-- What a step does, by its effect on the locks: a write is covered by them, and the field lock is
given back with a finished output or with no valid field. -/
def After (m m' : AnalyticsManager F) (c : Command F) (cs : List F) (q : Code F Unit)
    (hs : List Lock) : Effect Lock → Prop
  | .none => Writes hs m m' ∧ Phase svd m' c cs q hs
  | .acquired l => m' = m ∧
      Phase svd m c (if l = .coefficientsShared then m.storedCoefficients else cs) q (l :: hs)
  | .released l => m' = m ∧ Phase svd m c cs q (hs.erase l) ∧
      (l = .fieldDataUnique → m.fieldDataValid = true → Finishing q ∧ Holds c cs m)

/-- **One step of a calculation**, wherever it stands. -/
theorem Phase.moves {m m' : AnalyticsManager F} {c : Command F} {cs : List F} {p q : Code F Unit}
    {hs : List Lock} {e : Effect Lock} (h : Phase svd m c cs p hs)
    (hp : Moves (p, m) e (q, m')) : After svd m m' c cs q hs e := by
  cases h with
  | calledField fuel g radius zLength =>
    rw [calculateField_eq, moves_read] at hp
    obtain ⟨rfl, hq, rfl⟩ := hp
    refine ⟨.refl _ _, ?_⟩
    rw [hq, bind_ofExcept]
    cases m.validate radius zLength with
    | error e => exact .left _ _ (.error e)
    | ok u => exact .validated fuel g radius zLength cs
  | validated fuel g radius zLength =>
    cases hp
    exact ⟨rfl, .locked fuel g radius zLength _ rfl⟩
  | locked fuel g radius zLength _ h =>
    rw [releasing_get_bind, moves_read] at hp
    obtain ⟨rfl, hq, rfl⟩ := hp
    refine ⟨.refl _ _, ?_⟩
    unfold lockedPart at hq
    split_ifs at hq
    · rw [hq]
      exact .leaving _ _ _ (.error (.unexpected "SVD coefficients are not calculated"))
        (.inl ⟨rfl, h⟩)
    · rw [hq]
      exact .accepted fuel g radius zLength _ h
  | accepted fuel g radius zLength _ h =>
    cases hp
    refine ⟨rfl, .rewriting _ _ _ h (lockFree_rewriteFieldData fuel g radius zLength) ?_⟩
    rw [if_neg nofun, ← h]
    exact wp_rewrite fuel g radius zLength m
  | rewriting _ _ p h hq hw =>
    rcases moves_releasing hp with ⟨p₁, s₁, he, hm⟩ | ⟨r, hr, -, -⟩
    · cases he
      rcases moves_releasing hm with ⟨p₂, s₂, he, hm⟩ | ⟨r, rfl, rfl, he⟩
      · cases he
        obtain ⟨rfl, hq'⟩ := hq.moves hm
        obtain ⟨hs, hw'⟩ := wp_step hm.step hw
        have hk : m'.basisCollection = m.basisCollection ∧
            m'.storedCoefficients = m.storedCoefficients := by
          rcases hs with hs | hs
          · exact ⟨congrArg _ hs, congrArg _ hs⟩
          · exact hs
        exact ⟨⟨hk.1, .inl hk.2, .inr (by simp)⟩, .rewriting _ _ _ (hk.2.trans h) hq' hw'⟩
      · cases he
        refine ⟨rfl, .leaving _ _ _ r (.inl ⟨rfl, h⟩), fun _ hv => ?_⟩
        rcases r with x | u
        · exact absurd hv (by rw [show m.fieldDataValid = false from hw]; nofun)
        · exact ⟨trivial, hw⟩
    · exact (releasing_ne_ended _ _ _ hr).elim
  | calledFit ms t =>
    rw [calculateSvdCoefficients_eq, moves_read] at hp
    obtain ⟨rfl, hq, rfl⟩ := hp
    refine ⟨.refl _ _, ?_⟩
    rw [hq]
    unfold fitPart
    split_ifs
    · exact .left _ _ (.error (.unexpected "Measurements collection is empty!"))
    · exact .left _ _ (.error (.unexpected "Basis is incorrect!"))
    rw [bind_ofExcept]
    split
    · next result _ => exact .solved _ _ result
    · next e _ => exact .left _ _ (.error e)
  | solved _ _ result =>
    cases hp
    exact ⟨rfl, .storing _ _ result⟩
  | storing _ _ result =>
    change Moves (Prog.write _ _, m) e (q, m') at hp
    cases hp
    exact ⟨⟨rfl, .inr (by simp), .inl ⟨rfl, rfl⟩⟩, .leaving _ _ _ (.ok ()) (.inr rfl)⟩
  | leaving _ _ l r h =>
    rw [releasing_ended] at hp
    cases hp
    refine ⟨rfl, ?_, fun hl _ => ?_⟩
    · rw [List.erase_cons_head]
      exact .left _ _ r
    · rcases h with ⟨h, -⟩ | h <;> rw [hl] at h <;> cases h
  | left _ _ r => exact (not_moves_ended hp).elim

/-! ## The invariant -/

/-- A thread holds what its activity needs, and what it has seen is still there. -/
def Place (m : AnalyticsManager F) (hs : List Lock) : Activity F → Prop
  | .idle => hs = []
  | .calculating c cs p => Phase svd m c cs p hs
  | .entering _ => hs = []
  | .guarding _ => hs = [.fieldDataShared]
  | .reading _ b => hs = [.fieldDataShared] ∧ m.fieldDataValid = true ∧
      ∃ fd, m.fieldData = some fd ∧ b = (fd.field, fd.coordinates)

omit [DecidableEq ι] [Arith F] in
/-- The call has returned its value, or nothing else is left for it to do. -/
def Succeeded (σ : State F ι) (c : Command F) (cs : List F) : Prop :=
  (c, cs, .ok ()) ∈ σ.returned ∨ ∃ i p, σ.activity i = .calculating c cs p ∧ Finishing p

/-- What holds at every step. -/
structure Inv (σ : State F ι) : Prop where
  exclusive : Exclusive conflict σ.held
  place : ∀ i, Place svd σ.manager (σ.held i) (σ.activity i)
  /-- A valid field that nobody is rewriting is the output of a successful call. -/
  published : (∀ i, .fieldDataUnique ∉ σ.held i) → σ.manager.fieldDataValid = true →
    ∃ c cs, Succeeded σ c cs ∧ Holds c cs σ.manager

variable {svd}

theorem Place.rely {m m' : AnalyticsManager F} {hs : List Lock} {a : Activity F}
    (h : Place svd m hs a) (hr : Rely hs m m') : Place svd m' hs a := by
  cases a with
  | idle | entering | guarding => exact h
  | calculating c cs p => exact Phase.rely svd h hr
  | reading r b =>
    obtain ⟨hs, hv, hb⟩ := h
    obtain ⟨h₁, h₂⟩ := hr.field (.inl (by simp [hs]))
    exact ⟨hs, h₂.trans hv, h₁ ▸ hb⟩

omit [DecidableEq ι] in
theorem inv_init {basis : BasisCollection F} {m : AnalyticsManager F} (h : create basis = .ok m) :
    Inv svd (.init m : State F ι) := by
  unfold create at h
  split_ifs at h
  cases h
  exact ⟨fun _ _ _ _ hl => absurd hl List.not_mem_nil, fun _ => rfl, nofun⟩

variable {σ σ' : State F ι} {i : ι} {a : Activity F} {hs : List Lock}

/-- **One thread goes on**: what it may write does not disturb the others, and a field that it has
rewritten is the output of a call that is about to return. -/
theorem Inv.goes (h : Inv svd σ) {m' : AnalyticsManager F} {ret : List (Command F × List F × Call Unit)}
    (hw : Writes (σ.held i) σ.manager m')
    (hex : Exclusive conflict (Function.update σ.held i hs)) (hp : Place svd m' hs a)
    (hret : ∀ x ∈ σ.returned, x ∈ ret)
    (hfin : ∀ c cs p, σ.activity i = .calculating c cs p → Finishing p →
      (c, cs, .ok ()) ∈ ret ∨ ∃ q, a = .calculating c cs q ∧ Finishing q)
    (hfield : .fieldDataUnique ∈ σ.held i → .fieldDataUnique ∉ hs → m'.fieldDataValid = true →
      ∃ c cs q, a = .calculating c cs q ∧ Finishing q ∧ Holds c cs m') :
    Inv svd { σ.goes i a hs with manager := m', returned := ret } := by
  refine ⟨hex, fun j => ?_,
    fun (hfree : ∀ j, Lock.fieldDataUnique ∉ (σ.goes i a hs).held j) hv => ?_⟩
  · change Place svd m' ((σ.goes i a hs).held j) ((σ.goes i a hs).activity j)
    by_cases hj : j = i
    · rw [hj, goes_held_self, goes_activity_self]
      exact hp
    · have hplace := (h.place j).rely (hw.rely h.exclusive hj)
      rwa [← goes_activity_of_ne σ a hs hj, ← goes_held_of_ne σ a hs hj] at hplace
  have hi : Lock.fieldDataUnique ∉ hs := by
    have := hfree i
    rwa [goes_held_self] at this
  by_cases hheld : Lock.fieldDataUnique ∈ σ.held i
  · obtain ⟨c, cs, q, ha, hq, hholds⟩ := hfield hheld hi hv
    refine ⟨c, cs, .inr ⟨i, q, ?_, hq⟩, hholds⟩
    exact (goes_activity_self σ i a hs).trans ha
  · rcases hw.field with ⟨hfd, hvalid⟩ | hc
    swap
    · exact absurd hc hheld
    have hfree' : ∀ j, Lock.fieldDataUnique ∉ σ.held j := by
      intro j
      by_cases hj : j = i
      · rw [hj]
        exact hheld
      · have := hfree j
        rwa [goes_held_of_ne σ a hs hj] at this
    obtain ⟨c, cs, hs', fd, hd, hout⟩ := h.published hfree' (hvalid.symm.trans hv)
    refine ⟨c, cs, ?_, fd, hfd.trans hd, by rw [hw.basis]; exact hout⟩
    rcases hs' with hmem | ⟨j, p, hj, hfinish⟩
    · exact .inl (hret _ hmem)
    by_cases hji : j = i
    · rcases hfin c cs p (hji ▸ hj) hfinish with hmem | ⟨q, ha, hq⟩
      · exact .inl hmem
      · exact .inr ⟨i, q, (goes_activity_self σ i a hs).trans ha, hq⟩
    · exact .inr ⟨j, p, (goes_activity_of_ne σ a hs hji).trans hj, hfinish⟩

theorem Inv.reads (h : Inv svd σ) (hidle : ∀ c cs p, σ.activity i ≠ .calculating c cs p)
    (hheld : .fieldDataUnique ∉ σ.held i)
    (hex : Exclusive conflict (Function.update σ.held i hs)) (hp : Place svd σ.manager hs a) :
    Inv svd (σ.goes i a hs) :=
  h.goes (.refl _ _) hex hp (fun _ hx => hx) (fun c cs p ha _ => absurd ha (hidle c cs p))
    fun hc => absurd hc hheld

/-- **Every step keeps the invariant.** -/
theorem inv_step (h : Inv svd σ) (hs : Step svd σ σ') : Inv svd σ' := by
  have hself : ∀ i, Exclusive conflict (Function.update σ.held i (σ.held i)) := fun i => by
    rw [Function.update_eq_self]
    exact h.exclusive
  cases hs with
  | call i c ha =>
    have hi : σ.held i = [] := by simpa [ha, Place] using h.place i
    refine h.reads (by simp [ha]) (by simp [hi]) (hself i) ?_
    rw [hi]
    cases c with
    | calculateSvdCoefficients ms t => exact .calledFit ms t []
    | calculateField fuel g radius zLength => exact .calledField fuel g radius zLength []
  | move i c cs p q m' ha hp =>
    have hplace := h.place i
    rw [ha] at hplace
    obtain ⟨hw, hq⟩ := Phase.moves svd hplace hp
    refine h.goes hw (hself i) hq (fun _ hx => hx) (fun c' cs' p' ha' hfin => ?_)
      fun hi hni => absurd hi hni
    rw [ha] at ha'
    cases ha'
    exact .inr ⟨q, rfl, hfin.moves hp⟩
  | acquire i c cs p q l ha hp hl =>
    have hplace := h.place i
    rw [ha] at hplace
    obtain ⟨-, hq⟩ := Phase.moves svd hplace hp
    refine h.goes (.refl _ _) (h.exclusive.acquire conflict_symm hl i) hq (fun _ hx => hx)
      (fun c' cs' p' ha' hfin => ?_) fun hi hni => absurd (List.mem_cons_of_mem l hi) hni
    rw [ha] at ha'
    cases ha'
    cases hp
    exact hfin.elim
  | release i c cs p q l ha hp =>
    have hplace := h.place i
    rw [ha] at hplace
    obtain ⟨-, hq, hdone⟩ := Phase.moves svd hplace hp
    refine h.goes (.refl _ _) (h.exclusive.release i fun _ => List.mem_of_mem_erase) hq
      (fun _ hx => hx) (fun c' cs' p' ha' hfin => ?_) fun hi hni hv => ?_
    · rw [ha] at ha'
      cases ha'
      exact .inr ⟨q, rfl, hfin.moves hp⟩
    · have hl : l = .fieldDataUnique := by
        by_contra hne
        exact hni ((List.mem_erase_of_ne (Ne.symm hne)).mpr hi)
      obtain ⟨hfin, hholds⟩ := hdone hl hv
      exact ⟨c, cs, q, rfl, hfin, hholds⟩
  | returns i c cs r ha =>
    have hplace := h.place i
    rw [ha] at hplace
    have hi : σ.held i = [] := Phase.held_ended svd hplace
    refine h.goes (.refl _ _) (hself i) hi (fun _ hx => List.mem_append_left _ hx)
      (fun c' cs' p' ha' hfin => ?_) fun hc => absurd hc (by simp [hi])
    rw [ha] at ha'
    cases ha'
    obtain ⟨⟨⟩, rfl⟩ := hfin.ended
    exact .inl (List.mem_append_right _ List.mem_cons_self)
  | request i r ha =>
    have hi : σ.held i = [] := by simpa [ha, Place] using h.place i
    exact h.reads (by simp [ha]) (by simp [hi]) (hself i) hi
  | enter i r ha hl =>
    have hi : σ.held i = [] := by simpa [ha, Place] using h.place i
    refine h.reads (by simp [ha]) (by simp [hi]) (h.exclusive.acquire conflict_symm hl i) ?_
    rw [hi]
    rfl
  | refuse i r e ha hb =>
    have hi : σ.held i = [.fieldDataShared] := by simpa [ha, Place] using h.place i
    refine h.reads (by simp [ha]) (by simp [hi])
      (h.exclusive.release i fun _ => List.mem_of_mem_erase) ?_
    rw [hi]
    rfl
  | pass i r b ha hb =>
    have hi : σ.held i = [.fieldDataShared] := by simpa [ha, Place] using h.place i
    refine h.reads (by simp [ha]) (by simp [hi]) (hself i) ⟨hi, ?_⟩
    exact buffers_eq_ok hb
  | leave i r b ha =>
    have hplace := h.place i
    rw [ha] at hplace
    have hi : σ.held i = [.fieldDataShared] := hplace.1
    refine h.reads (by simp [ha]) (by simp [hi])
      (h.exclusive.release i fun _ => List.mem_of_mem_erase) ?_
    rw [hi]
    rfl

/-! ## What readers see -/

theorem Reachable.inv (h : Reachable svd σ) : Inv svd σ := by
  obtain ⟨basis, m, hb, hr⟩ := h
  induction hr with
  | refl => exact inv_init hb
  | tail _ hs ih => exact inv_step ih hs

/-- The buffers `b` are the stored ones, flat of one length, and the output of one successful call. -/
structure Shown (σ : State F ι) (b : List F × List F) : Prop where
  size : b.1.length = b.2.length
  triples : 3 ∣ b.1.length
  stored : ∃ fd, σ.manager.fieldData = some fd ∧ b = (fd.field, fd.coordinates)
  output : ∃ c cs, Succeeded σ c cs ∧ IsOutput σ.manager.basisCollection c cs b

omit [DecidableEq ι] in
theorem Inv.shown (h : Inv svd σ) {r : Reader} {b : List F × List F}
    (ha : σ.activity i = .reading r b) : Shown σ b := by
  have hplace := h.place i
  rw [ha] at hplace
  obtain ⟨hi, hv, fd, hd, rfl⟩ := hplace
  have hfree : ∀ j, Lock.fieldDataUnique ∉ σ.held j := by
    intro j hj
    by_cases hij : i = j
    · rw [← hij, hi] at hj
      simp at hj
    · exact h.exclusive i j hij .fieldDataShared (by rw [hi]; exact List.mem_cons_self) _ hj trivial
  obtain ⟨c, cs, hs, fd', hd', hout⟩ := h.published hfree hv
  rw [hd] at hd'
  cases hd'
  have hflat := hout
  obtain ⟨fuel, g, radius, zLength, points, bs, -, hcalc, hb⟩ := hflat
  have hlen := hcalc.field.length_eq
  rw [List.length_map] at hlen
  obtain ⟨hf, hc⟩ := Prod.mk.inj hb
  refine ⟨?_, ?_, ⟨fd, hd, rfl⟩, c, cs, hs, hout⟩
  · dsimp only
    rw [hf, hc, Fold.length_flat, Fold.length_flat, List.length_map, hlen]
  · dsimp only
    rw [hf, Fold.length_flat]
    exact Nat.dvd_mul_left 3 _

theorem Step.reading (hs : Step svd σ σ') {r : Reader} {b : List F × List F}
    (ha : σ.activity i = .reading r b) : σ'.activity i = .reading r b ∨ σ'.activity i = .idle := by
  cases hs with
  | leave j r' b' hj =>
    by_cases hij : i = j
    · rw [hij]
      exact .inr (goes_activity_self ..)
    · exact .inl ((goes_activity_of_ne _ _ _ hij).trans ha)
  | call j c hj | move j c cs p q m' hj hp | acquire j c cs p q l hj hp hl
  | release j c cs p q l hj hp | returns j c cs x hj | request j r' hj | enter j r' hj hl
  | refuse j r' e hj hb | pass j r' b' hj hb =>
    have hij : i ≠ j := by
      rintro rfl
      rw [ha] at hj
      cases hj
    exact .inl ((Function.update_of_ne hij _ _).trans ha)

/-- While a calculation holds the coefficients, they are the ones it has found. -/
theorem Phase.storedCoefficients {m : AnalyticsManager F} {c : Command F} {cs : List F}
    {p : Code F Unit} {hs : List Lock} (h : Phase svd m c cs p hs)
    (hl : .coefficientsShared ∈ hs) : m.storedCoefficients = cs := by
  cases h with
  | locked _ _ _ _ _ h | accepted _ _ _ _ _ h | rewriting _ _ _ h => exact h
  | leaving _ _ l r h =>
    rcases h with ⟨-, h⟩ | rfl
    · exact h
    · simp at hl
  | calledField | validated | calledFit | solved | storing | left => simp at hl

/-- **Readers never see a half-computed field.** Whoever holds a view or is past the guard of
`export_to_vtk()` sees the complete output of one successful call, until it leaves; the coefficients
of that call stayed as they were from the moment it took their lock to the moment it gave it back. -/
theorem Reachable.readers_see_output (h : Reachable svd σ) :
    (∀ i r b, σ.activity i = .reading r b → Shown σ b ∧
      ∀ σ', Step svd σ σ' → (σ'.activity i = .reading r b ∧ Shown σ' b) ∨ σ'.activity i = .idle) ∧
    ∀ i c cs p, σ.activity i = .calculating c cs p → .coefficientsShared ∈ σ.held i →
      σ.manager.storedCoefficients = cs := by
  refine ⟨fun i r b ha => ⟨h.inv.shown ha, fun σ' hs => ?_⟩, fun i c cs p ha hl => ?_⟩
  · rcases hs.reading ha with ha' | hidle
    · exact .inl ⟨ha', (inv_step h.inv hs).shown ha'⟩
    · exact .inr hidle
  · have hplace := h.inv.place i
    rw [ha] at hplace
    exact Phase.storedCoefficients hplace hl

/-! ## One thread alone -/

section Alone

variable {m m' : AnalyticsManager F} {ret : List (Command F × List F × Call Unit)} (i : ι)

/-- A manager with a thread that does something, while the others do nothing. -/
def alone (m : AnalyticsManager F) (a : Activity F) (hs : List Lock)
    (ret : List (Command F × List F × Call Unit)) : State F ι :=
  ⟨m, Function.update (fun _ => .idle) i a, Function.update (fun _ => []) i hs, ret⟩

omit [Arith F] in
theorem init_eq_alone (m : AnalyticsManager F) : State.init m = alone i m .idle [] [] := by
  rw [alone, Function.update_eq_self i, Function.update_eq_self i]
  rfl

omit [Arith F] in
theorem activity_alone (a : Activity F) (hs : List Lock) : (alone i m a hs ret).activity i = a := by
  simp [alone]

omit [Arith F] in
theorem goes_alone (a a' : Activity F) (hs hs' : List Lock) :
    (alone i m a hs ret).goes i a' hs' = alone i m a' hs' ret := by
  rw [State.goes, alone, Function.update_idem, Function.update_idem]
  rfl

omit [Arith F] in
theorem held_alone (a : Activity F) (hs : List Lock) : (alone i m a hs ret).held i = hs := by
  simp [alone]

omit [Arith F] in
theorem free_alone {a : Activity F} {hs : List Lock} {l : Lock} (h : ∀ l' ∈ hs, ¬ conflict l l') :
    Free conflict (alone i m a hs ret).held l := by
  intro j
  by_cases hij : j = i
  · rw [hij, held_alone]
    exact h
  · simp [alone, hij]

omit [Arith F] in
theorem step_moves {p q : Code F Unit} (h : Prog.Step (p, m) (q, m')) :
    ∃ e, Moves (p, m) e (q, m') := by
  cases h <;> exact ⟨_, by constructor⟩

theorem Phase.not_conflict {c : Command F} {cs : List F} {p q : Code F Unit} {hs : List Lock}
    {l : Lock} (h : Phase svd m c cs p hs) (hp : Moves (p, m) (.acquired l) (q, m')) :
    ∀ l' ∈ hs, ¬ conflict l l' := by
  cases h with
  | accepted =>
    cases hp
    intro l' hl'
    rw [List.mem_singleton.mp hl']
    exact id
  | rewriting _ _ p h hq =>
    rcases moves_releasing hp with ⟨p₁, s₁, -, hm⟩ | ⟨_, _, he, _⟩
    · rcases moves_releasing hm with ⟨p₂, s₂, -, hm⟩ | ⟨_, _, he, _⟩
      · exact absurd (hq.moves hm).1 nofun
      · cases he
    · cases he
  | leaving _ _ l r h =>
    rw [releasing_ended] at hp
    cases hp
  | locked =>
    rw [releasing_get_bind, moves_read] at hp
    cases hp.1
  | storing =>
    change Moves (Prog.write _ _, m) _ (q, m') at hp
    cases hp
  | calledField | validated | calledFit | solved | left =>
    exact fun _ hl' => absurd hl' List.not_mem_nil

variable (ret) in
/-- **A thread that is alone** runs its calculation as the manager does in the sequential model. -/
theorem steps_of_reaches {c : Command F} {cs : List F} {p : Code F Unit} {r : Call Unit}
    {hs : List Lock} (hp : Phase svd m c cs p hs) (h : Reaches p m (ended r) m') :
    ∃ cs', Relation.ReflTransGen (Step svd) (alone i m (.calculating c cs p) hs ret)
      (alone i m' (.calculating c cs' (ended r)) [] ret) := by
  suffices ∀ x : Code F Unit × AnalyticsManager F, Relation.ReflTransGen Prog.Step x (ended r, m') →
      ∀ cs hs, Phase svd x.2 c cs x.1 hs → ∃ cs', Relation.ReflTransGen (Step svd)
        (alone i x.2 (.calculating c cs x.1) hs ret) (alone i m' (.calculating c cs' (ended r)) [] ret)
    from this _ h cs hs hp
  intro x hx
  induction hx using Relation.ReflTransGen.head_induction_on with
  | refl =>
    intro cs hs hp
    obtain rfl := Phase.held_ended svd hp
    exact ⟨cs, .refl⟩
  | @head x y hstep _ ih =>
    intro cs hs hp
    obtain ⟨p, m⟩ := x
    obtain ⟨q, m₁⟩ := y
    obtain ⟨e, he⟩ := step_moves hstep
    have hafter := Phase.moves svd hp he
    cases e with
    | none =>
      obtain ⟨cs', h⟩ := ih cs hs hafter.2
      refine ⟨cs', .head ?_ h⟩
      have hmove : Step svd (alone i m (.calculating c cs p) hs ret) _ :=
        .move i c cs p q m₁ (activity_alone i _ _) he
      rw [held_alone, goes_alone] at hmove
      exact hmove
    | acquired l =>
      obtain ⟨rfl, hq⟩ := hafter
      obtain ⟨cs', h⟩ := ih _ _ hq
      refine ⟨cs', .head ?_ h⟩
      have hmove : Step svd (alone i m₁ (.calculating c cs p) hs ret) _ :=
        .acquire i c cs p q l (activity_alone i _ _) he (free_alone i (Phase.not_conflict hp he))
      rw [held_alone, goes_alone] at hmove
      exact hmove
    | released l =>
      obtain ⟨rfl, hq, -⟩ := hafter
      obtain ⟨cs', h⟩ := ih _ _ hq
      refine ⟨cs', .head ?_ h⟩
      have hmove : Step svd (alone i m₁ (.calculating c cs p) hs ret) _ :=
        .release i c cs p q l (activity_alone i _ _) he
      rwa [held_alone, goes_alone] at hmove

/-- Every run of the sequential model is one of a single thread. -/
theorem steps_of_run {m₀ : AnalyticsManager F} {calls : List (Command F × Call Unit)}
    (h : Run svd m₀ calls m) : ∃ ret, Relation.ReflTransGen (Step svd) (State.init m₀)
      (alone i m .idle [] ret) := by
  induction h with
  | nil => exact ⟨[], by rw [init_eq_alone i]⟩
  | @call calls m m' _ c r hc ih =>
    obtain ⟨ret, ih⟩ := ih
    have hphase : Phase svd m c [] (c.code svd) [] := by
      cases c with
      | calculateSvdCoefficients ms t => exact .calledFit ms t []
      | calculateField fuel g radius zLength => exact .calledField fuel g radius zLength []
    have hcall : Step svd (alone i m .idle [] ret) _ := .call i c (activity_alone i _ _)
    rw [held_alone, goes_alone] at hcall
    obtain ⟨cs, hrun⟩ := steps_of_reaches ret i hphase hc
    have hreturn : Step svd (alone i m' (.calculating c cs (ended r)) [] ret) _ :=
      .returns i c cs r (activity_alone i _ _)
    rw [held_alone, goes_alone] at hreturn
    exact ⟨_, ((ih.tail hcall).trans hrun).tail hreturn⟩

theorem steps_view {fd : FieldCollection F} (h : m.getFieldData = .ok fd) :
    Relation.ReflTransGen (Step svd) (alone i m .idle [] ret)
      (alone i m (.reading .fieldReadView (fd.field, fd.coordinates)) [.fieldDataShared] ret) := by
  have hbuffers : Reader.fieldReadView.buffers m = .ok (fd.field, fd.coordinates) := by
    unfold Reader.buffers
    rw [h]
    rfl
  have h₁ : Step svd (alone i m .idle [] ret) _ := .request i .fieldReadView (activity_alone i _ _)
  have h₂ : Step svd (alone i m (.entering .fieldReadView) [] ret) _ :=
    .enter i .fieldReadView (activity_alone i _ _) (free_alone i nofun)
  have h₃ : Step svd (alone i m (.guarding .fieldReadView) [.fieldDataShared] ret) _ :=
    .pass i .fieldReadView (fd.field, fd.coordinates) (activity_alone i _ _) hbuffers
  rw [held_alone, goes_alone] at h₁ h₂ h₃
  exact ((Relation.ReflTransGen.single h₁).tail h₂).tail h₃

end Alone

/-- `Reachable.readers_see_output` for a view of a field that has been calculated, while another thread
calculates the next one. -/
theorem readers_see_output_view : ∃ (σ : State ℝ Bool) (b : List ℝ × List ℝ) (cs : List ℝ) (p : Code ℝ Unit),
    σ.activity true = .reading .fieldReadView b ∧ Shown σ b ∧
      σ.activity false = .calculating (.calculateField 10 (fun _ => 2) 1 1) cs p ∧
      .coefficientsShared ∈ σ.held false ∧ σ.manager.storedCoefficients = cs := by
  obtain ⟨calls, fd, c, cs, bs, hrun, -, -⟩ := exists_readable
  obtain ⟨ret, hsteps⟩ := steps_of_run true hrun
  have hfield : (fitted (some fd) true 1).getFieldData = .ok fd := rfl
  have hview := hsteps.trans (steps_view true hfield)
  -- the other thread, up to its first lock
  have hmoves : Moves ((Command.calculateField 10 (fun _ => 2) 1 1).code columnSVD, fitted (some fd) true 1) .none
      (withLock .coefficientsShared (Prog.get >>= lockedPart 10 (fun _ => 2) 1 1), fitted (some fd) true 1) := by
    have hvalid : (fitted (some fd) true 1).validate 1 1 = .ok () := by
      rw [validate, if_neg (fun h => h rfl), if_neg (by norm_num)]
    refine moves_read.mpr ⟨rfl, ?_, rfl⟩
    change _ = Prog.ofExcept ((fitted (some fd) true 1).validate 1 1) >>= _
    rw [hvalid]
    rfl
  have hcall := hview.tail (.call false (.calculateField 10 (fun _ => 2) 1 1) rfl)
  have hmove := hcall.tail (.move false _ [] _ _ _ rfl hmoves)
  have hacquire := hmove.tail (.acquire false _ [] _ _ .coefficientsShared rfl (.acquire _ _ _) (by
    rintro (_ | _) l' hl'
    · cases hl'
    · rw [List.mem_singleton.mp hl']
      exact id))
  have hreach : Reachable columnSVD _ := ⟨oneBasis, _, create_oneBasis, hacquire⟩
  exact ⟨_, _, _, _, rfl, (hreach.readers_see_output.1 true _ _ rfl).1, rfl, List.mem_cons_self,
    hreach.readers_see_output.2 false _ _ _ rfl List.mem_cons_self⟩

end TPC.Analytics.Readers
