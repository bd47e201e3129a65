import Mathlib

/-!
# Coroutines that wait for answers

A computation that sends one request after the other, and goes on when the answer has come. An answer
may be an error, which ends it.

* `Coro`, `request`, `resume`;
* `Run`: a transcript of the requests and their answers, with the result; `run_request_bind`,
  **`run_foldlM_ok`**: sequences and loops;
* `Run.ok_of_mem`: it succeeds on answers that are not errors only;
* `against`, `run_against`: the run against a server that answers each request in the same way;
* `Leads`: what is left after some answers, **`Leads.run`**.
-/

/-- A coroutine with requests `Q`, answers `R`, errors `E` and values `A`. -/
inductive Coro (Q R E A : Type)
  | ret (a : A)
  | throw (e : E)
  | await (q : Q) (k : R → Coro Q R E A)

namespace Coro

variable {Q R E A B : Type}

/-- The one after the other. -/
def bind : Coro Q R E A → (A → Coro Q R E B) → Coro Q R E B
  | ret a, f => f a
  | throw e, _ => throw e
  | await q k, f => await q fun r => bind (k r) f

instance : Monad (Coro Q R E) where
  pure := ret
  bind := bind

/-- Send a request and wait for its answer. -/
def request (q : Q) : Coro Q R E R := await q ret

/-- The request that waits for an answer. -/
def outstanding : Coro Q R E A → Option Q
  | ret _ | throw _ => none
  | await q _ => some q

/-- Go on with an answer, or with the error that has come in its place. -/
def resume : Coro Q R E A → Except E R → Coro Q R E A
  | await _ k, .ok r => k r
  | await _ _, .error e => throw e
  | t, _ => t

/-- It ends with the result when its requests are answered as in the transcript. -/
inductive Run : Coro Q R E A → List (Q × Except E R) → Except E A → Prop
  | ret (a : A) : Run (ret a) [] (.ok a)
  | throw (e : E) : Run (throw e) [] (.error e)
  | failed (q : Q) (k : R → Coro Q R E A) (e : E) : Run (await q k) [(q, .error e)] (.error e)
  | answered (q : Q) (k : R → Coro Q R E A) (r : R) {tr : List (Q × Except E R)} {res : Except E A}
    (h : Run (k r) tr res) : Run (await q k) ((q, .ok r) :: tr) res

variable {t t' : Coro Q R E A} {tr : List (Q × Except E R)} {res : Except E A}

theorem run_throw {e : E} : Run (throw e : Coro Q R E A) tr res ↔ tr = [] ∧ res = .error e := by
  constructor
  · intro h
    cases h
    exact ⟨rfl, rfl⟩
  · rintro ⟨rfl, rfl⟩
    exact .throw e

/-- The first request fails, or is answered. -/
theorem run_request_bind {q : Q} {f : R → Coro Q R E A} : Run (request q >>= f) tr res ↔
    (∃ e, tr = [(q, .error e)] ∧ res = .error e) ∨
      ∃ r tr', tr = (q, .ok r) :: tr' ∧ Run (f r) tr' res := by
  constructor
  · intro h
    cases h with
    | failed _ _ e => exact .inl ⟨e, rfl, rfl⟩
    | answered _ _ r h => exact .inr ⟨r, _, rfl, h⟩
  · rintro (⟨e, rfl, rfl⟩ | ⟨r, tr', rfl, h⟩)
    · exact .failed q _ e
    · exact .answered q _ r h

/-- A coroutine that succeeds has received no error. -/
theorem Run.ok_of_mem {a : A} (h : Run t tr (.ok a)) {p : Q × Except E R} (hp : p ∈ tr) :
    ∃ r, p.2 = .ok r := by
  generalize hres : (Except.ok a : Except E A) = res at h
  induction h with
  | ret | throw => cases hp
  | failed => cases hres
  | answered q k r h ih =>
    rcases List.mem_cons.mp hp with rfl | hp
    · exact ⟨r, rfl⟩
    · exact ih hp hres

theorem foldlM_request_cons {f : B → R → B} {id : Q} {ids : List Q} {b : B} :
    ((id :: ids).foldlM (fun b id => request id >>= fun r => ret (f b r)) b : Coro Q R E B) =
      request id >>= fun r => ids.foldlM (fun b id => request id >>= fun r => ret (f b r)) (f b r) :=
  rfl

/-- **A loop of requests** that succeeds has sent all of them, in order, and has folded the answers. -/
theorem run_foldlM_ok {f : B → R → B} {ids : List Q} {b b' : B} {tr : List (Q × Except E R)} :
    Run (ids.foldlM (fun b id => request id >>= fun r => ret (f b r)) b) tr (.ok b') ↔
      ∃ rs : List (Q × R), rs.map Prod.fst = ids ∧ tr = rs.map (fun p => (p.1, .ok p.2)) ∧
        b' = rs.foldl (fun b p => f b p.2) b := by
  induction ids generalizing b tr with
  | nil =>
    constructor
    · rintro ⟨-⟩
      exact ⟨[], rfl, rfl, rfl⟩
    · rintro ⟨rs, hrs, rfl, rfl⟩
      rw [List.map_eq_nil_iff.mp hrs]
      exact .ret b
  | cons id ids ih =>
    rw [foldlM_request_cons, run_request_bind]
    constructor
    · rintro (⟨e, -, he⟩ | ⟨r, tr', rfl, h⟩)
      · cases he
      · obtain ⟨rs, rfl, rfl, rfl⟩ := ih.mp h
        exact ⟨(id, r) :: rs, rfl, rfl, rfl⟩
    · rintro ⟨rs, hrs, rfl, rfl⟩
      cases rs with
      | nil => cases hrs
      | cons p rs =>
        obtain ⟨rfl, hids⟩ := List.cons.inj hrs
        exact .inr ⟨p.2, _, rfl, ih.mpr ⟨rs, hids, rfl, rfl⟩⟩

theorem run_foldlM_error {f : B → R → B} {ids : List Q} {b : B} {e : E}
    (h : Run (ids.foldlM (fun b id => request id >>= fun r => ret (f b r)) b) tr (.error e)) :
    ∃ p ∈ tr, ∃ e', p.2 = .error e' := by
  induction ids generalizing b tr with
  | nil => cases h
  | cons id ids ih =>
    rw [foldlM_request_cons] at h
    rcases run_request_bind.mp h with ⟨e', rfl, -⟩ | ⟨r, tr', rfl, hrest⟩
    · exact ⟨_, List.mem_cons_self, e', rfl⟩
    · obtain ⟨p, hp, he⟩ := ih hrest
      exact ⟨p, List.mem_cons_of_mem _ hp, he⟩

/-- The run against a server: the requests and its answers, and the result. -/
def against (server : Q → Except E R) : Coro Q R E A → List (Q × Except E R) × Except E A
  | ret a => ([], .ok a)
  | throw e => ([], .error e)
  | await q k =>
    match server q with
    | .ok r => ((q, .ok r) :: ((k r).against server).1, ((k r).against server).2)
    | .error e => ([(q, .error e)], .error e)

theorem run_against (server : Q → Except E R) (t : Coro Q R E A) :
    Run t (t.against server).1 (t.against server).2 := by
  induction t with
  | ret a => exact .ret a
  | throw e => exact .throw e
  | await q k ih =>
    rw [against]
    cases server q with
    | ok r => exact .answered q k r (ih r)
    | error e => exact .failed q k e

/-- These answers lead from `t` to what is left. -/
inductive Leads (t : Coro Q R E A) : List (Q × Except E R) → Coro Q R E A → Prop
  | refl : Leads t [] t
  | resume {tr : List (Q × Except E R)} {t' : Coro Q R E A} {q : Q} (h : Leads t tr t')
    (hq : t'.outstanding = some q) (x : Except E R) : Leads t (tr ++ [(q, x)]) (t'.resume x)

theorem Leads.run_append (h : Leads t tr t') {tr' : List (Q × Except E R)} (hrun : Run t' tr' res) :
    Run t (tr ++ tr') res := by
  induction h generalizing tr' with
  | refl => exact hrun
  | @resume tr t' q h hq x ih =>
    rw [List.append_assoc]
    refine ih ?_
    cases t' with
    | ret | throw => cases hq
    | await q' k =>
      cases hq
      cases x with
      | ok r => exact .answered q k r hrun
      | error e =>
        obtain ⟨rfl, rfl⟩ := run_throw.mp hrun
        exact .failed q k e

/-- A coroutine that has come to its value has run to it. -/
theorem Leads.run {a : A} (h : Leads t tr (ret a)) : Run t tr (.ok a) := by
  have hrun := h.run_append (.ret a)
  rwa [List.append_nil] at hrun

end Coro
