import TPC.Lib.Fold
import TPC.System.EventHandler

/-!
# Dispatch

`event_handler::invoke` with handlers that use the event handler while they run.

* `Script`: what a handler does; `State`, `access`: the table behind its mutex;
* `Script.run`, `call`, `invoke`: an invocation, with the invocations that its handlers make;
* `Does`: what scripts do to the table and to their data, without mutex and copies; `Does.table`;
* `Nests`, `CallsNest`: how deep invocations are nested in what scripts do;
* `invoke_does`: an invocation does what its specification says;
* `invoke_suffices`, `invoke_mono`: a bound above this depth suffices, and then it does not matter;
* `Dispatches`, **`dispatches`**: an invocation runs the handlers that it finds, each of them once.
-/

namespace TPC.System.Dispatch

open EventHandler (Op)

/-- What a handler does. It works on data of type `W`, which all handlers share, and calls the event
handler, whose arguments are of type `A`. -/
inductive Script (H A W : Type)
  | done
  | read (next : W → Script H A W)
  | write (change : W → W) (next : Script H A W)
  | subscribe (handler : H) (next : UInt64 → Script H A W)
  | unsubscribe (id : UInt64) (next : Script H A W)
  | release (next : Script H A W)
  | dispose (next : Script H A W)
  | invoke (args : A) (next : Script H A W)

/-- How a run can stop short. -/
inductive Stop
  /-- It waits for the mutex that it holds. -/
  | deadlock
  /-- The invocations are nested deeper than the given bound. -/
  | tooDeep

/-- The event handler and its mutex, and the data of the handlers. The order in which a table is enumerated
may differ from one invocation to the next: `started` numbers them. -/
structure State (H A W : Type) where
  table : EventHandler H
  locked : Bool
  world : W
  started : ℕ

variable {H A W : Type}

/-- `std::lock_guard`: the mutex is not recursive. -/
def State.lock (s : State H A W) : Except Stop (State H A W) :=
  if s.locked then .error .deadlock else .ok { s with locked := true }

/-- The end of its scope. -/
def State.unlock (s : State H A W) : State H A W := { s with locked := false }

/-- An operation, under the mutex. It returns the table that it has found. -/
def State.access (op : Op H) (s : State H A W) : Except Stop (EventHandler H × State H A W) := do
  let s ← s.lock
  return (s.table, State.unlock { s with table := (s.table.step op).1 })

/-- Run a script; `invoke` is what its calls of `invoke` do. -/
def Script.run (invoke : A → State H A W → Except Stop (State H A W)) :
    Script H A W → State H A W → Except Stop (State H A W)
  | .done, s => .ok s
  | .read next, s => (next s.world).run invoke s
  | .write change next, s => next.run invoke { s with world := change s.world }
  | .subscribe handler next, s => do
    let (found, s) ← s.access (.subscribe handler)
    (next (found.subscribe handler).1).run invoke s
  | .unsubscribe id next, s => do
    let (_, s) ← s.access (.unsubscribe id)
    next.run invoke s
  | .release next, s => do
    let (_, s) ← s.access .release
    next.run invoke s
  | .dispose next, s => do
    let (_, s) ← s.access .dispose
    next.run invoke s
  | .invoke args next, s => do
    let s ← invoke args s
    next.run invoke s

section

variable (behaviour : H → A → Script H A W) (order : ℕ → UnorderedMap.Enumeration UInt64 H)

/-- A handler is called. -/
def call (invoke : A → State H A W → Except Stop (State H A W)) (args : A) (s : State H A W) (handler : H) :
    Except Stop (State H A W) :=
  (behaviour handler args).run invoke s

/-- `event_handler::invoke`: the handlers are copied under the mutex, and called without it. -/
def invoke : ℕ → A → State H A W → Except Stop (State H A W)
  | 0, _, _ => .error .tooDeep
  | depth + 1, args, s => do
    let n := s.started
    let (found, s) ← State.access (.invoke (order n)) { s with started := n + 1 }
    (found.invoke (order n)).foldlM (call behaviour (invoke depth) args) s

end

/-! ## What is to be done -/

/-- What is left to a thread: the rest of a handler, or handlers to be called one after the other. -/
inductive Task (H A W : Type)
  | script (rest : Script H A W)
  | handlers (rest : List H) (args : A)

/-- The registered handlers, in some order. -/
def registered (table : EventHandler H) : List H := table.handlers.entries.map Sigma.snd

/-- The table that operations make of a table. -/
def applied (table : EventHandler H) (ops : List (Op H)) : EventHandler H :=
  ops.foldl (fun e op => (e.step op).1) table

/-- What a task does to the data and the table, with the operations of the handlers in their order. To invoke
the event handler is to run the handlers that are registered at this moment, each of them once. -/
inductive Does (behaviour : H → A → Script H A W) :
    Task H A W → W × EventHandler H → List (Op H) → W × EventHandler H → Prop
  | done (σ : W × EventHandler H) : Does behaviour (.script .done) σ [] σ
  | read (next : W → Script H A W) (w : W) (table : EventHandler H) {ops : List (Op H)} {σ : W × EventHandler H}
    (h : Does behaviour (.script (next w)) (w, table) ops σ) :
    Does behaviour (.script (.read next)) (w, table) ops σ
  | write (change : W → W) (next : Script H A W) (w : W) (table : EventHandler H) {ops : List (Op H)}
    {σ : W × EventHandler H} (h : Does behaviour (.script next) (change w, table) ops σ) :
    Does behaviour (.script (.write change next)) (w, table) ops σ
  | subscribe (handler : H) (next : UInt64 → Script H A W) (w : W) (table : EventHandler H) {ops : List (Op H)}
    {σ : W × EventHandler H}
    (h : Does behaviour (.script (next table.nextId)) (w, (table.subscribe handler).2) ops σ) :
    Does behaviour (.script (.subscribe handler next)) (w, table) (.subscribe handler :: ops) σ
  | unsubscribe (id : UInt64) (next : Script H A W) (w : W) (table : EventHandler H) {ops : List (Op H)}
    {σ : W × EventHandler H} (h : Does behaviour (.script next) (w, table.unsubscribe id) ops σ) :
    Does behaviour (.script (.unsubscribe id next)) (w, table) (.unsubscribe id :: ops) σ
  | release (next : Script H A W) (w : W) (table : EventHandler H) {ops : List (Op H)} {σ : W × EventHandler H}
    (h : Does behaviour (.script next) (w, table.release) ops σ) :
    Does behaviour (.script (.release next)) (w, table) (.release :: ops) σ
  | dispose (next : Script H A W) (w : W) (table : EventHandler H) {ops : List (Op H)} {σ : W × EventHandler H}
    (h : Does behaviour (.script next) (w, table.dispose) ops σ) :
    Does behaviour (.script (.dispose next)) (w, table) (.dispose :: ops) σ
  | invoke (args : A) (next : Script H A W) (handlers : List H) {σ σ' σ'' : W × EventHandler H}
    {ops ops' : List (Op H)} (hfound : handlers.Perm (registered σ.2))
    (hcalls : Does behaviour (.handlers handlers args) σ ops σ') (h : Does behaviour (.script next) σ' ops' σ'') :
    Does behaviour (.script (.invoke args next)) σ (ops ++ ops') σ''
  | nil (args : A) (σ : W × EventHandler H) : Does behaviour (.handlers [] args) σ [] σ
  | cons (handler : H) (handlers : List H) (args : A) {σ σ' σ'' : W × EventHandler H} {ops ops' : List (Op H)}
    (hcall : Does behaviour (.script (behaviour handler args)) σ ops σ')
    (h : Does behaviour (.handlers handlers args) σ' ops' σ'') :
    Does behaviour (.handlers (handler :: handlers) args) σ (ops ++ ops') σ''

variable {behaviour : H → A → Script H A W} {order : ℕ → UnorderedMap.Enumeration UInt64 H}
  {s s' : State H A W} {args : A}

theorem applied_append (table : EventHandler H) (ops ops' : List (Op H)) :
    applied table (ops ++ ops') = applied (applied table ops) ops' := List.foldl_append

/-- **The table is what the operations make of it**, one after another. -/
theorem Does.table {task : Task H A W} {σ σ' : W × EventHandler H} {ops : List (Op H)}
    (h : Does behaviour task σ ops σ') : σ'.2 = applied σ.2 ops := by
  induction h with
  | done | nil => rfl
  | read _ _ _ _ ih | write _ _ _ _ _ ih => exact ih
  | subscribe _ _ _ _ _ ih | unsubscribe _ _ _ _ _ ih | release _ _ _ _ ih | dispose _ _ _ _ ih => exact ih
  | invoke _ _ _ _ _ _ ihcalls ih | cons _ _ _ _ _ ihcalls ih => rw [ih, ihcalls, applied_append]

/-- A task invokes the event handler from handlers, and these again, at most so deep. -/
inductive Nests (behaviour : H → A → Script H A W) : ℕ → Task H A W → W × EventHandler H → Prop
  | done (depth : ℕ) (σ : W × EventHandler H) : Nests behaviour depth (.script .done) σ
  | read (next : W → Script H A W) {depth : ℕ} {σ : W × EventHandler H}
    (h : Nests behaviour depth (.script (next σ.1)) σ) : Nests behaviour depth (.script (.read next)) σ
  | write (change : W → W) (next : Script H A W) {depth : ℕ} {σ : W × EventHandler H}
    (h : Nests behaviour depth (.script next) (change σ.1, σ.2)) :
    Nests behaviour depth (.script (.write change next)) σ
  | subscribe (handler : H) (next : UInt64 → Script H A W) {depth : ℕ} {σ : W × EventHandler H}
    (h : Nests behaviour depth (.script (next σ.2.nextId)) (σ.1, (σ.2.subscribe handler).2)) :
    Nests behaviour depth (.script (.subscribe handler next)) σ
  | unsubscribe (id : UInt64) (next : Script H A W) {depth : ℕ} {σ : W × EventHandler H}
    (h : Nests behaviour depth (.script next) (σ.1, σ.2.unsubscribe id)) :
    Nests behaviour depth (.script (.unsubscribe id next)) σ
  | release (next : Script H A W) {depth : ℕ} {σ : W × EventHandler H}
    (h : Nests behaviour depth (.script next) (σ.1, σ.2.release)) :
    Nests behaviour depth (.script (.release next)) σ
  | dispose (next : Script H A W) {depth : ℕ} {σ : W × EventHandler H}
    (h : Nests behaviour depth (.script next) (σ.1, σ.2.dispose)) :
    Nests behaviour depth (.script (.dispose next)) σ
  /-- The handlers that are found may be called in any order. -/
  | invoke (args : A) (next : Script H A W) {depth : ℕ} {σ : W × EventHandler H}
    (hcalls : ∀ handlers : List H, handlers.Perm (registered σ.2) →
      Nests behaviour depth (.handlers handlers args) σ)
    (h : ∀ (handlers : List H) (ops : List (Op H)) (σ' : W × EventHandler H), handlers.Perm (registered σ.2) →
      Does behaviour (.handlers handlers args) σ ops σ' → Nests behaviour (depth + 1) (.script next) σ') :
    Nests behaviour (depth + 1) (.script (.invoke args next)) σ
  | nil (args : A) (depth : ℕ) (σ : W × EventHandler H) : Nests behaviour depth (.handlers [] args) σ
  | cons (handler : H) (handlers : List H) (args : A) {depth : ℕ} {σ : W × EventHandler H}
    (hcall : Nests behaviour depth (.script (behaviour handler args)) σ)
    (h : ∀ (ops : List (Op H)) (σ' : W × EventHandler H), Does behaviour (.script (behaviour handler args)) σ ops σ' →
      Nests behaviour depth (.handlers handlers args) σ') :
    Nests behaviour depth (.handlers (handler :: handlers) args) σ

/-- The handlers that an invocation from `s` finds nest invocations at most so deep. -/
def CallsNest (behaviour : H → A → Script H A W) (depth : ℕ) (args : A) (s : State H A W) : Prop :=
  ∀ handlers : List H, handlers.Perm (registered s.table) →
    Nests behaviour depth (.handlers handlers args) (s.world, s.table)

/-! ## What is done -/

/-- The data and the table. -/
def State.view (s : State H A W) : W × EventHandler H := (s.world, s.table)

/-- The run ends with such a state, unless it is nested too deep. -/
def Ends (P : State H A W → Prop) (r : Except Stop (State H A W)) : Prop :=
  match r with
  | .ok s => P s
  | .error e => e = .tooDeep

theorem Ends.bind {P Q : State H A W → Prop} {r : Except Stop (State H A W)}
    {f : State H A W → Except Stop (State H A W)} (h : Ends P r) (hf : ∀ s, P s → Ends Q (f s)) :
    Ends Q (r >>= f) := by
  cases r with
  | ok s => exact hf s h
  | error e => exact h

theorem Ends.imp {P Q : State H A W → Prop} {r : Except Stop (State H A W)} (h : Ends P r)
    (hPQ : ∀ s, P s → Q s) : Ends Q r := by
  cases r with
  | ok s => exact hPQ s h
  | error e => exact h

/-- The mutex is free again, and the task is done. -/
structure Completes (behaviour : H → A → Script H A W) (task : Task H A W) (s s' : State H A W) : Prop where
  unlocked : s'.locked = false
  does : ∃ ops, Does behaviour task s.view ops s'.view

theorem access_eq (hs : s.locked = false) (op : Op H) :
    s.access op = .ok (s.table, { s with table := (s.table.step op).1, locked := false }) := by
  unfold State.access State.lock
  rw [hs]
  rfl

/-- An invocation runs the handlers that it finds. -/
def Invokes (behaviour : H → A → Script H A W) (invoke : A → State H A W → Except Stop (State H A W)) : Prop :=
  ∀ args s, s.locked = false → Ends (fun s' => ∃ handlers : List H, handlers.Perm (registered s.table) ∧
    Completes behaviour (.handlers handlers args) s s') (invoke args s)

/-- **The run of a handler.** -/
theorem completes_run {invoke : A → State H A W → Except Stop (State H A W)} (hinvoke : Invokes behaviour invoke)
    (script : Script H A W) (hs : s.locked = false) :
    Ends (Completes behaviour (.script script) s) (script.run invoke s) := by
  induction script generalizing s with
  | done => exact ⟨hs, [], .done _⟩
  | read next ih =>
    refine (ih s.world hs).imp fun s' h => ?_
    obtain ⟨ops, hdoes⟩ := h.does
    exact ⟨h.unlocked, ops, .read _ _ _ hdoes⟩
  | write change next ih =>
    refine (ih (s := { s with world := change s.world }) hs).imp fun s' h => ?_
    obtain ⟨ops, hdoes⟩ := h.does
    exact ⟨h.unlocked, ops, .write _ _ _ _ hdoes⟩
  | subscribe handler next ih =>
    rw [Script.run, access_eq hs]
    refine Ends.imp (ih _ rfl) fun s' h => ?_
    obtain ⟨ops, hdoes⟩ := h.does
    exact ⟨h.unlocked, _, .subscribe _ _ _ _ hdoes⟩
  | unsubscribe id next ih =>
    rw [Script.run, access_eq hs]
    refine Ends.imp (ih rfl) fun s' h => ?_
    obtain ⟨ops, hdoes⟩ := h.does
    exact ⟨h.unlocked, _, .unsubscribe _ _ _ _ hdoes⟩
  | release next ih =>
    rw [Script.run, access_eq hs]
    refine Ends.imp (ih rfl) fun s' h => ?_
    obtain ⟨ops, hdoes⟩ := h.does
    exact ⟨h.unlocked, _, .release _ _ _ hdoes⟩
  | dispose next ih =>
    rw [Script.run, access_eq hs]
    refine Ends.imp (ih rfl) fun s' h => ?_
    obtain ⟨ops, hdoes⟩ := h.does
    exact ⟨h.unlocked, _, .dispose _ _ _ hdoes⟩
  | invoke args next ih =>
    rw [Script.run]
    refine (hinvoke args s hs).bind fun s' h => ?_
    obtain ⟨handlers, hfound, hunlocked, ops, hcalls⟩ := h
    refine (ih hunlocked).imp fun s'' h => ?_
    obtain ⟨ops', hdoes⟩ := h.does
    exact ⟨h.unlocked, _, .invoke args next handlers hfound hcalls hdoes⟩

/-- **The calls of the handlers**, one after the other. -/
theorem completes_calls {invoke : A → State H A W → Except Stop (State H A W)}
    (hinvoke : Invokes behaviour invoke) (handlers : List H) (hs : s.locked = false) :
    Ends (Completes behaviour (.handlers handlers args) s) (handlers.foldlM (call behaviour invoke args) s) := by
  induction handlers generalizing s with
  | nil => exact ⟨hs, [], .nil args _⟩
  | cons handler handlers ih =>
    rw [List.foldlM_cons]
    refine (completes_run hinvoke _ hs).bind fun s' h => ?_
    obtain ⟨ops, hcall⟩ := h.does
    refine (ih h.unlocked).imp fun s'' h' => ?_
    obtain ⟨ops', hdoes⟩ := h'.does
    exact ⟨h'.unlocked, _, .cons _ _ _ hcall hdoes⟩

/-- **An invocation runs the handlers that it finds**, at any depth. -/
theorem invoke_does (behaviour : H → A → Script H A W) (order : ℕ → UnorderedMap.Enumeration UInt64 H)
    (depth : ℕ) : Invokes behaviour (invoke behaviour order depth) := by
  induction depth with
  | zero => exact fun _ _ _ => rfl
  | succ depth ih =>
    intro args s hs
    rw [invoke, access_eq (s := { s with started := s.started + 1 }) hs]
    refine Ends.imp (completes_calls ih _ rfl) fun s' h => ⟨_, ?_, h.unlocked, h.does⟩
    exact ((order s.started).perm _).map _

/-! ## The depth -/

/-- An invocation is not stopped if its handlers nest less deep than this. -/
def Suffices (behaviour : H → A → Script H A W) (invoke : A → State H A W → Except Stop (State H A W))
    (depth : ℕ) : Prop :=
  ∀ args s d, s.locked = false → d < depth → CallsNest behaviour d args s → ∃ s', invoke args s = .ok s'

theorem Ends.exists_ok {P : State H A W → Prop} {r : Except Stop (State H A W)} (h : Ends P r)
    (hr : ∃ s', r = .ok s') : ∃ s', r = .ok s' ∧ P s' := by
  obtain ⟨s', rfl⟩ := hr
  exact ⟨s', rfl, h⟩

/-- **A handler that nests no deeper is not stopped.** -/
theorem exists_run {invoke : A → State H A W → Except Stop (State H A W)} {depth : ℕ}
    (hinvoke : Invokes behaviour invoke) (hdepth : Suffices behaviour invoke depth) (script : Script H A W)
    (hs : s.locked = false) (hn : Nests behaviour depth (.script script) s.view) :
    ∃ s', script.run invoke s = .ok s' := by
  induction script generalizing s with
  | done => exact ⟨s, rfl⟩
  | read next ih =>
    cases hn with
    | read _ h => exact ih s.world hs h
  | write change next ih =>
    cases hn with
    | write _ _ h => exact ih (s := { s with world := change s.world }) hs h
  | subscribe handler next ih =>
    cases hn with
    | subscribe _ _ h =>
      rw [Script.run, access_eq hs]
      exact ih _ rfl h
  | unsubscribe id next ih =>
    cases hn with
    | unsubscribe _ _ h =>
      rw [Script.run, access_eq hs]
      exact ih rfl h
  | release next ih =>
    cases hn with
    | release _ h =>
      rw [Script.run, access_eq hs]
      exact ih rfl h
  | dispose next ih =>
    cases hn with
    | dispose _ h =>
      rw [Script.run, access_eq hs]
      exact ih rfl h
  | invoke args next ih =>
    cases hn with
    | invoke _ _ hcalls h =>
      obtain ⟨s', hr, handlers, hfound, hunlocked, ops, hdoes⟩ :=
        (hinvoke args s hs).exists_ok (hdepth args s _ hs (Nat.lt_succ_self _) hcalls)
      rw [Script.run, hr]
      exact ih hunlocked (h handlers ops s'.view hfound hdoes)

/-- **Nor are the calls of such handlers.** -/
theorem exists_calls {invoke : A → State H A W → Except Stop (State H A W)} {depth : ℕ}
    (hinvoke : Invokes behaviour invoke) (hdepth : Suffices behaviour invoke depth) (handlers : List H)
    (hs : s.locked = false) (hn : Nests behaviour depth (.handlers handlers args) s.view) :
    ∃ s', handlers.foldlM (call behaviour invoke args) s = .ok s' := by
  induction handlers generalizing s with
  | nil => exact ⟨s, rfl⟩
  | cons handler handlers ih =>
    cases hn with
    | cons _ _ _ hcall h =>
      obtain ⟨s', hr, hunlocked, ops, hdoes⟩ :=
        (completes_run hinvoke _ hs).exists_ok (exists_run hinvoke hdepth _ hs hcall)
      rw [List.foldlM_cons, call, hr]
      exact ih hunlocked (h ops s'.view hdoes)

/-- **An invocation ends** when the bound is above the depth to which its handlers nest. -/
theorem invoke_suffices (behaviour : H → A → Script H A W) (order : ℕ → UnorderedMap.Enumeration UInt64 H)
    (depth : ℕ) : Suffices behaviour (invoke behaviour order depth) depth := by
  induction depth with
  | zero => nofun
  | succ depth ih =>
    intro args s d hs hd hn
    rw [invoke, access_eq (s := { s with started := s.started + 1 }) hs]
    have hinner : Suffices behaviour (invoke behaviour order depth) d := fun args s e hs he hn =>
      ih args s e hs (he.trans_le (Nat.le_of_lt_succ hd)) hn
    exact exists_calls (invoke_does behaviour order depth) hinner _ rfl
      (hn _ (((order s.started).perm _).map _))

/-- The second succeeds where the first does. -/
def Below (f g : A → State H A W → Except Stop (State H A W)) : Prop :=
  ∀ args s s', f args s = .ok s' → g args s = .ok s'

theorem run_mono {f g : A → State H A W → Except Stop (State H A W)} (h : Below f g)
    (script : Script H A W) {s s' : State H A W} (hr : script.run f s = .ok s') :
    script.run g s = .ok s' := by
  induction script generalizing s with
  | done => exact hr
  | read next ih => exact ih s.world hr
  | write change next ih => exact ih hr
  | subscribe handler next ih =>
    obtain ⟨a, ha, hr⟩ := Fold.bind_eq_ok.mp hr
    exact Fold.bind_eq_ok.mpr ⟨a, ha, ih _ hr⟩
  | unsubscribe id next ih | release next ih | dispose next ih =>
    obtain ⟨a, ha, hr⟩ := Fold.bind_eq_ok.mp hr
    exact Fold.bind_eq_ok.mpr ⟨a, ha, ih hr⟩
  | invoke args next ih =>
    obtain ⟨s₁, h₁, hr⟩ := Fold.bind_eq_ok.mp hr
    exact Fold.bind_eq_ok.mpr ⟨s₁, h _ _ _ h₁, ih hr⟩

/-- **A deeper nesting than the run needs changes nothing.** -/
theorem invoke_mono {d d' : ℕ} (hd : d ≤ d') :
    Below (invoke behaviour order d) (invoke behaviour order d') := by
  induction d generalizing d' with
  | zero => nofun
  | succ d ih =>
    intro args s s' hr
    obtain ⟨d', rfl⟩ := Nat.exists_eq_add_of_le' hd
    have hle : d ≤ d' + d := Nat.le_add_left d d'
    rw [show d' + (d + 1) = (d' + d) + 1 from rfl, invoke]
    obtain ⟨a, ha, hr⟩ := Fold.bind_eq_ok.mp hr
    refine Fold.bind_eq_ok.mpr ⟨a, ha, Fold.foldlM_mono (fun s handler s' h => ?_) hr⟩
    exact run_mono (ih hle) _ h

/-- What an `invoke` with `args` does between `s` and `s'`. -/
structure Dispatches (behaviour : H → A → Script H A W) (args : A) (s s' : State H A W) : Prop where
  /-- It runs the handlers that are registered when it begins, each of them once, with the arguments, and no
  other; and the table is what the operations of these runs make of it, one after another. -/
  runs : ∃ (handlers : List H) (ops : List (Op H)), handlers.Perm (registered s.table) ∧
    Does behaviour (.handlers handlers args) (s.world, s.table) ops (s'.world, s'.table) ∧
      s'.table = applied s.table ops
  /-- The mutex is free. -/
  unlocked : s'.locked = false

/-- **Dispatch is a snapshot.** An invocation from a state in which the mutex is free never waits for it;
it ends when its handlers nest invocations to a finite depth; and when it has ended within some bound, it has
run the handlers that it has found. -/
theorem dispatches (behaviour : H → A → Script H A W)
    (order : ℕ → UnorderedMap.Enumeration UInt64 H) (args : A) {s : State H A W}
    (hs : s.locked = false) :
    (∀ depth, invoke behaviour order depth args s ≠ .error .deadlock) ∧
      (∀ depth, CallsNest behaviour depth args s →
        invoke behaviour order (depth + 1) args s ≠ .error .tooDeep) ∧
      ∀ depth, invoke behaviour order depth args s ≠ .error .tooDeep →
        ∃ s', Dispatches behaviour args s s' ∧
          ∀ d, depth ≤ d → invoke behaviour order d args s = .ok s' := by
  refine ⟨fun depth he => ?_, fun depth hn he => ?_, fun depth hdeep => ?_⟩
  · have h := invoke_does behaviour order depth args s hs
    rw [he] at h
    cases h
  · obtain ⟨s', hr⟩ := invoke_suffices behaviour order (depth + 1) args s depth hs (Nat.lt_succ_self depth) hn
    rw [he] at hr
    cases hr
  · have h := invoke_does behaviour order depth args s hs
    cases hr : invoke behaviour order depth args s with
    | error e =>
      rw [hr] at h hdeep
      exact absurd (congrArg Except.error h) hdeep
    | ok s' =>
      rw [hr] at h
      obtain ⟨handlers, hfound, hunlocked, ops, hdoes⟩ := h
      exact ⟨s', ⟨⟨handlers, ops, hfound, hdoes, hdoes.table⟩, hunlocked⟩, fun d hd => invoke_mono hd args s s' hr⟩

/-- `dispatches` for a handler that invokes the event handler again, subscribes there, and unsubscribes. -/
theorem dispatches_nested : ∃ (behaviour : Bool → ℕ → Script Bool ℕ Unit)
    (order : ℕ → UnorderedMap.Enumeration UInt64 Bool) (s : State Bool ℕ Unit),
    s.locked = false ∧ CallsNest behaviour 1 1 s ∧
      ∃ s', Dispatches behaviour 1 s s' ∧ ∀ d, 2 ≤ d → invoke behaviour order d 1 s = .ok s' := by
  let behaviour : Bool → ℕ → Script Bool ℕ Unit := fun handler args =>
    if args = 0 then .subscribe (!handler) fun _ => .done else .invoke 0 (.unsubscribe 1 .done)
  let s : State Bool ℕ Unit := ⟨⟨2, AList.insert 1 true ∅⟩, false, (), 0⟩
  have hinner : ∀ (handlers : List Bool) (σ : Unit × EventHandler Bool),
      Nests behaviour 0 (.handlers handlers 0) σ := by
    intro handlers
    induction handlers with
    | nil => exact fun σ => .nil 0 0 σ
    | cons handler handlers ih =>
      exact fun σ => .cons handler handlers 0 (.subscribe _ _ (.done _ _)) fun _ σ' _ => ih σ'
  have hn : CallsNest behaviour 1 1 s := by
    intro handlers hfound
    obtain rfl : handlers = [true] := List.perm_singleton.mp hfound
    refine .cons true [] 1 (.invoke 0 _ (fun handlers _ => hinner handlers _) fun _ _ σ' _ _ => ?_) fun _ _ _ => .nil _ _ _
    exact .unsubscribe 1 _ (.done _ _)
  have h := dispatches behaviour (fun _ => ⟨AList.entries, fun _ => .refl _⟩) 1 (s := s) rfl
  exact ⟨behaviour, _, s, rfl, hn, h.2.2 2 (h.2.1 1 hn)⟩

end TPC.System.Dispatch
