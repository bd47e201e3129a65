import Mathlib

/-!
# Programs of atomic steps

The code of one thread over a shared state, cut at the points where another thread can see the
state: every read and every write is one step. A program may leave by a result or by an exit `E`
(an exception, an early error return), holds its locks in scopes, and meets choices that the
environment makes (an allocation that succeeds or not).

* `Prog`, its monad, `get`, `modify`, `withLock`, `attempt`, `each`; `within`: a program on a part of the state;
* `Step`, `Reaches`, `Returns`, `Exits`: the runs of one program;
* `wp G Q X`: every write is in the guarantee `G`, results satisfy `Q`, exits `X`; `wp_bind`,
  `wp_each`;
* `wp_step`, **`wp_reaches`**, `wp_invariant`, `wp_ended`: `wp` bounds every run, step by step;
* `exec`: the run in which every choice is granted; `exec_returns`, `exec_exits`; `exec_each`, `exec_each_error`;
* `Granted Q`: that run returns, with a result in `Q`; `granted_bind`, `granted_each`.
-/

/-- A program over states `S`, exits `E`, locks `L` and results `A`. -/
inductive Prog (S E L A : Type) : Type
  | ret (a : A)
  | throw (e : E)
  | diverge
  | read (next : S → Prog S E L A)
  | write (f : S → S) (next : Prog S E L A)
  | choose (next : Bool → Prog S E L A)
  | acquire (l : L) (next : Prog S E L A)
  | release (l : L) (next : Prog S E L A)

namespace Prog

variable {S E E' L A B : Type}

/-- Sequencing: an exit skips the rest. -/
def bind : Prog S E L A → (A → Prog S E L B) → Prog S E L B
  | ret a, g => g a
  | throw e, _ => throw e
  | diverge, _ => diverge
  | read k, g => read fun s => bind (k s) g
  | write f k, g => write f (bind k g)
  | choose k, g => choose fun b => bind (k b) g
  | acquire l k, g => acquire l (bind k g)
  | release l k, g => release l (bind k g)

instance : Monad (Prog S E L) where
  pure := ret
  bind := bind

/-- The current state. -/
def get : Prog S E L S := read ret

/-- One atomic update. -/
def modify (f : S → S) : Prog S E L Unit := write f (ret ())

/-- The result of a pure computation that may exit. -/
def ofExcept : Except E A → Prog S E L A
  | .ok a => ret a
  | .error e => throw e

/-- Release `l` on every way out. -/
def releasing (l : L) : Prog S E L A → Prog S E L A
  | ret a => release l (ret a)
  | throw e => release l (throw e)
  | diverge => diverge
  | read k => read fun s => releasing l (k s)
  | write f k => write f (releasing l k)
  | choose k => choose fun b => releasing l (k b)
  | acquire l' k => acquire l' (releasing l k)
  | release l' k => release l' (releasing l k)

/-- A scoped lock: acquired here, released on every way out of `p`. -/
def withLock (l : L) (p : Prog S E L A) : Prog S E L A := acquire l (releasing l p)

/-- Run `p` and hand its exit to the caller as a value. -/
def attempt : Prog S E L A → Prog S E' L (Except E A)
  | ret a => ret (.ok a)
  | throw e => ret (.error e)
  | diverge => diverge
  | read k => read fun s => attempt (k s)
  | write f k => write f (attempt k)
  | choose k => choose fun b => attempt (k b)
  | acquire l k => acquire l (attempt k)
  | release l k => release l (attempt k)

/-- A program without locks on a part of the state: `view` is the part, `update` writes to it. -/
def within {T : Type} (view : S → T) (update : (T → T) → S → S) : Prog T E Empty A → Prog S E L A
  | ret a => ret a
  | throw e => throw e
  | diverge => diverge
  | read k => read fun s => within view update (k (view s))
  | write f k => write (update f) (within view update k)
  | choose k => choose fun b => within view update (k b)
  | acquire l _ | release l _ => l.elim

/-- Run `body` on every element, in order. -/
def each (body : A → Prog S E L Unit) : List A → Prog S E L Unit
  | [] => ret ()
  | a :: l => bind (body a) fun _ => each body l

/-! ## Runs -/

/-- One atomic step of a program that runs alone. -/
inductive Step : Prog S E L A × S → Prog S E L A × S → Prop
  | read (k : S → Prog S E L A) (s : S) : Step (read k, s) (k s, s)
  | write (f : S → S) (k : Prog S E L A) (s : S) : Step (write f k, s) (k, f s)
  | choose (k : Bool → Prog S E L A) (b : Bool) (s : S) : Step (choose k, s) (k b, s)
  | acquire (l : L) (k : Prog S E L A) (s : S) : Step (acquire l k, s) (k, s)
  | release (l : L) (k : Prog S E L A) (s : S) : Step (release l k, s) (k, s)

/-- A finite run. -/
def Reaches (p : Prog S E L A) (s : S) (p' : Prog S E L A) (s' : S) : Prop :=
  Relation.ReflTransGen Step (p, s) (p', s')

/-- Some run of `p` from `s` ends in `s'` with result `a`. -/
def Returns (p : Prog S E L A) (s : S) (a : A) (s' : S) : Prop := Reaches p s (ret a) s'

/-- Some run of `p` from `s` leaves by the exit `e` in `s'`. -/
def Exits (p : Prog S E L A) (s : S) (e : E) (s' : S) : Prop := Reaches p s (throw e) s'

/-- The program left when a run has ended. -/
def ended : Except E A → Prog S E L A
  | .ok a => ret a
  | .error e => throw e

/-- A run of the first part of a program, -/
theorem Reaches.bind {p p' : Prog S E L A} {s s' : S} (h : Reaches p s p' s') (g : A → Prog S E L B) :
    Reaches (p >>= g) s (p' >>= g) s' := by
  have hlift : Relation.ReflTransGen Step (p >>= g, s) (p' >>= g, s') := by
    refine Relation.ReflTransGen.lift (fun c : Prog S E L A × S => (c.1 >>= g, c.2)) (fun c c' hs => ?_) _ _ h
    cases hs with
    | read k s => exact .read _ s
    | write f k s => exact .write f _ s
    | choose k b s => exact .choose _ b s
    | acquire l k s => exact .acquire l _ s
    | release l k s => exact .release l _ s
  exact hlift

/-- and of a program whose exits are caught. -/
theorem Reaches.attempt {p p' : Prog S E L A} {s s' : S} (h : Reaches p s p' s') :
    Reaches (Prog.attempt p : Prog S E' L (Except E A)) s (Prog.attempt p') s' := by
  refine Relation.ReflTransGen.lift
    (fun c : Prog S E L A × S => ((Prog.attempt c.1 : Prog S E' L (Except E A)), c.2)) (fun c c' hs => ?_) _ _ h
  cases hs with
  | read k s => exact .read _ s
  | write f k s => exact .write f _ s
  | choose k b s => exact .choose _ b s
  | acquire l k s => exact .acquire l _ s
  | release l k s => exact .release l _ s

theorem reaches_get_bind {g : S → Prog S E L A} {s s' : S} {r : Except E A} :
    Reaches (get >>= g) s (ended r) s' ↔ Reaches (g s) s (ended r) s' := by
  refine ⟨fun h => ?_, .head (.read _ s)⟩
  rcases Relation.ReflTransGen.cases_head h with he | ⟨c, hstep, hrest⟩
  · cases r <;> cases he
  · cases hstep
    exact hrest

/-! ## Weakest preconditions -/

section WP

variable (G : S → S → Prop) (Q : A → S → Prop) (X : E → S → Prop)

/-- Every write takes the state to one that `G` relates to it, results satisfy `Q`, exits satisfy
`X`, whatever is chosen. -/
def wp : Prog S E L A → S → Prop
  | ret a, s => Q a s
  | throw e, s => X e s
  | diverge, _ => True
  | read k, s => wp (k s) s
  | write f k, s => G s (f s) ∧ wp k (f s)
  | choose k, s => ∀ b, wp (k b) s
  | acquire _ k, s => wp k s
  | release _ k, s => wp k s

variable {G Q X}

@[simp] theorem wp_ret (a : A) (s : S) : wp G Q X (ret a : Prog S E L A) s ↔ Q a s := Iff.rfl

@[simp] theorem wp_pure (a : A) (s : S) : wp G Q X (pure a : Prog S E L A) s ↔ Q a s := Iff.rfl

@[simp] theorem wp_throw (e : E) (s : S) : wp G Q X (throw e : Prog S E L A) s ↔ X e s := Iff.rfl

@[simp] theorem wp_diverge (s : S) : wp G Q X (diverge : Prog S E L A) s ↔ True := Iff.rfl

@[simp] theorem wp_choose (k : Bool → Prog S E L A) (s : S) :
    wp G Q X (choose k) s ↔ ∀ b, wp G Q X (k b) s := Iff.rfl

@[simp] theorem wp_get {Q : S → S → Prop} (s : S) : wp G Q X (get : Prog S E L S) s ↔ Q s s := Iff.rfl

@[simp] theorem wp_modify {Q : Unit → S → Prop} (f : S → S) (s : S) :
    wp G Q X (modify f : Prog S E L Unit) s ↔ G s (f s) ∧ Q () (f s) := Iff.rfl

theorem wp_bind' {Q : B → S → Prop} (p : Prog S E L A) (g : A → Prog S E L B) (s : S) :
    wp G Q X (bind p g) s ↔ wp G (fun a => wp G Q X (g a)) X p s := by
  induction p generalizing s with
  | ret | throw | diverge => rfl
  | read k ih => exact ih s s
  | write f k ih => exact and_congr_right fun _ => ih (f s)
  | choose k ih => exact forall_congr' fun b => ih b s
  | acquire l k ih => exact ih s
  | release l k ih => exact ih s

@[simp] theorem wp_bind {Q : B → S → Prop} (p : Prog S E L A) (g : A → Prog S E L B) (s : S) :
    wp G Q X (p >>= g) s ↔ wp G (fun a => wp G Q X (g a)) X p s := wp_bind' p g s

@[simp] theorem wp_ofExcept (c : Except E A) (s : S) : wp G Q X (ofExcept c : Prog S E L A) s ↔
    (∀ a, c = .ok a → Q a s) ∧ ∀ e, c = .error e → X e s := by
  cases c <;> simp [ofExcept]

@[simp] theorem wp_releasing (l : L) (p : Prog S E L A) (s : S) :
    wp G Q X (releasing l p) s ↔ wp G Q X p s := by
  induction p generalizing s with
  | ret | throw | diverge => rfl
  | read k ih => exact ih s s
  | write f k ih => exact and_congr_right fun _ => ih (f s)
  | choose k ih => exact forall_congr' fun b => ih b s
  | acquire l' k ih => exact ih s
  | release l' k ih => exact ih s

@[simp] theorem wp_withLock (l : L) (p : Prog S E L A) (s : S) :
    wp G Q X (withLock l p) s ↔ wp G Q X p s := wp_releasing l p s

@[simp] theorem wp_attempt {Q : Except E A → S → Prop} {X : E' → S → Prop} (p : Prog S E L A) (s : S) :
    wp G Q X (attempt p : Prog S E' L (Except E A)) s ↔
      wp G (fun a => Q (.ok a)) (fun e => Q (.error e)) p s := by
  induction p generalizing s with
  | ret | throw | diverge => rfl
  | read k ih => exact ih s s
  | write f k ih => exact and_congr_right fun _ => ih (f s)
  | choose k ih => exact forall_congr' fun b => ih b s
  | acquire l k ih => exact ih s
  | release l k ih => exact ih s

/-- `D` is the state with this part. -/
theorem wp_within {T : Type} {view : S → T} {update : (T → T) → S → S} {D : T → S} (hview : ∀ t, view (D t) = t)
    (hupdate : ∀ f t, update f (D t) = D (f t)) (p : Prog T E Empty A) (t : T) :
    wp G Q X (within view update p : Prog S E L A) (D t) ↔
      wp (fun t t' => G (D t) (D t')) (fun a t => Q a (D t)) (fun e t => X e (D t)) p t := by
  induction p generalizing t with
  | ret | throw | diverge => rfl
  | read k ih =>
    show wp G Q X (within view update (k (view (D t)))) (D t) ↔ _
    rw [hview]
    exact ih t t
  | write f k ih =>
    show G (D t) (update f (D t)) ∧ wp G Q X (within view update k) (update f (D t)) ↔ _
    rw [hupdate]
    exact and_congr_right fun _ => ih (f t)
  | choose k ih => exact forall_congr' fun b => ih b t
  | acquire l | release l => exact l.elim

theorem wp_mono {G' : S → S → Prop} {Q' : A → S → Prop} {X' : E → S → Prop}
    (hG : ∀ s s', G s s' → G' s s')
    (hQ : ∀ a s, Q a s → Q' a s) (hX : ∀ e s, X e s → X' e s) (p : Prog S E L A) (s : S)
    (h : wp G Q X p s) : wp G' Q' X' p s := by
  induction p generalizing s with
  | ret a => exact hQ a s h
  | throw e => exact hX e s h
  | diverge => trivial
  | read k ih => exact ih s s h
  | write f k ih => exact ⟨hG _ _ h.1, ih (f s) h.2⟩
  | choose k ih => exact fun b => ih b s (h b)
  | acquire l k ih => exact ih s h
  | release l k ih => exact ih s h

/-- **The loop rule**: `Inv done` holds when the elements `done` have been treated. -/
theorem wp_each {Q : Unit → S → Prop} (Inv : List A → S → Prop) {body : A → Prog S E L Unit}
    {l : List A} {s : S}
    (hbody : ∀ done a rest s, l = done ++ a :: rest → Inv done s →
      wp G (fun _ => Inv (done ++ [a])) X (body a) s)
    (h0 : Inv [] s) (hend : ∀ s, Inv l s → Q () s) : wp G Q X (each body l) s := by
  suffices ∀ (todo done : List A) (s : S), l = done ++ todo → Inv done s →
      wp G Q X (each body todo) s from this l [] s rfl h0
  intro todo
  induction todo with
  | nil =>
    intro done s hl h
    rw [List.append_nil] at hl
    exact hend s (hl ▸ h)
  | cons a todo ih =>
    intro done s hl h
    rw [each, wp_bind']
    refine wp_mono (fun _ _ h => h) (fun _ s' h' => ?_) (fun _ _ h => h) _ _
      (hbody done a todo s hl h)
    exact ih (done ++ [a]) s' (by simp [hl]) h'

/-! ## Soundness -/

/-- **One step**: the state stays, or changes within the guarantee. -/
theorem wp_step {c c' : Prog S E L A × S} (h : Step c c') (hw : wp G Q X c.1 c.2) :
    (c'.2 = c.2 ∨ G c.2 c'.2) ∧ wp G Q X c'.1 c'.2 := by
  cases h with
  | read k s => exact ⟨.inl rfl, hw⟩
  | write f k s => exact ⟨.inr hw.1, hw.2⟩
  | choose k b s => exact ⟨.inl rfl, hw b⟩
  | acquire l k s => exact ⟨.inl rfl, hw⟩
  | release l k s => exact ⟨.inl rfl, hw⟩

/-- **A precondition bounds every run**, wherever it has come to. -/
theorem wp_reaches {p p' : Prog S E L A} {s s' : S} (h : Reaches p s p' s') (hw : wp G Q X p s) :
    wp G Q X p' s' := by
  suffices ∀ c : Prog S E L A × S, Relation.ReflTransGen Step (p, s) c → wp G Q X c.1 c.2
    from this _ h
  intro c hc
  induction hc with
  | refl => exact hw
  | tail _ hstep ih => exact (wp_step hstep ih).2

/-- What the guarantee keeps holds wherever a run has come to. -/
theorem wp_invariant {I : S → Prop} (hG : ∀ s s', G s s' → I s → I s') {p p' : Prog S E L A}
    {s s' : S} (h : Reaches p s p' s') (hw : wp G Q X p s) (hs : I s) : I s' := by
  suffices ∀ c : Prog S E L A × S, Relation.ReflTransGen Step (p, s) c → I c.2 from this _ h
  intro c hc
  induction hc with
  | refl => exact hs
  | tail hrun hstep ih =>
    rcases (wp_step hstep (wp_reaches hrun hw)).1 with he | hg
    · rw [he]
      exact ih
    · exact hG _ _ hg ih

theorem wp_returns {p : Prog S E L A} {s s' : S} {a : A} (h : Returns p s a s')
    (hw : wp G Q X p s) : Q a s' := wp_reaches h hw

/-- One condition on results and exits. -/
theorem wp_ended {R : Except E A → S → Prop} {p : Prog S E L A} {s s' : S} {r : Except E A}
    (h : Reaches p s (ended r) s')
    (hw : wp G (fun a => R (.ok a)) (fun e => R (.error e)) p s) : R r s' := by
  cases r with
  | error e => exact wp_reaches h hw
  | ok a => exact wp_reaches h hw

end WP

/-! ## The run in which every choice is granted -/

/-- The outcome of the granted run; `none` when it diverges. -/
def exec : Prog S E L A → S → Option (Except E A × S)
  | ret a, s => some (.ok a, s)
  | throw e, s => some (.error e, s)
  | diverge, _ => none
  | read k, s => exec (k s) s
  | write f k, s => exec k (f s)
  | choose k, s => exec (k true) s
  | acquire _ k, s => exec k s
  | release _ k, s => exec k s

theorem exec_reaches (p : Prog S E L A) {s s' : S} {r : Except E A} (h : exec p s = some (r, s')) :
    Reaches p s (ended r) s' := by
  induction p generalizing s with
  | ret a => cases h; exact .refl
  | throw e => cases h; exact .refl
  | diverge => cases h
  | read k ih => exact .head (.read k s) (ih s h)
  | write f k ih => exact .head (.write f k s) (ih h)
  | choose k ih => exact .head (.choose k true s) (ih true h)
  | acquire l k ih => exact .head (.acquire l k s) (ih h)
  | release l k ih => exact .head (.release l k s) (ih h)

theorem exec_returns {p : Prog S E L A} {s s' : S} {a : A} (h : exec p s = some (.ok a, s')) :
    Returns p s a s' := exec_reaches p h

theorem exec_exits {p : Prog S E L A} {s s' : S} {e : E} (h : exec p s = some (.error e, s')) :
    Exits p s e s' := exec_reaches p h

theorem exec_bind' (p : Prog S E L A) (g : A → Prog S E L B) (s : S) : exec (bind p g) s =
    (exec p s).bind fun o => match o.1 with
      | .ok a => exec (g a) o.2
      | .error e => some (.error e, o.2) := by
  induction p generalizing s with
  | ret | throw | diverge => rfl
  | read k ih => exact ih s s
  | write f k ih => exact ih (f s)
  | choose k ih => exact ih true s
  | acquire l k ih => exact ih s
  | release l k ih => exact ih s

@[simp] theorem exec_bind (p : Prog S E L A) (g : A → Prog S E L B) (s : S) : exec (p >>= g) s =
    (exec p s).bind fun o => match o.1 with
      | .ok a => exec (g a) o.2
      | .error e => some (.error e, o.2) := exec_bind' p g s

theorem exec_bind_ok {p : Prog S E L A} {g : A → Prog S E L B} {s s' : S} {a : A}
    (h : exec p s = some (.ok a, s')) : exec (p >>= g) s = exec (g a) s' := by
  rw [exec_bind, h, Option.bind_some]

theorem exec_bind_error {p : Prog S E L A} {g : A → Prog S E L B} {s s' : S} {e : E}
    (h : exec p s = some (.error e, s')) : exec (p >>= g) s = some (.error e, s') := by
  rw [exec_bind, h, Option.bind_some]

@[simp] theorem exec_pure (a : A) (s : S) : exec (pure a : Prog S E L A) s = some (.ok a, s) := rfl

@[simp] theorem exec_throw (e : E) (s : S) :
    exec (throw e : Prog S E L A) s = some (.error e, s) := rfl

@[simp] theorem exec_get (s : S) : exec (get : Prog S E L S) s = some (.ok s, s) := rfl

@[simp] theorem exec_modify (f : S → S) (s : S) :
    exec (modify f : Prog S E L Unit) s = some (.ok (), f s) := rfl

@[simp] theorem exec_choose (k : Bool → Prog S E L A) (s : S) :
    exec (choose k) s = exec (k true) s := rfl

@[simp] theorem exec_ofExcept (c : Except E A) (s : S) :
    exec (ofExcept c : Prog S E L A) s = some (c, s) := by cases c <;> rfl

theorem exec_attempt (p : Prog S E L A) (s : S) : exec (attempt p : Prog S E' L (Except E A)) s =
    (exec p s).map fun (r, s') => (.ok r, s') := by
  induction p generalizing s with
  | ret | throw | diverge => rfl
  | read next ih => exact ih s s
  | write f next ih => exact ih (f s)
  | choose next ih => exact ih true s
  | acquire l next ih | release l next ih => exact ih s

theorem exec_within {T : Type} {view : S → T} {update : (T → T) → S → S} {D : T → S} (hview : ∀ t, view (D t) = t)
    (hupdate : ∀ f t, update f (D t) = D (f t)) (p : Prog T E Empty A) (t : T) :
    exec (within view update p : Prog S E L A) (D t) = (exec p t).map fun (r, t') => (r, D t') := by
  induction p generalizing t with
  | ret | throw | diverge => rfl
  | read k ih =>
    show exec (within view update (k (view (D t)))) (D t) = _
    rw [hview]
    exact ih t t
  | write f k ih =>
    show exec (within view update k) (update f (D t)) = _
    rw [hupdate]
    exact ih (f t)
  | choose k ih => exact ih true t
  | acquire l | release l => exact l.elim

@[simp] theorem exec_releasing (l : L) (p : Prog S E L A) (s : S) :
    exec (releasing l p) s = exec p s := by
  induction p generalizing s with
  | ret | throw | diverge => rfl
  | read k ih => exact ih s s
  | write f k ih => exact ih (f s)
  | choose k ih => exact ih true s
  | acquire l' k ih => exact ih s
  | release l' k ih => exact ih s

@[simp] theorem exec_withLock (l : L) (p : Prog S E L A) (s : S) :
    exec (withLock l p) s = exec p s := exec_releasing l p s

/-- A loop whose steps all return. `D` is the state that holds what the steps change. -/
theorem exec_each {T : Type} (D : T → S) (Inv : T → Prop) (body : A → Prog S E L Unit) (step : T → A → T) {l : List A}
    (hbody : ∀ a ∈ l, ∀ t, Inv t → exec (body a) (D t) = some (.ok (), D (step t a)) ∧ Inv (step t a)) {t : T}
    (ht : Inv t) : exec (each body l) (D t) = some (.ok (), D (l.foldl step t)) := by
  induction l generalizing t with
  | nil => rfl
  | cons a l ih =>
    obtain ⟨hexec, hinv⟩ := hbody a List.mem_cons_self t ht
    rw [each, exec_bind', hexec]
    exact ih (fun a ha => hbody a (List.mem_cons_of_mem _ ha)) hinv

/-- A loop that meets an element on which its body exits. -/
theorem exec_each_error (Inv : S → Prop) (Good : A → Prop) {body : A → Prog S E L Unit} {e : E} {l : List A}
    (hgood : ∀ a ∈ l, Good a → ∀ s, Inv s → ∃ s', exec (body a) s = some (.ok (), s') ∧ Inv s')
    (hbad : ∀ a ∈ l, ¬ Good a → ∀ s, Inv s → ∃ s', exec (body a) s = some (.error e, s'))
    (h : ∃ a ∈ l, ¬ Good a) {s : S} (hs : Inv s) : ∃ s', exec (each body l) s = some (.error e, s') := by
  induction l generalizing s with
  | nil =>
    obtain ⟨a, ha, -⟩ := h
    cases ha
  | cons a l ih =>
    rw [each, exec_bind']
    by_cases ha : Good a
    · obtain ⟨s', hexec, hinv⟩ := hgood a List.mem_cons_self ha s hs
      obtain ⟨b, hb, hnot⟩ := h
      rcases List.mem_cons.mp hb with rfl | hb
      · exact absurd ha hnot
      · rw [hexec]
        exact ih (fun a ha => hgood a (List.mem_cons_of_mem _ ha)) (fun a ha => hbad a (List.mem_cons_of_mem _ ha))
          ⟨b, hb, hnot⟩ hinv
    · obtain ⟨s', hexec⟩ := hbad a List.mem_cons_self ha s hs
      rw [hexec]
      exact ⟨s', rfl⟩

/-- The granted run returns, with a result in `Q`. -/
def Granted (Q : A → S → Prop) (p : Prog S E L A) (s : S) : Prop :=
  ∃ a s', exec p s = some (.ok a, s') ∧ Q a s'

section Granted

variable {Q : A → S → Prop}

theorem Granted.returns {p : Prog S E L A} {s : S} (h : Granted Q p s) :
    ∃ a s', Returns p s a s' ∧ Q a s' := by
  obtain ⟨a, s', he, hq⟩ := h
  exact ⟨a, s', exec_returns he, hq⟩

theorem granted_ret {a : A} {s : S} (h : Q a s) : Granted Q (ret a : Prog S E L A) s :=
  ⟨a, s, rfl, h⟩

theorem granted_bind {Q : B → S → Prop} {p : Prog S E L A} {g : A → Prog S E L B} {s : S}
    (h : Granted (fun a => Granted Q (g a)) p s) : Granted Q (p >>= g) s := by
  obtain ⟨a, s', he, b, t, hg, hq⟩ := h
  exact ⟨b, t, by rw [exec_bind, he]; exact hg, hq⟩

theorem granted_get {Q : S → S → Prop} {s : S} (h : Q s s) : Granted Q (get : Prog S E L S) s :=
  ⟨s, s, rfl, h⟩

theorem granted_modify {Q : Unit → S → Prop} {f : S → S} {s : S} (h : Q () (f s)) :
    Granted Q (modify f : Prog S E L Unit) s := ⟨(), f s, rfl, h⟩

theorem granted_ofExcept {a : A} {s : S} (h : Q a s) :
    Granted Q (ofExcept (.ok a) : Prog S E L A) s := ⟨a, s, rfl, h⟩

theorem granted_withLock {l : L} {p : Prog S E L A} {s : S} (h : Granted Q p s) :
    Granted Q (withLock l p) s := by
  obtain ⟨a, s', he, hq⟩ := h
  exact ⟨a, s', by rw [exec_withLock, he], hq⟩

theorem Granted.mono {Q' : A → S → Prop} {p : Prog S E L A} {s : S} (h : Granted Q p s)
    (hq : ∀ a s', Q a s' → Q' a s') : Granted Q' p s := by
  obtain ⟨a, s', he, h⟩ := h
  exact ⟨a, s', he, hq a s' h⟩

/-- The loop rule for the granted run. -/
theorem granted_each {Q : Unit → S → Prop} (Inv : List A → S → Prop) {body : A → Prog S E L Unit}
    {l : List A} {s : S}
    (hbody : ∀ done a rest s, l = done ++ a :: rest → Inv done s →
      Granted (fun _ => Inv (done ++ [a])) (body a) s)
    (h0 : Inv [] s) (hend : ∀ s, Inv l s → Q () s) : Granted Q (each body l) s := by
  suffices ∀ (todo done : List A) (s : S), l = done ++ todo → Inv done s →
      Granted Q (each body todo) s from this l [] s rfl h0
  intro todo
  induction todo with
  | nil =>
    intro done s hl h
    rw [List.append_nil] at hl
    exact granted_ret (hend s (hl ▸ h))
  | cons a todo ih =>
    intro done s hl h
    refine granted_bind (p := body a) ((hbody done a todo s hl h).mono fun _ s' h' => ?_)
    exact ih (done ++ [a]) s' (by simp [hl]) h'

end Granted

end Prog
