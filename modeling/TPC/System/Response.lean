import TPC.Lib.Runs
import TPC.System.FieldWorker

/-!
# The field worker answers

In any interleaving, the event of an accepted request comes after few moves of the worker, and the worker
is not kept from moving but by its own handlers.

* `distance`, `rank`: the moves up to an event; `rank_le`;
* `fired_isPrefix`, `accepted_isPrefix`: events and accepted requests stay;
* **`rank_step`**: a move of the worker brings every event that is owed closer;
* **`responds`**: the event of every accepted request comes.
-/

namespace TPC.System.Response

open FieldWorker Runs

variable {F : Type}

/-- The moves of the worker up to its next event, when a request is there. -/
def distance : Phase F → ℕ
  | .firing .. => 1
  | .inErrorHandlers _ => 2
  | .reporting .. => 3
  | .calculated .. => 4
  | .calculatingField _ => 5
  | .calculatingSvd _ => 6
  | .atWait => 7
  | .blocked | .inEventHandlers | .notStarted => 8

/-- The moves of the worker up to the event of the `k`-th accepted request. -/
def rank (k : ℕ) (σ : State F) : ℕ := distance σ.phase + 8 * (k - σ.fired.length)

/-- A step that changes where the worker stands. -/
def Moves (σ σ' : State F) : Prop := σ'.phase ≠ σ.phase

variable {σ σ' : State F} {r : Request F} {k n : ℕ}

theorem distance_pos (p : Phase F) : 0 < distance p := by
  cases p <;> simp [distance]

theorem distance_start (p : Phase F) :
    distance p.start ≤ distance p ∧ (p.start ≠ p → distance p.start < distance p) := by
  cases p <;> simp [distance, Phase.start]

theorem distance_notified (p : Phase F) :
    distance p.notified ≤ distance p ∧ (p.notified ≠ p → distance p.notified < distance p) := by
  cases p <;> simp [distance, Phase.notified]

/-! ## One step -/

/-- The accepted requests stay, -/
theorem accepted_isPrefix (h : Step σ σ') : σ.accepted <+: σ'.accepted := by
  cases h with
  | call t data hu =>
    unfold State.call
    split_ifs <;> exact List.prefix_rfl
  | submit l₁ l₂ c hc hs =>
    rcases State.submits_cases σ l₁ c l₂ with ⟨-, he⟩ | ⟨-, he⟩
    · rw [he]
    · exact he ▸ List.prefix_append _ _
  | wait hp =>
    unfold State.wait
    split <;> exact List.prefix_rfl
  | svdEnds r o hp =>
    unfold State.svdEnds
    split_ifs <;> exact List.prefix_rfl
  | _ => exact List.prefix_rfl

/-- and so do the events. -/
theorem fired_isPrefix (h : Step σ σ') : σ.fired <+: σ'.fired := by
  cases h with
  | call t data hu =>
    unfold State.call
    split_ifs <;> exact List.prefix_rfl
  | submit l₁ l₂ c hc hs =>
    rcases State.submits_cases σ l₁ c l₂ with ⟨-, he⟩ | ⟨-, he⟩ <;> rw [he]
  | wait hp =>
    unfold State.wait
    split <;> exact List.prefix_rfl
  | svdEnds r o hp =>
    unfold State.svdEnds
    split_ifs <;> exact List.prefix_rfl
  | fire r b hp => exact List.prefix_append _ _
  | _ => exact List.prefix_rfl

theorem pending_of_owed (h : Inv σ) (hk : k < σ.accepted.length) (hf : σ.fired.length ≤ k)
    (hp : σ.phase.request = none) : ∃ r, σ.pendingCalculationData = some r := by
  have hlen := congrArg List.length h.order
  cases hd : σ.pendingCalculationData with
  | some r => exact ⟨r, rfl⟩
  | none =>
    simp [hp, hd] at hlen
    omega

theorem rank_of_fired (hf : σ'.fired = σ.fired) (hd : distance σ'.phase ≤ distance σ.phase)
    (hm : Moves σ σ' → distance σ'.phase < distance σ.phase) :
    rank k σ' ≤ rank k σ ∧ (Moves σ σ' → rank k σ' < rank k σ) := by
  rw [rank, rank, hf]
  exact ⟨Nat.add_le_add_right hd _, fun h => Nat.add_lt_add_right (hm h) _⟩

theorem rank_of_lt (hf : σ'.fired = σ.fired) (hd : distance σ'.phase < distance σ.phase) :
    rank k σ' ≤ rank k σ ∧ (Moves σ σ' → rank k σ' < rank k σ) :=
  rank_of_fired hf hd.le fun _ => hd

/-- **Every move brings the events closer that are owed**, and no other step takes them away. -/
theorem rank_step (h : Inv σ) (hk : k < σ.accepted.length) (hf : σ.fired.length ≤ k) (hs : Step σ σ') :
    k < σ'.fired.length ∨ rank k σ' ≤ rank k σ ∧ (Moves σ σ' → rank k σ' < rank k σ) := by
  cases hs with
  | call t data hu =>
    unfold State.call
    split_ifs <;> exact .inr (rank_of_fired rfl le_rfl fun h => absurd rfl h)
  | submit l₁ l₂ c hc hs =>
    rcases State.submits_cases σ l₁ c l₂ with ⟨-, he⟩ | ⟨-, he⟩ <;> rw [he]
    · exact .inr (rank_of_fired rfl le_rfl fun h => absurd rfl h)
    · exact .inr (rank_of_fired rfl (distance_start _).1 (distance_start _).2)
  | notifyOne l₁ l₂ c hc hs =>
    exact .inr (rank_of_fired rfl (distance_notified _).1 (distance_notified _).2)
  | warn | warned => exact .inr (rank_of_fired rfl le_rfl fun h => absurd rfl h)
  | wait hp =>
    -- a request is pending, and `wait` takes it
    obtain ⟨r, hr⟩ := pending_of_owed h hk hf (by rw [hp]; rfl)
    rw [State.wait_of_some hr]
    exact .inr (rank_of_lt rfl (by simp [hp, distance]))
  | svdEnds r o hp =>
    unfold State.svdEnds
    split_ifs <;> exact .inr (rank_of_lt rfl (by simp [hp, distance]))
  | clearFlag r b e hp =>
    refine .inr (rank_of_lt rfl ?_)
    cases b <;> simp [hp, State.clearFlag, distance]
  | fire r b hp =>
    rcases Nat.lt_or_ge k (σ.fired.length + 1) with hlt | hge
    · exact .inl (by simpa [State.fire, State.noteEvent] using hlt)
    · have hrank : rank k (σ.noteEvent r b).fire < rank k σ := by
        simp only [rank, State.fire, State.noteEvent, hp, distance, List.length_append, List.length_singleton]
        omega
      exact .inr ⟨hrank.le, fun _ => hrank⟩
  | wake hp | fieldEnds r o hp | report r e hp | reportFailed r e hp | reported r hp hw | handled hp hw =>
    exact .inr (rank_of_lt rfl (by simp [hp, State.fieldEnds, State.report, distance]))

/-- An event is at most eleven moves away. -/
theorem rank_le (h : Inv σ) (hk : k < σ.accepted.length) : rank k σ ≤ 11 := by
  have hlen := congrArg List.length h.order
  have htaken := h.taken
  simp only [List.length_append, List.length_map] at hlen
  unfold rank
  cases hp : σ.phase <;> cases hd : σ.pendingCalculationData <;>
    simp [hp, hd, Phase.request, Phase.busy, distance] at hlen htaken ⊢ <;> omega

/-! ## The answer -/

theorem accepted_of_notStarted (h : Reachable σ) (hp : σ.phase = .notStarted) : σ.accepted = [] := by
  induction h with
  | refl => rfl
  | @tail σ σ' _ hs ih =>
    cases hs with
    | call t data hu =>
      unfold State.call at hp ⊢
      split_ifs at hp ⊢ <;> exact ih hp
    | submit l₁ l₂ c hc hs =>
      rcases State.submits_cases σ l₁ c l₂ with ⟨-, he⟩ | ⟨-, he⟩ <;> rw [he] at hp ⊢
      · exact ih hp
      · have hstart : σ.phase.start = .notStarted := hp
        cases hphase : σ.phase <;> simp [hphase, Phase.start] at hstart
    | notifyOne l₁ l₂ c hc hs =>
      have hnotified : σ.phase.notified = .notStarted := hp
      refine ih ?_
      cases hphase : σ.phase <;> simp [hphase, Phase.notified] at hnotified ⊢
    | warn | warned => exact ih hp
    | wait h =>
      unfold State.wait at hp
      split at hp <;> cases hp
    | svdEnds r o h =>
      unfold State.svdEnds at hp
      split_ifs at hp
    | clearFlag r b e h => cases b <;> simp [State.clearFlag] at hp
    | wake h | fieldEnds r o h | report r e h | reportFailed r e h | reported r h hw | fire r b h | handled h hw =>
      cases hp

/-- What a caller of `calculate_field_async` may expect for the `k`-th accepted request. -/
structure Responds (σ : State F) (k : ℕ) (r : Request F) : Prop where
  /-- Its event begins within eleven moves of the worker, whatever the other threads do. -/
  bounded : ∀ n σ', Counted Step Moves σ n σ' → 11 ≤ n → ∃ b, σ'.fired[k]? = some (r, b)
  /-- Until then the worker can move, unless it waits for its handlers -/
  enabled : σ.fired.length ≤ k → σ.phase ≠ .blocked → (σ.phase.inHandlers = true → σ.WorkerFree) →
    ∃ σ', Step σ σ' ∧ Moves σ σ'
  /-- or for the `notify_one` of the call that has made a request. -/
  notified : σ.fired.length ≤ k → σ.phase = .blocked → ∃ c ∈ σ.calls, c.stage = .accepted

theorem exists_move (h : Reachable σ) (hk : k < σ.accepted.length) (hf : σ.fired.length ≤ k)
    (hb : σ.phase ≠ .blocked) (hw : σ.phase.inHandlers = true → σ.WorkerFree) :
    ∃ σ', Step σ σ' ∧ Moves σ σ' := by
  cases hp : σ.phase with
  | notStarted =>
    rw [accepted_of_notStarted h hp] at hk
    cases hk
  | atWait =>
    obtain ⟨r, hr⟩ := pending_of_owed h.inv hk hf (by rw [hp]; rfl)
    refine ⟨_, .wait σ hp, ?_⟩
    rw [State.wait_of_some hr]
    simp [Moves, hp]
  | blocked => exact absurd hp hb
  | calculatingSvd r => exact ⟨_, .svdEnds σ r .success hp, by simp [Moves, State.svdEnds, hp]⟩
  | calculatingField r => exact ⟨_, .fieldEnds σ r .success hp, by simp [Moves, State.fieldEnds, hp]⟩
  | calculated r b e => exact ⟨_, .clearFlag σ r b e hp, by cases b <;> simp [Moves, State.clearFlag, hp]⟩
  | reporting r e => exact ⟨_, .report σ r e hp, by simp [Moves, State.report, hp]⟩
  | inErrorHandlers r => exact ⟨_, .reported σ r hp (hw (by rw [hp]; rfl)), by simp [Moves, hp]⟩
  | firing r b => exact ⟨_, .fire σ r b hp, by simp [Moves, State.fire, hp]⟩
  | inEventHandlers => exact ⟨_, .handled σ hp (hw (by rw [hp]; rfl)), by simp [Moves, hp]⟩

/-- After enough moves the event has begun. -/
theorem fired_of_counted (h : Inv σ) (hk : k < σ.accepted.length) (hs : Counted Step Moves σ n σ')
    (hn : 11 ≤ n) : Inv σ' ∧ σ.accepted <+: σ'.accepted ∧ k < σ'.fired.length := by
  obtain ⟨⟨hi, hpre⟩, hdone⟩ := hs.done_or_rank_le (fun τ => Inv τ ∧ σ.accepted <+: τ.accepted)
    (fun τ => k < τ.fired.length) (rank k) ⟨h, List.prefix_rfl⟩
    (fun τ τ' hτ hs => ⟨hτ.1.step hs, hτ.2.trans (accepted_isPrefix hs)⟩)
    (fun τ τ' hs hd => hd.trans_le (fired_isPrefix hs).length_le)
    (fun τ τ' hτ hs hd => rank_step hτ.1 (hk.trans_le hτ.2.length_le) (not_lt.mp hd) hs)
  refine ⟨hi, hpre, hdone.resolve_right fun hle => ?_⟩
  have hbound := rank_le h hk
  have hpos : 0 < rank k σ' := Nat.add_pos_left (distance_pos _) _
  omega

/-- **The field worker answers** every accepted request, in any interleaving. -/
theorem responds (h : Reachable σ) (hr : σ.accepted[k]? = some r) : Responds σ k r where
  bounded n σ' hs hn := by
    have hk := (List.getElem?_eq_some_iff.mp hr).1
    obtain ⟨hi, hpre, hlt⟩ := fired_of_counted h.inv hk hs hn
    obtain ⟨later, hlater⟩ := hpre
    have hb : σ'.fired[k]? = some (σ'.fired[k].1, σ'.fired[k].2) := List.getElem?_eq_getElem hlt
    have haccepted := (hi.events hb).1
    rw [← hlater, List.getElem?_append_left hk, hr, Option.some_inj] at haccepted
    rw [haccepted]
    exact ⟨_, hb⟩
  enabled hf hb hw := exists_move h (List.getElem?_eq_some_iff.mp hr).1 hf hb hw
  notified hf hb := by
    obtain ⟨r', hr'⟩ := pending_of_owed h.inv (List.getElem?_eq_some_iff.mp hr).1 hf (by rw [hb]; rfl)
    exact h.inv.wakes hb (by rw [hr']; rfl)

/-- `responds` for a request that the worker is not yet notified of. -/
theorem responds_waitingState : Reachable waitingState ∧ waitingState.phase = .blocked ∧
    waitingState.accepted[1]? = some ⟨2, oneMeasurement⟩ ∧ Responds waitingState 1 ⟨2, oneMeasurement⟩ :=
  ⟨reachable_waitingState, rfl, rfl, responds reachable_waitingState rfl⟩

end TPC.System.Response
