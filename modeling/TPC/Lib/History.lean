import Mathlib

/-!
# The last entry of a history

A history is a list of events, the last one at its end. Of something that its events write it leaves what
the last of them has written.

* `latest`, `latest_concat`: what is left; `getElem?_concat_eq_some`: one more event;
* `Last`: the event that has written it;
* **`latest_take_eq_some`**: what is left at a moment, the last event before it has written;
* `getElem?_filterMap_take`, `exists_getElem?_of_forall₂`: all that has been written, by its number.
-/

namespace History

variable {A B : Type} {f : A → Option B} {l : List A} {n i : ℕ} {b : B}

/-- What the last event has written of those of which `f` says what they write. -/
def latest (f : A → Option B) (l : List A) : Option B := l.reverse.findSome? f

theorem latest_nil : latest f [] = none := rfl

theorem latest_concat (f : A → Option B) (l : List A) (a : A) : latest f (l ++ [a]) = (f a).or (latest f l) := by
  rw [latest, List.reverse_append, List.reverse_singleton, List.singleton_append, List.findSome?_cons, latest]
  cases f a <;> rfl

theorem getElem?_concat_eq_some {a a' : A} :
    (l ++ [a])[i]? = some a' ↔ l[i]? = some a' ∨ i = l.length ∧ a = a' := by
  rcases lt_trichotomy i l.length with hi | rfl | hi
  · rw [List.getElem?_append_left hi]
    exact ⟨.inl, fun h => h.resolve_right fun h' => absurd h'.1 hi.ne⟩
  · rw [List.getElem?_concat_length, List.getElem?_eq_none le_rfl]
    simp
  · rw [List.getElem?_eq_none (by simpa using hi), List.getElem?_eq_none hi.le]
    simp [hi.ne']

/-- Event `i` has written `b`, and between it and the moment `n` none has written. -/
structure Last (f : A → Option B) (l : List A) (n i : ℕ) (b : B) : Prop where
  before : i < n
  writes : ∃ a, l[i]? = some a ∧ f a = some b
  silent : ∀ i' a, i < i' → i' < n → l[i']? = some a → f a = none

theorem last_succ_iff (h : ∀ a, l[n]? = some a → f a = none) : Last f l (n + 1) i b ↔ Last f l n i b := by
  constructor
  · rintro ⟨hi, ⟨a, ha, hb⟩, hsilent⟩
    refine ⟨lt_of_le_of_ne (Nat.le_of_lt_succ hi) ?_, ⟨a, ha, hb⟩, fun i' a' h₁ h₂ => hsilent i' a' h₁ (h₂.trans n.lt_succ_self)⟩
    rintro rfl
    rw [h a ha] at hb
    cases hb
  · rintro ⟨hi, hwrites, hsilent⟩
    refine ⟨hi.trans n.lt_succ_self, hwrites, fun i' a' h₁ h₂ ha' => ?_⟩
    rcases (Nat.le_of_lt_succ h₂).lt_or_eq with hlt | rfl
    · exact hsilent i' a' h₁ hlt ha'
    · exact h a' ha'

theorem last_succ_of_writes {a : A} {b' : B} (ha : l[n]? = some a) (hb : f a = some b') :
    Last f l (n + 1) i b ↔ i = n ∧ b' = b := by
  constructor
  · rintro ⟨hi, ⟨a', ha', hb'⟩, hsilent⟩
    rcases (Nat.le_of_lt_succ hi).lt_or_eq with hlt | rfl
    · have hnone := hsilent n a hlt n.lt_succ_self ha
      rw [hb] at hnone
      cases hnone
    · cases ha.symm.trans ha'
      exact ⟨rfl, Option.some_inj.mp (hb.symm.trans hb')⟩
  · rintro ⟨rfl, rfl⟩
    exact ⟨i.lt_succ_self, ⟨a, ha, hb⟩, fun i' _ h₁ h₂ => absurd h₁ (Nat.not_lt.mpr (Nat.le_of_lt_succ h₂))⟩

/-- **What is left at a moment** is what the last event before it has written. -/
theorem latest_take_eq_some : latest f (l.take n) = some b ↔ ∃ i, Last f l n i b := by
  induction n with
  | zero =>
    rw [List.take_zero, latest_nil]
    exact iff_of_false nofun fun ⟨i, hi⟩ => Nat.not_lt_zero i hi.before
  | succ n ih =>
    rw [List.take_add_one]
    cases ha : l[n]? with
    | none =>
      rw [Option.toList_none, List.append_nil, ih]
      exact exists_congr fun i => (last_succ_iff fun a ha' => nomatch ha.symm.trans ha').symm
    | some a =>
      rw [Option.toList_some, latest_concat]
      cases hb : f a with
      | none =>
        rw [Option.none_or, ih]
        refine exists_congr fun i => (last_succ_iff fun a' ha' => ?_).symm
        cases ha.symm.trans ha'
        exact hb
      | some b' =>
        rw [Option.some_or, Option.some_inj]
        exact ⟨fun h => ⟨n, (last_succ_of_writes ha hb).mpr ⟨rfl, h⟩⟩,
          fun ⟨i, hi⟩ => ((last_succ_of_writes ha hb).mp hi).2⟩

/-- What event `i` writes comes after all that the events before it have written. -/
theorem getElem?_filterMap_take {a : A} (ha : l[i]? = some a) (hb : f a = some b) :
    (l.filterMap f)[((l.take i).filterMap f).length]? = some b := by
  obtain ⟨hi, rfl⟩ := List.getElem?_eq_some_iff.mp ha
  have hl : l = l.take i ++ l[i] :: l.drop (i + 1) := by rw [List.cons_getElem_drop_succ, List.take_append_drop]
  have hfilter : l.filterMap f = (l.take i).filterMap f ++ b :: (l.drop (i + 1)).filterMap f := by
    conv_lhs => rw [hl, List.filterMap_append, List.filterMap_cons_some hb]
  rw [hfilter, List.getElem?_append_right le_rfl, Nat.sub_self, List.getElem?_cons_zero]

theorem exists_getElem?_of_forall₂ {C : Type} {R : C → B → Prop} {l₁ : List C} {l₂ : List B} (h : List.Forall₂ R l₁ l₂)
    (hi : l₂[i]? = some b) : ∃ c, l₁[i]? = some c ∧ R c b := by
  induction h generalizing i with
  | nil => cases hi
  | cons hR _ ih =>
    cases i with
    | zero =>
      cases hi
      exact ⟨_, rfl, hR⟩
    | succ i => exact ih hi

end History
