import Mathlib

/-!
# Loops that may exit, and flat buffers

* `bind_eq_ok`, `foldlM_inv`, `foldlM_eq_error`: counted loops in `Except`, by an invariant over the
  part already treated;
* **`foldlM_set`**, `foldlM_set_range`: a loop that fills a buffer computes its elements in order;
  `mapM_eq_ok`, `exists_mapM_eq_ok`, `mapM_pair`;
* `mul_add_lt_mul`, `mul_add_inj`: cells in row-major order;
* `foldlM_range_mul`, **`foldlM_fill`**: nested loops, and a loop that fills some elements of a buffer;
* `flat`: a list of triples stored one component after another; `length_flat`, `flat_getElem?`,
  `flat_set`, `exists_flat`;
* `unflat`: the triples of a flat buffer, and `unflat_flat`.
-/

namespace Fold

variable {ε α β γ : Type}

@[simp] theorem ok_bind (a : α) (f : α → Except ε β) : Except.ok a >>= f = f a := rfl

@[simp] theorem error_bind (e : ε) (f : α → Except ε β) : Except.error e >>= f = .error e := rfl

theorem bind_eq_ok {x : Except ε α} {f : α → Except ε β} {b : β} :
    x >>= f = .ok b ↔ ∃ a, x = .ok a ∧ f a = .ok b := by
  cases x with
  | error e => simp [bind, Except.bind]
  | ok a => simp [bind, Except.bind]

theorem ite_error_eq_ok {c : Prop} [Decidable c] {e : ε} {x : Except ε α} {a : α} :
    (if c then .error e else x) = .ok a ↔ ¬ c ∧ x = .ok a := by
  split_ifs with h <;> simp [h]

/-- The loop rule: `Inv done acc` holds when the elements `done` have been treated. -/
theorem foldlM_inv {f : β → α → Except ε β} (Inv : List α → β → Prop) {l : List α} {b b' : β}
    (hstep : ∀ done a rest b b', l = done ++ a :: rest → Inv done b → f b a = .ok b' →
      Inv (done ++ [a]) b')
    (h0 : Inv [] b) (h : l.foldlM f b = .ok b') : Inv l b' := by
  suffices ∀ (rest done : List α) (b : β), l = done ++ rest → Inv done b →
      rest.foldlM f b = .ok b' → Inv l b' from this l [] b rfl h0 h
  intro rest
  induction rest with
  | nil =>
    intro done b hl hi h
    rw [List.foldlM_nil] at h
    cases h
    rwa [hl, List.append_nil]
  | cons a rest ih =>
    intro done b hl hi h
    rw [List.foldlM_cons] at h
    obtain ⟨b₁, h₁, h₂⟩ := bind_eq_ok.mp h
    exact ih (done ++ [a]) b₁ (by simp [hl]) (hstep done a rest b b₁ hl hi h₁) h₂

/-- A loop that exits does so in one of its steps, with the invariant still true. -/
theorem foldlM_eq_error {f : β → α → Except ε β} (Inv : β → Prop) {l : List α} {b : β} {e : ε}
    (hstep : ∀ a ∈ l, ∀ b b', Inv b → f b a = .ok b' → Inv b') (h0 : Inv b)
    (h : l.foldlM f b = .error e) : ∃ a ∈ l, ∃ b, Inv b ∧ f b a = .error e := by
  induction l generalizing b with
  | nil => cases h
  | cons a l ih =>
    rw [List.foldlM_cons] at h
    cases hb : f b a with
    | error e' =>
      rw [hb] at h
      cases h
      exact ⟨a, List.mem_cons_self, b, h0, hb⟩
    | ok b₁ =>
      rw [hb] at h
      obtain ⟨a', ha', hrest⟩ := ih (fun a' ha' => hstep a' (List.mem_cons_of_mem a ha'))
        (hstep a List.mem_cons_self b b₁ h0 hb) h
      exact ⟨a', List.mem_cons_of_mem a ha', hrest⟩

theorem foldlM_append_eq {f : List β → α → Except ε (List β)} {g : α → List β} {l : List α}
    (h : ∀ a ∈ l, ∀ acc, f acc a = .ok (acc ++ g a)) (acc : List β) :
    l.foldlM f acc = .ok (acc ++ l.flatMap g) := by
  induction l generalizing acc with
  | nil =>
    rw [List.flatMap_nil, List.append_nil]
    rfl
  | cons a l ih =>
    rw [List.foldlM_cons, h a List.mem_cons_self, List.flatMap_cons, ← List.append_assoc]
    exact ih (fun a ha => h a (List.mem_cons_of_mem _ ha)) _

theorem foldlM_congr {f g : β → α → Except ε β} {l : List α} (h : ∀ a ∈ l, ∀ b, f b a = g b a)
    (b : β) : l.foldlM f b = l.foldlM g b := by
  induction l generalizing b with
  | nil => rfl
  | cons a l ih =>
    rw [List.foldlM_cons, List.foldlM_cons, h a List.mem_cons_self]
    exact bind_congr fun b' => ih (fun a' ha' => h a' (List.mem_cons_of_mem a ha')) b'

theorem foldlM_mono {f g : β → α → Except ε β} (h : ∀ b a b', f b a = .ok b' → g b a = .ok b')
    {l : List α} {b b' : β} (hl : l.foldlM f b = .ok b') : l.foldlM g b = .ok b' := by
  induction l generalizing b with
  | nil => exact hl
  | cons a l ih =>
    rw [List.foldlM_cons, bind_eq_ok] at hl ⊢
    obtain ⟨b₁, h₁, h₂⟩ := hl
    exact ⟨b₁, h b a b₁ h₁, ih h₂⟩

/-- A counted loop that writes one element per step runs the computations of the elements in order
and stores their results. `D` is the state of the loop that holds a buffer, `Good` what the writes
keep of the buffer. -/
theorem foldlM_set {σ : Type} (D : List β → σ) (Good : List β → Prop)
    (step : σ → α × ℕ → Except ε σ) (g : α × ℕ → Except ε β) (l : List α) (k : ℕ) (L : List β)
    (hstep : ∀ L p, p ∈ l.zipIdx k → Good L → p.2 < L.length →
      step (D L) p = g p >>= fun v => .ok (D (L.set p.2 v)))
    (hgood : ∀ L p v, Good L → g p = .ok v → Good (L.set p.2 v))
    (hL : Good L) (hlen : k + l.length ≤ L.length) :
    (l.zipIdx k).foldlM step (D L) = (l.zipIdx k).mapM g >>= fun vs =>
      .ok (D (L.take k ++ vs ++ L.drop (k + l.length))) := by
  induction l generalizing k L with
  | nil =>
    simp only [List.zipIdx_nil, List.foldlM_nil, List.mapM_nil, List.length_nil, Nat.add_zero]
    exact congrArg (fun L => Except.ok (D L)) (by simp)
  | cons a l ih =>
    rw [List.length_cons] at hlen
    rw [List.zipIdx_cons] at hstep ⊢
    rw [List.foldlM_cons, List.mapM_cons, hstep L (a, k) List.mem_cons_self hL (by omega)]
    cases hg : g (a, k) with
    | error e => rfl
    | ok v =>
      have h := ih (k + 1) (L.set k v) (fun L p hp => hstep L p (List.mem_cons_of_mem _ hp))
        (hgood L (a, k) v hL hg) (by rw [List.length_set]; omega)
      refine h.trans ?_
      change _ = ((l.zipIdx (k + 1)).mapM g >>= fun vs => pure (v :: vs)) >>= _
      rw [bind_assoc]
      refine bind_congr fun vs => congrArg (fun L => Except.ok (D L)) ?_
      have htake : (L.take k).length = k := by rw [List.length_take]; omega
      have hset : L.set k v = L.take k ++ v :: L.drop (k + 1) := by
        rw [List.set_eq_take_append_cons_drop, if_pos (by omega)]
      have h₁ : (L.set k v).take (k + 1) = L.take k ++ [v] := by
        rw [hset, List.take_append, htake, List.take_of_length_le (by omega)]
        simp
      have h₂ : (L.set k v).drop (k + 1 + l.length) = L.drop (k + (l.length + 1)) := by
        rw [List.drop_set_of_lt (by omega), Nat.add_assoc, Nat.add_comm 1]
      rw [h₁, h₂]
      simp

/-- `foldlM_set` for a loop over `0, …, n - 1` and a buffer of this size. -/
theorem foldlM_set_range {σ : Type} (D : List β → σ) (step : σ → ℕ → Except ε σ)
    (g : ℕ → Except ε β) (n : ℕ) (L : List β) (hlen : L.length = n)
    (hstep : ∀ (L : List β) (i : ℕ), L.length = n → i < n →
      step (D L) i = g i >>= fun v => .ok (D (L.set i v))) :
    (List.range n).foldlM step (D L) = (List.range n).mapM g >>= fun vs => .ok (D vs) := by
  have hz : (List.range n).zipIdx.map Prod.snd = List.range n := by
    rw [List.zipIdx_map_snd, List.length_range, List.range_eq_range']
  have h := foldlM_set D (fun L => L.length = n) (fun s p => step s p.2) (fun p => g p.2)
    (List.range n) 0 L
    (fun L p hp hL hi => hstep L p.2 hL (hL ▸ hi)) (fun L p v hL _ => by simpa using hL) hlen
    (by simp [hlen])
  rw [← hz, List.foldlM_map, List.mapM_map]
  refine h.trans (bind_congr fun vs => congrArg (fun L => Except.ok (D L)) ?_)
  simp [hlen]

/-- The results of a list of computations that all succeed. -/
theorem mapM_eq_ok {g : α → Except ε β} {l : List α} {vs : List β} :
    l.mapM g = .ok vs ↔ List.Forall₂ (fun a v => g a = .ok v) l vs := by
  induction l generalizing vs with
  | nil =>
    rw [List.mapM_nil, List.forall₂_nil_left_iff]
    exact ⟨fun h => by cases h; rfl, fun h => by rw [h]; rfl⟩
  | cons a l ih =>
    rw [List.mapM_cons, bind_eq_ok, List.forall₂_cons_left_iff]
    constructor
    · rintro ⟨v, hv, h⟩
      obtain ⟨vs', hvs, h⟩ := bind_eq_ok.mp h
      cases h
      exact ⟨v, vs', hv, ih.mp hvs, rfl⟩
    · rintro ⟨v, vs', hv, hvs, rfl⟩
      exact ⟨v, hv, bind_eq_ok.mpr ⟨vs', ih.mpr hvs, rfl⟩⟩

theorem exists_mapM_eq_ok {g : α → Except ε β} {l : List α} :
    (∃ vs, l.mapM g = .ok vs) ↔ ∀ a ∈ l, ∃ v, g a = .ok v := by
  induction l with
  | nil => exact ⟨fun _ => nofun, fun _ => ⟨[], rfl⟩⟩
  | cons a l ih =>
    rw [List.forall_mem_cons, ← ih]
    simp only [List.mapM_cons, bind_eq_ok]
    constructor
    · rintro ⟨vs, v, hv, vs', hvs, -⟩
      exact ⟨⟨v, hv⟩, vs', hvs⟩
    · rintro ⟨⟨v, hv⟩, vs', hvs⟩
      exact ⟨v :: vs', v, hv, vs', hvs, rfl⟩

theorem forall₂_getElem? {R : α → β → Prop} {l : List α} {vs : List β} (h : List.Forall₂ R l vs)
    {i : ℕ} {a : α} {v : β} (ha : l[i]? = some a) (hv : vs[i]? = some v) : R a v := by
  obtain ⟨hi, rfl⟩ := List.getElem?_eq_some_iff.mp ha
  obtain ⟨hi', rfl⟩ := List.getElem?_eq_some_iff.mp hv
  exact (List.forall₂_iff_get.mp h).2 i hi hi'

/-- Computations paired with data that no computation reads. -/
theorem mapM_pair {δ : Type} (g : α → Except ε β) (h : α → γ) (k : List β → List γ → δ)
    (l : List α) : ((l.mapM fun a => g a >>= fun v => .ok (v, h a)) >>= fun vs =>
        .ok (k (vs.map (·.1)) (vs.map (·.2)))) =
      l.mapM g >>= fun vs => (.ok (k vs (l.map h)) : Except ε δ) := by
  induction l generalizing k with
  | nil => rfl
  | cons a l ih =>
    rw [List.mapM_cons, List.mapM_cons]
    cases g a with
    | error e => rfl
    | ok v =>
      simp only [ok_bind, bind_assoc, pure_bind, List.map_cons]
      exact ih fun vs ws => k (v :: vs) (h a :: ws)

theorem length_flatten_le {g : α → Option (List β)} {n : ℕ}
    (hg : ∀ a v, g a = some v → v.length ≤ n) {l : List α} {vs : List (List β)}
    (h : l.mapM g = some vs) : vs.flatten.length ≤ l.length * n := by
  induction l generalizing vs with
  | nil =>
    cases h
    exact Nat.zero_le _
  | cons a l ih =>
    rw [List.mapM_cons] at h
    obtain ⟨v, hv, h⟩ := Option.bind_eq_some_iff.mp h
    obtain ⟨vs', hvs, h⟩ := Option.bind_eq_some_iff.mp h
    cases h
    rw [List.flatten_cons, List.length_append, List.length_cons, Nat.succ_mul, Nat.add_comm]
    exact Nat.add_le_add (ih hvs) (hg a v hv)

/-- A cell of a row lies in the buffer of all rows. -/
theorem mul_add_lt_mul {w h row column : ℕ} (hr : row < h) (hc : column < w) :
    row * w + column < w * h := by
  calc row * w + column < row * w + w := Nat.add_lt_add_left hc _
    _ = w * (row + 1) := by ring
    _ ≤ w * h := Nat.mul_le_mul_left _ hr

/-- Different cells have different places there. -/
theorem mul_add_inj {w a b a' b' : ℕ} (hb : b < w) (hb' : b' < w) (h : a * w + b = a' * w + b') :
    a = a' ∧ b = b' := by
  have hmod : (a * w + b) % w = (a' * w + b') % w := congrArg (· % w) h
  rw [Nat.mul_add_mod_self_right, Nat.mul_add_mod_self_right, Nat.mod_eq_of_lt hb,
    Nat.mod_eq_of_lt hb'] at hmod
  subst hmod
  have hw : 0 < w := Nat.zero_lt_of_lt hb
  exact ⟨Nat.eq_of_mul_eq_mul_right hw (Nat.add_right_cancel h), rfl⟩

/-- Loops over rows and columns are one loop over the cells in row-major order. -/
theorem foldlM_range_mul {σ : Type} (f : σ → ℕ → ℕ → Except ε σ) (h w : ℕ) (s : σ) :
    (List.range h).foldlM (fun s row => (List.range w).foldlM (fun s column => f s row column) s) s =
      (List.range (h * w)).foldlM (fun s i => f s (i / w) (i % w)) s := by
  induction h generalizing s with
  | zero => rw [Nat.zero_mul]; rfl
  | succ h ih =>
    rw [List.range_succ, List.foldlM_append, ih, Nat.succ_mul, List.range_add, List.foldlM_append]
    refine bind_congr fun s' => ?_
    rw [List.foldlM_map, List.foldlM_cons]
    refine (bind_pure _).trans ?_
    refine foldlM_congr (fun column hc s => ?_) s'
    have hc' := List.mem_range.mp hc
    rw [Nat.mul_comm h w, Nat.mul_add_div (by omega), Nat.div_eq_of_lt hc', Nat.mul_add_mod,
      Nat.mod_eq_of_lt hc', Nat.add_zero]

theorem getElem?_foldl_modify (g : ℕ → α → α) (l : List α) (n i : ℕ) :
    ((List.range n).foldl (fun l i => l.modify i (g i)) l)[i]? = if i < n then l[i]?.map (g i) else l[i]? := by
  induction n with
  | zero => rfl
  | succ n ih =>
    rw [List.range_succ, List.foldl_append, List.foldl_cons, List.foldl_nil, List.getElem?_modify, ih]
    by_cases hi : n = i
    · simp [hi]
    · have hlt : i < n + 1 ↔ i < n := by omega
      simp [hi, hlt]

/-- The list with element `i` replaced, or as it is. -/
def put (L : List β) (i : ℕ) : Option β → List β
  | none => L
  | some b => L.set i b

/-- The list with its first elements replaced, where there is something to replace them by. -/
def fill : List (Option β) → List β → List β
  | v :: vs, b :: L => v.getD b :: fill vs L
  | _, L => L

@[simp] theorem length_put (L : List β) (i : ℕ) (v : Option β) : (put L i v).length = L.length := by
  cases v with
  | none => rfl
  | some b => exact List.length_set

theorem getElem?_put_ne (L : List β) {i j : ℕ} (h : j ≠ i) (v : Option β) : (put L i v)[j]? = L[j]? := by
  cases v with
  | none => rfl
  | some b => exact List.getElem?_set_ne h.symm

@[simp] theorem length_fill (vs : List (Option β)) (L : List β) : (fill vs L).length = L.length := by
  fun_induction fill vs L with
  | case1 v vs b L ih => rw [List.length_cons, List.length_cons, ih]
  | case2 => rfl

theorem fill_concat (vs : List (Option β)) (v : Option β) (L : List β) :
    fill (vs ++ [v]) L = put (fill vs L) vs.length v := by
  fun_induction fill vs L with
  | case1 v' vs b L ih =>
    rw [List.cons_append, fill, ih]
    cases v <;> rfl
  | case2 vs L hne =>
    cases vs with
    | nil => cases L <;> cases v <;> rfl
    | cons v' vs =>
      cases L with
      | nil => cases v <;> rfl
      | cons b L => exact (hne v' vs b L rfl rfl).elim

theorem fill_replicate (vs : List (Option β)) (b : β) :
    fill vs (List.replicate vs.length b) = vs.map (·.getD b) := by
  induction vs with
  | nil => rfl
  | cons v vs ih => rw [List.length_cons, List.replicate_succ, fill, ih, List.map_cons]

/-- **A counted loop that fills a buffer**: step `i` writes element `i` or nothing, whichever `k` says of what it
has computed. -/
theorem foldlM_fill {σ : Type} (D : List β → σ) (step : σ → ℕ → Except ε σ) (g : ℕ → Except ε γ) (k : γ → Option β)
    {N : ℕ} (hstep : ∀ L i, L.length = N → i < N → step (D L) i = g i >>= fun v => .ok (D (put L i (k v))))
    {n : ℕ} (hn : n ≤ N) {L : List β} (hL : L.length = N) :
    (List.range n).foldlM step (D L) = (List.range n).mapM g >>= fun vs => .ok (D (fill (vs.map k) L)) := by
  induction n with
  | zero => cases L <;> rfl
  | succ n ih =>
    rw [List.range_succ, List.foldlM_append, ih (by omega), List.mapM_append]
    cases hvs : (List.range n).mapM g with
    | error e => rfl
    | ok vs =>
      have hlen := (mapM_eq_ok.mp hvs).length_eq
      rw [List.length_range] at hlen
      simp only [ok_bind, List.foldlM_cons, List.foldlM_nil, List.mapM_cons, List.mapM_nil, bind_pure,
        hstep _ n ((length_fill _ L).trans hL) hn]
      cases g n with
      | error e => rfl
      | ok v =>
        simp only [ok_bind, pure_bind, List.map_append, List.map_cons, List.map_nil]
        rw [fill_concat, List.length_map, ← hlen]

/-! ## Flat buffers -/

/-- Triples, one component after another. -/
def flat (l : List (α × α × α)) : List α := l.flatMap fun p => [p.1, p.2.1, p.2.2]

@[simp] theorem flat_nil : flat ([] : List (α × α × α)) = [] := rfl

@[simp] theorem flat_cons (p : α × α × α) (l : List (α × α × α)) :
    flat (p :: l) = p.1 :: p.2.1 :: p.2.2 :: flat l := rfl

theorem flat_append (l l' : List (α × α × α)) : flat (l ++ l') = flat l ++ flat l' := by
  simp [flat]

@[simp] theorem length_flat (l : List (α × α × α)) : (flat l).length = l.length * 3 := by
  induction l with
  | nil => rfl
  | cons p l ih => simp only [flat_cons, List.length_cons, ih]; omega

theorem map_flat (g : α → β) (l : List (α × α × α)) :
    (flat l).map g = flat (l.map fun p => (g p.1, g p.2.1, g p.2.2)) := by
  simp [flat, List.map_flatMap, List.flatMap_map]

theorem flat_replicate (n : ℕ) (a : α) :
    flat (List.replicate n (a, a, a)) = List.replicate (n * 3) a := by
  induction n with
  | zero => rfl
  | succ n ih =>
    rw [List.replicate_succ, flat_cons, ih, Nat.succ_mul]
    rfl

/-- The three values at offset `3 * i` are the components of triple `i`. -/
theorem flat_getElem? (l : List (α × α × α)) (i : ℕ) :
    (flat l)[i * 3]? = l[i]?.map (·.1) ∧ (flat l)[i * 3 + 1]? = l[i]?.map (·.2.1) ∧
      (flat l)[i * 3 + 2]? = l[i]?.map (·.2.2) := by
  induction l generalizing i with
  | nil => simp
  | cons p l ih =>
    cases i with
    | zero => simp
    | succ i =>
      rw [show (i + 1) * 3 = i * 3 + 3 by omega]
      simpa using ih i

/-- Writing the three values at offset `3 * i` replaces triple `i`. -/
theorem flat_set (l : List (α × α × α)) (i : ℕ) (p : α × α × α) :
    (((flat l).set (i * 3) p.1).set (i * 3 + 1) p.2.1).set (i * 3 + 2) p.2.2 =
      flat (l.set i p) := by
  induction l generalizing i with
  | nil => rfl
  | cons q l ih =>
    cases i with
    | zero => simp
    | succ i =>
      rw [show (i + 1) * 3 = i * 3 + 3 by omega]
      simpa using ih i

theorem flat_set_pair {l : List (α × α × α)} {i : ℕ} {q : α × α × α} (hq : l[i]? = some q)
    (a b : α) : ((flat l).set (i * 3) a).set (i * 3 + 1) b = flat (l.set i (a, b, q.2.2)) := by
  have hz : (((flat l).set (i * 3) a).set (i * 3 + 1) b)[i * 3 + 2]? = some q.2.2 := by
    rw [List.getElem?_set_ne (by omega), List.getElem?_set_ne (by omega), (flat_getElem? l i).2.2, hq,
      Option.map_some]
  obtain ⟨hlt, hval⟩ := List.getElem?_eq_some_iff.mp hz
  rw [← flat_set]
  dsimp only
  rw [← hval, List.set_getElem_self]

/-- A buffer whose size is a multiple of three is flat. -/
theorem exists_flat (n : ℕ) (l : List α) (h : l.length = n * 3) :
    ∃ l' : List (α × α × α), l'.length = n ∧ flat l' = l := by
  induction n generalizing l with
  | zero => exact ⟨[], rfl, by simpa using (List.length_eq_zero_iff.mp (by omega)).symm⟩
  | succ n ih =>
    rcases l with _ | ⟨a, _ | ⟨b, _ | ⟨c, l⟩⟩⟩ <;> simp only [List.length_nil, List.length_cons] at h
    · omega
    · omega
    · omega
    · obtain ⟨l', hl', rfl⟩ := ih l (by omega)
      exact ⟨(a, b, c) :: l', by simp [hl'], rfl⟩

theorem flat_injective : Function.Injective (flat : List (α × α × α) → List α) := by
  intro l
  induction l with
  | nil =>
    intro l' h
    cases l' with
    | nil => rfl
    | cons p l' => simp at h
  | cons p l ih =>
    intro l' h
    cases l' with
    | nil => simp at h
    | cons q l' =>
      simp only [flat_cons, List.cons.injEq] at h
      obtain ⟨h₁, h₂, h₃, h₄⟩ := h
      rw [ih h₄, Prod.ext h₁ (Prod.ext h₂ h₃)]

/-- The triples of a flat buffer; an incomplete last triple is dropped. -/
def unflat : List α → List (α × α × α)
  | a :: b :: c :: l => (a, b, c) :: unflat l
  | _ => []

@[simp] theorem unflat_flat (l : List (α × α × α)) : unflat (flat l) = l := by
  induction l with
  | nil => rfl
  | cons p l ih => rw [flat_cons, unflat, ih]

theorem length_unflat {n : ℕ} {l : List α} (h : l.length = n * 3) : (unflat l).length = n := by
  obtain ⟨l', hl', rfl⟩ := exists_flat n l h
  rwa [unflat_flat]

end Fold
