import TPC.Lib.UnorderedMap

/-!
# Event handlers

`utilities/event_handler.hpp`: a table of handlers under the ids that `subscribe` returns. Every
operation holds the mutex for its access to the table, so that the operations come one after another.

* `EventHandler`, `Op`, `step`, `after`;
* `idOf`: the id that a call of `subscribe` returns; `since`, **`nextId_after`**: it counts the calls
  since the last `dispose`;
* `Identifies`, **`identifies`**: what an id stands for;
* `not_forall_identifies`: an id is given again after `dispose`.
-/

namespace TPC.System

/-- `event_handler`, with handlers of type `H`. -/
structure EventHandler (H : Type) where
  nextId : UInt64
  handlers : UnorderedMap UInt64 H

namespace EventHandler

variable {H : Type}

/-- A new one. -/
def init : EventHandler H := ⟨1, ∅⟩

def subscribe (e : EventHandler H) (handler : H) : UInt64 × EventHandler H :=
  (e.nextId, ⟨e.nextId + 1, e.handlers.emplace e.nextId handler⟩)

def unsubscribe (e : EventHandler H) (id : UInt64) : EventHandler H :=
  { e with handlers := e.handlers.erase id }

def release (e : EventHandler H) : EventHandler H := { e with handlers := ∅ }

def dispose (_ : EventHandler H) : EventHandler H := ⟨1, ∅⟩

/-- The handlers that `invoke` calls, in the order of the table. It has copied them, and holds no lock
when it calls them. -/
def invoke (e : EventHandler H) (order : UnorderedMap.Enumeration UInt64 H) : List H :=
  (order.entries e.handlers).map Sigma.snd

/-- One call. -/
inductive Op (H : Type)
  | subscribe (handler : H)
  | unsubscribe (id : UInt64)
  | release
  | dispose
  | invoke (order : UnorderedMap.Enumeration UInt64 H)

/-- The call takes the handler with the id out of the table. -/
def Op.removes (id : UInt64) : Op H → Prop
  | .unsubscribe id' => id' = id
  | .release | .dispose => True
  | .subscribe _ | .invoke _ => False

def Op.isSubscribe : Op H → Bool
  | .subscribe _ => true
  | _ => false

/-- A call, with what `subscribe` returns and the handlers that `invoke` calls. -/
def step (e : EventHandler H) : Op H → EventHandler H × Option UInt64 × List H
  | .subscribe handler => ((e.subscribe handler).2, some (e.subscribe handler).1, [])
  | .unsubscribe id => (e.unsubscribe id, none, [])
  | .release => (e.release, none, [])
  | .dispose => (e.dispose, none, [])
  | .invoke order => (e, none, e.invoke order)

/-- A new event handler after some calls. -/
def after (ops : List (Op H)) : EventHandler H := ops.foldl (fun e op => (e.step op).1) init

/-- What a call of `subscribe` returns that comes after these. -/
def idOf (ops : List (Op H)) : UInt64 := (after ops).nextId

/-- What a call makes of their number. -/
def Op.count (n : ℕ) : Op H → ℕ
  | .subscribe _ => n + 1
  | .dispose => 0
  | .unsubscribe _ | .release | .invoke _ => n

/-- The calls of `subscribe` since the last `dispose`. -/
def since (ops : List (Op H)) : ℕ := ops.foldl Op.count 0

/-- What the ids stand for. `between` says of which pairs of calls of `subscribe` it is said, by what lies
between them. -/
structure Identifies (between : List (Op H) → Prop) (ops : List (Op H)) : Prop where
  /-- Two calls return different ids, -/
  unique : ∀ pre h mid h' post, ops = pre ++ .subscribe h :: (mid ++ .subscribe h' :: post) → between mid →
    idOf pre ≠ idOf (pre ++ .subscribe h :: mid)
  /-- and to unsubscribe with the one leaves the handler of the other alone. -/
  stale : ∀ pre h mid h' post, ops = pre ++ .subscribe h :: (mid ++ .subscribe h' :: post) → between mid →
    ∀ e : EventHandler H,
      (e.unsubscribe (idOf pre)).handlers.lookup (idOf (pre ++ .subscribe h :: mid)) =
        e.handlers.lookup (idOf (pre ++ .subscribe h :: mid)) ∧
      (e.unsubscribe (idOf (pre ++ .subscribe h :: mid))).handlers.lookup (idOf pre) =
        e.handlers.lookup (idOf pre)
  /-- A handler is found under its id, and called, until it is removed. -/
  stays : ∀ pre h mid post, ops = pre ++ .subscribe h :: (mid ++ post) →
    (∀ op ∈ mid, ¬ op.removes (idOf pre)) →
      (after (pre ++ .subscribe h :: mid)).handlers.lookup (idOf pre) = some h ∧
      ∀ order, h ∈ (after (pre ++ .subscribe h :: mid)).invoke order

/-! ## The counter -/

variable {ops mid : List (Op H)} {h : H}

theorem after_concat (ops : List (Op H)) (op : Op H) : after (ops ++ [op]) = ((after ops).step op).1 :=
  List.foldl_concat _ _ _ _

theorem since_concat (ops : List (Op H)) (op : Op H) : since (ops ++ [op]) = op.count (since ops) :=
  List.foldl_concat _ _ _ _

/-- **The counter** counts the calls of `subscribe` since the last `dispose`. -/
theorem nextId_after (ops : List (Op H)) : (after ops).nextId = UInt64.ofNat (since ops + 1) := by
  induction ops using List.reverseRecOn with
  | nil => rfl
  | append_singleton ops op ih =>
    rw [after_concat, since_concat]
    cases op with
    | subscribe h =>
      show (after ops).nextId + 1 = _
      rw [ih, ← UInt64.ofNat_one, ← UInt64.ofNat_add]
      rfl
    | dispose => rfl
    | unsubscribe | release | invoke => exact ih

theorem since_le (ops : List (Op H)) : since ops ≤ ops.countP Op.isSubscribe := by
  induction ops using List.reverseRecOn with
  | nil => exact le_rfl
  | append_singleton ops op ih =>
    rw [since_concat, List.countP_append, List.countP_singleton]
    cases op with
    | subscribe h => exact Nat.succ_le_succ ih
    | dispose => exact Nat.zero_le _
    | unsubscribe | release | invoke => exact ih

theorem since_le_append (ops : List (Op H)) (hmid : Op.dispose ∉ mid) : since ops ≤ since (ops ++ mid) := by
  induction mid using List.reverseRecOn with
  | nil => rw [List.append_nil]
  | append_singleton mid op ih =>
    rw [List.mem_append, not_or, List.mem_singleton] at hmid
    rw [← List.append_assoc, since_concat]
    have hle := ih hmid.1
    cases op with
    | subscribe h => exact Nat.le_succ_of_le hle
    | dispose => exact absurd rfl hmid.2
    | unsubscribe | release | invoke => exact hle

theorem ofNat_inj {m n : ℕ} (hm : m < 2 ^ 64) (hn : n < 2 ^ 64) (h : UInt64.ofNat m = UInt64.ofNat n) :
    m = n := by
  have hnat := congrArg UInt64.toNat h
  rwa [UInt64.toNat_ofNat_of_lt' hm, UInt64.toNat_ofNat_of_lt' hn] at hnat

/-! ## The table -/

theorem exists_of_mem_handlers (ops : List (Op H)) {id : UInt64} (hid : id ∈ (after ops).handlers) :
    ∃ n, n < since ops ∧ id = UInt64.ofNat (n + 1) := by
  induction ops using List.reverseRecOn with
  | nil => exact absurd hid (AList.notMem_empty id)
  | append_singleton ops op ih =>
    rw [after_concat] at hid
    rw [since_concat]
    cases op with
    | subscribe h =>
      by_cases hold : id ∈ (after ops).handlers
      · obtain ⟨n, hn, he⟩ := ih hold
        exact ⟨n, Nat.lt_succ_of_lt hn, he⟩
      · refine ⟨since ops, Nat.lt_succ_self _, ?_⟩
        have hnew := AList.lookup_isSome.mpr hid
        rw [show (((after ops).step (.subscribe h)).1).handlers.lookup id = _ from
          UnorderedMap.lookup_emplace _ _ _ _, AList.lookup_eq_none.mpr hold, Option.none_or] at hnew
        rw [← nextId_after]
        by_contra hne
        rw [if_neg (Ne.symm hne)] at hnew
        cases hnew
    | unsubscribe id' => exact ih ((AList.mem_erase.mp hid).2)
    | release => exact absurd hid (AList.notMem_empty id)
    | dispose => exact absurd hid (AList.notMem_empty id)
    | invoke order => exact ih hid

theorem lookup_subscribe (hops : since ops + 1 < 2 ^ 64) :
    (after (ops ++ [.subscribe h])).handlers.lookup (idOf ops) = some h := by
  have hfresh : idOf ops ∉ (after ops).handlers := by
    intro hmem
    obtain ⟨n, hn, he⟩ := exists_of_mem_handlers ops hmem
    rw [idOf, nextId_after] at he
    have := ofNat_inj hops (by omega) he
    omega
  rw [after_concat]
  show ((after ops).handlers.emplace (idOf ops) h).lookup (idOf ops) = _
  rw [UnorderedMap.lookup_emplace, AList.lookup_eq_none.mpr hfresh, Option.none_or, if_pos rfl]

theorem lookup_step {e : EventHandler H} {id : UInt64} (he : e.handlers.lookup id = some h) {op : Op H}
    (hop : ¬ op.removes id) : (e.step op).1.handlers.lookup id = some h := by
  cases op with
  | subscribe h' =>
    show (e.handlers.emplace e.nextId h').lookup id = some h
    rw [UnorderedMap.lookup_emplace, he, Option.some_or]
  | unsubscribe id' =>
    show (e.handlers.erase id').lookup id = some h
    rw [AList.lookup_erase_ne fun heq => hop heq.symm, he]
  | release | dispose => exact absurd trivial hop
  | invoke order => exact he

/-- **A handler stays** until it is removed. -/
theorem lookup_after (hops : since ops + 1 < 2 ^ 64) (hmid : ∀ op ∈ mid, ¬ op.removes (idOf ops)) :
    (after (ops ++ .subscribe h :: mid)).handlers.lookup (idOf ops) = some h := by
  induction mid using List.reverseRecOn with
  | nil => exact lookup_subscribe hops
  | append_singleton mid op ih =>
    rw [← List.cons_append, ← List.append_assoc, after_concat]
    exact lookup_step (ih fun op' hop' => hmid op' (List.mem_append_left _ hop')) (hmid op (by simp))

theorem mem_invoke {e : EventHandler H} {id : UInt64} (he : e.handlers.lookup id = some h)
    (order : UnorderedMap.Enumeration UInt64 H) : h ∈ e.invoke order :=
  List.mem_map.mpr ⟨⟨id, h⟩, order.mem_entries.mpr he, rfl⟩

/-- Two calls without a `dispose` between them return different ids. -/
theorem idOf_ne (hops : since (ops ++ .subscribe h :: mid) + 1 < 2 ^ 64) (hmid : Op.dispose ∉ mid) :
    idOf ops ≠ idOf (ops ++ .subscribe h :: mid) := by
  intro heq
  have hlt : since ops < since (ops ++ .subscribe h :: mid) := by
    have hle := since_le_append (ops ++ [.subscribe h]) hmid
    rw [since_concat, List.append_assoc] at hle
    exact hle
  rw [idOf, idOf, nextId_after, nextId_after] at heq
  have := ofNat_inj (by omega) hops heq
  omega

theorem lookup_unsubscribe_of_ne (e : EventHandler H) {id id' : UInt64} (hne : id ≠ id') :
    (e.unsubscribe id).handlers.lookup id' = e.handlers.lookup id' :=
  AList.lookup_erase_ne (Ne.symm hne)

theorem since_lt_of_append {pre post : List (Op H)} (hops : ops = pre ++ .subscribe h :: post)
    (hcount : ops.countP Op.isSubscribe < 2 ^ 64) : since pre + 1 < 2 ^ 64 := by
  have hle := since_le pre
  rw [hops, List.countP_append, List.countP_cons_of_pos rfl] at hcount
  omega

theorem idOf_ne_of_append {h' : H} {pre post : List (Op H)}
    (hops : ops = pre ++ .subscribe h :: (mid ++ .subscribe h' :: post))
    (hcount : ops.countP Op.isSubscribe < 2 ^ 64) (hmid : Op.dispose ∉ mid) :
    idOf pre ≠ idOf (pre ++ .subscribe h :: mid) := by
  have hlast : ops = (pre ++ .subscribe h :: mid) ++ .subscribe h' :: post := by
    rw [hops, List.append_assoc, List.cons_append]
  exact idOf_ne (since_lt_of_append hlast hcount) hmid

/-- **An id stands for one handler** until the next `dispose`: no two calls of `subscribe` without a
`dispose` between them return the same id, to unsubscribe with the id of one leaves the handler of the
other alone, and a handler stays registered until a call that removes it. -/
theorem identifies (ops : List (Op H)) (hcount : ops.countP Op.isSubscribe < 2 ^ 64) :
    Identifies (fun mid => Op.dispose ∉ mid) ops where
  unique pre h mid h' post hops hmid := idOf_ne_of_append hops hcount hmid
  stale pre h mid h' post hops hmid e := by
    have hne := idOf_ne_of_append hops hcount hmid
    exact ⟨lookup_unsubscribe_of_ne e hne, lookup_unsubscribe_of_ne e hne.symm⟩
  stays pre h mid post hops hmid := by
    have hlookup := lookup_after (h := h) (since_lt_of_append hops hcount) hmid
    exact ⟨hlookup, mem_invoke hlookup⟩

/-- `identifies` for a handler, a release, and another handler. -/
theorem identifies_release : ([.subscribe true, .release, .subscribe false] : List (Op Bool)).countP
      Op.isSubscribe < 2 ^ 64 ∧
    Identifies (fun mid => Op.dispose ∉ mid) [.subscribe true, .release, .subscribe false] :=
  ⟨by decide, identifies _ (by decide)⟩

/-- After a `dispose` the id of the first handler is that of the second one. -/
theorem not_forall_identifies : ¬ ∀ ops : List (Op Bool), ops.countP Op.isSubscribe < 2 ^ 64 →
    Identifies (fun _ => True) ops := by
  intro h
  have hops := h [.subscribe true, .dispose, .subscribe false] (by decide)
  exact hops.unique [] true [.dispose] false [] rfl trivial rfl

end EventHandler

end TPC.System
