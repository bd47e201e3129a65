import TPC.Lib.Runs
import TPC.System.Discovery

/-!
# Overlapping sessions

Every activation of a session starts a discovery. The discoveries run side by side, and the answers to
their browses come in any order.

* `State`, `answer`; `hear`: the history, with the answers that a discovery has had; **`Step`**;
* `LastFinished`, **`lastFinished_step`**: the table is that of the discovery that has finished last;
* **`last_finished_wins`**: so it is in every run, and a discovery has listed what has been answered to it;
* `not_forall_latest_wins`: it need not be the one that was started last.
-/

namespace TPC.System.Sessions

open Discovery

variable {N : Type} [DecidableEq N]

/-- A discovery that has come this far. -/
abbrev Chain (N : Type) : Type := Coro N (BrowseResult N) String (DiscoveryResult N)

/-- The requests that a discovery has sent, with their answers. -/
abbrev Transcript (N : Type) : Type := List (N × Except String (BrowseResult N))

/-- The discoveries, numbered as they were started, and what they change; then the history: what has been
answered to each, those that have succeeded and those whose node list has gone to `create_subscription`, in
order. -/
structure State (N : Type) where
  started : ℕ
  chain : ℕ → Chain N
  members : Members N
  answers : ℕ → Transcript N
  succeeded : List ℕ
  subscribed : List ℕ

/-- No session has been activated. -/
def State.init (objectsFolder : N) (members : Members N) : State N :=
  ⟨0, fun _ => discoverFolders objectsFolder, members, fun _ => [], [], []⟩

omit [DecidableEq N] in
/-- The answer to the browse of discovery `n`. One that ends settles at once. -/
def State.answer (σ : State N) (order : UnorderedMap.Enumeration N String) (n : ℕ)
    (x : Except String (BrowseResult N)) (handlers subscription : Option String) : State N :=
  let chain := (σ.chain n).resume x
  let σ := { σ with chain := Function.update σ.chain n chain }
  match chain with
  | .await _ _ => σ
  | .throw what => { σ with members := σ.members.settle order handlers subscription (.error what) }
  | .ret discovery => { σ with members := σ.members.settle order handlers subscription (.ok discovery) }

omit [DecidableEq N] in
/-- The history when the request `q` of discovery `n` is answered: the discovery may succeed, and then its node
list goes on unless a handler throws. -/
def State.hear (σ : State N) (n : ℕ) (q : N) (x : Except String (BrowseResult N)) (handlers : Option String) :
    State N :=
  { σ with
    answers := Function.update σ.answers n (σ.answers n ++ [(q, x)])
    succeeded := match (σ.chain n).resume x with
      | .ret _ => σ.succeeded ++ [n]
      | _ => σ.succeeded
    subscribed := match (σ.chain n).resume x with
      | .ret _ => if handlers.isNone then σ.subscribed ++ [n] else σ.subscribed
      | _ => σ.subscribed }

/-- A session is activated, or the outstanding browse of discovery `n` is answered. -/
inductive Action (N : Type)
  | activate
  | answer (n : ℕ) (x : Except String (BrowseResult N))

/-- One step. A browse that could not be sent is one that is answered with the error. -/
inductive Step (order : UnorderedMap.Enumeration N String) (σ : State N) : Action N → State N → Prop
  | activate : Step order σ .activate { σ with started := σ.started + 1 }
  | answer (n : ℕ) (q : N) (x : Except String (BrowseResult N)) (handlers subscription : Option String)
    (hn : n < σ.started) (hq : (σ.chain n).outstanding = some q) :
    Step order σ (.answer n x) ((σ.hear n q x handlers).answer order n x handlers subscription)

variable {order : UnorderedMap.Enumeration N String} {objectsFolder : N} {members : Members N}
  {σ σ' : State N} {a : Action N}

section

variable {n k : ℕ} {q : N} {x : Except String (BrowseResult N)} {handlers subscription : Option String}
  {t : Chain N} {d : DiscoveryResult N}

omit [DecidableEq N]

theorem hear_answer_chain : ((σ.hear n q x handlers).answer order n x handlers subscription).chain =
    Function.update σ.chain n ((σ.chain n).resume x) := by
  simp only [State.answer, State.hear]
  cases (σ.chain n).resume x <;> rfl

theorem hear_answer_of_ret (hx : (σ.chain n).resume x = .ret d) :
    ((σ.hear n q x handlers).answer order n x handlers subscription).succeeded = σ.succeeded ++ [n] := by
  simp only [State.answer, State.hear, hx]

theorem hear_answer_of_ne_ret (hx : ∀ d, (σ.chain n).resume x ≠ .ret d) :
    ((σ.hear n q x handlers).answer order n x handlers subscription).succeeded = σ.succeeded := by
  simp only [State.answer, State.hear]
  cases hret : (σ.chain n).resume x with
  | await q k => rfl
  | throw e => rfl
  | ret d => exact absurd hret (hx d)

theorem ne_ret_of_outstanding {t : Chain N} (h : t.outstanding = some q) (d : DiscoveryResult N) : t ≠ .ret d := by
  rintro rfl
  cases h

theorem update_chain_eq_ret (hold : ∀ d, σ.chain n ≠ .ret d) (hk : σ.chain k = .ret d) :
    Function.update σ.chain n t k = .ret d := by
  have hkn : k ≠ n := by
    rintro rfl
    exact hold d hk
  rwa [Function.update_of_ne hkn]

end

/-- The history, and what it says of the members. -/
structure LastFinished (order : UnorderedMap.Enumeration N String) (objectsFolder : N)
    (members : Members N) (σ : State N) : Prop where
  /-- Every discovery has come as far as its answers have led it. -/
  leads : ∀ n, Coro.Leads (discoverFolders objectsFolder) (σ.answers n) (σ.chain n)
  fresh : ∀ n, σ.started ≤ n → σ.chain n = discoverFolders objectsFolder
  succeeded : ∀ n, n ∈ σ.succeeded ↔ ∃ d, σ.chain n = .ret d
  subscribed : σ.subscribed.Sublist σ.succeeded
  /-- The table is that of the last discovery that has succeeded, -/
  untouched : σ.succeeded = [] → σ.members.channelsInfo = members.channelsInfo
  table : ∀ n, σ.succeeded.getLast? = some n → σ.chain n = .ret σ.members.channelsInfo
  /-- and the node list that of the last one that has come to `create_subscription`. -/
  unsubscribed : σ.subscribed = [] → σ.members.nodeIds = members.nodeIds
  nodeIds : ∀ n d, σ.subscribed.getLast? = some n → σ.chain n = .ret d →
    σ.members.nodeIds = some ((order.entries d.nodes).map Sigma.fst)

theorem lastFinished_init : LastFinished order objectsFolder members (.init objectsFolder members) where
  leads _ := .refl
  fresh _ _ := rfl
  succeeded _ := ⟨nofun, nofun⟩
  subscribed := .refl _
  untouched _ := rfl
  table := nofun
  unsubscribed _ := rfl
  nodeIds := nofun

namespace LastFinished

theorem leads_update (h : LastFinished order objectsFolder members σ) {tr : Transcript N} {t : Chain N}
    (ht : Coro.Leads (discoverFolders objectsFolder) tr t) (n k : ℕ) :
    Coro.Leads (discoverFolders objectsFolder) (Function.update σ.answers n tr k) (Function.update σ.chain n t k) := by
  by_cases hkn : k = n
  · subst hkn
    simpa using ht
  · simpa [Function.update_of_ne hkn] using h.leads k

theorem fresh_update (h : LastFinished order objectsFolder members σ) {n k : ℕ} (hn : n < σ.started)
    (t : Chain N) (hk : σ.started ≤ k) : Function.update σ.chain n t k = discoverFolders objectsFolder := by
  have hkn : k ≠ n := by
    rintro rfl
    exact absurd hn (Nat.not_lt.mpr hk)
  simpa [Function.update_of_ne hkn] using h.fresh k hk

theorem resume (h : LastFinished order objectsFolder members σ) {n : ℕ} (hn : n < σ.started) {tr : Transcript N}
    {t : Chain N} (ht : Coro.Leads (discoverFolders objectsFolder) tr t) (hret : ∀ d, t ≠ .ret d)
    (hold : ∀ d, σ.chain n ≠ .ret d) {m : Members N} (hc : m.channelsInfo = σ.members.channelsInfo)
    (hi : m.nodeIds = σ.members.nodeIds) :
    LastFinished order objectsFolder members { σ with
      chain := Function.update σ.chain n t
      members := m
      answers := Function.update σ.answers n tr } := by
  have hother : ∀ {k d}, σ.chain k = .ret d → Function.update σ.chain n t k = .ret d :=
    fun hk => update_chain_eq_ret hold hk
  have hback : ∀ {k d}, Function.update σ.chain n t k = .ret d → σ.chain k = .ret d := by
    intro k d hk
    by_cases hkn : k = n
    · subst hkn
      rw [Function.update_self] at hk
      exact absurd hk (hret d)
    · rwa [Function.update_of_ne hkn] at hk
  constructor
  case leads => exact h.leads_update ht n
  case fresh => exact fun _ => h.fresh_update hn _
  case succeeded =>
    exact fun k => (h.succeeded k).trans ⟨fun ⟨d, hd⟩ => ⟨d, hother hd⟩, fun ⟨d, hd⟩ => ⟨d, hback hd⟩⟩
  case subscribed => exact h.subscribed
  case untouched => exact fun hs => hc.trans (h.untouched hs)
  case table =>
    intro k hk
    show Function.update σ.chain n t k = .ret m.channelsInfo
    rw [hc]
    exact hother (h.table k hk)
  case unsubscribed => exact fun hs => hi.trans (h.unsubscribed hs)
  case nodeIds => exact fun k d hk hd => hi.trans (h.nodeIds k d hk (hback hd))

/-- A discovery that succeeds puts its table in place, and its node list unless a handler throws. -/
theorem finish (h : LastFinished order objectsFolder members σ) {n : ℕ} (hn : n < σ.started)
    {tr : Transcript N} {d : DiscoveryResult N} (ht : Coro.Leads (discoverFolders objectsFolder) tr (.ret d))
    (hold : ∀ d', σ.chain n ≠ .ret d') (handlers subscription : Option String) :
    LastFinished order objectsFolder members { σ with
      chain := Function.update σ.chain n (.ret d)
      members := σ.members.settle order handlers subscription (.ok d)
      answers := Function.update σ.answers n tr
      succeeded := σ.succeeded ++ [n]
      subscribed := if handlers.isNone then σ.subscribed ++ [n] else σ.subscribed } := by
  have hnew : n ∉ σ.succeeded := by
    intro hmem
    obtain ⟨d', hd'⟩ := (h.succeeded n).mp hmem
    exact hold d' hd'
  constructor
  case leads => exact h.leads_update ht n
  case fresh => exact fun _ => h.fresh_update hn _
  case succeeded =>
    intro k
    by_cases hkn : k = n
    · subst hkn
      simp
    · simpa [Function.update_of_ne hkn, hkn] using h.succeeded k
  case subscribed =>
    show (if handlers.isNone then σ.subscribed ++ [n] else σ.subscribed).Sublist (σ.succeeded ++ [n])
    split_ifs
    · exact h.subscribed.append_right [n]
    · exact h.subscribed.trans (List.sublist_append_left _ _)
  case untouched => exact fun hs => absurd hs (by simp)
  case table =>
    intro k hk
    obtain rfl : n = k := by simpa using hk
    show Function.update σ.chain n (.ret d) n = _
    rw [Function.update_self, settle_ok_channelsInfo]
  case unsubscribed =>
    intro hs
    show (σ.members.settle order handlers subscription (.ok d)).nodeIds = _
    rw [settle_ok_nodeIds]
    split_ifs with hh
    · simp [hh] at hs
    · exact h.unsubscribed (by simpa [hh] using hs)
  case nodeIds =>
    intro k d' hk hd'
    show (σ.members.settle order handlers subscription (.ok d)).nodeIds = _
    rw [settle_ok_nodeIds]
    split_ifs with hh
    · obtain rfl : n = k := by simpa [hh] using hk
      have hd : d = d' := by simpa using hd'
      rw [hd]
    · have hk' : σ.subscribed.getLast? = some k := by simpa [hh] using hk
      have hkn : k ≠ n := by
        rintro rfl
        exact hnew (h.subscribed.subset (List.mem_of_getLast? hk'))
      exact h.nodeIds k d' hk' (by simpa [Function.update_of_ne hkn] using hd')

end LastFinished

/-- **Every step keeps it.** -/
theorem lastFinished_step (h : LastFinished order objectsFolder members σ) (hs : Step order σ a σ') :
    LastFinished order objectsFolder members σ' := by
  cases hs with
  | activate =>
    exact ⟨h.leads, fun n hn => h.fresh n (Nat.le_of_succ_le hn), h.succeeded, h.subscribed,
      h.untouched, h.table, h.unsubscribed, h.nodeIds⟩
  | answer n q x handlers subscription hn hq =>
    have hold := ne_ret_of_outstanding hq
    have hleads := (h.leads n).resume hq x
    simp only [State.answer, State.hear]
    cases hchain : (σ.chain n).resume x with
    | await q k =>
      rw [hchain] at hleads
      exact h.resume hn hleads nofun hold rfl rfl
    | throw what =>
      rw [hchain] at hleads
      exact h.resume hn hleads nofun hold rfl rfl
    | ret d =>
      rw [hchain] at hleads
      exact h.finish hn hleads hold handlers subscription

theorem getLast?_eq_some {l : List ℕ} {n : ℕ} (hl : l.Pairwise (· < ·)) (hn : n ∈ l)
    (hmax : ∀ m ∈ l, m ≤ n) : l.getLast? = some n := by
  rcases List.eq_nil_or_concat l with rfl | ⟨l', k, rfl⟩
  · cases hn
  · rw [List.concat_eq_append] at *
    rw [List.getLast?_concat]
    rcases List.mem_append.mp hn with hn | hn
    · have hlt := (List.pairwise_append.mp hl).2.2 n hn k List.mem_cons_self
      exact absurd (hmax k (by simp)) (Nat.not_le.mpr hlt)
    · rw [List.mem_singleton.mp hn]

/-- A discovery that has ended lists what has been answered to it. -/
theorem LastFinished.lists (h : LastFinished order objectsFolder members σ) {n : ℕ} {d : DiscoveryResult N}
    (hd : σ.chain n = .ret d) :
    Coro.Run (discoverFolders objectsFolder) (σ.answers n) (.ok d) ∧ Lists objectsFolder (σ.answers n) d := by
  have hleads := h.leads n
  rw [hd] at hleads
  obtain ⟨root, channels, target, slots, htr, htarget, -, hslots, htable⟩ := run_discoverFolders_ok hleads.run
  exact ⟨hleads.run, root, channels, target, slots, htr, htarget, hslots, htable⟩

/-- **The discovery that finishes last wins**, in every run. It is the latest session's if the ones
that succeed finish in the order in which they were started. -/
theorem last_finished_wins (h : Runs.Reachable (Step order) (.init objectsFolder members) σ) :
    LastFinished order objectsFolder members σ ∧
      (∀ n d, σ.chain n = .ret d → Coro.Run (discoverFolders objectsFolder) (σ.answers n) (.ok d) ∧
        Lists objectsFolder (σ.answers n) d) ∧
      (σ.succeeded.Pairwise (· < ·) → ∀ n d, σ.chain n = .ret d → (∀ m ∈ σ.succeeded, m ≤ n) →
        σ.members.channelsInfo = d ∧ (n ∈ σ.subscribed →
          σ.members.nodeIds = some ((order.entries d.nodes).map Sigma.fst))) := by
  have hlast : LastFinished order objectsFolder members σ :=
    h.invariant lastFinished_init fun _ _ _ _ hi _ hs => lastFinished_step hi hs
  refine ⟨hlast, fun n d hd => hlast.lists hd, fun hinc n d hd hmax => ⟨?_, fun hn => ?_⟩⟩
  · have htable := hlast.table n (getLast?_eq_some hinc ((hlast.succeeded n).mpr ⟨d, hd⟩) hmax)
    rw [hd] at htable
    injection htable with htable
    exact htable.symm
  · have hmax' : ∀ m ∈ σ.subscribed, m ≤ n := fun m hm => hmax m (hlast.subscribed.subset hm)
    exact hlast.nodeIds n d (getLast?_eq_some (hinc.sublist hlast.subscribed) hn hmax') hd

/-! ## A session that is overtaken -/

/-- In the second session `ADC Channels` has one slot. -/
def newServer : ℕ → Except String (BrowseResult ℕ)
  | 0 => answer [⟨true, .Object, true, 1, "ADC Channels"⟩]
  | 1 => answer [⟨true, .Object, true, 2, "Slot 1"⟩]
  | _ => answer [⟨true, .Variable, true, 5, "W2R"⟩]

/-- The table of the channel. -/
def newTable : DiscoveryResult ℕ := ⟨AList.singleton 5 "W2R"⟩

/-- The second discovery has finished when the first one, which has two slots to browse, does. -/
theorem exists_overtaken : ∃ σ : State ℕ, Runs.Reachable (Step stored) (.init 0 before) σ ∧
    (∀ n < σ.started, (σ.chain n).outstanding = none) ∧ σ.started = 2 ∧ σ.succeeded = [1, 0] ∧
    σ.chain 1 = .ret newTable ∧ σ.members.channelsInfo.nodes.keys = [4] ∧ σ.members.nodeIds = some [4] := by
  have h₀ : Runs.Reachable (Step stored) (.init 0 before) (.init 0 before) := .init
  have h₁ := (h₀.then .activate).then .activate
  have h₂ := h₁.then (.answer 0 0 (server (answer []) 0) none none (by decide) (by decide +kernel))
  have h₃ := h₂.then (.answer 1 0 (newServer 0) none none (by decide +kernel) (by decide +kernel))
  have h₄ := h₃.then (.answer 0 1 (server (answer []) 1) none none (by decide +kernel) (by decide +kernel))
  have h₅ := h₄.then (.answer 1 1 (newServer 1) none none (by decide +kernel) (by decide +kernel))
  have h₆ := h₅.then (.answer 0 2 (server (answer []) 2) none none (by decide +kernel) (by decide +kernel))
  have h₇ := h₆.then (.answer 1 2 (newServer 2) none none (by decide +kernel) (by decide +kernel))
  have h₈ := h₇.then (.answer 0 3 (server (answer []) 3) none none (by decide +kernel) (by decide +kernel))
  exact ⟨_, h₈, by decide +kernel, by decide +kernel, by decide +kernel, rfl, by decide +kernel, by decide +kernel⟩

/-- The latest session need not win. -/
theorem not_forall_latest_wins : ¬ ∀ σ : State ℕ, Runs.Reachable (Step stored) (.init 0 before) σ →
    (∀ n < σ.started, (σ.chain n).outstanding = none) → ∀ n < σ.started, ∀ d, σ.chain n = .ret d →
      (∀ m, n < m → m < σ.started → ∀ d', σ.chain m ≠ .ret d') → σ.members.channelsInfo = d ∧
        σ.members.nodeIds = some ((stored.entries d.nodes).map Sigma.fst) := by
  intro h
  obtain ⟨σ, hσ, hended, hstarted, -, hd, hkeys, -⟩ := exists_overtaken
  obtain ⟨htable, -⟩ := h σ hσ hended 1 (by omega) newTable hd fun m hm hm' => by omega
  rw [htable] at hkeys
  exact absurd hkeys (by decide)

/-- `last_finished_wins` for the two sessions: the first discovery finishes last. -/
theorem last_finished_wins_overtaken : ∃ σ : State ℕ, σ.succeeded = [1, 0] ∧
    σ.members.nodeIds = some [4] ∧ LastFinished stored 0 before σ ∧ Lists 0 (σ.answers 1) newTable := by
  obtain ⟨σ, hσ, -, -, hsucceeded, hd, -, hids⟩ := exists_overtaken
  obtain ⟨hlast, hlists, -⟩ := last_finished_wins hσ
  exact ⟨σ, hsucceeded, hids, hlast, (hlists 1 newTable hd).2⟩

end TPC.System.Sessions
