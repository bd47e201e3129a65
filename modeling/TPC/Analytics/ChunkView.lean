import TPC.Core.Machine
import TPC.Lib.Prog
import TPC.Lib.Window

/-!
# Chunk views

`utilities/chunkview.hpp`. A view reads and writes through the span it was made from; its iterators are two
pointers into the span, here the offsets from the first element.

* `ChunkView`, `create`, `Iterator` with its `deref` and `next`, `forEach`;
* `iterate_next`: where `++` leads to; `count`, `chunks`: the chunks that are visited;
* **`forEach_eq`**: the loop visits these, and ends;
* `Partitions`, **`create_partitions`**: they are a partition of the array.
-/

namespace TPC.Analytics

/-- `static_cast<std::size_t>` of a `std::ptrdiff_t`. -/
def ofDifference (d : ℤ) : ℕ := (if 0 ≤ d then d else d + 2 ^ 64).toNat

/-- `ChunkView`, on a span of `size` elements. -/
structure ChunkView where
  size : ℕ
  chunkSize : ℕ
  chunkSize_ne : chunkSize ≠ 0

namespace ChunkView

/-- The constructor. -/
def create (size chunkSize : ℕ) : Call ChunkView :=
  if h : chunkSize = 0 then .error (.exception (.invalidArgument "Chunk size must be non-zero"))
  else .ok ⟨size, chunkSize, h⟩

/-- `ChunkView::Iterator`. -/
structure Iterator where
  current : ℕ
  end_ : ℕ
  chunkSize : ℕ
  deriving DecidableEq, Repr

namespace Iterator

/-- `static_cast<std::size_t>(end_ - current_)`. -/
def remaining (it : Iterator) : ℕ := ofDifference ((it.end_ : ℤ) - it.current)

theorem remaining_of_le {c e k : ℕ} (h : c ≤ e) : (⟨c, e, k⟩ : Iterator).remaining = e - c := by
  rw [remaining, ofDifference, if_pos (Int.sub_nonneg_of_le (Int.ofNat_le.mpr h)), ← Nat.cast_sub h,
    Int.toNat_natCast]

/-- `operator*`. -/
def deref (it : Iterator) : Window := ⟨it.current, min it.remaining it.chunkSize⟩

/-- `operator++`. -/
def next (it : Iterator) : Iterator := { it with current := it.current + min it.chunkSize it.remaining }

end Iterator

variable (v : ChunkView)

def beginIterator : Iterator := ⟨0, v.size, v.chunkSize⟩

def endIterator : Iterator := ⟨v.size, v.size, v.chunkSize⟩

section Loop

variable {S L : Type} (body : Window → Prog S Exit L Unit)

/-- The loop of `std::ranges::for_each`, `for (; first != last; ++first) body(*first)`. -/
def forEachFrom (last : Iterator) : ℕ → Iterator → Prog S Exit L Unit
  | 0, _ => .throw (.exception .nonTermination)
  | fuel + 1, first =>
    if first = last then .ret ()
    else do
      body first.deref
      forEachFrom last fuel first.next

/-- `std::ranges::for_each(chunks, body)`. The loop is given more steps than there are elements. -/
def forEach : Prog S Exit L Unit := forEachFrom body v.endIterator (v.size + 1) v.beginIterator

end Loop

/-! ## The chunks -/

/-- The number of chunks. -/
def count : ℕ := v.size ⌈/⌉ v.chunkSize

/-- The chunks that the iterator shows on its way. -/
def chunks : List Window := (List.range v.count).map fun j => (Iterator.next^[j] v.beginIterator).deref

variable {v}

theorem create_of_ne {size chunkSize : ℕ} (h : chunkSize ≠ 0) : create size chunkSize = .ok ⟨size, chunkSize, h⟩ :=
  dif_neg h

theorem chunkSize_pos : 0 < v.chunkSize := Nat.pos_of_ne_zero v.chunkSize_ne

theorem lt_count_iff {j : ℕ} : j < v.count ↔ j * v.chunkSize < v.size := by
  rw [← not_le, count, ceilDiv_le_iff_le_mul chunkSize_pos, not_le, Nat.mul_comm]

theorem count_le : v.count ≤ v.size :=
  (ceilDiv_le_iff_le_mul chunkSize_pos).mpr (Nat.le_mul_of_pos_left _ chunkSize_pos)

/-- **After `j` steps** the iterator is at the `j`-th chunk, or at the end. -/
theorem iterate_next (j : ℕ) :
    Iterator.next^[j] v.beginIterator = ⟨min (j * v.chunkSize) v.size, v.size, v.chunkSize⟩ := by
  induction j with
  | zero => simp [beginIterator]
  | succ j ih =>
    rw [Function.iterate_succ_apply', ih, Iterator.next, Iterator.remaining_of_le (min_le_right _ _), Nat.succ_mul]
    simp only [Iterator.mk.injEq, and_true]
    omega

theorem iterate_next_of_count_le {j : ℕ} (hj : v.count ≤ j) : Iterator.next^[j] v.beginIterator = v.endIterator := by
  have hle : ¬ j * v.chunkSize < v.size := mt lt_count_iff.mpr (Nat.not_lt.mpr hj)
  rw [iterate_next, min_eq_right (Nat.not_lt.mp hle), endIterator]

theorem iterate_next_ne {j : ℕ} (hj : j < v.count) : Iterator.next^[j] v.beginIterator ≠ v.endIterator := by
  have hlt := lt_count_iff.mp hj
  rw [iterate_next, endIterator]
  simp only [ne_eq, Iterator.mk.injEq, and_true]
  omega

theorem deref_iterate {j : ℕ} (hj : j < v.count) : (Iterator.next^[j] v.beginIterator).deref =
    ⟨j * v.chunkSize, min (v.size - j * v.chunkSize) v.chunkSize⟩ := by
  have hlt := lt_count_iff.mp hj
  rw [iterate_next, Iterator.deref, Iterator.remaining_of_le (min_le_right _ _), min_eq_left hlt.le]

/-- **The loop ends**, and has visited the chunks. -/
theorem forEach_eq {S L : Type} (body : Window → Prog S Exit L Unit) : v.forEach body = Prog.each body v.chunks := by
  suffices ∀ m j fuel, j + m = v.count → m < fuel →
      forEachFrom body v.endIterator fuel (Iterator.next^[j] v.beginIterator) =
        Prog.each body ((List.range' j m).map fun i => (Iterator.next^[i] v.beginIterator).deref) by
    have h := this v.count 0 (v.size + 1) (Nat.zero_add _) (Nat.lt_succ_of_le count_le)
    rwa [← List.range_eq_range'] at h
  intro m
  induction m with
  | zero =>
    intro j fuel hj hfuel
    obtain ⟨fuel, rfl⟩ := Nat.exists_eq_succ_of_ne_zero (Nat.ne_of_gt hfuel)
    have hend : v.count ≤ j := by omega
    rw [forEachFrom, if_pos (iterate_next_of_count_le hend)]
    rfl
  | succ m ih =>
    intro j fuel hj hfuel
    obtain ⟨fuel, rfl⟩ := Nat.exists_eq_succ_of_ne_zero (Nat.ne_of_gt (Nat.zero_lt_of_lt hfuel))
    have hrest := ih (j + 1) fuel (by omega) (by omega)
    rw [forEachFrom, if_neg (iterate_next_ne (by omega)), List.range'_succ, List.map_cons, Prog.each, ← hrest,
      Function.iterate_succ_apply']
    rfl

/-- **The chunks follow one another** through the array. -/
theorem tiles_chunks : Window.Tiles 0 v.size v.chunks := by
  suffices ∀ m j, j + m = v.count → Window.Tiles (Iterator.next^[j] v.beginIterator).current v.size
      ((List.range' j m).map fun i => (Iterator.next^[i] v.beginIterator).deref) by
    have h := this v.count 0 (Nat.zero_add _)
    rwa [← List.range_eq_range'] at h
  intro m
  induction m with
  | zero =>
    intro j hj
    have hend : v.count ≤ j := by omega
    rw [iterate_next_of_count_le hend]
    exact rfl
  | succ m ih =>
    intro j hj
    have hrest := ih (j + 1) (by omega)
    rw [Function.iterate_succ_apply', Iterator.next, min_comm] at hrest
    rw [List.range'_succ, List.map_cons]
    exact ⟨rfl, hrest⟩

theorem mem_chunks {w : Window} : w ∈ v.chunks ↔
    ∃ j < v.count, w = ⟨j * v.chunkSize, min (v.size - j * v.chunkSize) v.chunkSize⟩ := by
  rw [chunks, List.mem_map]
  constructor
  · rintro ⟨j, hj, rfl⟩
    exact ⟨j, List.mem_range.mp hj, deref_iterate (List.mem_range.mp hj)⟩
  · rintro ⟨j, hj, rfl⟩
    exact ⟨j, List.mem_range.mpr hj, deref_iterate hj⟩

theorem two_le_size_iff (h : 0 < v.size) :
    (∀ w ∈ v.chunks, 2 ≤ w.size) ↔ v.chunkSize ≠ 1 ∧ v.size % v.chunkSize ≠ 1 := by
  have hpos := chunkSize_pos (v := v)
  constructor
  · intro hall
    have hsize : ∀ j, j * v.chunkSize < v.size → 2 ≤ min (v.size - j * v.chunkSize) v.chunkSize :=
      fun j hj => hall _ (mem_chunks.mpr ⟨j, lt_count_iff.mpr hj, rfl⟩)
    refine ⟨fun hone => ?_, fun hmod => ?_⟩
    · have := hsize 0 (by rwa [Nat.zero_mul])
      omega
    · have hdiv := Nat.div_add_mod' v.size v.chunkSize
      have := hsize (v.size / v.chunkSize) (by omega)
      omega
  · rintro ⟨hone, hmod⟩ w hw
    obtain ⟨j, hj, rfl⟩ := mem_chunks.mp hw
    have hlt := lt_count_iff.mp hj
    refine le_min ?_ (by omega)
    by_contra hsmall
    have hn : v.size = 1 + j * v.chunkSize := by omega
    rw [hn, Nat.add_mul_mod_self_right, Nat.mod_eq_of_lt (by omega)] at hmod
    exact hmod rfl

/-- A loop that updates a buffer chunk by chunk. `D` is the state that holds the buffer. -/
theorem exec_forEach {α S L : Type} (D : List α → S) (f : InPlace α) {body : Window → Prog S Exit L Unit}
    (hbody : ∀ w ∈ v.chunks, ∀ xs : List α, xs.length = v.size →
      Prog.exec (body w) (D xs) = some (.ok (), D (w.replace f xs)))
    {xs : List α} (hxs : xs.length = v.size) :
    Prog.exec (v.forEach body) (D xs) = some (.ok (), D (Window.mapAll f v.chunks xs)) := by
  have hstep : ∀ w ∈ v.chunks, ∀ ys : List α, ys.length = v.size →
      Prog.exec (body w) (D ys) = some (.ok (), D (w.replace f ys)) ∧ (w.replace f ys).length = v.size :=
    fun w hw ys hys => ⟨hbody w hw ys hys, by rw [Window.length_replace, hys]⟩
  rw [forEach_eq, ← Window.foldl_replace f (hxs ▸ tiles_chunks)]
  exact Prog.exec_each D (fun ys => ys.length = v.size) _ _ hstep hxs

theorem mem_chunks_of_dvd (h : v.chunkSize ∣ v.size) {w : Window} : w ∈ v.chunks ↔
    ∃ j, j * v.chunkSize < v.size ∧ w = ⟨j * v.chunkSize, v.chunkSize⟩ := by
  obtain ⟨n, hn⟩ := h
  have hfull : ∀ j, j * v.chunkSize < v.size → min (v.size - j * v.chunkSize) v.chunkSize = v.chunkSize := by
    intro j hj
    have hle : (j + 1) * v.chunkSize ≤ v.size := by
      rw [hn, Nat.mul_comm] at hj
      rw [hn, Nat.mul_comm]
      exact Nat.mul_le_mul_left _ (Nat.lt_of_mul_lt_mul_left hj)
    rw [Nat.succ_mul] at hle
    omega
  rw [mem_chunks]
  refine exists_congr fun j => ?_
  rw [lt_count_iff]
  exact and_congr_right fun hj => by rw [hfull j hj]

/-- What happens on the way from `begin()` to `end()`. -/
structure Partitions (v : ChunkView) : Prop where
  /-- `++` leads to `end()` in `count` steps, not earlier, and never past it. -/
  reaches : Iterator.next^[v.count] v.beginIterator = v.endIterator
  before : ∀ j < v.count, Iterator.next^[j] v.beginIterator ≠ v.endIterator
  within : ∀ j, (Iterator.next^[j] v.beginIterator).current ≤ v.size
  /-- A loop over the view ends, and visits the chunks in order. -/
  visits : ∀ (S L : Type) (body : Window → Prog S Exit L Unit), v.forEach body = Prog.each body v.chunks
  /-- A chunk is not empty, and lies in the array. -/
  inBounds : ∀ w ∈ v.chunks, 0 < w.size ∧ w.offset + w.size ≤ v.size
  disjoint : v.chunks.Pairwise fun w w' => w.offset + w.size ≤ w'.offset
  /-- All have `chunkSize` elements, except possibly the last. -/
  full : ∀ j w, v.chunks[j]? = some w → w.size ≤ v.chunkSize ∧ (j + 1 < v.count → w.size = v.chunkSize)
  /-- Together they are the array. -/
  concatenated : ∀ (α : Type) (xs : List α), xs.length = v.size → (v.chunks.flatMap fun w => w.elements xs) = xs
  /-- To replace each of them in place is to map over the partition. -/
  replaced : ∀ (α L : Type) (f : InPlace α) (xs : List α), xs.length = v.size →
    Prog.exec (v.forEach fun w => (Prog.modify (w.replace f) : Prog (List α) Exit L Unit)) xs =
      some (.ok (), v.chunks.flatMap fun w => f.run (w.elements xs))

theorem partitions (v : ChunkView) : Partitions v where
  reaches := iterate_next_of_count_le le_rfl
  before j hj := iterate_next_ne hj
  within j := by
    rw [iterate_next]
    exact min_le_right _ _
  visits S L body := forEach_eq body
  inBounds w hw := by
    refine ⟨?_, (tiles_chunks.bounds hw).2⟩
    obtain ⟨j, hj, rfl⟩ := mem_chunks.mp hw
    exact lt_min (Nat.sub_pos_of_lt (lt_count_iff.mp hj)) chunkSize_pos
  disjoint := tiles_chunks.disjoint
  full j w hw := by
    rw [chunks, List.getElem?_map, Option.map_eq_some_iff] at hw
    obtain ⟨i, hi, rfl⟩ := hw
    obtain ⟨hj, rfl⟩ := List.getElem?_eq_some_iff.mp hi
    rw [List.length_range] at hj
    rw [List.getElem_range, deref_iterate hj]
    refine ⟨min_le_right _ _, fun hnext => min_eq_right ?_⟩
    have hlt := lt_count_iff.mp hnext
    rw [Nat.succ_mul] at hlt
    omega
  concatenated α xs hxs := Window.flatMap_elements (hxs ▸ tiles_chunks)
  replaced α L f xs hxs := exec_forEach id f (fun w _ ys _ => rfl) hxs

/-- **A view partitions its array**, whatever the size of the array and of the chunks. -/
theorem create_partitions (size : ℕ) {chunkSize : ℕ} (h : 1 ≤ chunkSize) :
    ∃ v, create size chunkSize = .ok v ∧ v.size = size ∧ v.chunkSize = chunkSize ∧ v.Partitions :=
  ⟨_, create_of_ne (Nat.ne_of_gt h), rfl, rfl, partitions _⟩

/-- `create_partitions` for five elements in chunks of two. -/
theorem create_partitions_five :
    1 ≤ 2 ∧ ∃ v, create 5 2 = .ok v ∧ v.size = 5 ∧ v.chunkSize = 2 ∧ v.Partitions :=
  ⟨by decide, create_partitions 5 (by decide)⟩

end ChunkView

end TPC.Analytics
