import Mathlib

/-!
# Windows of a list

* `Window`, `elements`: some elements of a list in a row, given by their place; `InPlace`, `replace`: an update of
  these elements that keeps their number;
* `Tiles`: windows that follow one another; `map_elements`, **`flatMap_elements`**: they are a partition of the list;
* **`foldl_replace`**: to update one window after the other is to map the update over the partition, `mapAll`;
  `elements_mapAll`, `getElem?_mapAll`: what is then in each window.
-/

/-- `size` elements from `offset` on. -/
structure Window where
  offset : ℕ
  size : ℕ
  deriving DecidableEq, Repr

/-- An update of some elements in place: their number stays. -/
structure InPlace (α : Type) where
  run : List α → List α
  length_run : ∀ l, (run l).length = l.length

namespace Window

variable {α : Type} {w : Window} {ws : List Window} {a b : ℕ} {l : List α}

/-- The elements of a list in the window. -/
def elements (w : Window) (l : List α) : List α := (l.drop w.offset).take w.size

/-- The list with these elements updated. -/
def replace (f : InPlace α) (w : Window) (l : List α) : List α :=
  l.take w.offset ++ (f.run (w.elements l) ++ l.drop (w.offset + w.size))

@[simp] theorem length_replace (f : InPlace α) (w : Window) (l : List α) : (w.replace f l).length = l.length := by
  simp only [replace, elements, f.length_run, List.length_append, List.length_take, List.length_drop]
  omega

theorem append_elements (w : Window) (l : List α) :
    l.take w.offset ++ (w.elements l ++ l.drop (w.offset + w.size)) = l := by
  rw [elements, ← List.drop_drop, List.take_append_drop, List.take_append_drop]

/-- The windows follow one another from `a` to `b`. -/
def Tiles : ℕ → ℕ → List Window → Prop
  | a, b, [] => a = b
  | a, b, w :: ws => w.offset = a ∧ Tiles (a + w.size) b ws

theorem Tiles.sum (h : Tiles a b ws) : a + (ws.map size).sum = b := by
  induction ws generalizing a with
  | nil => exact h
  | cons w ws ih =>
    rw [List.map_cons, List.sum_cons, ← Nat.add_assoc]
    exact ih h.2

theorem Tiles.bounds (h : Tiles a b ws) (hw : w ∈ ws) : a ≤ w.offset ∧ w.offset + w.size ≤ b := by
  induction ws generalizing a with
  | nil => cases hw
  | cons v ws ih =>
    have hsum := h.2.sum
    rcases List.mem_cons.mp hw with rfl | hw
    · rw [h.1]
      omega
    · obtain ⟨hle, hstop⟩ := ih h.2 hw
      exact ⟨by omega, hstop⟩

theorem Tiles.disjoint (h : Tiles a b ws) : ws.Pairwise fun w w' => w.offset + w.size ≤ w'.offset := by
  induction ws generalizing a with
  | nil => exact .nil
  | cons w ws ih =>
    refine .cons (fun w' hw' => ?_) (ih h.2)
    rw [h.1]
    exact (h.2.bounds hw').1

theorem length_elements (h : w.offset + w.size ≤ l.length) : (w.elements l).length = w.size := by
  rw [elements, List.length_take, List.length_drop]
  omega

theorem getElem?_elements {r : ℕ} (hr : r < w.size) : (w.elements l)[r]? = l[w.offset + r]? := by
  rw [elements, List.getElem?_take_of_lt hr, List.getElem?_drop]

theorem exists_elements_eq (hsize : 2 ≤ w.size) (hw : w.offset + w.size ≤ l.length) :
    ∃ a b rest, w.elements l = a :: b :: rest ∧ l[w.offset]? = some a ∧ l[w.offset + 1]? = some b := by
  have hlength := length_elements hw
  have hfirst : (w.elements l)[0]? = l[w.offset + 0]? := getElem?_elements (by omega)
  have hsecond : (w.elements l)[1]? = l[w.offset + 1]? := getElem?_elements (by omega)
  match w.elements l, hlength, hfirst, hsecond with
  | [], h, _, _ | [_], h, _, _ =>
    simp at h
    omega
  | a :: b :: rest, _, h₀, h₁ => exact ⟨a, b, rest, rfl, h₀.symm, h₁.symm⟩

/-- **The elements in the windows** are those of the list, split by the sizes. -/
theorem map_elements (h : Tiles a b ws) (pre : List α) (hpre : pre.length = a) (l : List α)
    (hl : b = a + l.length) : ws.map (·.elements (pre ++ l)) = (ws.map size).splitLengths l := by
  induction ws generalizing a pre l with
  | nil => rfl
  | cons w ws ih =>
    have hle : w.size ≤ l.length := by
      have := h.2.sum
      omega
    have hrest := ih h.2 (pre ++ l.take w.size) (by simp [hpre, hle]) (l.drop w.size) (by simp; omega)
    rw [List.append_assoc, List.take_append_drop] at hrest
    rw [List.map_cons, List.map_cons, List.splitLengths_cons, hrest, elements, h.1, ← hpre, List.drop_left]

/-- **A partition**: the elements in the windows, one window after the other, are the list. -/
theorem flatMap_elements (h : Tiles 0 l.length ws) : (ws.flatMap fun w => w.elements l) = l := by
  have hsum := h.sum
  have hmap := map_elements h [] rfl l (Nat.zero_add _).symm
  rw [List.nil_append] at hmap
  rw [List.flatMap_def, hmap]
  exact List.flatten_splitLengths l _ (by omega)

/-- The update of every window. -/
def mapAll (f : InPlace α) (ws : List Window) (l : List α) : List α := ws.flatMap fun w => f.run (w.elements l)

theorem foldl_replace_append (f : InPlace α) (h : Tiles a b ws) (pre : List α) (hpre : pre.length = a)
    (l : List α) (hl : b = a + l.length) : ws.foldl (fun l w => w.replace f l) (pre ++ l) =
      pre ++ ((ws.map size).splitLengths l).flatMap f.run := by
  induction ws generalizing a pre l with
  | nil =>
    have hnil : l = [] := List.length_eq_zero_iff.mp (by have := h.sum; simp at this; omega)
    rw [hnil]
    rfl
  | cons w ws ih =>
    have hle : w.size ≤ l.length := by
      have := h.2.sum
      omega
    have helements : w.elements (pre ++ l) = l.take w.size := by
      rw [elements, h.1, ← hpre, List.drop_left]
    have hreplace : w.replace f (pre ++ l) = (pre ++ f.run (l.take w.size)) ++ l.drop w.size := by
      rw [replace, helements, h.1, ← hpre, List.take_left, List.drop_length_add_append, List.append_assoc]
    rw [List.foldl_cons, hreplace, ih h.2 _ (by simp [f.length_run, hpre, hle]) _ (by simp; omega),
      List.map_cons, List.splitLengths_cons, List.flatMap_cons, List.append_assoc]

/-- **One window after the other** is all windows at once. -/
theorem foldl_replace (f : InPlace α) (h : Tiles 0 l.length ws) :
    ws.foldl (fun l w => w.replace f l) l = mapAll f ws l := by
  have hfold := foldl_replace_append f h [] rfl l (Nat.zero_add _).symm
  rw [← map_elements h [] rfl l (Nat.zero_add _).symm, List.flatMap_map] at hfold
  exact hfold

theorem length_mapAll (f : InPlace α) (h : Tiles 0 l.length ws) : (mapAll f ws l).length = l.length := by
  conv_rhs => rw [← flatMap_elements h]
  rw [mapAll, List.length_flatMap, List.length_flatMap]
  simp only [f.length_run]

theorem splitLengths_flatten (L : List (List α)) : (L.map List.length).splitLengths L.flatten = L := by
  induction L with
  | nil => rfl
  | cons l L ih => rw [List.map_cons, List.flatten_cons, List.splitLengths_cons, List.take_left, List.drop_left, ih]

/-- What is in a window after the update of all. -/
theorem elements_mapAll (f : InPlace α) (h : Tiles 0 l.length ws) (hw : w ∈ ws) :
    w.elements (mapAll f ws l) = f.run (w.elements l) := by
  have hsizes : ws.map size = (ws.map fun w => f.run (w.elements l)).map List.length := by
    rw [List.map_map]
    refine List.map_congr_left fun w hw => ?_
    rw [Function.comp_apply, f.length_run, length_elements (h.bounds hw).2]
  have hmap : ws.map (·.elements (mapAll f ws l)) = ws.map fun w => f.run (w.elements l) := by
    have hsplit := map_elements h [] rfl (mapAll f ws l) (by rw [length_mapAll f h, Nat.zero_add])
    rw [List.nil_append] at hsplit
    rw [hsplit, hsizes, mapAll, List.flatMap_def]
    exact splitLengths_flatten _
  exact List.map_inj_left.mp hmap w hw

theorem mapAll_mapAll_self {f g : InPlace α} (h : Tiles 0 l.length ws)
    (hgf : ∀ w ∈ ws, g.run (f.run (w.elements l)) = w.elements l) : mapAll g ws (mapAll f ws l) = l := by
  have hall : ∀ w ∈ ws, g.run (w.elements (mapAll f ws l)) = w.elements l := fun w hw => by
    rw [elements_mapAll f h hw, hgf w hw]
  exact (List.flatMap_congr hall).trans (flatMap_elements h)

/-- Each element after the update of all. -/
theorem getElem?_mapAll (f : InPlace α) (h : Tiles 0 l.length ws) (hw : w ∈ ws) {r : ℕ} (hr : r < w.size) :
    (mapAll f ws l)[w.offset + r]? = (f.run (w.elements l))[r]? := by
  rw [← elements_mapAll f h hw, getElem?_elements hr]

end Window
