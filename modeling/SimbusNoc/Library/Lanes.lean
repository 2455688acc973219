import Mathlib.Data.List.Nodup
import Mathlib.Tactic.TypeStar

/-!
# Lists cut into lanes

The members of a list in stretches of one width, the lanes. Writing a lane changes no other, so a
loop that rewrites lanes one after the other leaves in each what it wrote there, computed from what
was there before.

## Reading and writing by places

Everything is proved through `getElem?`: a place of the list belongs to one lane, which is the
quotient of the place by the width, and `getElem?_setLane` says for each place whether the write
reaches it. That two lanes have no place in common is the only arithmetic fact that is needed.

## Loops

`mapLanes` runs through a list of lane numbers and computes each new lane from the old list as it
is then. When no number comes twice, what a lane is computed from is what it held at the beginning
(`lane_mapLanes_of_mem`), so the loop acts on every lane by itself. Lanes that do not occur, and
what lies behind the last one, stay as they are.
-/

namespace Lanes

variable {α : Type*} {w i j : ℕ} {l d : List α}

/-- Lane `i` of a list. -/
def lane (w : ℕ) (l : List α) (i : ℕ) : List α := (l.drop (i * w)).take w

/-- The list with another lane `i`. -/
def setLane (w : ℕ) (l : List α) (i : ℕ) (d : List α) : List α :=
  l.take (i * w) ++ d ++ l.drop (i * w + w)

theorem length_lane (hi : i * w + w ≤ l.length) : (lane w l i).length = w := by
  rw [lane, List.length_take, List.length_drop]
  omega

theorem getElem?_lane (n : ℕ) : (lane w l i)[n]? = if n < w then l[i * w + n]? else none := by
  rw [lane, List.getElem?_take, List.getElem?_drop]

theorem length_setLane (hd : d.length = w) (hi : i * w + w ≤ l.length) :
    (setLane w l i d).length = l.length := by
  rw [setLane, List.length_append, List.length_append, List.length_take, List.length_drop, hd]
  omega

/-- A member lies in the lane that is written, or it stays. -/
theorem getElem?_setLane (hd : d.length = w) (hi : i * w + w ≤ l.length) (n : ℕ) :
    (setLane w l i d)[n]? = if i * w ≤ n ∧ n < i * w + w then d[n - i * w]? else l[n]? := by
  have htake : (l.take (i * w)).length = i * w := by
    rw [List.length_take]
    omega
  rw [setLane, List.append_assoc]
  by_cases hbefore : n < i * w
  · rw [List.getElem?_append_left (htake.symm ▸ hbefore), List.getElem?_take, if_pos hbefore,
      if_neg (by omega)]
  rw [List.getElem?_append_right (by omega), htake]
  by_cases hin : n < i * w + w
  · rw [List.getElem?_append_left (by omega), if_pos ⟨by omega, hin⟩]
  · rw [List.getElem?_append_right (by omega), List.getElem?_drop, if_neg (by omega)]
    congr 1
    omega

theorem lane_setLane_self (hd : d.length = w) (hi : i * w + w ≤ l.length) :
    lane w (setLane w l i d) i = d := by
  refine List.ext_getElem? fun n ↦ ?_
  rw [getElem?_lane]
  split
  · rw [getElem?_setLane hd hi, if_pos ⟨by omega, by omega⟩, Nat.add_sub_cancel_left]
  · exact (List.getElem?_eq_none (by omega)).symm

theorem eq_of_mem_lane {n : ℕ} (hi : i * w ≤ n) (hi' : n < i * w + w) (hj : j * w ≤ n)
    (hj' : n < j * w + w) : i = j := by
  have hlt : ∀ {i j : ℕ}, i * w ≤ n → n < j * w + w → i < j + 1 := fun hi hj' ↦
    Nat.lt_of_mul_lt_mul_right (a := w) (by rw [Nat.succ_mul]; omega)
  have h := hlt hi hj'
  have h' := hlt hj hi'
  omega

theorem lane_setLane_of_ne (hd : d.length = w) (hi : i * w + w ≤ l.length) (hij : j ≠ i) :
    lane w (setLane w l i d) j = lane w l j := by
  refine List.ext_getElem? fun n ↦ ?_
  rw [getElem?_lane, getElem?_lane]
  split
  · rw [getElem?_setLane hd hi, if_neg]
    rintro ⟨h, h'⟩
    exact hij (eq_of_mem_lane (Nat.le_add_right _ _) (by omega) h h')
  · rfl

theorem flatMap_lane {n : ℕ} (h : l.length = n * w) : (List.range n).flatMap (lane w l) = l := by
  induction n generalizing l with
  | zero =>
    rw [Nat.zero_mul, List.length_eq_zero_iff] at h
    rw [h]
    rfl
  | succ n ih =>
    have hdrop : (l.drop w).length = n * w := by
      rw [List.length_drop, h, Nat.succ_mul, Nat.add_sub_cancel]
    have hlane : ∀ i, lane w l (i + 1) = lane w (l.drop w) i := fun i ↦ by
      rw [lane, lane, List.drop_drop, Nat.succ_mul, Nat.add_comm]
    rw [List.range_succ_eq_map, List.flatMap_cons, List.flatMap_map]
    simp only [hlane]
    rw [ih hdrop, lane, Nat.zero_mul, List.drop_zero, List.take_append_drop]

/-! ## Lists of blocks

When a list is a sequence of blocks of one size, a lane of the list that is as wide as some blocks
is a lane of the blocks, spelled out.
-/

section Blocks

variable {β : Type*} {g : β → List α} {m : ℕ} (hg : ∀ b, (g b).length = m) {bs : List β}
include hg

theorem drop_flatMap (n : ℕ) : (bs.flatMap g).drop (n * m) = (bs.drop n).flatMap g := by
  induction n generalizing bs with
  | zero => rw [Nat.zero_mul, List.drop_zero, List.drop_zero]
  | succ n ih =>
    cases bs with
    | nil => rw [List.drop_nil, List.flatMap_nil, List.drop_nil]
    | cons b bs =>
      rw [List.flatMap_cons, List.drop_succ_cons, ← ih, Nat.succ_mul, Nat.add_comm,
        ← List.drop_drop, ← hg b, List.drop_left]

theorem take_flatMap (n : ℕ) : (bs.flatMap g).take (n * m) = (bs.take n).flatMap g := by
  induction n generalizing bs with
  | zero => rw [Nat.zero_mul, List.take_zero, List.take_zero, List.flatMap_nil]
  | succ n ih =>
    cases bs with
    | nil => rw [List.take_nil, List.flatMap_nil, List.take_nil]
    | cons b bs =>
      rw [List.flatMap_cons, List.take_succ_cons, List.flatMap_cons, ← ih, Nat.succ_mul,
        Nat.add_comm, List.take_append, hg b, Nat.add_sub_cancel_left,
        List.take_of_length_le (by rw [hg b]; omega)]

theorem lane_flatMap (i : ℕ) : lane (w * m) (bs.flatMap g) i = (lane w bs i).flatMap g := by
  rw [lane, lane, ← Nat.mul_assoc, drop_flatMap hg, take_flatMap hg]

end Blocks

theorem lane_one_range {n : ℕ} (hi : i < n) : lane 1 (List.range n) i = [i] := by
  refine List.ext_getElem? fun p ↦ ?_
  rw [getElem?_lane, Nat.mul_one]
  split
  · obtain rfl : p = 0 := by omega
    rw [Nat.add_zero, List.getElem?_range hi]
    rfl
  · exact (List.getElem?_eq_none (by simp; omega)).symm

/-! ## Loops over lanes

A loop that rewrites the lanes of a list one after the other. Different lanes have no place in
common, so each is rewritten from what it held at the beginning, and what lies in no lane stays.
-/

/-- The lanes of `js` are rewritten one after the other, each by what it holds and its number. -/
def mapLanes (w : ℕ) (f : ℕ → List α → List α) (l : List α) (js : List ℕ) : List α :=
  js.foldl (fun l j ↦ setLane w l j (f j (lane w l j))) l

variable {f : ℕ → List α → List α} {js : List ℕ}

theorem mapLanes_cons :
    mapLanes w f l (j :: js) = mapLanes w f (setLane w l j (f j (lane w l j))) js := rfl

section Loop

variable (hf : ∀ j d, d.length = w → (f j d).length = w)
include hf

theorem length_mapLanes (hjs : ∀ j ∈ js, j * w + w ≤ l.length) :
    (mapLanes w f l js).length = l.length := by
  induction js generalizing l with
  | nil => rfl
  | cons j js ih =>
    have hj := hjs j List.mem_cons_self
    have hlength := length_setLane (hf j _ (length_lane hj)) hj
    rw [mapLanes_cons, ih fun i hi ↦ hlength ▸ hjs i (List.mem_cons_of_mem j hi), hlength]

/-- What lies in none of the lanes stays. -/
theorem getElem?_mapLanes_of_notMem (hjs : ∀ j ∈ js, j * w + w ≤ l.length) {n : ℕ}
    (hn : ∀ j ∈ js, ¬ (j * w ≤ n ∧ n < j * w + w)) : (mapLanes w f l js)[n]? = l[n]? := by
  induction js generalizing l with
  | nil => rfl
  | cons j js ih =>
    have hj := hjs j List.mem_cons_self
    have hd := hf j _ (length_lane hj)
    rw [mapLanes_cons, ih, getElem?_setLane hd hj, if_neg (hn j List.mem_cons_self)]
    · exact fun i hi ↦ length_setLane hd hj ▸ hjs i (List.mem_cons_of_mem j hi)
    · exact fun i hi ↦ hn i (List.mem_cons_of_mem j hi)

theorem lane_mapLanes_of_notMem (hjs : ∀ j ∈ js, j * w + w ≤ l.length) (hi : i ∉ js) :
    lane w (mapLanes w f l js) i = lane w l i := by
  refine List.ext_getElem? fun n ↦ ?_
  rw [getElem?_lane, getElem?_lane]
  split
  · refine getElem?_mapLanes_of_notMem hf hjs fun j hj ⟨h, h'⟩ ↦ hi ?_
    rwa [eq_of_mem_lane (Nat.le_add_right _ _) (by omega) h h']
  · rfl

/-- Each lane is rewritten once, from what it held at the beginning. -/
theorem lane_mapLanes_of_mem (hjs : ∀ j ∈ js, j * w + w ≤ l.length) (hnodup : js.Nodup)
    (hi : i ∈ js) : lane w (mapLanes w f l js) i = f i (lane w l i) := by
  induction js generalizing l with
  | nil => cases hi
  | cons j js ih =>
    obtain ⟨hnotMem, hnodup⟩ := List.nodup_cons.mp hnodup
    have hj := hjs j List.mem_cons_self
    have hd := hf j _ (length_lane hj)
    have hrest : ∀ i ∈ js, i * w + w ≤ (setLane w l j (f j (lane w l j))).length :=
      fun i hi ↦ length_setLane hd hj ▸ hjs i (List.mem_cons_of_mem j hi)
    rw [mapLanes_cons]
    rcases List.mem_cons.mp hi with rfl | hi
    · rw [lane_mapLanes_of_notMem hf hrest hnotMem, lane_setLane_self hd hj]
    · rw [ih hrest hnodup hi, lane_setLane_of_ne hd hj fun heq ↦ hnotMem (heq ▸ hi)]

end Loop

end Lanes
