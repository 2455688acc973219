import Mathlib.Order.Lattice
import Mathlib.Order.Defs.LinearOrder

/-!
# Walks around a ring

`n` places stand in a circle. A walk from `z` to `t` goes forward, or, where both directions are
open and the way back is shorter, back. Each step chooses afresh, and chooses as the one before
did: a step forward shortens the way forward and lengthens the other one.

## Remainders

Places are numbers below `n`, so every remainder here is of a number below `2 * n`, and is the
number itself or the number less `n`. Once `ahead` and `place` are written in this way, as case
distinctions, everything about them is linear arithmetic.

## The walk and its length

`place` is the place after `k` steps in the direction chosen at the start, and `step` is what is
chosen at each place anew. The two agree on the whole walk (`goesBack_place`, `step_place`), also
on a tie, which goes forward each time. The walk comes to `t` after `length` steps and not earlier,
and its length is the distance of the two places (`length_eq_distance`).
-/

namespace RingWalk

variable {n z t k : ℕ} {both : Bool}

/-- The number of steps forward from `z` to `t`. -/
def ahead (n z t : ℕ) : ℕ := (t + n - z) % n

/-- The walk from `z` to `t` goes back. -/
def goesBack (both : Bool) (n z t : ℕ) : Bool := both && decide (ahead n t z < ahead n z t)

/-- The place after `z` on the walk to `t`. -/
def step (both : Bool) (n z t : ℕ) : ℕ :=
  if goesBack both n z t then (z + n - 1) % n else (z + 1) % n

/-- The number of steps of the walk. -/
def length (both : Bool) (n z t : ℕ) : ℕ :=
  if goesBack both n z t then ahead n t z else ahead n z t

/-- The place `k` steps from `z`. -/
def place (back : Bool) (n z k : ℕ) : ℕ := if back then (z + n - k) % n else (z + k) % n

/-! ## Remainders of small numbers

`ahead` and `place` are differences and sums modulo the length of the ring, of numbers below it. So
each remainder is the number itself, or the number less the length, and the rest is linear
arithmetic.
-/

private theorem mod_eq_ite {a : ℕ} (ha : a < 2 * n) : a % n = if a < n then a else a - n := by
  split_ifs with hlt
  · exact Nat.mod_eq_of_lt hlt
  · rw [Nat.mod_eq_sub_mod (Nat.le_of_not_lt hlt)]
    exact Nat.mod_eq_of_lt (by omega)

theorem ahead_eq (hz : z < n) (ht : t < n) :
    ahead n z t = if z ≤ t then t - z else t + n - z := by
  rw [ahead, mod_eq_ite (by omega)]
  split_ifs <;> omega

theorem place_false_eq (hz : z < n) (hk : k ≤ n) :
    place false n z k = if z + k < n then z + k else z + k - n := by
  rw [place, if_neg Bool.false_ne_true, mod_eq_ite (by omega)]

theorem place_true_eq (hz : z < n) (hk : k ≤ n) :
    place true n z k = if k ≤ z then z - k else z + n - k := by
  rw [place, if_pos rfl, mod_eq_ite (by omega)]
  split_ifs <;> omega

theorem ahead_lt (hz : z < n) : ahead n z t < n := Nat.mod_lt _ (Nat.zero_lt_of_lt hz)

theorem place_lt {back : Bool} (hz : z < n) : place back n z k < n := by
  rw [place]
  split_ifs
  · exact Nat.mod_lt _ (Nat.zero_lt_of_lt hz)
  · exact Nat.mod_lt _ (Nat.zero_lt_of_lt hz)

@[simp] theorem place_zero {back : Bool} (hz : z < n) : place back n z 0 = z := by
  cases back
  · rw [place_false_eq hz (Nat.zero_le n)]
    split_ifs <;> omega
  · rw [place_true_eq hz (Nat.zero_le n), if_pos (Nat.zero_le z), Nat.sub_zero]

theorem ahead_eq_zero_iff (hz : z < n) (ht : t < n) : ahead n z t = 0 ↔ z = t := by
  rw [ahead_eq hz ht]
  split_ifs <;> omega

theorem place_ahead (hz : z < n) (ht : t < n) : place false n z (ahead n z t) = t := by
  rw [place_false_eq hz (ahead_lt hz).le, ahead_eq hz ht]
  split_ifs <;> omega

theorem ahead_place (hz : z < n) (hk : k < n) : ahead n z (place false n z k) = k := by
  rw [ahead_eq hz (place_lt hz), place_false_eq hz hk.le]
  split_ifs <;> omega

/-! ## The length -/

@[simp] theorem goesBack_false : goesBack false n z t = false := rfl

theorem goesBack_true : goesBack true n z t = true ↔ ahead n t z < ahead n z t := by
  rw [goesBack, Bool.true_and, decide_eq_true_eq]

/-- With both directions open the walk takes the shorter one, and forward is taken on a tie. -/
theorem length_true (hz : z < n) (ht : t < n) :
    length true n z t = min (ahead n z t) (n - ahead n z t) ∧
      (goesBack true n z t = true ↔ n < 2 * ahead n z t) := by
  have hlt := ahead_lt (t := t) hz
  have hback : ahead n t z = if ahead n z t = 0 then 0 else n - ahead n z t := by
    rw [ahead_eq hz ht, ahead_eq ht hz]
    split_ifs <;> omega
  have hiff : goesBack true n z t = true ↔ n < 2 * ahead n z t := by
    rw [goesBack_true, hback]
    split_ifs <;> omega
  refine ⟨?_, hiff⟩
  rw [length, hback]
  by_cases h : goesBack true n z t = true
  · have hlong := hiff.mp h
    rw [if_pos h, if_neg (by omega), min_eq_right (by omega)]
  · have hshort := mt hiff.mpr h
    rw [if_neg h, min_eq_left (by omega)]

/-- The distance of two places on a ring: both ways round count, or the way forward only. -/
def distance (both : Bool) (n z t : ℕ) : ℕ :=
  if both then min (ahead n z t) (n - ahead n z t) else ahead n z t

theorem length_eq_distance (hz : z < n) (ht : t < n) : length both n z t = distance both n z t := by
  cases both with
  | false => rfl
  | true => rw [(length_true hz ht).1, distance, if_pos rfl]

theorem length_lt (hz : z < n) (ht : t < n) : length both n z t < n := by
  rw [length]
  split_ifs
  · exact ahead_lt ht
  · exact ahead_lt hz

/-! ## The walk -/

/-- `k` steps forward bring the walk `k` places nearer, and as much farther the other way round. -/
private theorem ahead_place_false (hz : z < n) (ht : t < n) (hk : k < ahead n z t) :
    ahead n (place false n z k) t = ahead n z t - k ∧
      ahead n t (place false n z k) = ahead n t z + k := by
  have hlt := ahead_lt (t := t) hz
  have hplace := place_false_eq hz (hk.le.trans hlt.le)
  rw [ahead_eq hz ht] at hk
  rw [ahead_eq (place_lt hz) ht, ahead_eq ht (place_lt hz), ahead_eq hz ht, ahead_eq ht hz, hplace]
  split_ifs at * <;> omega

private theorem ahead_place_true (hz : z < n) (ht : t < n) (hk : k < ahead n t z) :
    ahead n t (place true n z k) = ahead n t z - k ∧
      ahead n (place true n z k) t = ahead n z t + k := by
  have hlt := ahead_lt (t := z) ht
  have hplace := place_true_eq hz (hk.le.trans hlt.le)
  rw [ahead_eq ht hz] at hk
  rw [ahead_eq (place_lt hz) ht, ahead_eq ht (place_lt hz), ahead_eq hz ht, ahead_eq ht hz, hplace]
  split_ifs at * <;> omega

/-- On its way the walk chooses as it did at its start. -/
theorem goesBack_place (hz : z < n) (ht : t < n) (hk : k < length both n z t) :
    goesBack both n (place (goesBack both n z t) n z k) t = goesBack both n z t := by
  cases both with
  | false => rfl
  | true =>
    rw [length] at hk
    cases hback : goesBack true n z t with
    | false =>
      rw [hback, if_neg Bool.false_ne_true] at hk
      obtain ⟨hnear, hfar⟩ := ahead_place_false hz ht hk
      have hshort := mt goesBack_true.mpr (Bool.eq_false_iff.mp hback)
      refine Bool.eq_false_iff.mpr (mt goesBack_true.mp ?_)
      rw [hnear, hfar]
      omega
    | true =>
      rw [hback, if_pos rfl] at hk
      obtain ⟨hnear, hfar⟩ := ahead_place_true hz ht hk
      have hshort := goesBack_true.mp hback
      refine goesBack_true.mpr ?_
      rw [hnear, hfar]
      omega

private theorem place_succ {back : Bool} (hz : z < n) (hk : k < n) :
    place back n z (k + 1) = if back then (place back n z k + n - 1) % n
      else (place back n z k + 1) % n := by
  have hlt : place back n z k < n := place_lt hz
  cases back with
  | false =>
    rw [if_neg Bool.false_ne_true, mod_eq_ite (by omega), place_false_eq hz hk,
      place_false_eq hz hk.le]
    split_ifs <;> omega
  | true =>
    rw [if_pos rfl, mod_eq_ite (by omega), place_true_eq hz hk, place_true_eq hz hk.le]
    split_ifs <;> omega

theorem step_place (hz : z < n) (ht : t < n) (hk : k < length both n z t) :
    step both n (place (goesBack both n z t) n z k) t
      = place (goesBack both n z t) n z (k + 1) := by
  rw [step, goesBack_place hz ht hk, place_succ hz (hk.trans (length_lt hz ht))]

theorem place_ne (hz : z < n) (ht : t < n) (hk : k < length both n z t) :
    place (goesBack both n z t) n z k ≠ t := by
  rintro heq
  have hself : ahead n t t = 0 := (ahead_eq_zero_iff ht ht).mpr rfl
  rw [length] at hk
  cases hback : goesBack both n z t with
  | false =>
    rw [hback] at hk heq
    have hnear := (ahead_place_false hz ht hk).1
    rw [heq, hself] at hnear
    exact absurd hk (by rw [if_neg Bool.false_ne_true]; omega)
  | true =>
    rw [hback] at hk heq
    have hnear := (ahead_place_true hz ht hk).1
    rw [heq, hself] at hnear
    exact absurd hk (by rw [if_pos rfl]; omega)

theorem place_length (hz : z < n) (ht : t < n) :
    place (goesBack both n z t) n z (length both n z t) = t := by
  rw [length]
  cases goesBack both n z t with
  | false =>
    rw [if_neg Bool.false_ne_true, place_ahead hz ht]
  | true =>
    rw [if_pos rfl, place_true_eq hz (ahead_lt ht).le, ahead_eq ht hz]
    split_ifs <;> omega

end RingWalk
