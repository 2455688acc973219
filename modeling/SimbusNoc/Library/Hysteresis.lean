import Mathlib.Order.Lattice

/-!
# Switches with two thresholds

A switch turns on when a level is at or above `high` and off when it is at or below `low`. When the
thresholds differ, a second step at the same level changes nothing. When they are equal and the
level is at both, every step turns the switch over.

`Obeys` is what one would ask of the switch: it is on at the upper threshold, off at the lower one,
and otherwise as before. A device that applies its step twice at one level meets this exactly when
it is not in the case of equal thresholds at which it is turned on and off again
(`obeys_next_next_iff`). One step tests only the threshold that can change the switch: a switch
that is on is asked about the lower threshold only.
-/

namespace Hysteresis

variable {α : Type*} [LinearOrder α] {low high n : α} {on : Bool}

/-- One step of the switch. -/
def next (low high : α) (on : Bool) (n : α) : Bool :=
  if !on && decide (high ≤ n) then true
  else if on && decide (n ≤ low) then false
  else on

/-- What a switch that was `before` and is now `after` owes to the level `n`. -/
structure Obeys (low high : α) (before after : Bool) (n : α) : Prop where
  above : high ≤ n → after = true
  below : n < high → n ≤ low → after = false
  between : low < n → n < high → after = before

@[simp] theorem next_true : next low high true n = !decide (n ≤ low) := by
  by_cases h : n ≤ low <;> simp [next, h]

@[simp] theorem next_false : next low high false n = decide (high ≤ n) := by
  by_cases h : high ≤ n <;> simp [next, h]

/-- Below the upper threshold one step decides. -/
private theorem next_of_lt (hn : n < high) :
    next low high (next low high on n) n = (on && !decide (n ≤ low)) := by
  have hnot : ¬high ≤ n := not_le.mpr hn
  cases on with
  | false => simp [hnot]
  | true =>
    by_cases hle : n ≤ low
    · simp [hle, hnot]
    · simp [hle]

/-- Two steps at one level obey both thresholds, unless these are equal, the level is at them and
the switch was off. -/
theorem obeys_next_next_iff (hlow : low ≤ high) :
    Obeys low high on (next low high (next low high on n) n) n ↔
      (low < high ∨ (n = high → on = true)) := by
  constructor
  · intro h
    rcases hlow.lt_or_eq with hlt | rfl
    · exact .inl hlt
    · refine .inr fun hn ↦ ?_
      subst hn
      by_contra hoff
      rw [Bool.not_eq_true] at hoff
      subst hoff
      simpa using h.above le_rfl
  · intro h
    refine ⟨fun hn ↦ ?_, fun hn hle ↦ ?_, fun hlt hn ↦ ?_⟩
    · rcases hn.eq_or_lt with rfl | hgt
      · rcases h with hlt | hon
        · have hnot : ¬high ≤ low := not_le.mpr hlt
          cases on <;> simp [hnot]
        · rw [hon rfl]
          by_cases hle : high ≤ low <;> simp [hle]
      · have hnot : ¬n ≤ low := not_le.mpr (hlow.trans_lt hgt)
        cases on <;> simp [hnot, hn]
    · simp [next_of_lt hn, hle]
    · simp [next_of_lt hn, not_le.mpr hlt]

end Hysteresis
