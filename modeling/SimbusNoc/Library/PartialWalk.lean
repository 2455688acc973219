import Mathlib.Data.List.Nodup
import Mathlib.Data.List.Range
import Mathlib.Data.List.Perm.Subperm
import Mathlib.Data.Nat.Find

/-!
# Walks along a partial function

Whoever follows a partial function from `v` on either stops somewhere or walks on for ever. A walk
that meets `d` for the first time after `k` steps has met `k` other places before, all different.
So if it stays within a list, `k` is less than the length of the list.

## Three ways to say that a walk arrives

`follow` gives the place after `k` steps. `Takes` says that a walk is at `d` after `k` steps for
the first time, which makes `k` unique. `Reaches` says in addition which places it comes through,
and is what a procedure shows that follows the walk itself and keeps a list of the places it has
seen.

## The bound

Before the first visit no place is met twice, since the walk would then go round for ever
(`Takes.follow_ne`). The places before it are so many different members of the list that the walk
stays in, and none of them is `d` (`Takes.lt_length`). A procedure that gives up after as many
steps as the list is long therefore gives up on no walk that arrives.
-/

namespace PartialWalk

variable {α : Type*} {next : α → Option α} {places : List α} {v d : α} {i j k : ℕ}

/-- Where `k` steps lead from `v`, if they can all be made. -/
def follow (next : α → Option α) : ℕ → α → Option α
  | 0, v => some v
  | k + 1, v => (next v).bind (follow next k)

/-- `k` steps lead from `v` to `d`, and every place on the way is in `places`. -/
structure Reaches (next : α → Option α) (places : List α) (v d : α) (k : ℕ) : Prop where
  arrives : follow next k v = some d
  within : ∀ i ≤ k, ∃ u ∈ places, follow next i v = some u

/-- The walk from `v` is at `d` after `k` steps and not earlier. -/
structure Takes (next : α → Option α) (v d : α) (k : ℕ) : Prop where
  arrives : follow next k v = some d
  first : ∀ i < k, follow next i v ≠ some d

@[simp] theorem follow_zero : follow next 0 v = some v := rfl

theorem follow_succ : follow next (k + 1) v = (next v).bind (follow next k) := rfl

theorem follow_succ_of_eq {w : α} (h : next v = some w) :
    follow next (k + 1) v = follow next k w := by
  rw [follow_succ, h, Option.bind_some]

theorem follow_add (i j : ℕ) (v : α) :
    follow next (i + j) v = (follow next i v).bind (follow next j) := by
  induction i generalizing v with
  | zero => rw [Nat.zero_add, follow_zero, Option.bind_some]
  | succ i ih =>
    rw [Nat.add_right_comm, follow_succ, follow_succ, Option.bind_assoc]
    exact Option.bind_congr fun w _ ↦ ih w

/-! ## The first time

Whoever comes to a place comes there for a first time, and on the way there no place is met twice:
from the second visit on the walk would repeat what came after the first.
-/

/-- Whoever comes to `d` comes there for a first time. -/
theorem exists_takes (h : follow next k v = some d) : ∃ i ≤ k, Takes next v d i := by
  classical
  have hex : ∃ i, follow next i v = some d := ⟨k, h⟩
  exact ⟨Nat.find hex, Nat.find_min' hex h, Nat.find_spec hex, fun i hi ↦ Nat.find_min hex hi⟩

/-- Until then no place is met twice: the walk would go round for ever. -/
theorem Takes.follow_ne (h : Takes next v d k) (hij : i < j) (hj : j ≤ k) :
    follow next i v ≠ follow next j v := by
  intro heq
  have hsplit : follow next (i + (k - j)) v = some d := by
    rw [follow_add, heq, ← follow_add, Nat.add_sub_cancel' hj, h.arrives]
  exact h.first (i + (k - j)) (by omega) hsplit

theorem Takes.unique {k' : ℕ} (h : Takes next v d k) (h' : Takes next v d k') : k = k' := by
  rcases Nat.lt_trichotomy k k' with hlt | heq | hgt
  · exact absurd h.arrives (h'.first k hlt)
  · exact heq
  · exact absurd h'.arrives (h.first k' hgt)

/-- A walk that stays within a list comes to `d` in fewer steps than the list is long. -/
theorem Takes.lt_length (h : Takes next v d k)
    (hwithin : ∀ i ≤ k, ∃ u ∈ places, follow next i v = some u) : k < places.length := by
  have hnodup : ((List.range (k + 1)).map fun i ↦ follow next i v).Nodup := by
    refine List.Nodup.map_on (fun i hi j hj heq ↦ ?_) List.nodup_range
    rw [List.mem_range, Nat.lt_succ_iff] at hi hj
    by_contra hne
    rcases Nat.lt_or_gt_of_ne hne with hlt | hgt
    · exact h.follow_ne hlt hj heq
    · exact h.follow_ne hgt hi heq.symm
  have hsub : ((List.range (k + 1)).map fun i ↦ follow next i v) ⊆ places.map some := by
    rintro o ho
    obtain ⟨i, hi, rfl⟩ := List.mem_map.mp ho
    obtain ⟨u, hu, hfollow⟩ := hwithin i (Nat.lt_succ_iff.mp (List.mem_range.mp hi))
    exact List.mem_map.mpr ⟨u, hu, hfollow.symm⟩
  have hle := (hnodup.subperm hsub).length_le
  rwa [List.length_map, List.length_range, List.length_map] at hle

/-! ## Walks that are spelled out -/

variable (next) (place : ℕ → α)

/-- The walk follows a sequence of places each of which leads to the next. -/
theorem follow_of_path (h : ∀ i < k, next (place i) = some (place (i + 1)))
    (hi : i ≤ k) : follow next i (place 0) = some (place i) := by
  have hrun : ∀ i a, a + i ≤ k → follow next i (place a) = some (place (a + i)) := by
    intro i
    induction i with
    | zero => exact fun a _ ↦ rfl
    | succ i ih =>
      intro a ha
      rw [follow_succ_of_eq (h a (by omega)), ih (a + 1) (by omega), Nat.add_right_comm,
        Nat.add_assoc]
  have hstart := hrun i 0 (by omega)
  rwa [Nat.zero_add] at hstart

theorem takes_of_path (h : ∀ i < k, next (place i) = some (place (i + 1)))
    (hfirst : ∀ i < k, place i ≠ place k) : Takes next (place 0) (place k) k where
  arrives := follow_of_path next place h (Nat.le_refl k)
  first := by
    intro i hi heq
    rw [follow_of_path next place h hi.le] at heq
    exact hfirst i hi (Option.some.inj heq)

theorem reaches_of_path (h : ∀ i < k, next (place i) = some (place (i + 1)))
    (hwithin : ∀ i ≤ k, place i ∈ places) : Reaches next places (place 0) (place k) k where
  arrives := follow_of_path next place h (Nat.le_refl k)
  within := fun i hi ↦ ⟨place i, hwithin i hi, follow_of_path next place h hi⟩

variable {next}

/-! ## Walks within a list

A walk that never leaves a list of places cannot take more steps than the list is long before its
first visit, which bounds the steps that a search has to try.
-/

theorem Reaches.start (hd : d ∈ places) : Reaches next places d d 0 where
  arrives := rfl
  within := by
    intro i hi
    obtain rfl := Nat.le_zero.mp hi
    exact ⟨d, hd, rfl⟩

theorem Reaches.step {w : α} (h : Reaches next places w d k) (hv : v ∈ places)
    (hw : next v = some w) : Reaches next places v d (k + 1) where
  arrives := by rw [follow_succ_of_eq hw, h.arrives]
  within := by
    intro i hi
    rcases i with _ | i
    · exact ⟨v, hv, rfl⟩
    · rw [follow_succ_of_eq hw]
      exact h.within i (Nat.le_of_succ_le_succ hi)

/-- The part of the walk up to the first visit. -/
theorem Reaches.exists_takes (h : Reaches next places v d k) :
    ∃ i ≤ k, Takes next v d i ∧ Reaches next places v d i := by
  obtain ⟨i, hi, htakes⟩ := PartialWalk.exists_takes h.arrives
  exact ⟨i, hi, htakes, htakes.arrives, fun j hj ↦ h.within j (hj.trans hi)⟩

theorem Reaches.exists_lt_length (h : Reaches next places v d k) :
    ∃ i < places.length, Takes next v d i ∧ Reaches next places v d i := by
  obtain ⟨i, -, htakes, hreaches⟩ := h.exists_takes
  exact ⟨i, htakes.lt_length hreaches.within, htakes, hreaches⟩

end PartialWalk
