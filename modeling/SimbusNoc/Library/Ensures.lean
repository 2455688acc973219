import Mathlib.Tactic.TypeStar

/-!
# What a computation that may throw ensures

`Ensures P E x` says that `P` holds of the result of `x`, and `E` of what it throws. The rules
follow the structure of the computation: a value, an exception, a sequence, a case distinction. So
a fact about a long function is proved by applying the rule of its outermost step and going on with
the facts about what is left, without a look at the values that are passed along.

A statement about results alone is one with `E` true everywhere, and a function that never throws
is one with `E` false. The two eliminations at the end turn an `Ensures` back into a statement
about an equation `x = .ok a` or `x = .error e`.
-/

/-- A computation that returns a value runs on from it, and one that throws stops. -/
theorem Except.bind_eq_ok_iff {ε α β : Type} {x : Except ε α} {f : α → Except ε β} {b : β} :
    (x >>= f) = .ok b ↔ ∃ a, x = .ok a ∧ f a = .ok b := by
  cases x <;> simp [bind, Except.bind]

theorem Except.map_eq_ok_iff {ε α β : Type} {x : Except ε α} {f : α → β} {b : β} :
    x.map f = .ok b ↔ ∃ a, x = .ok a ∧ f a = b := by
  cases x <;> simp [Except.map]

namespace Throwing

universe u v

variable {ε : Type u} {α β : Type v} {P Q : α → Prop} {R : β → Prop} {E F : ε → Prop}

/-- `P` holds of the result, or `E` of the exception. -/
def Ensures (P : α → Prop) (E : ε → Prop) : Except ε α → Prop
  | .ok a => P a
  | .error e => E e

@[simp] theorem ensures_ok {a : α} : Ensures P E (.ok a) ↔ P a := Iff.rfl

@[simp] theorem ensures_error {e : ε} : Ensures P E (.error e : Except ε α) ↔ E e := Iff.rfl

@[simp] theorem ensures_pure {a : α} : Ensures P E (pure a : Except ε α) ↔ P a := Iff.rfl

@[simp] theorem ensures_throw {e : ε} : Ensures P E (throw e : Except ε α) ↔ E e := Iff.rfl

namespace Ensures

variable {x : Except ε α}

theorem mono (h : Ensures P E x) (hP : ∀ a, P a → Q a) (hE : ∀ e, E e → F e) :
    Ensures Q F x := by
  cases x with
  | ok a => exact hP a h
  | error e => exact hE e h

theorem bind {f : α → Except ε β} (h : Ensures P E x) (hf : ∀ a, P a → Ensures R E (f a)) :
    Ensures R E (x >>= f) := by
  cases x with
  | ok a => exact hf a h
  | error e => exact h

theorem ite {c : Prop} [Decidable c] {y : Except ε α} (hx : c → Ensures P E x)
    (hy : ¬c → Ensures P E y) : Ensures P E (if c then x else y) := by
  by_cases h : c
  · rw [if_pos h]
    exact hx h
  · rw [if_neg h]
    exact hy h

theorem of_eq_ok {a : α} (h : Ensures P E x) (hx : x = .ok a) : P a := by
  rw [hx] at h
  exact h

theorem of_eq_error {e : ε} (h : Ensures P E x) (hx : x = .error e) : E e := by
  rw [hx] at h
  exact h

end Ensures

end Throwing
