import Mathlib.Data.List.Forall2
import Mathlib.Tactic.TypeStar

/-!
# Lists that tile a range

The members of a list have sizes and lie one after the other: each begins where the one before it
ends. `Tiles size P a l b` says that they fill the range from `a` to `b`, and that `P` holds of
each at its place.

The relation is inductive, with a place for each member, so it can be built while a loop emits the
members, and it can be joined and cut at any place. That a list tiles a range says three things at
once: its members lie within the range (`within`), no two of them overlap (`pairwise`), and each
number of the range lies in one of them (`exists_covering`). A second list of the same sizes tiles
the same range (`forall₂`), so requests and what was made of them can be compared without a second
induction.
-/

namespace Tiling

universe u v

variable {α : Type u} {β : Type v} {size : α → ℕ} {P Q : ℕ → α → Prop} {a b m n : ℕ} {l l' : List α}

inductive Tiles (size : α → ℕ) (P : ℕ → α → Prop) : ℕ → List α → ℕ → Prop
  | nil (a : ℕ) : Tiles size P a [] a
  | cons {a b : ℕ} {d : α} {l : List α} (h : P a d) (hl : Tiles size P (a + size d) l b) :
      Tiles size P a (d :: l) b

namespace Tiles

theorem singleton {d : α} (h : P a d) : Tiles size P a [d] (a + size d) := .cons h (.nil _)

theorem le (h : Tiles size P a l b) : a ≤ b := by
  induction h with
  | nil => exact Nat.le.refl
  | cons _ _ ih => omega

theorem mono (h : Tiles size P a l b) (hPQ : ∀ a d, P a d → Q a d) : Tiles size Q a l b := by
  induction h with
  | nil a => exact .nil a
  | cons h _ ih => exact .cons (hPQ _ _ h) ih

theorem append (h : Tiles size P a l m) (h' : Tiles size P m l' b) :
    Tiles size P a (l ++ l') b := by
  induction h with
  | nil => exact h'
  | cons h _ ih => exact .cons h (ih h')

theorem of_append (h : Tiles size P a (l ++ l') b) :
    ∃ m, Tiles size P a l m ∧ Tiles size P m l' b := by
  induction l generalizing a with
  | nil => exact ⟨a, .nil a, h⟩
  | cons d l ih =>
    obtain _ | ⟨hd, hl⟩ := h
    obtain ⟨m, hm, hm'⟩ := ih hl
    exact ⟨m, .cons hd hm, hm'⟩

/-- One list after the other, each over the next stretch of the same length. -/
theorem flatMap_range' {f : ℕ → List α} {w : ℕ} (h : ∀ i, m ≤ i → i < m + n →
      Tiles size P (a + (i - m) * w) (f i) (a + (i - m) * w + w)) :
    Tiles size P a ((List.range' m n).flatMap f) (a + n * w) := by
  induction n generalizing m a with
  | zero =>
    rw [List.range'_zero, List.flatMap_nil, Nat.zero_mul]
    exact .nil a
  | succ n ih =>
    rw [List.range'_succ, List.flatMap_cons]
    have hfirst := h m Nat.le.refl (by omega)
    rw [Nat.sub_self, Nat.zero_mul, Nat.add_zero] at hfirst
    have hrest := ih (m := m + 1) (a := a + w) fun i hi hi' ↦ by
      have hstep := h i (by omega) (by omega)
      obtain ⟨j, rfl⟩ := Nat.exists_eq_add_of_le hi
      have hplace : a + (m + 1 + j - m) * w = a + w + (m + 1 + j - (m + 1)) * w := by
        rw [show m + 1 + j - m = j + 1 by omega, show m + 1 + j - (m + 1) = j by omega,
          Nat.succ_mul, Nat.add_right_comm, Nat.add_assoc]
      rwa [hplace] at hstep
    rw [Nat.succ_mul, Nat.add_comm (n * w), ← Nat.add_assoc]
    exact hfirst.append hrest

/-- A list of the same sizes tiles the same range. -/
theorem forall₂ {size' : β → ℕ} {P' : ℕ → β → Prop} {R : α → β → Prop} {l' : List β}
    (h : Tiles size P a l b) (hl : List.Forall₂ R l l')
    (hR : ∀ a d e, P a d → R d e → P' a e ∧ size' e = size d) : Tiles size' P' a l' b := by
  induction h generalizing l' with
  | nil a =>
    cases hl
    exact .nil a
  | cons h _ ih =>
    obtain _ | ⟨hd, hl⟩ := hl
    obtain ⟨hP', hsize⟩ := hR _ _ _ h hd
    exact .cons hP' (hsize ▸ ih hl)

theorem map {size' : β → ℕ} {P' : ℕ → β → Prop} {f : α → β} (h : Tiles size P a l b)
    (hf : ∀ a d, P a d → P' a (f d) ∧ size' (f d) = size d) : Tiles size' P' a (l.map f) b := by
  have hl : List.Forall₂ (fun d e ↦ f d = e) l (l.map f) :=
    List.forall₂_map_right_iff.mpr (List.forall₂_same.mpr fun _ _ ↦ rfl)
  exact h.forall₂ hl fun a d e hd he ↦ he ▸ hf a d hd

theorem exists_place (h : Tiles size P a l b) :
    ∀ d ∈ l, ∃ p, a ≤ p ∧ p + size d ≤ b ∧ P p d := by
  induction h with
  | nil => exact fun _ hd ↦ nomatch hd
  | cons h hl ih =>
    intro d hd
    rcases List.mem_cons.mp hd with rfl | hd
    · exact ⟨_, Nat.le.refl, hl.le, h⟩
    · obtain ⟨p, hp, hp', hd⟩ := ih d hd
      exact ⟨p, by omega, hp', hd⟩

theorem within (h : Tiles size P a l b) :
    Tiles size (fun p d ↦ P p d ∧ a ≤ p ∧ p + size d ≤ b) a l b := by
  induction h with
  | nil a => exact .nil a
  | cons h hl ih =>
    refine .cons ⟨h, Nat.le.refl, hl.le⟩ (ih.mono fun p d ⟨hd, hp, hp'⟩ ↦ ⟨hd, ?_, hp'⟩)
    omega

/-- Each number of the range lies in a member. -/
theorem exists_covering (h : Tiles size P a l b) {x : ℕ} (hx : a ≤ x) (hx' : x < b) :
    ∃ d ∈ l, ∃ p, p ≤ x ∧ x < p + size d ∧ P p d := by
  induction h with
  | nil => omega
  | @cons a _ d _ h _ ih =>
    by_cases hd : x < a + size d
    · exact ⟨d, List.mem_cons_self, a, hx, hd, h⟩
    · obtain ⟨e, he, hplace⟩ := ih (by omega) hx'
      exact ⟨e, List.mem_cons_of_mem d he, hplace⟩

theorem pairwise (h : Tiles size P a l b) {place : α → ℕ} (hplace : ∀ a d, P a d → place d = a) :
    l.Pairwise fun d e ↦ place d + size d ≤ place e := by
  induction h with
  | nil => exact .nil
  | cons h hl ih =>
    refine .cons (fun e he ↦ ?_) ih
    obtain ⟨p, hp, -, he⟩ := hl.exists_place e he
    rw [hplace _ _ h, hplace _ _ he]
    exact hp

end Tiles

end Tiling
