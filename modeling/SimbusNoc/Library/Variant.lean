import Mathlib.Order.Nat

/-!
# Progress by a variant

A system counts what it has achieved and measures the work that is left until it can achieve more.
A step that achieves nothing must do some of the work, or it has a reason to rest. When no reason
holds, there is an achievement within as many steps as there is work. So a system that can achieve
only so much comes to its end.

## Parts of a system

The work of a system is the sum of the work of its parts, and the reasons to rest are about the
parts: one waits for a second one that is not at work. Steps of the parts, taken one after the
other, make a step of the system (`Advance.trans`): it rests only if all of its parts do, for if
one of them worked the sum has gone down, and if one has achieved something the sum may be what it
likes. A part that takes no part in a step is framed (`Advance.frame`).

An achievement may bring any amount of new work. That is why the measure is not one number, and why
the last lemma asks for a bound on what can be achieved at all.
-/

namespace Variant

/-- A step that achieves something, or does some of the work, or rests. -/
inductive Advance (Rest : Prop) (achieved work achieved' work' : ℕ) : Prop
  | achieves (hachieved : achieved < achieved')
  | works (hachieved : achieved = achieved') (hwork : work' < work)
  | rests (hachieved : achieved = achieved') (hwork : work = work') (hrest : Rest)

namespace Advance

variable {R R' : Prop} {a a' a'' w w' w'' : ℕ}

theorem mono (h : Advance R a w a' w') (himp : R → R') : Advance R' a w a' w' := by
  cases h with
  | achieves hachieved => exact .achieves hachieved
  | works hachieved hwork => exact .works hachieved hwork
  | rests hachieved hwork hrest => exact .rests hachieved hwork (himp hrest)

theorem le (h : Advance R a w a' w') : a ≤ a' := by
  cases h with
  | achieves hachieved => exact hachieved.le
  | works hachieved hwork => exact hachieved.le
  | rests hachieved hwork hrest => exact hachieved.le

theorem trans (h : Advance R a w a' w') (h' : Advance R' a' w' a'' w'') :
    Advance (R ∧ R') a w a'' w'' := by
  have hle := h'.le
  cases h with
  | achieves hachieved => exact .achieves (hachieved.trans_le hle)
  | works hachieved hwork =>
    cases h' with
    | achieves hachieved' => exact .achieves (hachieved.trans_lt hachieved')
    | works hachieved' hwork' => exact .works (hachieved.trans hachieved') (hwork'.trans hwork)
    | rests hachieved' hwork' hrest' => exact .works (hachieved.trans hachieved') (hwork' ▸ hwork)
  | rests hachieved hwork hrest =>
    cases h' with
    | achieves hachieved' => exact .achieves (hachieved.trans_lt hachieved')
    | works hachieved' hwork' => exact .works (hachieved.trans hachieved') (hwork ▸ hwork')
    | rests hachieved' hwork' hrest' =>
      exact .rests (hachieved.trans hachieved') (hwork.trans hwork') ⟨hrest, hrest'⟩

/-- The parts of a system that take no part in a step. -/
theorem frame (h : Advance R a w a' w') (x y : ℕ) : Advance R (x + a) (y + w) (x + a')
    (y + w') := by
  cases h with
  | achieves hachieved => exact .achieves (Nat.add_lt_add_left hachieved x)
  | works hachieved hwork => exact .works (hachieved ▸ rfl) (Nat.add_lt_add_left hwork y)
  | rests hachieved hwork hrest => exact .rests (hachieved ▸ rfl) (hwork ▸ rfl) hrest

end Advance

/-- A run of so many steps. -/
inductive Steps {σ : Type} (step : σ → σ → Prop) : ℕ → σ → σ → Prop
  | refl (s : σ) : Steps step 0 s s
  | head {n : ℕ} {s s' s'' : σ} (h : step s s') (hrest : Steps step n s' s'') :
      Steps step (n + 1) s s''

variable {σ : Type} {step : σ → σ → Prop} {Good Done : σ → Prop} {achieved work : σ → ℕ}
    {s s' s'' : σ}
  {n m : ℕ}

theorem Steps.trans (h : Steps step n s s') (h' : Steps step m s' s'') :
    Steps step (n + m) s s'' := by
  induction h with
  | refl => rwa [Nat.zero_add]
  | head h hrest ih =>
    rw [Nat.succ_add]
    exact .head h (ih h')

/-- A system that never rests before it is done achieves something, or is done, within as many steps
as there is work, and one more. -/
theorem exists_advance (hstep : ∀ s, Good s → ¬Done s → ∃ s', step s s' ∧
      (Done s' ∨ Good s' ∧ Advance False (achieved s) (work s) (achieved s') (work s')))
    (hs : Good s) : ∃ n ≤ work s + 1, ∃ s', Steps step n s s' ∧
      (Done s' ∨ Good s' ∧ achieved s < achieved s') := by
  obtain ⟨w, hw⟩ : ∃ w, work s = w := ⟨_, rfl⟩
  induction w using Nat.strongRecOn generalizing s with
  | ind w ih =>
    by_cases hdone : Done s
    · exact ⟨0, Nat.zero_le _, s, .refl s, .inl hdone⟩
    obtain ⟨s', hs', hnext⟩ := hstep s hs hdone
    rcases hnext with hdone' | ⟨hgood, hadvance⟩
    · exact ⟨1, Nat.le_add_left .., s', .head hs' (.refl s'), .inl hdone'⟩
    cases hadvance with
    | achieves hachieved =>
      exact ⟨1, Nat.le_add_left .., s', .head hs' (.refl s'), .inr ⟨hgood, hachieved⟩⟩
    | rests hachieved hwork hrest => exact hrest.elim
    | works hachieved hwork =>
      obtain ⟨n, hn, s'', hsteps, hend⟩ := ih (work s') (hw ▸ hwork) hgood rfl
      rw [hachieved]
      exact ⟨n + 1, by omega, s'', .head hs' hsteps, hend⟩

/-- A system that never rests before it is done, and can achieve only so much before, is done at
some time. -/
theorem exists_done (hstep : ∀ s, Good s → ¬Done s → ∃ s', step s s' ∧
      (Done s' ∨ Good s' ∧ Advance False (achieved s) (work s) (achieved s') (work s')))
    {bound : ℕ} (hbound : ∀ s, Good s → ¬Done s → achieved s ≤ bound) (hs : Good s) :
    ∃ n s', Steps step n s s' ∧ Done s' := by
  obtain ⟨left, hleft⟩ : ∃ left, bound - achieved s = left := ⟨_, rfl⟩
  induction left using Nat.strongRecOn generalizing s with
  | ind left ih =>
    by_cases hdone : Done s
    · exact ⟨0, s, .refl s, hdone⟩
    obtain ⟨n, -, s', hsteps, hdone' | ⟨hgood, hachieved⟩⟩ := exists_advance hstep hs
    · exact ⟨n, s', hsteps, hdone'⟩
    by_cases hdone' : Done s'
    · exact ⟨n, s', hsteps, hdone'⟩
    have hle := hbound s' hgood hdone'
    obtain ⟨m, s'', hsteps', hdone''⟩ := ih (bound - achieved s') (by omega) hgood rfl
    exact ⟨n + m, s'', hsteps.trans hsteps', hdone''⟩

end Variant
