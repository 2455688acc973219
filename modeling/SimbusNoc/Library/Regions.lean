import SimbusNoc.Library.Ensures
import Mathlib.Data.List.Perm.Basic

/-!
# Steps that keep to regions of a state

A state is divided into regions, named by an index, and every step of a system keeps to one region:
it reads nothing else and changes nothing else. Two steps of different regions then commute, and a
list of steps has the same effect in every order in which none of them fails.

A region is given by what it means to graft it from one state onto another. A step of a region,
taken from a grafted state, has the effect of the step taken from the state the region comes from,
grafted again. This form composes: the steps of a region are closed under sequencing, whatever the
later step computes from the results of the first.

## Steps that may fail

A step returns a state or throws, and a step that throws has no effect to speak of. So the
statements are about steps that succeed: a step of one region that succeeds before a step of
another one succeeds after it too, with the same effect on its own region (`Local.after`,
`Local.swap`). A loop over a list of indices, each step of which keeps to the region of its index,
may then run through the list in any order, and if one order succeeds every order does
(`foldlM_perm`).
-/

namespace Simbus

/-- The regions of the states `σ`: `graft i s t` is `t` with the region `i` of `s`. -/
structure Regions (ι σ : Type) where
  graft : ι → σ → σ → σ
  graft_self : ∀ i s, graft i s s = s
  graft_comm : ∀ {i j}, i ≠ j → ∀ s t u, graft i s (graft j t u) = graft j t (graft i s u)

namespace Regions

variable {ι σ ε : Type} (R : Regions ι σ)

/-- The step `f` keeps to the region `i`. -/
def Local (i : ι) (f : σ → Except ε σ) : Prop :=
  ∀ s t, f (R.graft i s t) = (f s).map fun s' ↦ R.graft i s' t

/-- The step `f`, which also returns a value, keeps to the region `i`. -/
def LocalTo {α : Type} (i : ι) (f : σ → Except ε (σ × α)) : Prop :=
  ∀ s t, f (R.graft i s t) = (f s).map fun r ↦ (R.graft i r.1 t, r.2)

variable {R} {i j : ι} {f g : σ → Except ε σ} {s s₁ s₂ : σ}

theorem LocalTo.bind {α : Type} {f : σ → Except ε (σ × α)} {k : α → σ → Except ε σ}
    (hf : R.LocalTo i f) (hk : ∀ a, R.Local i (k a)) :
    R.Local i fun s ↦ f s >>= fun r ↦ k r.2 r.1 := by
  intro s t
  dsimp only
  rw [hf]
  rcases f s with e | ⟨s', a⟩
  · rfl
  · exact hk a s' t

theorem Local.bind (hf : R.Local i f) (hg : R.Local i g) : R.Local i fun s ↦ f s >>= g := by
  intro s t
  dsimp only
  rw [hf]
  rcases f s with e | s'
  · rfl
  · exact hg s' t

/-- A step changes its own region only. -/
theorem Local.graft_eq (hf : R.Local i f) (h : f s = .ok s₁) : R.graft i s₁ s = s₁ := by
  have hself := hf s s
  rw [R.graft_self, h] at hself
  exact (Except.ok.inj hself).symm

/-- Two steps of different regions from one state can be put together either way round. -/
theorem Local.graft_graft (hf : R.Local i f) (hg : R.Local j g) (hij : i ≠ j)
    (hfs : f s = .ok s₁) (hgs : g s = .ok s₂) : R.graft j s₂ s₁ = R.graft i s₁ s₂ :=
  calc R.graft j s₂ s₁ = R.graft j s₂ (R.graft i s₁ s) := by rw [hf.graft_eq hfs]
    _ = R.graft i s₁ (R.graft j s₂ s) := (R.graft_comm hij _ _ _).symm
    _ = R.graft i s₁ s₂ := by rw [hg.graft_eq hgs]

/-- After a step of another region, a step does what it would have done before. -/
theorem Local.after (hf : R.Local i f) (hg : R.Local j g) (hij : i ≠ j) (hfs : f s = .ok s₁) :
    g s₁ = (g s).map fun s₂ ↦ R.graft j s₂ s₁ := by
  have hsame : R.graft j s s₁ = s₁ := by
    rw [← hf.graft_eq hfs, ← R.graft_comm hij, R.graft_self]
  calc g s₁ = g (R.graft j s s₁) := by rw [hsame]
    _ = (g s).map fun s₂ ↦ R.graft j s₂ s₁ := hg s s₁

/-- Two steps, taken one after the other, may change places. -/
theorem Local.swap (hf : R.Local i f) (hg : R.Local j g) (hij : i ≠ j)
    (h : (f s >>= g) = .ok s₂) : (g s >>= f) = .ok s₂ := by
  obtain ⟨s₁, hfs, hgs₁⟩ := Except.bind_eq_ok_iff.mp h
  rw [hf.after hg hij hfs] at hgs₁
  cases hgs : g s with
  | error e =>
    rw [hgs] at hgs₁
    cases hgs₁
  | ok s₃ =>
    rw [hgs] at hgs₁
    obtain rfl := Except.ok.inj hgs₁
    change f s₃ = .ok (R.graft j s₃ s₁)
    rw [hg.after hf hij.symm hgs, hfs, hf.graft_graft hg hij hfs hgs]
    rfl

/-- A loop whose steps keep to the regions they are named by has the same effect in every
order. -/
theorem foldlM_perm {f : ι → σ → Except ε σ} (hf : ∀ i, R.Local i (f i)) {l l' : List ι}
    (hperm : l.Perm l') :
    ∀ {s s' : σ}, l.foldlM (fun s i ↦ f i s) s = .ok s' →
      l'.foldlM (fun s i ↦ f i s) s = .ok s' := by
  induction hperm with
  | nil => exact id
  | cons i _ ih =>
    intro s s' h
    rw [List.foldlM_cons] at h ⊢
    obtain ⟨s₁, hstep, h⟩ := Except.bind_eq_ok_iff.mp h
    exact Except.bind_eq_ok_iff.mpr ⟨s₁, hstep, ih h⟩
  | swap i j l =>
    intro s s' h
    by_cases hij : i = j
    · rwa [hij] at h ⊢
    · simp only [List.foldlM_cons, ← bind_assoc] at h ⊢
      obtain ⟨s₂, hpair, h⟩ := Except.bind_eq_ok_iff.mp h
      exact Except.bind_eq_ok_iff.mpr ⟨s₂, (hf j).swap (hf i) (Ne.symm hij) hpair, h⟩
  | trans _ _ ih ih' => exact fun h ↦ ih' (ih h)

/-- A loop whose steps keep to different regions makes of every region what its own step makes of it
in the first state, and leaves the other regions alone. -/
theorem foldlM_regions {f : ι → σ → Except ε σ} (hf : ∀ i, R.Local i (f i))
    (habsorb : ∀ i s t u, R.graft i (R.graft i s t) u = R.graft i s u) {l : List ι}
    (hl : l.Nodup) :
    ∀ {s s' : σ}, l.foldlM (fun s i ↦ f i s) s = .ok s' →
      (∀ i ∈ l, ∃ t, f i s = .ok t ∧ R.graft i t s' = s') ∧ ∀ i ∉ l, R.graft i s s' = s' := by
  induction l with
  | nil =>
    intro s s' h
    obtain rfl := Except.ok.inj h
    exact ⟨fun _ hi ↦ absurd hi List.not_mem_nil, fun i _ ↦ R.graft_self i s⟩
  | cons j l ih =>
    intro s s' h
    obtain ⟨hj, hl⟩ := List.nodup_cons.mp hl
    rw [List.foldlM_cons] at h
    obtain ⟨s₁, hstep, h⟩ := Except.bind_eq_ok_iff.mp h
    obtain ⟨hturns, hrest⟩ := ih hl h
    constructor
    · intro i hi
      rcases List.mem_cons.mp hi with rfl | hi
      · exact ⟨s₁, hstep, hrest i hj⟩
      · have hij : j ≠ i := fun heq ↦ hj (heq ▸ hi)
        obtain ⟨t, ht, hgraft⟩ := hturns i hi
        rw [(hf j).after (hf i) hij hstep] at ht
        cases hfirst : f i s with
        | error e =>
          rw [hfirst] at ht
          cases ht
        | ok u =>
          rw [hfirst] at ht
          obtain rfl := Except.ok.inj ht
          exact ⟨u, rfl, by rwa [habsorb] at hgraft⟩
    · intro i hi
      have hij : i ≠ j := fun heq ↦ hi (heq ▸ List.mem_cons_self)
      have hsame : R.graft i s s₁ = s₁ := by
        rw [← (hf j).graft_eq hstep, R.graft_comm hij, R.graft_self]
      have hgraft := hrest i fun hmem ↦ hi (List.mem_cons_of_mem j hmem)
      rwa [← hsame, habsorb] at hgraft

end Regions

end Simbus
