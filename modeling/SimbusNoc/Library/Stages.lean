import Mathlib.Algebra.GroupWithZero.Nat
import Mathlib.Algebra.Order.BigOperators.Group.Finset
import Mathlib.Data.List.Basic
import Mathlib.Data.List.Nodup

/-!
# Items moving along routes of stages

Items of type `α` wait in stages of type `σ`, each stage holding a list. Every item has a key, and
all items of one key travel the same route, a list of stages from the first to the last. A stage is
not a queue: an item may overtake items of other keys that wait before it, only not those of its
own. What stays constant under such moves is the list of the items of one key along its route,
oldest first.

## Three moves

`Shift` takes the oldest item of its key from one stage to the next one of its route, `Pop` takes
it out of the last stage, and `Push` lets items enter at the first. A shift changes the items along
no route (`Shift.inTransit_eq`), a pop takes the oldest one from its own route, and a push adds the
new ones behind all others. Each move keeps every item on its own route (`Located`), which is what
makes the statements about a whole route possible: the stages of a route may be shared with other
routes, and hold items of theirs.

## Why lists and not counts

A network that delivers the right number of packets may still deliver them in a wrong order, or
twice one and another never. The list of the items along a route says all of this at once: what is
delivered is what has entered, in the order in which it has entered.

## An end

Every shift and every pop brings one item one stage closer to the end of its route, so the number
of moves that are left bounds how long the items can go on moving while nothing enters.
-/

namespace Stages

variable {σ α κ : Type*}

/-! ## The items along a route

Items on a route are listed from its end to its beginning, so that the oldest comes first.
-/

/-- The items that satisfy `keep` along a route, oldest first: the last stage holds the oldest. -/
def along (c : σ → List α) (keep : α → Bool) : List σ → List α
  | [] => []
  | x :: r => along c keep r ++ (c x).filter keep

@[simp] theorem along_nil (c : σ → List α) (keep : α → Bool) : along c keep [] = [] := rfl

@[simp] theorem along_cons (c : σ → List α) (keep : α → Bool) (x : σ) (r : List σ) :
    along c keep (x :: r) = along c keep r ++ (c x).filter keep := rfl

@[simp] theorem along_append (c : σ → List α) (keep : α → Bool) (r₁ r₂ : List σ) :
    along c keep (r₁ ++ r₂) = along c keep r₂ ++ along c keep r₁ := by
  induction r₁ with
  | nil => simp
  | cons x r ih => simp [ih]

theorem along_congr {c c' : σ → List α} {keep : α → Bool} {r : List σ}
    (h : ∀ x ∈ r, (c' x).filter keep = (c x).filter keep) : along c' keep r = along c keep r := by
  induction r with
  | nil => rfl
  | cons x r ih =>
    rw [along_cons, along_cons, h x List.mem_cons_self,
      ih fun y hy ↦ h y (List.mem_cons_of_mem x hy)]

theorem mem_along {c : σ → List α} {keep : α → Bool} {r : List σ} {a : α} :
    a ∈ along c keep r ↔ keep a = true ∧ ∃ x ∈ r, a ∈ c x := by
  induction r with
  | nil => simp
  | cons x r ih =>
    simp only [along_cons, List.mem_append, ih, List.mem_filter, List.exists_mem_cons_iff,
      and_or_left, and_comm, or_comm]

/-- Items listed once along a route are listed once in each of its stages. -/
theorem nodup_filter_of_along {c : σ → List α} {keep : α → Bool} {r : List σ}
    (h : (along c keep r).Nodup) {x : σ} (hx : x ∈ r) : ((c x).filter keep).Nodup := by
  induction r with
  | nil => cases hx
  | cons y r ih =>
    rw [along_cons, List.nodup_append] at h
    rcases List.mem_cons.mp hx with rfl | hx
    · exact h.2.1
    · exact ih h.1 hx

/-- An item listed once along a route is in one stage only. -/
theorem eq_of_mem_along {c : σ → List α} {keep : α → Bool} {r : List σ}
    (h : (along c keep r).Nodup) {x y : σ} (hx : x ∈ r) (hy : y ∈ r) {a : α} (ha : keep a = true)
    (hax : a ∈ c x) (hay : a ∈ c y) : x = y := by
  induction r with
  | nil => cases hx
  | cons z r ih =>
    rw [along_cons, List.nodup_append] at h
    rcases List.mem_cons.mp hx with rfl | hxr <;> rcases List.mem_cons.mp hy with rfl | hyr
    · rfl
    · exact absurd rfl (h.2.2 a (mem_along.mpr ⟨ha, y, hyr, hay⟩) a (List.mem_filter.mpr ⟨hax, ha⟩))
    · exact absurd rfl (h.2.2 a (mem_along.mpr ⟨ha, x, hxr, hax⟩) a (List.mem_filter.mpr ⟨hay, ha⟩))
    · exact ih h.1 hxr hyr

/-! ## Moves -/

section Moves

variable [DecidableEq κ] (key : α → κ) (route : κ → List σ)

/-- Every item stands on its own route. -/
def Located (c : σ → List α) : Prop :=
  ∀ x, ∀ a ∈ c x, x ∈ route (key a)

/-- The items of key `k`, oldest first. -/
def inTransit (c : σ → List α) (k : κ) : List α :=
  along c (fun a ↦ decide (key a = k)) (route k)

variable {key route} {c c' : σ → List α}

/-- Removing `a` from the list `l ++ a :: r` changes the items of other keys nowhere. -/
private theorem filter_remove {k : κ} {a : α} (l r : List α) (h : key a ≠ k) :
    (l ++ r).filter (fun b ↦ decide (key b = k)) =
      (l ++ a :: r).filter fun b ↦ decide (key b = k) := by
  simp [List.filter_append, h]

/-- `a` is the oldest item of its key in the list `l ++ a :: r`. -/
private theorem filter_first {a : α} (l r : List α) (h : ∀ b ∈ l, key b ≠ key a) :
    (l ++ a :: r).filter (fun b ↦ decide (key b = key a)) =
      a :: (l ++ r).filter fun b ↦ decide (key b = key a) := by
  have hl : l.filter (fun b ↦ decide (key b = key a)) = [] := by
    simpa [List.filter_eq_nil_iff] using h
  simp [List.filter_append, hl]

/-- `a`, the oldest item of its key in stage `y`, moves to the end of the next stage `x` of its
route. -/
structure Shift (key : α → κ) (route : κ → List σ) (c c' : σ → List α) (y x : σ) (a : α) :
    Prop where
  adjacent : ∃ pre suf, route (key a) = pre ++ y :: x :: suf
  first : ∃ l r, c y = l ++ a :: r ∧ (∀ b ∈ l, key b ≠ key a) ∧ c' y = l ++ r
  target : c' x = c x ++ [a]
  others : ∀ z, z ≠ x → z ≠ y → c' z = c z

theorem Shift.inTransit_eq {y x : σ} {a : α} (h : Shift key route c c' y x a)
    (hroute : (route (key a)).Nodup) (k : κ) :
    inTransit key route c' k = inTransit key route c k := by
  obtain ⟨pre, suf, hr⟩ := h.adjacent
  obtain ⟨l, r, hy, hl, hy'⟩ := h.first
  have hnodup : (pre ++ y :: x :: suf).Nodup := hr ▸ hroute
  have hyx : y ≠ x := by
    rintro rfl
    simp [List.nodup_append] at hnodup
  by_cases hk : key a = k
  · subst hk
    have hoff : ∀ z, z ∈ pre ∨ z ∈ suf → c' z = c z := by
      intro z hz
      refine h.others z ?_ ?_ <;> rintro rfl <;>
        simp only [List.nodup_append, List.nodup_cons, List.mem_cons, not_or] at hnodup <;>
        grind
    have hpre : along c' (fun b ↦ decide (key b = key a)) pre =
        along c (fun b ↦ decide (key b = key a)) pre :=
      along_congr fun z hz ↦ by rw [hoff z (.inl hz)]
    have hsuf : along c' (fun b ↦ decide (key b = key a)) suf =
        along c (fun b ↦ decide (key b = key a)) suf :=
      along_congr fun z hz ↦ by rw [hoff z (.inr hz)]
    rw [inTransit, inTransit, hr, along_append, along_append, along_cons, along_cons, along_cons,
      along_cons, hpre, hsuf, h.target, hy, hy', filter_first l r hl]
    simp [List.filter_append]
  · refine along_congr fun z _ ↦ ?_
    by_cases hzx : z = x
    · subst hzx
      rw [h.target]
      simp [List.filter_append, hk]
    · by_cases hzy : z = y
      · subst hzy
        rw [hy, hy', filter_remove l r hk]
      · rw [h.others z hzx hzy]

omit [DecidableEq κ] in
theorem Shift.located {y x : σ} {a : α} (h : Shift key route c c' y x a)
    (hloc : Located key route c) : Located key route c' := by
  obtain ⟨pre, suf, hr⟩ := h.adjacent
  obtain ⟨l, r, hy, -, hy'⟩ := h.first
  intro z b hb
  by_cases hzx : z = x
  · subst hzx
    rw [h.target] at hb
    rcases List.mem_append.mp hb with hb | hb
    · exact hloc z b hb
    · rw [List.mem_singleton.mp hb, hr]
      simp
  · by_cases hzy : z = y
    · subst hzy
      refine hloc z b ?_
      rw [hy' ] at hb
      rw [hy]
      rcases List.mem_append.mp hb with hb | hb <;> simp [hb]
    · exact hloc z b (h.others z hzx hzy ▸ hb)

/-- `a`, the oldest item of its key in stage `y`, leaves from the last stage of its route. -/
structure Pop (key : α → κ) (route : κ → List σ) (c c' : σ → List α) (y : σ) (a : α) : Prop where
  last : ∃ pre, route (key a) = pre ++ [y]
  first : ∃ l r, c y = l ++ a :: r ∧ (∀ b ∈ l, key b ≠ key a) ∧ c' y = l ++ r
  others : ∀ z, z ≠ y → c' z = c z

theorem Pop.inTransit_self {y : σ} {a : α} (h : Pop key route c c' y a)
    (hroute : (route (key a)).Nodup) :
    inTransit key route c (key a) = a :: inTransit key route c' (key a) := by
  obtain ⟨pre, hr⟩ := h.last
  obtain ⟨l, r, hy, hl, hy'⟩ := h.first
  have hnodup : (pre ++ [y]).Nodup := hr ▸ hroute
  have hpre : along c' (fun b ↦ decide (key b = key a)) pre =
      along c (fun b ↦ decide (key b = key a)) pre := by
    refine along_congr fun z hz ↦ ?_
    rw [h.others z]
    rintro rfl
    exact List.disjoint_of_nodup_append hnodup hz (List.mem_singleton_self z)
  rw [inTransit, inTransit, hr, along_append, along_append, hpre, along_cons, along_cons, hy, hy',
    filter_first l r hl]
  simp

theorem Pop.inTransit_other {y : σ} {a : α} (h : Pop key route c c' y a) {k : κ}
    (hk : k ≠ key a) : inTransit key route c' k = inTransit key route c k := by
  obtain ⟨l, r, hy, -, hy'⟩ := h.first
  refine along_congr fun z _ ↦ ?_
  by_cases hz : z = y
  · subst hz
    rw [hy, hy', filter_remove l r (Ne.symm hk)]
  · rw [h.others z hz]

omit [DecidableEq κ] in
theorem Pop.located {y : σ} {a : α} (h : Pop key route c c' y a) (hloc : Located key route c) :
    Located key route c' := by
  obtain ⟨l, r, hy, -, hy'⟩ := h.first
  intro z b hb
  by_cases hz : z = y
  · subst hz
    refine hloc z b ?_
    rw [hy'] at hb
    rw [hy]
    rcases List.mem_append.mp hb with hb | hb <;> simp [hb]
  · exact hloc z b (h.others z hz ▸ hb)

/-- The items `as`, all of key `k`, enter at the end of the first stage `x` of their route. -/
structure Push (key : α → κ) (route : κ → List σ) (c c' : σ → List α) (x : σ) (k : κ)
    (as : List α) : Prop where
  first : ∃ suf, route k = x :: suf
  keys : ∀ a ∈ as, key a = k
  target : c' x = c x ++ as
  others : ∀ z, z ≠ x → c' z = c z

theorem Push.inTransit_self {x : σ} {k : κ} {as : List α} (h : Push key route c c' x k as)
    (hroute : (route k).Nodup) :
    inTransit key route c' k = inTransit key route c k ++ as := by
  obtain ⟨suf, hr⟩ := h.first
  have hnodup : (x :: suf).Nodup := hr ▸ hroute
  have hsuf : along c' (fun b ↦ decide (key b = k)) suf =
      along c (fun b ↦ decide (key b = k)) suf := by
    refine along_congr fun z hz ↦ ?_
    rw [h.others z]
    rintro rfl
    exact (List.nodup_cons.mp hnodup).1 hz
  have has : as.filter (fun b ↦ decide (key b = k)) = as :=
    List.filter_eq_self.mpr fun a ha ↦ by simp [h.keys a ha]
  rw [inTransit, inTransit, hr, along_cons, along_cons, hsuf, h.target, List.filter_append, has,
    List.append_assoc]

theorem Push.inTransit_other {x : σ} {k : κ} {as : List α} (h : Push key route c c' x k as) {j : κ}
    (hj : j ≠ k) : inTransit key route c' j = inTransit key route c j := by
  refine along_congr fun z _ ↦ ?_
  by_cases hz : z = x
  · have has : as.filter (fun b ↦ decide (key b = j)) = [] := by
      simp only [List.filter_eq_nil_iff, decide_eq_true_eq]
      intro a ha
      rw [h.keys a ha]
      exact Ne.symm hj
    rw [hz, h.target, List.filter_append, has, List.append_nil]
  · rw [h.others z hz]

omit [DecidableEq κ] in
theorem Push.located {x : σ} {k : κ} {as : List α} (h : Push key route c c' x k as)
    (hloc : Located key route c) : Located key route c' := by
  obtain ⟨suf, hr⟩ := h.first
  intro z b hb
  by_cases hz : z = x
  · subst hz
    rw [h.target] at hb
    rcases List.mem_append.mp hb with hb | hb
    · exact hloc z b hb
    · rw [h.keys b hb, hr]
      exact List.mem_cons_self
  · exact hloc z b (h.others z hz ▸ hb)

/-! ## The work left

Every move brings one item one stage closer to the end of its route. -/

variable [DecidableEq σ]

/-- The number of moves that take an item from stage `x` of the route `r` out of it. -/
def movesLeft (r : List σ) (x : σ) : ℕ := r.length - r.idxOf x

omit [DecidableEq κ] in
theorem movesLeft_adjacent {pre suf : List σ} {y x : σ} (h : (pre ++ y :: x :: suf).Nodup) :
    movesLeft (pre ++ y :: x :: suf) y = movesLeft (pre ++ y :: x :: suf) x + 1 := by
  have hy : y ∉ pre := fun hy ↦ List.disjoint_of_nodup_append h hy List.mem_cons_self
  have hx : x ∉ pre := fun hx ↦
    List.disjoint_of_nodup_append h hx (List.mem_cons_of_mem y List.mem_cons_self)
  have hyx : y ≠ x := by
    rintro rfl
    simp [List.nodup_append] at h
  rw [movesLeft, movesLeft, List.idxOf_append_of_notMem hy, List.idxOf_append_of_notMem hx,
    List.idxOf_cons_self, List.idxOf_cons_ne _ hyx, List.idxOf_cons_self]
  simp only [List.length_append, List.length_cons]
  omega

omit [DecidableEq κ] in
theorem movesLeft_pos {r : List σ} {x : σ} (h : x ∈ r) : 0 < movesLeft r x :=
  Nat.sub_pos_of_lt (List.idxOf_lt_length_of_mem h)

variable (key route) in
/-- The moves left to the items of one stage. -/
def workAt (c : σ → List α) (x : σ) : ℕ := ((c x).map fun a ↦ movesLeft (route (key a)) x).sum

variable (key route) in
/-- The moves left to all items of the stages `zs`. -/
def work (zs : Finset σ) (c : σ → List α) : ℕ := ∑ x ∈ zs, workAt key route c x

omit [DecidableEq κ] in
private theorem workAt_remove {y : σ} {a : α} {l r : List α} (hy : c y = l ++ a :: r)
    (hy' : c' y = l ++ r) :
    workAt key route c y = workAt key route c' y + movesLeft (route (key a)) y := by
  simp only [workAt, hy, hy', List.map_append, List.map_cons, List.sum_append, List.sum_cons]
  omega

omit [DecidableEq κ] in
theorem Shift.work_lt {y x : σ} {a : α} (h : Shift key route c c' y x a)
    (hroute : (route (key a)).Nodup) {zs : Finset σ} (hy : y ∈ zs) (hx : x ∈ zs) :
    work key route zs c' < work key route zs c := by
  obtain ⟨pre, suf, hr⟩ := h.adjacent
  obtain ⟨l, r, hcy, -, hcy'⟩ := h.first
  have hyx : x ≠ y := by
    rintro rfl
    rw [hr] at hroute
    simp [List.nodup_append] at hroute
  have hleft : movesLeft (route (key a)) y = movesLeft (route (key a)) x + 1 := by
    rw [hr]
    exact movesLeft_adjacent (hr ▸ hroute)
  have hworky : workAt key route c y = workAt key route c' y + movesLeft (route (key a)) y :=
    workAt_remove hcy hcy'
  have hworkx : workAt key route c' x = workAt key route c x + movesLeft (route (key a)) x := by
    simp [workAt, h.target]
  have hxs : x ∈ zs.erase y := Finset.mem_erase.mpr ⟨hyx, hx⟩
  have hrest : ∑ z ∈ (zs.erase y).erase x, workAt key route c' z =
      ∑ z ∈ (zs.erase y).erase x, workAt key route c z := by
    refine Finset.sum_congr rfl fun z hz ↦ ?_
    obtain ⟨hzx, hz⟩ := Finset.mem_erase.mp hz
    rw [workAt, workAt, h.others z hzx (Finset.mem_erase.mp hz).1]
  rw [work, work, ← Finset.add_sum_erase _ _ hy, ← Finset.add_sum_erase _ _ hy,
    ← Finset.add_sum_erase _ _ hxs, ← Finset.add_sum_erase _ _ hxs, hrest]
  omega

omit [DecidableEq κ] in
theorem Pop.work_lt {y : σ} {a : α} (h : Pop key route c c' y a) {zs : Finset σ} (hy : y ∈ zs) :
    work key route zs c' < work key route zs c := by
  obtain ⟨pre, hr⟩ := h.last
  obtain ⟨l, r, hcy, -, hcy'⟩ := h.first
  have hpos : 0 < movesLeft (route (key a)) y := movesLeft_pos (by rw [hr]; simp)
  have hworky : workAt key route c y = workAt key route c' y + movesLeft (route (key a)) y :=
    workAt_remove hcy hcy'
  have hrest : ∑ z ∈ zs.erase y, workAt key route c' z = ∑ z ∈ zs.erase y,
    workAt key route c z := by
    refine Finset.sum_congr rfl fun z hz ↦ ?_
    rw [workAt, workAt, h.others z (Finset.mem_erase.mp hz).1]
  rw [work, work, ← Finset.add_sum_erase _ _ hy, ← Finset.add_sum_erase _ _ hy, hrest]
  omega

end Moves

end Stages
