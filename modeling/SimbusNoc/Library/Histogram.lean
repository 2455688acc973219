import Mathlib.Data.List.Sort

/-!
# Histograms as ascending lists of buckets

A histogram is a list of pairs of a value and how often it was seen, in ascending order of the
values. `samples` spells it out as the sorted list of what was seen, and `scan` walks the buckets
with a running count until the count reaches a rank: it finds the sample of that rank.

## What is proved

Adding a sample to a histogram adds it to the samples, up to their order (`samples_bump_perm`), and
keeps the buckets ascending, so that the samples are the sorted list of all that was ever added. A
rank is counted from one. When the scan starts with `n` samples behind it, it stops at the sample
in position `rank - n - 1` of what lies before it (`scan_eq_getElem`). The order of the buckets
matters for what the samples are, and not for the scan, which is why this last lemma does not ask
for it.
-/

namespace Histogram

variable {α : Type*}

/-- Every value as often as it was seen, in the order of the buckets. -/
def samples (h : List (α × ℕ)) : List α :=
  h.flatMap fun bucket ↦ List.replicate bucket.2 bucket.1

/-- One more sample of `x`. -/
def bump [LinearOrder α] (x : α) : List (α × ℕ) → List (α × ℕ)
  | [] => [(x, 1)]
  | (v, c) :: rest =>
    if x < v then (x, 1) :: (v, c) :: rest
    else if x = v then (v, c + 1) :: rest
    else (v, c) :: bump x rest

/-- The first value at which the running count, which starts at `n`, reaches `rank`. -/
def scan (rank : ℕ) : ℕ → List (α × ℕ) → Option α
  | _, [] => none
  | n, (v, c) :: rest => if rank ≤ n + c then some v else scan rank (n + c) rest

/-- The keys ascend strictly. -/
def Ascending [LT α] (h : List (α × ℕ)) : Prop := h.Pairwise fun a b ↦ a.1 < b.1

/-! ## What was seen

Spelling a histogram out gives the samples that were counted, each as often as it was. Counting one
more sample adds it to them, up to order, and keeps the keys ascending, so that the samples come
sorted.
-/

@[simp] theorem samples_nil : samples ([] : List (α × ℕ)) = [] := rfl

@[simp] theorem samples_cons (v : α) (c : ℕ) (rest : List (α × ℕ)) :
    samples ((v, c) :: rest) = List.replicate c v ++ samples rest := rfl

theorem mem_samples {h : List (α × ℕ)} {x : α} (hx : x ∈ samples h) : ∃ c, (x, c) ∈ h := by
  obtain ⟨bucket, hmem, hrep⟩ := List.mem_flatMap.mp hx
  rw [List.eq_of_mem_replicate hrep]
  exact ⟨bucket.2, hmem⟩

variable [LinearOrder α]

theorem samples_bump_perm (x : α) (h : List (α × ℕ)) :
    (samples (bump x h)).Perm (x :: samples h) := by
  induction h with
  | nil => simp [bump]
  | cons bucket rest ih =>
    obtain ⟨v, c⟩ := bucket
    rcases lt_trichotomy x v with hlt | rfl | hgt
    · simp [bump, hlt]
    · simp [bump, List.replicate_succ]
    · have hkeep : bump x ((v, c) :: rest) = (v, c) :: bump x rest := by
        simp [bump, hgt.not_gt, hgt.ne']
      rw [hkeep, samples_cons, samples_cons]
      exact (ih.append_left _).trans List.perm_middle

private theorem key_of_mem_bump {x : α} {h : List (α × ℕ)} {bucket : α × ℕ}
    (hmem : bucket ∈ bump x h) : bucket.1 = x ∨ ∃ c, (bucket.1, c) ∈ h := by
  induction h with
  | nil => exact .inl (by simp_all [bump])
  | cons first rest ih =>
    obtain ⟨v, c⟩ := first
    rcases lt_trichotomy x v with hlt | rfl | hgt
    · simp only [bump, hlt, if_true, List.mem_cons] at hmem
      rcases hmem with rfl | rfl | hrest
      · exact .inl rfl
      · exact .inr ⟨c, List.mem_cons_self⟩
      · exact .inr ⟨bucket.2, by simp [hrest]⟩
    · simp only [bump, lt_irrefl, if_false, if_true, List.mem_cons] at hmem
      rcases hmem with rfl | hrest
      · exact .inl rfl
      · exact .inr ⟨bucket.2, by simp [hrest]⟩
    · simp only [bump, hgt.not_gt, hgt.ne', if_false, List.mem_cons] at hmem
      rcases hmem with rfl | hrest
      · exact .inr ⟨c, List.mem_cons_self⟩
      · rcases ih hrest with hx | ⟨d, hd⟩
        · exact .inl hx
        · exact .inr ⟨d, List.mem_cons_of_mem _ hd⟩

theorem Ascending.bump {h : List (α × ℕ)} (hup : Ascending h) (x : α) : Ascending (bump x h) := by
  induction h with
  | nil => simp [Ascending, Histogram.bump]
  | cons first rest ih =>
    obtain ⟨v, c⟩ := first
    obtain ⟨hfirst, hrest⟩ := List.pairwise_cons.mp hup
    rcases lt_trichotomy x v with hlt | rfl | hgt
    · simp only [Histogram.bump, hlt, if_true]
      refine List.pairwise_cons.mpr ⟨fun bucket hmem ↦ ?_, hup⟩
      rcases List.mem_cons.mp hmem with rfl | hmem
      · exact hlt
      · exact hlt.trans (hfirst _ hmem)
    · simp only [Histogram.bump, lt_irrefl, if_false, if_true]
      exact List.pairwise_cons.mpr ⟨hfirst, hrest⟩
    · simp only [Histogram.bump, hgt.not_gt, hgt.ne', if_false]
      refine List.pairwise_cons.mpr ⟨fun bucket hmem ↦ ?_, ih hrest⟩
      rcases key_of_mem_bump hmem with hx | ⟨d, hd⟩
      · exact hx ▸ hgt
      · exact hfirst (bucket.1, d) hd

/-- An ascending histogram spells out a sorted list. -/
theorem Ascending.pairwise_samples {h : List (α × ℕ)} (hup : Ascending h) :
    (samples h).Pairwise (· ≤ ·) := by
  induction h with
  | nil => exact .nil
  | cons first rest ih =>
    obtain ⟨v, c⟩ := first
    obtain ⟨hfirst, hrest⟩ := List.pairwise_cons.mp hup
    rw [samples_cons]
    refine List.pairwise_append.mpr ⟨List.pairwise_replicate.mpr (.inr le_rfl), ih hrest, ?_⟩
    rintro a ha b hb
    obtain ⟨d, hd⟩ := mem_samples hb
    rw [List.eq_of_mem_replicate ha]
    exact (hfirst _ hd).le

/-! ## The scan

The scan adds counts up until it passes the rank. Since the samples are sorted it stops at the
sample in that place.
-/

omit [LinearOrder α] in
/-- The scan stops at the sample whose position is the rank, counted from what went before. -/
theorem scan_eq_getElem {rank n : ℕ} (hn : n < rank) (h : List (α × ℕ)) :
    scan rank n h = (samples h)[rank - n - 1]? := by
  induction h generalizing n with
  | nil => rfl
  | cons first rest ih =>
    obtain ⟨v, c⟩ := first
    rw [scan, samples_cons]
    by_cases hreach : rank ≤ n + c
    · have hin : rank - n - 1 < c := by omega
      rw [if_pos hreach, List.getElem?_append_left (by simpa using hin)]
      simp [hin]
    · have hout : c ≤ rank - n - 1 := by omega
      rw [if_neg hreach, ih (not_le.mp hreach),
        List.getElem?_append_right (by simpa using hout), List.length_replicate]
      congr 1
      omega

end Histogram
