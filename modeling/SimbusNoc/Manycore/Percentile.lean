import SimbusNoc.Library.Histogram
import SimbusNoc.Manycore.SharedBus
import Mathlib.Algebra.GroupWithZero.Nat

/-!
# The 99th percentile of a distribution

`Distribution` of `interconnect.hpp` in its own 64-bit integers, with the `std::map` as its
ascending list of buckets, and `p99` over it. As long as nothing overflows, `Distribution64`
counts what the `Distribution` of the shared bus counts (`view_record`), which has natural numbers
in their place.

`p99` leaves `count / 100` values above its answer. Whatever the values are, fewer than 2^64 of them
leave the histogram an exact account of them: `Records` says that the buckets, spread out, are a
permutation of the values seen, and every `add` keeps it. The running count of the loop is then a
position in the sorted values, so that `p99` finds the value of the nearest rank, in any order of
the `add` calls.
-/

namespace Manycore

open Simbus Histogram

/-! ## The distribution -/

/-- `++histogram[n]` on an `std::map`: a missing key is entered in its place with the count zero. -/
def increment (n : UInt64) : List (UInt64 × UInt64) → List (UInt64 × UInt64)
  | [] => [(n, 1)]
  | (v, c) :: rest =>
    if n < v then (n, 1) :: (v, c) :: rest
    else if n = v then (v, c + 1) :: rest
    else (v, c) :: increment n rest

/-- `Distribution` with the widths of the source. -/
structure Distribution64 where
  count : UInt64 := 0
  sum : UInt64 := 0
  maximum : UInt64 := 0
  histogram : List (UInt64 × UInt64) := []

namespace Distribution64

def add (d : Distribution64) (n : UInt64) : Distribution64 where
  count := d.count + 1
  sum := d.sum + n
  maximum := max d.maximum n
  histogram := increment n d.histogram

/-- The loop of `p99`: `n` is the running count. -/
def p99Loop (count : UInt64) : UInt64 → List (UInt64 × UInt64) → UInt64
  | _, [] => 0
  | n, (v, c) :: rest =>
    if n + c ≥ count - count / 100 then v else p99Loop count (n + c) rest

def p99 (d : Distribution64) : UInt64 := p99Loop d.count 0 d.histogram

/-- What the `add` calls for `values`, in this order, leave behind. -/
def record (values : List UInt64) : Distribution64 := values.foldl add {}

end Distribution64

/-! ## The words as numbers -/

/-- The buckets with their words as natural numbers. -/
def numbers (h : List (UInt64 × UInt64)) : List (ℕ × ℕ) :=
  h.map fun bucket ↦ (bucket.1.toNat, bucket.2.toNat)

@[simp] theorem numbers_cons (v c : UInt64) (rest : List (UInt64 × UInt64)) :
    numbers ((v, c) :: rest) = (v.toNat, c.toNat) :: numbers rest := rfl

theorem numbers_increment {n : UInt64} {h : List (UInt64 × UInt64)}
    (hsize : (samples (numbers h)).length + 1 < 2 ^ 64) :
    numbers (increment n h) = bump n.toNat (numbers h) := by
  induction h with
  | nil => rfl
  | cons first rest ih =>
    obtain ⟨v, c⟩ := first
    simp only [numbers_cons, samples_cons, List.length_append, List.length_replicate] at hsize
    have hcount : (c + 1).toNat = c.toNat + 1 := by
      rw [UInt64.toNat_add, UInt64.toNat_one, Nat.mod_eq_of_lt]
      omega
    rw [increment, numbers_cons, bump]
    by_cases hlt : n < v
    · rw [if_pos hlt, if_pos (UInt64.lt_iff_toNat_lt.mp hlt)]
      rfl
    · rw [if_neg hlt, if_neg (mt UInt64.lt_iff_toNat_lt.mpr hlt)]
      by_cases heq : n = v
      · rw [if_pos heq, if_pos (congrArg UInt64.toNat heq), numbers_cons, hcount]
      · rw [if_neg heq, if_neg (mt UInt64.toNat_inj.mp heq), numbers_cons, ih (by omega)]

namespace Distribution64

/-- The loop of `p99` is the scan for the rank, as long as the running count does not wrap. -/
theorem toNat_p99Loop {count n : UInt64} {h : List (UInt64 × UInt64)}
    (hsize : n.toNat + (samples (numbers h)).length < 2 ^ 64) :
    (p99Loop count n h).toNat
      = (scan (count - count / 100).toNat n.toNat (numbers h)).getD 0 := by
  induction h generalizing n with
  | nil => rfl
  | cons first rest ih =>
    obtain ⟨v, c⟩ := first
    simp only [numbers_cons, samples_cons, List.length_append, List.length_replicate] at hsize
    have hadd : (n + c).toNat = n.toNat + c.toNat := by
      rw [UInt64.toNat_add, Nat.mod_eq_of_lt]
      omega
    rw [p99Loop, numbers_cons, scan, ← hadd]
    by_cases hreach : n + c ≥ count - count / 100
    · rw [if_pos hreach, if_pos (UInt64.le_iff_toNat_le.mp hreach)]
      rfl
    · rw [if_neg hreach, if_neg (mt UInt64.le_iff_toNat_le.mpr hreach)]
      exact ih (by omega)

/-! ## What the calls leave behind

A list of values and its histogram are the same up to order, and the scan over the histogram is a
scan over the sorted values.
-/

/-- `d` is an exact account of the values seen. -/
structure Records (d : Distribution64) (seen : List UInt64) : Prop where
  count : d.count.toNat = seen.length
  ascending : Ascending (numbers d.histogram)
  samples : (samples (numbers d.histogram)).Perm (seen.map UInt64.toNat)
  maximum : ∀ v ∈ seen, v ≤ d.maximum

theorem Records.length_samples {d : Distribution64} {seen : List UInt64} (h : Records d seen) :
    (Histogram.samples (numbers d.histogram)).length = seen.length := by
  rw [h.samples.length_eq, List.length_map]

theorem Records.init : Records {} [] where
  count := rfl
  ascending := .nil
  samples := .nil
  maximum := by simp

theorem Records.add {d : Distribution64} {seen : List UInt64} (h : Records d seen)
    (hsize : seen.length + 1 < 2 ^ 64) (n : UInt64) : Records (d.add n) (n :: seen) := by
  have hnumbers : numbers (d.add n).histogram = bump n.toNat (numbers d.histogram) :=
    numbers_increment (by rwa [h.length_samples])
  refine ⟨?_, ?_, ?_, ?_⟩
  · have hcount := h.count
    rw [Distribution64.add, UInt64.toNat_add, UInt64.toNat_one, hcount, Nat.mod_eq_of_lt hsize,
      List.length_cons]
  · rw [hnumbers]
    exact h.ascending.bump _
  · rw [hnumbers]
    exact (samples_bump_perm _ _).trans (h.samples.cons _)
  · have hmax : (d.add n).maximum.toNat = max d.maximum.toNat n.toNat := UInt64.toNat_max _ _
    rintro v hv
    rw [UInt64.le_iff_toNat_le, hmax]
    rcases List.mem_cons.mp hv with rfl | hv
    · exact le_max_right _ _
    · exact (UInt64.le_iff_toNat_le.mp (h.maximum v hv)).trans (le_max_left _ _)

theorem Records.foldl {d : Distribution64} {seen : List UInt64} (h : Records d seen)
    (values : List UInt64) (hsize : seen.length + values.length < 2 ^ 64) :
    Records (values.foldl Distribution64.add d) (values.reverse ++ seen) := by
  induction values generalizing d seen with
  | nil => exact h
  | cons n values ih =>
    rw [List.length_cons] at hsize
    rw [List.foldl_cons, List.reverse_cons, List.append_assoc]
    refine ih (h.add (by omega) n) ?_
    rw [List.length_append, List.length_singleton]
    omega

/-- Fewer than 2^64 calls are recorded exactly. -/
theorem records_record {values : List UInt64} (hsize : values.length < 2 ^ 64) :
    Records (record values) values.reverse := by
  have h := Records.init.foldl values (by rwa [List.length_nil, Nat.zero_add])
  rwa [List.append_nil] at h

/-- The values in ascending order. -/
def sorted (values : List UInt64) : List UInt64 := values.mergeSort fun a b ↦ decide (a ≤ b)

theorem sorted_perm (values : List UInt64) : (sorted values).Perm values :=
  List.mergeSort_perm _ _

theorem pairwise_sorted (values : List UInt64) :
    ((sorted values).map UInt64.toNat).Pairwise (· ≤ ·) := by
  have hsorted : (sorted values).Pairwise fun a b ↦ decide (a ≤ b) = true := by
    refine List.pairwise_mergeSort (fun a b c hab hbc ↦ ?_) (fun a b ↦ ?_) values
    · simp only [decide_eq_true_eq, UInt64.le_iff_toNat_le] at *
      exact hab.trans hbc
    · simp only [Bool.or_eq_true, decide_eq_true_eq, UInt64.le_iff_toNat_le]
      exact le_total _ _
  refine List.pairwise_map.mpr (hsorted.imp ?_)
  rintro a b hab
  exact UInt64.le_iff_toNat_le.mp (of_decide_eq_true hab)

theorem sorted_eq {values other : List UInt64} (h : other.Perm values) :
    sorted other = sorted values := by
  have hperm : (sorted other).Perm (sorted values) :=
    ((sorted_perm other).trans h).trans (sorted_perm values).symm
  have heq := List.Perm.eq_of_pairwise' (r := (· ≤ ·)) (pairwise_sorted other)
    (pairwise_sorted values) (hperm.map _)
  exact List.map_injective_iff.mpr (fun _ _ ↦ UInt64.toNat_inj.mp) heq

/-- The spelled out histogram is the sorted list of the values. -/
theorem Records.samples_eq {d : Distribution64} {seen : List UInt64} (h : Records d seen) :
    Histogram.samples (numbers d.histogram) = (sorted seen).map UInt64.toNat :=
  List.Perm.eq_of_pairwise' (r := (· ≤ ·)) h.ascending.pairwise_samples (pairwise_sorted seen)
    (h.samples.trans ((sorted_perm seen).symm.map _))

/-- The rank without a multiplication: `99 * count / 100`, rounded up. -/
private theorem rank_eq (count : UInt64) :
    (count - count / 100).toNat = (99 * count.toNat + 99) / 100 := by
  have hdiv : (count / 100).toNat = count.toNat / 100 := UInt64.toNat_div _ _
  have hle : count / 100 ≤ count := by
    rw [UInt64.le_iff_toNat_le, hdiv]
    omega
  rw [UInt64.toNat_sub_of_le _ _ hle, hdiv]
  omega

/-- `p99` of an exact account is the sample of the nearest rank. -/
theorem Records.p99 {d : Distribution64} {seen : List UInt64} (h : Records d seen)
    (hsize : seen.length < 2 ^ 64) (hne : seen ≠ []) :
    (sorted seen)[(99 * seen.length + 99) / 100 - 1]? = some d.p99 := by
  have hlength : (sorted seen).length = seen.length := (sorted_perm seen).length_eq
  have hpos : 0 < seen.length := List.length_pos_iff.mpr hne
  have hrank : 0 < (99 * seen.length + 99) / 100 ∧ (99 * seen.length + 99) / 100 ≤ seen.length := by
    omega
  have hin : (99 * seen.length + 99) / 100 - 1 < (sorted seen).length := by omega
  have hscan : d.p99.toNat = ((sorted seen).get ⟨_, hin⟩).toNat := by
    rw [Distribution64.p99, toNat_p99Loop (by rw [h.length_samples]; simpa using hsize), rank_eq,
      h.count, UInt64.toNat_zero, scan_eq_getElem hrank.1, h.samples_eq, List.getElem?_map,
      Nat.sub_zero, List.getElem?_eq_getElem hin]
    rfl
  rw [List.getElem?_eq_getElem hin]
  exact congrArg some (UInt64.toNat_inj.mp hscan).symm

/-! ## The percentile -/

/-- Whatever was recorded, `p99` is the value at the 1-based rank
`⌈99 * count / 100⌉`. -/
theorem p99_nearest_rank :
    ({} : Distribution64).p99 = 0 ∧
      ∀ values : List UInt64, values ≠ [] → values.length < 2 ^ 64 →
        (sorted values)[(99 * values.length + 99) / 100 - 1]? = some (record values).p99 ∧
          (∀ other : List UInt64, other.Perm values →
            (record other).p99 = (record values).p99) ∧
          (record values).p99 ≤ (record values).maximum := by
  refine ⟨rfl, fun values hne hsize ↦ ?_⟩
  have hrank : ∀ other : List UInt64, other.Perm values →
      (sorted values)[(99 * values.length + 99) / 100 - 1]? = some (record other).p99 := by
    rintro other hperm
    have hother : other ≠ [] := by
      rintro rfl
      exact hne hperm.symm.eq_nil
    have h := (records_record (hperm.length_eq ▸ hsize)).p99
      (by rwa [List.length_reverse, hperm.length_eq]) (by simpa using hother)
    rwa [List.length_reverse, hperm.length_eq,
      sorted_eq (other.reverse_perm.trans hperm)] at h
  refine ⟨hrank values .rfl, fun other hperm ↦ ?_, ?_⟩
  · exact Option.some.inj ((hrank other hperm).symm.trans (hrank values .rfl))
  · have hmem := (sorted_perm values).mem_iff.mp (List.mem_of_getElem? (hrank values .rfl))
    exact (records_record hsize).maximum _ (List.mem_reverse.mpr hmem)

theorem p99_nearest_rank_three :
    (sorted [7, 9, 7])[2]? = some (record [7, 9, 7]).p99 ∧
      (record [9, 7, 7]).p99 = (record [7, 9, 7]).p99 ∧
      (record [7, 9, 7]).p99 ≤ (record [7, 9, 7]).maximum := by
  obtain ⟨hrank, horder, hmax⟩ := p99_nearest_rank.2 [7, 9, 7] (by simp) (by simp)
  exact ⟨hrank, horder [9, 7, 7] (.swap 7 9 [7]), hmax⟩

/-! ## The counters of the shared bus -/

/-- The distribution without its bounds: what the shared bus counts. -/
def view (d : Distribution64) : Distribution where
  count := d.count.toNat
  sum := d.sum.toNat
  maximum := d.maximum.toNat
  histogram := fun v ↦ (Histogram.samples (numbers d.histogram)).count v

theorem Records.view_add {d : Distribution64} {seen : List UInt64} (h : Records d seen)
    (hsize : seen.length + 1 < 2 ^ 64) {n : UInt64} (hsum : d.sum.toNat + n.toNat < 2 ^ 64) :
    (d.add n).view = d.view.add n.toNat := by
  have hcount : (d.add n).count.toNat = d.count.toNat + 1 := by
    rw [(h.add hsize n).count, h.count, List.length_cons]
  have hadd : (d.add n).sum.toNat = d.sum.toNat + n.toNat := by
    rw [Distribution64.add, UInt64.toNat_add, Nat.mod_eq_of_lt hsum]
  have hmax : (d.add n).maximum.toNat = max d.maximum.toNat n.toNat := UInt64.toNat_max _ _
  have hnumbers : numbers (d.add n).histogram = bump n.toNat (numbers d.histogram) :=
    numbers_increment (by rwa [h.length_samples])
  have hhistogram : (fun v ↦ (Histogram.samples (numbers (d.add n).histogram)).count v)
      = (d.view.add n.toNat).histogram := by
    funext v
    rw [hnumbers, (samples_bump_perm _ _).count_eq]
    change _ = Function.update d.view.histogram n.toNat (d.view.histogram n.toNat + 1) v
    by_cases hv : v = n.toNat
    · rw [hv, List.count_cons_self, Function.update_self]
      rfl
    · rw [List.count_cons_of_ne (Ne.symm hv), Function.update_of_ne hv]
      rfl
  rw [view, hcount, hadd, hmax, hhistogram]
  rfl

/-- As long as the number and the sum of the values fit, the two count alike. -/
theorem view_record {values : List UInt64} (hsize : values.length < 2 ^ 64)
    (hsum : (values.map UInt64.toNat).sum < 2 ^ 64) :
    (record values).view = (values.map UInt64.toNat).foldl Distribution.add {} := by
  have hstep : ∀ (d : Distribution64) (seen : List UInt64), Records d seen →
      seen.length + values.length < 2 ^ 64 →
      d.sum.toNat + (values.map UInt64.toNat).sum < 2 ^ 64 →
      (values.foldl add d).view = (values.map UInt64.toNat).foldl Distribution.add d.view := by
    clear hsize hsum
    induction values with
    | nil => exact fun _ _ _ _ _ ↦ rfl
    | cons n values ih =>
      rintro d seen h hsize hsum
      rw [List.length_cons] at hsize
      rw [List.map_cons, List.sum_cons] at hsum
      have hadd : (d.add n).sum.toNat = d.sum.toNat + n.toNat := by
        rw [add, UInt64.toNat_add, Nat.mod_eq_of_lt (by omega)]
      rw [List.foldl_cons, List.map_cons, List.foldl_cons,
        ← h.view_add (by omega) (by omega : d.sum.toNat + n.toNat < 2 ^ 64)]
      exact ih (d.add n) (n :: seen) (h.add (by omega) n)
        (by rw [List.length_cons]; omega) (by omega)
  exact hstep {} [] .init (by simpa using hsize) (by simpa using hsum)

end Distribution64

end Manycore
