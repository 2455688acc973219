import SimbusNoc.Library.PartialWalk
import SimbusNoc.Noc.RouteTable

/-!
# What the route validator accepts

`route_table_valid` accepts a table exactly when its nodes are different and the walk from every
node to every node stays in the list and arrives. The set of nodes already met makes every walk of
the validator stop, so the bound on the hops never decides.

## Soundness and completeness

A walk that the validator accepts is one that leads from the source to the destination on nodes of
the list (`leads_of_routeWalk`). For the converse, a walk that leads there has a first visit,
before which it meets no node twice. So the validator, which refuses a node that it has met, never
refuses on the way (`routeWalk_of_takes`).

## The bound

The loop makes at most as many turns as the list is long. A walk that has neither arrived nor left
the list by then has met more different nodes than there are: the set of nodes already met has
stopped it before. So more turns would change nothing (`routeWalk_add`), and the result says how
short an accepted walk is: it takes fewer hops than there are nodes.
-/

namespace Simbus

open PartialWalk

/-- `route_table_valid` without its error text. -/
def routeTableValid (nodes : List BusNodeT) (table : BusRouteTable) : Bool :=
  match assertRouteTableValid nodes table with
  | .ok () => true
  | .error _ => false

/-- Where the table leads from `src` on the way to `dst` in `k` hops. -/
def BusRouteTable.after (table : BusRouteTable) (dst : BusNodeT) (k : ℕ) (src : BusNodeT) :
    Option BusNodeT :=
  follow (table.find? · dst) k src

/-- `k` hops lead from `src` to `dst`, all on nodes of the list. -/
def BusRouteTable.Leads (table : BusRouteTable) (nodes : List BusNodeT) (src dst : BusNodeT)
    (k : ℕ) : Prop :=
  Reaches (table.find? · dst) nodes src dst k

/-- A packet from `src` is at `dst` after `k` hops and not earlier. -/
def BusRouteTable.TakesHops (table : BusRouteTable) (src dst : BusNodeT) (k : ℕ) : Prop :=
  Takes (table.find? · dst) src dst k

variable {nodes : List BusNodeT} {table : BusRouteTable} {src cur dst : BusNodeT}

/-! ## One walk of the validator

The validator keeps the nodes that it has seen and a bound on the hops. Walks in which no node
comes twice are shorter than the list of nodes, so the bound is never what stops a walk.
-/

theorem routeWalk_succ {hops : ℕ} {seen : List BusNodeT} {next : BusNodeT} (hcur : cur ≠ dst)
    (hnew : cur ∉ seen) (hnext : table.find? cur dst = some next) :
    routeWalk nodes table src dst (hops + 1) cur seen =
      if next ∈ nodes then routeWalk nodes table src dst hops next (cur :: seen)
      else .error s!"next hop not in node list: {next}" := by
  obtain ⟨row, hrow, hentry⟩ := Option.bind_eq_some_iff.mp hnext
  simp only [routeWalk, if_neg hcur, if_neg hnew, hrow, hentry]

/-- An accepted walk is a walk within the list. -/
theorem leads_of_routeWalk {hops : ℕ} {seen : List BusNodeT} (hdst : dst ∈ nodes)
    (h : routeWalk nodes table src dst hops cur seen = .ok ()) (hcur : cur ∈ nodes) :
    ∃ k, table.Leads nodes cur dst k := by
  induction hops generalizing cur seen with
  | zero =>
    obtain rfl : cur = dst := by simpa [routeWalk, require_eq_ok_iff] using h
    exact ⟨0, .start hcur⟩
  | succ hops ih =>
    by_cases heq : cur = dst
    · subst heq
      exact ⟨0, .start hcur⟩
    · by_cases hseen : cur ∈ seen
      · simp [routeWalk, heq, hseen] at h
      · cases hnext : table.find? cur dst with
        | none =>
          rw [routeWalk, if_neg heq, if_neg hseen] at h
          split at h
          · cases h
          · rename_i row hrow
            have hentry : row.lookup dst = none := by
              rwa [BusRouteTable.find?, hrow, Option.bind_some] at hnext
            rw [hentry] at h
            cases h
        | some next =>
          rw [routeWalk_succ heq hseen hnext] at h
          split_ifs at h with hmem
          obtain ⟨k, hk⟩ := ih h hmem
          exact ⟨k + 1, hk.step hcur hnext⟩

/-- A first walk of `k` hops that meets none of the nodes seen is accepted in `k` turns. -/
theorem routeWalk_of_takes {k hops : ℕ} {seen : List BusNodeT} (htakes : table.TakesHops cur dst k)
    (hleads : table.Leads nodes cur dst k)
    (hnew : ∀ i < k, ∀ u ∈ seen, table.after dst i cur ≠ some u) (hhops : k ≤ hops) :
    routeWalk nodes table src dst hops cur seen = .ok () := by
  induction k generalizing cur seen hops with
  | zero =>
    obtain rfl : cur = dst := Option.some.inj htakes.arrives
    rcases hops with _ | hops
    · simp [routeWalk]
    · rw [routeWalk, if_pos rfl]
  | succ k ih =>
    obtain ⟨hops, rfl⟩ := Nat.exists_eq_add_of_le' (Nat.one_le_of_lt hhops)
    have hcur : cur ≠ dst := fun heq ↦ htakes.first 0 (Nat.succ_pos k) (congrArg some heq)
    have hseen : cur ∉ seen := fun hmem ↦ hnew 0 (Nat.succ_pos k) cur hmem rfl
    obtain ⟨next, hmem, hnext⟩ : ∃ u ∈ nodes, table.find? cur dst = some u := by
      obtain ⟨u, hu, hfollow⟩ := hleads.within 1 (Nat.succ_le_succ (Nat.zero_le k))
      refine ⟨u, hu, ?_⟩
      rw [← hfollow]
      exact (Option.bind_fun_some _).symm
    have hshift : ∀ i, table.after dst i next = table.after dst (i + 1) cur := by
      intro i
      exact (@follow_succ_of_eq _ (table.find? · dst) cur i next hnext).symm
    rw [routeWalk_succ hcur hseen hnext, if_pos hmem]
    refine ih ⟨?_, ?_⟩ ⟨?_, ?_⟩ ?_ (Nat.le_of_succ_le_succ hhops)
    · exact (hshift k).trans htakes.arrives
    · rintro i hi
      exact fun heq ↦ htakes.first (i + 1) (Nat.succ_lt_succ hi) ((hshift i).symm.trans heq)
    · exact (hshift k).trans hleads.arrives
    · rintro i hi
      obtain ⟨u, hu, hfollow⟩ := hleads.within (i + 1) (Nat.succ_le_succ hi)
      exact ⟨u, hu, (hshift i).trans hfollow⟩
    · rintro i hi u hu heq
      rw [hshift] at heq
      rcases List.mem_cons.mp hu with rfl | hu
      · exact htakes.follow_ne (Nat.succ_pos i) (Nat.succ_le_succ hi.le) heq.symm
      · exact hnew (i + 1) (Nat.succ_lt_succ hi) u hu heq

/-- The set of nodes seen stops the walk: after as many turns as there are nodes left, more turns
change nothing. -/
theorem routeWalk_add {hops : ℕ} (more : ℕ) {seen : List BusNodeT} (hcur : cur ∈ nodes)
    (hseen : seen.Nodup) (hsub : seen ⊆ nodes) (hhops : nodes.length + 1 ≤ hops + seen.length) :
    routeWalk nodes table src dst (hops + more) cur seen
      = routeWalk nodes table src dst hops cur seen := by
  induction hops generalizing cur seen with
  | zero =>
    have hle := (hseen.subperm hsub).length_le
    omega
  | succ hops ih =>
    rw [Nat.add_right_comm]
    by_cases heq : cur = dst
    · simp [routeWalk, heq]
    · by_cases hmet : cur ∈ seen
      · simp [routeWalk, heq, hmet]
      · cases hnext : table.find? cur dst with
        | none =>
          simp only [routeWalk, if_neg heq, if_neg hmet]
          split
          · rfl
          · rename_i row hrow
            have hentry : row.lookup dst = none := by
              rwa [BusRouteTable.find?, hrow, Option.bind_some] at hnext
            rw [hentry]
        | some next =>
          rw [routeWalk_succ heq hmet hnext, routeWalk_succ heq hmet hnext]
          by_cases hmem : next ∈ nodes
          · rw [if_pos hmem, if_pos hmem]
            refine ih hmem (List.nodup_cons.mpr ⟨hmet, hseen⟩)
              (List.cons_subset.mpr ⟨hcur, hsub⟩) ?_
            rw [List.length_cons]
            omega
          · rw [if_neg hmem, if_neg hmem]

/-! ## The validator -/

theorem routeTableValid_eq_true :
    routeTableValid nodes table = true ↔ assertRouteTableValid nodes table = .ok () := by
  rw [routeTableValid]
  split <;> simp_all

theorem assertRouteTableValid_eq_ok :
    assertRouteTableValid nodes table = .ok () ↔ nodes.Nodup ∧ ∀ src ∈ nodes, ∀ dst ∈ nodes,
      routeWalk nodes table src dst (nodes.length + 1) src [] = .ok () := by
  rw [assertRouteTableValid, Except.bind_eq_ok_iff]
  simp only [require_eq_ok_iff, beq_iff_eq, forM_eq_ok_iff, exists_and_left, exists_const]
  have hdedup : nodes.dedup.length = nodes.length ↔ nodes.Nodup :=
    ⟨fun h ↦ List.dedup_eq_self.mp (nodes.dedup_sublist.eq_of_length h),
      fun h ↦ by rw [List.dedup_eq_self.mpr h]⟩
  rw [hdedup]

/-- From here on a table is judged by its walks. -/
theorem routeTableValid_of_leads (hnodup : nodes.Nodup)
    (h : ∀ src ∈ nodes, ∀ dst ∈ nodes, ∃ k, table.Leads nodes src dst k) :
    routeTableValid nodes table = true := by
  refine routeTableValid_eq_true.mpr (assertRouteTableValid_eq_ok.mpr ⟨hnodup, ?_⟩)
  rintro src hsrc dst hdst
  obtain ⟨k, hk⟩ := h src hsrc dst hdst
  obtain ⟨i, hi, htakes, hleads⟩ := hk.exists_lt_length
  refine routeWalk_of_takes htakes hleads (fun _ _ u hu ↦ ?_) (hi.le.trans (Nat.le_succ _))
  exact absurd hu List.not_mem_nil

/-- The validator is sound and complete, the walks it accepts are shorter than the list, and no
walk takes more turns than the list is long. -/
theorem routeTableValid_iff (nodes : List BusNodeT) (table : BusRouteTable) :
    (routeTableValid nodes table = true ↔
      nodes.Nodup ∧ ∀ src ∈ nodes, ∀ dst ∈ nodes, ∃ k, table.Leads nodes src dst k) ∧
    (routeTableValid nodes table = true →
      ∀ src ∈ nodes, ∀ dst ∈ nodes, ∃ k < nodes.length, table.Leads nodes src dst k) ∧
    ∀ src ∈ nodes, ∀ dst more, routeWalk nodes table src dst (nodes.length + 1 + more) src []
      = routeWalk nodes table src dst (nodes.length + 1) src [] := by
  have hsound : routeTableValid nodes table = true →
      nodes.Nodup ∧ ∀ src ∈ nodes, ∀ dst ∈ nodes, ∃ k, table.Leads nodes src dst k := by
    intro h
    obtain ⟨hnodup, hwalks⟩ :=
      assertRouteTableValid_eq_ok.mp (routeTableValid_eq_true.mp h)
    exact ⟨hnodup, fun src hsrc dst hdst ↦
      leads_of_routeWalk hdst (hwalks src hsrc dst hdst) hsrc⟩
  refine ⟨⟨hsound, fun h ↦ routeTableValid_of_leads h.1 h.2⟩, ?_, ?_⟩
  · rintro h src hsrc dst hdst
    obtain ⟨k, hk⟩ := (hsound h).2 src hsrc dst hdst
    obtain ⟨i, hi, -, hleads⟩ := hk.exists_lt_length
    exact ⟨i, hi, hleads⟩
  · rintro src hsrc dst more
    exact routeWalk_add more hsrc List.nodup_nil (List.nil_subset _) (Nat.le_refl _)

theorem routeTableValid_iff_pair :
    ∃ k < 2, BusRouteTable.Leads (routeInsert 0 1 1 (routeInsert 1 0 0 ∅)) [0, 1] 0 1 k :=
  (routeTableValid_iff [0, 1] (routeInsert 0 1 1 (routeInsert 1 0 0 ∅))).2.1 rfl 0 (by simp) 1
    (by simp)

end Simbus
