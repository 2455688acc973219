import Mathlib.Data.List.GetD
import SimbusNoc.Library.RingWalk
import SimbusNoc.Noc.RouteValidation

/-!
# The generated routes

The tables of the three generators. On a ring a packet walks around the circle of the nodes, always
forward or the shorter way; on a mesh it walks around the ring of its row and then around the ring
of its column. Each entry is one step of such a walk, so the walks make up the routes.

## From loops to entries

The generators write entries in loops that do not visit the destinations in the order of their
distance, and the backward half of the double ring overwrites nothing of the forward half only
because the two meet in the middle. So the first part finds, for each place of the ring, the turn
of the loop that writes the entry for it, and shows that no other turn does. The nodes are
different, which is what makes different places different keys.

## From entries to routes

`WalksRing` says of a table that every entry is the first step of the walk around the ring. From
there on the table is not looked at any more: `WalksRing.route` reads the route off the walk, with
its length, and `WalksRing.valid` that the validator accepts the table. The shortest route is a
fact about walks on a circle, which the library has.
-/

namespace Simbus

open PartialWalk RingWalk

/-! ## Loops that write entries

Each table is filled by loops that write an entry in each turn. What a turn has written is in the
table at the end if no later turn writes the same key.
-/

/-- What the turn for `a` establishes and no other turn destroys holds after the loop. -/
theorem foldl_establishes {ι σ : Type} {P : σ → Prop} {f : σ → ι → σ} {l : List ι} {a : ι}
    (ha : a ∈ l) (hset : ∀ out, P (f out a))
    (hkeep : ∀ i ∈ l, i ≠ a → ∀ out, P out → P (f out i)) (out : σ) : P (l.foldl f out) := by
  induction l generalizing out with
  | nil => exact absurd ha List.not_mem_nil
  | cons b l ih =>
    have hrest := fun i hi ↦ hkeep i (List.mem_cons_of_mem b hi)
    rw [List.foldl_cons]
    by_cases hmem : a ∈ l
    · exact ih hmem hrest _
    · obtain rfl : a = b := (List.mem_cons.mp ha).resolve_right hmem
      refine List.foldlRecOn (motive := P) _ _ (hset out) fun out hout i hi ↦ ?_
      exact hrest i hi (fun heq ↦ hmem (heq ▸ hi)) out hout

theorem find?_routeInsert_self (src dst next : BusNodeT) (table : BusRouteTable) :
    (routeInsert src dst next table).find? src dst = some next := by
  rw [find?_routeInsert, if_pos ⟨rfl, rfl⟩]

theorem find?_routeInsert_of_ne {src dst v d : BusNodeT} (next : BusNodeT) (table : BusRouteTable)
    (hne : v ≠ src ∨ d ≠ dst) : (routeInsert src dst next table).find? v d = table.find? v d := by
  rw [find?_routeInsert, if_neg]
  rintro ⟨hv, hd⟩
  rcases hne with h | h
  · exact h hv
  · exact h hd

variable {nodes : List BusNodeT} {table : BusRouteTable} {src next v d : BusNodeT}
  {i j a m : ℕ}

private theorem getD_mem (hi : i < nodes.length) : nodes.getD i 0 ∈ nodes := by
  rw [List.getD_eq_getElem _ _ hi]
  exact List.getElem_mem hi

private theorem getD_injective (hnodup : nodes.Nodup) (hi : i < nodes.length)
    (hj : j < nodes.length) (h : nodes.getD i 0 = nodes.getD j 0) : i = j := by
  rwa [List.getD_eq_getElem _ _ hi, List.getD_eq_getElem _ _ hj, hnodup.getElem_inj_iff] at h

/-! ## The rows of a ring

The row of a source has an entry for every other node. One loop goes forward from the source and
one goes back, and they meet half way round.
-/

/-- What no entry of the loop destroys. The loop starts `a` places after `i`. -/
theorem doubleRingForward_keeps {P : BusRouteTable → Prop}
    (hkeep : ∀ e, a ≤ e → e < a + m → ∀ out, P out →
      P (routeInsert src (nodes.getD ((i + e) % nodes.length) 0) next out))
    {out : BusRouteTable} (hout : P out) :
    P (doubleRingForward nodes src next m ((i + a) % nodes.length) out).2 := by
  induction m generalizing a out with
  | zero => exact hout
  | succ m ih =>
    rw [doubleRingForward, Nat.mod_add_mod, Nat.add_assoc]
    refine ih (fun e he he' ↦ hkeep e (by omega) (by omega)) ?_
    exact hkeep a (Nat.le_refl a) (by omega) out hout

/-- The places from `a` on get `next`, for `m` turns. -/
theorem find?_doubleRingForward {e : ℕ} (ha : a ≤ e) (he : e < a + m) (out : BusRouteTable) :
    (doubleRingForward nodes src next m ((i + a) % nodes.length) out).2.find? src
      (nodes.getD ((i + e) % nodes.length) 0) = some next := by
  induction m generalizing a out with
  | zero => omega
  | succ m ih =>
    rw [doubleRingForward, Nat.mod_add_mod, Nat.add_assoc]
    rcases Nat.eq_or_lt_of_le ha with rfl | hlt
    · -- A later turn that comes round to the same place enters the same next hop.
      refine doubleRingForward_keeps (P := fun out ↦ out.find? src _ = some next)
        (fun e _ _ out hout ↦ ?_) (find?_routeInsert_self ..)
      rw [find?_routeInsert]
      split_ifs
      · rfl
      · exact hout
    · exact ih hlt (by omega) _

theorem find?_doubleRingForward_of_ne {out : BusRouteTable}
    (hne : v ≠ src ∨ ∀ e, a ≤ e → e < a + m → d ≠ nodes.getD ((i + e) % nodes.length) 0) :
    (doubleRingForward nodes src next m ((i + a) % nodes.length) out).2.find? v d
      = out.find? v d := by
  refine doubleRingForward_keeps (P := fun out' ↦ out'.find? v d = out.find? v d)
    (fun e he he' out' hout' ↦ ?_) rfl
  rw [find?_routeInsert_of_ne next out' (hne.imp_right fun h ↦ h e he he'), hout']

theorem fst_doubleRingForward (out : BusRouteTable) :
    (doubleRingForward nodes src next m ((i + a) % nodes.length) out).1
      = (i + (a + m)) % nodes.length := by
  induction m generalizing a out with
  | zero => rfl
  | succ m ih =>
    rw [doubleRingForward, Nat.mod_add_mod, Nat.add_assoc, ih, Nat.add_assoc, Nat.add_comm 1 m]

/-- The `while` loop is the counted loop up to the source. -/
theorem doubleRingBack_eq (hi : i < nodes.length) (ham : a + m = nodes.length) (ha : 0 < a)
    {fuel : ℕ} (hfuel : m < fuel) (out : BusRouteTable) :
    doubleRingBack nodes i src next fuel ((i + a) % nodes.length) out
      = (doubleRingForward nodes src next m ((i + a) % nodes.length) out).2 := by
  induction m generalizing a out fuel with
  | zero =>
    obtain ⟨fuel, rfl⟩ := Nat.exists_eq_add_of_le' (Nat.one_le_of_lt hfuel)
    obtain rfl : a = nodes.length := by omega
    rw [doubleRingBack, Nat.add_mod_right, if_pos (Nat.mod_eq_of_lt hi)]
    rfl
  | succ m ih =>
    obtain ⟨fuel, rfl⟩ := Nat.exists_eq_add_of_le' (Nat.one_le_of_lt hfuel)
    have hne : (i + a) % nodes.length ≠ i := by
      intro heq
      have hself := ahead_place hi (k := a) (by omega)
      rw [place, if_neg Bool.false_ne_true, heq, (ahead_eq_zero_iff hi hi).mpr rfl] at hself
      omega
    rw [doubleRingBack, if_neg hne, doubleRingForward, Nat.mod_add_mod, Nat.add_assoc]
    exact ih (by omega) (by omega) (by omega) _

private theorem getD_place_ne (hnodup : nodes.Nodup) (hi : i < nodes.length)
    (hj : j < nodes.length) {e : ℕ} (he : e < nodes.length) (hne : ahead nodes.length i j ≠ e) :
    nodes.getD j 0 ≠ nodes.getD ((i + e) % nodes.length) 0 := by
  intro heq
  have hplace : (i + e) % nodes.length = place false nodes.length i e := rfl
  rw [hplace] at heq
  have hj' := getD_injective hnodup hj (place_lt hi) heq
  exact hne (by rw [hj', ahead_place hi he])

/-- What the loop enters for the place `j`, if it comes by. -/
private theorem find?_forward_place (hi : i < nodes.length) (hj : j < nodes.length)
    (ha : a ≤ ahead nodes.length i j) (hm : ahead nodes.length i j < a + m) (out : BusRouteTable) :
    (doubleRingForward nodes src next m ((i + a) % nodes.length) out).2.find? src (nodes.getD j 0)
      = some next := by
  have h : (doubleRingForward nodes src next m ((i + a) % nodes.length) out).2.find? src
      (nodes.getD ((i + ahead nodes.length i j) % nodes.length) 0) = some next :=
    find?_doubleRingForward ha hm out
  have hplace : (i + ahead nodes.length i j) % nodes.length = j := place_ahead hi hj
  rwa [hplace] at h

theorem find?_singleRingRow (hnodup : nodes.Nodup) (hi : i < nodes.length) (hj : j < nodes.length)
    (hij : i ≠ j) (out : BusRouteTable) :
    (singleRingRow nodes out i).find? (nodes.getD i 0) (nodes.getD j 0)
      = some (nodes.getD (step false nodes.length i j) 0) := by
  have hpos : ahead nodes.length i j ≠ 0 := mt (ahead_eq_zero_iff hi hj).mp hij
  have hlt : ahead nodes.length i j < nodes.length := ahead_lt hi
  have hne : nodes.getD j 0 ≠ nodes.getD i 0 := fun h ↦ hij (getD_injective hnodup hj hi h).symm
  have hstep : step false nodes.length i j = (i + 1) % nodes.length := rfl
  rw [singleRingRow, find?_routeInsert_of_ne _ _ (.inr hne), hstep,
    find?_forward_place hi hj (by omega) (by omega)]

theorem find?_singleRingRow_of_ne (hv : v ≠ nodes.getD i 0) (out : BusRouteTable) :
    (singleRingRow nodes out i).find? v d = out.find? v d := by
  rw [singleRingRow, find?_routeInsert_of_ne _ _ (.inl hv),
    find?_doubleRingForward_of_ne (.inl hv)]

theorem doubleRingRow_eq (hi : i < nodes.length) (out : BusRouteTable) :
    doubleRingRow nodes out i
      = (doubleRingForward nodes (nodes.getD i 0)
          (nodes.getD ((i + nodes.length - 1) % nodes.length) 0)
          (nodes.length - (1 + nodes.length / 2)) ((i + (1 + nodes.length / 2)) % nodes.length)
          (doubleRingForward nodes (nodes.getD i 0) (nodes.getD ((i + 1) % nodes.length) 0)
            (nodes.length / 2) ((i + 1) % nodes.length)
            (routeInsert (nodes.getD i 0) (nodes.getD i 0) (nodes.getD i 0) out)).2).2 := by
  rw [doubleRingRow]
  dsimp only
  rw [fst_doubleRingForward, doubleRingBack_eq (m := nodes.length - (1 + nodes.length / 2)) hi
    (by omega) (by omega) (by omega)]

theorem find?_doubleRingRow (hnodup : nodes.Nodup) (hi : i < nodes.length) (hj : j < nodes.length)
    (hij : i ≠ j) (out : BusRouteTable) :
    (doubleRingRow nodes out i).find? (nodes.getD i 0) (nodes.getD j 0)
      = some (nodes.getD (step true nodes.length i j) 0) := by
  have hpos : ahead nodes.length i j ≠ 0 := mt (ahead_eq_zero_iff hi hj).mp hij
  have hlt : ahead nodes.length i j < nodes.length := ahead_lt hi
  rw [doubleRingRow_eq hi, step]
  by_cases hback : goesBack true nodes.length i j = true
  · have hfar := (length_true hi hj).2.mp hback
    rw [if_pos hback, find?_forward_place hi hj (by omega) (by omega)]
  · have hnear := mt (length_true hi hj).2.mpr hback
    rw [if_neg hback, find?_doubleRingForward_of_ne (.inr fun e he he' ↦ ?_),
      find?_forward_place hi hj (by omega) (by omega)]
    exact getD_place_ne hnodup hi hj (by omega) (by omega)

theorem find?_doubleRingRow_of_ne (hi : i < nodes.length) (hv : v ≠ nodes.getD i 0)
    (out : BusRouteTable) :
    (doubleRingRow nodes out i).find? v d = out.find? v d := by
  rw [doubleRingRow_eq hi, find?_doubleRingForward_of_ne (.inl hv),
    find?_doubleRingForward_of_ne (.inl hv), find?_routeInsert_of_ne _ _ (.inl hv)]

/-! ## The tables of a ring -/

/-- Every entry between different nodes is the first step of the walk around the ring. -/
def WalksRing (both : Bool) (nodes : List BusNodeT) (table : BusRouteTable) : Prop :=
  ∀ i < nodes.length, ∀ j < nodes.length, i ≠ j →
    table.find? (nodes.getD i 0) (nodes.getD j 0)
      = some (nodes.getD (step both nodes.length i j) 0)

/-- Rows that write their own source make up the table. -/
private theorem walksRing_foldl {both : Bool} {row : BusRouteTable → ℕ → BusRouteTable}
    (hnodup : nodes.Nodup)
    (hset : ∀ i < nodes.length, ∀ j < nodes.length, i ≠ j → ∀ out,
      (row out i).find? (nodes.getD i 0) (nodes.getD j 0)
        = some (nodes.getD (step both nodes.length i j) 0))
    (hkeep : ∀ i < nodes.length, ∀ v d, v ≠ nodes.getD i 0 → ∀ out,
      (row out i).find? v d = out.find? v d) (out : BusRouteTable) :
    WalksRing both nodes ((List.range nodes.length).foldl row out) := by
  intro i hi j hj hij
  refine foldl_establishes
    (P := fun out ↦ out.find? (nodes.getD i 0) (nodes.getD j 0)
      = some (nodes.getD (step both nodes.length i j) 0))
    (List.mem_range.mpr hi) (hset i hi j hj hij) (fun i' hi' hne out hout ↦ ?_) out
  rw [List.mem_range] at hi'
  rw [hkeep i' hi' _ _ (fun heq ↦ hne (getD_injective hnodup hi hi' heq).symm), hout]

/-- The table of a ring of one node has no entry between different nodes. -/
private theorem walksRing_of_length_eq_one {both : Bool} (hone : nodes.length = 1)
    (table : BusRouteTable) : WalksRing both nodes table := by
  intro i hi j hj hij
  omega

theorem genrouteSingleRing_walks (hne : nodes ≠ []) (hnodup : nodes.Nodup) :
    ∃ table, genrouteSingleRing nodes = .ok table ∧ WalksRing false nodes table := by
  have hpos : nodes.length ≠ 0 := mt List.length_eq_zero_iff.mp hne
  have hunique : (nodes.dedup.length == nodes.length) = true := by
    rw [List.dedup_eq_self.mpr hnodup, beq_self_eq_true]
  have hsome : (!nodes.isEmpty) = true := by simpa using hne
  rw [genrouteSingleRing, hunique, hsome]
  by_cases hone : nodes.length = 1
  · exact ⟨_, by simp only [hone]; rfl, walksRing_of_length_eq_one hone _⟩
  · refine ⟨_, by simp only [hone]; rfl, walksRing_foldl hnodup ?_ ?_ ∅⟩
    · exact fun i hi j hj hij ↦ find?_singleRingRow hnodup hi hj hij
    · exact fun i _ v d hv ↦ find?_singleRingRow_of_ne hv

theorem genrouteDoubleRing_walks (hne : nodes ≠ []) (hnodup : nodes.Nodup) :
    ∃ table, genrouteDoubleRing nodes = .ok table ∧ WalksRing true nodes table := by
  have hpos : nodes.length ≠ 0 := mt List.length_eq_zero_iff.mp hne
  have hunique : (nodes.dedup.length == nodes.length) = true := by
    rw [List.dedup_eq_self.mpr hnodup, beq_self_eq_true]
  have hsome : (!nodes.isEmpty) = true := by simpa using hne
  rw [genrouteDoubleRing, hunique, hsome]
  by_cases hone : nodes.length = 1
  · exact ⟨_, by simp only [hone]; rfl, walksRing_of_length_eq_one hone _⟩
  · refine ⟨_, by simp only [hone]; rfl, walksRing_foldl hnodup ?_ ?_ ∅⟩
    · exact fun i hi j hj hij ↦ find?_doubleRingRow hnodup hi hj hij
    · exact fun i hi v d hv ↦ find?_doubleRingRow_of_ne hi hv

/-! ## The routes of a ring

Following the entries from node to node is the walk round the ring of the library, step by step.
-/

/-- Between two places the route is the walk around the ring. -/
theorem WalksRing.route {both : Bool} (h : WalksRing both nodes table) (hnodup : nodes.Nodup)
    (hi : i < nodes.length) (hj : j < nodes.length) :
    table.TakesHops (nodes.getD i 0) (nodes.getD j 0) (length both nodes.length i j) ∧
      table.Leads nodes (nodes.getD i 0) (nodes.getD j 0) (length both nodes.length i j) ∧
      ∀ k ≤ length both nodes.length i j, table.after (nodes.getD j 0) k (nodes.getD i 0)
        = some (nodes.getD (place (goesBack both nodes.length i j) nodes.length i k) 0) := by
  have hstart : place (goesBack both nodes.length i j) nodes.length i 0 = i := place_zero hi
  have hend : place (goesBack both nodes.length i j) nodes.length i
      (length both nodes.length i j) = j := place_length hi hj
  have hpath : ∀ k < length both nodes.length i j,
      table.find? (nodes.getD (place (goesBack both nodes.length i j) nodes.length i k) 0)
          (nodes.getD j 0)
        = some (nodes.getD (place (goesBack both nodes.length i j) nodes.length i (k + 1)) 0) := by
    intro k hk
    rw [h _ (place_lt hi) j hj (place_ne hi hj hk), step_place hi hj hk]
  have htakes := takes_of_path (table.find? · (nodes.getD j 0))
    (fun k ↦ nodes.getD (place (goesBack both nodes.length i j) nodes.length i k) 0) hpath
    (fun k hk heq ↦ place_ne hi hj hk
      ((getD_injective hnodup (place_lt hi) (place_lt hi) heq).trans hend))
  have hreaches := reaches_of_path (table.find? · (nodes.getD j 0))
    (fun k ↦ nodes.getD (place (goesBack both nodes.length i j) nodes.length i k) 0) hpath
    (fun k _ ↦ getD_mem (place_lt hi))
  have hfollow := fun k hk ↦ follow_of_path (i := k) (table.find? · (nodes.getD j 0))
    (fun k ↦ nodes.getD (place (goesBack both nodes.length i j) nodes.length i k) 0) hpath hk
  simp only [hstart, hend] at htakes hreaches hfollow
  exact ⟨htakes, hreaches, hfollow⟩

theorem WalksRing.valid {both : Bool} (h : WalksRing both nodes table) (hnodup : nodes.Nodup) :
    routeTableValid nodes table = true := by
  refine routeTableValid_of_leads hnodup fun src hsrc dst hdst ↦ ?_
  obtain ⟨i, hi, rfl⟩ := List.mem_iff_getElem.mp hsrc
  obtain ⟨j, hj, rfl⟩ := List.mem_iff_getElem.mp hdst
  rw [← List.getD_eq_getElem _ 0 hi, ← List.getD_eq_getElem _ 0 hj]
  exact ⟨_, (h.route hnodup hi hj).2.1⟩

/-- Both ring generators give valid tables with shortest routes: the single ring forward only, the
double ring the shorter way round, and forward on a tie. -/
theorem ring_routes_minimal (hne : nodes ≠ []) (hnodup : nodes.Nodup) :
    (∃ table, genrouteSingleRing nodes = .ok table ∧ routeTableValid nodes table = true ∧
      ∀ i < nodes.length, ∀ j < nodes.length,
        table.TakesHops (nodes.getD i 0) (nodes.getD j 0) ((j + nodes.length - i) % nodes.length) ∧
        ∀ k ≤ (j + nodes.length - i) % nodes.length,
          table.after (nodes.getD j 0) k (nodes.getD i 0)
            = some (nodes.getD ((i + k) % nodes.length) 0)) ∧
    ∃ table, genrouteDoubleRing nodes = .ok table ∧ routeTableValid nodes table = true ∧
      ∀ i < nodes.length, ∀ j < nodes.length, ∀ d, d = (j + nodes.length - i) % nodes.length →
        table.TakesHops (nodes.getD i 0) (nodes.getD j 0) (min d (nodes.length - d)) ∧
        (2 * d ≤ nodes.length → ∀ k ≤ min d (nodes.length - d),
          table.after (nodes.getD j 0) k (nodes.getD i 0)
            = some (nodes.getD ((i + k) % nodes.length) 0)) ∧
        (nodes.length < 2 * d → ∀ k ≤ min d (nodes.length - d),
          table.after (nodes.getD j 0) k (nodes.getD i 0)
            = some (nodes.getD ((i + nodes.length - k) % nodes.length) 0)) := by
  constructor
  · obtain ⟨table, htable, hwalks⟩ := genrouteSingleRing_walks hne hnodup
    refine ⟨table, htable, hwalks.valid hnodup, fun i hi j hj ↦ ?_⟩
    obtain ⟨htakes, -, hafter⟩ := hwalks.route hnodup hi hj
    exact ⟨htakes, hafter⟩
  · obtain ⟨table, htable, hwalks⟩ := genrouteDoubleRing_walks hne hnodup
    refine ⟨table, htable, hwalks.valid hnodup, fun i hi j hj d hd ↦ ?_⟩
    obtain ⟨htakes, -, hafter⟩ := hwalks.route hnodup hi hj
    obtain ⟨hlength, hback⟩ := length_true hi hj
    have hahead : ahead nodes.length i j = d := hd.symm
    rw [hahead] at hlength hback
    rw [hlength] at htakes hafter
    refine ⟨htakes, fun hnear k hk ↦ ?_, fun hfar k hk ↦ ?_⟩
    · have hforward : goesBack true nodes.length i j = false :=
        Bool.eq_false_iff.mpr (mt hback.mp (Nat.not_lt.mpr hnear))
      rw [hafter k hk, hforward]
      rfl
    · rw [hafter k hk, hback.mpr hfar]
      rfl

theorem ring_routes_minimal_three :
    ∃ table, genrouteDoubleRing [4, 8, 6] = .ok table ∧ routeTableValid [4, 8, 6] table = true := by
  obtain ⟨table, htable, hvalid, -⟩ := (@ring_routes_minimal [4, 8, 6] (by simp) (by simp)).2
  exact ⟨table, htable, hvalid⟩

end Simbus
