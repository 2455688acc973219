import SimbusNoc.Noc.Common
import Mathlib.Data.List.Dedup

/-!
# Route generation and validation

`genroute_single_ring`, `genroute_double_ring`, `genroute_mesh2d_xy` and `route_table_valid` of
`noc/src/routetable.cpp`. The validator follows the table from every source to every destination,
with a set of the nodes already met and a bound on the number of hops, so it answers on every
table.

## The generators

Each fills a table entry by entry, and a later entry overwrites an earlier one. The loops of the
source run over positions in the vector of nodes, forwards with a remainder and backwards with a
`while`, and so do these, with a counter where the end of the loop is not visible from its shape.
The sums of `genroute_mesh2d_xy` are 32-bit, as the source has them.

## The routes of a validated table

`RouteTo` spells the route out as a list of nodes, one constructor for each hop. This is the form
in which the rest of the network uses a table: the stages that a packet visits are read off this
list, and a statement about all later hops of a packet is one about a suffix of it. What the
validator accepts has such a route between any two nodes, without repetitions.
-/

namespace Simbus

/-! ## Generation -/

/-- The backward half of `genroute_double_ring` for source `src` at position `i`: every node from
position `idx` up to the source itself gets the same next hop. `fuel` bounds the `while` loop, which
stops after fewer than `cnt` turns. -/
def doubleRingBack (nodes : List BusNodeT) (i : ℕ) (src next : BusNodeT) :
    ℕ → ℕ → BusRouteTable → BusRouteTable
  | 0, _, out => out
  | fuel + 1, idx, out =>
    if idx = i then out
    else doubleRingBack nodes i src next fuel ((idx + 1) % nodes.length)
      (routeInsert src (nodes.getD idx 0) next out)

/-- The forward half: the `cnt / 2` nodes after the source. Returns the position it stopped at. -/
def doubleRingForward (nodes : List BusNodeT) (src next : BusNodeT) :
    ℕ → ℕ → BusRouteTable → ℕ × BusRouteTable
  | 0, idx, out => (idx, out)
  | j + 1, idx, out =>
    doubleRingForward nodes src next j ((idx + 1) % nodes.length)
      (routeInsert src (nodes.getD idx 0) next out)

/-- All entries of the source at position `i`. -/
def doubleRingRow (nodes : List BusNodeT) (out : BusRouteTable) (i : ℕ) : BusRouteTable :=
  let cnt := nodes.length
  let src := nodes.getD i 0
  let out := routeInsert src src src out
  let start := (i + 1) % cnt
  let (idx, out) := doubleRingForward nodes src (nodes.getD start 0) (cnt / 2) start out
  doubleRingBack nodes i src (nodes.getD ((i + cnt - 1) % cnt) 0) cnt idx out

/-- `genroute_double_ring`: the shorter way round, and forward on a tie. -/
def genrouteDoubleRing (nodes : List BusNodeT) : Except String BusRouteTable := do
  require (nodes.dedup.length == nodes.length) "route table generation failed: duplicate node id"
  require (!nodes.isEmpty) "double ring needs at least one node"
  if nodes.length = 1 then
    return routeInsert (nodes.getD 0 0) (nodes.getD 0 0) (nodes.getD 0 0) ∅
  return (List.range nodes.length).foldl (doubleRingRow nodes) ∅

/-- All entries of the source at position `i` of a single ring: everything goes to the next node. -/
def singleRingRow (nodes : List BusNodeT) (out : BusRouteTable) (i : ℕ) : BusRouteTable :=
  let cnt := nodes.length
  let src := nodes.getD i 0
  let start := (i + 1) % cnt
  let (_, out) := doubleRingForward nodes src (nodes.getD start 0) (cnt - 1) start out
  routeInsert src src src out

/-- `genroute_single_ring`. Its loop over the destinations is the forward half of the double
ring's. -/
def genrouteSingleRing (nodes : List BusNodeT) : Except String BusRouteTable := do
  require (nodes.dedup.length == nodes.length) "route table generation failed: duplicate node id"
  require (!nodes.isEmpty) "single ring needs at least one node"
  if nodes.length = 1 then
    return routeInsert (nodes.getD 0 0) (nodes.getD 0 0) (nodes.getD 0 0) ∅
  return (List.range nodes.length).foldl (singleRingRow nodes) ∅

/-- The coordinate after `z` on the way to `dz` around a ring of `cnt`: one back when both
directions are allowed and the way back is shorter, and else one on. The sums are 32-bit. -/
def meshStep (doubleDirect : Bool) (cnt z dz : ℕ) : ℕ :=
  let forwardDist := (dz + cnt - z) % 2 ^ 32 % cnt
  let backDist := (z + cnt - dz) % 2 ^ 32 % cnt
  if doubleDirect && decide (backDist < forwardDist) then (z + cnt - 1) % 2 ^ 32 % cnt
  else (z + 1) % cnt

/-- All entries of the source at column `x` and row `y`: first along the row, then along the
column. -/
def meshEntries (nodes : List BusNodeT) (cntX cntY : ℕ) (doubleDirect : Bool) (y : ℕ)
    (out : BusRouteTable) (x : ℕ) : BusRouteTable :=
  let nodeAt := fun x y ↦ nodes.getD (x + y * cntX) 0
  let src := nodeAt x y
  (List.range cntY).foldl (fun out dy ↦
    (List.range cntX).foldl (fun out dx ↦
      let dst := nodeAt dx dy
      if dst = src then out
      else
        let next := if dx ≠ x then nodeAt (meshStep doubleDirect cntX x dx) y
          else nodeAt x (meshStep doubleDirect cntY y dy)
        routeInsert src dst next out) out) (routeInsert src src src out)

/-- `genroute_mesh2d_xy`. -/
def genrouteMesh2dXy (nodesByXThenY : List BusNodeT) (cntX cntY : ℕ) (doubleDirect : Bool) :
    Except String BusRouteTable := do
  require (decide (0 < cntX) && decide (0 < cntY)) "mesh dimensions must be non-zero"
  require (nodesByXThenY.length == cntX * cntY)
    "mesh node vector size does not match cnt_x * cnt_y"
  require (nodesByXThenY.dedup.length == nodesByXThenY.length)
    "route table generation failed: duplicate node id"
  return (List.range cntY).foldl (fun out y ↦
    (List.range cntX).foldl (meshEntries nodesByXThenY cntX cntY doubleDirect y) out) ∅

/-! ## Validation -/

/-- The hop loop of `route_table_valid` from `cur` towards `dst`. The first argument counts the
turns left of the `for` loop. -/
def routeWalk (nodes : List BusNodeT) (table : BusRouteTable) (src dst : BusNodeT) :
    ℕ → BusNodeT → List BusNodeT → Except String Unit
  | 0, cur, _ =>
    require (cur == dst) s!"unreachable route: {src} -> {dst}"
  | hops + 1, cur, seen =>
    if cur = dst then .ok ()
    else if cur ∈ seen then .error s!"route has a loop: {src} -> {dst}"
    else match table.lookup cur with
      | none => .error s!"missing route source {cur} for dst {dst}"
      | some row => match row.lookup dst with
        | none => .error s!"missing route entry {cur} -> {dst}"
        | some next =>
          if next ∈ nodes then routeWalk nodes table src dst hops next (cur :: seen)
          else .error s!"next hop not in node list: {next}"

/-- `assert_route_table_valid`: `.ok` when `route_table_valid` returns true, and its error text
otherwise. -/
def assertRouteTableValid (nodes : List BusNodeT) (table : BusRouteTable) : Except String Unit := do
  require (nodes.dedup.length == nodes.length) "duplicate node id in node list"
  nodes.forM fun src ↦ nodes.forM fun dst ↦
    routeWalk nodes table src dst (nodes.length + 1) src []

/-! ## Routes of a validated table -/

/-- The table leads from `v` to `d` through the nodes `l`, from `v` on and without `d`. -/
inductive RouteTo (table : BusRouteTable) (d : BusNodeT) : BusNodeT → List BusNodeT → Prop
  | arrived : RouteTo table d d []
  | hop {v w : BusNodeT} {l : List BusNodeT} (hv : v ≠ d) (hw : table.find? v d = some w)
      (hrest : RouteTo table d w l) (hnot : v ∉ l) : RouteTo table d v (v :: l)

namespace RouteTo

variable {table : BusRouteTable} {d v : BusNodeT} {l : List BusNodeT}

theorem nodup (h : RouteTo table d v l) : l.Nodup := by
  induction h with
  | arrived => exact List.nodup_nil
  | hop _ _ _ hnot ih => exact List.nodup_cons.mpr ⟨hnot, ih⟩

theorem suffix (h : RouteTo table d v l) {l₁ l₂ : List BusNodeT} {u : BusNodeT}
    (hl : l = l₁ ++ u :: l₂) : RouteTo table d u (u :: l₂) := by
  induction h generalizing l₁ with
  | arrived => simp at hl
  | @hop v w l hv hw hrest hnot ih =>
    cases l₁ with
    | nil =>
      obtain ⟨rfl, rfl⟩ : v = u ∧ l = l₂ := by simpa using hl
      exact .hop hv hw hrest hnot
    | cons x l₁ =>
      obtain ⟨rfl, hl'⟩ : v = x ∧ l = l₁ ++ u :: l₂ := by simpa using hl
      exact ih hl'

/-- From a node on the way the table has a next hop to another node, which is the target or the next
node of the way. -/
theorem next {l : List BusNodeT} (h : RouteTo table d v (v :: l)) :
    ∃ w, table.find? v d = some w ∧ v ≠ d ∧ w ≠ v ∧
      ((w = d ∧ l = []) ∨ (w ≠ d ∧ ∃ l', l = w :: l')) := by
  cases h with
  | hop hv hw hrest hnot =>
    cases hrest with
    | arrived => exact ⟨_, hw, hv, hv.symm, .inl ⟨rfl, rfl⟩⟩
    | hop hw' _ _ _ =>
      refine ⟨_, hw, hv, ?_, .inr ⟨hw', _, rfl⟩⟩
      rintro rfl
      exact hnot List.mem_cons_self

theorem nil_iff (h : RouteTo table d v l) : l = [] ↔ v = d := by
  cases h with
  | arrived => simp
  | hop hv _ _ _ => simpa using hv

theorem eq_cons (h : RouteTo table d v l) (hv : v ≠ d) : ∃ l', l = v :: l' := by
  cases h with
  | arrived => exact absurd rfl hv
  | hop _ _ _ _ => exact ⟨_, rfl⟩

end RouteTo

/-- What `routeWalk` accepts is a route that avoids the nodes already seen. -/
theorem routeTo_of_routeWalk {nodes : List BusNodeT} {table : BusRouteTable} {src d : BusNodeT} :
    ∀ {hops : ℕ} {cur : BusNodeT} {seen : List BusNodeT},
      routeWalk nodes table src d hops cur seen = .ok () → cur ∈ nodes →
      ∃ l, RouteTo table d cur l ∧ l.length ≤ hops ∧ ∀ u ∈ l, u ∉ seen ∧ u ∈ nodes := by
  intro hops
  induction hops with
  | zero =>
    intro cur seen h hcur
    obtain rfl : cur = d := by simpa [routeWalk, require_eq_ok_iff] using h
    exact ⟨[], .arrived, by simp, by simp⟩
  | succ hops ih =>
    intro cur seen h hcur
    rw [routeWalk] at h
    split_ifs at h with hd hseen
    · subst hd
      exact ⟨[], .arrived, by simp, by simp⟩
    · split at h
      · cases h
      · rename_i row hrow
        split at h
        · cases h
        · rename_i next hnext
          split_ifs at h with hmem
          obtain ⟨l, hl, hlen, hout⟩ := ih h hmem
          refine ⟨cur :: l, .hop hd ?_ hl fun hc ↦ ?_, by simpa using hlen, ?_⟩
          · simp [BusRouteTable.find?, hrow, hnext]
          · exact (hout cur hc).1 List.mem_cons_self
          · intro u hu
            rcases List.mem_cons.mp hu with rfl | hu
            · exact ⟨hseen, hcur⟩
            · exact ⟨fun h ↦ (hout u hu).1 (List.mem_cons_of_mem _ h), (hout u hu).2⟩

theorem routeTo_of_assertRouteTableValid {nodes : List BusNodeT} {table : BusRouteTable}
    (h : assertRouteTableValid nodes table = .ok ()) {v d : BusNodeT} (hv : v ∈ nodes)
    (hd : d ∈ nodes) :
    ∃ l, RouteTo table d v l ∧ l.length ≤ nodes.length + 1 ∧ ∀ u ∈ l, u ∈ nodes := by
  rw [assertRouteTableValid, Except.bind_eq_ok_iff] at h
  obtain ⟨-, -, h⟩ := h
  have hwalk := forM_eq_ok_iff.mp (forM_eq_ok_iff.mp h v hv) d hd
  obtain ⟨l, hl, hlen, hout⟩ := routeTo_of_routeWalk hwalk hv
  exact ⟨l, hl, hlen, fun u hu ↦ (hout u hu).2⟩

end Simbus
