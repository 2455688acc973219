import SimbusNoc.Noc.RouteGeneration

/-!
# The generated routes of a mesh

`genroute_mesh2d_xy` enters for each pair of nodes one step of the walk around the ring of the row,
as long as the columns differ, and then one step around the ring of the column. Its 32-bit
distances are the exact ones on every mesh of fewer than 2^31 nodes.

## Places and nodes

A place is a column and a row, and the node there is looked up in the list that the generator is
given. The nodes are different, so a node has one place, and an entry for a pair of nodes is one
for a pair of places. A list of the wrong length is refused.

## The way of a packet

Each coordinate walks around its own ring. While the column is wrong the row does not change, and
from then on the column does not, so the way is a walk around one ring and then one around another
(`meshPath`). Where both directions are open each walk takes the shorter way, and keeps to the
direction that it has chosen. The length of the way is then the sum of the two distances.
-/

namespace Simbus

open PartialWalk RingWalk

/-- The node at column `x` and row `y`. -/
def nodeAt (nodes : List BusNodeT) (cntX x y : ℕ) : BusNodeT := nodes.getD (x + y * cntX) 0

variable {nodes : List BusNodeT} {table : BusRouteTable} {cntX cntY x y dx dy : ℕ}
  {doubleDirect : Bool}

/-! ## Places

A node of the mesh is known by its row and column. The 32-bit arithmetic of the source does not
wrap, since the numbers of rows and columns are those of a list of nodes.
-/

private theorem index_lt (hx : x < cntX) (hy : y < cntY) : x + y * cntX < cntX * cntY := by
  calc x + y * cntX < cntX + y * cntX := Nat.add_lt_add_right hx _
    _ = (y + 1) * cntX := by rw [Nat.succ_mul, Nat.add_comm]
    _ ≤ cntY * cntX := Nat.mul_le_mul_right _ hy
    _ = cntX * cntY := Nat.mul_comm _ _

theorem nodeAt_mem (hlen : nodes.length = cntX * cntY) (hx : x < cntX) (hy : y < cntY) :
    nodeAt nodes cntX x y ∈ nodes := by
  have hlt : x + y * cntX < nodes.length := hlen ▸ index_lt hx hy
  rw [nodeAt, List.getD_eq_getElem _ _ hlt]
  exact List.getElem_mem hlt

theorem nodeAt_inj (hlen : nodes.length = cntX * cntY) (hnodup : nodes.Nodup) (hx : x < cntX)
    (hy : y < cntY) (hdx : dx < cntX) (hdy : dy < cntY) :
    nodeAt nodes cntX x y = nodeAt nodes cntX dx dy ↔ x = dx ∧ y = dy := by
  have hlt : x + y * cntX < nodes.length := hlen ▸ index_lt hx hy
  have hlt' : dx + dy * cntX < nodes.length := hlen ▸ index_lt hdx hdy
  rw [nodeAt, nodeAt, List.getD_eq_getElem _ _ hlt, List.getD_eq_getElem _ _ hlt',
    hnodup.getElem_inj_iff]
  constructor
  · intro heq
    have hcol : x = dx := by
      have h := congrArg (· % cntX) heq
      simpa only [Nat.add_mul_mod_self_right, Nat.mod_eq_of_lt hx, Nat.mod_eq_of_lt hdx] using h
    subst hcol
    exact ⟨rfl, Nat.eq_of_mul_eq_mul_right (Nat.zero_lt_of_lt hx) (Nat.add_left_cancel heq)⟩
  · rintro ⟨rfl, rfl⟩
    rfl

theorem exists_nodeAt (hlen : nodes.length = cntX * cntY) {v : BusNodeT} (hv : v ∈ nodes) :
    ∃ x < cntX, ∃ y < cntY, v = nodeAt nodes cntX x y := by
  obtain ⟨i, hi, rfl⟩ := List.mem_iff_getElem.mp hv
  have hcnt : 0 < cntX := by
    rcases Nat.eq_zero_or_pos cntX with rfl | hpos
    · rw [hlen, Nat.zero_mul] at hi
      exact absurd hi (Nat.not_lt_zero i)
    · exact hpos
  refine ⟨i % cntX, Nat.mod_lt _ hcnt, i / cntX, Nat.div_lt_of_lt_mul (hlen ▸ hi), ?_⟩
  rw [nodeAt, Nat.mul_comm, Nat.mod_add_div, List.getD_eq_getElem _ _ hi]

/-- In 32 bits, and without. -/
theorem meshStep_eq_step {cnt z dz : ℕ} (hcnt : cnt < 2 ^ 31) (hz : z < cnt) (hdz : dz < cnt) :
    meshStep doubleDirect cnt z dz = step doubleDirect cnt z dz := by
  have hforward : (dz + cnt - z) % 2 ^ 32 = dz + cnt - z := Nat.mod_eq_of_lt (by omega)
  have hback : (z + cnt - dz) % 2 ^ 32 = z + cnt - dz := Nat.mod_eq_of_lt (by omega)
  have hprev : (z + cnt - 1) % 2 ^ 32 = z + cnt - 1 := Nat.mod_eq_of_lt (by omega)
  rw [meshStep, hforward, hback, hprev]
  rfl

/-! ## The entries

A table entry depends on the places of its two nodes only: along the row until the column is right,
and then along the column.
-/

/-- The first hop from one place to another. -/
def meshHop (nodes : List BusNodeT) (cntX cntY : ℕ) (doubleDirect : Bool) (x y dx dy : ℕ) :
    BusNodeT :=
  if dx ≠ x then nodeAt nodes cntX (step doubleDirect cntX x dx) y
  else nodeAt nodes cntX x (step doubleDirect cntY y dy)

/-- Every entry between different places is the first hop of the way along the row and then along
the column. -/
def WalksMesh (nodes : List BusNodeT) (cntX cntY : ℕ) (doubleDirect : Bool)
    (table : BusRouteTable) : Prop :=
  ∀ x < cntX, ∀ y < cntY, ∀ dx < cntX, ∀ dy < cntY, ¬(dx = x ∧ dy = y) →
    table.find? (nodeAt nodes cntX x y) (nodeAt nodes cntX dx dy)
      = some (meshHop nodes cntX cntY doubleDirect x y dx dy)

/-- The turn for the destination at column `dx` and row `dy`. -/
private def meshEntry (nodes : List BusNodeT) (cntX cntY : ℕ) (doubleDirect : Bool) (x y dy : ℕ)
    (out : BusRouteTable) (dx : ℕ) : BusRouteTable :=
  if nodeAt nodes cntX dx dy = nodeAt nodes cntX x y then out
  else routeInsert (nodeAt nodes cntX x y) (nodeAt nodes cntX dx dy)
    (if dx ≠ x then nodeAt nodes cntX (meshStep doubleDirect cntX x dx) y
      else nodeAt nodes cntX x (meshStep doubleDirect cntY y dy)) out

private theorem meshEntries_eq (out : BusRouteTable) :
    meshEntries nodes cntX cntY doubleDirect y out x =
      (List.range cntY).foldl (fun out dy ↦
        (List.range cntX).foldl (meshEntry nodes cntX cntY doubleDirect x y dy) out)
        (routeInsert (nodeAt nodes cntX x y) (nodeAt nodes cntX x y) (nodeAt nodes cntX x y) out) :=
  rfl

private theorem find?_meshEntry_of_ne {v d : BusNodeT} (out : BusRouteTable)
    (hne : v ≠ nodeAt nodes cntX x y ∨ d ≠ nodeAt nodes cntX dx dy) :
    (meshEntry nodes cntX cntY doubleDirect x y dy out dx).find? v d = out.find? v d := by
  rw [meshEntry]
  split_ifs
  · rfl
  all_goals exact find?_routeInsert_of_ne _ _ hne

theorem find?_meshEntries_of_ne {v d : BusNodeT} (hv : v ≠ nodeAt nodes cntX x y)
    (out : BusRouteTable) :
    (meshEntries nodes cntX cntY doubleDirect y out x).find? v d = out.find? v d := by
  rw [meshEntries_eq]
  refine List.foldlRecOn (motive := fun out' ↦ BusRouteTable.find? out' v d = out.find? v d) _ _
    (find?_routeInsert_of_ne _ _ (.inl hv)) fun out' hout' dy _ ↦ ?_
  refine List.foldlRecOn (motive := fun out' ↦ BusRouteTable.find? out' v d = out.find? v d) _ _
    hout' fun out' hout' dx _ ↦ ?_
  rw [find?_meshEntry_of_ne _ (.inl hv), hout']

theorem find?_meshEntries (hlen : nodes.length = cntX * cntY) (hnodup : nodes.Nodup)
    (hsmallX : cntX < 2 ^ 31) (hsmallY : cntY < 2 ^ 31) (hx : x < cntX) (hy : y < cntY)
    (hdx : dx < cntX) (hdy : dy < cntY) (hne : ¬(dx = x ∧ dy = y)) (out : BusRouteTable) :
    (meshEntries nodes cntX cntY doubleDirect y out x).find? (nodeAt nodes cntX x y)
        (nodeAt nodes cntX dx dy)
      = some (meshHop nodes cntX cntY doubleDirect x y dx dy) := by
  rw [meshEntries_eq]
  have hset : ∀ out, (meshEntry nodes cntX cntY doubleDirect x y dy out dx).find?
      (nodeAt nodes cntX x y) (nodeAt nodes cntX dx dy)
        = some (meshHop nodes cntX cntY doubleDirect x y dx dy) := by
    intro out
    rw [meshEntry, if_neg (mt (nodeAt_inj hlen hnodup hdx hdy hx hy).mp hne),
      find?_routeInsert_self, meshHop, meshStep_eq_step hsmallX hx hdx,
      meshStep_eq_step hsmallY hy hdy]
  have hkeep : ∀ dx' < cntX, ∀ dy' < cntY, ¬(dx' = dx ∧ dy' = dy) → ∀ out,
      BusRouteTable.find? out (nodeAt nodes cntX x y) (nodeAt nodes cntX dx dy)
          = some (meshHop nodes cntX cntY doubleDirect x y dx dy) →
        (meshEntry nodes cntX cntY doubleDirect x y dy' out dx').find? (nodeAt nodes cntX x y)
          (nodeAt nodes cntX dx dy) = some (meshHop nodes cntX cntY doubleDirect x y dx dy) := by
    rintro dx' hdx' dy' hdy' hother out hout
    rw [find?_meshEntry_of_ne, hout]
    refine .inr fun heq ↦ hother ?_
    obtain ⟨hcol, hrow⟩ := (nodeAt_inj hlen hnodup hdx hdy hdx' hdy').mp heq
    exact ⟨hcol.symm, hrow.symm⟩
  refine foldl_establishes
    (P := fun out ↦ BusRouteTable.find? out (nodeAt nodes cntX x y) (nodeAt nodes cntX dx dy)
      = some (meshHop nodes cntX cntY doubleDirect x y dx dy))
    (List.mem_range.mpr hdy) (fun out ↦ ?_) (fun dy' hdy' hrow out hout ↦ ?_) _
  · refine foldl_establishes
      (P := fun out ↦ BusRouteTable.find? out (nodeAt nodes cntX x y) (nodeAt nodes cntX dx dy)
        = some (meshHop nodes cntX cntY doubleDirect x y dx dy))
      (List.mem_range.mpr hdx) hset (fun dx' hdx' hcol out hout ↦ ?_) _
    exact hkeep dx' (List.mem_range.mp hdx') dy hdy (fun h ↦ hcol h.1) out hout
  · refine List.foldlRecOn (motive := fun out ↦ BusRouteTable.find? out (nodeAt nodes cntX x y)
      (nodeAt nodes cntX dx dy) = some (meshHop nodes cntX cntY doubleDirect x y dx dy)) _ _ hout
      fun out hout dx' hdx' ↦ ?_
    exact hkeep dx' (List.mem_range.mp hdx') dy' (List.mem_range.mp hdy') (fun h ↦ hrow h.2) out
      hout

/-- The generator answers on every list of the right length, and only on those. -/
theorem genrouteMesh2dXy_walks (hx : 0 < cntX) (hy : 0 < cntY) (hsmall : cntX * cntY < 2 ^ 31)
    (hlen : nodes.length = cntX * cntY) (hnodup : nodes.Nodup) :
    ∃ table, genrouteMesh2dXy nodes cntX cntY doubleDirect = .ok table ∧
      WalksMesh nodes cntX cntY doubleDirect table := by
  have hsmallX : cntX < 2 ^ 31 := (Nat.le_mul_of_pos_right cntX hy).trans_lt hsmall
  have hsmallY : cntY < 2 ^ 31 := (Nat.le_mul_of_pos_left cntY hx).trans_lt hsmall
  have hdims : (decide (0 < cntX) && decide (0 < cntY)) = true := by
    rw [decide_eq_true hx, decide_eq_true hy, Bool.and_self]
  have hsize : (nodes.length == cntX * cntY) = true := beq_iff_eq.mpr hlen
  have hunique : (nodes.dedup.length == nodes.length) = true := by
    rw [List.dedup_eq_self.mpr hnodup, beq_self_eq_true]
  rw [genrouteMesh2dXy, hdims, hsize, hunique]
  refine ⟨_, rfl, fun x hx y hy dx hdx dy hdy hne ↦ ?_⟩
  refine foldl_establishes
    (P := fun out ↦ BusRouteTable.find? out (nodeAt nodes cntX x y) (nodeAt nodes cntX dx dy)
      = some (meshHop nodes cntX cntY doubleDirect x y dx dy))
    (List.mem_range.mpr hy) (fun out ↦ ?_) (fun y' hy' hrow out hout ↦ ?_) _
  · refine foldl_establishes
      (P := fun out ↦ BusRouteTable.find? out (nodeAt nodes cntX x y) (nodeAt nodes cntX dx dy)
        = some (meshHop nodes cntX cntY doubleDirect x y dx dy))
      (List.mem_range.mpr hx) (find?_meshEntries hlen hnodup hsmallX hsmallY hx hy hdx hdy hne)
      (fun x' hx' hcol out hout ↦ ?_) _
    rw [find?_meshEntries_of_ne, hout]
    exact fun heq ↦ hcol ((nodeAt_inj hlen hnodup hx hy (List.mem_range.mp hx') hy).mp heq).1.symm
  · refine List.foldlRecOn (motive := fun out ↦ BusRouteTable.find? out (nodeAt nodes cntX x y)
      (nodeAt nodes cntX dx dy) = some (meshHop nodes cntX cntY doubleDirect x y dx dy)) _ _ hout
      fun out hout x' hx' ↦ ?_
    rw [find?_meshEntries_of_ne, hout]
    exact fun heq ↦ hrow ((nodeAt_inj hlen hnodup hx hy (List.mem_range.mp hx')
      (List.mem_range.mp hy')).mp heq).2.symm

/-! ## The routes

`meshPath` spells the way out. Each hop of it is the one that the table has, and it ends where it
should.
-/

/-- The place of a packet after `k` hops: on the way along the row, and then along the column. -/
def meshPath (nodes : List BusNodeT) (cntX cntY : ℕ) (doubleDirect : Bool) (x y dx dy k : ℕ) :
    BusNodeT :=
  if k ≤ length doubleDirect cntX x dx then
    nodeAt nodes cntX (place (goesBack doubleDirect cntX x dx) cntX x k) y
  else
    nodeAt nodes cntX dx (place (goesBack doubleDirect cntY y dy) cntY y
      (k - length doubleDirect cntX x dx))

/-- From the end of the row on the packet is in the right column. -/
theorem meshPath_add (hx : x < cntX) (hy : y < cntY) (hdx : dx < cntX) (k : ℕ) :
    meshPath nodes cntX cntY doubleDirect x y dx dy (length doubleDirect cntX x dx + k)
      = nodeAt nodes cntX dx (place (goesBack doubleDirect cntY y dy) cntY y k) := by
  rcases Nat.eq_zero_or_pos k with rfl | hpos
  · rw [Nat.add_zero, meshPath, if_pos (Nat.le_refl _), place_length hx hdx, place_zero hy]
  · rw [meshPath, if_neg (by omega), Nat.add_sub_cancel_left]

/-- Each hop of the way is the one the table has. -/
theorem WalksMesh.find?_meshPath (h : WalksMesh nodes cntX cntY doubleDirect table)
    (hx : x < cntX) (hy : y < cntY) (hdx : dx < cntX) (hdy : dy < cntY) {k : ℕ}
    (hk : k < length doubleDirect cntX x dx + length doubleDirect cntY y dy) :
    table.find? (meshPath nodes cntX cntY doubleDirect x y dx dy k) (nodeAt nodes cntX dx dy)
      = some (meshPath nodes cntX cntY doubleDirect x y dx dy (k + 1)) := by
  by_cases hrow : k < length doubleDirect cntX x dx
  · have hne := place_ne hx hdx hrow
    rw [meshPath, if_pos hrow.le, meshPath, if_pos (Nat.succ_le_of_lt hrow),
      h _ (place_lt hx) y hy dx hdx dy hdy (fun heq ↦ hne heq.1.symm), meshHop, if_pos hne.symm,
      step_place hx hdx hrow]
  · obtain ⟨i, rfl⟩ := Nat.exists_eq_add_of_le (Nat.le_of_not_lt hrow)
    have hi : i < length doubleDirect cntY y dy := by omega
    have hne := place_ne hy hdy hi
    rw [meshPath_add hx hy hdx, Nat.add_assoc, meshPath_add hx hy hdx,
      h dx hdx _ (place_lt hy) dx hdx dy hdy (fun heq ↦ hne heq.2.symm), meshHop,
      if_neg (not_not_intro rfl), step_place hy hdy hi]

private theorem meshPath_mem (hlen : nodes.length = cntX * cntY) (hx : x < cntX) (hy : y < cntY)
    (hdx : dx < cntX) (k : ℕ) :
    meshPath nodes cntX cntY doubleDirect x y dx dy k ∈ nodes := by
  rw [meshPath]
  split_ifs
  · exact nodeAt_mem hlen (place_lt hx) hy
  · exact nodeAt_mem hlen hdx (place_lt hy)

/-- Before its end the way is not at its destination. -/
private theorem meshPath_ne (hlen : nodes.length = cntX * cntY) (hnodup : nodes.Nodup)
    (hx : x < cntX) (hy : y < cntY) (hdx : dx < cntX) (hdy : dy < cntY) {k : ℕ}
    (hk : k < length doubleDirect cntX x dx + length doubleDirect cntY y dy) :
    meshPath nodes cntX cntY doubleDirect x y dx dy k ≠ nodeAt nodes cntX dx dy := by
  intro heq
  by_cases hrow : k < length doubleDirect cntX x dx
  · rw [meshPath, if_pos hrow.le, nodeAt_inj hlen hnodup (place_lt hx) hy hdx hdy] at heq
    exact place_ne hx hdx hrow heq.1
  · obtain ⟨i, rfl⟩ := Nat.exists_eq_add_of_le (Nat.le_of_not_lt hrow)
    rw [meshPath_add hx hy hdx, nodeAt_inj hlen hnodup hdx (place_lt hy) hdx hdy] at heq
    exact place_ne hy hdy (by omega) heq.2

/-- Between two places the route leads along the row and then along the column. -/
theorem WalksMesh.route (h : WalksMesh nodes cntX cntY doubleDirect table)
    (hlen : nodes.length = cntX * cntY) (hnodup : nodes.Nodup) (hx : x < cntX) (hy : y < cntY)
    (hdx : dx < cntX) (hdy : dy < cntY) :
    table.TakesHops (nodeAt nodes cntX x y) (nodeAt nodes cntX dx dy)
        (length doubleDirect cntX x dx + length doubleDirect cntY y dy) ∧
      table.Leads nodes (nodeAt nodes cntX x y) (nodeAt nodes cntX dx dy)
        (length doubleDirect cntX x dx + length doubleDirect cntY y dy) ∧
      ∀ k ≤ length doubleDirect cntX x dx + length doubleDirect cntY y dy,
        table.after (nodeAt nodes cntX dx dy) k (nodeAt nodes cntX x y)
          = some (meshPath nodes cntX cntY doubleDirect x y dx dy k) := by
  have hstart : meshPath nodes cntX cntY doubleDirect x y dx dy 0 = nodeAt nodes cntX x y := by
    rw [meshPath, if_pos (Nat.zero_le _), place_zero hx]
  have hend : meshPath nodes cntX cntY doubleDirect x y dx dy
      (length doubleDirect cntX x dx + length doubleDirect cntY y dy)
        = nodeAt nodes cntX dx dy := by
    rw [meshPath_add hx hy hdx, place_length hy hdy]
  have hpath := fun k hk ↦ h.find?_meshPath hx hy hdx hdy (k := k) hk
  have htakes := takes_of_path (table.find? · (nodeAt nodes cntX dx dy)) _ hpath
    (fun k hk heq ↦ meshPath_ne hlen hnodup hx hy hdx hdy hk (heq.trans hend))
  have hreaches : Reaches (table.find? · (nodeAt nodes cntX dx dy)) nodes _ _ _ :=
    reaches_of_path _ _ hpath (fun k _ ↦ meshPath_mem hlen hx hy hdx k)
  have hfollow := fun k hk ↦
    follow_of_path (i := k) (table.find? · (nodeAt nodes cntX dx dy)) _ hpath hk
  rw [hstart, hend] at htakes hreaches
  rw [hstart] at hfollow
  exact ⟨htakes, hreaches, hfollow⟩

theorem WalksMesh.valid (h : WalksMesh nodes cntX cntY doubleDirect table)
    (hlen : nodes.length = cntX * cntY) (hnodup : nodes.Nodup) :
    routeTableValid nodes table = true := by
  refine routeTableValid_of_leads hnodup fun src hsrc dst hdst ↦ ?_
  obtain ⟨x, hx, y, hy, rfl⟩ := exists_nodeAt hlen hsrc
  obtain ⟨dx, hdx, dy, hdy, rfl⟩ := exists_nodeAt hlen hdst
  exact ⟨_, (h.route hlen hnodup hx hy hdx hdy).2.1⟩

/-- The generator answers for exactly the lists of the right length. Its table is valid, and each
route keeps one direction along the row until the column is right, then keeps one direction along
the column, and is as long as the two distances together. -/
theorem mesh_routes_minimal (hx : 0 < cntX) (hy : 0 < cntY) (hsmall : cntX * cntY < 2 ^ 31)
    (hnodup : nodes.Nodup) :
    (nodes.length ≠ cntX * cntY →
      ∃ e, genrouteMesh2dXy nodes cntX cntY doubleDirect = .error e) ∧
    (nodes.length = cntX * cntY →
      ∃ table, genrouteMesh2dXy nodes cntX cntY doubleDirect = .ok table ∧
        routeTableValid nodes table = true ∧
        ∀ x < cntX, ∀ y < cntY, ∀ dx < cntX, ∀ dy < cntY,
          table.TakesHops (nodeAt nodes cntX x y) (nodeAt nodes cntX dx dy)
            (distance doubleDirect cntX x dx + distance doubleDirect cntY y dy) ∧
          (∀ k ≤ distance doubleDirect cntX x dx,
            table.after (nodeAt nodes cntX dx dy) k (nodeAt nodes cntX x y)
                = some (nodeAt nodes cntX (place (goesBack doubleDirect cntX x dx) cntX x k) y) ∧
              (place (goesBack doubleDirect cntX x dx) cntX x k = dx ↔
                k = distance doubleDirect cntX x dx)) ∧
          ∀ k ≤ distance doubleDirect cntY y dy,
            table.after (nodeAt nodes cntX dx dy) (distance doubleDirect cntX x dx + k)
                (nodeAt nodes cntX x y)
              = some (nodeAt nodes cntX dx
                  (place (goesBack doubleDirect cntY y dy) cntY y k))) := by
  refine ⟨fun hlen ↦ ?_, fun hlen ↦ ?_⟩
  · have hsize : (nodes.length == cntX * cntY) = false := beq_eq_false_iff_ne.mpr hlen
    rw [genrouteMesh2dXy, decide_eq_true hx, decide_eq_true hy, Bool.and_self, hsize]
    exact ⟨_, rfl⟩
  · obtain ⟨table, htable, hwalks⟩ :
        ∃ table, genrouteMesh2dXy nodes cntX cntY doubleDirect = .ok table ∧
          WalksMesh nodes cntX cntY doubleDirect table :=
      genrouteMesh2dXy_walks hx hy hsmall hlen hnodup
    refine ⟨table, htable, hwalks.valid hlen hnodup, fun x hx y hy dx hdx dy hdy ↦ ?_⟩
    -- The way along the row, of which each column is met once, and then along the column.
    obtain ⟨htakes, -, hafter⟩ := hwalks.route hlen hnodup hx hy hdx hdy
    rw [← length_eq_distance hx hdx, ← length_eq_distance hy hdy]
    refine ⟨htakes, fun k hk ↦ ⟨?_, ?_⟩, fun k hk ↦ ?_⟩
    · rw [hafter k (Nat.le_add_right_of_le hk), meshPath, if_pos hk]
    · constructor
      · intro heq
        by_contra hne
        exact place_ne hx hdx (Nat.lt_of_le_of_ne hk hne) heq
      · rintro rfl
        exact place_length hx hdx
    · rw [hafter _ (Nat.add_le_add_left hk _), meshPath_add hx hy hdx]

theorem mesh_routes_minimal_square :
    ∃ table, genrouteMesh2dXy [5, 6, 7, 8] 2 2 true = .ok table ∧
      routeTableValid [5, 6, 7, 8] table = true := by
  obtain ⟨table, htable, hvalid, -⟩ := (@mesh_routes_minimal [5, 6, 7, 8] 2 2 true (by decide)
    (by decide) (by decide) (by decide)).2 rfl
  exact ⟨table, htable, hvalid⟩

end Simbus
