import SimbusNoc.Noc.SingleRing

/-!
# The XY mesh

On the table of `genroute_mesh2d_xy` a packet travels along its row and then along its column. The
packets of all directions share the one buffer of each router, and nothing is reserved for those
that turn, so that routers can fill up with packets for each other.

This is no oversight of one generator: the bus has one bounded buffer for each router, and whether
packets of different directions can wait for each other in a circle is a matter of the routes. A
mesh of one row or one column with one direction is a single ring, and cannot be in gridlock. On
two columns and three rows four messages suffice. What holds on every mesh is that a tick moves
something unless some routers are in gridlock.
-/

namespace Simbus

open Bus

variable {nodes : List BusNodeT} {table : BusRouteTable} {cntX cntY : ℕ} {doubleDirect : Bool}

/-! ## Meshes that are rings -/

/-- The entries of a node stay on the ring when every way out of it is the one to its successor. -/
theorem OnRing.meshEntries {x y : ℕ} (h : OnRing nodes table)
    (hstep : ∀ dx < cntX, ∀ dy < cntY, nodes.getD (dx + dy * cntX) 0 ≠ nodes.getD (x + y * cntX) 0 →
      (nodes.getD (x + y * cntX) 0,
        if dx ≠ x then nodes.getD (meshStep doubleDirect cntX x dx + y * cntX) 0
        else nodes.getD (x + meshStep doubleDirect cntY y dy * cntX) 0) ∈ ringEdges nodes) :
    OnRing nodes (meshEntries nodes cntX cntY doubleDirect y table x) := by
  refine List.foldlRecOn (motive := OnRing nodes) _ _ (h.insert _ fun hne ↦ absurd rfl hne)
    fun out hout dy hdy ↦ ?_
  refine List.foldlRecOn (motive := OnRing nodes) _ _ hout fun out hout dx hdx ↦ ?_
  dsimp only
  by_cases hself : nodes.getD (dx + dy * cntX) 0 = nodes.getD (x + y * cntX) 0
  · rw [if_pos hself]
    exact hout
  · rw [if_neg hself]
    exact hout.insert _ fun _ ↦
      hstep dx (List.mem_range.mp hdx) dy (List.mem_range.mp hdy) hself

/-- A mesh of one row or one column, with one direction, is a single ring. -/
theorem onRing_of_genrouteMesh2dXy (h : genrouteMesh2dXy nodes cntX cntY false = .ok table)
    (hline : cntX = 1 ∨ cntY = 1) : 0 < nodes.length ∧ nodes.Nodup ∧ OnRing nodes table := by
  simp only [genrouteMesh2dXy, Except.bind_eq_ok_iff, require_eq_ok_iff, beq_iff_eq,
    Bool.and_eq_true, decide_eq_true_eq] at h
  obtain ⟨_, ⟨hx, hy⟩, _, hlen, _, hdedup, h⟩ := h
  refine ⟨hlen ▸ Nat.mul_pos hx hy,
    List.dedup_eq_self.mp (nodes.dedup_sublist.eq_of_length hdedup), ?_⟩
  have hempty : OnRing nodes ∅ := fun v d w hfind ↦ by simp [BusRouteTable.find?] at hfind
  have hforward : ∀ cnt z dz, meshStep false cnt z dz = (z + 1) % cnt := fun _ _ _ ↦ rfl
  rw [← Except.ok.inj h]
  refine List.foldlRecOn (motive := OnRing nodes) _ _ hempty fun out hout y hy ↦ ?_
  refine List.foldlRecOn (motive := OnRing nodes) _ _ hout fun out hout x hx ↦ ?_
  rw [List.mem_range] at hx hy
  refine hout.meshEntries fun dx hdx dy hdy hne ↦ mem_ringEdges.mpr ⟨x + y * cntX, ?_⟩
  rw [hforward, hforward, hlen]
  rcases hline with rfl | rfl
  · -- One column: the way leads along it.
    obtain rfl : x = 0 := by omega
    obtain rfl : dx = 0 := by omega
    simpa using hy
  · -- One row: the other node is at another place of it.
    obtain rfl : y = 0 := by omega
    obtain rfl : dy = 0 := by omega
    have hdx : dx ≠ x := fun heq ↦ hne (by rw [heq])
    simpa [hdx] using hx

/-! ## A mesh in gridlock -/

/-- Two columns and three rows. -/
def meshTable : BusRouteTable := (genrouteMesh2dXy (List.range 6) 2 3 false).toOption.getD ∅

def meshConfig : NocConfig where
  linkWidthByte := 1
  routeLatency := 3
  congestion := { nodeBufferLimit := 2, highWatermark := 2, lowWatermark := 0 }

/-- One port on each of the six nodes, with packets of one byte. -/
def meshBus : Bus where
  chaCnt := 1
  linkWidthByte := 1
  routeLatency := 3
  chaWidths := [1]
  port2node := (List.range 6).zip (List.range 6)
  route := meshTable
  config := meshConfig
  nodeIds := List.range 6
  nodePorts := fun v ↦ (((List.range 6).zip (List.range 6)).filter fun pn ↦ pn.2 == v).map Prod.fst
  edgeIds := allEdges meshTable

theorem genroute_meshTable : genrouteMesh2dXy (List.range 6) 2 3 false = .ok meshTable := rfl

theorem construct_meshBus :
    construct .insertion (List.range 6) (List.range 6) [1] meshTable meshConfig = .ok meshBus := rfl

/-- Four messages, and ticks until nothing moves any more. -/
def meshCalls : List Call :=
  [.send 0 5 0 (List.replicate 6 0), .send 2 1 0 (List.replicate 4 0),
    .send 3 5 0 (List.replicate 2 0), .applyNextTick, .applyNextTick, .applyNextTick,
    .send 4 3 0 (List.replicate 6 0)] ++ List.replicate 20 .applyNextTick

/-- After these calls packets are on their way, and the next tick makes no progress. -/
theorem not_progresses_meshBus :
    genrouteMesh2dXy (List.range 6) 2 3 false = .ok meshTable ∧
      construct .insertion (List.range 6) (List.range 6) [1] meshTable meshConfig = .ok meshBus ∧
      meshConfig.congestion.enabled = true ∧
      (∀ call ∈ meshCalls, call.Known meshBus (2 ^ 31)) ∧
      Loaded (meshBus.run {} meshCalls).2 ∧ ¬meshBus.Progresses (meshBus.run {} meshCalls).2 :=
  ⟨genroute_meshTable, construct_meshBus, rfl, by decide +kernel,
    ⟨.pipe 1, by decide +kernel⟩, by decide +kernel⟩

/-! ## Progress up to gridlock -/

section Progress

variable {ord : HashOrder} {portIds : List BusPortT} {portToNode : List BusNodeT} {width : ℕ}
  {config : NocConfig} {b : Bus}

/-- On an XY mesh a tick moves something whenever something is on its way and no routers are in
gridlock, and on a mesh of one row or one column with one direction there is no gridlock. -/
theorem mesh2dXy_live (htable : genrouteMesh2dXy nodes cntX cntY doubleDirect = .ok table)
    (hbus : construct ord portIds portToNode [width] table config = .ok b)
    (hen : config.congestion.enabled = true) (calls : List Call)
    (hloaded : Loaded (b.run {} calls).2)
    (hfree : (∀ S, ¬b.Gridlock (b.run {} calls).2 S) ∨
      (doubleDirect = false ∧ (cntX = 1 ∨ cntY = 1))) :
    b.Progresses (b.run {} calls).2 := by
  rcases hfree with hfree | ⟨rfl, hline⟩
  · have hb := construct_wellFormed hbus
    by_contra hstop
    exact hfree _ (exists_gridlock hb (placed_run hb calls) (pointed_run calls) hloaded hstop)
  · obtain ⟨hpos, hnodup, hring⟩ := onRing_of_genrouteMesh2dXy htable hline
    exact (oneRing_of_construct hnodup hring hbus hen).progresses_run hpos calls hloaded

theorem mesh2dXy_live_corner : meshBus.Progresses (meshBus.run {} [.send 0 5 0 [7]]).2 := by
  refine mesh2dXy_live genroute_meshTable construct_meshBus rfl [.send 0 5 0 [7]]
    ⟨.queue 0 0, by decide +kernel⟩ (.inl fun S hgrid ↦ ?_)
  obtain ⟨v, hv⟩ := hgrid.nonempty
  have hfull : 2 ≤ 0 := hgrid.full v hv
  omega

end Progress

end Simbus
