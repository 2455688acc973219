import SimbusNoc.Noc.Gridlock
import Mathlib.Data.List.GetD

/-!
# The single ring

On the table of `genroute_single_ring` every node sends all it has to its successor. A packet
enters the ring from a port only where the register that leads to the node is empty, so the ring
never fills up: one slot, a register or a place in a router buffer, stays free. And a ring with a
free slot cannot be in gridlock, since a gridlock on it would take every slot.

## One step keeps a slot free

The slots of the ring are places in the router buffers and the registers of the edges. A packet
that moves on from one slot to the next leaves a free one behind. A packet that comes from a port
takes a slot without leaving one, but a router looks at its ports only when no incoming edge offers
anything: the output register before it is empty then, and stays so for the rest of its turn. Each
part of a tick has a lemma, in the order in which the tick runs through them.

## Why one channel

Registers hold one packet for each channel, and the argument needs a register that is empty for all
packets of the ring. With several channels each would have registers of its own and they would
share the router buffers.
-/

namespace Simbus

/-! ## The table

All entries of the table of a ring lead to the successor of the source, so the edges form a ring,
and induction along it reaches every node.
-/

/-- The edges of the ring, from each node to its successor. -/
def ringEdges (nodes : List BusNodeT) : List EdgeId :=
  (List.range nodes.length).map fun i ↦
    (nodes.getD i 0, nodes.getD ((i + 1) % nodes.length) 0)

variable {nodes : List BusNodeT} {table : BusRouteTable}

/-- Every entry of the table for another node leads to the successor. -/
def OnRing (nodes : List BusNodeT) (table : BusRouteTable) : Prop :=
  ∀ v d w, table.find? v d = some w → v ≠ d → (v, w) ∈ ringEdges nodes

theorem OnRing.insert (h : OnRing nodes table) {src next : BusNodeT} (dst : BusNodeT)
    (hnext : src ≠ dst → (src, next) ∈ ringEdges nodes) :
    OnRing nodes (routeInsert src dst next table) := by
  intro v d w hfind hne
  rw [find?_routeInsert] at hfind
  split_ifs at hfind with hvd
  · obtain ⟨rfl, rfl⟩ := hvd
    obtain rfl := Option.some.inj hfind
    exact hnext hne
  · exact h v d w hfind hne

theorem OnRing.forward {src next : BusNodeT} (hnext : (src, next) ∈ ringEdges nodes) (n : ℕ) :
    ∀ {idx : ℕ} {out : BusRouteTable}, OnRing nodes out →
      OnRing nodes (doubleRingForward nodes src next n idx out).2 := by
  induction n with
  | zero => exact id
  | succ n ih => exact fun h ↦ ih (h.insert _ fun _ ↦ hnext)

theorem OnRing.row (h : OnRing nodes table) {i : ℕ} (hi : i < nodes.length) :
    OnRing nodes (singleRingRow nodes table i) :=
  (OnRing.forward (List.mem_map.mpr ⟨i, List.mem_range.mpr hi, rfl⟩) _ h).insert _
    fun hne ↦ absurd rfl hne

theorem onRing_of_genrouteSingleRing (h : genrouteSingleRing nodes = .ok table) :
    nodes.Nodup ∧ OnRing nodes table := by
  simp only [genrouteSingleRing, Except.bind_eq_ok_iff, require_eq_ok_iff, beq_iff_eq] at h
  obtain ⟨_, hdedup, _, -, h⟩ := h
  refine ⟨List.dedup_eq_self.mp (nodes.dedup_sublist.eq_of_length hdedup), ?_⟩
  have hempty : OnRing nodes ∅ := fun v d w hfind ↦ by simp [BusRouteTable.find?] at hfind
  split_ifs at h
  · rw [← Except.ok.inj h]
    exact hempty.insert _ fun hne ↦ absurd rfl hne
  · rw [← Except.ok.inj h]
    exact List.foldlRecOn (motive := OnRing nodes) _ _ hempty fun out hout i hi ↦
      hout.row (List.mem_range.mp hi)

theorem mem_ringEdges {e : EdgeId} : e ∈ ringEdges nodes ↔ ∃ i < nodes.length,
    e = (nodes.getD i 0, nodes.getD ((i + 1) % nodes.length) 0) := by
  simp [ringEdges, eq_comm]

theorem ringEdges_unique (hnodup : nodes.Nodup) {v w w' : BusNodeT} (h : (v, w) ∈ ringEdges nodes)
    (h' : (v, w') ∈ ringEdges nodes) : w = w' := by
  obtain ⟨i, hi, heq⟩ := mem_ringEdges.mp h
  obtain ⟨j, hj, heq'⟩ := mem_ringEdges.mp h'
  obtain ⟨hv, rfl⟩ := Prod.mk.inj heq
  obtain ⟨hv', rfl⟩ := Prod.mk.inj heq'
  have hij : nodes.getD i 0 = nodes.getD j 0 := hv.symm.trans hv'
  rw [List.getD_eq_getElem _ _ hi, List.getD_eq_getElem _ _ hj, hnodup.getElem_inj_iff] at hij
  rw [hij]

/-- What holds of one node, and of the successor of every node it holds of, holds of all. -/
theorem forall_of_successor {P : BusNodeT → Prop} {v w : BusNodeT} (hv : (v, w) ∈ ringEdges nodes)
    (hP : P v) (hstep : ∀ e ∈ ringEdges nodes, P e.1 → P e.2) : ∀ u ∈ nodes, P u := by
  obtain ⟨i, hi, heq⟩ := mem_ringEdges.mp hv
  obtain ⟨rfl, -⟩ := Prod.mk.inj heq
  have hrun : ∀ k, P (nodes.getD ((i + k) % nodes.length) 0) := by
    intro k
    induction k with
    | zero => rwa [Nat.add_zero, Nat.mod_eq_of_lt hi]
    | succ k ih =>
      have hlt : (i + k) % nodes.length < nodes.length := Nat.mod_lt _ (Nat.zero_lt_of_lt hi)
      have hnext := hstep _ (mem_ringEdges.mpr ⟨_, hlt, rfl⟩) ih
      rwa [Nat.mod_add_mod, Nat.add_assoc] at hnext
  intro u hu
  obtain ⟨j, hj, rfl⟩ := List.mem_iff_getElem.mp hu
  have hjk := hrun (j + nodes.length - i)
  have hsum : i + (j + nodes.length - i) = j + nodes.length := by omega
  rwa [hsum, Nat.add_mod_right, Nat.mod_eq_of_lt hj, List.getD_eq_getElem _ _ hj] at hjk

theorem mem_of_mem_ringEdges {v w : BusNodeT} (h : (v, w) ∈ ringEdges nodes) : v ∈ nodes := by
  obtain ⟨i, hi, heq⟩ := mem_ringEdges.mp h
  obtain ⟨rfl, -⟩ := Prod.mk.inj heq
  rw [List.getD_eq_getElem _ _ hi]
  exact List.getElem_mem hi

theorem exists_predecessor {v w : BusNodeT} (h : (v, w) ∈ ringEdges nodes) :
    ∃ u, (u, v) ∈ ringEdges nodes := by
  obtain ⟨i, hi, heq⟩ := mem_ringEdges.mp h
  obtain ⟨rfl, -⟩ := Prod.mk.inj heq
  have hpos : 0 < nodes.length := Nat.zero_lt_of_lt hi
  have hsum : i + nodes.length - 1 + 1 = i + nodes.length := by omega
  refine ⟨nodes.getD ((i + nodes.length - 1) % nodes.length) 0,
    mem_ringEdges.mpr ⟨(i + nodes.length - 1) % nodes.length, Nat.mod_lt _ hpos, ?_⟩⟩
  rw [Nat.mod_add_mod, hsum, Nat.add_mod_right, Nat.mod_eq_of_lt hi]

namespace Bus

variable {b : Bus} {v : BusNodeT} {s s' : BusState}

/-! ## The free slot -/

/-- A slot of the ring is free: a place in a router buffer, or a register of an edge. -/
def RingSlotFree (b : Bus) (nodes : List BusNodeT) (s : BusState) : Prop :=
  (∃ v ∈ nodes, (s.nodes v).bufferedPackets < b.config.congestion.nodeBufferLimit) ∨
    ∃ e ∈ ringEdges nodes, (s.edges e).input 0 = none ∨ (s.edges e).output 0 = none

/-- The same, read off the stages. -/
def SlotFree (b : Bus) (nodes : List BusNodeT) (c : Stage → List MsgPack) : Prop :=
  (∃ v ∈ nodes, (c (.pipe v)).length < b.config.congestion.nodeBufferLimit) ∨
    ∃ e ∈ ringEdges nodes, c (.input e 0) = [] ∨ c (.output e 0) = []

theorem ringSlotFree_iff (hs : b.Placed s) (hen : b.config.congestion.enabled = true) :
    RingSlotFree b nodes s ↔ SlotFree b nodes s.contents := by
  simp only [RingSlotFree, SlotFree, BusState.contents, List.length_map,
    fun v ↦ ((hs.routers v).buffered hen).1, Option.toList_eq_nil_iff]

/-- One channel, bounded buffers, and the table of a single ring. -/
structure OneRing (b : Bus) (nodes : List BusNodeT) : Prop where
  wellFormed : b.WellFormed
  nodup : nodes.Nodup
  onRing : OnRing nodes b.route
  chaCnt : b.chaCnt = 1
  enabled : b.config.congestion.enabled = true

namespace OneRing

variable (hr : b.OneRing nodes) (hs : b.Placed s)
include hr

theorem hop_mem {d v w : BusNodeT} (h : b.Hop d v w) : (v, w) ∈ ringEdges nodes :=
  hr.onRing v d w h.find h.ne_dst

include hs

theorem cha_eq_zero {y : Stage} {p : MsgPack} (hp : p ∈ s.contents y) : p.cha = 0 := by
  have hlt := (hs.packs y p hp).cha
  rw [hr.chaCnt] at hlt
  exact Nat.lt_one_iff.mp hlt

theorem edge_mem {e : EdgeId} {c : ChannelT} {p : MsgPack}
    (hp : p ∈ s.contents (.input e c) ∨ p ∈ s.contents (.output e c)) :
    e ∈ ringEdges nodes ∧ c = 0 := by
  have hstage : b.KnownFlow p.flow ∧ p.cha = 0 ∧
      e.1 ∈ b.path (b.home p.flow.src) (b.home p.flow.dst) ∧
      e.2 = b.nextNode e.1 (b.home p.flow.dst) ∧ c = p.flow.cha := by
    rcases hp with hp | hp
    · exact ⟨(hs.packs _ p hp).flow, hr.cha_eq_zero hs hp, input_mem_stages.mp (hs.located _ p hp)⟩
    · exact ⟨(hs.packs _ p hp).flow, hr.cha_eq_zero hs hp, output_mem_stages.mp (hs.located _ p hp)⟩
  obtain ⟨hflow, hcha, hv, hnext, rfl⟩ := hstage
  obtain ⟨w, hw, -⟩ := exists_hop hr.wellFormed hflow hv
  have hmem := hr.hop_mem hw
  rw [← hw.nextNode_eq, ← hnext] at hmem
  exact ⟨hmem, hcha⟩

theorem pipe_mem {p : MsgPack} (hp : p ∈ s.contents (.pipe v)) : ∃ w, (v, w) ∈ ringEdges nodes := by
  obtain ⟨w, hw, -⟩ := exists_hop hr.wellFormed (hs.packs _ p hp).flow
    (pipe_mem_stages.mp (hs.located _ p hp))
  exact ⟨w, hr.hop_mem hw⟩

/-! ## One step keeps a slot free

A packet enters the ring only at a node whose incoming register is empty, so a slot stays free; and
moves along the ring leave as many slots free as there were.
-/

omit hr hs in
theorem slotFree_congr {c c' : Stage → List MsgPack} (h : SlotFree b nodes c)
    (hpipe : ∀ v, c' (.pipe v) = c (.pipe v))
    (hedge : ∀ e, c' (.input e 0) = c (.input e 0) ∧ c' (.output e 0) = c (.output e 0)) :
    SlotFree b nodes c' := by
  simpa only [SlotFree, hpipe, fun e ↦ (hedge e).1, fun e ↦ (hedge e).2] using h

/-- A packet enters the ring only where the register before its node is empty, so that one stays
free. -/
theorem output_eq_nil_of_portSend (hptr : b.Pointed s) {q : BusPortT} {c : ChannelT} {p : MsgPack}
    (hcand : (b.findCandidate v s).2 = .portSend q c p) (htgt : p.tgt ≠ v) :
    ∃ e ∈ ringEdges nodes, s.contents (.output e 0) = [] := by
  obtain ⟨-, -, -, hoffer⟩ := findCandidate_spec b v s
  rw [hcand] at hoffer
  obtain ⟨hq, hhead⟩ := hoffer
  have hmem : p ∈ s.contents (.queue q c) := List.mem_of_mem_head? hhead
  have hpack := hs.packs _ p hmem
  obtain ⟨rfl, rfl⟩ := queue_mem_stages.mp (hs.located _ p hmem)
  have hhome : b.home p.flow.src = v := ((hr.wellFormed.mem_ports v _).mp hq).2
  have hne : b.home p.flow.src ≠ b.home p.flow.dst := fun heq ↦
    htgt (hpack.tgt.trans (heq.symm.trans hhome))
  obtain ⟨l, hl⟩ := (path_routeTo hr.wellFormed hpack.flow).eq_cons hne
  obtain ⟨w, hw, -⟩ := exists_hop hr.wellFormed hpack.flow (v := v) (by rw [hl, hhome]; simp)
  obtain ⟨u, hu⟩ := exists_predecessor (hr.hop_mem hw)
  refine ⟨_, hu, List.eq_nil_iff_forall_not_mem.mpr fun p' hp' ↦ ?_⟩
  obtain ⟨he, hc⟩ := output_mem_allStages.mp (hs.mem_allStages hr.wellFormed hp')
  have hout : (s.edges (u, v)).output 0 ≠ none := fun hnone ↦ by
    simp [BusState.contents, hnone] at hp'
  have hrx : (u, v) ∈ b.rxs v := List.mem_filter.mpr ⟨he, by simp⟩
  obtain ⟨e', c', p', hedge⟩ := findCandidate_edge hptr hrx hc hout
  rw [hcand] at hedge
  cases hedge

theorem slotFree_admitPhase (hptr : b.Pointed s) {busy : Bool}
    (h : b.admitPhase v s = .ok (s', busy)) (hfree : SlotFree b nodes s.contents) :
    SlotFree b nodes s'.contents := by
  have hfind := findCandidate_contents b v s
  rcases admitPhase_cases h with ⟨-, rfl⟩ | ⟨p, hpack, ⟨-, rfl⟩ | ⟨-, s₁, hdet, htake⟩⟩
  · rwa [hfind]
  · rwa [contents_countBlocked, hfind]
  · obtain ⟨y, hstage, hpipe, hdetached⟩ := exists_detached hpack hdet
    have hfront := hdetached.front
    rw [hfind] at hfront
    have hothers : ∀ z, z ≠ y → z ≠ .pipe v → s'.contents z = s.contents z := fun z hzy hzv ↦ by
      rw [admitCandidate_contents htake hzv, hdetached.others z hzy, hfind]
    rcases hcand : (b.findCandidate v s).2 with _ | ⟨e, c, p'⟩ | ⟨q, c, p'⟩ <;>
      rw [hcand] at hstage hpack
    · cases hpack
    · -- The register that the packet leaves is free.
      obtain rfl := Option.some.inj hstage
      have hp : p ∈ s.contents (.output e c) := by simp [hfront]
      obtain ⟨he, rfl⟩ := hr.edge_mem hs (.inr hp)
      refine .inr ⟨e, he, .inr ?_⟩
      rw [admitCandidate_contents htake (hpipe v)]
      cases hout : (s.edges e).output 0 with
      | none => simp [BusState.contents, hout] at hfront
      | some p₁ =>
        simp only [BusState.contents, hout, Option.toList_some, List.cons.injEq] at hfront
        exact hfront.2.symm
    · obtain rfl := Option.some.inj hstage
      obtain rfl := Option.some.inj hpack
      by_cases htgt : p'.tgt = v
      · refine slotFree_congr hfree (fun u ↦ ?_) fun e ↦ ?_
        all_goals simp only [admitCandidate_contents_of_tgt htake htgt]
        · rw [hdetached.others _ (by simp), hfind]
        · exact ⟨by rw [hdetached.others _ (by simp), hfind],
            by rw [hdetached.others _ (by simp), hfind]⟩
      · obtain ⟨e, he, hout⟩ := hr.output_eq_nil_of_portSend hs hptr hcand htgt
        exact .inr ⟨e, he, .inr (by rw [hothers _ (by simp) (by simp), hout])⟩

theorem slotFree_pipelinePhase {busy busy' : Bool}
    (h : b.pipelinePhase v s busy = .ok (s', busy')) (hfree : SlotFree b nodes s.contents) :
    SlotFree b nodes s'.contents := by
  rcases pipelinePhase_cases h with hlt | ⟨-, hcontents, -⟩
  · -- The released packet leaves its place in the buffer.
    obtain ⟨i, hi⟩ := List.exists_mem_of_length_pos (Nat.zero_lt_of_lt hlt)
    obtain ⟨w, hw⟩ := hr.pipe_mem hs (v := v) (List.mem_map_of_mem hi)
    obtain ⟨heq, hle⟩ := (hs.routers v).buffered hr.enabled
    refine .inl ⟨v, mem_of_mem_ringEdges hw, ?_⟩
    simp only [BusState.contents, List.length_map]
    omega
  · rwa [hcontents]

theorem slotFree_processEdge {e : EdgeId} (hfree : SlotFree b nodes s.contents) :
    SlotFree b nodes (b.processEdge s e).contents := by
  have hlink := hr.wellFormed.link_pos
  rw [processEdge, hr.chaCnt, List.range_one, edgeLoop, if_neg (Nat.not_le.mpr hlink)]
  split
  · -- The input register that the packet leaves is free.
    rename_i p hin hout
    have hp : p ∈ s.contents (.input e 0) := by simp [BusState.contents, hin]
    refine .inr ⟨e, (hr.edge_mem hs (.inl hp)).1, .inl ?_⟩
    rw [if_neg fun h ↦ absurd h.1 (lt_irrefl 0), edgeLoop]
    simp [BusState.contents]
  · rwa [edgeLoop, s.setEdge_self]

theorem slotFree_processNode (hptr : b.Pointed s) (h : b.processNode v s = .ok s')
    (hfree : SlotFree b nodes s.contents) : SlotFree b nodes s'.contents := by
  obtain ⟨s₁, busy₁, hs₁, hev₁⟩ := admitPhase_spec (v := v) hr.wellFormed hs
  obtain ⟨s₂, busy₂, hs₂, -⟩ := pipelinePhase_spec (v := v) hr.wellFormed hev₁.placed busy₁
  have hs' : s' = countCycles v busy₂ (b.updateCongestionState v s₂) := by
    rw [processNode, hs₁] at h
    simp only [bind, Except.bind, hs₂] at h
    exact (Except.ok.inj h).symm
  rw [hs', contents_countCycles, contents_updateCongestionState]
  exact hr.slotFree_pipelinePhase hev₁.placed hs₂ (hr.slotFree_admitPhase hs hptr hs₁ hfree)

omit hs in
theorem slotFree_applyNextTick (hs : b.Placed s) (hptr : b.Pointed s)
    (h : b.applyNextTick s = .ok s') (hfree : SlotFree b nodes s.contents) :
    SlotFree b nodes s'.contents := by
  obtain ⟨s₁, hs₁, h⟩ := Except.bind_eq_ok_iff.mp h
  have hnodes : b.Placed s₁ ∧ b.Pointed s₁ ∧ SlotFree b nodes s₁.contents := by
    refine foldlM_keeps (fun s ↦ b.Placed s ∧ b.Pointed s ∧ SlotFree b nodes s.contents)
      ⟨hs, hptr, hfree⟩ (fun v _ s s' ⟨hs, hptr, hfree⟩ h ↦ ?_) hs₁
    obtain ⟨t, ht, hev⟩ := processNode_spec (v := v) hr.wellFormed hs
    obtain rfl := Except.ok.inj (ht.symm.trans h)
    exact ⟨hev.placed, hptr.processNode h, hr.slotFree_processNode hs hptr h hfree⟩
  have hedges : ∀ (l : List EdgeId) {s : BusState}, b.Placed s → SlotFree b nodes s.contents →
      SlotFree b nodes (l.foldl b.processEdge s).contents := by
    intro l
    induction l with
    | nil => exact fun _ h ↦ h
    | cons e l ih =>
      exact fun hs h ↦ ih (processEdge_spec hr.wellFormed hs e).placed
        (hr.slotFree_processEdge hs h)
  have hfinal := hedges b.edgeIds hnodes.1 hnodes.2.2
  rw [← contents_refreshAllCongestionStates] at hfinal
  rw [← Except.ok.inj h]
  exact slotFree_congr hfinal (fun _ ↦ rfl) fun _ ↦ ⟨rfl, rfl⟩

omit hs in
theorem slotFree_perform (hs : b.Placed s) (hptr : b.Pointed s)
    (hfree : SlotFree b nodes s.contents) (call : Call) :
    SlotFree b nodes (b.perform s call).2.contents := by
  cases call with
  | send port dst c data =>
    rw [Bus.perform]
    split
    · rename_i accepted s' hsend
      obtain ⟨-, -, -, ⟨-, stats, rfl⟩ | ⟨-, -, -, -, rfl⟩⟩ := send_eq_ok hsend
      · exact slotFree_congr hfree (fun _ ↦ rfl) fun _ ↦ ⟨rfl, rfl⟩
      · have hflow : ∀ p ∈ b.packets s port dst c data, p.flow = ⟨port, dst, c⟩ := by
          intro p hp
          obtain ⟨i, -, rfl⟩ := List.mem_map.mp hp
          rfl
        have hpush := push_enqueue (b := b) (s := s) ⟨port, dst, c⟩ hflow
        exact slotFree_congr hfree (fun v ↦ hpush.others _ (by simp)) fun e ↦
          ⟨hpush.others _ (by simp), hpush.others _ (by simp)⟩
    · exact hfree
  | recv d c =>
    rw [Bus.perform, (recv_keeps s d c).contents_eq]
    exact hfree
  | applyNextTick =>
    rw [Bus.perform]
    split
    · rename_i s' hs'
      exact hr.slotFree_applyNextTick hs hptr hs' hfree
    · exact hfree
  | clearStatistics =>
    rw [Bus.perform, contents_clearStatistics]
    exact hfree

omit hs in
/-- In every state that calls can reach, a slot of the ring is free. -/
theorem ringSlotFree_run (hpos : 0 < nodes.length) (calls : List Call) :
    RingSlotFree b nodes (b.run {} calls).2 := by
  have hinit : SlotFree b nodes (({} : BusState).contents) :=
    .inl ⟨nodes[0], List.getElem_mem hpos, (hr.wellFormed.limits hr.enabled).1⟩
  have hrun := run_keeps (b := b)
    (P := fun s ↦ b.Placed s ∧ b.Pointed s ∧ SlotFree b nodes s.contents)
    (fun s call ⟨hs, hptr, hfree⟩ ↦ ⟨hs.perform hr.wellFormed call, hptr.perform call,
      hr.slotFree_perform hs hptr hfree call⟩) calls
    ⟨.init b, fun _ ↦ ⟨.inr rfl, .inr rfl⟩, hinit⟩
  exact (ringSlotFree_iff hrun.1 hr.enabled).mpr hrun.2.2

/-! ## No gridlock -/

/-- A gridlock on the ring takes every slot. -/
theorem not_ringSlotFree_of_gridlock {S : Set BusNodeT} (hgrid : b.Gridlock s S) :
    ¬RingSlotFree b nodes s := by
  have hpacket : ∀ v ∈ S, ∃ i ∈ (s.nodes v).pipeline,
    (v, b.nextNode v i.pack.tgt) ∈ ringEdges nodes ∧
      i.pack.cha = 0 := by
    intro v hv
    have hfull := hgrid.full v hv
    have hpos := (hr.wellFormed.limits hr.enabled).1
    have heq := ((hs.routers v).buffered hr.enabled).1
    obtain ⟨i, hi⟩ := List.exists_mem_of_length_pos (l := (s.nodes v).pipeline) (by omega)
    have hmem : i.pack ∈ s.contents (.pipe v) := List.mem_map_of_mem hi
    have hpack := hs.packs _ _ hmem
    obtain ⟨w, hw, -⟩ := exists_hop
      hr.wellFormed hpack.flow (pipe_mem_stages.mp (hs.located _ _ hmem))
    replace hw : b.Hop i.pack.tgt v w := hpack.tgt ▸ hw
    exact ⟨i, hi, hw.nextNode_eq.symm ▸ hr.hop_mem hw, hr.cha_eq_zero hs hmem⟩
  have hnext : ∀ e ∈ ringEdges nodes, e.1 ∈ S →
      e.2 ∈ S ∧ (s.edges e).input 0 ≠ none ∧ (s.edges e).output 0 ≠ none := by
    rintro ⟨v, w⟩ he hv
    obtain ⟨i, hi, hedge, hcha⟩ := hpacket v hv
    obtain rfl := ringEdges_unique hr.nodup he hedge
    have hwaits := hgrid.waits v hv i hi
    rwa [hcha] at hwaits
  obtain ⟨v, hv⟩ := hgrid.nonempty
  obtain ⟨i, -, hedge, -⟩ := hpacket v hv
  have hall := forall_of_successor hedge hv fun e he hS ↦ (hnext e he hS).1
  rintro (⟨u, hu, hroom⟩ | ⟨e, he, hfree⟩)
  · exact absurd hroom (Nat.not_lt.mpr (hgrid.full u (hall u hu)))
  · obtain ⟨-, hin, hout⟩ := hnext e he (hall e.1 (mem_of_mem_ringEdges he))
    exact hfree.elim hin hout

omit hs in
/-- A loaded ring makes progress. -/
theorem progresses_run (hpos : 0 < nodes.length) (calls : List Call)
    (hloaded : Loaded (b.run {} calls).2) : b.Progresses (b.run {} calls).2 := by
  by_contra hstop
  have hplaced := placed_run hr.wellFormed calls
  exact hr.not_ringSlotFree_of_gridlock hplaced
    (exists_gridlock hr.wellFormed hplaced (pointed_run calls) hloaded hstop)
    (hr.ringSlotFree_run hpos calls)

end OneRing

variable {ord : HashOrder} {portIds : List BusPortT} {portToNode : List BusNodeT} {width : ℕ}
  {config : NocConfig}

theorem oneRing_of_construct (hnodup : nodes.Nodup) (hring : OnRing nodes table)
    (hbus : construct ord portIds portToNode [width] table config = .ok b)
    (hen : config.congestion.enabled = true) : b.OneRing nodes := by
  obtain ⟨hcha, -, -, -, -, hroute, hconfig⟩ := construct_eq_ok hbus
  exact ⟨construct_wellFormed hbus, hnodup, hroute ▸ hring, hcha, hconfig ▸ hen⟩

/-- On a single ring with bounded buffers a slot is free in every state that calls can reach, and a
tick moves something whenever something is on its way. -/
theorem singleRing_live (hnodes : 2 ≤ nodes.length) (htable : genrouteSingleRing nodes = .ok table)
    (hbus : construct ord portIds portToNode [width] table config = .ok b)
    (hen : config.congestion.enabled = true) (calls : List Call) :
    RingSlotFree b nodes (b.run {} calls).2 ∧
      (Loaded (b.run {} calls).2 → b.Progresses (b.run {} calls).2) := by
  obtain ⟨hnodup, hring⟩ := onRing_of_genrouteSingleRing htable
  have hr := oneRing_of_construct hnodup hring hbus hen
  have hpos : 0 < nodes.length := Nat.zero_lt_of_lt hnodes
  exact ⟨hr.ringSlotFree_run hpos calls, hr.progresses_run hpos calls⟩

/-! ## A ring of three nodes -/

def trioTable : BusRouteTable := (genrouteSingleRing [0, 1, 2]).toOption.getD ∅

def trioConfig : NocConfig where
  linkWidthByte := 1
  congestion := { nodeBufferLimit := 1, highWatermark := 1, lowWatermark := 0 }

def trioBus : Bus where
  chaCnt := 1
  linkWidthByte := 1
  routeLatency := 3
  chaWidths := [1]
  port2node := [(0, 0), (1, 1), (2, 2)]
  route := trioTable
  config := trioConfig
  nodeIds := [0, 1, 2]
  nodePorts := fun v ↦ (([0, 1, 2].zip [0, 1, 2]).filter fun pn ↦ pn.2 == v).map Prod.fst
  edgeIds := allEdges trioTable

theorem genroute_trioTable : genrouteSingleRing [0, 1, 2] = .ok trioTable := rfl

theorem construct_trioBus :
    construct .insertion [0, 1, 2] [0, 1, 2] [1] trioTable trioConfig = .ok trioBus := rfl

theorem singleRing_live_trio :
    RingSlotFree trioBus [0, 1, 2] (trioBus.run {} [.send 0 2 0 [7, 7]]).2 ∧
      trioBus.Progresses (trioBus.run {} [.send 0 2 0 [7, 7]]).2 := by
  obtain ⟨hfree, hlive⟩ := singleRing_live (by decide) genroute_trioTable construct_trioBus rfl
    [.send 0 2 0 [7, 7]]
  exact ⟨hfree, hlive ⟨.queue 0 0, by decide⟩⟩

end Bus

end Simbus
