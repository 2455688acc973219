import SimbusNoc.Library.Regions
import SimbusNoc.Noc.Reachable
import SimbusNoc.Noc.Reliability

/-!
# The order of the nodes

`apply_next_tick` meets the nodes in the order of an unordered map. The order does not matter: what
a node reads and writes in its turn is its own record, the ports attached to it, the output
registers of the edges that enter it and the input registers of those that leave it. An edge
between two nodes belongs to both, its input to the one and its output to the other.

## Regions

So the state of the bus is divided among the nodes, and each function of a turn is shown to keep to
the region of its node, from the scan for a candidate up to the whole of `process_node`. A turn
reads the congestion flag and the buffer count of its own node only, which is why admission can be
refused without a look at the neighbours. That loops whose steps keep to different regions may be
reordered is a general fact, and so is the order of the edges, each of which is a region by itself.

## Two buses

The theorem is about two buses that differ in the order of their nodes only: they answer every run
of calls alike, with the same outcomes and states. This includes the statistics: the counters that
a turn adds to are fields of its own node.
-/

namespace Simbus

namespace Bus

variable (b : Bus) {v : BusNodeT} {s t : BusState}

/-! ## The registers of a node -/

/-- The edges `edges'`, with the registers that the turn of node `v` reads and writes taken from
`edges`. -/
def graftEdges (v : BusNodeT) (edges edges' : EdgeId → EdgeInChannel) (e : EdgeId) :
    EdgeInChannel :=
  { input := if e.1 = v then (edges e).input else (edges' e).input
    output := if e.2 = v then (edges e).output else (edges' e).output
    busyCycles := (edges' e).busyCycles }

section Edges

variable {edges edges' : EdgeId → EdgeInChannel} {e : EdgeId}

theorem graftEdges_self (v : BusNodeT) (edges : EdgeId → EdgeInChannel) :
    graftEdges v edges edges = edges := by
  funext e
  simp only [graftEdges, ite_self]

theorem graftEdges_comm {w : BusNodeT} (hvw : v ≠ w) (E E' E'' : EdgeId → EdgeInChannel) :
    graftEdges v E (graftEdges w E' E'') = graftEdges w E' (graftEdges v E E'') := by
  funext e
  simp only [graftEdges, EdgeInChannel.mk.injEq, and_true]
  constructor
  · by_cases he : e.1 = v
    · rw [if_pos he, if_neg (he ▸ hvw), if_pos he]
    · rw [if_neg he, if_neg he]
  · by_cases he : e.2 = v
    · rw [if_pos he, if_neg (he ▸ hvw), if_pos he]
    · rw [if_neg he, if_neg he]

theorem input_graftEdges (he : e.1 = v) : (graftEdges v edges edges' e).input = (edges e).input :=
  if_pos he

theorem output_graftEdges (he : e.2 = v) :
    (graftEdges v edges edges' e).output = (edges e).output :=
  if_pos he

theorem update_input_graftEdges (he : e.1 = v) (i : ChannelT → Option MsgPack) :
    Function.update (graftEdges v edges edges') e { graftEdges v edges edges' e with input := i } =
      graftEdges v (Function.update edges e { edges e with input := i }) edges' := by
  funext f
  by_cases hf : f = e
  · simp only [hf, graftEdges, Function.update_self, if_pos he]
  · simp only [graftEdges, Function.update_of_ne hf]

theorem update_output_graftEdges (he : e.2 = v) (o : ChannelT → Option MsgPack) :
    Function.update (graftEdges v edges edges') e { graftEdges v edges edges' e with output := o } =
      graftEdges v (Function.update edges e { edges e with output := o }) edges' := by
  funext f
  by_cases hf : f = e
  · simp only [hf, graftEdges, Function.update_self, if_pos he]
  · simp only [graftEdges, Function.update_of_ne hf]

end Edges

/-! ## The region of a node

The buffers of a node, of its ports, and the registers at the two ends of its edges that only this
node uses. `graft` puts the region of one state into another.
-/

/-- `t` with what the turn of node `v` reads and writes taken from `s`. -/
def graft (v : BusNodeT) (s t : BusState) : BusState :=
  { t with
    nodes := Function.update t.nodes v (s.nodes v)
    ports := fun p ↦ if b.home p = v then s.ports p else t.ports p
    edges := graftEdges v s.edges t.edges }

/-- The state of the bus divided among the nodes. -/
def regions : Regions BusNodeT BusState where
  graft := b.graft
  graft_self := fun v s ↦ by simp [graft, graftEdges_self v]
  graft_comm := fun {v w} hvw s t u ↦ by
    simp only [graft, graftEdges_comm hvw, BusState.mk.injEq, and_true]
    refine ⟨Function.update_comm hvw.symm _ _ _, funext fun p ↦ ?_⟩
    by_cases hp : b.home p = v
    · rw [if_pos hp, if_neg (hp ▸ hvw), if_pos hp]
    · rw [if_neg hp, if_neg hp]

variable {b}

@[simp] theorem nodes_graft : (b.graft v s t).nodes v = s.nodes v := Function.update_self ..

theorem ports_graft {p : BusPortT} (hp : b.home p = v) : (b.graft v s t).ports p = s.ports p :=
  if_pos hp

theorem output_graft {e : EdgeId} (he : e.2 = v) :
    ((b.graft v s t).edges e).output = (s.edges e).output :=
  output_graftEdges he

@[simp] theorem setNode_graft (n : NodeStruct) :
    (b.graft v s t).setNode v n = b.graft v (s.setNode v n) t := by
  simp [graft, BusState.setNode]

theorem setPort_graft {p : BusPortT} (hp : b.home p = v) (q : PortStruct) :
    (b.graft v s t).setPort p q = b.graft v (s.setPort p q) t := by
  simp only [graft, BusState.setPort, BusState.mk.injEq, true_and, and_true]
  funext r
  by_cases hr : r = p
  · rw [hr, Function.update_self, Function.update_self, if_pos hp]
  · rw [Function.update_of_ne hr, Function.update_of_ne hr]

theorem setEdge_graft {e : EdgeId} (he : e.2 = v) (o : ChannelT → Option MsgPack) :
    (b.graft v s t).setEdge e { (b.graft v s t).edges e with output := o } =
      b.graft v (s.setEdge e { s.edges e with output := o }) t := by
  rw [graft, BusState.setEdge]
  exact congrArg (fun edges ↦ { b.graft v s t with edges := edges })
    (update_output_graftEdges he o)

/-! ## The candidate of a node -/

theorem scan_congr {α β : Type} {offer offer' : α → Option β} {xs : List α}
    (h : ∀ x ∈ xs, offer x = offer' x) (n ptr : ℕ) :
    scan offer xs n ptr = scan offer' xs n ptr := by
  induction n generalizing ptr with
  | zero => rfl
  | succ n ih =>
    rw [scan, scan]
    cases hx : xs[ptr]? with
    | none => rfl
    | some x =>
      dsimp only
      rw [h x (List.mem_of_getElem? hx), ih]

theorem home_of_mem_nodePorts (hb : b.WellFormed) {p : BusPortT} (hp : p ∈ b.nodePorts v) :
    b.home p = v :=
  ((hb.mem_ports v p).mp hp).2

theorem snd_of_mem_rxs {e : EdgeId} (he : e ∈ b.rxs v) : e.2 = v :=
  beq_iff_eq.mp (List.mem_filter.mp he).2

/-- The candidate comes from the region of the node. -/
def Candidate.At (b : Bus) (v : BusNodeT) : Candidate → Prop
  | .none => True
  | .edgeOutput e _ _ => e.2 = v
  | .portSend p _ _ => b.home p = v

theorem findCandidate_at (hb : b.WellFormed) (v : BusNodeT) (s : BusState) :
    (b.findCandidate v s).2.At b v := by
  rw [findCandidate]
  dsimp only
  split
  · next h => exact snd_of_mem_rxs (scan_mem h).1
  · split
    · next h => exact home_of_mem_nodePorts hb (scan_mem h).1
    · trivial

theorem findCandidate_local (hb : b.WellFormed) (s t : BusState) :
    b.findCandidate v (b.graft v s t) =
      (b.graft v (b.findCandidate v s).1 t, (b.findCandidate v s).2) := by
  have hrx : ∀ n ptr, scan (b.firstOutput (b.graft v s t)) (b.rxs v) n ptr =
      scan (b.firstOutput s) (b.rxs v) n ptr :=
    scan_congr fun e he ↦ by rw [firstOutput, firstOutput, output_graft (snd_of_mem_rxs he)]
  have hsd : ∀ n ptr, scan (b.firstQueued (b.graft v s t)) (b.nodePorts v) n ptr =
      scan (b.firstQueued s) (b.nodePorts v) n ptr :=
    scan_congr fun p hp ↦ by
      rw [firstQueued, firstQueued, ports_graft (home_of_mem_nodePorts hb hp)]
  rw [findCandidate, findCandidate]
  simp only [nodes_graft, hrx, hsd, setNode_graft]
  split
  · rfl
  · split <;> rfl

/-! ## The turn of a node

Each function of the turn reads its region only, and its effect is a graft. What it throws, if
anything, depends on the region only, too.
-/

theorem detachCandidate_local {cand : Candidate} (hcand : cand.At b v) :
    b.regions.Local v fun s ↦ b.detachCandidate v s cand := by
  intro s t
  change b.detachCandidate v (b.graft v s t) cand =
    (b.detachCandidate v s cand).map fun s' ↦ b.graft v s' t
  rcases cand with _ | ⟨e, c, p⟩ | ⟨port, c, p⟩
  · rfl
  · simp only [detachCandidate, output_graft hcand, nodes_graft, setEdge_graft hcand,
      setNode_graft]
    cases require ((s.edges e).output c == some p) "edge candidate changed before detach" <;> rfl
  · simp only [detachCandidate, ports_graft hcand, nodes_graft, setPort_graft hcand, setNode_graft]
    cases require (((s.ports port).sendBuf c).head? == some p)
      "port candidate changed before detach" <;> rfl

theorem deliverToLocalPort_local (hb : b.WellFormed) (p : MsgPack) :
    b.regions.Local v fun s ↦ b.deliverToLocalPort v s p := by
  intro s t
  change b.deliverToLocalPort v (b.graft v s t) p =
    (b.deliverToLocalPort v s p).map fun s' ↦ b.graft v s' t
  by_cases hmem : (b.nodePorts v).contains p.dst = true
  · have hhome : b.home p.dst = v := home_of_mem_nodePorts hb (List.contains_iff_mem.mp hmem)
    simp only [deliverToLocalPort, hmem, require_true, ports_graft hhome, nodes_graft,
      setPort_graft hhome, setNode_graft]
    change (if _ then _ else if _ then _ else _) = Except.map _
      (if _ then _ else if _ then _ else _)
    split_ifs <;> rfl
  · rw [Bool.not_eq_true] at hmem
    simp only [deliverToLocalPort, hmem, require_false]
    rfl

theorem admitCandidate_local (hb : b.WellFormed) (p : MsgPack) :
    b.regions.Local v fun s ↦ b.admitCandidate v s p := by
  intro s t
  change b.admitCandidate v (b.graft v s t) p =
    (b.admitCandidate v s p).map fun s' ↦ b.graft v s' t
  rw [admitCandidate, admitCandidate]
  by_cases htgt : p.tgt = v
  · rw [if_pos htgt, if_pos htgt]
    have hdeliver : b.deliverToLocalPort v (b.graft v s t) p =
        (b.deliverToLocalPort v s p).map fun s' ↦ b.graft v s' t :=
      deliverToLocalPort_local hb p s t
    rw [hdeliver]
    rcases b.deliverToLocalPort v s p with e | s'
    · rfl
    · refine congrArg Except.ok ?_
      simp only [nodes_graft, setNode_graft]
  · rw [if_neg htgt, if_neg htgt]
    simp only [nodes_graft, setNode_graft]
    rfl

/-- A candidate is detached and admitted in the region of its node. -/
theorem take_local (hb : b.WellFormed) {cand : Candidate} (hcand : cand.At b v) (p : MsgPack) :
    b.regions.LocalTo v fun s ↦ b.detachCandidate v s cand >>= fun s₁ ↦
      b.admitCandidate v s₁ p >>= fun s₂ ↦ pure (s₂, true) := by
  intro s t
  have hboth := (detachCandidate_local hcand).bind (admitCandidate_local hb p) s t
  dsimp only at hboth ⊢
  rw [← bind_assoc, hboth, ← bind_assoc]
  rcases b.detachCandidate v s cand >>= fun s₁ ↦ b.admitCandidate v s₁ p with e | s₂ <;> rfl

theorem admitPhase_local (hb : b.WellFormed) : b.regions.LocalTo v (b.admitPhase v) := by
  intro s t
  change b.admitPhase v (b.graft v s t) =
    (b.admitPhase v s).map fun r ↦ (b.graft v r.1 t, r.2)
  rw [admitPhase, admitPhase, findCandidate_local hb]
  have hat := findCandidate_at hb v s
  revert hat
  rcases b.findCandidate v s with ⟨s₁, _ | ⟨e, c, p⟩ | ⟨port, c, p⟩⟩
  · exact fun _ ↦ rfl
  all_goals
    intro hat
    dsimp only
    rw [nodes_graft]
    by_cases haccept : b.canAcceptCandidate v (s₁.nodes v) p = true
    · rw [if_pos haccept, if_pos haccept]
      exact take_local hb hat p s₁ t
    · rw [if_neg haccept, if_neg haccept, setNode_graft]
      rfl

theorem pipelineLoop_local (edges : EdgeId → EdgeInChannel) (items : List PipelinedPack) :
    ∀ st : PipelineLoop, b.pipelineLoop v items { st with edges := graftEdges v st.edges edges } =
      (b.pipelineLoop v items st).map fun r ↦
        (r.1, { r.2 with edges := graftEdges v r.2.edges edges }) := by
  -- Each item looks only at registers of edges that begin at `v`, which the graft has from `st`.
  induction items with
  | nil => exact fun _ ↦ rfl
  | cons item rest ih =>
    intro st
    rw [pipelineLoop, pipelineLoop]
    by_cases hage : 0 < item.cycleRemained
    · rw [if_pos hage, if_pos hage]
      have hrest := ih { st with busy := true }
      dsimp only at hrest ⊢
      rw [hrest]
      rcases b.pipelineLoop v rest _ with e | r <;> rfl
    rw [if_neg hage, if_neg hage]
    rcases b.nextHop v item.pack.tgt with e | next
    · rfl
    change (require _ _ >>= _) = Except.map _ (require _ _ >>= _)
    rcases require (b.edgeIds.contains (v, next)) s!"missing edge {v} -> {next}" with e | _
    · rfl
    simp only [Bind.bind, Except.bind, input_graftEdges (show (v, next).1 = v from rfl)]
    rcases (st.edges (v, next)).input item.pack.cha with _ | occupant
    · dsimp only
      rcases require _ "router buffer underflow on pipeline release" with e | _
      · rfl
      · have hedges : Function.update (graftEdges v st.edges edges) (v, next)
            { graftEdges v st.edges edges (v, next) with
              input := Function.update (st.edges (v, next)).input item.pack.cha (some item.pack) } =
            graftEdges v (Function.update st.edges (v, next)
              { st.edges (v, next) with
                input :=
                  Function.update (st.edges (v, next)).input item.pack.cha (some item.pack) })
              edges :=
          update_input_graftEdges rfl _
        dsimp only
        rw [hedges]
        exact ih ⟨_, _, _, _⟩
    · have hrest := ih { st with blockedCycles := st.blockedCycles + 1, busy := true }
      dsimp only at hrest ⊢
      rw [hrest]
      rcases b.pipelineLoop v rest _ with e | r <;> rfl

theorem pipelinePhase_local (busy : Bool) :
    b.regions.LocalTo v fun s ↦ b.pipelinePhase v s busy := by
  intro s t
  change b.pipelinePhase v (b.graft v s t) busy =
    (b.pipelinePhase v s busy).map fun r ↦ (b.graft v r.1 t, r.2)
  rw [pipelinePhase, pipelinePhase, nodes_graft]
  have hloop := pipelineLoop_local (b := b) (v := v) t.edges (s.nodes v).pipeline
    ⟨s.edges, (s.nodes v).bufferedPackets, (s.nodes v).blockedCycles, busy⟩
  change (b.pipelineLoop v _ ⟨graftEdges v s.edges t.edges, _, _, _⟩ >>= _) = _
  dsimp only at hloop ⊢
  rw [hloop]
  rcases b.pipelineLoop v _ _ with e | ⟨kept, st⟩
  · rfl
  · refine congrArg Except.ok (Prod.ext ?_ rfl)
    exact setNode_graft (b := b) (s := { s with edges := st.edges }) (t := t) _

theorem updateCongestionState_local (v : BusNodeT) :
    b.regions.Local v fun s ↦ (.ok (b.updateCongestionState v s) : Except String BusState) := by
  intro s t
  change Except.ok (b.updateCongestionState v (b.graft v s t)) = _
  simp only [updateCongestionState, nodes_graft, setNode_graft]
  rfl

theorem countCycles_local (busy : Bool) :
    b.regions.Local v fun s ↦ (.ok (countCycles v busy s) : Except String BusState) := by
  intro s t
  change Except.ok (countCycles v busy (b.graft v s t)) = _
  simp only [countCycles, nodes_graft, setNode_graft]
  rfl

/-- The turn of a node reads and writes nothing outside its region. -/
theorem processNode_local (hb : b.WellFormed) (v : BusNodeT) :
    b.regions.Local v fun s ↦ b.processNode v s := by
  have hcount : ∀ busy, b.regions.Local v fun s ↦
      (.ok (countCycles v busy (b.updateCongestionState v s)) : Except String BusState) :=
    fun busy ↦ (updateCongestionState_local v).bind (countCycles_local busy)
  have hpipeline : ∀ busy, b.regions.Local v fun s ↦ b.pipelinePhase v s busy >>= fun r ↦
      .ok (countCycles v r.2 (b.updateCongestionState v r.1)) :=
    fun busy ↦ (pipelinePhase_local busy).bind hcount
  exact (admitPhase_local hb).bind hpipeline

/-! ## Orders of a tick -/

/-- `apply_next_tick`, meeting the nodes and the edges in the orders given. -/
def applyNextTickIn (b : Bus) (nodes : List BusNodeT) (edges : List EdgeId) (s : BusState) :
    Except String BusState := do
  let s ← nodes.foldlM (fun s v ↦ b.processNode v s) s
  let s := nodes.foldl (fun s v ↦ b.updateCongestionState v s) (edges.foldl b.processEdge s)
  return { s with
    currentTick := s.currentTick + 1
    stats := { s.stats with tick := s.currentTick + 1 } }

theorem applyNextTickIn_self (s : BusState) :
    b.applyNextTickIn b.nodeIds b.edgeIds s = b.applyNextTick s := rfl

theorem processEdge_comm (s : BusState) (e f : EdgeId) :
    b.processEdge (b.processEdge s e) f = b.processEdge (b.processEdge s f) e := by
  by_cases hef : e = f
  · rw [hef]
  · rw [processEdge, processEdge, processEdge, processEdge,
      BusState.edges_setEdge_ne _ _ _ (Ne.symm hef), BusState.edges_setEdge_ne _ _ _ hef]
    exact congrArg (fun edges ↦ { s with edges := edges }) (Function.update_comm hef _ _ _)

theorem foldl_processEdge_perm {edges edges' : List EdgeId} (h : edges.Perm edges')
    (s : BusState) : edges.foldl b.processEdge s = edges'.foldl b.processEdge s :=
  h.foldl_eq' (fun e _ f _ s ↦ processEdge_comm s e f) s

theorem foldl_updateCongestionState_perm {nodes nodes' : List BusNodeT} (h : nodes.Perm nodes')
    (s : BusState) : nodes.foldl (fun s v ↦ b.updateCongestionState v s) s =
      nodes'.foldl (fun s v ↦ b.updateCongestionState v s) s := by
  refine h.foldl_eq' (fun v _ w _ s ↦ ?_) s
  by_cases hvw : v = w
  · rw [hvw]
  · exact Except.ok.inj ((updateCongestionState_local v).swap (updateCongestionState_local w) hvw
      (s := s) rfl).symm

/-- A tick that returns, meeting the nodes and the edges in some order, returns the same state in
every order. -/
theorem applyNextTickIn_perm (hb : b.WellFormed) {nodes nodes' : List BusNodeT}
    {edges edges' : List EdgeId} (hnodes : nodes.Perm nodes') (hedges : edges.Perm edges')
    {s' : BusState} (h : b.applyNextTickIn nodes edges s = .ok s') :
    b.applyNextTickIn nodes' edges' s = .ok s' := by
  obtain ⟨s₁, hs₁, h⟩ := Except.bind_eq_ok_iff.mp h
  refine Except.bind_eq_ok_iff.mpr
    ⟨s₁, Regions.foldlM_perm (processNode_local hb) hnodes hs₁, ?_⟩
  rw [← h, foldl_processEdge_perm hedges, foldl_updateCongestionState_perm hnodes]

/-! ## Whole runs

Two buses whose nodes and edges are listed in other orders answer every run alike. Where a function
looks the node's edges up, it looks for one entry, whose place does not matter.
-/

theorem pipelineLoop_reorder (nodes : List BusNodeT) (items : List PipelinedPack) :
    ∀ st : PipelineLoop,
      ({ b with nodeIds := nodes } : Bus).pipelineLoop v items st = b.pipelineLoop v items st := by
  induction items with
  | nil => exact fun _ ↦ rfl
  | cons item rest ih =>
    intro st
    simp only [pipelineLoop, ih]
    rfl

theorem edgeLoop_reorder (nodes : List BusNodeT) (channels : List ChannelT) :
    ∀ (totalSz : ℕ) (edge : EdgeInChannel),
      ({ b with nodeIds := nodes } : Bus).edgeLoop channels totalSz edge =
        b.edgeLoop channels totalSz edge := by
  induction channels with
  | nil => exact fun _ _ ↦ rfl
  | cons c rest ih =>
    intro totalSz edge
    simp only [edgeLoop, ih]

theorem applyNextTick_reorder (nodes : List BusNodeT) (s : BusState) :
    ({ b with nodeIds := nodes } : Bus).applyNextTick s = b.applyNextTickIn nodes b.edgeIds s := by
  have hnode : ({ b with nodeIds := nodes } : Bus).processNode = b.processNode := by
    funext v s
    simp only [processNode, pipelinePhase, pipelineLoop_reorder]
    rfl
  have hedge : ({ b with nodeIds := nodes } : Bus).processEdge = b.processEdge := by
    funext s e
    simp only [processEdge, edgeLoop_reorder]
  rw [applyNextTick, hnode, hedge]
  rfl

theorem perform_reorder (hb : b.WellFormed) (hs : b.Placed s) {nodes : List BusNodeT}
    (hnodes : nodes.Perm b.nodeIds) (call : Call) :
    ({ b with nodeIds := nodes } : Bus).perform s call = b.perform s call := by
  cases call with
  | send | recv => rfl
  | applyNextTick =>
    obtain ⟨_, s', hs', -⟩ := contents_applyNextTick hb hs
    have htick : b.applyNextTickIn nodes b.edgeIds s = .ok s' :=
      applyNextTickIn_perm hb hnodes.symm (.refl _) hs'
    rw [perform, perform, hs', applyNextTick_reorder, htick]
  | clearStatistics =>
    have hmem : ∀ v, v ∈ nodes ↔ v ∈ b.nodeIds := fun v ↦ hnodes.mem_iff
    simp only [perform, clearStatistics, hmem]

/-- Two buses that differ in the order of their nodes only answer every run of calls alike. -/
theorem run_reorder (hb : b.WellFormed) {nodes : List BusNodeT} (hnodes : nodes.Perm b.nodeIds)
    (calls : List Call) (hs : b.Placed s) :
    ({ b with nodeIds := nodes } : Bus).run s calls = b.run s calls := by
  induction calls generalizing s with
  | nil => rfl
  | cons call rest ih =>
    rw [run, run, perform_reorder hb hs hnodes]
    dsimp only
    rw [ih (hs.perform hb call)]

end Bus

open Bus

variable {ord : HashOrder} {portIds : List BusPortT} {portToNode : List BusNodeT}
  {widths : List ℕ} {route : BusRouteTable} {config : NocConfig} {b : Bus}

theorem construct_reorder (h : construct ord portIds portToNode widths route config = .ok b)
    {ord' : HashOrder} (hports : ord'.ports = ord.ports) :
    ∃ nodes, nodes.Perm b.nodeIds ∧
      construct ord' portIds portToNode widths route config = .ok { b with nodeIds := nodes } := by
  simp only [construct, Except.bind_eq_ok_iff] at h ⊢
  obtain ⟨_, hconfig, _, hlen, _, hnonempty, _, hunique, _, hroute, _, hedges, hb⟩ := h
  obtain rfl := (Except.ok.inj hb).symm
  refine ⟨ord'.nodes _, (ord'.nodes_perm _).trans (ord.nodes_perm _).symm, _, hconfig, _, hlen, _,
    hnonempty, _, hunique, _, hroute, _, hedges, ?_⟩
  rw [hports]
  rfl

/-- Whatever has happened on the bus, a tick has the same effect in every order in which it meets
the nodes and the edges. So two buses that differ only in how the map of their nodes is ordered
cannot be told apart by any run. -/
theorem tick_order_irrelevant
    (h : construct ord portIds portToNode widths route config = .ok b) (calls : List Call) :
    (∀ nodes nodes' edges edges', nodes.Perm b.nodeIds → nodes'.Perm b.nodeIds →
        edges.Perm b.edgeIds → edges'.Perm b.edgeIds →
        ∃ s', b.applyNextTickIn nodes edges (b.run {} calls).2 = .ok s' ∧
          b.applyNextTickIn nodes' edges' (b.run {} calls).2 = .ok s') ∧
      ∀ ord' : HashOrder, ord'.ports = ord.ports →
        ∃ b', construct ord' portIds portToNode widths route config = .ok b' ∧
          b'.run {} calls = b.run {} calls := by
  have hb := construct_wellFormed h
  constructor
  · intro nodes nodes' edges edges' hnodes hnodes' hedges hedges'
    obtain ⟨_, s', hs', -⟩ := contents_applyNextTick hb (placed_run hb calls)
    exact ⟨s', applyNextTickIn_perm hb hnodes.symm hedges.symm hs',
      applyNextTickIn_perm hb hnodes'.symm hedges'.symm hs'⟩
  · intro ord' hports
    obtain ⟨nodes, hnodes, hb'⟩ := construct_reorder h hports
    exact ⟨_, hb', run_reorder hb hnodes calls (.init b)⟩

theorem tick_order_irrelevant_pair :
    ∃ s', pairBus.applyNextTickIn [0, 1] [(0, 1), (1, 0)] (pairBus.run {} pairCalls).2 = .ok s' ∧
      pairBus.applyNextTickIn [1, 0] [(1, 0), (0, 1)] (pairBus.run {} pairCalls).2 = .ok s' :=
  (tick_order_irrelevant construct_pairBus pairCalls).1 _ _ _ _ (.refl _)
    (List.Perm.swap 0 1 []) (.refl _) (List.Perm.swap (0, 1) (1, 0) [])

end Simbus
