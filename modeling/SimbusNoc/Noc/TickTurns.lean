import SimbusNoc.Noc.IterationOrder
import SimbusNoc.Noc.Progress

/-!
# A tick as turns from one state

The turns of the nodes keep to different regions of the state, so that each of them can be taken
from the state in which the tick begins: after the tick, every node, every port and every register
is what the turn of its node makes of it there, and then every edge has moved its packets on.

`exists_tickParts` is the statement of this, and it is how timing results look at a tick. They ask
where a packet is after a tick that was somewhere before it, and without it they would have to
follow the states between the turns.

The rest says what one turn makes of what it finds. `Admits` is the first half: nothing, or the
front packet of one door is delivered or enters the pipeline. `PipelineRuns` is the second: a
packet that stays has aged by one cycle or was due and found its register taken, and what is in an
input register was there or has been released. And `edgeLoop` moves a packet from an input register
to the output register of its channel.
-/

namespace Simbus

namespace Bus

variable {b : Bus} {v : BusNodeT} {s s' : BusState}

/-! ## The regions after the turns

A node's turn changes its own region, so after all turns every region is what its own turn has made
of it.
-/

theorem graft_graft (b : Bus) (v : BusNodeT) (s t u : BusState) :
    b.graft v (b.graft v s t) u = b.graft v s u := by
  simp only [graft, Function.update_self, BusState.mk.injEq, true_and, and_true]
  constructor
  · funext p
    by_cases hp : b.home p = v
    · rw [if_pos hp, if_pos hp, if_pos hp]
    · rw [if_neg hp, if_neg hp]
  · funext e
    simp only [graftEdges, EdgeInChannel.mk.injEq, and_true]
    constructor
    · by_cases he : e.1 = v
      · rw [if_pos he, if_pos he, if_pos he]
      · rw [if_neg he, if_neg he]
    · by_cases he : e.2 = v
      · rw [if_pos he, if_pos he, if_pos he]
      · rw [if_neg he, if_neg he]

/-- The state after a tick, put together from the states after the turns: `t v` is what the turn of
node `v` makes of the first state. -/
structure TickParts (b : Bus) (s s' : BusState) (t : BusNodeT → BusState) : Prop where
  turn : ∀ v ∈ b.nodeIds, b.processNode v s = .ok (t v)
  rest : ∀ v ∉ b.nodeIds, t v = s
  pipeline : ∀ v, (s'.nodes v).pipeline = ((t v).nodes v).pipeline
  orderBuf : ∀ v, (s'.nodes v).orderBuf = ((t v).nodes v).orderBuf
  ports : ∀ p, s'.ports p = (t (b.home p)).ports p
  edges : ∀ e ∈ b.edgeIds, ∃ busy, s'.edges e = b.edgeLoop (List.range b.chaCnt) 0
    { input := ((t e.1).edges e).input, output := ((t e.2).edges e).output, busyCycles := busy }

theorem edges_foldl_processEdge {edges : List EdgeId} (hnodup : edges.Nodup) (s : BusState) :
    (∀ e ∈ edges, (edges.foldl b.processEdge s).edges e
      = b.edgeLoop (List.range b.chaCnt) 0 (s.edges e)) ∧
    ∀ e ∉ edges, (edges.foldl b.processEdge s).edges e = s.edges e := by
  induction edges generalizing s with
  | nil => exact ⟨fun _ he ↦ absurd he List.not_mem_nil, fun _ _ ↦ rfl⟩
  | cons f edges ih =>
    obtain ⟨hf, hnodup⟩ := List.nodup_cons.mp hnodup
    obtain ⟨hmoved, hkept⟩ := ih hnodup (b.processEdge s f)
    have hne : ∀ e, e ≠ f → (b.processEdge s f).edges e = s.edges e := fun e he ↦
      BusState.edges_setEdge_ne _ _ _ he
    constructor
    · intro e he
      rcases List.mem_cons.mp he with rfl | he
      · rw [List.foldl_cons, hkept e hf]
        exact BusState.edges_setEdge_self _ _ _
      · rw [List.foldl_cons, hmoved e he, hne e fun heq ↦ hf (heq ▸ he)]
    · intro e he
      rw [List.foldl_cons, hkept e fun hmem ↦ he (List.mem_cons_of_mem f hmem),
        hne e fun heq ↦ he (heq ▸ List.mem_cons_self)]

theorem ports_foldl_processEdge (edges : List EdgeId) (s : BusState) :
    (edges.foldl b.processEdge s).ports = s.ports := by
  induction edges generalizing s with
  | nil => rfl
  | cons e rest ih => exact ih (b.processEdge s e)

/-- The recomputation of the congestion flags changes these only. -/
theorem refreshAllCongestionStates_keeps (s : BusState) :
    (∀ v, ((b.refreshAllCongestionStates s).nodes v).pipeline = (s.nodes v).pipeline ∧
      ((b.refreshAllCongestionStates s).nodes v).orderBuf = (s.nodes v).orderBuf) ∧
    (b.refreshAllCongestionStates s).ports = s.ports ∧
    (b.refreshAllCongestionStates s).edges = s.edges := by
  refine List.foldlRecOn (motive := fun t : BusState ↦
    (∀ v, (t.nodes v).pipeline = (s.nodes v).pipeline ∧
      (t.nodes v).orderBuf = (s.nodes v).orderBuf) ∧ t.ports = s.ports ∧ t.edges = s.edges) _ _
    ⟨fun _ ↦ ⟨rfl, rfl⟩, rfl, rfl⟩ ?_
  rintro t ⟨hnodes, hports, hedges⟩ u -
  refine ⟨fun v ↦ ?_, hports, hedges⟩
  by_cases hv : v = u
  · subst hv
    rw [updateCongestionState, BusState.nodes_setNode_self]
    exact hnodes v
  · rw [updateCongestionState, BusState.nodes_setNode_ne _ _ _ hv]
    exact hnodes v

theorem exists_tickParts (hb : b.WellFormed) (h : b.applyNextTick s = .ok s') :
    ∃ t, b.TickParts s s' t := by
  obtain ⟨s₂, hs₂, h⟩ := Except.bind_eq_ok_iff.mp h
  obtain rfl := Except.ok.inj h
  obtain ⟨hturns, hrest⟩ := Regions.foldlM_regions (processNode_local hb) (graft_graft b)
    hb.nodes_nodup hs₂
  -- One state for each node, whether it has a turn or not.
  have hparts : ∀ v, ∃ u, (v ∈ b.nodeIds → b.processNode v s = .ok u) ∧
      (v ∉ b.nodeIds → u = s) ∧ b.graft v u s₂ = s₂ := by
    intro v
    by_cases hv : v ∈ b.nodeIds
    · obtain ⟨u, hu, hgraft⟩ := hturns v hv
      exact ⟨u, fun _ ↦ hu, fun hnot ↦ absurd hv hnot, hgraft⟩
    · exact ⟨s, fun hmem ↦ absurd hmem hv, fun _ ↦ rfl, hrest v hv⟩
  choose t hturn hsame hgraft using hparts
  have hnodes : ∀ v, s₂.nodes v = (t v).nodes v := fun v ↦ by
    rw [← hgraft v]
    exact nodes_graft
  obtain ⟨hrefresh, hports, hedges⟩ :=
    refreshAllCongestionStates_keeps (b := b) (b.edgeIds.foldl b.processEdge s₂)
  refine ⟨t, fun v ↦ hturn v, fun v ↦ hsame v, fun v ↦ ?_, fun v ↦ ?_, fun p ↦ ?_, fun e he ↦ ?_⟩
  · rw [← hnodes v, ← nodes_foldl_processEdge b.edgeIds s₂]
    exact (hrefresh v).1
  · rw [← hnodes v, ← nodes_foldl_processEdge b.edgeIds s₂]
    exact (hrefresh v).2
  · have hport : s₂.ports p = (t (b.home p)).ports p := by
      rw [← hgraft (b.home p)]
      exact ports_graft rfl
    rw [← hport, ← ports_foldl_processEdge b.edgeIds s₂]
    exact congrFun hports p
  · have hinput : (s₂.edges e).input = ((t e.1).edges e).input := by
      rw [← hgraft e.1]
      exact input_graftEdges rfl
    have houtput : (s₂.edges e).output = ((t e.2).edges e).output := by
      rw [← hgraft e.2]
      exact output_graft rfl
    refine ⟨(s₂.edges e).busyCycles, ?_⟩
    rw [← hinput, ← houtput]
    exact (congrFun hedges e).trans ((edges_foldl_processEdge hb.edges_nodup s₂).1 e he)

/-! ## Packets that have reached their node -/

end Bus

/-- The packet is in a receive buffer or in an order list. -/
inductive View.Holds (w : View) (p : MsgPack) : Prop
  | waiting (d : BusPortT) (c : ChannelT) (h : p ∈ w.recvBuf d c)
  | ordering (v : BusNodeT) (x : XmitIDT) (h : p ∈ w.order v x)

namespace View

variable {w w' : View} {p q : MsgPack} {v : BusNodeT}

theorem Holds.congr (h : w'.Holds p) (hrecv : w'.recvBuf = w.recvBuf)
    (horder : w'.order = w.order) : w.Holds p := by
  rcases h with ⟨d, c, h⟩ | ⟨v, x, h⟩
  · exact .waiting d c (hrecv ▸ h)
  · exact .ordering v x (horder ▸ h)

theorem Holds.of_append {d : BusPortT} {c : ChannelT} {packs : List MsgPack}
    (h : (w.append d c packs).Holds p) : w.Holds p ∨ p ∈ packs := by
  rcases h with ⟨d', c', h⟩ | ⟨v, x, h⟩
  · by_cases hdc : (d', c') = (d, c)
    · obtain ⟨rfl, rfl⟩ := Prod.mk.inj hdc
      rw [recvBuf_append_self] at h
      exact (List.mem_append.mp h).imp_left (.waiting _ _)
    · rw [recvBuf_append_ne _ _ _ _ hdc] at h
      exact .inl (.waiting _ _ h)
  · exact .inl (.ordering v x h)

theorem Holds.of_setOrder {x : XmitIDT} {packs : List MsgPack}
    (h : (w.setOrder v x packs).Holds p) : w.Holds p ∨ p ∈ packs := by
  rcases h with ⟨d, c, h⟩ | ⟨v', x', h⟩
  · exact .inl (.waiting d c h)
  · by_cases hvx : (v', x') = (v, x)
    · obtain ⟨rfl, rfl⟩ := Prod.mk.inj hvx
      rw [order_setOrder_self] at h
      exact .inr h
    · rw [order_setOrder_ne _ _ _ _ hvx] at h
      exact .inl (.ordering _ _ h)

theorem Holds.of_deliver (h : (w.deliver v q).Holds p) : w.Holds p ∨ p = q := by
  have hinsert : p ∈ Bus.orderInsert q (w.order v q.xmtid) → w.Holds p ∨ p = q := fun hp ↦
    (mem_orderInsert.mp hp).symm.imp_left (.ordering _ _)
  rw [deliver] at h
  split_ifs at h
  · exact h.of_append.imp_right List.mem_singleton.mp
  · rcases h.of_setOrder with h | hp
    · exact h.of_append.elim .inl hinsert
    · cases hp
  · exact h.of_setOrder.elim .inl hinsert

end View

namespace Bus

variable {b : Bus} {v : BusNodeT} {s s' : BusState}

/-! ## The first half of a turn -/

/-- What the first half of a turn of node `v` does: nothing, or it takes the first packet of a stage
in front of the node, and delivers it or puts it at the end of the pipeline. -/
structure Admits (b : Bus) (v : BusNodeT) (s s' : BusState) (taken : Option (Stage × MsgPack)) :
    Prop where
  door : ∀ y p, taken = some (y, p) → Door b v y ∧ s.contents y = p :: s'.contents y
  others : ∀ z, z ≠ .pipe v → (∀ p, taken ≠ some (z, p)) → s'.contents z = s.contents z
  pipeline : (s'.nodes v).pipeline = (s.nodes v).pipeline ++
    (taken.toList.filter fun yp ↦ !(yp.2.tgt == v)).map fun yp ↦ ⟨yp.2, b.routeLatency⟩
  received : ∀ p, (s'.view b).Holds p → (s.view b).Holds p ∨
    ∃ y, taken = some (y, p) ∧ p.tgt = v

/-- The first half of a turn puts packets into the pipeline of its node only. -/
theorem Admits.mem {taken : Option (Stage × MsgPack)} (h : Admits b v s s' taken) {y : Stage}
    (hy : y ≠ .pipe v) {p : MsgPack} (hp : p ∈ s'.contents y) : p ∈ s.contents y := by
  by_cases htaken : ∃ q, taken = some (y, q)
  · obtain ⟨q, hq⟩ := htaken
    rw [(h.door y q hq).2]
    exact List.mem_cons_of_mem q hp
  · rwa [← h.others y hy fun q hq ↦ htaken ⟨q, hq⟩]

theorem mem_contents_input {e : EdgeId} {c : ChannelT} {p : MsgPack} :
    p ∈ s.contents (.input e c) ↔ (s.edges e).input c = some p :=
  Option.mem_toList.trans Option.mem_def

theorem mem_contents_output {e : EdgeId} {c : ChannelT} {p : MsgPack} :
    p ∈ s.contents (.output e c) ↔ (s.edges e).output c = some p :=
  Option.mem_toList.trans Option.mem_def

theorem deliverToLocalPort_pipeline {p : MsgPack} (h : b.deliverToLocalPort v s p = .ok s') :
    (s'.nodes v).pipeline = (s.nodes v).pipeline := by
  obtain ⟨_, -, h⟩ := Except.bind_eq_ok_iff.mp h
  dsimp only at h
  split_ifs at h
  · rw [← Except.ok.inj h]
    rfl
  · rw [← Except.ok.inj h, BusState.nodes_setNode_self]
  · rw [← Except.ok.inj h, BusState.nodes_setNode_self]

theorem admits_none (hcontents : s'.contents = s.contents)
    (hpipe : (s'.nodes v).pipeline = (s.nodes v).pipeline)
    (hview : ∀ p, (s'.view b).Holds p → (s.view b).Holds p) : Admits b v s s' none where
  door := fun _ _ h ↦ by cases h
  others := fun z _ _ ↦ congrFun hcontents z
  pipeline := by rw [hpipe, Option.toList_none, List.filter_nil, List.map_nil, List.append_nil]
  received := fun p hp ↦ .inl (hview p hp)

/-- The candidate is found without a change of the packets. -/
theorem findCandidate_keeps (v : BusNodeT) (s : BusState) :
    ((b.findCandidate v s).1.nodes v).pipeline = (s.nodes v).pipeline ∧
      (b.findCandidate v s).1.view b = s.view b := by
  have hcontents := findCandidate_contents b v s
  obtain ⟨r, q, hs₀, -⟩ := findCandidate_spec b v s
  refine ⟨by rw [hs₀, BusState.nodes_setNode_self], ?_⟩
  have horder : ∀ u, ((b.findCandidate v s).1.nodes u).orderBuf = (s.nodes u).orderBuf := by
    intro u
    by_cases hu : u = v
    · rw [hs₀, hu, BusState.nodes_setNode_self]
    · rw [hs₀, BusState.nodes_setNode_ne _ _ _ hu]
  have hports : (b.findCandidate v s).1.ports = s.ports := by rw [hs₀, BusState.ports_setNode]
  simp only [BusState.view, hcontents, horder, hports]

/-- The other fields of a node do not matter to what has been received. -/
theorem holds_of_setNode {n : NodeStruct} (horder : n.orderBuf = (s.nodes v).orderBuf) {p : MsgPack}
    (h : ((s.setNode v n).view b).Holds p) : (s.view b).Holds p := by
  refine h.congr rfl (funext fun u ↦ funext fun x ↦ congrArg (orderList · x) ?_)
  by_cases hu : u = v
  · rw [hu, BusState.nodes_setNode_self, horder]
  · rw [BusState.nodes_setNode_ne _ _ _ hu]

/-- A candidate comes through a door of its node. -/
theorem door_of_stage (hb : b.WellFormed) {y : Stage}
    (h : (b.findCandidate v s).2.stage? = some y) : Door b v y := by
  obtain ⟨-, -, -, hoffer⟩ := findCandidate_spec b v s
  rcases hcand : (b.findCandidate v s).2 with _ | ⟨e, c, p⟩ | ⟨port, c, p⟩
  · rw [hcand] at h
    cases h
  · rw [hcand] at h hoffer
    obtain rfl := Option.some.inj h
    exact .output c (snd_of_mem_rxs hoffer.1)
  · rw [hcand] at h hoffer
    obtain rfl := Option.some.inj h
    exact .queue c (home_of_mem_nodePorts hb hoffer.1)

theorem deliverToLocalPort_holds {p q : MsgPack} (h : b.deliverToLocalPort v s p = .ok s')
    (hq : (s'.view b).Holds q) : (s.view b).Holds q ∨ q = p := by
  obtain ⟨_, hmem, -⟩ := Except.bind_eq_ok_iff.mp h
  rw [require_eq_ok_iff, List.contains_iff_mem] at hmem
  obtain ⟨s₁, hs₁, hdel⟩ := deliverToLocalPort_spec (b := b) (s := s) hmem
  obtain rfl := Except.ok.inj (h.symm.trans hs₁)
  exact (hq.congr hdel.recvBuf hdel.order).of_deliver

theorem admits_some {s₁ s₂ : BusState} {y : Stage} {p : MsgPack} (hy : Door b v y)
    (hpipe : (s₁.nodes v).pipeline = (s.nodes v).pipeline) (hcontents : s₁.contents = s.contents)
    (hview : s₁.view b = s.view b) (hdet : Detached s₁ s₂ y p)
    (htake : b.admitCandidate v s₂ p = .ok s') : Admits b v s s' (some (y, p)) := by
  have hothers : ∀ z, z ≠ .pipe v → s'.contents z = s₂.contents z :=
    fun z hz ↦ admitCandidate_contents htake hz
  have hholds : ∀ q, (s₂.view b).Holds q → (s.view b).Holds q := fun q hq ↦ by
    rw [← hview]
    exact hq.congr (funext fun d ↦ hdet.recvBuf d) (funext fun u ↦ funext fun x ↦
      congrArg (orderList · x) (hdet.orderBuf u))
  -- The packet has left its door; it has joined the pipeline, or its node has received it.
  refine ⟨fun z q heq ↦ ?_, fun z hz hne ↦ ?_, ?_, fun q hq ↦ ?_⟩
  · obtain ⟨rfl, rfl⟩ := Prod.mk.inj (Option.some.inj heq)
    rw [hothers _ (hy.ne_pipe v), ← hdet.front, hcontents]
    exact ⟨hy, rfl⟩
  · have hzy : z ≠ y := fun heq ↦ hne p (heq ▸ rfl)
    rw [hothers z hz, hdet.others z hzy, hcontents]
  · rw [Option.toList_some, ← hpipe, ← hdet.pipeline v]
    unfold admitCandidate at htake
    by_cases htgt : p.tgt = v
    · rw [if_pos htgt] at htake
      obtain ⟨s₃, hs₃, htake⟩ := Except.bind_eq_ok_iff.mp htake
      rw [← Except.ok.inj htake, BusState.nodes_setNode_self]
      change (s₃.nodes v).pipeline = _
      rw [deliverToLocalPort_pipeline hs₃, List.filter_cons_of_neg (by simp [htgt])]
      exact (List.append_nil _).symm
    · rw [if_neg htgt] at htake
      rw [← Except.ok.inj htake, BusState.nodes_setNode_self,
        List.filter_cons_of_pos (by simp [htgt])]
      rfl
  · unfold admitCandidate at htake
    by_cases htgt : p.tgt = v
    · rw [if_pos htgt] at htake
      obtain ⟨s₃, hs₃, htake⟩ := Except.bind_eq_ok_iff.mp htake
      obtain rfl := Except.ok.inj htake
      rcases deliverToLocalPort_holds hs₃ (holds_of_setNode (by rfl) hq) with h | rfl
      · exact .inl (hholds q h)
      · exact .inr ⟨y, rfl, htgt⟩
    · rw [if_neg htgt] at htake
      obtain rfl := Except.ok.inj htake
      exact .inl (hholds q (holds_of_setNode (by rfl) hq))

/-- The first half of a turn, and why it may have taken nothing. -/
theorem exists_admits (hb : b.WellFormed) {busy : Bool} (h : b.admitPhase v s = .ok (s', busy)) :
    ∃ taken, Admits b v s s' taken ∧ (taken = none → (b.findCandidate v s).2 = .none ∨
      ∃ p, b.canAcceptCandidate v (s.nodes v) p = false) := by
  have hcontents := findCandidate_contents b v s
  obtain ⟨hpipe, hview⟩ := findCandidate_keeps (b := b) v s
  rcases admitPhase_cases h with ⟨hnone, rfl⟩ | ⟨p, hpack, ⟨hrefuse, rfl⟩ | ⟨-, s₁, hdet, htake⟩⟩
  · exact ⟨none, admits_none hcontents hpipe fun p hp ↦ hview ▸ hp, fun _ ↦ .inl hnone⟩
  · refine ⟨none, admits_none ?_ ?_ fun p hp ↦ ?_, fun _ ↦ .inr ⟨p, hrefuse⟩⟩
    · rw [contents_countBlocked, hcontents]
    · rw [countBlocked, BusState.nodes_setNode_self, hpipe]
    · rw [← hview]
      exact holds_of_setNode (by rfl) hp
  · obtain ⟨y, hstage, -, hdetached⟩ := exists_detached hpack hdet
    exact ⟨some (y, p), admits_some (door_of_stage hb hstage) hpipe hcontents hview hdetached htake,
      fun hnone ↦ by cases hnone⟩

/-! ## The second half of a turn

A packet of the pipeline ages by one cycle in a turn, whether it is released or stays. When at most
one is due and finds its register free, all the others age.
-/

section Pipeline

variable {items kept : List PipelinedPack} {st st' : PipelineLoop}

/-- A packet that stays in the pipeline has aged by one cycle at most. -/
theorem PipelineRuns.of_kept (h : PipelineRuns b v items st kept st') {i : PipelinedPack}
    (hi : i ∈ kept) : ∃ j ∈ items, j.pack = i.pack ∧ j.cycleRemained ≤ i.cycleRemained + 1 := by
  induction h with
  | nil => cases hi
  | @age item rest _ _ _ hage _ ih =>
    rcases List.mem_cons.mp hi with rfl | hi
    · exact ⟨item, List.mem_cons_self, rfl, Nat.le_of_eq (Nat.succ_pred_eq_of_pos hage).symm⟩
    · obtain ⟨j, hj, hsame⟩ := ih hi
      exact ⟨j, List.mem_cons_of_mem item hj, hsame⟩
  | @release item rest _ _ _ _ _ _ _ _ ih =>
    obtain ⟨j, hj, hsame⟩ := ih hi
    exact ⟨j, List.mem_cons_of_mem item hj, hsame⟩
  | @block item rest _ _ _ _ _ _ _ _ _ ih =>
    rcases List.mem_cons.mp hi with rfl | hi
    · exact ⟨i, List.mem_cons_self, rfl, Nat.le_succ _⟩
    · obtain ⟨j, hj, hsame⟩ := ih hi
      exact ⟨j, List.mem_cons_of_mem item hj, hsame⟩

theorem PipelineRuns.of_input (h : PipelineRuns b v items st kept st') {e : EdgeId} {c : ChannelT}
    {p : MsgPack} (hp : (st'.edges e).input c = some p) :
    (st.edges e).input c = some p ∨ ∃ i ∈ items, i.pack = p ∧ i.cycleRemained = 0 ∧
      c = p.cha ∧ e.1 = v ∧ b.nextHop v p.tgt = .ok e.2 := by
  induction h with
  | nil => exact .inl hp
  | @age item _ _ _ _ _ _ ih =>
    refine (ih hp).imp_right ?_
    rintro ⟨i, hi, hreleased⟩
    exact ⟨i, List.mem_cons_of_mem item hi, hreleased⟩
  | @release item rest _ st _ w hdue hnext _ _ ih =>
    rcases ih hp with hold | ⟨i, hi, hreleased⟩
    · by_cases he : e = (v, w)
      · subst he
        simp only [PipelineLoop.release, Function.update_self] at hold
        by_cases hc : c = item.pack.cha
        · -- This packet has just been released.
          subst hc
          rw [Function.update_self] at hold
          obtain rfl := Option.some.inj hold
          exact .inr ⟨item, List.mem_cons_self, rfl, hdue, rfl, rfl, hnext⟩
        · rw [Function.update_of_ne hc] at hold
          exact .inl hold
      · simp only [PipelineLoop.release, Function.update_of_ne he] at hold
        exact .inl hold
    · exact .inr ⟨i, List.mem_cons_of_mem item hi, hreleased⟩
  | @block item _ _ _ _ _ _ _ _ _ _ ih =>
    refine (ih hp).imp_right ?_
    rintro ⟨i, hi, hreleased⟩
    exact ⟨i, List.mem_cons_of_mem item hi, hreleased⟩

/-- When at most one packet is due and finds its register free, the others age. -/
theorem PipelineRuns.ages (h : PipelineRuns b v items st kept st')
    (hdue : items.Pairwise fun i j ↦ i.cycleRemained = 0 → j.cycleRemained ≠ 0)
    (hfree : (∃ i ∈ items, i.cycleRemained = 0) → ∀ w c, (st.edges (v, w)).input c = none)
    {i : PipelinedPack} (hi : i ∈ kept) :
    ∃ j ∈ items, j.pack = i.pack ∧ j.cycleRemained = i.cycleRemained + 1 := by
  induction h with
  | nil => cases hi
  | @age item rest _ _ _ hage _ ih =>
    rcases List.mem_cons.mp hi with rfl | hi
    · exact ⟨item, List.mem_cons_self, rfl, (Nat.succ_pred_eq_of_pos hage).symm⟩
    · obtain ⟨j, hj, hsame⟩ := ih (List.pairwise_cons.mp hdue).2 (fun ⟨j, hj, hzero⟩ ↦
        hfree ⟨j, List.mem_cons_of_mem item hj, hzero⟩) hi
      exact ⟨j, List.mem_cons_of_mem item hj, hsame⟩
  | @release item rest _ _ _ _ hzero _ _ _ ih =>
    obtain ⟨halone, hdue⟩ := List.pairwise_cons.mp hdue
    obtain ⟨j, hj, hsame⟩ := ih hdue (fun ⟨j, hj, hjzero⟩ ↦ absurd hjzero (halone j hj hzero)) hi
    exact ⟨j, List.mem_cons_of_mem item hj, hsame⟩
  | @block item _ _ _ _ w _ hzero _ htaken _ _ =>
    rw [hfree ⟨item, List.mem_cons_self, hzero⟩] at htaken
    cases htaken

end Pipeline

/-- A turn is its first half, a run of the pipeline loop, and the counters. -/
theorem processNode_parts (hb : b.WellFormed) (h : b.processNode v s = .ok s') :
    ∃ taken s₁ kept st st', Admits b v s s₁ taken ∧
      (taken = none → (b.findCandidate v s).2 = .none ∨
        ∃ p, b.canAcceptCandidate v (s.nodes v) p = false) ∧
      PipelineRuns b v (s₁.nodes v).pipeline st kept st' ∧ st.edges = s₁.edges ∧
      (s'.nodes v).pipeline = kept ∧ s'.edges = st'.edges ∧ s'.ports = s₁.ports ∧
      ∀ p, (s'.view b).Holds p → (s₁.view b).Holds p := by
  obtain ⟨⟨s₁, busy₁⟩, hs₁, h⟩ := Except.bind_eq_ok_iff.mp h
  obtain ⟨⟨s₂, busy₂⟩, hs₂, h⟩ := Except.bind_eq_ok_iff.mp h
  obtain rfl := Except.ok.inj h
  obtain ⟨taken, hadmits, hnone⟩ := exists_admits hb hs₁
  obtain ⟨⟨kept, st'⟩, hloop, hs₂⟩ := Except.bind_eq_ok_iff.mp hs₂
  obtain ⟨rfl, -⟩ := Prod.mk.inj (Except.ok.inj hs₂)
  refine ⟨taken, s₁, kept, _, st', hadmits, hnone, pipelineRuns_of_eq_ok hloop, rfl, ?_, rfl, rfl,
    fun p hp ↦ ?_⟩
  · rw [countCycles, BusState.nodes_setNode_self, updateCongestionState,
      BusState.nodes_setNode_self, BusState.nodes_setNode_self]
  · have hp := holds_of_setNode (by rfl) (holds_of_setNode (by rfl) hp)
    exact (holds_of_setNode (s := { s₁ with edges := st'.edges }) (by rfl) hp).congr rfl rfl

/-! ## The edges

An edge moves packets on from its input to its output registers, channel by channel and as far as
its width allows. The first that can move always does.
-/

section Edges

variable {edge : EdgeInChannel} {c : ChannelT} {p : MsgPack}

/-- The edge adds nothing to its input registers, and an output register only takes from the input
register of its channel. -/
theorem edgeLoop_registers (channels : List ChannelT) :
    ∀ {total : ℕ} {edge : EdgeInChannel},
      ((b.edgeLoop channels total edge).input c = some p → edge.input c = some p) ∧
      ((b.edgeLoop channels total edge).output c = some p →
        edge.output c = some p ∨ edge.input c = some p) := by
  induction channels with
  | nil => exact ⟨id, .inl⟩
  | cons d rest ih =>
    intro total edge
    rw [edgeLoop]
    split_ifs
    · exact ⟨id, .inl⟩
    · split
      · rename_i q hin hout
        split_ifs
        · exact ih
        · obtain ⟨hinput, houtput⟩ := @ih ((total + q.data.length) % 2 ^ 32)
            { edge with
              input := Function.update edge.input d none
              output := Function.update edge.output d (some q)
              busyCycles := edge.busyCycles + 1 }
          dsimp only at hinput houtput
          by_cases hc : c = d
          · subst hc
            rw [Function.update_self] at hinput houtput
            refine ⟨fun h ↦ ?_, fun h ↦ .inr ?_⟩
            · cases hinput h
            · rw [hin]
              rw [Function.update_self] at houtput
              rcases houtput h with h | h
              · exact h
              · cases h
          · rw [Function.update_of_ne hc] at hinput houtput
            rw [Function.update_of_ne hc] at houtput
            exact ⟨hinput, houtput⟩
      · exact ih

/-- An edge without packets in its input registers stays as it is. -/
theorem edgeLoop_idle (hin : ∀ d, edge.input d = none) (channels : List ChannelT) (total : ℕ) :
    b.edgeLoop channels total edge = edge := by
  induction channels with
  | nil => rfl
  | cons d rest ih =>
    rw [edgeLoop, hin d]
    split_ifs
    · rfl
    · exact ih

/-- An edge whose output registers are free, with packets on one channel only, moves them on. -/
theorem edgeLoop_free (hlink : 0 < b.linkWidthByte) {channels : List ChannelT}
    (hout : ∀ d, edge.output d = none) (hin : ∀ d ≠ c, edge.input d = none) (hc : c ∈ channels) :
    (∀ d, (b.edgeLoop channels 0 edge).input d = none) ∧
      (b.edgeLoop channels 0 edge).output c = edge.input c := by
  cases hp : edge.input c with
  | none =>
    have hidle : ∀ d, edge.input d = none := fun d ↦ by
      by_cases hd : d = c
      · rw [hd, hp]
      · exact hin d hd
    rw [edgeLoop_idle hidle]
    exact ⟨hidle, hout c⟩
  | some p =>
    induction channels with
    | nil => cases hc
    | cons d rest ih =>
      rw [edgeLoop, if_neg (Nat.not_le.mpr hlink)]
      by_cases hd : d = c
      · rw [hd, hp, hout c]
        dsimp only
        rw [if_neg fun h ↦ Nat.lt_irrefl 0 h.1, edgeLoop_idle]
        · dsimp only
          refine ⟨fun d ↦ ?_, by rw [Function.update_self]⟩
          by_cases hd : d = c
          · rw [hd, Function.update_self]
          · rw [Function.update_of_ne hd, hin d hd]
        · intro d
          dsimp only
          by_cases hd : d = c
          · rw [hd, Function.update_self]
          · rw [Function.update_of_ne hd, hin d hd]
      · rw [hin d hd]
        exact ih ((List.mem_cons.mp hc).resolve_left (Ne.symm hd))

end Edges

end Bus

end Simbus
