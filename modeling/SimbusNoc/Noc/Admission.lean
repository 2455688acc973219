import SimbusNoc.Noc.Moves

/-!
# The admission of a packet to a node

The first half of `process_node`: the candidate is the oldest packet of its flow in an output
register or a send buffer in front of the node. It is delivered when it has reached its node, and
otherwise enters the pipeline when there is room.

## Doors

`Door` names the stages that a node takes packets from. A packet behind a door either is at the end
of its way, which is when the door is one of its own node, or has the pipeline of this node next.
`find_candidate` offers the front of a door, which is the oldest packet of its flow there, since a
stage keeps the order of each flow. `detach_candidate` takes it out, and then it is delivered or
pushed into the pipeline.

## Checks that never fail

Detaching looks up the register or the queue once more and requires that the packet is still there,
and delivery requires that the port of the packet is attached to the node. These checks hold since
nothing has changed in between and since the packet stands on its way.
-/

namespace Simbus

open Stages

namespace Bus

variable {b : Bus} {v : BusNodeT} {s : BusState}

/-! ## The candidate

The scans start at the pointers of the node, and what they find lies in front of the node: on an
edge that ends there, or in the send buffer of one of its ports. A candidate offers its first
packet.
-/

theorem scan_mem {α β : Type} {offer : α → Option β} {xs : List α} {n ptr q : ℕ} {x : α} {y : β}
    (h : scan offer xs n ptr = (q, some (x, y))) : x ∈ xs ∧ offer x = some y := by
  induction n generalizing ptr with
  | zero => simp [scan] at h
  | succ n ih =>
    rw [scan] at h
    split at h
    · simp at h
    · rename_i z hz
      split at h
      · rename_i w hw
        simp only [Prod.mk.injEq, Option.some.injEq] at h
        obtain ⟨-, rfl, rfl⟩ := h
        exact ⟨List.mem_of_getElem? hz, hw⟩
      · exact ih h

theorem firstOutput_eq_some {e : EdgeId} {c : ChannelT} {p : MsgPack}
    (h : b.firstOutput s e = some (c, p)) : (s.edges e).output c = some p := by
  obtain ⟨c', -, hc'⟩ := List.exists_of_findSome?_eq_some h
  simp only [Option.map_eq_some_iff, Prod.mk.injEq] at hc'
  obtain ⟨p', hp', rfl, rfl⟩ := hc'
  exact hp'

theorem firstQueued_eq_some {q : BusPortT} {c : ChannelT} {p : MsgPack}
    (h : b.firstQueued s q = some (c, p)) : ((s.ports q).sendBuf c).head? = some p := by
  obtain ⟨c', -, hc'⟩ := List.exists_of_findSome?_eq_some h
  simp only [Option.map_eq_some_iff, Prod.mk.injEq] at hc'
  obtain ⟨p', hp', rfl, rfl⟩ := hc'
  exact hp'

/-- The candidate stands at the front of a stage before node `v`. -/
def Candidate.Offered (b : Bus) (v : BusNodeT) (s : BusState) : Candidate → Prop
  | .none => True
  | .edgeOutput e c p => e ∈ b.rxs v ∧ (s.edges e).output c = some p
  | .portSend q c p => q ∈ b.nodePorts v ∧ ((s.ports q).sendBuf c).head? = some p

/-- `find_candidate` moves the two pointers of the node and offers a packet. -/
theorem findCandidate_spec (b : Bus) (v : BusNodeT) (s : BusState) :
    ∃ r q, (b.findCandidate v s).1 = s.setNode v { s.nodes v with rxPtr := r, sdPtr := q } ∧
      (b.findCandidate v s).2.Offered b v s := by
  rcases hscan : scan (b.firstOutput s) (b.rxs v) (b.rxs v).length (s.nodes v).rxPtr with
    ⟨ptr, _ | ⟨e, c, p⟩⟩
  · rcases hscan' : scan (b.firstQueued s) (b.nodePorts v) (b.nodePorts v).length
      (s.nodes v).sdPtr with ⟨q, _ | ⟨port, c, p⟩⟩
    · simp only [findCandidate, hscan, hscan']
      exact ⟨ptr, q, rfl, trivial⟩
    · obtain ⟨hmem, hoffer⟩ := scan_mem hscan'
      simp only [findCandidate, hscan, hscan']
      exact ⟨ptr, q, rfl, hmem, firstQueued_eq_some hoffer⟩
  · obtain ⟨hmem, hoffer⟩ := scan_mem hscan
    simp only [findCandidate, hscan]
    exact ⟨ptr, (s.nodes v).sdPtr, rfl, hmem, firstOutput_eq_some hoffer⟩

/-! ## In front of a node

`Door` are the stages from which a node takes packets. They are neighbours of the node's pipeline
on the way of any packet that they hold, unless the packet is for this node. A detached packet has
left its door and is nowhere else yet.
-/

/-- The stages a node takes packets from. -/
inductive Door (b : Bus) (v : BusNodeT) : Stage → Prop
  | output {e : EdgeId} (c : ChannelT) (he : e.2 = v) : Door b v (.output e c)
  | queue {q : BusPortT} (c : ChannelT) (hq : b.home q = v) : Door b v (.queue q c)

/-- After the door of its own node a packet is at the end of its way, and after the door of another
node comes that node's pipeline. -/
theorem Door.adjacent (hb : b.WellFormed) {f : Flow} (hf : b.KnownFlow f) {y : Stage}
    (hy : Door b v y) (hmem : y ∈ b.stages f) :
    (v = b.home f.dst → ∃ pre, b.stages f = pre ++ [y]) ∧
      (v ≠ b.home f.dst → ∃ pre suf, b.stages f = pre ++ y :: .pipe v :: suf) := by
  cases hy with
  | output c he =>
    subst he
    exact output_pipe_adjacent hb hf hmem
  | queue c hq =>
    subst hq
    obtain ⟨rfl, rfl⟩ := queue_mem_stages.mp hmem
    obtain ⟨hlast, hnext⟩ := queue_pipe_adjacent hb hf
    exact ⟨fun h ↦ ⟨[], hlast h⟩, fun h ↦ ⟨[], hnext h⟩⟩

theorem Door.ne_pipe {y : Stage} (hy : Door b v y) (u : BusNodeT) : y ≠ .pipe u := by
  cases hy <;> simp

/-- `s'` is `s` without the packet `p` at the front of stage `y`. -/
structure Detached (s s' : BusState) (y : Stage) (p : MsgPack) : Prop where
  front : s.contents y = p :: s'.contents y
  others : ∀ z, z ≠ y → s'.contents z = s.contents z
  recvBuf : ∀ q, (s'.ports q).recvBuf = (s.ports q).recvBuf
  pipeline : ∀ u, (s'.nodes u).pipeline = (s.nodes u).pipeline
  orderBuf : ∀ u, (s'.nodes u).orderBuf = (s.nodes u).orderBuf
  bufferedPackets : ∀ u, (s'.nodes u).bufferedPackets = (s.nodes u).bufferedPackets
  keeps : Keeps s s'

private theorem nodes_setNode_field {α : Type} (field : NodeStruct → α) {n : NodeStruct}
    (h : field n = field (s.nodes v)) (u : BusNodeT) :
    field ((s.setNode v n).nodes u) = field (s.nodes u) := by
  by_cases hu : u = v
  · subst hu
    rw [BusState.nodes_setNode_self, h]
  · rw [s.nodes_setNode_ne v n hu]

theorem detachCandidate_edge {e : EdgeId} {c : ChannelT} {p : MsgPack}
    (h : (s.edges e).output c = some p) :
    ∃ s', b.detachCandidate v s (.edgeOutput e c p) = .ok s' ∧ Detached s s' (.output e c) p := by
  set x : EdgeInChannel :=
    { s.edges e with output := Function.update (s.edges e).output c Option.none } with hx
  refine ⟨(s.setEdge e x).setNode v
    { s.nodes v with rxPtr := ((s.nodes v).rxPtr + 1) % (b.rxs v).length }, ?_, ?_⟩
  · simp [detachCandidate, h, bind, Except.bind, pure, Except.pure, hx]
  · have hne : ∀ z, z ≠ .output e c → (s.setEdge e x).contents z = s.contents z := by
      intro z hz
      cases z with
      | output f c' =>
        by_cases hf : f = e
        · subst hf
          have hc : c' ≠ c := fun hc ↦ hz (by rw [hc])
          simp [BusState.contents, hx, hc]
        · exact s.contents_setEdge e x fun c ↦ ⟨by simp, by simp [hf]⟩
      | input f c' =>
        by_cases hf : f = e
        · subst hf
          simp [BusState.contents, hx]
        · exact s.contents_setEdge e x fun c ↦ ⟨by simp [hf], by simp⟩
      | queue | pipe => exact s.contents_setEdge e x fun c ↦ ⟨by simp, by simp⟩
    exact {
      front := by simp [BusState.contents, h, hx]
      others := fun z hz ↦ by
        by_cases hp : z = .pipe v
        · subst hp
          simp [BusState.contents]
        · rw [BusState.contents_setNode _ _ _ hp, hne z hz]
      recvBuf := fun _ ↦ rfl
      pipeline := nodes_setNode_field (s := s) NodeStruct.pipeline rfl
      orderBuf := nodes_setNode_field (s := s) NodeStruct.orderBuf rfl
      bufferedPackets := nodes_setNode_field (s := s) NodeStruct.bufferedPackets rfl
      keeps := ⟨fun _ ↦ rfl, rfl, rfl, rfl⟩ }

theorem detachCandidate_port {q : BusPortT} {c : ChannelT} {p : MsgPack}
    (h : ((s.ports q).sendBuf c).head? = some p) :
    ∃ s', b.detachCandidate v s (.portSend q c p) = .ok s' ∧ Detached s s' (.queue q c) p := by
  set x : PortStruct := { s.ports q with
    sendBuf := Function.update (s.ports q).sendBuf c ((s.ports q).sendBuf c).tail } with hx
  refine ⟨(s.setPort q x).setNode v
    { s.nodes v with sdPtr := ((s.nodes v).sdPtr + 1) % (b.nodePorts v).length }, ?_, ?_⟩
  · simp [detachCandidate, h, bind, Except.bind, pure, Except.pure, hx]
  · have hne : ∀ z, z ≠ .queue q c → (s.setPort q x).contents z = s.contents z := by
      intro z hz
      cases z with
      | queue r c' =>
        by_cases hr : r = q
        · subst hr
          have hc : c' ≠ c := fun hc ↦ hz (by rw [hc])
          simp [BusState.contents, hx, hc]
        · exact s.contents_setPort q x fun c ↦ by simp [hr]
      | pipe | input | output => exact s.contents_setPort q x fun c ↦ by simp
    have hfield : ∀ {α : Type} (field : PortStruct → α), field x = field (s.ports q) →
        ∀ r, field ((s.setPort q x).ports r) = field (s.ports r) := by
      intro α field hfield r
      by_cases hr : r = q
      · subst hr
        rw [BusState.ports_setPort_self, hfield]
      · rw [s.ports_setPort_ne q x hr]
    exact {
      front := by
        simp only [BusState.contents, BusState.ports_setNode, BusState.ports_setPort_self, hx,
          Function.update_self]
        exact List.eq_cons_of_mem_head? h
      others := fun z hz ↦ by
        by_cases hp : z = .pipe v
        · subst hp
          simp [BusState.contents]
        · rw [BusState.contents_setNode _ _ _ hp, hne z hz]
      recvBuf := hfield PortStruct.recvBuf rfl
      pipeline := nodes_setNode_field (s := s) NodeStruct.pipeline rfl
      orderBuf := nodes_setNode_field (s := s) NodeStruct.orderBuf rfl
      bufferedPackets := nodes_setNode_field (s := s) NodeStruct.bufferedPackets rfl
      keeps := ⟨hfield PortStruct.reserved rfl, rfl, rfl, rfl⟩ }

/-! ## Delivery -/

theorem orderList_orderErase (buf : List (XmitIDT × List MsgPack)) (x y : XmitIDT) :
    orderList (orderErase buf x) y = if y = x then [] else orderList buf y := by
  induction buf with
  | nil => simp [orderList, orderErase]
  | cons a buf ih =>
    obtain ⟨k, l⟩ := a
    simp only [orderErase, orderList] at ih ⊢
    by_cases hk : k = x
    · subst hk
      rw [List.filter_cons_of_neg (by simp), ih]
      by_cases hy : y = k
      · simp [hy]
      · have : (y == k) = false := by simpa using hy
        simp [hy, List.lookup_cons, this]
    · rw [List.filter_cons_of_pos (by simpa using hk), List.lookup_cons, List.lookup_cons]
      by_cases hy : y = k
      · subst hy
        simp [hk]
      · have : (y == k) = false := by simpa using hy
        simp only [this]
        exact ih

theorem orderList_orderSet (buf : List (XmitIDT × List MsgPack)) (x y : XmitIDT)
    (l : List MsgPack) :
    orderList (orderSet buf x l) y = if y = x then l else orderList buf y := by
  by_cases hy : y = x
  · simp [orderList, orderSet, hy]
  · have hne : (y == x) = false := by simpa using hy
    have h := orderList_orderErase buf x y
    rw [if_neg hy] at h
    rw [if_neg hy, ← h]
    simp [orderList, orderSet, List.lookup_cons, hne]

/-- `s'` is `s` after the delivery of `p` at node `v`. -/
structure DeliveredAt (b : Bus) (v : BusNodeT) (p : MsgPack) (s s' : BusState) : Prop where
  contents : s'.contents = s.contents
  recvBuf : (s'.view b).recvBuf = ((s.view b).deliver v p).recvBuf
  order : (s'.view b).order = ((s.view b).deliver v p).order
  routers : ∀ u, b.RouterOk (s.nodes u) → b.RouterOk (s'.nodes u)
  keeps : Keeps s s'

private theorem routerOk_setNode_order {buf : List (XmitIDT × List MsgPack)}
    (hkeys : b.RouterOk (s.nodes v) → (buf.map Prod.fst).Nodup)
    (hfilled : b.RouterOk (s.nodes v) → ∀ e ∈ buf, e.2 ≠ []) (u : BusNodeT)
    (h : b.RouterOk (s.nodes u)) :
    b.RouterOk ((s.setNode v { s.nodes v with orderBuf := buf }).nodes u) := by
  by_cases hu : u = v
  · subst hu
    rw [BusState.nodes_setNode_self]
    exact ⟨h.sorted, h.aged, h.buffered, hkeys h, hfilled h⟩
  · rwa [s.nodes_setNode_ne v _ hu]

theorem keys_orderErase {buf : List (XmitIDT × List MsgPack)} (x : XmitIDT)
    (h : (buf.map Prod.fst).Nodup) :
    ((orderErase buf x).map Prod.fst).Nodup ∧ x ∉ (orderErase buf x).map Prod.fst := by
  refine ⟨h.sublist (List.filter_sublist.map _), fun hmem ↦ ?_⟩
  obtain ⟨e, he, rfl⟩ := List.mem_map.mp hmem
  simpa using (List.mem_filter.mp he).2

theorem filled_orderErase {buf : List (XmitIDT × List MsgPack)} (x : XmitIDT)
    (h : ∀ e ∈ buf, e.2 ≠ []) : ∀ e ∈ orderErase buf x, e.2 ≠ [] :=
  fun e he ↦ h e (List.mem_filter.mp he).1

private theorem ports_setPort_field {α : Type} (field : PortStruct → α) {q : BusPortT}
    {x : PortStruct} (h : field x = field (s.ports q)) (r : BusPortT) :
    field ((s.setPort q x).ports r) = field (s.ports r) := by
  by_cases hr : r = q
  · subst hr
    rw [BusState.ports_setPort_self, h]
  · rw [s.ports_setPort_ne q x hr]

private theorem contents_setPort_field {q : BusPortT} {x : PortStruct}
    (h : x.sendBuf = (s.ports q).sendBuf) : (s.setPort q x).contents = s.contents := by
  funext y
  cases y with
  | queue r c => exact congrFun (ports_setPort_field PortStruct.sendBuf h r) c
  | pipe | input | output => rfl

private theorem contents_setNode_field {n : NodeStruct}
    (h : n.pipeline = (s.nodes v).pipeline) : (s.setNode v n).contents = s.contents := by
  funext y
  cases y with
  | pipe u =>
    exact congrArg (List.map PipelinedPack.pack) (nodes_setNode_field NodeStruct.pipeline h u)
  | queue | input | output => rfl

private theorem recvBuf_setPort_append {q : BusPortT} {c : ChannelT} {l : List MsgPack} :
    ((s.setPort q { s.ports q with
      recvBuf := Function.update (s.ports q).recvBuf c ((s.ports q).recvBuf c ++ l) }).view
        b).recvBuf = ((s.view b).append q c l).recvBuf := by
  funext r d
  by_cases hr : r = q
  · subst hr
    simp [BusState.view, View.append]
  · simp [BusState.view, View.append, s.ports_setPort_ne _ _ hr, hr]

private theorem order_setNode {buf : List (XmitIDT × List MsgPack)} {x : XmitIDT}
    {l : List MsgPack} (h : ∀ y, orderList buf y = if y = x then l else
      orderList (s.nodes v).orderBuf y) :
    ((s.setNode v { s.nodes v with orderBuf := buf }).view b).order =
      ((s.view b).setOrder v x l).order := by
  funext u y
  by_cases hu : u = v
  · subst hu
    by_cases hy : y = x
    · simp [BusState.view, View.setOrder, h, hy]
    · simp [BusState.view, View.setOrder, h, hy]
  · simp [BusState.view, View.setOrder, s.nodes_setNode_ne _ _ hu, hu]

theorem deliverToLocalPort_spec {p : MsgPack} (h : p.dst ∈ b.nodePorts v) :
    ∃ s', b.deliverToLocalPort v s p = .ok s' ∧ DeliveredAt b v p s s' := by
  have hreq : require ((b.nodePorts v).contains p.dst)
      s!"destination port {p.dst} is not attached to node {v}" = .ok () := by
    simp [require, h]
  unfold deliverToLocalPort
  rw [hreq]
  -- A single packet, the packet that completes its order list, and one that does not.
  by_cases hone : p.pacCnt ≤ 1
  · refine ⟨_, by simp only [if_pos hone]; rfl, ?_, ?_, ?_, ?_, ?_⟩
    · exact contents_setPort_field rfl
    · rw [recvBuf_setPort_append, View.deliver, if_pos hone]
    · rw [View.deliver, if_pos hone]
      rfl
    · exact fun _ ↦ id
    · exact ⟨ports_setPort_field PortStruct.reserved rfl, rfl, rfl, rfl⟩
  · by_cases hwhole : (orderInsert p (orderList (s.nodes v).orderBuf p.xmtid)).length = p.pacCnt
    · have hwhole' : (orderInsert p ((s.view b).order v p.xmtid)).length = p.pacCnt := hwhole
      refine ⟨_, by simp only [if_neg hone, if_pos hwhole]; rfl, ?_, ?_, ?_, ?_, ?_⟩
      · rw [contents_setNode_field (by rfl), contents_setPort_field (by rfl)]
      · rw [View.deliver, if_neg hone, if_pos hwhole']
        exact recvBuf_setPort_append
      · rw [View.deliver, if_neg hone, if_pos hwhole']
        exact order_setNode (s := s.setPort _ _) fun y ↦ orderList_orderErase _ _ y
      · exact routerOk_setNode_order (s := s.setPort _ _)
          (fun h ↦ (keys_orderErase p.xmtid h.keys).1) (fun h ↦ filled_orderErase p.xmtid h.filled)
      · exact ⟨ports_setPort_field PortStruct.reserved rfl, rfl, rfl, rfl⟩
    · have hwhole' : ¬(orderInsert p ((s.view b).order v p.xmtid)).length = p.pacCnt := hwhole
      refine ⟨_, by simp only [if_neg hone, if_neg hwhole]; rfl, ?_, ?_, ?_, ?_, ?_⟩
      · exact contents_setNode_field rfl
      · rw [View.deliver, if_neg hone, if_neg hwhole']
        rfl
      · rw [View.deliver, if_neg hone, if_neg hwhole']
        exact order_setNode fun y ↦ orderList_orderSet _ _ y _
      · refine routerOk_setNode_order (fun h ↦ ?_) fun h e he ↦ ?_
        · obtain ⟨hnodup, hnot⟩ := keys_orderErase p.xmtid h.keys
          exact List.nodup_cons.mpr ⟨hnot, hnodup⟩
        · rcases List.mem_cons.mp he with rfl | he
          · exact List.ne_nil_of_mem (mem_orderInsert.mpr (.inl rfl))
          · exact filled_orderErase p.xmtid h.filled e he
      · exact ⟨fun _ ↦ rfl, rfl, rfl, rfl⟩

/-! ## The first half of `process_node`

A packet that is admitted either joins the pipeline, behind all others, or has reached its node.
What is refused goes back to where it was.
-/

theorem canAcceptForwardPacket_iff {n : NodeStruct} : b.canAcceptForwardPacket n = true ↔
    (b.config.congestion.enabled → n.bufferedPackets < b.config.congestion.nodeBufferLimit) := by
  cases h : b.config.congestion.enabled <;> simp [canAcceptForwardPacket, h]

/-- A router that has taken in one more packet, behind all the others. -/
theorem RouterOk.push {n n' : NodeStruct} (hn : b.RouterOk n) {p : MsgPack}
    (hroom : b.canAcceptForwardPacket n = true)
    (hpipe : n'.pipeline = n.pipeline ++ [⟨p, b.routeLatency⟩])
    (hbuf : b.config.congestion.enabled → n'.bufferedPackets = n.bufferedPackets + 1)
    (horder : n'.orderBuf = n.orderBuf) : b.RouterOk n' := by
  refine ⟨?_, fun i hi ↦ ?_, fun hen ↦ ?_, horder ▸ hn.keys, horder ▸ hn.filled⟩
  · rw [hpipe]
    refine List.pairwise_append.mpr ⟨hn.sorted, List.pairwise_singleton _ _, fun i hi j hj ↦ ?_⟩
    rw [List.mem_singleton.mp hj]
    exact hn.aged i hi
  · rw [hpipe] at hi
    rcases List.mem_append.mp hi with hi | hi
    · exact hn.aged i hi
    · rw [List.mem_singleton.mp hi]
  · obtain ⟨heq, hle⟩ := hn.buffered hen
    have hlt := canAcceptForwardPacket_iff.mp hroom hen
    rw [hbuf hen, hpipe, List.length_append, List.length_singleton]
    omega

theorem admitCandidate_spec (hb : b.WellFormed) (hs : b.Placed s) {s₁ : BusState} {y : Stage}
    {p : MsgPack} (hdet : Detached s s₁ y p) (hy : Door b v y)
    (hacc : b.canAcceptCandidate v (s.nodes v) p = true) :
    ∃ s', b.admitCandidate v s₁ p = .ok s' ∧ Evolves b s s' := by
  have hmem : p ∈ s.contents y := by simp [hdet.front]
  have hp := hs.packs y p hmem
  obtain ⟨hlast, hnext⟩ := hy.adjacent hb hp.flow (hs.located y p hmem)
  have hfirst : ∃ l r, s.contents y = l ++ p :: r ∧ (∀ q ∈ l, q.flow ≠ p.flow) ∧
      s₁.contents y = l ++ r := ⟨[], s₁.contents y, hdet.front, by simp, rfl⟩
  have hrouters₁ : ∀ u, b.RouterOk (s₁.nodes u) := fun u ↦
    (hs.routers u).congr (hdet.pipeline u) (hdet.orderBuf u) (hdet.bufferedPackets u)
  -- A packet at its node is delivered; any other goes into the pipeline.
  by_cases htgt : p.tgt = v
  · have hv : v = b.home p.dst := htgt ▸ hp.tgt
    obtain ⟨s₂, hs₂, hdel⟩ := deliverToLocalPort_spec (b := b) (v := v) (s := s₁) (p := p)
      ((hb.mem_ports v p.dst).mpr ⟨hp.flow.dst, hv.symm⟩)
    have hview := (s.view b).deliver_congr v (s₁.view b)
      (funext fun q ↦ hdet.recvBuf q) (funext fun u ↦ funext fun x ↦
        congrArg (orderList · x) (hdet.orderBuf u)) p
    have hevolves : Evolves b s s₂ := Evolves.of_pop hb hs
      { last := hlast hv
        first := hdel.contents ▸ hfirst
        others := fun z hz ↦ by rw [hdel.contents]; exact hdet.others z hz }
      (fun u ↦ hdel.routers u (hrouters₁ u))
      (hv ▸ hdel.recvBuf.trans hview.1) (hv ▸ hdel.order.trans hview.2)
      (hdet.keeps.trans hdel.keeps)
    refine ⟨_, ?_, hevolves.trans (.of_setNode hevolves.placed (v := v)
      (n := { s₂.nodes v with passedPacks := (s₂.nodes v).passedPacks + 1 }) rfl rfl rfl)⟩
    rw [admitCandidate, if_pos htgt, hs₂]
    rfl
  · have hv : v ≠ b.home p.dst := fun hv ↦ htgt (hp.tgt.trans hv.symm)
    rw [canAcceptCandidate, if_neg htgt] at hacc
    refine ⟨_, by rw [admitCandidate, if_neg htgt], ?_⟩
    have hne : y ≠ .pipe v := hy.ne_pipe v
    refine Evolves.of_shift hb hs (y := y) (x := .pipe v) (p := p) ?_ (fun u ↦ ?_) hdet.recvBuf
      (fun u ↦ ?_) ?_
    · exact {
        adjacent := hnext hv
        first := by rw [BusState.contents_setNode _ _ _ hne]; exact hfirst
        target := by
          have hpipe := hdet.others (.pipe v) hne.symm
          simp only [BusState.contents] at hpipe ⊢
          simp [hpipe]
        others := fun z hzx hzy ↦ by
          rw [BusState.contents_setNode _ _ _ hzx]
          exact hdet.others z hzy }
    · by_cases hu : u = v
      · subst hu
        rw [BusState.nodes_setNode_self]
        refine (hrouters₁ u).push ?_ rfl (fun hen ↦ if_pos hen) rfl
        rw [canAcceptForwardPacket_iff] at hacc ⊢
        rwa [hdet.bufferedPackets u]
      · rw [BusState.nodes_setNode_ne _ _ _ hu]
        exact hrouters₁ u
    · rw [← hdet.orderBuf u]
      exact nodes_setNode_field (s := s₁) NodeStruct.orderBuf (by rfl) u
    · exact ⟨hdet.keeps.reserved, hdet.keeps.xmtidAlloc, hdet.keeps.accepted,
        hdet.keeps.currentTick⟩

theorem admitPhase_spec (hb : b.WellFormed) (hs : b.Placed s) :
    ∃ s' busy, b.admitPhase v s = .ok (s', busy) ∧ Evolves b s s' := by
  obtain ⟨r, q, hs₁, hoffer⟩ := findCandidate_spec b v s
  have hevolves : Evolves b s (b.findCandidate v s).1 := by
    rw [hs₁]
    exact .of_setNode hs rfl rfl rfl
  rcases hfind : b.findCandidate v s with ⟨s₁, cand⟩
  rw [hfind] at hevolves hs₁ hoffer
  dsimp only at hevolves hs₁ hoffer
  have hblocked : Evolves b s (s₁.setNode v
      { s₁.nodes v with blockedCycles := (s₁.nodes v).blockedCycles + 1 }) :=
    hevolves.trans (.of_setNode hevolves.placed rfl rfl rfl)
  cases cand with
  | none => exact ⟨s₁, false, by simp only [admitPhase, hfind], hevolves⟩
  | edgeOutput e c p =>
    obtain ⟨he, hout⟩ := hoffer
    have hout₁ : (s₁.edges e).output c = some p := by rw [hs₁]; exact hout
    by_cases hacc : b.canAcceptCandidate v (s₁.nodes v) p = true
    · obtain ⟨s₂, hs₂, hdet⟩ := detachCandidate_edge (b := b) (v := v) hout₁
      obtain ⟨s₃, hs₃, hev⟩ := admitCandidate_spec hb hevolves.placed hdet
        (.output c (by simpa [rxs] using (List.mem_filter.mp he).2)) hacc
      exact ⟨s₃, true, by simp [admitPhase, hfind, hacc, hs₂, hs₃, bind, Except.bind, pure,
        Except.pure], hevolves.trans hev⟩
    · exact ⟨_, true, by simp only [admitPhase, hfind]; rw [if_neg hacc], hblocked⟩
  | portSend q' c p =>
    obtain ⟨hq, hhead⟩ := hoffer
    have hhead₁ : ((s₁.ports q').sendBuf c).head? = some p := by rw [hs₁]; exact hhead
    by_cases hacc : b.canAcceptCandidate v (s₁.nodes v) p = true
    · obtain ⟨s₂, hs₂, hdet⟩ := detachCandidate_port (b := b) (v := v) hhead₁
      obtain ⟨s₃, hs₃, hev⟩ := admitCandidate_spec hb hevolves.placed hdet
        (.queue c ((hb.mem_ports v q').mp hq).2) hacc
      exact ⟨s₃, true, by simp [admitPhase, hfind, hacc, hs₂, hs₃, bind, Except.bind, pure,
        Except.pure], hevolves.trans hev⟩
    · exact ⟨_, true, by simp only [admitPhase, hfind]; rw [if_neg hacc], hblocked⟩

end Bus

end Simbus
