import SimbusNoc.Noc.Delivery
import Mathlib.Logic.Relation

/-!
# Moves inside a tick

A tick is a sequence of small changes of the state. Each either moves one packet to the next stage
of its way, or takes one packet out at its destination node, or changes counters and pointers only.
`Evolves` collects such changes: the view changes only by arrivals, every packet stays on its way,
and the routers stay within their limits.

## The invariant

`Placed` is what a state has to satisfy for a tick to go through without an exception: every packet
stands in a stage of its own way and is addressed to the node of its port, and every router keeps
its pipeline sorted by the cycles that remain and counts its buffered packets right. Every change
that is collected here keeps it.

## One relation for all changes

Each function of the tick is shown to be an `Evolves`, by one of four rules that say what kind of
change it makes. After that a whole tick is one `Evolves` by transitivity, and everything that is
to be known of a tick for the messages, for the work that is left and for the fields that stay is
read off that one relation.
-/

namespace Simbus

open Stages

/-! ## Fields of an updated state -/

namespace BusState

variable (s : BusState) (v : BusNodeT) (n : NodeStruct) (p : BusPortT) (q : PortStruct) (e : EdgeId)
  (x : EdgeInChannel) (c : ChannelT)

@[simp] theorem nodes_setNode_self : (s.setNode v n).nodes v = n := by simp [setNode]

@[simp] theorem nodes_setPort : (s.setPort p q).nodes = s.nodes := rfl

@[simp] theorem nodes_setEdge : (s.setEdge e x).nodes = s.nodes := rfl

@[simp] theorem ports_setNode : (s.setNode v n).ports = s.ports := rfl

@[simp] theorem ports_setPort_self : (s.setPort p q).ports p = q := by simp [setPort]

@[simp] theorem ports_setEdge : (s.setEdge e x).ports = s.ports := rfl

@[simp] theorem edges_setNode : (s.setNode v n).edges = s.edges := rfl

@[simp] theorem edges_setPort : (s.setPort p q).edges = s.edges := rfl

@[simp] theorem edges_setEdge_self : (s.setEdge e x).edges e = x := by simp [setEdge]

theorem nodes_setNode_ne {u : BusNodeT} (h : u ≠ v) : (s.setNode v n).nodes u = s.nodes u := by
  simp [setNode, h]

theorem ports_setPort_ne {r : BusPortT} (h : r ≠ p) : (s.setPort p q).ports r = s.ports r := by
  simp [setPort, h]

theorem edges_setEdge_ne {f : EdgeId} (h : f ≠ e) : (s.setEdge e x).edges f = s.edges f := by
  simp [setEdge, h]

@[simp] theorem setNode_setNode (n' : NodeStruct) :
    (s.setNode v n).setNode v n' = s.setNode v n' := by
  simp [setNode]

@[simp] theorem setNode_self : s.setNode v (s.nodes v) = s := by simp [setNode]

@[simp] theorem setEdge_self : s.setEdge e (s.edges e) = s := by simp [setEdge]

theorem contents_setNode {y : Stage} (h : y ≠ .pipe v) :
    (s.setNode v n).contents y = s.contents y := by
  cases y with
  | pipe u =>
    have hu : u ≠ v := fun hu ↦ h (by rw [hu])
    simp [contents, nodes_setNode_ne _ _ _ hu]
  | queue | input | output => rfl

theorem contents_setPort {y : Stage} (h : ∀ c, y ≠ .queue p c) :
    (s.setPort p q).contents y = s.contents y := by
  cases y with
  | queue r c =>
    have hr : r ≠ p := fun hr ↦ h c (by rw [hr])
    simp [contents, ports_setPort_ne _ _ _ hr]
  | pipe | input | output => rfl

theorem contents_setEdge {y : Stage} (h : ∀ c, y ≠ .input e c ∧ y ≠ .output e c) :
    (s.setEdge e x).contents y = s.contents y := by
  cases y with
  | input f c =>
    have hf : f ≠ e := fun hf ↦ (h c).1 (by rw [hf])
    simp [contents, edges_setEdge_ne _ _ _ hf]
  | output f c =>
    have hf : f ≠ e := fun hf ↦ (h c).2 (by rw [hf])
    simp [contents, edges_setEdge_ne _ _ _ hf]
  | queue | pipe => rfl

end BusState

/-! ## Places -/

/-- The packet belongs to a flow between attached ports and is addressed to its node. -/
structure Bus.PackOk (b : Bus) (p : MsgPack) : Prop where
  flow : b.KnownFlow p.flow
  tgt : p.tgt = b.home p.dst
  cha : p.cha < b.chaCnt

/-- A router keeps its packets in the order in which they become due, and counts them. Its order
buffer maps each transmission id once, and to at least one packet. -/
structure Bus.RouterOk (b : Bus) (n : NodeStruct) : Prop where
  sorted : n.pipeline.Pairwise fun i j ↦ i.cycleRemained ≤ j.cycleRemained
  aged : ∀ i ∈ n.pipeline, i.cycleRemained ≤ b.routeLatency
  buffered : b.config.congestion.enabled → n.bufferedPackets = n.pipeline.length ∧
    n.pipeline.length ≤ b.config.congestion.nodeBufferLimit
  keys : (n.orderBuf.map Prod.fst).Nodup
  filled : ∀ e ∈ n.orderBuf, e.2 ≠ []

/-- The router is still in order when the fields it depends on are the same. -/
theorem Bus.RouterOk.congr {b : Bus} {n n' : NodeStruct} (h : b.RouterOk n)
    (hpipe : n'.pipeline = n.pipeline) (horder : n'.orderBuf = n.orderBuf)
    (hbuf : n'.bufferedPackets = n.bufferedPackets) : b.RouterOk n' := by
  obtain ⟨hsorted, haged, hbuffered, hkeys, hfilled⟩ := h
  rw [← hpipe] at hsorted haged hbuffered
  rw [← hbuf] at hbuffered
  rw [← horder] at hkeys hfilled
  exact ⟨hsorted, haged, hbuffered, hkeys, hfilled⟩

/-- Every packet stands on its way, and every router is in order. -/
structure Bus.Placed (b : Bus) (s : BusState) : Prop where
  located : Located MsgPack.flow b.stages s.contents
  packs : ∀ y, ∀ p ∈ s.contents y, b.PackOk p
  routers : ∀ v, b.RouterOk (s.nodes v)

theorem Bus.Placed.mem_allStages {b : Bus} {s : BusState} (h : b.Placed s) (hb : b.WellFormed)
    {y : Stage} {p : MsgPack} (hp : p ∈ s.contents y) : y ∈ b.allStages :=
  Bus.mem_allStages_of_mem hb (h.packs y p hp).flow (h.packs y p hp).cha (h.located y p hp)

/-! ## Changes

`Evolves` is the common specification of all parts of a tick: which moves have been made, with the
work that is left, and that nothing else has happened. One lemma for each kind of change connects
the state of the source with the moves.
-/

/-- What no step of a tick touches. -/
structure Keeps (s s' : BusState) : Prop where
  reserved : ∀ p, (s'.ports p).reserved = (s.ports p).reserved
  xmtidAlloc : s'.xmtidAlloc = s.xmtidAlloc
  accepted : s'.accepted = s.accepted
  currentTick : s'.currentTick = s.currentTick

theorem Keeps.refl (s : BusState) : Keeps s s := ⟨fun _ ↦ rfl, rfl, rfl, rfl⟩

theorem Keeps.trans {s s' s'' : BusState} (h : Keeps s s') (h' : Keeps s' s'') : Keeps s s'' :=
  ⟨fun p ↦ (h'.reserved p).trans (h.reserved p), h'.xmtidAlloc.trans h.xmtidAlloc,
    h'.accepted.trans h.accepted, h'.currentTick.trans h.currentTick⟩

/-- One packet reaches its node. -/
def Arrive (b : Bus) (w w' : View) : Prop :=
  ∃ p t, w.travel p.flow = p :: t ∧ w' = (w.setTravel p.flow t).deliver (b.home p.dst) p

/-- The moves left to all packets on their way. -/
def Bus.work (b : Bus) (s : BusState) : ℕ :=
  Stages.work MsgPack.flow b.stages b.allStages.toFinset s.contents

/-- The state goes on to another by moves of packets. -/
structure Evolves (b : Bus) (s s' : BusState) : Prop where
  placed : b.Placed s'
  work : s'.contents = s.contents ∨ b.work s' < b.work s
  arrivals : Relation.ReflTransGen (Arrive b) (s.view b) (s'.view b)
  keeps : Keeps s s'

namespace Evolves

variable {b : Bus} {s s' : BusState}

theorem refl (h : b.Placed s) : Evolves b s s := ⟨h, .inl rfl, .refl, .refl s⟩

theorem work_le (h : Evolves b s s') : b.work s' ≤ b.work s := by
  rcases h.work with heq | hlt
  · rw [Bus.work, Bus.work, heq]
  · exact hlt.le

theorem trans {s'' : BusState} (h : Evolves b s s') (h' : Evolves b s' s'') : Evolves b s s'' := by
  refine ⟨h'.placed, ?_, h.arrivals.trans h'.arrivals, h.keeps.trans h'.keeps⟩
  rcases h.work with heq | hlt
  · rcases h'.work with heq' | hlt'
    · exact .inl (heq'.trans heq)
    · exact .inr (hlt'.trans_le h.work_le)
  · exact .inr (h'.work_le.trans_lt hlt)

/-- Moves that end where they began have moved nothing on the way. -/
theorem contents_eq {s'' : BusState} (h : Evolves b s s') (h' : Evolves b s' s'')
    (heq : s''.contents = s.contents) : s'.contents = s.contents := by
  refine h.work.resolve_right fun hlt ↦ ?_
  have hle := h'.work_le
  rw [Bus.work, heq] at hle
  exact absurd hlt (Nat.not_lt.mpr hle)

/-- Counters, pointers and ages change, and no packet moves. -/
theorem of_contents (h : b.Placed s) (hcontents : s'.contents = s.contents)
    (hrouters : ∀ v, b.RouterOk (s'.nodes v))
    (hrecv : ∀ p, (s'.ports p).recvBuf = (s.ports p).recvBuf)
    (horder : ∀ v, (s'.nodes v).orderBuf = (s.nodes v).orderBuf) (hkeeps : Keeps s s') :
    Evolves b s s' := by
  have hview : s'.view b = s.view b := by
    simp only [BusState.view, hcontents, hrecv, horder]
  refine ⟨⟨?_, ?_, hrouters⟩, .inl hcontents, by rw [hview], hkeeps⟩
  · rw [hcontents]
    exact h.located
  · rw [hcontents]
    exact h.packs

/-- A node's pipeline and order buffer stay, and its other fields change. -/
theorem of_setNode (h : b.Placed s) {v : BusNodeT} {n : NodeStruct}
    (hpipe : n.pipeline = (s.nodes v).pipeline) (horder : n.orderBuf = (s.nodes v).orderBuf)
    (hbuf : n.bufferedPackets = (s.nodes v).bufferedPackets) : Evolves b s (s.setNode v n) := by
  refine of_contents h (funext fun y ↦ ?_) (fun u ↦ ?_) (fun _ ↦ rfl) (fun u ↦ ?_)
    ⟨fun _ ↦ rfl, rfl, rfl, rfl⟩
  · by_cases hy : y = .pipe v
    · subst hy
      simp [BusState.contents, hpipe]
    · exact s.contents_setNode v n hy
  · by_cases hu : u = v
    · subst hu
      rw [BusState.nodes_setNode_self]
      exact (h.routers u).congr hpipe horder hbuf
    · rw [s.nodes_setNode_ne v n hu]
      exact h.routers u
  · by_cases hu : u = v
    · subst hu
      rw [BusState.nodes_setNode_self, horder]
    · rw [s.nodes_setNode_ne v n hu]

theorem of_shift (hb : b.WellFormed) (h : b.Placed s) {y x : Stage} {p : MsgPack}
    (hshift : Shift MsgPack.flow b.stages s.contents s'.contents y x p)
    (hrouters : ∀ v, b.RouterOk (s'.nodes v))
    (hrecv : ∀ p, (s'.ports p).recvBuf = (s.ports p).recvBuf)
    (horder : ∀ v, (s'.nodes v).orderBuf = (s.nodes v).orderBuf) (hkeeps : Keeps s s') :
    Evolves b s s' := by
  obtain ⟨l, r, hy, -, hy'⟩ := hshift.first
  have hp : b.PackOk p := h.packs y p (by simp [hy])
  have hview : s'.view b = s.view b := by
    have htravel : inTransit MsgPack.flow b.stages s'.contents =
        inTransit MsgPack.flow b.stages s.contents :=
      funext fun f ↦ hshift.inTransit_eq (Bus.stages_nodup hb hp.flow) f
    simp only [BusState.view, htravel, hrecv, horder]
  have hroute : y ∈ b.stages p.flow ∧ x ∈ b.stages p.flow := by
    obtain ⟨pre, suf, hr⟩ := hshift.adjacent
    simp [hr]
  have hmem : ∀ z ∈ b.stages p.flow, z ∈ b.allStages.toFinset := fun z hz ↦
    List.mem_toFinset.mpr (Bus.mem_allStages_of_mem hb hp.flow hp.cha hz)
  refine ⟨⟨hshift.located h.located, fun z q hq ↦ ?_, hrouters⟩, .inr (hshift.work_lt
    (Bus.stages_nodup hb hp.flow) (hmem y hroute.1) (hmem x hroute.2)), by rw [hview], hkeeps⟩
  by_cases hzx : z = x
  · subst hzx
    rw [hshift.target] at hq
    rcases List.mem_append.mp hq with hq | hq
    · exact h.packs z q hq
    · rwa [List.mem_singleton.mp hq]
  · by_cases hzy : z = y
    · subst hzy
      rw [hy'] at hq
      refine h.packs z q ?_
      rw [hy]
      rcases List.mem_append.mp hq with hq | hq <;> simp [hq]
    · exact h.packs z q (hshift.others z hzx hzy ▸ hq)

theorem of_pop (hb : b.WellFormed) (h : b.Placed s) {y : Stage} {p : MsgPack}
    (hpop : Pop MsgPack.flow b.stages s.contents s'.contents y p)
    (hrouters : ∀ v, b.RouterOk (s'.nodes v))
    (hrecv : (s'.view b).recvBuf = ((s.view b).deliver (b.home p.dst) p).recvBuf)
    (horder : (s'.view b).order = ((s.view b).deliver (b.home p.dst) p).order)
    (hkeeps : Keeps s s') : Evolves b s s' := by
  obtain ⟨l, r, hy, -, hy'⟩ := hpop.first
  have hp : b.PackOk p := h.packs y p (by simp [hy])
  have hmem : y ∈ b.allStages.toFinset := List.mem_toFinset.mpr
    (Bus.mem_allStages_of_mem hb hp.flow hp.cha (h.located y p (by simp [hy])))
  refine ⟨⟨hpop.located h.located, fun z q hq ↦ ?_, hrouters⟩, .inr (hpop.work_lt hmem),
    .single ⟨p, _, hpop.inTransit_self (Bus.stages_nodup hb hp.flow), ?_⟩, hkeeps⟩
  · by_cases hzy : z = y
    · subst hzy
      rw [hy'] at hq
      refine h.packs z q ?_
      rw [hy]
      rcases List.mem_append.mp hq with hq | hq <;> simp [hq]
    · exact h.packs z q (hpop.others z hzy ▸ hq)
  · rw [View.deliver_setTravel]
    refine View.ext (funext fun f ↦ ?_) hrecv horder
    by_cases hf : f = p.flow
    · subst hf
      rw [View.travel_setTravel_self]
      rfl
    · rw [View.travel_setTravel_ne _ _ _ hf, View.travel_deliver]
      exact hpop.inTransit_other hf

end Evolves

end Simbus
