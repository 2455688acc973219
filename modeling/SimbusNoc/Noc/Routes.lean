import SimbusNoc.Library.Stages
import SimbusNoc.Noc.WellFormed

/-!
# The way of a flow through the network

A flow is a source port, a destination port and a channel. All its packets take the same way: the
send buffer, then for every router between the two nodes its pipeline and the two registers of the
next edge. The way is read off the route table, and the checks of the constructor make it free of
repetitions.

## Stages

`Stage` names the places where a packet waits to move on, and `contents` gives the packets in each
of them. The order list and the receive buffer of the destination are no stages: a packet that has
reached its node does not move on, and what becomes of it there is the business of reassembly.

The stages of a flow are a list without repetitions (`stages_nodup`), because the route has none.
Two stages next to each other in this list are joined by one kind of move, and the last part has a
lemma for each: from the pipeline into a register, through the edge, out of the edge into the next
pipeline, and out of the send buffer. A packet in the last register or in the send buffer of a port
at its own node has arrived.
-/

namespace Simbus

open Stages

namespace Bus

variable (b : Bus)

/-! ## Flows and stages

The way of a flow is a list of stages, from the send buffer at its source to the last link.
-/

/-- The next node from `v` towards `d`, and `v` itself where the table has none. -/
def nextNode (v d : BusNodeT) : BusNodeT := (b.route.find? v d).getD v

/-- The nodes from `v` on towards `d`, at most `n` of them. -/
def pathFrom (d : BusNodeT) : ℕ → BusNodeT → List BusNodeT
  | 0, _ => []
  | n + 1, v => if v = d then [] else v :: pathFrom d n (b.nextNode v d)

/-- The nodes from `v` to `d`, without `d`. -/
def path (v d : BusNodeT) : List BusNodeT := b.pathFrom d (b.nodeIds.length + 1) v

theorem pathFrom_eq {d v : BusNodeT} {l : List BusNodeT} (h : RouteTo b.route d v l) :
    ∀ {n : ℕ}, l.length ≤ n → b.pathFrom d n v = l := by
  induction h with
  | arrived => intro n _; cases n <;> simp [pathFrom]
  | @hop v w l hv hw _ _ ih =>
    intro n hn
    cases n with
    | zero => simp at hn
    | succ n =>
      have hnext : b.nextNode v d = w := by rw [nextNode, hw, Option.getD_some]
      rw [pathFrom, if_neg hv, hnext, ih (by simpa using hn)]

end Bus

/-- A source port, a destination port and a channel. -/
structure Flow where
  src : BusPortT
  dst : BusPortT
  cha : ChannelT
  deriving DecidableEq

def MsgPack.flow (p : MsgPack) : Flow := ⟨p.src, p.dst, p.cha⟩

/-- A place where packets wait to move on. -/
inductive Stage
  | queue (port : BusPortT) (channel : ChannelT)
  | pipe (node : BusNodeT)
  | input (edge : EdgeId) (channel : ChannelT)
  | output (edge : EdgeId) (channel : ChannelT)
  deriving DecidableEq

/-- The packets in each stage. -/
def BusState.contents (s : BusState) : Stage → List MsgPack
  | .queue p c => (s.ports p).sendBuf c
  | .pipe v => (s.nodes v).pipeline.map PipelinedPack.pack
  | .input e c => ((s.edges e).input c).toList
  | .output e c => ((s.edges e).output c).toList

namespace Bus

variable (b : Bus)

/-- The stages of the hop from `u` towards `d`. -/
def leg (d : BusNodeT) (c : ChannelT) (u : BusNodeT) : List Stage :=
  [.pipe u, .input (u, b.nextNode u d) c, .output (u, b.nextNode u d) c]

/-- The stages of a flow, from the send buffer to the last register before the destination. -/
def stages (f : Flow) : List Stage :=
  .queue f.src f.cha ::
    (b.path (b.home f.src) (b.home f.dst)).flatMap (b.leg (b.home f.dst) f.cha)

/-- The stages of a bus: the send buffers, the pipelines and the registers of the edges. -/
def allStages : List Stage :=
  ((b.port2node.map Prod.fst).flatMap fun p ↦ (List.range b.chaCnt).map fun c ↦ .queue p c) ++
    b.nodeIds.map .pipe ++
    b.edgeIds.flatMap fun e ↦
      (List.range b.chaCnt).flatMap fun c ↦ [.input e c, .output e c]

/-- The ports of a flow are attached. -/
structure KnownFlow (f : Flow) : Prop where
  src : b.knownPort f.src = true
  dst : b.knownPort f.dst = true

variable {b} {f : Flow}

theorem path_routeTo (hb : b.WellFormed) (hf : b.KnownFlow f) :
    RouteTo b.route (b.home f.dst) (b.home f.src) (b.path (b.home f.src) (b.home f.dst)) := by
  obtain ⟨l, hl, hlen, -⟩ := hb.routed _ (hb.home_mem _ hf.src) _ (hb.home_mem _ hf.dst)
  rwa [path, b.pathFrom_eq hl hlen]

theorem path_mem_nodes (hb : b.WellFormed) (hf : b.KnownFlow f) {v : BusNodeT}
    (hv : v ∈ b.path (b.home f.src) (b.home f.dst)) : v ∈ b.nodeIds := by
  obtain ⟨l, hl, hlen, hmem⟩ := hb.routed _ (hb.home_mem _ hf.src) _ (hb.home_mem _ hf.dst)
  rw [path, b.pathFrom_eq hl hlen] at hv
  exact hmem v hv

/-! ## Membership -/

@[simp] theorem queue_mem_stages {p : BusPortT} {c : ChannelT} :
    Stage.queue p c ∈ b.stages f ↔ p = f.src ∧ c = f.cha := by
  simp [stages, leg]

@[simp] theorem pipe_mem_stages {v : BusNodeT} :
    Stage.pipe v ∈ b.stages f ↔ v ∈ b.path (b.home f.src) (b.home f.dst) := by
  simp [stages, leg]

@[simp] theorem input_mem_stages {e : EdgeId} {c : ChannelT} :
    Stage.input e c ∈ b.stages f ↔ e.1 ∈ b.path (b.home f.src) (b.home f.dst) ∧
      e.2 = b.nextNode e.1 (b.home f.dst) ∧ c = f.cha := by
  obtain ⟨u, w⟩ := e
  simp only [stages, leg, List.mem_cons, List.mem_flatMap, reduceCtorEq, Stage.input.injEq,
    Prod.mk.injEq, List.not_mem_nil, or_false, false_or]
  constructor
  · rintro ⟨_, hu, ⟨rfl, rfl⟩, rfl⟩
    exact ⟨hu, rfl, rfl⟩
  · rintro ⟨hu, rfl, rfl⟩
    exact ⟨u, hu, ⟨rfl, rfl⟩, rfl⟩

@[simp] theorem output_mem_stages {e : EdgeId} {c : ChannelT} :
    Stage.output e c ∈ b.stages f ↔ e.1 ∈ b.path (b.home f.src) (b.home f.dst) ∧
      e.2 = b.nextNode e.1 (b.home f.dst) ∧ c = f.cha := by
  obtain ⟨u, w⟩ := e
  simp only [stages, leg, List.mem_cons, List.mem_flatMap, reduceCtorEq, Stage.output.injEq,
    Prod.mk.injEq, List.not_mem_nil, or_false, false_or]
  constructor
  · rintro ⟨_, hu, ⟨rfl, rfl⟩, rfl⟩
    exact ⟨hu, rfl, rfl⟩
  · rintro ⟨hu, rfl, rfl⟩
    exact ⟨u, hu, ⟨rfl, rfl⟩, rfl⟩

theorem stages_nodup (hb : b.WellFormed) (hf : b.KnownFlow f) : (b.stages f).Nodup := by
  refine List.nodup_cons.mpr ⟨by simp [leg], List.nodup_flatMap.mpr ⟨fun u _ ↦ by simp [leg], ?_⟩⟩
  refine (path_routeTo hb hf).nodup.imp fun {u v} huv x hu hv ↦ ?_
  simp only [leg, List.mem_cons, List.not_mem_nil, or_false] at hu hv
  rcases hu with rfl | rfl | rfl <;> simp_all

@[simp] theorem queue_mem_allStages {p : BusPortT} {c : ChannelT} :
    Stage.queue p c ∈ b.allStages ↔ b.knownPort p = true ∧ c < b.chaCnt := by
  simp [allStages, knownPort]

@[simp] theorem pipe_mem_allStages {v : BusNodeT} :
    Stage.pipe v ∈ b.allStages ↔ v ∈ b.nodeIds := by
  simp [allStages]

@[simp] theorem input_mem_allStages {e : EdgeId} {c : ChannelT} :
    Stage.input e c ∈ b.allStages ↔ e ∈ b.edgeIds ∧ c < b.chaCnt := by
  simp [allStages]

@[simp] theorem output_mem_allStages {e : EdgeId} {c : ChannelT} :
    Stage.output e c ∈ b.allStages ↔ e ∈ b.edgeIds ∧ c < b.chaCnt := by
  simp [allStages]

/-! ## Neighbouring stages

Which stage follows which on the way of a flow. A packet that moves from one place of the source's
state to another moves between neighbours.
-/

/-- What the table says at a node of the way. -/
structure Hop (b : Bus) (d v w : BusNodeT) : Prop where
  find : b.route.find? v d = some w
  ne_dst : v ≠ d
  ne_self : w ≠ v

theorem Hop.nextNode_eq {d v w : BusNodeT} (h : b.Hop d v w) : b.nextNode v d = w := by
  rw [nextNode, h.find, Option.getD_some]

theorem Hop.edge_mem {d v w : BusNodeT} (hb : b.WellFormed) (h : b.Hop d v w) :
    (v, w) ∈ b.edgeIds :=
  hb.edge_mem v d w h.find h.ne_dst h.ne_self

theorem Hop.nextHop_eq {d v w : BusNodeT} (h : b.Hop d v w) : b.nextHop v d = .ok w := by
  have hfind := h.find
  rw [BusRouteTable.find?, Option.bind_eq_some_iff] at hfind
  obtain ⟨row, hrow, hnext⟩ := hfind
  rw [nextHop, if_neg h.ne_dst, hrow]
  simp only [hnext]

/-- The hop at a node of the way, and the way split around it. -/
theorem exists_hop (hb : b.WellFormed) (hf : b.KnownFlow f) {v : BusNodeT}
    (hv : v ∈ b.path (b.home f.src) (b.home f.dst)) :
    ∃ w, b.Hop (b.home f.dst) v w ∧
      ∃ l₁ l₂, b.path (b.home f.src) (b.home f.dst) = l₁ ++ v :: l₂ ∧
        ((w = b.home f.dst ∧ l₂ = []) ∨ (w ≠ b.home f.dst ∧ ∃ l, l₂ = w :: l)) := by
  obtain ⟨l₁, l₂, hl⟩ := List.append_of_mem hv
  obtain ⟨w, hfind, hvd, hwv, hw⟩ := ((path_routeTo hb hf).suffix hl).next
  exact ⟨w, ⟨hfind, hvd, hwv⟩, l₁, l₂, hl, hw⟩

/-- The way of a flow leads over stages of the bus. -/
theorem mem_allStages_of_mem (hb : b.WellFormed) (hf : b.KnownFlow f) (hc : f.cha < b.chaCnt)
    {y : Stage}
    (hy : y ∈ b.stages f) : y ∈ b.allStages := by
  have hedge : ∀ e : EdgeId, e.1 ∈ b.path (b.home f.src) (b.home f.dst) →
      e.2 = b.nextNode e.1 (b.home f.dst) → e ∈ b.edgeIds := by
    rintro ⟨v, x⟩ hv hnext
    obtain ⟨w, hw, -⟩ := exists_hop hb hf hv
    obtain rfl : x = w := hnext.trans hw.nextNode_eq
    exact hw.edge_mem hb
  cases y with
  | queue p c =>
    obtain ⟨rfl, rfl⟩ := queue_mem_stages.mp hy
    exact queue_mem_allStages.mpr ⟨hf.src, hc⟩
  | pipe v => exact pipe_mem_allStages.mpr (path_mem_nodes hb hf (pipe_mem_stages.mp hy))
  | input e c =>
    obtain ⟨hv, hnext, rfl⟩ := input_mem_stages.mp hy
    exact input_mem_allStages.mpr ⟨hedge e hv hnext, hc⟩
  | output e c =>
    obtain ⟨hv, hnext, rfl⟩ := output_mem_stages.mp hy
    exact output_mem_allStages.mpr ⟨hedge e hv hnext, hc⟩

private theorem stages_split {l₁ l₂ : List BusNodeT} {v w : BusNodeT}
    (hl : b.path (b.home f.src) (b.home f.dst) = l₁ ++ v :: l₂) (hw : b.Hop (b.home f.dst) v w) :
    ∃ pre, b.stages f = pre ++ .pipe v :: .input (v, w) f.cha :: .output (v, w) f.cha ::
      l₂.flatMap (b.leg (b.home f.dst) f.cha) := by
  refine ⟨.queue f.src f.cha :: l₁.flatMap (b.leg (b.home f.dst) f.cha), ?_⟩
  simp [stages, hl, leg, hw.nextNode_eq]

theorem pipe_input_adjacent {v w : BusNodeT}
    (hv : Stage.pipe v ∈ b.stages f) (hw : b.Hop (b.home f.dst) v w) :
    ∃ pre suf, b.stages f = pre ++ .pipe v :: .input (v, w) f.cha :: suf := by
  obtain ⟨l₁, l₂, hl⟩ := List.append_of_mem (pipe_mem_stages.mp hv)
  obtain ⟨pre, hpre⟩ := stages_split hl hw
  exact ⟨pre, _, hpre⟩

theorem input_output_adjacent (hb : b.WellFormed) (hf : b.KnownFlow f) {e : EdgeId} {c : ChannelT}
    (he : Stage.input e c ∈ b.stages f) :
    ∃ pre suf, b.stages f = pre ++ .input e c :: .output e c :: suf := by
  obtain ⟨v, x⟩ := e
  obtain ⟨hv, hnext, rfl⟩ := input_mem_stages.mp he
  obtain ⟨w, hw, l₁, l₂, hl, -⟩ := exists_hop hb hf hv
  obtain ⟨pre, hpre⟩ := stages_split hl hw
  obtain rfl : x = w := hnext.trans hw.nextNode_eq
  exact ⟨pre ++ [.pipe v], _, by simpa using hpre⟩

/-- A packet in an output register either has reached its node or goes on into the pipeline. -/
theorem output_pipe_adjacent (hb : b.WellFormed) (hf : b.KnownFlow f) {e : EdgeId} {c : ChannelT}
    (he : Stage.output e c ∈ b.stages f) :
    (e.2 = b.home f.dst → ∃ pre, b.stages f = pre ++ [.output e c]) ∧
      (e.2 ≠ b.home f.dst → ∃ pre suf, b.stages f = pre ++ .output e c :: .pipe e.2 :: suf) := by
  obtain ⟨v, x⟩ := e
  obtain ⟨hv, hnext, rfl⟩ := output_mem_stages.mp he
  obtain ⟨w, hw, l₁, l₂, hl, hend⟩ := exists_hop hb hf hv
  obtain ⟨pre, hpre⟩ := stages_split hl hw
  obtain rfl : x = w := hnext.trans hw.nextNode_eq
  rcases hend with ⟨hd, rfl⟩ | ⟨hd, l, rfl⟩
  · exact ⟨fun _ ↦ ⟨pre ++ [.pipe v, .input (v, x) f.cha], by simpa using hpre⟩,
      fun h ↦ absurd hd h⟩
  · exact ⟨fun h ↦ absurd h hd, fun _ ↦
      ⟨pre ++ [.pipe v, .input (v, x) f.cha], _, by simpa [leg] using hpre⟩⟩

/-- A packet in a send buffer either is at its node already or goes on into the pipeline. -/
theorem queue_pipe_adjacent (hb : b.WellFormed) (hf : b.KnownFlow f) :
    (b.home f.src = b.home f.dst → b.stages f = [.queue f.src f.cha]) ∧
      (b.home f.src ≠ b.home f.dst →
        ∃ suf, b.stages f = .queue f.src f.cha :: .pipe (b.home f.src) :: suf) := by
  have hpath := path_routeTo hb hf
  refine ⟨fun h ↦ ?_, fun h ↦ ?_⟩
  · rw [stages, hpath.nil_iff.mpr h, List.flatMap_nil]
  · obtain ⟨l, hl⟩ := hpath.eq_cons h
    exact ⟨_, by rw [stages, hl]; rfl⟩

end Bus

end Simbus
