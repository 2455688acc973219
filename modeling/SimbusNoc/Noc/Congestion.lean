import SimbusNoc.Library.Hysteresis
import SimbusNoc.Noc.Progress
import SimbusNoc.Noc.Reliability

/-!
# The congestion flags

A tick updates the flag of every router twice, once at the end of `process_node` and once in
`refresh_all_congestion_states`, and the router's buffer count does not change in between. The flag
follows its watermarks, unless these are equal and the tick leaves a router that was not congested
with just as many packets: then the second update takes back the first.

## Two updates at one level

Nothing but the two updates touches a flag, and nothing after a router's own turn touches its
buffer count. So the flag after a tick is two steps of a switch with two thresholds at the level
that the tick leaves (`congested_applyNextTick`), and what two such steps amount to is a fact about
switches.

## Runs

`Hysteretic` says what is owed to the watermarks after one tick: the flag is on at or above the
high one, off at or below the low one, and as before in between, and a congested router lets none
of its ports send. A run of calls is `Decided` when no tick of it meets the one case in which the
updates undo each other. The two are equivalent for every run, and a run of two nodes shows that
the case occurs.
-/

namespace Simbus

namespace Bus

variable {b : Bus} {s s' : BusState} {v : BusNodeT}

/-! ## What leaves the flags alone

Flags and buffer counts are touched in two places only. Everything else in a tick leaves them as
they are.
-/

/-- `s'` has the flags of `s`. -/
def SameFlags (s s' : BusState) : Prop := ∀ u, (s'.nodes u).congested = (s.nodes u).congested

theorem SameFlags.trans {s'' : BusState} (h : SameFlags s s') (h' : SameFlags s' s'') :
    SameFlags s s'' :=
  fun u ↦ (h' u).trans (h u)

theorem SameFlags.setNode {n : NodeStruct} (hn : n.congested = (s.nodes v).congested) :
    SameFlags s (s.setNode v n) := by
  intro u
  by_cases hu : u = v
  · rw [hu, s.nodes_setNode_self]
    exact hn
  · rw [s.nodes_setNode_ne v n hu]

theorem findCandidate_sameFlags (b : Bus) (v : BusNodeT) (s : BusState) :
    SameFlags s (b.findCandidate v s).1 := by
  obtain ⟨r, q, hs₀, -⟩ := findCandidate_spec b v s
  rw [hs₀]
  exact .setNode rfl

theorem detachCandidate_sameFlags {cand : Candidate} (h : b.detachCandidate v s cand = .ok s') :
    SameFlags s s' := by
  cases cand with
  | none => exact Except.ok.inj h ▸ fun _ ↦ rfl
  | edgeOutput e c p =>
    obtain ⟨_, -, h⟩ := Except.bind_eq_ok_iff.mp h
    exact Except.ok.inj h ▸ SameFlags.setNode (s := s.setEdge _ _) rfl
  | portSend q c p =>
    obtain ⟨_, -, h⟩ := Except.bind_eq_ok_iff.mp h
    exact Except.ok.inj h ▸ SameFlags.setNode (s := s.setPort _ _) rfl

theorem deliverToLocalPort_sameFlags {p : MsgPack} (h : b.deliverToLocalPort v s p = .ok s') :
    SameFlags s s' := by
  obtain ⟨_, -, h⟩ := Except.bind_eq_ok_iff.mp h
  dsimp only at h
  split_ifs at h
  · exact Except.ok.inj h ▸ fun _ ↦ rfl
  · exact Except.ok.inj h ▸ SameFlags.setNode (s := s.setPort _ _) rfl
  · exact Except.ok.inj h ▸ .setNode rfl

theorem admitCandidate_sameFlags {p : MsgPack} (h : b.admitCandidate v s p = .ok s') :
    SameFlags s s' := by
  unfold admitCandidate at h
  by_cases htgt : p.tgt = v
  · rw [if_pos htgt] at h
    obtain ⟨s₁, hs₁, h⟩ := Except.bind_eq_ok_iff.mp h
    exact (deliverToLocalPort_sameFlags hs₁).trans (Except.ok.inj h ▸ .setNode rfl)
  · rw [if_neg htgt] at h
    exact Except.ok.inj h ▸ .setNode rfl

theorem admitPhase_sameFlags {busy : Bool} (h : b.admitPhase v s = .ok (s', busy)) :
    SameFlags s s' := by
  have hfind := findCandidate_sameFlags b v s
  rcases admitPhase_cases h with ⟨-, rfl⟩ | ⟨p, -, ⟨-, rfl⟩ | ⟨-, s₁, hdet, htake⟩⟩
  · exact hfind
  · exact hfind.trans (.setNode rfl)
  · exact (hfind.trans (detachCandidate_sameFlags hdet)).trans (admitCandidate_sameFlags htake)

theorem pipelinePhase_sameFlags {busy busy' : Bool}
    (h : b.pipelinePhase v s busy = .ok (s', busy')) : SameFlags s s' := by
  obtain ⟨⟨kept, st⟩, -, h⟩ := Except.bind_eq_ok_iff.mp h
  obtain ⟨rfl, -⟩ := Prod.mk.inj (Except.ok.inj h)
  exact SameFlags.setNode (s := { s with edges := st.edges }) rfl

/-! ## The two updates of a tick

A node's flag is updated once in its own turn and once at the end of the tick. No packet enters or
leaves its buffer in between, so both updates see the same count.
-/

/-- Between ticks the flags and the buffer counts stay as they are. -/
theorem gauge_perform {call : Call} (hcall : call ≠ .applyNextTick) (s : BusState) (v : BusNodeT) :
    ((b.perform s call).2.nodes v).congested = (s.nodes v).congested ∧
      ((b.perform s call).2.nodes v).bufferedPackets = (s.nodes v).bufferedPackets := by
  cases call with
  | send port dst c data =>
    rw [Bus.perform]
    split
    · rename_i accepted s' hsend
      obtain ⟨-, -, -, ⟨-, stats, rfl⟩ | ⟨-, -, -, -, rfl⟩⟩ := send_eq_ok hsend
      · exact ⟨rfl, rfl⟩
      · change ((b.reserve s dst c).nodes v).congested = _ ∧
          ((b.reserve s dst c).nodes v).bufferedPackets = _
        rw [nodes_reserve]
        exact ⟨rfl, rfl⟩
    · exact ⟨rfl, rfl⟩
  | recv d c =>
    rw [Bus.perform, (recv_keeps (b := b) s d c).nodes]
    exact ⟨rfl, rfl⟩
  | applyNextTick => exact absurd rfl hcall
  | clearStatistics =>
    rw [Bus.perform]
    unfold Bus.clearStatistics
    dsimp only
    split_ifs <;> exact ⟨rfl, rfl⟩

theorem gauge_run {calls : List Call} (hcalls : Call.applyNextTick ∉ calls) (s : BusState)
    (v : BusNodeT) :
    ((b.run s calls).2.nodes v).congested = (s.nodes v).congested ∧
      ((b.run s calls).2.nodes v).bufferedPackets = (s.nodes v).bufferedPackets := by
  induction calls generalizing s with
  | nil => exact ⟨rfl, rfl⟩
  | cons call rest ih =>
    rw [List.mem_cons, not_or] at hcalls
    have hcall := gauge_perform (b := b) (Ne.symm hcalls.1) s v
    have hrest := ih hcalls.2 (b.perform s call).2
    exact ⟨hrest.1.trans hcall.1, hrest.2.trans hcall.2⟩

/-- The flag after an update of `node`, when congestion is enabled. -/
theorem nextCongested_eq (henabled : b.config.congestion.enabled = true) (node : NodeStruct) :
    b.nextCongested node = Hysteresis.next b.config.congestion.lowWatermark
      b.config.congestion.highWatermark node.congested node.bufferedPackets := by
  rw [nextCongested, henabled]
  rfl

theorem processNode_congested (h : b.processNode v s = .ok s') :
    (s'.nodes v).congested = b.nextCongested
      { s'.nodes v with congested := (s.nodes v).congested } := by
  obtain ⟨⟨s₁, busy₁⟩, hs₁, h⟩ := Except.bind_eq_ok_iff.mp h
  obtain ⟨⟨s₂, busy₂⟩, hs₂, h⟩ := Except.bind_eq_ok_iff.mp h
  have hflag : (s₂.nodes v).congested = (s.nodes v).congested :=
    ((admitPhase_sameFlags hs₁).trans (pipelinePhase_sameFlags hs₂)) v
  obtain rfl := Except.ok.inj h
  simp only [countCycles, updateCongestionState, BusState.nodes_setNode_self, nextCongested, hflag]

private theorem foldlM_congested {nodes : List BusNodeT} (hnodup : nodes.Nodup) (hv : v ∈ nodes)
    (h : nodes.foldlM (fun s v ↦ b.processNode v s) s = .ok s') :
    (s'.nodes v).congested = b.nextCongested
      { s'.nodes v with congested := (s.nodes v).congested } := by
  induction nodes generalizing s with
  | nil => cases hv
  | cons u rest ih =>
    rw [List.foldlM_cons] at h
    obtain ⟨s₁, hs₁, hrest⟩ := Except.bind_eq_ok_iff.mp h
    obtain ⟨hnot, hnodup⟩ := List.nodup_cons.mp hnodup
    by_cases hu : v = u
    · subst hu
      have hkept : s'.nodes v = s₁.nodes v := foldlM_keeps (fun t ↦ t.nodes v = s₁.nodes v) rfl
        (fun w hw t t' ht htick ↦
          (processNode_nodes_ne (ne_of_mem_of_not_mem hw hnot).symm htick).trans ht) hrest
      rw [hkept]
      exact processNode_congested hs₁
    · rw [ih hnodup ((List.mem_cons.mp hv).resolve_left hu) hrest, processNode_nodes_ne hu hs₁]

private theorem refresh_nodes {nodes : List BusNodeT} (hnodup : nodes.Nodup) (hv : v ∈ nodes)
    (s : BusState) :
    (nodes.foldl (fun s v ↦ b.updateCongestionState v s) s).nodes v =
      { s.nodes v with congested := b.nextCongested (s.nodes v) } := by
  have hother : ∀ (rest : List BusNodeT), v ∉ rest → ∀ t : BusState,
      (rest.foldl (fun s v ↦ b.updateCongestionState v s) t).nodes v = t.nodes v := by
    intro rest
    induction rest with
    | nil => exact fun _ _ ↦ rfl
    | cons u rest ih =>
      intro hnot t
      rw [List.mem_cons, not_or] at hnot
      rw [List.foldl_cons, ih hnot.2, updateCongestionState, BusState.nodes_setNode_ne _ _ _ hnot.1]
  induction nodes generalizing s with
  | nil => cases hv
  | cons u rest ih =>
    obtain ⟨hnot, hnodup⟩ := List.nodup_cons.mp hnodup
    rw [List.foldl_cons]
    by_cases hu : v = u
    · subst hu
      rw [hother rest hnot, updateCongestionState, BusState.nodes_setNode_self]
    · rw [ih hnodup ((List.mem_cons.mp hv).resolve_left hu), updateCongestionState,
        BusState.nodes_setNode_ne _ _ _ hu]

/-- The flag after a tick: two steps of the switch at the level that the tick leaves. -/
theorem congested_applyNextTick (hb : b.WellFormed) (henabled : b.config.congestion.enabled = true)
    (hv : v ∈ b.nodeIds) (h : b.applyNextTick s = .ok s') :
    (s'.nodes v).congested =
      Hysteresis.next b.config.congestion.lowWatermark b.config.congestion.highWatermark
        (Hysteresis.next b.config.congestion.lowWatermark b.config.congestion.highWatermark
          (s.nodes v).congested (s'.nodes v).bufferedPackets)
        (s'.nodes v).bufferedPackets := by
  obtain ⟨s₁, hs₁, h⟩ := Except.bind_eq_ok_iff.mp h
  obtain rfl := Except.ok.inj h
  have hflag := foldlM_congested hb.nodes_nodup hv hs₁
  have hedges : (b.edgeIds.foldl b.processEdge s₁).nodes = s₁.nodes :=
    nodes_foldl_processEdge b.edgeIds s₁
  have hnode := refresh_nodes (b := b) hb.nodes_nodup hv (b.edgeIds.foldl b.processEdge s₁)
  rw [hedges, nextCongested_eq henabled, hflag, nextCongested_eq henabled] at hnode
  simp only [refreshAllCongestionStates, hnode]

/-! ## Runs -/

/-- What the flags and `can_send` owe to the watermarks after a tick that ends in `s'`. The state
that the previous tick has left is `s`. -/
structure Hysteretic (b : Bus) (s s' : BusState) : Prop where
  flags : ∀ v ∈ b.nodeIds, Hysteresis.Obeys b.config.congestion.lowWatermark
    b.config.congestion.highWatermark (s.nodes v).congested (s'.nodes v).congested
    (s'.nodes v).bufferedPackets
  /-- Up to the next tick. -/
  refuses : ∀ calls, Call.applyNextTick ∉ calls → ∀ p c, b.knownPort p = true → c < b.chaCnt →
    b.config.congestion.highWatermark ≤ (s'.nodes (b.home p)).bufferedPackets →
    b.canSend (b.run s' calls).2 p c = .ok false

/-- Every tick of a run of calls is hysteretic. -/
def HystereticRun (b : Bus) (calls : List Call) : Prop :=
  ∀ pre mid post, calls = pre ++ mid ++ .applyNextTick :: post → Call.applyNextTick ∉ mid →
    b.Hysteretic (b.run {} pre).2 (b.run {} (pre ++ mid ++ [.applyNextTick])).2

/-- The watermarks differ, or no tick of the run leaves exactly that many packets at a router that
was not congested before it. -/
def Decided (b : Bus) (calls : List Call) : Prop :=
  b.config.congestion.lowWatermark < b.config.congestion.highWatermark ∨
    ∀ pre post, calls = pre ++ .applyNextTick :: post → ∀ v ∈ b.nodeIds,
      ((b.run {} (pre ++ [.applyNextTick])).2.nodes v).bufferedPackets =
        b.config.congestion.highWatermark →
      ((b.run {} pre).2.nodes v).congested = true

private theorem run_tick (hb : b.WellFormed) (calls : List Call) :
    b.applyNextTick (b.run {} calls).2 = .ok (b.run {} (calls ++ [.applyNextTick])).2 := by
  obtain ⟨s₁, s', hs', -⟩ := applyNextTick_spec hb (placed_run hb calls)
  rw [hs', run_append]
  change Except.ok s' = .ok (b.perform (b.run {} calls).2 .applyNextTick).2
  rw [Bus.perform, hs']

private theorem obeys_iff (hb : b.WellFormed) (henabled : b.config.congestion.enabled = true)
    (hv : v ∈ b.nodeIds) (h : b.applyNextTick s = .ok s') :
    Hysteresis.Obeys b.config.congestion.lowWatermark b.config.congestion.highWatermark
        (s.nodes v).congested (s'.nodes v).congested (s'.nodes v).bufferedPackets ↔
      (b.config.congestion.lowWatermark < b.config.congestion.highWatermark ∨
        ((s'.nodes v).bufferedPackets = b.config.congestion.highWatermark →
          (s.nodes v).congested = true)) := by
  rw [congested_applyNextTick hb henabled hv h]
  exact Hysteresis.obeys_next_next_iff (hb.limits henabled).2.2

private theorem canSend_of_congested (henabled : b.config.congestion.enabled = true)
    {p : BusPortT} {c : ChannelT} (hp : b.knownPort p = true) (hc : c < b.chaCnt)
    (hflag : (s.nodes (b.home p)).congested = true) : b.canSend s p c = .ok false := by
  rw [canSend, validatePort_eq_ok (u := ()) |>.mpr hp, validateChannel_eq_ok (u := ()) |>.mpr hc]
  change Except.ok (b.canSendNow s p c) = _
  rw [canSendNow, henabled, hflag]
  simp

variable {ord : HashOrder} {portIds : List BusPortT} {portToNode : List BusNodeT} {widths : List ℕ}
  {route : BusRouteTable} {config : NocConfig}

/-- In every run, the flags follow the watermarks exactly when no tick meets the one case in which
two updates undo each other. -/
theorem hystereticRun_iff (h : construct ord portIds portToNode widths route config = .ok b)
    (henabled : b.config.congestion.enabled = true) (calls : List Call) :
    b.HystereticRun calls ↔ b.Decided calls := by
  have hb := construct_wellFormed h
  constructor
  · intro hrun
    by_cases hlt : b.config.congestion.lowWatermark < b.config.congestion.highWatermark
    · exact .inl hlt
    · refine .inr fun pre post hcalls v hv heven ↦ ?_
      have hflags := (hrun pre [] post (by simpa using hcalls) List.not_mem_nil).flags v hv
      rw [List.append_nil, obeys_iff hb henabled hv (run_tick hb pre)] at hflags
      exact hflags.resolve_left hlt heven
  · intro hdecided pre mid post hcalls hmid
    -- Since the previous tick nothing has happened to the flags.
    have hbefore : ∀ v, ((b.run {} (pre ++ mid)).2.nodes v).congested =
        ((b.run {} pre).2.nodes v).congested := by
      intro v
      rw [run_append]
      exact (gauge_run hmid _ v).1
    have hflags : ∀ v ∈ b.nodeIds, Hysteresis.Obeys b.config.congestion.lowWatermark
        b.config.congestion.highWatermark ((b.run {} pre).2.nodes v).congested
        ((b.run {} (pre ++ mid ++ [.applyNextTick])).2.nodes v).congested
        ((b.run {} (pre ++ mid ++ [.applyNextTick])).2.nodes v).bufferedPackets := by
      intro v hv
      rw [← hbefore v, obeys_iff hb henabled hv (run_tick hb (pre ++ mid))]
      exact hdecided.imp_right fun heven ↦ heven (pre ++ mid) post hcalls v hv
    refine ⟨hflags, fun rest hrest p c hp hc hhigh ↦ canSend_of_congested henabled hp hc ?_⟩
    rw [(gauge_run hrest _ _).1]
    exact (hflags _ (hb.home_mem p hp)).above hhigh

theorem hystereticRun_pair : pairBus.HystereticRun pairCalls :=
  (hystereticRun_iff construct_pairBus rfl pairCalls).mpr (.inl (by decide))

/-! ## Equal watermarks -/

def evenConfig : NocConfig where
  congestion := { nodeBufferLimit := 2, highWatermark := 1, lowWatermark := 1 }

/-- Two ports on two joined nodes, whose routers are to be congested with one packet and not
without. -/
def evenBus : Bus := { pairBus with config := evenConfig }

theorem construct_evenBus :
    construct .insertion [0, 1] [0, 1] [4] pairRoute evenConfig = .ok evenBus := rfl

def evenCalls : List Call := [.send 0 1 0 [1], .applyNextTick]

/-- The packet stands in its router, and the next one may follow. -/
theorem not_hystereticRun_even :
    construct .insertion [0, 1] [0, 1] [4] pairRoute evenConfig = .ok evenBus ∧
      ((evenBus.run {} evenCalls).2.nodes 0).bufferedPackets = evenConfig.congestion.highWatermark ∧
      evenBus.canSend (evenBus.run {} evenCalls).2 0 0 = .ok true ∧
      ¬evenBus.HystereticRun evenCalls := by
  have hcount : ((evenBus.run {} evenCalls).2.nodes 0).bufferedPackets =
      evenConfig.congestion.highWatermark := by decide +kernel
  refine ⟨construct_evenBus, hcount, by decide +kernel, fun hrun ↦ ?_⟩
  have hflags := (hrun [.send 0 1 0 [1]] [] [] rfl List.not_mem_nil).flags 0 List.mem_cons_self
  have hon : ((evenBus.run {} evenCalls).2.nodes 0).congested = true := hflags.above hcount.ge
  exact absurd hon (by decide +kernel)

end Bus

end Simbus
