import SimbusNoc.Noc.Progress

/-!
# Gridlock

The routers share one bounded buffer among all directions, so routers can wait for each other in a
circle: each is full, each of its packets is due, and the edge that the packet needs is full and
leads to another router of the circle. When a tick makes no progress, although a packet is on its
way, such a gridlock is the reason.

The proof follows a packet that waits. In a tick without progress every packet of a pipeline is due
and finds its register taken, every register on an edge finds the one behind it taken, and that one
is in front of a router, which has a candidate, for a scan over the whole list meets every source.
The candidate is refused, so the router is full and the candidate has to go on. Hence every router
that is met on the way blocks, and the routers that block wait for each other.

`Gridlock` is stated for a set of routers, without a circle: each member waits for registers that
lead to members. In a finite network this comes to a circle in any case.
-/

namespace Simbus

namespace Bus

/-- The routers of `S` wait for each other. Each has a full buffer and considers a packet that has
to go on; each packet of its pipeline is due, and both registers it has to pass are taken on an edge
to a router of `S`. -/
structure Gridlock (b : Bus) (s : BusState) (S : Set BusNodeT) : Prop where
  nonempty : S.Nonempty
  mem_nodes : ∀ v ∈ S, v ∈ b.nodeIds
  full : ∀ v ∈ S, b.config.congestion.nodeBufferLimit ≤ (s.nodes v).bufferedPackets
  refuses : ∀ v ∈ S, ∃ e c p, (b.findCandidate v s).2 = .edgeOutput e c p ∧ p.tgt ≠ v
  due : ∀ v ∈ S, ∀ i ∈ (s.nodes v).pipeline, i.cycleRemained = 0
  waits : ∀ v ∈ S, ∀ i ∈ (s.nodes v).pipeline, b.nextNode v i.pack.tgt ∈ S ∧
    (s.edges (v, b.nextNode v i.pack.tgt)).input i.pack.cha ≠ none ∧
    (s.edges (v, b.nextNode v i.pack.tgt)).output i.pack.cha ≠ none

variable {b : Bus} {v : BusNodeT} {s : BusState}

/-! ## The scan meets every element

A scan that starts anywhere and goes round once finds something whenever there is something.
-/

private theorem scan_eq_none_step {α β : Type} {offer : α → Option β} {xs : List α} :
    ∀ {n ptr q : ℕ}, ptr < xs.length → scan offer xs n ptr = (q, none) →
      ∀ k < n, ∀ x, xs[(ptr + k) % xs.length]? = some x → offer x = none := by
  intro n
  induction n with
  | zero => exact fun _ _ k hk ↦ absurd hk (Nat.not_lt_zero k)
  | succ n ih =>
    intro ptr q hptr h k hk x hx
    rw [scan, List.getElem?_eq_getElem hptr] at h
    dsimp only at h
    split at h
    · cases h
    · rename_i hnone
      cases k with
      | zero =>
        rw [Nat.add_zero, Nat.mod_eq_of_lt hptr, List.getElem?_eq_getElem hptr] at hx
        rwa [← Option.some.inj hx]
      | succ k =>
        refine ih (Nat.mod_lt _ (Nat.zero_lt_of_lt hptr)) h k (Nat.lt_of_succ_lt_succ hk) x ?_
        rwa [Nat.mod_add_mod, Nat.add_assoc, Nat.add_comm 1 k]

theorem scan_eq_none {α β : Type} {offer : α → Option β} {xs : List α} {ptr q : ℕ}
    (hptr : Within ptr xs.length) (h : scan offer xs xs.length ptr = (q, none)) :
    ∀ x ∈ xs, offer x = none := by
  intro x hx
  obtain ⟨j, hj, hjx⟩ := List.mem_iff_getElem.mp hx
  have hlt : ptr < xs.length := hptr.elim id fun h ↦ h ▸ Nat.zero_lt_of_lt hj
  obtain ⟨k, hk, hkj⟩ := List.mem_map.mp ((RoundRobin.mem_scan hlt).mpr hj)
  refine scan_eq_none_step hlt h k (List.mem_range.mp hk) x ?_
  rw [hkj, List.getElem?_eq_getElem hj, hjx]

theorem findCandidate_edge (hptr : b.Pointed s) {e : EdgeId} {c : ChannelT} (he : e ∈ b.rxs v)
    (hc : c < b.chaCnt) (hout : (s.edges e).output c ≠ none) :
    ∃ e' c' p, (b.findCandidate v s).2 = .edgeOutput e' c' p := by
  unfold findCandidate
  dsimp only
  split
  · exact ⟨_, _, _, rfl⟩
  · rename_i ptr hscan
    have hnone := scan_eq_none (hptr v).1 hscan e he
    rw [firstOutput, List.findSome?_eq_none_iff] at hnone
    exact absurd (Option.map_eq_none_iff.mp (hnone c (List.mem_range.mpr hc))) hout

theorem exists_candidate (hptr : b.Pointed s) {port : BusPortT} {c : ChannelT}
    (hport : port ∈ b.nodePorts v) (hc : c < b.chaCnt) (hqueue : (s.ports port).sendBuf c ≠ []) :
    ∃ p, (b.findCandidate v s).2.pack? = some p := by
  unfold findCandidate
  dsimp only
  split
  · exact ⟨_, rfl⟩
  · split
    · exact ⟨_, rfl⟩
    · rename_i hscan'
      have hnone := scan_eq_none (hptr v).2 hscan' port hport
      rw [firstQueued, List.findSome?_eq_none_iff] at hnone
      exact absurd (List.head?_eq_none_iff.mp
        (Option.map_eq_none_iff.mp (hnone c (List.mem_range.mpr hc)))) hqueue

theorem canAcceptCandidate_eq_false {n : NodeStruct} {p : MsgPack} :
    b.canAcceptCandidate v n p = false ↔ p.tgt ≠ v ∧ b.config.congestion.enabled = true ∧
      b.config.congestion.nodeBufferLimit ≤ n.bufferedPackets := by
  by_cases htgt : p.tgt = v <;> simp [canAcceptCandidate, canAcceptForwardPacket, htgt]

/-! ## The reason for no progress

A router blocks when its buffer is full and the packet that it considers has to go on. When nothing
can move, a packet in a register waits for such a router, and each packet of that router's pipeline
waits for another register that is taken, which is the gridlock.
-/

/-- The router is full and considers a packet that has to go on. -/
def Blocks (b : Bus) (s : BusState) (v : BusNodeT) : Prop :=
  v ∈ b.nodeIds ∧ b.config.congestion.enabled = true ∧
    b.config.congestion.nodeBufferLimit ≤ (s.nodes v).bufferedPackets ∧
    ∃ e c p, (b.findCandidate v s).2 = .edgeOutput e c p ∧ p.tgt ≠ v

theorem Stuck.blocks_of_output (hb : b.WellFormed) (hptr : b.Pointed s) (h : b.Stuck s)
    {e : EdgeId} {c : ChannelT} (he : e ∈ b.edgeIds) (hc : c < b.chaCnt)
    (hout : (s.edges e).output c ≠ none) : b.Blocks s e.2 := by
  have hv : e.2 ∈ b.nodeIds := (hb.edge_nodes e he).2
  have hrx : e ∈ b.rxs e.2 := List.mem_filter.mpr ⟨he, by simp⟩
  obtain ⟨e', c', p, hcand⟩ := findCandidate_edge hptr hrx hc hout
  obtain ⟨htgt, hen, hfull⟩ :=
    canAcceptCandidate_eq_false.mp (h.refuses e.2 hv p (by rw [hcand]; rfl))
  exact ⟨hv, hen, hfull, e', c', p, hcand, htgt⟩

/-- A packet of a pipeline waits for a router that blocks. -/
theorem Stuck.waits (hb : b.WellFormed) (hs : b.Placed s) (hptr : b.Pointed s) (h : b.Stuck s)
    (hv : v ∈ b.nodeIds) {i : PipelinedPack} (hi : i ∈ (s.nodes v).pipeline) :
    b.Blocks s (b.nextNode v i.pack.tgt) ∧
      (s.edges (v, b.nextNode v i.pack.tgt)).input i.pack.cha ≠ none ∧
      (s.edges (v, b.nextNode v i.pack.tgt)).output i.pack.cha ≠ none := by
  have hmem : i.pack ∈ s.contents (.pipe v) := List.mem_map_of_mem hi
  have hpack := hs.packs _ _ hmem
  obtain ⟨w, hw, -⟩ := exists_hop hb hpack.flow (pipe_mem_stages.mp (hs.located _ _ hmem))
  replace hw : b.Hop i.pack.tgt v w := hpack.tgt ▸ hw
  have hin := h.blocked v hv i hi w hw.nextHop_eq
  have hedge := hw.edge_mem hb
  have hout := h.jams _ hedge _ hpack.cha hin
  rw [hw.nextNode_eq]
  exact ⟨h.blocks_of_output hb hptr hedge hpack.cha hout, hin, hout⟩

/-- A loaded network in which nothing can move has a router that blocks. -/
theorem Stuck.exists_blocks (hb : b.WellFormed) (hs : b.Placed s) (hptr : b.Pointed s)
    (h : b.Stuck s) (hloaded : Loaded s) : ∃ v, b.Blocks s v := by
  obtain ⟨y, hy⟩ := hloaded
  obtain ⟨p, hp⟩ := List.exists_mem_of_ne_nil _ hy
  have hmem := hs.mem_allStages hb hp
  have hpack := hs.packs y p hp
  cases y with
  | queue port c =>
    obtain ⟨hport, hc⟩ := queue_mem_allStages.mp hmem
    have hv := hb.home_mem port hport
    obtain ⟨q, hq⟩ := exists_candidate hptr ((hb.mem_ports _ port).mpr ⟨hport, rfl⟩) hc
      (List.ne_nil_of_mem hp)
    obtain ⟨-, hen, hfull⟩ := canAcceptCandidate_eq_false.mp (h.refuses _ hv q hq)
    -- The full buffer holds a packet, which waits for the next router.
    have hlength := ((hs.routers (b.home port)).buffered hen).1
    have hpos := (hb.limits hen).1
    obtain ⟨i, hi⟩ := List.exists_mem_of_length_pos (l := (s.nodes (b.home port)).pipeline)
      (by omega)
    exact ⟨_, (h.waits hb hs hptr hv hi).1⟩
  | pipe v =>
    obtain ⟨i, hi, -⟩ := List.mem_map.mp hp
    exact ⟨_, (h.waits hb hs hptr (pipe_mem_allStages.mp hmem) hi).1⟩
  | input e c =>
    obtain ⟨he, hc⟩ := input_mem_allStages.mp hmem
    have hin : (s.edges e).input c ≠ none := fun hnone ↦ by simp [BusState.contents, hnone] at hp
    exact ⟨_, h.blocks_of_output hb hptr he hc (h.jams e he c hc hin)⟩
  | output e c =>
    obtain ⟨he, hc⟩ := output_mem_allStages.mp hmem
    have hout : (s.edges e).output c ≠ none := fun hnone ↦ by simp [BusState.contents, hnone] at hp
    exact ⟨_, h.blocks_of_output hb hptr he hc hout⟩

/-- When the next tick makes no progress although a packet is on its way, the routers that block are
in gridlock. -/
theorem exists_gridlock (hb : b.WellFormed) (hs : b.Placed s) (hptr : b.Pointed s)
    (hloaded : Loaded s) (hstop : ¬b.Progresses s) : b.Gridlock s {v | b.Blocks s v} := by
  have h := stuck_of_not_progresses hb hs hstop
  exact {
    nonempty := h.exists_blocks hb hs hptr hloaded
    mem_nodes := fun v hv ↦ hv.1
    full := fun v hv ↦ hv.2.2.1
    refuses := fun v hv ↦ hv.2.2.2
    due := fun v hv i hi ↦ h.due v hv.1 i hi
    waits := fun v hv i hi ↦ h.waits hb hs hptr hv.1 hi }

end Bus

end Simbus
