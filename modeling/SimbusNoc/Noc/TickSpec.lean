import SimbusNoc.Noc.Admission

/-!
# A tick never throws

The second half of `process_node`, the edges, and the whole tick. From a state in which every
packet stands on its way, `apply_next_tick` returns, and only moves packets on.

## The pipeline loop

The loop walks over the pipeline and keeps the packets that stay. A packet that is due is released
when the input register of its next edge is free, and it may be released past packets before it
that wait for other registers. That it overtakes no packet of its own flow is what `Passed` is for:
an item that the loop has left behind either was not due, and then nothing behind it is due that
would be released, for the pipeline is sorted; or it waits for its register, and then a later
packet for the same register finds it taken as well.

## Checks that never fail

The loop looks up the next hop and the edge to it, and it counts down the buffered packets after
checking that there is one. The first two are in the table because the packet stands on its way,
and the last because the router counts its packets right. These are the `require`s of the tick, and
none of them throws from a state that the invariant admits.
-/

namespace Simbus

open Stages

namespace Bus

variable {b : Bus} {v : BusNodeT} {s : BusState}

/-! ## The pipeline

The loop over the pipeline has the items that it has passed, the one that it looks at and the rest.
`Passed` says what it has left behind: items that stay, none of which waits for a register that a
later item has been given. An item ages and then stays, or is released into the register of its
next edge.
-/

/-- The state in the middle of the pipeline loop of node `v`, when `items` are its pipeline. -/
def PipelineLoop.state (s : BusState) (v : BusNodeT) (items : List PipelinedPack)
    (st : PipelineLoop) : BusState :=
  { s with edges := st.edges }.setNode v
    { s.nodes v with
      pipeline := items
      bufferedPackets := st.bufferedPackets
      blockedCycles := st.blockedCycles }

/-- The items already passed hold back nothing of their own flow that is still to come: either
nothing that comes is due, or the next register of the passed item is taken. -/
def Passed (b : Bus) (v : BusNodeT) (done items : List PipelinedPack) (st : PipelineLoop) : Prop :=
  (∀ i ∈ done, ∀ j ∈ items, i.cycleRemained ≤ j.cycleRemained - 1) ∧
    ∀ i ∈ done, (∀ j ∈ items, 0 < j.cycleRemained) ∨
      ((st.edges (v, b.nextNode v i.pack.tgt)).input i.pack.cha).isSome

private theorem state_nodes_ne {items : List PipelinedPack} {st : PipelineLoop} {u : BusNodeT}
    (hu : u ≠ v) : (st.state s v items).nodes u = s.nodes u :=
  BusState.nodes_setNode_ne _ _ _ hu

@[simp] private theorem state_nodes_self {items : List PipelinedPack} {st : PipelineLoop} :
    (st.state s v items).nodes v = { s.nodes v with
      pipeline := items
      bufferedPackets := st.bufferedPackets
      blockedCycles := st.blockedCycles } :=
  BusState.nodes_setNode_self _ _ _

/-- Ages and counters change in the loop. -/
theorem PipelineLoop.evolves_age {items items' : List PipelinedPack} {st st' : PipelineLoop}
    (hs : b.Placed (st.state s v items))
    (hpacks : items'.map PipelinedPack.pack = items.map PipelinedPack.pack)
    (hedges : st'.edges = st.edges) (hrouter : b.RouterOk ((st'.state s v items').nodes v)) :
    Evolves b (st.state s v items) (st'.state s v items') := by
  refine .of_contents hs (funext fun y ↦ ?_) (fun u ↦ ?_) (fun _ ↦ rfl) (fun u ↦ ?_)
    ⟨fun _ ↦ rfl, rfl, rfl, rfl⟩
  · cases y with
    | queue => rfl
    | pipe u =>
      by_cases hu : u = v
      · subst hu
        simp [BusState.contents, hpacks]
      · simp [BusState.contents, state_nodes_ne hu]
    | input | output => simp [BusState.contents, PipelineLoop.state, hedges]
  · by_cases hu : u = v
    · subst hu
      exact hrouter
    · have := hs.routers u
      rw [state_nodes_ne hu] at this ⊢
      exact this
  · by_cases hu : u = v
    · subst hu
      simp
    · rw [state_nodes_ne hu, state_nodes_ne hu]

/-- The loop state after the release of `p` to the next edge. -/
def PipelineLoop.release (b : Bus) (st : PipelineLoop) (e : EdgeId) (p : MsgPack) : PipelineLoop :=
  { st with
    edges := Function.update st.edges e
      { st.edges e with input := Function.update (st.edges e).input p.cha (some p) }
    bufferedPackets :=
      if b.config.congestion.enabled then st.bufferedPackets - 1 else st.bufferedPackets
    busy := true }

/-- A run of the pipeline loop that returns, packet by packet: each ages, or is released to its next
edge, or finds the register taken. -/
inductive PipelineRuns (b : Bus) (v : BusNodeT) :
    List PipelinedPack → PipelineLoop → List PipelinedPack → PipelineLoop → Prop
  | nil {st : PipelineLoop} : PipelineRuns b v [] st [] st
  | age {item : PipelinedPack} {rest kept : List PipelinedPack} {st st' : PipelineLoop}
      (hage : 0 < item.cycleRemained)
      (hrest : PipelineRuns b v rest { st with busy := true } kept st') :
      PipelineRuns b v (item :: rest) st (⟨item.pack, item.cycleRemained - 1⟩ :: kept) st'
  | release {item : PipelinedPack} {rest kept : List PipelinedPack} {st st' : PipelineLoop}
      {w : BusNodeT} (hdue : item.cycleRemained = 0) (hnext : b.nextHop v item.pack.tgt = .ok w)
      (hfree : (st.edges (v, w)).input item.pack.cha = none)
      (hrest : PipelineRuns b v rest (st.release b (v, w) item.pack) kept st') :
      PipelineRuns b v (item :: rest) st kept st'
  | block {item : PipelinedPack} {rest kept : List PipelinedPack} {st st' : PipelineLoop}
      {w : BusNodeT} {q : MsgPack} (hdue : item.cycleRemained = 0)
      (hnext : b.nextHop v item.pack.tgt = .ok w)
      (htaken : (st.edges (v, w)).input item.pack.cha = some q)
      (hrest : PipelineRuns b v rest
        { st with blockedCycles := st.blockedCycles + 1, busy := true } kept st') :
      PipelineRuns b v (item :: rest) st (item :: kept) st'

theorem pipelineRuns_of_eq_ok {items : List PipelinedPack} :
    ∀ {st st' : PipelineLoop} {kept : List PipelinedPack},
      b.pipelineLoop v items st = .ok (kept, st') → PipelineRuns b v items st kept st' := by
  induction items with
  | nil =>
    intro st st' kept h
    obtain ⟨rfl, rfl⟩ := Prod.mk.inj (Except.ok.inj h)
    exact .nil
  | cons item rest ih =>
    intro st st' kept h
    rw [pipelineLoop] at h
    by_cases hage : 0 < item.cycleRemained
    · rw [if_pos hage] at h
      obtain ⟨⟨kept₁, st₁⟩, hloop, h⟩ := Except.bind_eq_ok_iff.mp h
      obtain ⟨rfl, rfl⟩ := Prod.mk.inj (Except.ok.inj h)
      exact .age hage (ih hloop)
    · have hdue : item.cycleRemained = 0 := Nat.eq_zero_of_not_pos hage
      rw [if_neg hage] at h
      obtain ⟨w, hw, h⟩ := Except.bind_eq_ok_iff.mp h
      obtain ⟨_, -, h⟩ := Except.bind_eq_ok_iff.mp h
      dsimp only at h
      split at h
      · rename_i hfree
        obtain ⟨_, -, hloop⟩ := Except.bind_eq_ok_iff.mp h
        exact .release hdue hw hfree (ih hloop)
      · rename_i q htaken
        obtain ⟨⟨kept₁, st₁⟩, hloop, h⟩ := Except.bind_eq_ok_iff.mp h
        obtain ⟨rfl, rfl⟩ := Prod.mk.inj (Except.ok.inj h)
        exact .block hdue hw htaken (ih hloop)

theorem PipelineRuns.output {items kept : List PipelinedPack} {st st' : PipelineLoop}
    (h : PipelineRuns b v items st kept st') (e : EdgeId) :
    (st'.edges e).output = (st.edges e).output := by
  induction h with
  | nil => rfl
  | age _ _ ih => exact ih
  | @release item _ _ st _ w _ _ _ _ ih =>
    refine ih.trans ?_
    by_cases he : e = (v, w)
    · simp only [he, PipelineLoop.release, Function.update_self]
    · simp only [PipelineLoop.release, Function.update_of_ne he]
  | block _ _ _ _ ih => exact ih

/-- A packet that is due moves to the next edge when the register of its channel is free. -/
theorem PipelineLoop.evolves_release (hb : b.WellFormed) {done rest : List PipelinedPack}
    {item : PipelinedPack} {st : PipelineLoop} {w : BusNodeT}
    (hs : b.Placed (st.state s v (done ++ item :: rest)))
    (hpassed : b.Passed v done (item :: rest) st) (hdue : item.cycleRemained = 0)
    (hw : b.Hop item.pack.tgt v w) (hfree : (st.edges (v, w)).input item.pack.cha = none) :
    Evolves b (st.state s v (done ++ item :: rest))
      ((st.release b (v, w) item.pack).state s v (done ++ rest)) := by
  obtain ⟨p, r⟩ := item
  obtain rfl : r = 0 := hdue
  have hmem : p ∈ (st.state s v (done ++ ⟨p, 0⟩ :: rest)).contents (.pipe v) := by
    simp [BusState.contents]
  have hp := hs.packs _ p hmem
  have hpipe := hs.located _ p hmem
  have hw' : b.Hop (b.home p.flow.dst) v w := hp.tgt ▸ hw
  refine .of_shift hb hs (y := .pipe v) (x := .input (v, w) p.cha) (p := p) ?_ (fun u ↦ ?_)
    (fun _ ↦ rfl) (fun u ↦ ?_) ⟨fun _ ↦ rfl, rfl, rfl, rfl⟩
  · exact {
      adjacent := pipe_input_adjacent hpipe hw'
      first := by
        refine ⟨done.map PipelinedPack.pack,
          rest.map PipelinedPack.pack, by simp [BusState.contents],
          fun q hq hflow ↦ ?_, by simp [BusState.contents]⟩
        -- A packet of the same flow before `p` would wait for the same register.
        obtain ⟨i, hi, rfl⟩ := List.mem_map.mp hq
        have hiok := hs.packs (.pipe v) i.pack (by
          simp only [BusState.contents, state_nodes_self, List.map_append, List.mem_append]
          exact .inl (List.mem_map_of_mem hi))
        have hdst : i.pack.dst = p.dst := congrArg Flow.dst hflow
        have hcha : i.pack.cha = p.cha := congrArg Flow.cha hflow
        rcases hpassed.2 i hi with hall | hsome
        · exact absurd (hall ⟨p, 0⟩ List.mem_cons_self) (lt_irrefl 0)
        · have htgt : i.pack.tgt = p.tgt := by rw [hiok.tgt, hp.tgt, hdst]
          rw [htgt, hw.nextNode_eq, hcha, hfree] at hsome
          cases hsome
      target := by
        simp [BusState.contents, PipelineLoop.state, PipelineLoop.release, hfree]
      others := fun z hzx hzy ↦ by
        cases z with
        | queue => rfl
        | pipe u =>
          have hu : u ≠ v := fun hu ↦ hzy (by rw [hu])
          simp [BusState.contents, state_nodes_ne hu]
        | input f c =>
          by_cases hf : f = (v, w)
          · subst hf
            have hc : c ≠ p.cha := fun hc ↦ hzx (by rw [hc])
            simp [BusState.contents, PipelineLoop.state, PipelineLoop.release, hc]
          · simp [BusState.contents, PipelineLoop.state, PipelineLoop.release, hf]
        | output f c =>
          by_cases hf : f = (v, w)
          · subst hf
            simp [BusState.contents, PipelineLoop.state, PipelineLoop.release]
          · simp [BusState.contents, PipelineLoop.state, PipelineLoop.release, hf] }
  · by_cases hu : u = v
    · subst hu
      obtain ⟨hsorted, haged, hbuffered, hkeys, hfilled⟩ := hs.routers u
      rw [state_nodes_self] at hsorted haged hbuffered hkeys hfilled ⊢
      have hsub : (done ++ rest).Sublist (done ++ ⟨p, 0⟩ :: rest) :=
        (List.sublist_cons_self _ _).append_left done
      refine ⟨hsorted.sublist hsub, fun i hi ↦ haged i (hsub.subset hi), fun hen ↦ ?_, hkeys,
        hfilled⟩
      obtain ⟨heq, hle⟩ := hbuffered hen
      simp only [PipelineLoop.release, if_pos hen, List.length_append, List.length_cons]
        at heq hle ⊢
      omega
    · have := hs.routers u
      rw [state_nodes_ne hu] at this ⊢
      exact this
  · by_cases hu : u = v
    · subst hu
      simp
    · rw [state_nodes_ne hu, state_nodes_ne hu]

private theorem routerOk_age {done rest : List PipelinedPack} {item : PipelinedPack}
    {st st' : PipelineLoop} (hs : b.Placed (st.state s v (done ++ item :: rest)))
    (hpassed : b.Passed v done (item :: rest) st)
    (hbuf : st'.bufferedPackets = st.bufferedPackets) :
    b.RouterOk ((st'.state s v (done ++ ⟨item.pack, item.cycleRemained - 1⟩ :: rest)).nodes v) := by
  obtain ⟨hsorted, haged, hbuffered, hkeys, hfilled⟩ := hs.routers v
  rw [state_nodes_self] at hsorted haged hbuffered hkeys hfilled ⊢
  obtain ⟨hdone, hcons, hcross⟩ := List.pairwise_append.mp hsorted
  obtain ⟨hitem, hrest⟩ := List.pairwise_cons.mp hcons
  refine ⟨List.pairwise_append.mpr ⟨hdone, List.pairwise_cons.mpr ⟨fun j hj ↦ ?_, hrest⟩,
    fun i hi j hj ↦ ?_⟩, fun i hi ↦ ?_, fun hen ↦ ?_, hkeys, hfilled⟩
  · exact (Nat.sub_le _ _).trans (hitem j hj)
  · rcases List.mem_cons.mp hj with rfl | hj
    · exact hpassed.1 i hi item List.mem_cons_self
    · exact hcross i hi j (List.mem_cons_of_mem _ hj)
  · rcases List.mem_append.mp hi with hi | hi
    · exact haged i (List.mem_append_left _ hi)
    · rcases List.mem_cons.mp hi with rfl | hi
      · exact (Nat.sub_le _ _).trans (haged item (by simp))
      · exact haged i (List.mem_append_right _ (List.mem_cons_of_mem _ hi))
  · have := hbuffered hen
    simp only [List.length_append, List.length_cons] at this ⊢
    rw [hbuf]
    exact this

private theorem Passed.stay {done rest : List PipelinedPack} {item item' : PipelinedPack}
    {st st' : PipelineLoop} (h : b.Passed v done (item :: rest) st) (hedges : st'.edges = st.edges)
    (hle : ∀ j ∈ rest, item'.cycleRemained ≤ j.cycleRemained - 1)
    (hitem : (∀ j ∈ rest, 0 < j.cycleRemained) ∨
      ((st.edges (v, b.nextNode v item'.pack.tgt)).input item'.pack.cha).isSome) :
    b.Passed v (done ++ [item']) rest st' := by
  rw [Passed, hedges]
  refine ⟨fun i hi j hj ↦ ?_, fun i hi ↦ ?_⟩ <;> rcases List.mem_append.mp hi with hi | hi
  · exact h.1 i hi j (List.mem_cons_of_mem _ hj)
  · exact List.mem_singleton.mp hi ▸ hle j hj
  · exact (h.2 i hi).imp_left fun h j hj ↦ h j (List.mem_cons_of_mem _ hj)
  · exact List.mem_singleton.mp hi ▸ hitem

/-- A packet leaves the pipeline: the register it enters was free, so no item before it waits for
that register. -/
private theorem Passed.release {done rest : List PipelinedPack} {item : PipelinedPack}
    {st : PipelineLoop} {w : BusNodeT} (h : b.Passed v done (item :: rest) st)
    (hdue : item.cycleRemained = 0) (hfree : (st.edges (v, w)).input item.pack.cha = none) :
    b.Passed v done rest (st.release b (v, w) item.pack) := by
  refine ⟨fun i hi j hj ↦ h.1 i hi j (List.mem_cons_of_mem _ hj), fun i hi ↦ .inr ?_⟩
  have hsome := (h.2 i hi).resolve_left fun h ↦ (h item List.mem_cons_self).ne' hdue
  by_cases he : b.nextNode v i.pack.tgt = w
  · rw [he] at hsome ⊢
    by_cases hc : i.pack.cha = item.pack.cha
    · rw [hc, hfree] at hsome
      cases hsome
    · simpa [PipelineLoop.release, hc] using hsome
  · simpa [PipelineLoop.release, he] using hsome

private theorem bufferedPackets_pos {done rest : List PipelinedPack} {item : PipelinedPack}
    {st : PipelineLoop} (hs : b.Placed (st.state s v (done ++ item :: rest))) :
    (!b.config.congestion.enabled || decide (0 < st.bufferedPackets)) = true := by
  cases hen : b.config.congestion.enabled with
  | false => rfl
  | true =>
    have := ((hs.routers v).buffered hen).1
    simp only [state_nodes_self, List.length_append, List.length_cons] at this
    simp only [Bool.not_true, Bool.false_or, decide_eq_true_eq]
    omega

/-- The pipeline loop returns, and only moves packets to the next edges. -/
theorem pipelineLoop_spec (hb : b.WellFormed) (items : List PipelinedPack) :
    ∀ (done : List PipelinedPack) (st : PipelineLoop),
      b.Placed (st.state s v (done ++ items)) → b.Passed v done items st →
      ∃ kept st', b.pipelineLoop v items st = .ok (kept, st') ∧
        Evolves b (st.state s v (done ++ items)) (st'.state s v (done ++ kept)) := by
  induction items with
  | nil => exact fun done st hs _ ↦ ⟨[], st, rfl, .refl hs⟩
  | cons item rest ih =>
    intro done st hs hpassed
    have hsorted : ∀ j ∈ rest, item.cycleRemained ≤ j.cycleRemained := by
      have := (hs.routers v).sorted
      rw [state_nodes_self] at this
      exact (List.pairwise_cons.mp (List.pairwise_append.mp this).2.1).1
    rw [pipelineLoop]
    by_cases hage : 0 < item.cycleRemained
    · -- The packet ages by one cycle.
      set st₁ : PipelineLoop := { st with busy := true }
      set aged : PipelinedPack := ⟨item.pack, item.cycleRemained - 1⟩
      have hev : Evolves b (st.state s v (done ++ item :: rest))
          (st₁.state s v (done ++ aged :: rest)) :=
        PipelineLoop.evolves_age hs (by simp [aged]) rfl (routerOk_age hs hpassed rfl)
      have hpassed₁ : b.Passed v (done ++ [aged]) rest st₁ :=
        hpassed.stay rfl (fun j hj ↦ Nat.sub_le_sub_right (hsorted j hj) 1)
          (.inl fun j hj ↦ hage.trans_le (hsorted j hj))
      obtain ⟨kept, st', hloop, hev'⟩ :=
        ih (done ++ [aged]) st₁ (by simpa using hev.placed) hpassed₁
      refine ⟨aged :: kept, st', ?_, hev.trans (by simpa using hev')⟩
      rw [if_pos hage, hloop]
      rfl
    · have hdue : item.cycleRemained = 0 := Nat.eq_zero_of_not_pos hage
      have hmem : item.pack ∈ (st.state s v (done ++ item :: rest)).contents (.pipe v) := by
        simp [BusState.contents]
      have hp := hs.packs _ _ hmem
      obtain ⟨w, hw, -⟩ := exists_hop hb hp.flow (pipe_mem_stages.mp (hs.located _ _ hmem))
      replace hw : b.Hop item.pack.tgt v w := hp.tgt ▸ hw
      rw [if_neg hage, hw.nextHop_eq]
      have hedge : b.edgeIds.contains (v, w) = true := by simpa using hw.edge_mem hb
      cases hfree : (st.edges (v, w)).input item.pack.cha with
      | none =>
        have hev := PipelineLoop.evolves_release hb hs hpassed hdue hw hfree
        obtain ⟨kept, st', hloop, hev'⟩ := ih done _ hev.placed (hpassed.release hdue hfree)
        refine ⟨kept, st', ?_, hev.trans hev'⟩
        simp only [bind, Except.bind, hedge, bufferedPackets_pos hs, require_true, hfree]
        exact hloop
      | some q =>
        -- The packet stays where it is, and waits for the register.
        set st₁ : PipelineLoop :=
          { st with blockedCycles := st.blockedCycles + 1, busy := true }
        have hev : Evolves b (st.state s v (done ++ item :: rest))
            (st₁.state s v (done ++ item :: rest)) := by
          refine PipelineLoop.evolves_age hs rfl rfl ?_
          have hrouter := hs.routers v
          rw [state_nodes_self] at hrouter ⊢
          exact hrouter.congr rfl rfl rfl
        have hpassed₁ : b.Passed v (done ++ [item]) rest st₁ :=
          hpassed.stay rfl (fun j hj ↦ hdue ▸ Nat.zero_le _)
            (.inr (by rw [hw.nextNode_eq, hfree]; rfl))
        obtain ⟨kept, st', hloop, hev'⟩ :=
          ih (done ++ [item]) st₁ (by simpa using hev.placed) hpassed₁
        refine ⟨item :: kept, st', ?_, hev.trans (by simpa using hev')⟩
        simp only [bind, Except.bind, hedge, require_true, hfree]
        rw [hloop]
        rfl

theorem pipelinePhase_spec (hb : b.WellFormed) (hs : b.Placed s) (busy : Bool) :
    ∃ s' busy', b.pipelinePhase v s busy = .ok (s', busy') ∧ Evolves b s s' := by
  set st : PipelineLoop := ⟨s.edges, (s.nodes v).bufferedPackets, (s.nodes v).blockedCycles, busy⟩
  have hst : st.state s v ([] ++ (s.nodes v).pipeline) = s := s.setNode_self v
  obtain ⟨kept, st', hloop, hev⟩ := pipelineLoop_spec (s := s) hb (s.nodes v).pipeline [] st
    (hst ▸ hs) ⟨by simp, by simp⟩
  rw [hst] at hev
  refine ⟨_, st'.busy, ?_, hev⟩
  change (b.pipelineLoop v (s.nodes v).pipeline st >>= _) = _
  rw [hloop]
  rfl

/-! ## A node -/

theorem updateCongestionState_evolves (hs : b.Placed s) (v : BusNodeT) :
    Evolves b s (b.updateCongestionState v s) :=
  .of_setNode hs rfl rfl rfl

theorem processNode_spec (hb : b.WellFormed) (hs : b.Placed s) :
    ∃ s', b.processNode v s = .ok s' ∧ Evolves b s s' := by
  obtain ⟨s₁, busy₁, hs₁, hev₁⟩ := admitPhase_spec (v := v) hb hs
  obtain ⟨s₂, busy₂, hs₂, hev₂⟩ := pipelinePhase_spec (v := v) hb hev₁.placed busy₁
  have hev₃ := updateCongestionState_evolves hev₂.placed v
  have hev₄ : Evolves b (b.updateCongestionState v s₂)
      (countCycles v busy₂ (b.updateCongestionState v s₂)) :=
    .of_setNode hev₃.placed rfl rfl rfl
  refine ⟨_, ?_, ((hev₁.trans hev₂).trans hev₃).trans hev₄⟩
  rw [processNode, hs₁]
  simp only [bind, Except.bind, hs₂]
  rfl

/-! ## The edges -/

private theorem evolves_register (hb : b.WellFormed) {e : EdgeId} {edge : EdgeInChannel}
    {c : ChannelT} {p : MsgPack} (hs : b.Placed (s.setEdge e edge)) (hin : edge.input c = some p)
    (hout : edge.output c = none) (busy : ℕ) :
    Evolves b (s.setEdge e edge) (s.setEdge e
      { edge with
        input := Function.update edge.input c none
        output := Function.update edge.output c (some p)
        busyCycles := busy }) := by
  have hmem : p ∈ (s.setEdge e edge).contents (.input e c) := by
    simp [BusState.contents, hin]
  have hp := hs.packs _ p hmem
  have hplace := hs.located _ p hmem
  refine .of_shift hb hs (y := .input e c) (x := .output e c) (p := p) ?_ hs.routers (fun _ ↦ rfl)
    (fun _ ↦ rfl) ⟨fun _ ↦ rfl, rfl, rfl, rfl⟩
  exact {
    adjacent := input_output_adjacent hb hp.flow hplace
    first := ⟨[], [], by simp [BusState.contents, hin], by simp, by simp [BusState.contents]⟩
    target := by simp [BusState.contents, hout]
    others := fun z hzx hzy ↦ by
      cases z with
      | queue | pipe => rfl
      | input f c' =>
        by_cases hf : f = e
        · subst hf
          have hc : c' ≠ c := fun hc ↦ hzy (by rw [hc])
          simp [BusState.contents, hc]
        · simp [BusState.contents, BusState.edges_setEdge_ne _ _ _ hf]
      | output f c' =>
        by_cases hf : f = e
        · subst hf
          have hc : c' ≠ c := fun hc ↦ hzx (by rw [hc])
          simp [BusState.contents, hc]
        · simp [BusState.contents, BusState.edges_setEdge_ne _ _ _ hf] }

theorem edgeLoop_spec (hb : b.WellFormed) {e : EdgeId} (channels : List ChannelT) :
    ∀ (total : ℕ) (edge : EdgeInChannel), b.Placed (s.setEdge e edge) →
      Evolves b (s.setEdge e edge) (s.setEdge e (b.edgeLoop channels total edge)) := by
  induction channels with
  | nil => exact fun total edge hs ↦ .refl hs
  | cons c rest ih =>
    intro total edge hs
    rw [edgeLoop]
    split_ifs
    · exact .refl hs
    · split
      · rename_i p hin hout
        split_ifs
        · exact ih _ _ hs
        · have hev := evolves_register hb hs hin hout (edge.busyCycles + 1)
          exact hev.trans (ih _ _ hev.placed)
      · exact ih _ _ hs

theorem processEdge_spec (hb : b.WellFormed) (hs : b.Placed s) (e : EdgeId) :
    Evolves b s (b.processEdge s e) := by
  have := edgeLoop_spec (s := s) (e := e) hb (List.range b.chaCnt) 0 (s.edges e)
    (by rwa [s.setEdge_self])
  rwa [s.setEdge_self] at this

/-! ## The tick -/

theorem foldlM_processNode_spec (hb : b.WellFormed) (nodes : List BusNodeT) (hs : b.Placed s) :
    ∃ s', nodes.foldlM (fun s v ↦ b.processNode v s) s = .ok s' ∧ Evolves b s s' := by
  induction nodes generalizing s with
  | nil => exact ⟨s, rfl, .refl hs⟩
  | cons v nodes ih =>
    obtain ⟨s₁, hs₁, hev₁⟩ := processNode_spec (v := v) hb hs
    obtain ⟨s₂, hs₂, hev₂⟩ := ih hev₁.placed
    refine ⟨s₂, ?_, hev₁.trans hev₂⟩
    rw [List.foldlM_cons, hs₁]
    exact hs₂

theorem foldl_evolves {α : Type} {f : BusState → α → BusState}
    (hf : ∀ s a, b.Placed s → Evolves b s (f s a)) (l : List α) (hs : b.Placed s) :
    Evolves b s (l.foldl f s) := by
  induction l generalizing s with
  | nil => exact .refl hs
  | cons a l ih => exact (hf s a hs).trans (ih (hf s a hs).placed)

/-- From a state in which every packet is on its way, `apply_next_tick` returns, and it only moves
packets. -/
theorem applyNextTick_spec (hb : b.WellFormed) (hs : b.Placed s) :
    ∃ s₁ s', b.applyNextTick s = .ok s' ∧ Evolves b s s₁ ∧
      s' = { s₁ with
        currentTick := s₁.currentTick + 1
        stats := { s₁.stats with tick := s₁.currentTick + 1 } } := by
  obtain ⟨s₁, hs₁, hev₁⟩ := foldlM_processNode_spec hb b.nodeIds hs
  have hev₂ : Evolves b s₁ (b.edgeIds.foldl b.processEdge s₁) :=
    foldl_evolves (fun s e hs ↦ processEdge_spec hb hs e) b.edgeIds hev₁.placed
  have hev₃ : Evolves b (b.edgeIds.foldl b.processEdge s₁)
      (b.refreshAllCongestionStates (b.edgeIds.foldl b.processEdge s₁)) :=
    foldl_evolves (fun _ v hs ↦ updateCongestionState_evolves hs v) b.nodeIds hev₂.placed
  refine ⟨_, _, ?_, (hev₁.trans hev₂).trans hev₃, rfl⟩
  rw [applyNextTick, hs₁]
  rfl

end Bus

end Simbus
