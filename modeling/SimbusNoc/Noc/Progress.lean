import SimbusNoc.Noc.Reachable

/-!
# Progress of the network

A tick makes progress when a packet moves or a packet in a pipeline ages. A tick that makes none
has found every router waiting: its candidate was refused, every packet of its pipeline is due, and
the register that each of them needs is taken.

## No progress anywhere

A tick is made of turns of the nodes and of the edges, and each of them sees the state that the
ones before have left. If the tick as a whole has changed nothing, one might fear that one turn has
undone what another one did. But moves cannot be undone: each brings a packet closer to its end, so
the work that is left has gone down. Hence no turn has moved anything (`Evolves.contents_eq`), and
each of them can be examined in the state in which the tick began.

## What that means for each part

A router that moves nothing has refused its candidate and released nothing (`processNode_idles`),
and an edge that moves nothing is jammed on every channel that has a packet (`processEdge_jams`).
`Stuck` puts this together, and is what the search for a gridlock starts from.
-/

namespace Simbus

namespace Bus

variable (b : Bus)

/-! ## Progress -/

/-- What is on its way: the packets of every stage, and the counters of the pipelines. -/
def transit (s : BusState) : List (List MsgPack) × List (List ℕ) :=
  (b.allStages.map s.contents,
    b.nodeIds.map fun v ↦ (s.nodes v).pipeline.map PipelinedPack.cycleRemained)

/-- Some send buffer, pipeline or edge holds a packet. -/
def Loaded (s : BusState) : Prop := ∃ y, s.contents y ≠ []

/-- The next tick returns, and moves a packet or decrements a counter of a pipeline. -/
def Progresses (s : BusState) : Prop :=
  ∃ s', b.applyNextTick s = .ok s' ∧ b.transit s' ≠ b.transit s

instance (s : BusState) : Decidable (b.Progresses s) :=
  decidable_of_iff ((b.applyNextTick s).toOption.any fun s' ↦ b.transit s' != b.transit s) (by
    cases h : b.applyNextTick s <;> simp [Progresses, h, Except.toOption])

variable {b} {v : BusNodeT} {s s' : BusState}

theorem contents_eq_of_transit_eq (hb : b.WellFormed) (h : b.Placed s) (h' : b.Placed s')
    (heq : b.transit s' = b.transit s) : s'.contents = s.contents := by
  funext y
  by_cases hy : y ∈ b.allStages
  · exact List.map_inj_left.mp (Prod.mk.inj heq).1 y hy
  · have hempty : ∀ {t : BusState}, b.Placed t → t.contents y = [] := fun ht ↦
      List.eq_nil_iff_forall_not_mem.mpr fun p hp ↦ hy (ht.mem_allStages hb hp)
    rw [hempty h, hempty h']

theorem counters_eq_of_transit_eq (heq : b.transit s' = b.transit s) (hv : v ∈ b.nodeIds) :
    (s'.nodes v).pipeline.map PipelinedPack.cycleRemained =
      (s.nodes v).pipeline.map PipelinedPack.cycleRemained :=
  List.map_inj_left.mp (Prod.mk.inj heq).2 v hv

/-! ## A router that moves nothing

Followed through its turn: its candidate was refused, and every packet that is due found its
register taken. Then its packets and pointers are as they were, and only ages have changed.
-/

/-- The packet that router `v` considers, if there is one, is refused. -/
def Refuses (b : Bus) (v : BusNodeT) (s : BusState) : Prop :=
  ∀ p, (b.findCandidate v s).2.pack? = some p → b.canAcceptCandidate v (s.nodes v) p = false

theorem deliverToLocalPort_contents {p : MsgPack} (h : b.deliverToLocalPort v s p = .ok s') :
    s'.contents = s.contents := by
  obtain ⟨_, hmem, -⟩ := Except.bind_eq_ok_iff.mp h
  rw [require_eq_ok_iff, List.contains_iff_mem] at hmem
  obtain ⟨s₁, hs₁, hdel⟩ := deliverToLocalPort_spec (b := b) (s := s) hmem
  obtain rfl := Except.ok.inj (h.symm.trans hs₁)
  exact hdel.contents

theorem admitCandidate_contents {p : MsgPack} (h : b.admitCandidate v s p = .ok s') {y : Stage}
    (hy : y ≠ .pipe v) : s'.contents y = s.contents y := by
  unfold admitCandidate at h
  by_cases htgt : p.tgt = v
  · rw [if_pos htgt] at h
    obtain ⟨s₁, hs₁, h⟩ := Except.bind_eq_ok_iff.mp h
    rw [← Except.ok.inj h, ← deliverToLocalPort_contents hs₁]
    exact s₁.contents_setNode v _ hy
  · rw [if_neg htgt] at h
    rw [← Except.ok.inj h]
    exact s.contents_setNode v _ hy

/-- A delivered packet enters no stage. -/
theorem admitCandidate_contents_of_tgt {p : MsgPack} (h : b.admitCandidate v s p = .ok s')
    (htgt : p.tgt = v) : s'.contents = s.contents := by
  rw [admitCandidate, if_pos htgt] at h
  obtain ⟨s₁, hs₁, h⟩ := Except.bind_eq_ok_iff.mp h
  rw [← Except.ok.inj h, ← deliverToLocalPort_contents hs₁]
  funext y
  by_cases hy : y = .pipe v
  · subst hy
    simp [BusState.contents]
  · exact s₁.contents_setNode v _ hy

/-- The stage a candidate is taken from. -/
def Candidate.stage? : Candidate → Option Stage
  | .none => Option.none
  | .edgeOutput e c _ => some (.output e c)
  | .portSend q c _ => some (.queue q c)

/-- The candidate that is admitted leaves the front of its stage. -/
theorem exists_detached {p : MsgPack} (hpack : (b.findCandidate v s).2.pack? = some p)
    {s₁ : BusState}
    (h : b.detachCandidate v (b.findCandidate v s).1 (b.findCandidate v s).2 = .ok s₁) :
    ∃ y, (b.findCandidate v s).2.stage? = some y ∧ (∀ u, y ≠ .pipe u) ∧
      Detached (b.findCandidate v s).1 s₁ y p := by
  obtain ⟨r, q, hs₀, hoffer⟩ := findCandidate_spec b v s
  rcases hfind : b.findCandidate v s with ⟨s₀, cand⟩
  rw [hfind] at h hs₀ hoffer hpack
  dsimp only at h hs₀ hoffer hpack
  cases cand with
  | none => cases hpack
  | edgeOutput e c p' =>
    obtain rfl := Option.some.inj hpack
    have hout : (s₀.edges e).output c = some p' := by
      rw [hs₀]
      exact hoffer.2
    obtain ⟨s₂, hs₂, hdet⟩ := detachCandidate_edge (b := b) (v := v) hout
    obtain rfl := Except.ok.inj (h.symm.trans hs₂)
    exact ⟨_, rfl, fun _ ↦ by simp, hdet⟩
  | portSend port c p' =>
    obtain rfl := Option.some.inj hpack
    have hhead : ((s₀.ports port).sendBuf c).head? = some p' := by
      rw [hs₀]
      exact hoffer.2
    obtain ⟨s₂, hs₂, hdet⟩ := detachCandidate_port (b := b) (v := v) hhead
    obtain rfl := Except.ok.inj (h.symm.trans hs₂)
    exact ⟨_, rfl, fun _ ↦ by simp, hdet⟩

/-- A first half that moves nothing has refused its candidate, and changes neither the pipelines nor
the edges. -/
theorem admitPhase_refuses {busy : Bool} (h : b.admitPhase v s = .ok (s', busy))
    (heq : s'.contents = s.contents) :
    b.Refuses v s ∧ s'.edges = s.edges ∧ (s'.nodes v).pipeline = (s.nodes v).pipeline := by
  obtain ⟨r, q, hs₀, -⟩ := findCandidate_spec b v s
  rcases admitPhase_cases h with ⟨hnone, rfl⟩ | ⟨p, hpack, ⟨hrefuse, rfl⟩ | ⟨-, s₁, hdet, htake⟩⟩
  · refine ⟨fun p hp ↦ ?_, by rw [hs₀, BusState.edges_setNode], by rw [hs₀, s.nodes_setNode_self]⟩
    rw [hnone] at hp
    cases hp
  · refine ⟨fun p' hp' ↦ ?_, by rw [countBlocked, hs₀]; rfl, by
      rw [countBlocked, hs₀, BusState.nodes_setNode_self, s.nodes_setNode_self]⟩
    obtain rfl := Option.some.inj (hpack.symm.trans hp')
    exact hrefuse
  · -- An admitted packet leaves its stage.
    obtain ⟨y, -, hy, hdetached⟩ := exists_detached hpack hdet
    have hfront := hdetached.front
    rw [findCandidate_contents, ← heq, admitCandidate_contents htake (hy v)] at hfront
    exact absurd hfront.symm (List.cons_ne_self p _)

/-- A packet of a pipeline after a cycle in which it did not move. -/
def age (item : PipelinedPack) : PipelinedPack := ⟨item.pack, item.cycleRemained - 1⟩

theorem age_of_due {item : PipelinedPack} (h : item.cycleRemained = 0) : age item = item := by
  rw [age, h, Nat.zero_sub, ← h]

/-- A pipeline loop releases packets or keeps them all, and then every packet that is due has found
its register taken. -/
theorem pipelineLoop_cases (items : List PipelinedPack) :
    ∀ {st st' : PipelineLoop} {kept : List PipelinedPack},
      b.pipelineLoop v items st = .ok (kept, st') →
      kept.length < items.length ∨
        (kept = items.map age ∧ st'.edges = st.edges ∧
          ∀ i ∈ items, i.cycleRemained = 0 → ∀ w, b.nextHop v i.pack.tgt = .ok w →
            (st.edges (v, w)).input i.pack.cha ≠ none) := by
  -- Over the items, for any registers: as long as nothing is released these are what they were.
  induction items with
  | nil =>
    intro st st' kept h
    obtain ⟨rfl, rfl⟩ := Prod.mk.inj (Except.ok.inj h)
    exact .inr ⟨rfl, rfl, by simp⟩
  | cons item rest ih =>
    intro st st' kept h
    rw [pipelineLoop] at h
    by_cases hage : 0 < item.cycleRemained
    · rw [if_pos hage] at h
      obtain ⟨⟨kept₁, st₁⟩, hloop, h⟩ := Except.bind_eq_ok_iff.mp h
      obtain ⟨rfl, rfl⟩ := Prod.mk.inj (Except.ok.inj h)
      rcases ih hloop with hlt | ⟨rfl, hedges, hall⟩
      · exact .inl (Nat.succ_lt_succ hlt)
      · refine .inr ⟨rfl, hedges, fun i hi hdue w hw ↦ ?_⟩
        rcases List.mem_cons.mp hi with rfl | hi
        · exact absurd hdue hage.ne'
        · exact hall i hi hdue w hw
    · rw [if_neg hage] at h
      obtain ⟨w, hw, h⟩ := Except.bind_eq_ok_iff.mp h
      obtain ⟨_, -, h⟩ := Except.bind_eq_ok_iff.mp h
      dsimp only at h
      split at h
      · -- The packet is released.
        obtain ⟨_, -, hloop⟩ := Except.bind_eq_ok_iff.mp h
        left
        rcases ih hloop with hlt | ⟨rfl, -, -⟩
        · exact hlt.trans (Nat.lt_succ_self _)
        · simp
      · rename_i q hq
        obtain ⟨⟨kept₁, st₁⟩, hloop, h⟩ := Except.bind_eq_ok_iff.mp h
        obtain ⟨rfl, rfl⟩ := Prod.mk.inj (Except.ok.inj h)
        rcases ih hloop with hlt | ⟨rfl, hedges, hall⟩
        · exact .inl (Nat.succ_lt_succ hlt)
        · have hzero : item.cycleRemained = 0 := Nat.eq_zero_of_not_pos hage
          refine .inr ⟨?_, hedges, fun i hi hdue u hu ↦ ?_⟩
          · rw [List.map_cons, age_of_due hzero]
          · rcases List.mem_cons.mp hi with rfl | hi
            · obtain rfl := Except.ok.inj (hw.symm.trans hu)
              rw [hq]
              exact Option.some_ne_none q
            · exact hall i hi hdue u hu

/-- A pipeline phase releases packets or ages all it has. -/
theorem pipelinePhase_cases {busy busy' : Bool} (h : b.pipelinePhase v s busy = .ok (s', busy')) :
    (s'.nodes v).pipeline.length < (s.nodes v).pipeline.length ∨
      ((s'.nodes v).pipeline = (s.nodes v).pipeline.map age ∧ s'.contents = s.contents ∧
        ∀ i ∈ (s.nodes v).pipeline, i.cycleRemained = 0 → ∀ w, b.nextHop v i.pack.tgt = .ok w →
          (s.edges (v, w)).input i.pack.cha ≠ none) := by
  obtain ⟨⟨kept, st⟩, hloop, h⟩ := Except.bind_eq_ok_iff.mp h
  obtain ⟨rfl, -⟩ := Prod.mk.inj (Except.ok.inj h)
  rw [BusState.nodes_setNode_self]
  refine (pipelineLoop_cases _ hloop).imp_right ?_
  rintro ⟨rfl, hedges, hblocked⟩
  refine ⟨rfl, funext fun y ↦ ?_, hblocked⟩
  by_cases hy : y = .pipe v
  · subst hy
    simp [BusState.contents, age]
  · rw [BusState.contents_setNode _ _ _ hy]
    cases y <;> simp only [BusState.contents, hedges]

/-! The other nodes are left alone. -/

section Frame

variable {u : BusNodeT} (hu : u ≠ v)
include hu

theorem findCandidate_nodes_ne : (b.findCandidate v s).1.nodes u = s.nodes u := by
  obtain ⟨r, q, hs₀, -⟩ := findCandidate_spec b v s
  rw [hs₀, s.nodes_setNode_ne v _ hu]

theorem detachCandidate_nodes_ne {cand : Candidate} (h : b.detachCandidate v s cand = .ok s') :
    s'.nodes u = s.nodes u := by
  cases cand with
  | none => rw [← Except.ok.inj h]
  | edgeOutput e c p =>
    obtain ⟨_, -, h⟩ := Except.bind_eq_ok_iff.mp h
    rw [← Except.ok.inj h]
    exact BusState.nodes_setNode_ne _ _ _ hu
  | portSend q c p =>
    obtain ⟨_, -, h⟩ := Except.bind_eq_ok_iff.mp h
    rw [← Except.ok.inj h]
    exact BusState.nodes_setNode_ne _ _ _ hu

theorem deliverToLocalPort_nodes_ne {p : MsgPack} (h : b.deliverToLocalPort v s p = .ok s') :
    s'.nodes u = s.nodes u := by
  obtain ⟨_, -, h⟩ := Except.bind_eq_ok_iff.mp h
  dsimp only at h
  split_ifs at h
  · rw [← Except.ok.inj h]
    rfl
  · rw [← Except.ok.inj h]
    exact BusState.nodes_setNode_ne _ _ _ hu
  · rw [← Except.ok.inj h]
    exact BusState.nodes_setNode_ne _ _ _ hu

theorem admitCandidate_nodes_ne {p : MsgPack} (h : b.admitCandidate v s p = .ok s') :
    s'.nodes u = s.nodes u := by
  unfold admitCandidate at h
  by_cases htgt : p.tgt = v
  · rw [if_pos htgt] at h
    obtain ⟨s₁, hs₁, h⟩ := Except.bind_eq_ok_iff.mp h
    rw [← Except.ok.inj h, ← deliverToLocalPort_nodes_ne hu hs₁]
    exact BusState.nodes_setNode_ne _ _ _ hu
  · rw [if_neg htgt] at h
    rw [← Except.ok.inj h]
    exact BusState.nodes_setNode_ne _ _ _ hu

theorem admitPhase_nodes_ne {busy : Bool} (h : b.admitPhase v s = .ok (s', busy)) :
    s'.nodes u = s.nodes u := by
  have hfind := findCandidate_nodes_ne (b := b) (s := s) hu
  rcases admitPhase_cases h with ⟨-, rfl⟩ | ⟨p, -, ⟨-, rfl⟩ | ⟨-, s₁, hdet, htake⟩⟩
  · exact hfind
  · exact (BusState.nodes_setNode_ne _ _ _ hu).trans hfind
  · rw [admitCandidate_nodes_ne hu htake, detachCandidate_nodes_ne hu hdet, hfind]

theorem processNode_nodes_ne (h : b.processNode v s = .ok s') : s'.nodes u = s.nodes u := by
  obtain ⟨⟨s₁, busy₁⟩, hs₁, h⟩ := Except.bind_eq_ok_iff.mp h
  obtain ⟨⟨s₂, busy₂⟩, hs₂, h⟩ := Except.bind_eq_ok_iff.mp h
  obtain ⟨⟨kept, st⟩, -, hs₂⟩ := Except.bind_eq_ok_iff.mp hs₂
  obtain ⟨rfl, -⟩ := Prod.mk.inj (Except.ok.inj hs₂)
  rw [← Except.ok.inj h, countCycles, BusState.nodes_setNode_ne _ _ _ hu, updateCongestionState,
    BusState.nodes_setNode_ne _ _ _ hu, BusState.nodes_setNode_ne _ _ _ hu]
  change s₁.nodes u = _
  exact admitPhase_nodes_ne hu hs₁

end Frame

/-- What a router that moves nothing leaves behind: a refused candidate, and a pipeline in which
every packet has aged and every packet that was due has found its register taken. -/
structure Idles (b : Bus) (v : BusNodeT) (s s' : BusState) : Prop where
  refuses : b.Refuses v s
  aged : (s'.nodes v).pipeline = (s.nodes v).pipeline.map age
  blocked : ∀ i ∈ (s.nodes v).pipeline, i.cycleRemained = 0 → ∀ w,
    b.nextHop v i.pack.tgt = .ok w → (s.edges (v, w)).input i.pack.cha ≠ none

theorem contents_updateCongestionState (v : BusNodeT) (s : BusState) :
    (b.updateCongestionState v s).contents = s.contents := by
  funext y
  by_cases hy : y = .pipe v
  · subst hy
    simp [updateCongestionState, BusState.contents]
  · exact s.contents_setNode v _ hy

theorem contents_countCycles (v : BusNodeT) (busy : Bool) (s : BusState) :
    (countCycles v busy s).contents = s.contents := by
  funext y
  by_cases hy : y = .pipe v
  · subst hy
    simp [countCycles, BusState.contents]
  · exact s.contents_setNode v _ hy

theorem contents_refreshAllCongestionStates (s : BusState) :
    (b.refreshAllCongestionStates s).contents = s.contents := by
  rw [refreshAllCongestionStates]
  induction b.nodeIds generalizing s with
  | nil => rfl
  | cons v rest ih => exact (ih _).trans (contents_updateCongestionState v s)

theorem processNode_idles (hb : b.WellFormed) (hs : b.Placed s) (h : b.processNode v s = .ok s')
    (heq : s'.contents = s.contents) : b.Idles v s s' := by
  obtain ⟨s₁, busy₁, hs₁, hev₁⟩ := admitPhase_spec (v := v) hb hs
  obtain ⟨s₂, busy₂, hs₂, hev₂⟩ := pipelinePhase_spec (v := v) hb hev₁.placed busy₁
  have hs' : s' = countCycles v busy₂ (b.updateCongestionState v s₂) := by
    rw [processNode, hs₁] at h
    simp only [bind, Except.bind, hs₂] at h
    exact (Except.ok.inj h).symm
  have hcontents : s'.contents = s₂.contents := by
    rw [hs', contents_countCycles, contents_updateCongestionState]
  have hpipe : (s'.nodes v).pipeline = (s₂.nodes v).pipeline := by
    rw [hs', countCycles, updateCongestionState, BusState.setNode_setNode,
      BusState.nodes_setNode_self, BusState.nodes_setNode_self]
  rw [hcontents] at heq
  have heq₁ := hev₁.contents_eq hev₂ heq
  obtain ⟨hrefuse, hedges, hpipe₁⟩ := admitPhase_refuses hs₁ heq₁
  rcases pipelinePhase_cases hs₂ with hlt | ⟨haged, -, hblocked⟩
  · -- A packet that is released leaves the pipeline.
    have hsame := congrArg List.length (congrFun (heq.trans heq₁.symm) (.pipe v))
    simp only [BusState.contents, List.length_map] at hsame
    exact absurd hsame hlt.ne
  · exact ⟨hrefuse, by rw [hpipe, haged, hpipe₁], by rw [← hpipe₁, ← hedges]; exact hblocked⟩

/-! ## An edge that moves nothing

Of the channels of an edge the first that can move does. So each has an empty input register, or a
full output register.
-/

theorem input_edgeLoop_none {c : ChannelT} (channels : List ChannelT) :
    ∀ {total : ℕ} {edge : EdgeInChannel}, edge.input c = none →
      (b.edgeLoop channels total edge).input c = none := by
  induction channels with
  | nil => exact id
  | cons d rest ih =>
    intro total edge h
    rw [edgeLoop]
    split_ifs
    · exact h
    · split
      · split_ifs
        · exact ih h
        · refine ih ?_
          by_cases hc : c = d
          · rw [hc]
            exact Function.update_self ..
          · exact (Function.update_of_ne hc ..).trans h
      · exact ih h

/-- The first packet that can move does, so when none has moved, none could. -/
theorem edgeLoop_waits (hb : b.WellFormed) {edge : EdgeInChannel} (channels : List ChannelT)
    (h : ∀ c ∈ channels, (b.edgeLoop channels 0 edge).input c = edge.input c) {c : ChannelT}
    (hc : c ∈ channels) (hin : edge.input c ≠ none) : edge.output c ≠ none := by
  induction channels with
  | nil => cases hc
  | cons d rest ih =>
    rw [edgeLoop, if_neg (Nat.not_le.mpr hb.link_pos)] at h
    split at h
    · rename_i p hd _
      rw [if_neg fun h ↦ absurd h.1 (lt_irrefl 0)] at h
      have hgone := h d List.mem_cons_self
      rw [input_edgeLoop_none _ (Function.update_self ..), hd] at hgone
      cases hgone
    · rename_i hmatch
      rcases List.mem_cons.mp hc with rfl | hc
      · obtain ⟨p, hp⟩ := Option.ne_none_iff_exists'.mp hin
        exact hmatch p hp
      · exact ih (fun c hc ↦ h c (List.mem_cons_of_mem d hc)) hc

theorem toList_injective {α : Type} :
    Function.Injective (fun x : Option α ↦ x.toList) := by
  rintro (_ | x) (_ | y) h
  · rfl
  · cases h
  · cases h
  · rw [List.singleton_injective h]

theorem input_eq (h : s'.contents = s.contents) (e : EdgeId) (c : ChannelT) :
    (s'.edges e).input c = (s.edges e).input c :=
  toList_injective (congrFun h (.input e c))

theorem output_eq (h : s'.contents = s.contents) (e : EdgeId) (c : ChannelT) :
    (s'.edges e).output c = (s.edges e).output c :=
  toList_injective (congrFun h (.output e c))

theorem sendBuf_eq (h : s'.contents = s.contents) (p : BusPortT) (c : ChannelT) :
    (s'.ports p).sendBuf c = (s.ports p).sendBuf c :=
  congrFun h (.queue p c)

/-- No packet of the edge can move to its output register. -/
def Jams (b : Bus) (e : EdgeId) (s : BusState) : Prop :=
  ∀ c < b.chaCnt, (s.edges e).input c ≠ none → (s.edges e).output c ≠ none

theorem processEdge_jams (hb : b.WellFormed) {e : EdgeId}
    (heq : (b.processEdge s e).contents = s.contents) : b.Jams e s := by
  intro c hc hin
  refine edgeLoop_waits hb (List.range b.chaCnt) (fun d _ ↦ ?_) (List.mem_range.mpr hc) hin
  have h := input_eq heq e d
  rwa [processEdge, BusState.edges_setEdge_self] at h

/-! ## A tick that moves nothing

The turns come one after the other, but as none of them moves anything, each sees the packets of
the state in which the tick began, and what is known of the turns can be said of that one state.
-/

theorem findCandidate_congr {s₁ : BusState} (hcontents : s₁.contents = s.contents)
    (hnode : s₁.nodes v = s.nodes v) :
    (b.findCandidate v s₁).2 = (b.findCandidate v s).2 := by
  have hout : b.firstOutput s₁ = b.firstOutput s := by
    funext e
    simp only [firstOutput, output_eq hcontents]
  have hqueue : b.firstQueued s₁ = b.firstQueued s := by
    funext p
    simp only [firstQueued, sendBuf_eq hcontents]
  simp only [findCandidate, hnode, hout, hqueue]
  split
  · rfl
  · split <;> rfl

theorem Refuses.congr {s₁ : BusState} (h : b.Refuses v s₁) (hcontents : s₁.contents = s.contents)
    (hnode : s₁.nodes v = s.nodes v) : b.Refuses v s := by
  intro p hp
  rw [← findCandidate_congr hcontents hnode] at hp
  rw [← hnode]
  exact h p hp

theorem Idles.congr {s₁ : BusState} (h : b.Idles v s₁ s') (hcontents : s₁.contents = s.contents)
    (hnode : s₁.nodes v = s.nodes v) {s₂ : BusState} (hnode' : s₂.nodes v = s'.nodes v) :
    b.Idles v s s₂ := by
  refine ⟨h.refuses.congr hcontents hnode, by rw [hnode', h.aged, hnode], fun i hi hdue w hw ↦ ?_⟩
  rw [← input_eq hcontents]
  exact h.blocked i (hnode ▸ hi) hdue w hw

/-- Nodes that move nothing have all idled. -/
theorem foldlM_idles (hb : b.WellFormed) (nodes : List BusNodeT) :
    ∀ {s s' : BusState}, b.Placed s → nodes.Nodup →
      nodes.foldlM (fun s v ↦ b.processNode v s) s = .ok s' → s'.contents = s.contents →
      (∀ v ∈ nodes, b.Idles v s s') ∧ ∀ v ∉ nodes, s'.nodes v = s.nodes v := by
  induction nodes with
  | nil =>
    intro s s' _ _ h _
    rw [← Except.ok.inj h]
    exact ⟨by simp, fun _ _ ↦ rfl⟩
  | cons u rest ih =>
    intro s s' hs hnodup h heq
    obtain ⟨hnot, hnodup⟩ := List.nodup_cons.mp hnodup
    rw [List.foldlM_cons] at h
    obtain ⟨s₁, hs₁, h⟩ := Except.bind_eq_ok_iff.mp h
    obtain ⟨t₁, ht₁, hev₁⟩ := processNode_spec (v := u) hb hs
    obtain rfl := Except.ok.inj (ht₁.symm.trans hs₁)
    obtain ⟨t₂, ht₂, hev₂⟩ := foldlM_processNode_spec hb rest hev₁.placed
    obtain rfl := Except.ok.inj (ht₂.symm.trans h)
    have heq₁ := hev₁.contents_eq hev₂ heq
    obtain ⟨hrest, hothers⟩ := ih hev₁.placed hnodup h (heq.trans heq₁.symm)
    have hframe : ∀ v ≠ u, t₁.nodes v = s.nodes v := fun v hv ↦ processNode_nodes_ne hv hs₁
    refine ⟨fun v hv ↦ ?_, fun v hv ↦ ?_⟩
    · by_cases hvu : v = u
      · subst hvu
        exact (processNode_idles hb hs hs₁ heq₁).congr rfl rfl (hothers v hnot)
      · exact (hrest v ((List.mem_cons.mp hv).resolve_left hvu)).congr heq₁ (hframe v hvu) rfl
    · rw [List.mem_cons, not_or] at hv
      rw [hothers v hv.2, hframe v hv.1]

theorem foldl_processEdge_jams (hb : b.WellFormed) (edges : List EdgeId) :
    ∀ {s : BusState}, b.Placed s → (edges.foldl b.processEdge s).contents = s.contents →
      ∀ e ∈ edges, b.Jams e s := by
  induction edges with
  | nil => simp
  | cons f rest ih =>
    intro s hs heq
    have hev := processEdge_spec hb hs f
    have hrest : Evolves b (b.processEdge s f) (rest.foldl b.processEdge (b.processEdge s f)) :=
      foldl_evolves (fun s e hs ↦ processEdge_spec hb hs e) rest hev.placed
    have heq₁ := hev.contents_eq hrest heq
    intro e he
    rcases List.mem_cons.mp he with rfl | he
    · exact processEdge_jams hb heq₁
    · intro c hc
      rw [← input_eq heq₁, ← output_eq heq₁]
      exact ih hev.placed (heq.trans heq₁.symm) e he c hc

theorem nodes_foldl_processEdge (edges : List EdgeId) (s : BusState) :
    (edges.foldl b.processEdge s).nodes = s.nodes := by
  induction edges generalizing s with
  | nil => rfl
  | cons e rest ih => exact ih (b.processEdge s e)

theorem pipeline_updateCongestionState (u v : BusNodeT) (s : BusState) :
    ((b.updateCongestionState u s).nodes v).pipeline = (s.nodes v).pipeline := by
  by_cases hv : v = u
  · rw [hv, updateCongestionState, BusState.nodes_setNode_self]
  · rw [updateCongestionState, BusState.nodes_setNode_ne _ _ _ hv]

theorem pipeline_refreshAllCongestionStates (v : BusNodeT) (s : BusState) :
    ((b.refreshAllCongestionStates s).nodes v).pipeline = (s.nodes v).pipeline := by
  rw [refreshAllCongestionStates]
  induction b.nodeIds generalizing s with
  | nil => rfl
  | cons u rest ih => exact (ih _).trans (pipeline_updateCongestionState u v s)

/-- Nothing can move: every router refuses its candidate, every packet of a pipeline is due and
finds its register taken, and every edge is jammed. -/
structure Stuck (b : Bus) (s : BusState) : Prop where
  refuses : ∀ v ∈ b.nodeIds, b.Refuses v s
  due : ∀ v ∈ b.nodeIds, ∀ i ∈ (s.nodes v).pipeline, i.cycleRemained = 0
  blocked : ∀ v ∈ b.nodeIds, ∀ i ∈ (s.nodes v).pipeline, ∀ w, b.nextHop v i.pack.tgt = .ok w →
    (s.edges (v, w)).input i.pack.cha ≠ none
  jams : ∀ e ∈ b.edgeIds, b.Jams e s

/-- In a tick that moves no packet every node has idled and every edge is jammed. -/
theorem applyNextTick_idles (hb : b.WellFormed) (hs : b.Placed s) (h : b.applyNextTick s = .ok s')
    (heq : s'.contents = s.contents) :
    (∀ v ∈ b.nodeIds, b.Idles v s s') ∧ ∀ e ∈ b.edgeIds, b.Jams e s := by
  obtain ⟨s₁, hs₁, hev₁⟩ := foldlM_processNode_spec hb b.nodeIds hs
  obtain ⟨s₂, hs₂⟩ : ∃ s₂, s₂ = b.edgeIds.foldl b.processEdge s₁ := ⟨_, rfl⟩
  have hev₂ : Evolves b s₁ s₂ := by
    rw [hs₂]
    exact foldl_evolves (fun s e hs ↦ processEdge_spec hb hs e) b.edgeIds hev₁.placed
  have hev₃ : Evolves b s₂ (b.refreshAllCongestionStates s₂) :=
    foldl_evolves (fun _ v hs ↦ updateCongestionState_evolves hs v) b.nodeIds hev₂.placed
  obtain ⟨s₃, hs₃⟩ : ∃ s₃, s₃ = b.refreshAllCongestionStates s₂ := ⟨_, rfl⟩
  rw [← hs₃] at hev₃
  obtain ⟨hcontents, hnodes⟩ : s'.contents = s₃.contents ∧ s'.nodes = s₃.nodes := by
    rw [applyNextTick, hs₁] at h
    obtain rfl := Except.ok.inj h
    rw [hs₃, hs₂]
    exact ⟨funext fun y ↦ by cases y <;> rfl, rfl⟩
  have heq₂ : s₂.contents = s.contents :=
    (hev₁.trans hev₂).contents_eq hev₃ (hcontents.symm.trans heq)
  have heq₁ : s₁.contents = s.contents := hev₁.contents_eq hev₂ heq₂
  have hidles := (foldlM_idles hb b.nodeIds hs hb.nodes_nodup hs₁ heq₁).1
  have hpipe : ∀ v, (s'.nodes v).pipeline = (s₁.nodes v).pipeline := fun v ↦ by
    rw [hnodes, hs₃, pipeline_refreshAllCongestionStates, hs₂, nodes_foldl_processEdge]
  refine ⟨fun v hv ↦ ⟨(hidles v hv).refuses, by rw [hpipe, (hidles v hv).aged],
    (hidles v hv).blocked⟩, fun e he c hc ↦ ?_⟩
  rw [← input_eq heq₁, ← output_eq heq₁]
  exact foldl_processEdge_jams hb b.edgeIds hev₁.placed (hs₂ ▸ heq₂.trans heq₁.symm) e he c hc

theorem stuck_of_not_progresses (hb : b.WellFormed) (hs : b.Placed s) (h : ¬b.Progresses s) :
    b.Stuck s := by
  obtain ⟨s₁, s', hs', hev, hcontents, hnodes⟩ := contents_applyNextTick hb hs
  have htransit : b.transit s' = b.transit s := by
    by_contra hne
    exact h ⟨s', hs', hne⟩
  obtain ⟨hidles, hjams⟩ := applyNextTick_idles hb hs hs'
    (contents_eq_of_transit_eq hb hs (hev.placed.congr hcontents hnodes) htransit)
  -- The counters are the old ones and have all gone down.
  have hdue : ∀ v ∈ b.nodeIds, ∀ i ∈ (s.nodes v).pipeline, i.cycleRemained = 0 := by
    intro v hv i hi
    have hcounters := counters_eq_of_transit_eq htransit hv
    rw [(hidles v hv).aged, List.map_map, List.map_inj_left] at hcounters
    have hless : i.cycleRemained - 1 = i.cycleRemained := hcounters i hi
    omega
  exact ⟨fun v hv ↦ (hidles v hv).refuses, hdue, fun v hv i hi ↦
    (hidles v hv).blocked i hi (hdue v hv i hi), hjams⟩

end Bus

end Simbus
