import SimbusNoc.Noc.Fairness
import SimbusNoc.Noc.Latency

/-!
# A message alone in the network

In an empty network without congestion control nothing holds up the packets of a message. They
leave the send buffer one a tick, and from then on no two of them are ever due at the same time, so
that no two meet in front of a router, in a pipeline or at a register. Every tick takes one off
what is due for each of them, and the last one is delivered in the tick in which it can be
delivered at the earliest.

## The invariant

`Lone` says where every packet is, `k` ticks after the message has been accepted: what is due for
packet `i` is the earliest time for it less `k`, and the packets for which that time has passed
have reached the node. All packets are due at different times. Two packets that competed for a
register or for the turn of a router would be due at the same time, which is the reason why none
ever waits (`eq_of_due`).

## Calls in between

Calls that send nothing may be made meanwhile. They leave the stages and the order lists alone, and
a `recv` at the port of the message finds nothing before the message is whole.
-/

namespace Simbus

open Stages

namespace Bus

variable {b : Bus} {f : Flow} {packs : List MsgPack} {serial k a : ℕ} {s s' : BusState}
  {w w' : View} {p q : MsgPack}

/-! ## Arrivals -/

/-- The packets of one message and no others are on their way, and `a` of them have reached their
node. -/
structure LoneView (b : Bus) (f : Flow) (packs : List MsgPack) (a : ℕ) (w : View) : Prop where
  arrived_le : a ≤ packs.length
  travel : w.travel f = packs.drop a
  others : ∀ f', f' ≠ f → w.travel f' = []
  order : ∀ p ∈ packs,
    w.order (b.home f.dst) p.xmtid = if a = packs.length then [] else packs.take a
  recvBuf : w.recvBuf f.dst f.cha = if a = packs.length then packs else []

theorem LoneView.arrive (hpacks : b.Batch f serial packs) (h : b.LoneView f packs a w)
    (harrive : Arrive b w w') : b.LoneView f packs (a + 1) w' := by
  obtain ⟨p, t, hp, rfl⟩ := harrive
  have hflow : p.flow = f := by
    by_contra hne
    rw [h.others _ hne] at hp
    cases hp
  rw [hflow, h.travel] at hp
  have ha : a < packs.length := by
    by_contra hge
    rw [List.drop_eq_nil_of_le (Nat.le_of_not_lt hge)] at hp
    cases hp
  rw [List.drop_eq_getElem_cons ha] at hp
  obtain ⟨hpa, ht⟩ := List.cons.inj hp
  have hmem : p ∈ packs := hpa ▸ List.getElem_mem ha
  have hdst : p.dst = f.dst := congrArg Flow.dst hflow
  have hcha : p.cha = f.cha := congrArg Flow.cha hflow
  have hlist : w.order (b.home f.dst) p.xmtid = packs.take a := by
    rw [h.order p hmem, if_neg ha.ne]
  have hempty : w.recvBuf f.dst f.cha = [] := by rw [h.recvBuf, if_neg ha.ne]
  have hinsert : orderInsert p (w.order (b.home f.dst) p.xmtid) = packs.take (a + 1) := by
    rw [hlist, List.take_succ_eq_append_getElem ha, hpa]
    refine orderInsert_eq_append fun q hq ↦ ?_
    obtain ⟨i, hi, rfl⟩ := List.mem_iff_getElem.mp hq
    rw [List.length_take] at hi
    have hip : packs[i]? = some (packs.take a)[i] := by
      rw [List.getElem_take]
      exact List.getElem?_eq_getElem (by omega)
    rw [hpacks.index _ _ hip, hpacks.index a p (hpa ▸ List.getElem?_eq_getElem ha)]
    omega
  have hlength : (packs.take (a + 1)).length = a + 1 := by
    rw [List.length_take]
    omega
  have htravel : ∀ f', (w.setTravel f t).travel f' = if f' = f then packs.drop (a + 1) else [] := by
    intro f'
    by_cases hf' : f' = f
    · rw [if_pos hf', hf', View.travel_setTravel_self, ← ht]
    · rw [if_neg hf', View.travel_setTravel_ne _ _ _ hf', h.others f' hf']
  have hxmtid : ∀ q ∈ packs, q.xmtid = p.xmtid := fun q hq ↦ hpacks.xmtid q hq p hmem
  rw [hflow, View.deliver, hdst, hcha, hpacks.cnt p hmem, View.order_setTravel, hinsert, hlength]
  -- What the two ways to complete the message have in common.
  have hwhole : a + 1 = packs.length → ∀ w'' : View, w''.travel = (w.setTravel f t).travel →
      w''.recvBuf = (w.append f.dst f.cha packs).recvBuf →
      w''.order (b.home f.dst) p.xmtid = [] → b.LoneView f packs (a + 1) w'' := by
    intro hlast w'' htravel'' hrecv'' horder''
    refine ⟨ha, ?_, fun f' hf' ↦ ?_, fun q hq ↦ ?_, ?_⟩
    · rw [htravel'', htravel, if_pos rfl]
    · rw [htravel'', htravel, if_neg hf']
    · rw [hxmtid q hq, horder'', if_pos hlast]
    · rw [hrecv'', View.recvBuf_append_self, hempty, if_pos hlast, List.nil_append]
  split_ifs with hone hlast
  · have hzero : a = 0 := by omega
    have hsingle : [p] = packs := by
      obtain ⟨q, hq⟩ := List.length_eq_one_iff.mp (show packs.length = 1 by omega)
      rw [hq] at hmem ⊢
      rw [List.mem_singleton.mp hmem]
    refine hwhole (by omega) _ rfl ?_ ?_
    · rw [hsingle]
      rfl
    · rw [View.order_append, View.order_setTravel, hlist, hzero, List.take_zero]
  · refine hwhole hlast _ rfl ?_ (View.order_setOrder_self _ _ _ _)
    rw [View.recvBuf_setOrder, hlast, List.take_length]
    rfl
  · refine ⟨ha, ?_, fun f' hf' ↦ ?_, fun q hq ↦ ?_, ?_⟩
    · rw [View.travel_setOrder, htravel, if_pos rfl]
    · rw [View.travel_setOrder, htravel, if_neg hf']
    · rw [hxmtid q hq, View.order_setOrder_self, if_neg hlast]
    · rw [View.recvBuf_setOrder, View.recvBuf_setTravel, hempty, if_neg hlast]

theorem LoneView.arrivals (hpacks : b.Batch f serial packs) (h : b.LoneView f packs a w)
    (hw : Relation.ReflTransGen (Arrive b) w w') : ∃ a', b.LoneView f packs a' w' := by
  induction hw with
  | refl => exact ⟨a, h⟩
  | tail _ harrive ih =>
    obtain ⟨a', h'⟩ := ih
    exact ⟨a' + 1, h'.arrive hpacks harrive⟩

/-! ## A router without congestion control -/

theorem canAcceptCandidate_of_free (hfree : b.config.congestion.enabled = false) (v : BusNodeT)
    (node : NodeStruct) (p : MsgPack) : b.canAcceptCandidate v node p = true := by
  rw [canAcceptCandidate, canAcceptForwardPacket, hfree]
  exact ite_self _

/-- A router in front of which a packet waits finds a candidate. -/
theorem findCandidate_ne_none (hb : b.WellFormed) (hs : b.Placed s) (hptr : b.Pointed s)
    {v : BusNodeT} {y : Stage} (hy : Door b v y) (hne : s.contents y ≠ []) :
    (b.findCandidate v s).2 ≠ .none := by
  obtain ⟨p, hp⟩ := List.exists_mem_of_ne_nil _ hne
  have hmem := hs.mem_allStages hb hp
  rcases hy with @⟨e, c, rfl⟩ | @⟨q, c, rfl⟩
  · obtain ⟨he, hc⟩ := output_mem_allStages.mp hmem
    obtain ⟨i, hi⟩ := List.getElem?_of_mem
      (show e ∈ b.rxs e.2 from List.mem_filter.mpr ⟨he, beq_self_eq_true e.2⟩)
    obtain ⟨j, e', c', p', -, -, hfind⟩ :=
      findCandidate_nearest_edge (hptr e.2).1 hi ⟨c, hc, hne⟩
    rw [hfind]
    exact Candidate.noConfusion
  · obtain ⟨hq, hc⟩ := queue_mem_allStages.mp hmem
    obtain ⟨i, hi⟩ := List.getElem?_of_mem ((hb.mem_ports (b.home q) q).mpr ⟨hq, rfl⟩)
    rcases findCandidate_nearest_port (hptr (b.home q)).2 hi ⟨c, hc, hne⟩ with
      ⟨r, e', c', p', hfind⟩ | ⟨r, j, q', c', p', -, -, hfind⟩
    · rw [hfind]
      exact Candidate.noConfusion
    · rw [hfind]
      exact Candidate.noConfusion

/-! ## A `recv` elsewhere -/

theorem setRecvBuf_other {d : BusPortT} {c : ChannelT} {d' : BusPortT} {c' : ChannelT}
    (hdc : (d', c') ≠ (d, c)) (buf : List MsgPack) :
    ((setRecvBuf s d c buf).ports d').recvBuf c' = (s.ports d').recvBuf c' ∧
      ((setRecvBuf s d c buf).ports d').reserved c' = (s.ports d').reserved c' := by
  by_cases hd : d' = d
  · subst hd
    have hc : c' ≠ c := fun hc ↦ hdc (by rw [hc])
    simp [setRecvBuf, BusState.setPort, hc]
  · simp [setRecvBuf, BusState.setPort, hd]

theorem release_other {d : BusPortT} {c : ChannelT} {d' : BusPortT} {c' : ChannelT}
    (hdc : (d', c') ≠ (d, c)) (h : b.release s d c = some s') :
    (s'.ports d').recvBuf c' = (s.ports d').recvBuf c' ∧
      (s'.ports d').reserved c' = (s.ports d').reserved c' := by
  unfold release at h
  dsimp only at h
  split_ifs at h
  · obtain rfl := Option.some.inj h
    exact ⟨rfl, rfl⟩
  · obtain rfl := Option.some.inj h
    by_cases hd : d' = d
    · subst hd
      have hc : c' ≠ c := fun hc ↦ hdc (by rw [hc])
      simp [BusState.setPort, hc]
    · simp [BusState.setPort, hd]

theorem recv_other (s : BusState) {d : BusPortT} {c : ChannelT} {d' : BusPortT} {c' : ChannelT}
    (hdc : (d', c') ≠ (d, c)) :
    ((b.recv s d c).2.ports d').recvBuf c' = (s.ports d').recvBuf c' ∧
      ((b.recv s d c).2.ports d').reserved c' = (s.ports d').reserved c' := by
  rw [Bus.recv]
  split
  · exact ⟨rfl, rfl⟩
  · exact ⟨rfl, rfl⟩
  · rw [recvNow]
    split
    · exact ⟨rfl, rfl⟩
    · rename_i front rest _
      split_ifs
      · exact ⟨rfl, rfl⟩
      · obtain ⟨stats, cnt, htake⟩ :=
          takePackets_state s.currentTick front.pacCnt 0 [] (front :: rest) s
        rcases hout : takePackets s.currentTick front.pacCnt 0 [] (front :: rest) s with
          ⟨_ | i, packs, buf, s₁⟩
        all_goals
          rw [hout] at htake
          obtain rfl := htake
          have hset := setRecvBuf_other (s := { s with stats := stats, transmitCnt := cnt }) hdc buf
        · dsimp only
          split
          · exact hset
          · rename_i s₂ hrelease
            obtain ⟨hbuf, hreserved⟩ := release_other hdc hrelease
            exact ⟨hbuf.trans hset.1, hreserved.trans hset.2⟩
        · exact hset

/-! ## A state with one message

Every packet in the network is one of the message, each in one stage, and no two of them are due at
the same time, so that none has to wait for another.
-/

/-- `k` ticks after the message has been accepted by an empty network, each of its packets on its
way is exactly where it can be at the earliest. -/
structure Lone (b : Bus) (f : Flow) (packs : List MsgPack) (serial k : ℕ) (s : BusState) :
    Prop where
  placed : b.Placed s
  pointed : b.Pointed s
  timely : b.Timely f packs serial k s
  prompt : ∀ p n, Due b (b.home f.dst) s p n → k + n ≤ b.earliest f p.pacIdx
  input : ∀ e c, (s.edges e).input c = none
  view : ∃ a, b.LoneView f packs a (s.view b)
  credit : b.config.receiveMessageSlots = 0 ∨ 0 < (s.ports f.dst).reserved f.cha

theorem Batch.nodup (hpacks : b.Batch f serial packs) : packs.Nodup := by
  refine List.nodup_iff_getElem?_ne_getElem?.mpr fun i j hij hj heq ↦ ?_
  have hp : packs[j]? = some packs[j] := List.getElem?_eq_getElem hj
  exact hij.ne ((hpacks.index i _ (heq.trans hp)).symm.trans (hpacks.index j _ hp))

theorem Batch.eq_of_index (hpacks : b.Batch f serial packs) (hp : p ∈ packs) (hq : q ∈ packs)
    (h : p.pacIdx = q.pacIdx) : p = q := by
  obtain ⟨i, hi⟩ := List.getElem?_of_mem hp
  obtain ⟨j, hj⟩ := List.getElem?_of_mem hq
  rw [hpacks.index i p hi, hpacks.index j q hj] at h
  rw [h] at hi
  exact Option.some.inj (hi.symm.trans hj)

namespace Lone

variable {y y' : Stage} {n : ℕ}

theorem mem_travel (h : b.Lone f packs serial k s) (hp : p ∈ s.contents y) :
    p.flow = f ∧ p ∈ (s.view b).travel f := by
  obtain ⟨a, hview⟩ := h.view
  have htravel : p ∈ (s.view b).travel p.flow :=
    mem_along.mpr ⟨decide_eq_true rfl, y, h.placed.located y p hp, hp⟩
  have hflow : p.flow = f := by
    by_contra hne
    rw [hview.others _ hne] at htravel
    cases htravel
  exact ⟨hflow, hflow ▸ htravel⟩

theorem mem_packs (h : b.Lone f packs serial k s) (hp : p ∈ s.contents y) : p ∈ packs := by
  obtain ⟨a, hview⟩ := h.view
  have htravel := (h.mem_travel hp).2
  rw [hview.travel] at htravel
  exact List.mem_of_mem_drop htravel

theorem nodup_travel (hpacks : b.Batch f serial packs) (h : b.Lone f packs serial k s) :
    (along s.contents (fun q ↦ decide (q.flow = f)) (b.stages f)).Nodup := by
  obtain ⟨a, hview⟩ := h.view
  change ((s.view b).travel f).Nodup
  rw [hview.travel]
  exact hpacks.nodup.sublist (List.drop_sublist a packs)

theorem stage_unique (hpacks : b.Batch f serial packs) (h : b.Lone f packs serial k s)
    (hp : p ∈ s.contents y) (hp' : p ∈ s.contents y') : y = y' := by
  have hnodup := h.nodup_travel hpacks
  have hflow := (h.mem_travel hp).1
  refine eq_of_mem_along hnodup ?_ ?_ (decide_eq_true hflow) hp hp'
  · exact hflow ▸ h.placed.located y p hp
  · exact hflow ▸ h.placed.located y' p hp'

theorem nodup_contents (hpacks : b.Batch f serial packs) (h : b.Lone f packs serial k s)
    (y : Stage) : (s.contents y).Nodup := by
  have hnodup := h.nodup_travel hpacks
  rcases hcontents : s.contents y with _ | ⟨q, l⟩
  · exact List.nodup_nil
  · have hq : q ∈ s.contents y := hcontents ▸ List.mem_cons_self
    have hy : y ∈ b.stages f := (h.mem_travel hq).1 ▸ h.placed.located y q hq
    have hfilter := nodup_filter_of_along hnodup hy
    rw [List.filter_eq_self.mpr fun r hr ↦ decide_eq_true (h.mem_travel hr).1] at hfilter
    rwa [← hcontents]

/-- No two packets are due at the same time. -/
theorem eq_of_due (hpacks : b.Batch f serial packs) (h : b.Lone f packs serial k s)
    (hp : Due b (b.home f.dst) s p n) (hq : Due b (b.home f.dst) s q n) : p = q := by
  obtain ⟨y, hy⟩ := hp.mem_contents
  obtain ⟨y', hy'⟩ := hq.mem_contents
  have hple := h.prompt p n hp
  have hqle := h.prompt q n hq
  have hpge := h.timely.due p (h.mem_packs hy) n hp
  have hqge := h.timely.due q (h.mem_packs hy') n hq
  refine hpacks.eq_of_index (h.mem_packs hy) (h.mem_packs hy') ?_
  rw [earliest] at hple hqle hpge hqge
  omega

/-- The stages in front of a router that hold a packet are one, and the router takes it. -/
theorem taken_of_door (hb : b.WellFormed) (hfree : b.config.congestion.enabled = false)
    (hpacks : b.Batch f serial packs) (h : b.Lone f packs serial k s) {v : BusNodeT}
    {taken : Option (Stage × MsgPack)} {s₁ : BusState} (hadmits : Admits b v s s₁ taken)
    (hnone : taken = none → (b.findCandidate v s).2 = .none ∨
      ∃ p, b.canAcceptCandidate v (s.nodes v) p = false)
    (hy : Door b v y) (hne : s.contents y ≠ []) :
    ∃ p, taken = some (y, p) ∧ s.contents y = p :: s₁.contents y := by
  cases taken with
  | none =>
    rcases hnone rfl with hfind | ⟨p, hrefuse⟩
    · exact absurd hfind (findCandidate_ne_none hb h.placed h.pointed hy hne)
    · rw [canAcceptCandidate_of_free hfree] at hrefuse
      cases hrefuse
  | some yp =>
    obtain ⟨y', p'⟩ := yp
    obtain ⟨hy', hfront'⟩ := hadmits.door y' p' rfl
    obtain ⟨p, l, hfront⟩ := List.exists_cons_of_ne_nil hne
    have hpp' : p = p' :=
      h.eq_of_due hpacks (due_of_door hy hfront) (due_of_door hy' hfront')
    subst hpp'
    have hmem : p ∈ s.contents y := hfront ▸ List.mem_cons_self
    have hmem' : p ∈ s.contents y' := hfront' ▸ List.mem_cons_self
    obtain rfl := h.stage_unique hpacks hmem hmem'
    exact ⟨p, rfl, hfront'⟩

/-- What a router has in its pipeline after its first half, and what is due for it. -/
theorem due_of_items (hb : b.WellFormed) (hd : b.home f.dst ∈ b.nodeIds)
    (hpacks : b.Batch f serial packs) (h : b.Lone f packs serial k s) {v : BusNodeT}
    (hv : v ∈ b.nodeIds) {taken : Option (Stage × MsgPack)} {s₁ : BusState}
    (hadmits : Admits b v s s₁ taken) {i : PipelinedPack} (hi : i ∈ (s₁.nodes v).pipeline) :
    i.pack ∈ packs ∧ Due b (b.home f.dst) s i.pack (i.cycleRemained + 2 +
      b.hops (b.nextNode v (b.home f.dst)) (b.home f.dst) * (b.routeLatency + 1)) := by
  have hmem : i.pack ∈ packs := by
    have hsplit := hi
    rw [hadmits.pipeline] at hsplit
    rcases List.mem_append.mp hsplit with hold | hnew
    · exact h.mem_packs (y := .pipe v) (List.mem_map_of_mem hold)
    · obtain ⟨⟨y, p⟩, hfilter, rfl⟩ := List.mem_map.mp hnew
      have htaken := Option.mem_toList.mp (List.mem_filter.mp hfilter).1
      exact h.mem_packs (y := y) ((hadmits.door y p htaken).2 ▸ List.mem_cons_self)
  exact ⟨hmem, hadmits.due hb hv hd hi (hpacks.tgt _ hmem)⟩

theorem nodup_items (hpacks : b.Batch f serial packs) (h : b.Lone f packs serial k s)
    {v : BusNodeT} {taken : Option (Stage × MsgPack)} {s₁ : BusState}
    (hadmits : Admits b v s s₁ taken) :
    ((s₁.nodes v).pipeline.map PipelinedPack.pack).Nodup := by
  have hold : ((s.nodes v).pipeline.map PipelinedPack.pack).Nodup :=
    h.nodup_contents hpacks (.pipe v)
  rw [hadmits.pipeline]
  rcases taken with _ | ⟨y, p⟩
  · simpa using hold
  · obtain ⟨hdoor, hfront⟩ := hadmits.door y p rfl
    have hp : p ∈ s.contents y := hfront ▸ List.mem_cons_self
    have hnew : p ∉ (s.nodes v).pipeline.map PipelinedPack.pack := fun hmem ↦ by
      have hpipe : p ∈ s.contents (.pipe v) := hmem
      exact hdoor.ne_pipe v (h.stage_unique hpacks hp hpipe)
    by_cases htgt : p.tgt = v
    · simpa [htgt] using hold
    · rw [Option.toList_some, List.filter_cons_of_pos (by simpa using htgt), List.filter_nil,
        List.map_singleton, List.map_append, List.map_singleton]
      refine List.nodup_append.mpr ⟨hold, List.nodup_singleton p, fun q hq r hr ↦ ?_⟩
      rw [List.mem_singleton.mp hr]
      rintro rfl
      exact hnew hq

/-- At most one packet of a pipeline is due. -/
theorem pairwise_due (hb : b.WellFormed) (hd : b.home f.dst ∈ b.nodeIds)
    (hpacks : b.Batch f serial packs) (h : b.Lone f packs serial k s) {v : BusNodeT}
    (hv : v ∈ b.nodeIds) {taken : Option (Stage × MsgPack)} {s₁ : BusState}
    (hadmits : Admits b v s s₁ taken) :
    (s₁.nodes v).pipeline.Pairwise fun i j ↦ i.cycleRemained = 0 → j.cycleRemained ≠ 0 := by
  refine (List.pairwise_map.mp (h.nodup_items hpacks hadmits)).imp_of_mem ?_
  intro i j hi hj hne hizero hjzero
  have hidue := (h.due_of_items hb hd hpacks hv hadmits hi).2
  have hjdue := (h.due_of_items hb hd hpacks hv hadmits hj).2
  rw [hizero] at hidue
  rw [hjzero] at hjdue
  exact hne (h.eq_of_due hpacks hidue hjdue)

/-! ### A tick

In every stage at most one packet is due, it finds what it needs free, and so a tick takes exactly
one off what is due for every packet.
-/

/-- After the turns no packet is left in an output register. -/
theorem output_of_turn (hb : b.WellFormed) (hfree : b.config.congestion.enabled = false)
    (hpacks : b.Batch f serial packs) (h : b.Lone f packs serial k s) {t : BusState} {e : EdgeId}
    (hturn : b.processNode e.2 s = .ok t) (c : ChannelT) : (t.edges e).output c = none := by
  obtain ⟨taken, s₁, kept, st, st', hadmits, hnone, hruns, hst, -, hedges, -, -⟩ :=
    processNode_parts hb hturn
  rw [hedges, hruns.output, hst]
  cases hp : (s₁.edges e).output c with
  | none => rfl
  | some p =>
    have hmem : p ∈ s₁.contents (.output e c) := mem_contents_output.mpr hp
    have hold := hadmits.mem (fun h ↦ Stage.noConfusion h) hmem
    -- A register holds one packet, and this one has been taken.
    obtain ⟨p', -, hfront⟩ := h.taken_of_door hb hfree hpacks hadmits hnone (.output c rfl)
      (List.ne_nil_of_mem hold)
    have hlength : (s.contents (.output e c)).length ≤ 1 := Option.length_toList_le
    rw [hfront, List.length_cons] at hlength
    have hpos := List.length_pos_of_mem hmem
    omega

/-- The turns put packets into the input registers of one channel. -/
theorem input_of_turn (hb : b.WellFormed) (hd : b.home f.dst ∈ b.nodeIds)
    (hpacks : b.Batch f serial packs) (h : b.Lone f packs serial k s) {t : BusState} {e : EdgeId}
    (he : e ∈ b.edgeIds) (hturn : b.processNode e.1 s = .ok t) {c : ChannelT}
    (hc : c ≠ f.cha) : (t.edges e).input c = none := by
  obtain ⟨taken, s₁, kept, st, st', hadmits, -, hruns, hst, -, hedges, -, -⟩ :=
    processNode_parts hb hturn
  rw [hedges]
  cases hp : (st'.edges e).input c with
  | none => rfl
  | some p =>
    rcases hruns.of_input hp with hold | ⟨i, hi, rfl, -, rfl, -, -⟩
    · rw [hst] at hold
      have hmem := hadmits.mem (fun h ↦ Stage.noConfusion h) (mem_contents_input.mpr hold)
      rw [mem_contents_input, h.input] at hmem
      cases hmem
    · have hmem := (h.due_of_items hb hd hpacks (hb.edge_nodes e he).1 hadmits hi).1
      exact absurd (congrArg Flow.cha (hpacks.flow _ hmem)) hc

theorem due_tick (hb : b.WellFormed) (hfree : b.config.congestion.enabled = false)
    (hd : b.home f.dst ∈ b.nodeIds) (hpacks : b.Batch f serial packs)
    (h : b.Lone f packs serial k s) (hs' : b.Placed s') {t : BusNodeT → BusState}
    (hparts : b.TickParts s s' t) (hinput : ∀ e c, (s'.edges e).input c = none)
    (hmem : ∀ y, ∀ p ∈ s'.contents y, p ∈ packs) (hdue : Due b (b.home f.dst) s' p n) :
    Due b (b.home f.dst) s p (n + 1) := by
  -- Where the packet is after the tick, and so where it was before.
  cases hdue with
  | @queue q c j _ hp =>
    have hq : b.home q ∈ b.nodeIds := hb.home_mem q (queue_mem_allStages.mp (hs'.mem_allStages hb
      (show p ∈ s'.contents (.queue q c) from List.mem_of_getElem? hp))).1
    obtain ⟨taken, s₁, kept, st, st', hadmits, hnone, -, -, -, -, hports, -⟩ :=
      processNode_parts hb (hparts.turn _ hq)
    rw [hparts.ports, hports] at hp
    have hold : p ∈ s.contents (.queue q c) :=
      hadmits.mem (fun h ↦ Stage.noConfusion h) (List.mem_of_getElem? hp)
    -- The router has taken the packet in front of it.
    obtain ⟨p', -, hfront⟩ := h.taken_of_door hb hfree hpacks hadmits hnone (.queue c rfl)
      (List.ne_nil_of_mem hold)
    have hnext : ((s.ports q).sendBuf c)[j + 1]? = some p := by
      rw [show (s.ports q).sendBuf c = p' :: (s₁.ports q).sendBuf c from hfront,
        List.getElem?_cons_succ, hp]
    refine (congrArg (Due b _ s p) ?_).mp (Due.queue hnext)
    omega
  | @pipe v i hi =>
    have hv : v ∈ b.nodeIds := pipe_mem_allStages.mp (hs'.mem_allStages hb
      (show i.pack ∈ s'.contents (.pipe v) from List.mem_map_of_mem hi))
    obtain ⟨taken, s₁, kept, st, st', hadmits, -, hruns, hst, hkept, -, -, -⟩ :=
      processNode_parts hb (hparts.turn v hv)
    rw [hparts.pipeline, hkept] at hi
    have hregisters : ∀ w c, (st.edges (v, w)).input c = none := fun w c ↦ by
      cases hp : (st.edges (v, w)).input c with
      | none => rfl
      | some p =>
        rw [hst] at hp
        have hmem := hadmits.mem (fun h ↦ Stage.noConfusion h) (mem_contents_input.mpr hp)
        rw [mem_contents_input, h.input] at hmem
        cases hmem
    obtain ⟨j, hj, hpack, hage⟩ := hruns.ages (h.pairwise_due hb hd hpacks hv hadmits)
      (fun _ ↦ hregisters) hi
    have hdue := (h.due_of_items hb hd hpacks hv hadmits hj).2
    rw [hpack] at hdue
    refine (congrArg (Due b _ s i.pack) ?_).mp hdue
    omega
  | @input e c _ hp =>
    rw [hinput] at hp
    cases hp
  | @output e c _ hp =>
    have hp' := mem_contents_output.mpr hp
    have he := (output_mem_allStages.mp (hs'.mem_allStages hb hp')).1
    obtain ⟨busy, hedge⟩ := hparts.edges e he
    rw [hedge] at hp
    -- It has come over the edge in this tick, since the output registers were emptied.
    rcases (edgeLoop_registers _).2 hp with hp | hp
    · rw [h.output_of_turn hb hfree hpacks (hparts.turn _ (hb.edge_nodes e he).2)] at hp
      cases hp
    · have hdue := due_of_input hb hd h.placed he (hparts.turn _ (hb.edge_nodes e he).1)
        (hpacks.tgt p (hmem _ p hp')) hp
      refine (congrArg (Due b _ s p) ?_).mp hdue
      omega

theorem tick (hb : b.WellFormed) (hfree : b.config.congestion.enabled = false)
    (hd : b.home f.dst ∈ b.nodeIds) (hc : f.cha < b.chaCnt) (hpacks : b.Batch f serial packs)
    (h : b.Lone f packs serial k s) (htick : b.applyNextTick s = .ok s') :
    b.Lone f packs serial (k + 1) s' := by
  obtain ⟨t, hparts⟩ := exists_tickParts hb htick
  obtain ⟨a, hview⟩ := h.view
  obtain ⟨s₁, s₂, hs₂, hev, hrest⟩ := applyNextTick_spec hb h.placed
  obtain rfl := Except.ok.inj (hs₂.symm.trans htick)
  have hs' : b.Placed s₂ := by
    have := h.placed.perform hb .applyNextTick
    rwa [perform, htick] at this
  have hptr' : b.Pointed s₂ := by
    have := h.pointed.perform .applyNextTick
    rwa [perform, htick] at this
  have hview' : s₂.view b = s₁.view b := by
    rw [hrest]
    rfl
  obtain ⟨a', hview₂⟩ := hview.arrivals hpacks hev.arrivals
  rw [← hview'] at hview₂
  -- The edges have moved everything on, since their output registers were free.
  have hinput : ∀ e c, (s₂.edges e).input c = none := by
    intro e c
    by_cases he : e ∈ b.edgeIds
    · obtain ⟨busy, hedge⟩ := hparts.edges e he
      obtain ⟨h₁, h₂⟩ := hb.edge_nodes e he
      have hout : ∀ c, ((t e.2).edges e).output c = none :=
        h.output_of_turn hb hfree hpacks (hparts.turn _ h₂)
      have hin : ∀ c, c ≠ f.cha → ((t e.1).edges e).input c = none :=
        fun _ hc ↦ h.input_of_turn hb hd hpacks he (hparts.turn _ h₁) hc
      rw [hedge]
      refine (edgeLoop_free hb.link_pos ?_ ?_ (List.mem_range.mpr hc)).1 c
      · exact hout
      · exact hin
    · cases hp : (s₂.edges e).input c with
      | none => rfl
      | some p =>
        exact absurd
          (input_mem_allStages.mp (hs'.mem_allStages hb (mem_contents_input.mpr hp))).1 he
  -- No packet is new.
  have hmem : ∀ y, ∀ p ∈ s₂.contents y, p ∈ packs := by
    intro y p hp
    have htravel : p ∈ (s₂.view b).travel p.flow :=
      mem_along.mpr ⟨decide_eq_true rfl, y, hs'.located y p hp, hp⟩
    by_cases hflow : p.flow = f
    · rw [hflow, hview₂.travel] at htravel
      exact List.mem_of_mem_drop htravel
    · rw [hview₂.others _ hflow] at htravel
      cases htravel
  refine ⟨hs', hptr', h.timely.tick hb hd hpacks h.placed htick, fun p n hdue ↦ ?_, hinput,
    ⟨a', hview₂⟩, ?_⟩
  · have := h.prompt p (n + 1) (h.due_tick hb hfree hd hpacks hs' hparts hinput hmem hdue)
    omega
  · rw [hrest]
    exact h.credit.imp_right fun hpos ↦ by rwa [hev.keeps.reserved]

/-! ### The other calls

Calls at other ports, and calls that only look, leave the packets of the message where they are.
-/

/-- A call that leaves the stages, the order buffers and the port of the message alone. -/
theorem perform (hb : b.WellFormed) (hpacks : b.Batch f serial packs)
    (h : b.Lone f packs serial k s) {call : Call} (hcall : call ≠ .applyNextTick)
    (hcontents : (b.perform s call).2.contents = s.contents)
    (hdue : ∀ p n, Due b (b.home f.dst) (b.perform s call).2 p n → Due b (b.home f.dst) s p n)
    (horder : ∀ v, ((b.perform s call).2.nodes v).orderBuf = (s.nodes v).orderBuf)
    (hport : ((b.perform s call).2.ports f.dst).recvBuf f.cha = (s.ports f.dst).recvBuf f.cha ∧
      ((b.perform s call).2.ports f.dst).reserved f.cha = (s.ports f.dst).reserved f.cha) :
    b.Lone f packs serial k (b.perform s call).2 := by
  obtain ⟨a, hview⟩ := h.view
  have htravel : ((b.perform s call).2.view b).travel = (s.view b).travel := by
    simp only [BusState.view, hcontents]
  refine ⟨h.placed.perform hb call, h.pointed.perform call,
    h.timely.rests hpacks (perform_rests hcall), fun p n hp ↦ h.prompt p n (hdue p n hp),
    fun e c ↦ ?_, ⟨a, hview.arrived_le, ?_, fun f' hf' ↦ ?_, fun p hp ↦ ?_, ?_⟩, ?_⟩
  · have hempty : s.contents (.input e c) = [] := Option.toList_eq_nil_iff.mpr (h.input e c)
    exact Option.toList_eq_nil_iff.mp ((congrFun hcontents (.input e c)).trans hempty)
  · rw [htravel, hview.travel]
  · rw [htravel, hview.others f' hf']
  · rw [← hview.order p hp]
    exact congrArg (orderList · p.xmtid) (horder _)
  · rw [← hview.recvBuf]
    exact hport.1
  · rw [hport.2]
    exact h.credit

theorem clearStatistics (hb : b.WellFormed) (hpacks : b.Batch f serial packs)
    (h : b.Lone f packs serial k s) :
    b.Lone f packs serial k (b.perform s .clearStatistics).2 := by
  refine h.perform hb hpacks (fun h ↦ Call.noConfusion h) (contents_clearStatistics s)
    (fun p n hp ↦ ?_) (fun v ↦ (nodes_clearStatistics v).2.1) ⟨rfl, rfl⟩
  exact hp.congr (fun _ ↦ rfl) (fun v ↦ (nodes_clearStatistics v).1) edges_clearStatistics

theorem recv_elsewhere (hb : b.WellFormed) (hpacks : b.Batch f serial packs)
    (h : b.Lone f packs serial k s) {d : BusPortT} {c : ChannelT} (hdc : (d, c) ≠ (f.dst, f.cha)) :
    b.Lone f packs serial k (b.perform s (.recv d c)).2 := by
  have hkeeps := recv_keeps (b := b) s d c
  refine h.perform hb hpacks (fun h ↦ Call.noConfusion h) ?_ (fun p n hp ↦ ?_) (fun v ↦ ?_)
    (recv_other s hdc.symm)
  · funext y
    cases y <;> simp [Bus.perform, BusState.contents, hkeeps.nodes, hkeeps.edges, hkeeps.sendBuf]
  · refine hp.congr hkeeps.sendBuf (fun v ↦ ?_) fun e ↦ ?_
    · rw [Bus.perform, hkeeps.nodes]
    · rw [Bus.perform, hkeeps.edges]
      exact ⟨rfl, rfl⟩
  · rw [Bus.perform, hkeeps.nodes]

/-! ### Receiving the message -/

/-- When the last packet can be there, nothing is on its way any more. -/
theorem recvBuf_of_due (hpacks : b.Batch f serial packs) (h : b.Lone f packs serial k s)
    (hk : b.hops (b.home f.src) (b.home f.dst) * (b.routeLatency + 1) + packs.length ≤ k) :
    (s.ports f.dst).recvBuf f.cha = packs := by
  obtain ⟨a, hview⟩ := h.view
  have ha : a = packs.length := by
    refine hview.arrived_le.antisymm (Nat.not_lt.mp fun hlt ↦ ?_)
    have hp : packs[a] ∈ (s.view b).travel f := by
      rw [hview.travel, List.drop_eq_getElem_cons hlt]
      exact List.mem_cons_self
    obtain ⟨-, y, -, hy⟩ := mem_along.mp hp
    obtain ⟨n, hdue⟩ := exists_due (b := b) (b.home f.dst) hy
    have hprompt := h.prompt _ n hdue
    have hpos := hdue.pos
    rw [hpacks.index a _ (List.getElem?_eq_getElem hlt), earliest] at hprompt
    omega
  have hbuf := hview.recvBuf
  rwa [if_pos ha] at hbuf

/-- Before that, the receive buffer is empty. -/
theorem recvBuf_of_early (hpacks : b.Batch f serial packs) (h : b.Lone f packs serial k s)
    (hk : k < b.hops (b.home f.src) (b.home f.dst) * (b.routeLatency + 1) + packs.length) :
    (s.ports f.dst).recvBuf f.cha = [] := by
  obtain ⟨a, hview⟩ := h.view
  have hbuf : (s.ports f.dst).recvBuf f.cha = if a = packs.length then packs else [] :=
    hview.recvBuf
  split_ifs at hbuf
  · refine List.eq_nil_iff_forall_not_mem.mpr fun p hp ↦ ?_
    have hpos : 0 < packs.length := List.length_pos_of_mem (hbuf ▸ hp)
    have hlast : packs[packs.length - 1]? = some packs[packs.length - 1] :=
      List.getElem?_eq_getElem (Nat.sub_lt hpos Nat.one_pos)
    have hmem := List.mem_of_getElem? hlast
    have hle := h.timely.holds _ hmem (.waiting f.dst f.cha (hbuf ▸ hmem))
    rw [hpacks.index _ _ hlast, earliest] at hle
    omega
  · exact hbuf

end Lone

theorem recv_batch (hd : b.knownPort f.dst = true) (hc : f.cha < b.chaCnt)
    (hpacks : b.Batch f serial packs) (hne : packs ≠ [])
    (hbuf : (s.ports f.dst).recvBuf f.cha = packs)
    (hcredit : b.config.receiveMessageSlots = 0 ∨ 0 < (s.ports f.dst).reserved f.cha) :
    ∃ bytes, (b.recv s f.dst f.cha).1 = .message bytes packs := by
  have hrecv : b.recv s f.dst f.cha = b.recvNow s f.dst f.cha := by
    rw [recv, (validatePort_eq_ok (u := ())).mpr hd, (validateChannel_eq_ok (u := ())).mpr hc]
  obtain ⟨front, rest, hcons⟩ := List.exists_cons_of_ne_nil hne
  have hcnt : front.pacCnt = packs.length := hpacks.cnt front (hcons ▸ List.mem_cons_self)
  have hidx : ∀ i (hi : i < packs.length), (packs[i]).pacIdx = 0 + i := fun i hi ↦ by
    rw [hpacks.index i _ (List.getElem?_eq_getElem hi), Nat.zero_add]
  obtain ⟨stats, cnt, htake⟩ := takePackets_eq s.currentTick 0 [] [] s hidx
  rw [List.nil_append, List.append_nil] at htake
  obtain ⟨s', hs', -⟩ := release_setRecvBuf (b := b) []
    { stats with receivedMessages := stats.receivedMessages + 1 } cnt hcredit
  refine ⟨resize (packs.flatMap MsgPack.data) front.len, ?_⟩
  rw [hrecv, recvNow, hbuf, hcons]
  dsimp only
  rw [← hcons, hcnt, htake, if_neg (by rw [hcons, List.length_cons]; exact Nat.lt_irrefl _)]
  simp only [setRecvBuf, BusState.setPort] at hs' ⊢
  rw [hs']

theorem recv_nil {d : BusPortT} {c : ChannelT} (hd : b.knownPort d = true) (hc : c < b.chaCnt)
    (hbuf : (s.ports d).recvBuf c = []) : b.recv s d c = (.empty, s) := by
  rw [recv, (validatePort_eq_ok (u := ())).mpr hd, (validateChannel_eq_ok (u := ())).mpr hc]
  dsimp only
  rw [recvNow, hbuf]

end Bus

end Simbus
