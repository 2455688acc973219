import SimbusNoc.Noc.RouteValidation
import SimbusNoc.Noc.TickTurns

/-!
# How soon a packet can arrive

Wherever a packet is, a number of ticks is due before it can be at its node: one for each packet in
front of it in its send buffer, and for each hop the route latency and one more. A tick takes at
most one off this number, whatever else is on the bus. So no message can be received before the
last of its packets, queued behind the others, can be there.

## What is due

`Due` is a relation between a state, a packet and a number, by cases on the stage in which the
packet is. In a pipeline the age of the packet counts, in a register nothing but the hops that
follow. The stages that a tick takes a packet through are at most one hop's part, since a turn puts
a packet into an input register, and the edge only afterwards into an output register, from which
the next router takes it in the next tick.

## From packets to messages

The packets of a message enter the send buffer together. `Timely` says of every packet of the
message that it is not ahead of time, counted from the tick in which `send` accepted it. The calls
between the ticks move nothing, and a later message does not put its packets before those of an
earlier one. `recv` returns a message only when it finds as many packets as the first of them says,
so it needs the last one.
-/

namespace Simbus

open PartialWalk

namespace Bus

variable {b : Bus} {v d w : BusNodeT} {s s' : BusState} {p : MsgPack}

/-! ## Hops -/

/-- The number of hops from `v` to `d` along the route table. -/
def hops (b : Bus) (v d : BusNodeT) : ℕ := (b.path v d).length

@[simp] theorem hops_self (b : Bus) (d : BusNodeT) : b.hops d d = 0 := by
  rw [hops, path, pathFrom, if_pos rfl, List.length_nil]

theorem hops_hop (hb : b.WellFormed) (hv : v ∈ b.nodeIds) (hd : d ∈ b.nodeIds) (hne : v ≠ d) :
    b.hops v d = b.hops (b.nextNode v d) d + 1 := by
  obtain ⟨l, hl, hlen, -⟩ := hb.routed v hv d hd
  cases hl with
  | arrived => exact absurd rfl hne
  | @hop _ w l _ hw hrest _ =>
    have hnext : b.nextNode v d = w := by rw [nextNode, hw, Option.getD_some]
    rw [hops, hops, path, path, hnext, b.pathFrom_eq hrest (Nat.le_of_succ_le hlen), pathFrom,
      if_neg hne, hnext, b.pathFrom_eq hrest (Nat.le_of_succ_le_succ hlen), List.length_cons]

theorem takes_of_routeTo {l : List BusNodeT} (h : RouteTo b.route d v l) :
    b.route.TakesHops v d l.length := by
  induction h with
  | arrived => exact ⟨rfl, fun i hi ↦ absurd hi (Nat.not_lt_zero i)⟩
  | @hop v w l hv hw _ _ ih =>
    have hstep : ∀ i, follow (b.route.find? · d) (i + 1) v = follow (b.route.find? · d) i w :=
      fun i ↦ follow_succ_of_eq hw
    refine ⟨(hstep l.length).trans ih.arrives, fun i hi ↦ ?_⟩
    cases i with
    | zero => exact fun heq ↦ hv (Option.some.inj heq)
    | succ i =>
      rw [hstep]
      exact ih.first i (Nat.lt_of_succ_lt_succ hi)

/-- The hops of the table are the hops the validator's walk takes. -/
theorem eq_hops_of_takes (hb : b.WellFormed) (hv : v ∈ b.nodeIds) (hd : d ∈ b.nodeIds) {h : ℕ}
    (htakes : b.route.TakesHops v d h) : h = b.hops v d := by
  obtain ⟨l, hl, hlen, -⟩ := hb.routed v hv d hd
  rw [hops, path, b.pathFrom_eq hl hlen]
  exact Takes.unique htakes (takes_of_routeTo hl)

/-! ## Ticks that are due

`Due` counts the ticks that a packet cannot avoid: its time in the pipeline, and for each hop that
is left one link and one router.
-/

/-- When a packet for node `d` is delivered if nothing holds it up: in `n` ticks. -/
inductive Due (b : Bus) (d : BusNodeT) (s : BusState) : MsgPack → ℕ → Prop
  | queue {q : BusPortT} {c : ChannelT} {j : ℕ} {p : MsgPack}
      (h : ((s.ports q).sendBuf c)[j]? = some p) :
      Due b d s p (j + 1 + b.hops (b.home q) d * (b.routeLatency + 1))
  | pipe {v : BusNodeT} {i : PipelinedPack} (h : i ∈ (s.nodes v).pipeline) :
      Due b d s i.pack
        (i.cycleRemained + 2 + b.hops (b.nextNode v d) d * (b.routeLatency + 1))
  | input {e : EdgeId} {c : ChannelT} {p : MsgPack} (h : (s.edges e).input c = some p) :
      Due b d s p (2 + b.hops e.2 d * (b.routeLatency + 1))
  | output {e : EdgeId} {c : ChannelT} {p : MsgPack} (h : (s.edges e).output c = some p) :
      Due b d s p (1 + b.hops e.2 d * (b.routeLatency + 1))

/-- A packet that can be taken at once. -/
theorem due_of_door {y : Stage} {l : List MsgPack} (hy : Door b v y) (h : s.contents y = p :: l) :
    Due b d s p (1 + b.hops v d * (b.routeLatency + 1)) := by
  cases hy with
  | @output e c he =>
    subst he
    rw [BusState.contents] at h
    rcases hout : (s.edges e).output c with _ | q
    · rw [hout] at h
      cases h
    · rw [hout] at h
      obtain rfl := (List.cons.inj h).1
      exact .output hout
  | @queue q c hq =>
    subst hq
    have hhead : ((s.ports q).sendBuf c)[0]? = some p := by
      rw [show (s.ports q).sendBuf c = p :: l from h, List.getElem?_cons_zero]
    have hdue := Due.queue (b := b) (d := d) hhead
    rwa [Nat.zero_add] at hdue

/-- What is due for a packet of the pipeline, whether it has just been admitted or not. -/
theorem Admits.due {taken : Option (Stage × MsgPack)} {s₁ : BusState} (hb : b.WellFormed)
    (hv : v ∈ b.nodeIds) (hd : d ∈ b.nodeIds) (h : Admits b v s s₁ taken) {i : PipelinedPack}
    (hi : i ∈ (s₁.nodes v).pipeline) (htgt : i.pack.tgt = d) :
    Due b d s i.pack
      (i.cycleRemained + 2 + b.hops (b.nextNode v d) d * (b.routeLatency + 1)) := by
  rw [h.pipeline] at hi
  rcases List.mem_append.mp hi with hi | hi
  · exact .pipe hi
  · obtain ⟨⟨y, p⟩, hmem, rfl⟩ := List.mem_map.mp hi
    obtain ⟨htaken, hne⟩ := List.mem_filter.mp hmem
    obtain ⟨hdoor, hfront⟩ := h.door y p (Option.mem_toList.mp htaken)
    change p.tgt = d at htgt
    have hvd : v ≠ d := by
      rintro rfl
      simp [htgt] at hne
    have hdue := due_of_door (d := d) hdoor hfront
    rw [hops_hop hb hv hd hvd, Nat.succ_mul] at hdue
    have heq : 1 + (b.hops (b.nextNode v d) d * (b.routeLatency + 1) + (b.routeLatency + 1)) =
        b.routeLatency + 2 + b.hops (b.nextNode v d) d * (b.routeLatency + 1) := by omega
    rwa [heq] at hdue

/-- No packet of a pipeline has reached its node. -/
theorem Admits.tgt_ne {taken : Option (Stage × MsgPack)} {s₁ : BusState} (hb : b.WellFormed)
    (hs : b.Placed s) (h : Admits b v s s₁ taken) {i : PipelinedPack}
    (hi : i ∈ (s₁.nodes v).pipeline) : i.pack.tgt ≠ v := by
  rw [h.pipeline] at hi
  rcases List.mem_append.mp hi with hi | hi
  · have hmem : i.pack ∈ s.contents (.pipe v) := List.mem_map_of_mem hi
    have hpack := hs.packs _ _ hmem
    obtain ⟨w, hw, -⟩ := exists_hop hb hpack.flow (pipe_mem_stages.mp (hs.located _ _ hmem))
    rw [hpack.tgt]
    exact hw.ne_dst.symm
  · obtain ⟨⟨y, p⟩, hmem, rfl⟩ := List.mem_map.mp hi
    simpa using (List.mem_filter.mp hmem).2

theorem nextNode_of_nextHop (hne : v ≠ d) (h : b.nextHop v d = .ok w) : b.nextNode v d = w := by
  rw [nextHop, if_neg hne] at h
  rw [nextNode, BusRouteTable.find?]
  rcases hrow : b.route.lookup v with _ | row
  · rw [hrow] at h
    cases h
  · rw [hrow] at h
    rw [Option.bind_some]
    rcases hentry : row.lookup d with _ | next
    · simp only [hentry] at h
      cases h
    · simp only [hentry] at h
      exact Except.ok.inj h

/-! ## A turn and a tick

A tick takes at most one off what is due for any packet. The stages are looked at one by one, with
the stage from which the packet has come.
-/

theorem due_of_input (hb : b.WellFormed) (hd : d ∈ b.nodeIds) (hs : b.Placed s) {t : BusState}
    {e : EdgeId} {c : ChannelT} (he : e ∈ b.edgeIds) (h : b.processNode e.1 s = .ok t)
    (htgt : p.tgt = d) (hp : (t.edges e).input c = some p) :
    Due b d s p (2 + b.hops e.2 d * (b.routeLatency + 1)) := by
  obtain ⟨taken, s₁, kept, st, st', hadmits, -, hruns, hst, -, hedges, -, -⟩ :=
    processNode_parts hb h
  rw [hedges] at hp
  rcases hruns.of_input hp with hold | ⟨i, hi, rfl, hzero, -, -, hnext⟩
  · rw [hst] at hold
    exact .input (mem_contents_input.mp
      (hadmits.mem (fun h ↦ Stage.noConfusion h) (mem_contents_input.mpr hold)))
  · have hdue := hadmits.due hb (hb.edge_nodes e he).1 hd hi htgt
    have hne : e.1 ≠ d := htgt ▸ (hadmits.tgt_ne hb hs hi).symm
    rw [htgt] at hnext
    rwa [hzero, Nat.zero_add, nextNode_of_nextHop hne hnext] at hdue

theorem due_of_pipe (hb : b.WellFormed) (hv : v ∈ b.nodeIds) (hd : d ∈ b.nodeIds) {t : BusState}
    (h : b.processNode v s = .ok t) {i : PipelinedPack} (hi : i ∈ (t.nodes v).pipeline)
    (htgt : i.pack.tgt = d) :
    ∃ m ≤ i.cycleRemained + 2 + b.hops (b.nextNode v d) d * (b.routeLatency + 1) + 1,
      Due b d s i.pack m := by
  obtain ⟨taken, s₁, kept, st, st', hadmits, -, hruns, -, hkept, -, -, -⟩ := processNode_parts hb h
  rw [hkept] at hi
  obtain ⟨j, hj, hpack, hage⟩ := hruns.of_kept hi
  have hdue := hadmits.due hb hv hd hj (hpack ▸ htgt)
  rw [hpack] at hdue
  exact ⟨_, by omega, hdue⟩

theorem due_of_queue (hb : b.WellFormed) {t : BusState} {q : BusPortT} {c : ChannelT} {j : ℕ}
    (h : b.processNode (b.home q) s = .ok t) (hp : ((t.ports q).sendBuf c)[j]? = some p) :
    ∃ m ≤ j + 1 + b.hops (b.home q) d * (b.routeLatency + 1) + 1, Due b d s p m := by
  obtain ⟨taken, s₁, kept, st, st', hadmits, -, -, -, -, -, hports, -⟩ := processNode_parts hb h
  rw [hports] at hp
  by_cases htaken : ∃ p', taken = some (.queue q c, p')
  · obtain ⟨p', htaken⟩ := htaken
    have hfront : (s.ports q).sendBuf c = p' :: (s₁.ports q).sendBuf c :=
      (hadmits.door _ _ htaken).2
    have hnext : ((s.ports q).sendBuf c)[j + 1]? = some p := by
      rwa [hfront, List.getElem?_cons_succ]
    exact ⟨_, by omega, .queue hnext⟩
  · have hsame : (s₁.ports q).sendBuf c = (s.ports q).sendBuf c :=
      hadmits.others (.queue q c) (fun h ↦ Stage.noConfusion h) fun p' hp' ↦ htaken ⟨p', hp'⟩
    rw [hsame] at hp
    exact ⟨_, Nat.le_succ _, .queue hp⟩

/-- A tick takes at most one off the number of ticks that are due for a packet. -/
theorem due_tick (hb : b.WellFormed) (hd : d ∈ b.nodeIds) (hs : b.Placed s)
    (h : b.applyNextTick s = .ok s') (htgt : p.tgt = d) {n : ℕ} (hdue : Due b d s' p n) :
    ∃ m ≤ n + 1, Due b d s p m := by
  obtain ⟨t, hparts⟩ := exists_tickParts hb h
  have hs' : b.Placed s' := by
    have := hs.perform hb .applyNextTick
    rwa [perform, h] at this
  -- By the stage in which the tick has left the packet: its turn has put it there, or it was there.
  cases hdue with
  | @queue q c j _ hp =>
    rw [hparts.ports] at hp
    by_cases hq : b.home q ∈ b.nodeIds
    · exact due_of_queue hb (hparts.turn _ hq) hp
    · rw [hparts.rest _ hq] at hp
      exact ⟨_, Nat.le_succ _, .queue hp⟩
  | @pipe v i hi =>
    rw [hparts.pipeline] at hi
    by_cases hv : v ∈ b.nodeIds
    · exact due_of_pipe hb hv hd (hparts.turn v hv) hi htgt
    · rw [hparts.rest v hv] at hi
      exact ⟨_, Nat.le_succ _, .pipe hi⟩
  | @input e c _ hp =>
    have he := (input_mem_allStages.mp (hs'.mem_allStages hb (mem_contents_input.mpr hp))).1
    obtain ⟨busy, hedge⟩ := hparts.edges e he
    rw [hedge] at hp
    have hin := (edgeLoop_registers _).1 hp
    exact ⟨_, Nat.le_succ _, due_of_input hb hd hs he (hparts.turn _ (hb.edge_nodes e he).1) htgt
      hin⟩
  | @output e c _ hp =>
    have he := (output_mem_allStages.mp (hs'.mem_allStages hb (mem_contents_output.mpr hp))).1
    obtain ⟨busy, hedge⟩ := hparts.edges e he
    rw [hedge] at hp
    rcases (edgeLoop_registers _).2 hp with hp | hp
    · -- The node at the end of the edge has not taken it.
      obtain ⟨taken, s₁, kept, st, st', hadmits, -, hruns, hst, -, hedges, -, -⟩ :=
        processNode_parts hb (hparts.turn _ (hb.edge_nodes e he).2)
      change ((t e.2).edges e).output c = some p at hp
      rw [hedges, hruns.output, hst] at hp
      exact ⟨_, Nat.le_succ _, .output (mem_contents_output.mp
        (hadmits.mem (fun h ↦ Stage.noConfusion h) (mem_contents_output.mpr hp)))⟩
    · have hdue := due_of_input hb hd hs he (hparts.turn _ (hb.edge_nodes e he).1) htgt hp
      exact ⟨_, by omega, hdue⟩

theorem holds_tick (hb : b.WellFormed) (h : b.applyNextTick s = .ok s')
    (hp : (s'.view b).Holds p) : (s.view b).Holds p ∨ Due b p.tgt s p 1 := by
  obtain ⟨t, hparts⟩ := exists_tickParts hb h
  have hturn : ∀ v, ((t v).view b).Holds p → (s.view b).Holds p ∨ Due b p.tgt s p 1 := by
    intro v hp
    by_cases hv : v ∈ b.nodeIds
    · obtain ⟨taken, s₁, kept, st, st', hadmits, -, -, -, -, -, -, hholds⟩ :=
        processNode_parts hb (hparts.turn v hv)
      rcases hadmits.received p (hholds p hp) with hold | ⟨y, htaken, rfl⟩
      · exact .inl hold
      · obtain ⟨hdoor, hfront⟩ := hadmits.door y p htaken
        have hdue := due_of_door (d := p.tgt) hdoor hfront
        rw [hops_self, Nat.zero_mul] at hdue
        exact .inr hdue
    · rw [hparts.rest v hv] at hp
      exact .inl hp
  rcases hp with ⟨d, c, hp⟩ | ⟨v, x, hp⟩
  · change p ∈ (s'.ports d).recvBuf c at hp
    rw [hparts.ports] at hp
    exact hturn _ (.waiting d c hp)
  · change p ∈ orderList (s'.nodes v).orderBuf x at hp
    rw [hparts.orderBuf] at hp
    exact hturn v (.ordering v x hp)

/-! ## The packets of a message

The packets of a message enter the network one behind the other, and each needs a tick of its own
to leave the send buffer. `Batch` says what is due for the packet with each index.
-/

/-- The packets of one message, in order. -/
structure Batch (b : Bus) (f : Flow) (serial : ℕ) (packs : List MsgPack) : Prop where
  flow : ∀ p ∈ packs, p.flow = f
  tgt : ∀ p ∈ packs, p.tgt = b.home f.dst
  index : ∀ (i : ℕ) (p : MsgPack), packs[i]? = some p → p.pacIdx = i
  cnt : ∀ p ∈ packs, p.pacCnt = packs.length
  xmtid : ∀ p ∈ packs, ∀ q ∈ packs, p.xmtid = q.xmtid
  serial : ∀ p ∈ packs, p.serial = serial

theorem length_packets (s : BusState) (port dst : BusPortT) (c : ChannelT) (data : Bytes) :
    (b.packets s port dst c data).length = b.pacCnt data.length c := by
  rw [packets, List.length_map, List.length_range]

theorem batch_packets (s : BusState) (port dst : BusPortT) (c : ChannelT) (data : Bytes)
    (hcnt : b.pacCnt data.length c ≤ 65535) :
    b.Batch ⟨port, dst, c⟩ s.accepted (b.packets s port dst c data) where
  flow := fun p hp ↦ by
    obtain ⟨i, -, rfl⟩ := List.mem_map.mp hp
    rfl
  tgt := fun p hp ↦ by
    obtain ⟨i, -, rfl⟩ := List.mem_map.mp hp
    rfl
  index := fun i p hp ↦ by
    obtain ⟨hi, rfl⟩ := List.getElem?_eq_some_iff.mp hp
    rw [length_packets] at hi
    simp only [packets, List.getElem_map, List.getElem_range]
    exact Nat.mod_eq_of_lt (by omega)
  cnt := fun p hp ↦ by
    rw [length_packets]
    obtain ⟨i, -, rfl⟩ := List.mem_map.mp hp
    exact Nat.mod_eq_of_lt (by omega)
  xmtid := fun p hp q hq ↦ by
    obtain ⟨i, -, rfl⟩ := List.mem_map.mp hp
    obtain ⟨j, -, rfl⟩ := List.mem_map.mp hq
    rfl
  serial := fun p hp ↦ by
    obtain ⟨i, -, rfl⟩ := List.mem_map.mp hp
    rfl

/-! ## The other calls -/

theorem Due.congr {n : ℕ} (h : Due b d s' p n)
    (hsend : ∀ q, (s'.ports q).sendBuf = (s.ports q).sendBuf)
    (hpipe : ∀ v, (s'.nodes v).pipeline = (s.nodes v).pipeline)
    (hedges : ∀ e, (s'.edges e).input = (s.edges e).input ∧
      (s'.edges e).output = (s.edges e).output) : Due b d s p n := by
  cases h with
  | @queue q _ _ _ h => exact .queue (hsend q ▸ h)
  | @pipe v _ h => exact .pipe (hpipe v ▸ h)
  | @input e _ _ h => exact .input ((hedges e).1 ▸ h)
  | @output e _ _ h => exact .output ((hedges e).2 ▸ h)

/-- The packet loop of `recv` takes packets from the front. -/
theorem takePackets_suffix (t : ℕ) : ∀ (n i : ℕ) (taken buf : List MsgPack) (s : BusState),
    (takePackets t n i taken buf s).2.2.1 <:+ buf := by
  intro n
  induction n with
  | zero => exact fun _ _ buf _ ↦ List.suffix_refl buf
  | succ n ih =>
    intro i taken buf s
    cases buf with
    | nil => exact List.suffix_refl []
    | cons q buf =>
      rw [takePackets]
      split_ifs
      · exact (ih _ _ _ _).trans (List.suffix_cons q buf)
      · exact List.suffix_refl _

theorem recvBuf_setRecvBuf {q : BusPortT} {c : ChannelT} {buf : List MsgPack}
    (hbuf : buf <:+ (s.ports q).recvBuf c) (q' : BusPortT) (c' : ChannelT) :
    ((setRecvBuf s q c buf).ports q').recvBuf c' <:+ (s.ports q').recvBuf c' := by
  by_cases hq : q' = q
  · subst hq
    rw [setRecvBuf, BusState.ports_setPort_self]
    by_cases hc : c' = c
    · subst hc
      simpa using hbuf
    · simp [hc]
  · rw [setRecvBuf, BusState.ports_setPort_ne _ _ _ hq]

/-- `recv` leaves an end of every receive buffer. -/
theorem recvBuf_recv (s : BusState) (q : BusPortT) (c : ChannelT) (q' : BusPortT) (c' : ChannelT) :
    ((b.recv s q c).2.ports q').recvBuf c' <:+ (s.ports q').recvBuf c' := by
  rw [Bus.recv]
  split
  · exact List.suffix_refl _
  · exact List.suffix_refl _
  · rw [recvNow]
    split
    · exact List.suffix_refl _
    · rename_i front rest hbuf
      split_ifs
      · exact List.suffix_refl _
      · obtain ⟨stats, cnt, htake⟩ :=
          takePackets_state s.currentTick front.pacCnt 0 [] (front :: rest) s
        have hsuffix := takePackets_suffix s.currentTick front.pacCnt 0 [] (front :: rest) s
        rw [← hbuf] at hsuffix htake ⊢
        rcases hout : takePackets s.currentTick front.pacCnt 0 [] ((s.ports q).recvBuf c) s with
          ⟨_ | i, packs, buf, s₁⟩
        all_goals
          rw [hout] at htake hsuffix
          obtain rfl := htake
          have hrest := recvBuf_setRecvBuf (s := { s with stats := stats, transmitCnt := cnt })
            hsuffix q' c'
        · dsimp only
          split
          · exact hrest
          · rename_i s₂ hrelease
            unfold release at hrelease
            dsimp only at hrelease
            split_ifs at hrelease
            · obtain rfl := Option.some.inj hrelease
              exact hrest
            · obtain rfl := Option.some.inj hrelease
              by_cases hq : q' = q
              · subst hq
                rw [BusState.ports_setPort_self]
                exact hrest
              · rw [BusState.ports_setPort_ne _ _ _ hq]
                exact hrest
        · exact hrest

/-- A call that is no tick moves nothing. What an accepted `send` adds carries a new number. -/
structure Rests (b : Bus) (s s' : BusState) : Prop where
  due : ∀ d p n, Due b d s' p n →
    Due b d s p n ∨ (p.serial = s.accepted ∧ 0 < p.pacCnt ∧ s.accepted < s'.accepted)
  holds : ∀ p, (s'.view b).Holds p → (s.view b).Holds p
  accepted : s.accepted ≤ s'.accepted

theorem rests_of_same (hsend : ∀ q, (s'.ports q).sendBuf = (s.ports q).sendBuf)
    (hpipe : ∀ v, (s'.nodes v).pipeline = (s.nodes v).pipeline)
    (hedges : ∀ e, (s'.edges e).input = (s.edges e).input ∧
      (s'.edges e).output = (s.edges e).output)
    (hholds : ∀ p, (s'.view b).Holds p → (s.view b).Holds p)
    (haccepted : s'.accepted = s.accepted) :
    b.Rests s s' where
  due := fun _ _ _ h ↦ .inl (h.congr hsend hpipe hedges)
  holds := hholds
  accepted := haccepted.ge

/-- What is due after a `send`: what was due before, and the packets of the message in turn. -/
theorem due_enqueue {port dst : BusPortT} {c : ChannelT} {packs : List MsgPack} {n : ℕ}
    (h : Due b d (enqueue (b.reserve s dst c) port c packs) p n) :
    Due b d s p n ∨ ∃ i, packs[i]? = some p ∧
      n = ((s.ports port).sendBuf c).length + i + 1
        + b.hops (b.home port) d * (b.routeLatency + 1) := by
  have hnodes : (enqueue (b.reserve s dst c) port c packs).nodes = s.nodes := nodes_reserve s dst c
  have hedges : (enqueue (b.reserve s dst c) port c packs).edges = s.edges := edges_reserve s dst c
  cases h with
  | @queue q c' j _ h =>
    by_cases hq : (q, c') = (port, c)
    · obtain ⟨rfl, rfl⟩ := Prod.mk.inj hq
      rw [sendBuf_enqueue_self, sendBuf_reserve] at h
      rcases Nat.lt_or_ge j ((s.ports q).sendBuf c').length with hj | hj
      · rw [List.getElem?_append_left hj] at h
        exact .inl (.queue h)
      · rw [List.getElem?_append_right hj] at h
        exact .inr ⟨_, h, by rw [Nat.add_sub_cancel' hj]⟩
    · rw [sendBuf_enqueue_ne _ _ _ _ hq, sendBuf_reserve] at h
      exact .inl (.queue h)
  | pipe h => exact .inl (.pipe (hnodes ▸ h))
  | input h => exact .inl (.input (hedges ▸ h))
  | output h => exact .inl (.output (hedges ▸ h))

theorem holds_enqueue {port dst : BusPortT} {c : ChannelT} {packs : List MsgPack}
    (h : ((enqueue (b.reserve s dst c) port c packs).view b).Holds p) : (s.view b).Holds p := by
  have hnodes : (enqueue (b.reserve s dst c) port c packs).nodes = s.nodes := nodes_reserve s dst c
  refine h.congr (funext fun q ↦ ?_) (by simp only [BusState.view, hnodes])
  change ((enqueue (b.reserve s dst c) port c packs).ports q).recvBuf = _
  rw [recvBuf_enqueue, recvBuf_reserve]
  rfl

theorem accepted_enqueue (port dst : BusPortT) (c : ChannelT) (packs : List MsgPack) :
    (enqueue (b.reserve s dst c) port c packs).accepted = s.accepted + 1 :=
  congrArg (· + 1) (accepted_reserve s dst c)

theorem rests_enqueue {port dst : BusPortT} {c : ChannelT} {packs : List MsgPack}
    (hpacks : ∀ p ∈ packs, p.serial = s.accepted ∧ 0 < p.pacCnt) :
    b.Rests s (enqueue (b.reserve s dst c) port c packs) where
  due := fun d p n h ↦ by
    rw [accepted_enqueue]
    refine (due_enqueue h).imp_right ?_
    rintro ⟨i, hi, -⟩
    obtain ⟨hserial, hcnt⟩ := hpacks p (List.mem_of_getElem? hi)
    exact ⟨hserial, hcnt, Nat.lt_succ_self _⟩
  holds := fun p h ↦ holds_enqueue h
  accepted := accepted_enqueue (b := b) (s := s) port dst c packs ▸ Nat.le_succ _

theorem perform_rests {call : Call} (hcall : call ≠ .applyNextTick) :
    b.Rests s (b.perform s call).2 := by
  have hrefl : b.Rests s s := ⟨fun _ _ _ ↦ .inl, fun _ ↦ id, Nat.le_refl _⟩
  rcases call with ⟨port, dst, c, data⟩ | ⟨q, c⟩ | _ | _
  · rw [perform]
    split
    · rename_i accepted s' hsend
      obtain ⟨-, -, -, ⟨-, stats, rfl⟩ | ⟨-, -, -, hcnt, rfl⟩⟩ := send_eq_ok hsend
      · exact rests_of_same (fun _ ↦ rfl) (fun _ ↦ rfl) (fun _ ↦ ⟨rfl, rfl⟩) (fun _ h ↦ h) rfl
      · refine rests_enqueue fun p hp ↦ ?_
        have hbatch := batch_packets (b := b) s port dst c data hcnt
        exact ⟨hbatch.serial p hp, hbatch.cnt p hp ▸ List.length_pos_of_mem hp⟩
    · exact hrefl
  · have hkeeps := recv_keeps (b := b) s q c
    refine rests_of_same hkeeps.sendBuf (fun v ↦ ?_) (fun e ↦ ?_) (fun p h ↦ ?_) hkeeps.accepted
    · rw [perform, hkeeps.nodes]
    · rw [perform, hkeeps.edges]
      exact ⟨rfl, rfl⟩
    · rcases h with ⟨q', c', h⟩ | ⟨v, x, h⟩
      · exact .waiting q' c' ((recvBuf_recv s q c q' c').subset h)
      · change p ∈ orderList ((b.recv s q c).2.nodes v).orderBuf x at h
        rw [hkeeps.nodes] at h
        exact .ordering v x h
  · exact absurd rfl hcall
  · refine rests_of_same (fun _ ↦ rfl) (fun v ↦ (nodes_clearStatistics v).1)
      (fun e ↦ edges_clearStatistics e) (fun p h ↦ ?_) rfl
    refine h.congr rfl (funext fun v ↦ funext fun x ↦ ?_)
    exact congrArg (orderList · x) (nodes_clearStatistics v).2.1

/-! ## Runs -/

theorem Due.mem_contents {n : ℕ} (h : Due b d s p n) : ∃ y, p ∈ s.contents y := by
  cases h with
  | @queue q c _ _ h => exact ⟨.queue q c, List.mem_of_getElem? h⟩
  | @pipe v i h => exact ⟨.pipe v, List.mem_map_of_mem h⟩
  | @input e c _ h => exact ⟨.input e c, mem_contents_input.mpr h⟩
  | @output e c _ h => exact ⟨.output e c, mem_contents_output.mpr h⟩

theorem Due.pos {n : ℕ} (h : Due b d s p n) : 0 < n := by
  cases h <;> omega

theorem exists_due (d : BusNodeT) {y : Stage} (h : p ∈ s.contents y) : ∃ n, Due b d s p n := by
  cases y with
  | queue q c =>
    obtain ⟨j, hj⟩ := List.getElem?_of_mem h
    exact ⟨_, .queue hj⟩
  | pipe v =>
    obtain ⟨i, hi, rfl⟩ := List.mem_map.mp h
    exact ⟨_, .pipe hi⟩
  | input e c => exact ⟨_, .input (mem_contents_input.mp h)⟩
  | output e c => exact ⟨_, .output (mem_contents_output.mp h)⟩

/-- Every packet in the network belongs to an accepted message, which has at least one packet. -/
structure Known (b : Bus) (s : BusState) : Prop where
  due : ∀ d p n, Due b d s p n → p.serial < s.accepted ∧ 0 < p.pacCnt
  holds : ∀ p, (s.view b).Holds p → p.serial < s.accepted ∧ 0 < p.pacCnt

theorem applyNextTick_accepted (hb : b.WellFormed) (hs : b.Placed s)
    (h : b.applyNextTick s = .ok s') : s'.accepted = s.accepted := by
  obtain ⟨s₁, s₂, hs₂, hev, rfl⟩ := applyNextTick_spec hb hs
  obtain rfl := Except.ok.inj (hs₂.symm.trans h)
  exact hev.keeps.accepted

theorem tgt_mem_nodeIds (hb : b.WellFormed) (hs : b.Placed s) {y : Stage} (hp : p ∈ s.contents y) :
    p.tgt ∈ b.nodeIds := by
  have hpack := hs.packs y p hp
  rw [hpack.tgt]
  exact hb.home_mem _ hpack.flow.dst

theorem Known.tick (hb : b.WellFormed) (hs : b.Placed s) (h : b.applyNextTick s = .ok s')
    (hknown : b.Known s) : b.Known s' := by
  have haccepted := applyNextTick_accepted hb hs h
  have hs' : b.Placed s' := by
    have := hs.perform hb .applyNextTick
    rwa [perform, h] at this
  refine ⟨fun d p n hdue ↦ ?_, fun p hp ↦ ?_⟩
  · obtain ⟨y, hy⟩ := hdue.mem_contents
    obtain ⟨n', hdue'⟩ := exists_due (b := b) p.tgt hy
    obtain ⟨m, -, hm⟩ := due_tick hb (tgt_mem_nodeIds hb hs' hy) hs h rfl hdue'
    rw [haccepted]
    exact hknown.due _ p m hm
  · rw [haccepted]
    rcases holds_tick hb h hp with hold | hdue
    · exact hknown.holds p hold
    · exact hknown.due _ p 1 hdue

theorem Known.rests (hknown : b.Known s) (h : b.Rests s s') : b.Known s' := by
  refine ⟨fun d p n hdue ↦ ?_, fun p hp ↦ ?_⟩
  · rcases h.due d p n hdue with hold | ⟨hserial, hcnt, hlt⟩
    · exact (hknown.due d p n hold).imp_left fun hlt ↦ Nat.lt_of_lt_of_le hlt h.accepted
    · exact ⟨hserial ▸ hlt, hcnt⟩
  · exact (hknown.holds p (h.holds p hp)).imp_left fun hlt ↦ Nat.lt_of_lt_of_le hlt h.accepted

theorem Known.perform (hb : b.WellFormed) (hs : b.Placed s) (hknown : b.Known s) (call : Call) :
    b.Known (b.perform s call).2 := by
  by_cases hcall : call = .applyNextTick
  · subst hcall
    obtain ⟨s₁, s', htick, -⟩ := contents_applyNextTick hb hs
    rw [Bus.perform, htick]
    exact hknown.tick hb hs htick
  · exact hknown.rests (perform_rests hcall)

theorem Known.init (b : Bus) : b.Known {} := by
  refine ⟨fun d p n h ↦ ?_, fun p h ↦ ?_⟩
  · obtain ⟨y, hy⟩ := h.mem_contents
    cases y <;> exact absurd hy List.not_mem_nil
  · rcases h with ⟨q, c, h⟩ | ⟨v, x, h⟩
    · exact absurd h List.not_mem_nil
    · exact absurd h List.not_mem_nil

theorem known_run (hb : b.WellFormed) (calls : List Call) : b.Known (b.run {} calls).2 :=
  (run_keeps (b := b) (P := fun s ↦ b.Placed s ∧ b.Known s)
    (fun _ call h ↦ ⟨h.1.perform hb call, h.2.perform hb h.1 call⟩) calls
    ⟨.init b, .init b⟩).2

/-- The number of ticks in a sequence of calls. -/
def ticks (calls : List Call) : ℕ := calls.count .applyNextTick

theorem ticks_cons (call : Call) (rest : List Call) :
    ticks (call :: rest) = ticks [call] + ticks rest := by
  rw [ticks, ticks, ticks, ← List.count_append, List.singleton_append]

/-- The ticks after which packet `i` of a message can be at its node. -/
def earliest (b : Bus) (f : Flow) (i : ℕ) : ℕ :=
  b.hops (b.home f.src) (b.home f.dst) * (b.routeLatency + 1) + i + 1

/-- No packet of the message is ahead of time, `k` ticks after it has been accepted. -/
structure Timely (b : Bus) (f : Flow) (packs : List MsgPack) (serial k : ℕ) (s : BusState) :
    Prop where
  due : ∀ p ∈ packs, ∀ n, Due b (b.home f.dst) s p n → b.earliest f p.pacIdx ≤ k + n
  holds : ∀ p ∈ packs, (s.view b).Holds p → b.earliest f p.pacIdx ≤ k
  accepted : serial < s.accepted

namespace Timely

variable {f : Flow} {packs : List MsgPack} {serial k : ℕ}

theorem tick (hb : b.WellFormed) (hd : b.home f.dst ∈ b.nodeIds) (hpacks : b.Batch f serial packs)
    (hs : b.Placed s) (h : b.applyNextTick s = .ok s') (htimely : b.Timely f packs serial k s) :
    b.Timely f packs serial (k + 1) s' := by
  refine ⟨fun p hp n hdue ↦ ?_, fun p hp hholds ↦ ?_, ?_⟩
  · obtain ⟨m, hm, hdue'⟩ := due_tick hb hd hs h (hpacks.tgt p hp) hdue
    have := htimely.due p hp m hdue'
    omega
  · rcases holds_tick hb h hholds with hold | hdue
    · exact Nat.le_succ_of_le (htimely.holds p hp hold)
    · rw [hpacks.tgt p hp] at hdue
      exact htimely.due p hp 1 hdue
  · rw [applyNextTick_accepted hb hs h]
    exact htimely.accepted

theorem rests (hpacks : b.Batch f serial packs) (h : b.Rests s s')
    (htimely : b.Timely f packs serial k s) : b.Timely f packs serial k s' := by
  refine ⟨fun p hp n hdue ↦ ?_, fun p hp hholds ↦ ?_, ?_⟩
  · rcases h.due _ p n hdue with hold | ⟨hserial, -, -⟩
    · exact htimely.due p hp n hold
    · rw [hpacks.serial p hp] at hserial
      exact absurd hserial htimely.accepted.ne
  · exact htimely.holds p hp (h.holds p hholds)
  · exact Nat.lt_of_lt_of_le htimely.accepted h.accepted

theorem perform (hb : b.WellFormed) (hd : b.home f.dst ∈ b.nodeIds)
    (hpacks : b.Batch f serial packs) (hs : b.Placed s) (htimely : b.Timely f packs serial k s)
    (call : Call) : b.Timely f packs serial (k + ticks [call]) (b.perform s call).2 := by
  by_cases hcall : call = .applyNextTick
  · subst hcall
    obtain ⟨s₁, s', htick, -⟩ := contents_applyNextTick hb hs
    rw [Bus.perform, htick]
    exact htimely.tick hb hd hpacks hs htick
  · have hzero : ticks [call] = 0 := by
      rw [ticks, List.count_cons_of_ne hcall, List.count_nil]
    rw [hzero]
    exact htimely.rests hpacks (perform_rests hcall)

theorem of_send {port dst : BusPortT} {c : ChannelT} {data : Bytes} (hknown : b.Known s)
    (hcnt : b.pacCnt data.length c ≤ 65535) :
    b.Timely ⟨port, dst, c⟩ (b.packets s port dst c data) s.accepted 0
      (enqueue (b.reserve s dst c) port c (b.packets s port dst c data)) := by
  have hbatch := batch_packets (b := b) s port dst c data hcnt
  refine ⟨fun p hp n hdue ↦ ?_, fun p hp hholds ↦ ?_, ?_⟩
  · rcases due_enqueue hdue with hold | ⟨i, hi, rfl⟩
    · exact absurd (hbatch.serial p hp) (hknown.due _ p n hold).1.ne
    · rw [hbatch.index i p hi, earliest]
      dsimp only
      omega
  · exact absurd (hbatch.serial p hp) (hknown.holds p (holds_enqueue hholds)).1.ne
  · rw [accepted_enqueue]
    exact Nat.lt_succ_self _

end Timely

/-! ## What `recv` returns -/

/-- The packets that the loop of `recv` has taken when it ends. -/
theorem takePackets_none (t : ℕ) : ∀ (n i : ℕ) (taken buf : List MsgPack) (s : BusState)
    {packs buf' : List MsgPack} {s' : BusState},
    takePackets t n i taken buf s = (none, packs, buf', s') → packs = taken ++ buf.take n := by
  intro n
  induction n with
  | zero =>
    intro i taken buf s packs buf' s' h
    obtain ⟨-, h⟩ := Prod.mk.inj h
    rw [List.take_zero, List.append_nil]
    exact (Prod.mk.inj h).1.symm
  | succ n ih =>
    intro i taken buf s packs buf' s' h
    cases buf with
    | nil => cases (Prod.mk.inj h).1
    | cons q buf =>
      rw [takePackets] at h
      split_ifs at h
      · rw [ih _ _ _ _ h, List.append_assoc, List.take_succ_cons, List.singleton_append]
      · cases (Prod.mk.inj h).1

/-- A message that `recv` returns is made of the packets at the front of the buffer, as many as the
first of them says. -/
theorem recv_message {q : BusPortT} {c : ChannelT} {bytes : Bytes} {packs : List MsgPack}
    (h : (b.recv s q c).1 = .message bytes packs) :
    ∃ front rest, (s.ports q).recvBuf c = front :: rest ∧
      packs = (front :: rest).take front.pacCnt := by
  rw [Bus.recv] at h
  split at h
  · cases h
  · cases h
  · rw [recvNow] at h
    split at h
    · cases h
    · rename_i front rest hbuf
      split_ifs at h
      refine ⟨front, rest, hbuf, ?_⟩
      split at h
      · cases h
      · rename_i packs' buf s₁ htake
        dsimp only at h
        split at h
        · cases h
        · obtain ⟨-, rfl⟩ := RecvOutcome.message.inj h
          exact takePackets_none _ _ _ _ _ _ htake

theorem Known.recv_ne_nil {q : BusPortT} {c : ChannelT} {bytes : Bytes} {packs : List MsgPack}
    (hknown : b.Known s) (h : (b.recv s q c).1 = .message bytes packs) : packs ≠ [] := by
  obtain ⟨front, rest, hbuf, rfl⟩ := recv_message h
  have hfront : (s.view b).Holds front := .waiting q c (by
    change front ∈ (s.ports q).recvBuf c
    rw [hbuf]
    exact List.mem_cons_self)
  obtain ⟨n, hn⟩ := Nat.exists_eq_succ_of_ne_zero (hknown.holds front hfront).2.ne'
  rw [hn, List.take_succ_cons]
  exact List.cons_ne_nil _ _

/-- Before the last of its packets can be there, a message is not received. -/
theorem Timely.not_received {f : Flow} {packs : List MsgPack} {serial k : ℕ}
    (htimely : b.Timely f packs serial k s) (hpacks : b.Batch f serial packs) (hknown : b.Known s)
    (hk : k < b.hops (b.home f.src) (b.home f.dst) * (b.routeLatency + 1) + packs.length)
    (bytes : Bytes) : (b.recv s f.dst f.cha).1 ≠ .message bytes packs := by
  intro h
  obtain ⟨front, rest, hbuf, htake⟩ := recv_message h
  have hholds : ∀ p ∈ front :: rest, (s.view b).Holds p := fun p hp ↦
    .waiting f.dst f.cha (by rwa [← hbuf] at hp)
  have hsub : ∀ p ∈ packs, p ∈ front :: rest := fun p hp ↦
    List.mem_of_mem_take (htake ▸ hp)
  have hpos : 0 < packs.length := List.length_pos_of_ne_nil (hknown.recv_ne_nil h)
  have hlast : packs[packs.length - 1]? = some packs[packs.length - 1] :=
    List.getElem?_eq_getElem (Nat.sub_lt hpos Nat.one_pos)
  have hmem := List.mem_of_getElem? hlast
  have hle := htimely.holds _ hmem (hholds _ (hsub _ hmem))
  rw [hpacks.index _ _ hlast, earliest] at hle
  omega

end Bus

end Simbus
