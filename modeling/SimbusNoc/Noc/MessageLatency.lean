import SimbusNoc.Noc.Drain
import SimbusNoc.Noc.LoneMessage

/-!
# The latency of a message

No message is received before the route latency and one more tick for each of its hops and one tick
for each of its packets have passed, whatever else is on the bus. A message that an empty network
accepts without congestion control is received from then on, unless `send` has cut it into no
packets, which it does with a message whose size is lost in the 32-bit arithmetic.

`received_iff_ticks` has both halves. The first is for any run in which the message is accepted at
some time, with any traffic before and after it. The second is for a run in which nothing else is
sent and whose network was clear when the message was accepted: the number of ticks that have
passed decides whether a `recv` returns it. It is a bound that is met and not only a bound.
-/

namespace Simbus

namespace Bus

variable {b : Bus} {f : Flow} {packs : List MsgPack} {serial k : ℕ} {s s' : BusState}
  {port dst : BusPortT} {c : ChannelT}

/-! ## Received messages -/

/-- A `recv` has returned the message of these packets. -/
def Received (d : BusPortT) (c : ChannelT) (packs : List MsgPack) (events : List Event) : Prop :=
  ∃ bytes, (.recv d c, .received (.message bytes packs)) ∈ events

/-- The call is no `send`. -/
def Call.NoSend : Call → Prop
  | .send _ _ _ _ => False
  | _ => True

theorem received_cons {call : Call} {outcome : Outcome} {events : List Event} :
    Received dst c packs ((call, outcome) :: events) ↔
      (call = .recv dst c ∧ ∃ bytes, outcome = .received (.message bytes packs)) ∨
        Received dst c packs events := by
  constructor
  · rintro ⟨bytes, hmem⟩
    rcases List.mem_cons.mp hmem with heq | hmem
    · obtain ⟨hcall, houtcome⟩ := Prod.mk.inj heq
      exact .inl ⟨hcall.symm, bytes, houtcome.symm⟩
    · exact .inr ⟨bytes, hmem⟩
  · rintro (⟨rfl, bytes, rfl⟩ | ⟨bytes, hmem⟩)
    · exact ⟨bytes, List.mem_cons_self⟩
    · exact ⟨bytes, List.mem_cons_of_mem _ hmem⟩

/-- The call at the head of a run has received the message. -/
theorem recv_of_perform {call : Call} {bytes : Bytes} (hcall : call = .recv dst c)
    (houtcome : (b.perform s call).1 = .received (.message bytes packs)) :
    (b.recv s dst c).1 = .message bytes packs := by
  subst hcall
  exact Outcome.received.inj houtcome

theorem Received.ne_nil (hb : b.WellFormed) (calls : List Call) :
    ∀ {s : BusState}, b.Placed s → b.Known s → Received dst c packs (b.run s calls).1 →
      packs ≠ [] := by
  induction calls with
  | nil =>
    rintro s - - ⟨bytes, hmem⟩
    cases hmem
  | cons call rest ih =>
    intro s hs hknown hreceived
    rcases received_cons.mp hreceived with ⟨hcall, bytes, houtcome⟩ | hreceived
    · exact hknown.recv_ne_nil (recv_of_perform hcall houtcome)
    · exact ih (hs.perform hb call) (hknown.perform hb hs call) hreceived

/-! ## Not before

In any run the last packet of a message is received no earlier than it is due.
-/

/-- In any run, a message is received only when the last of its packets can be there. -/
theorem ticks_of_received (hb : b.WellFormed) (hd : b.home f.dst ∈ b.nodeIds)
    (hpacks : b.Batch f serial packs) (calls : List Call) :
    ∀ {s : BusState} {k : ℕ}, b.Placed s → b.Known s → b.Timely f packs serial k s →
      Received f.dst f.cha packs (b.run s calls).1 →
      b.hops (b.home f.src) (b.home f.dst) * (b.routeLatency + 1) + packs.length ≤
        k + ticks calls := by
  induction calls with
  | nil =>
    rintro s k - - - ⟨bytes, hmem⟩
    cases hmem
  | cons call rest ih =>
    intro s k hs hknown htimely hreceived
    rw [ticks_cons]
    rcases received_cons.mp hreceived with ⟨hcall, bytes, houtcome⟩ | hreceived
    · have hrecv := recv_of_perform hcall houtcome
      have hle := mt (htimely.not_received hpacks hknown · bytes) (fun hnot ↦ hnot hrecv)
      omega
    · have := ih (hs.perform hb call) (hknown.perform hb hs call)
        (htimely.perform hb hd hpacks hs call) hreceived
      omega

/-! ## And not later

A message that is alone in the network is due exactly when it is there.
-/

/-- Alone in the network, a message is received as soon as the last of its packets can be there. -/
theorem Lone.received (hb : b.WellFormed) (hfree : b.config.congestion.enabled = false)
    (hd : b.knownPort f.dst = true) (hc : f.cha < b.chaCnt) (hpacks : b.Batch f serial packs)
    (hne : packs ≠ []) (more : List Call) (hmore : ∀ call ∈ more, call.NoSend) :
    ∀ {s : BusState} {k : ℕ}, b.Lone f packs serial k s →
      b.hops (b.home f.src) (b.home f.dst) * (b.routeLatency + 1) + packs.length ≤
        k + ticks more →
      Received f.dst f.cha packs (b.run s (more ++ [.recv f.dst f.cha])).1 := by
  have hhome := hb.home_mem _ hd
  -- A `recv` of the message that comes in time returns it.
  have htake : ∀ {s : BusState} {k : ℕ} (rest : List Call), b.Lone f packs serial k s →
      b.hops (b.home f.src) (b.home f.dst) * (b.routeLatency + 1) + packs.length ≤ k →
      Received f.dst f.cha packs (b.run s (.recv f.dst f.cha :: rest)).1 := by
    intro s k rest h hk
    obtain ⟨bytes, hrecv⟩ :=
      recv_batch hd hc hpacks hne (h.recvBuf_of_due hpacks hk) h.credit
    exact received_cons.mpr (.inl ⟨rfl, bytes, congrArg Outcome.received hrecv⟩)
  induction more with
  | nil =>
    intro s k h hk
    exact htake [] h hk
  | cons call rest ih =>
    intro s k h hk
    have hrest := fun call hcall ↦ hmore call (List.mem_cons_of_mem _ hcall)
    rw [ticks_cons] at hk
    rw [List.cons_append]
    cases call with
    | send => exact (hmore _ List.mem_cons_self).elim
    | applyNextTick =>
      obtain ⟨s₁, s', htick, -⟩ := contents_applyNextTick hb h.placed
      have hperform : (b.perform s .applyNextTick).2 = s' := by rw [Bus.perform, htick]
      have h' := h.tick hb hfree hhome hc hpacks htick
      refine received_cons.mpr (.inr (ih hrest (hperform ▸ h') ?_))
      rw [Nat.add_assoc]
      exact hk
    | clearStatistics =>
      refine received_cons.mpr (.inr (ih hrest (h.clearStatistics hb hpacks) ?_))
      rwa [show ticks [.clearStatistics] = 0 from rfl, Nat.zero_add] at hk
    | recv d e =>
      rw [show ticks [.recv d e] = 0 from rfl, Nat.zero_add] at hk
      by_cases hde : (d, e) = (f.dst, f.cha)
      · obtain ⟨rfl, rfl⟩ := Prod.mk.inj hde
        rcases Nat.lt_or_ge k (b.hops (b.home f.src) (b.home f.dst) * (b.routeLatency + 1)
            + packs.length) with hearly | hdue
        · have hrecv := recv_nil hd hc (h.recvBuf_of_early hpacks hearly)
          have hperform : (b.perform s (.recv f.dst f.cha)).2 = s := by rw [Bus.perform, hrecv]
          exact received_cons.mpr (.inr (ih hrest (hperform.symm ▸ h) hk))
        · exact htake _ h hdue
      · exact received_cons.mpr (.inr (ih hrest (h.recv_elsewhere hb hpacks hde) hk))

/-! ## A message that an empty network accepts -/

/-- No packet is on its way, waits for others of its message, or waits to be received at port `d` on
channel `c`. -/
structure Clear (s : BusState) (d : BusPortT) (c : ChannelT) : Prop where
  travel : ¬Loaded s
  order : ∀ v, (s.nodes v).orderBuf = []
  recvBuf : (s.ports d).recvBuf c = []

theorem Clear.lone (hb : b.WellFormed) (hs : b.Placed s) (hptr : b.Pointed s)
    (hknown : b.Known s) (hclear : Clear s dst c) {data : Bytes}
    (hsend : b.send s port dst c data = .ok (true, s')) :
    b.Lone ⟨port, dst, c⟩ (b.packets s port dst c data) s.accepted 0 s' := by
  have hplaced := hs.perform hb (.send port dst c data)
  have hpointed := hptr.perform (.send port dst c data)
  rw [perform, hsend] at hplaced hpointed
  obtain ⟨hport, hdst, hc, -, hroom, hcnt, rfl⟩ := send_accepted hsend
  have hbatch := batch_packets (b := b) s port dst c data hcnt
  have hempty : ∀ y, s.contents y = [] := fun y ↦ by
    by_contra hne
    exact hclear.travel ⟨y, hne⟩
  have htravel : ∀ f, (s.view b).travel f = [] := fun f ↦
    List.eq_nil_iff_forall_not_mem.mpr fun p hp ↦ by
      obtain ⟨-, y, -, hy⟩ := Stages.mem_along.mp hp
      exact hclear.travel ⟨y, List.ne_nil_of_mem hy⟩
  have hview := view_enqueue (s := s) hb (f := ⟨port, dst, c⟩) ⟨hport, hdst⟩ hbatch.flow
  dsimp only at hview
  refine ⟨hplaced, hpointed, .of_send hknown hcnt, fun p n hdue ↦ ?_, fun e d ↦ ?_, ⟨0, ?_⟩, ?_⟩
  · rcases due_enqueue hdue with hold | ⟨i, hi, rfl⟩
    · obtain ⟨y, hy⟩ := hold.mem_contents
      rw [hempty] at hy
      cases hy
    · have hbuf : (s.ports port).sendBuf c = [] := hempty (.queue port c)
      rw [hbatch.index i p hi, hbuf, earliest, List.length_nil]
      dsimp only
      omega
  · change ((b.reserve s dst c).edges e).input d = none
    rw [edges_reserve]
    exact Option.toList_eq_nil_iff.mp (hempty (.input e d))
  · rw [hview, htravel, List.nil_append]
    refine ⟨Nat.zero_le _, View.travel_setTravel_self _ _ _, fun f' hf' ↦ ?_, fun p hp ↦ ?_, ?_⟩
    · rw [View.travel_setTravel_ne _ _ _ hf', htravel]
    · rw [List.take_zero, ite_self]
      change orderList (s.nodes (b.home dst)).orderBuf p.xmtid = []
      rw [hclear.order]
      rfl
    · refine hclear.recvBuf.trans ?_
      split_ifs with hzero
      · exact (List.length_eq_zero_iff.mp hzero.symm).symm
      · rfl
  · rw [reserved_enqueue, reserved_reserve]
    by_cases hslots : b.config.receiveMessageSlots = 0
    · exact .inl hslots
    · rw [if_pos ⟨hslots, rfl, rfl⟩]
      exact .inr (Nat.succ_pos _)

end Bus

open Bus

variable {ord : HashOrder} {portIds : List BusPortT} {portToNode : List BusNodeT}
  {widths : List ℕ} {route : BusRouteTable} {config : NocConfig} {b : Bus} {calls : List Call}

/-- No message over `n` hops is received before `n * (b.routeLatency + 1)` ticks and one tick for
each of its packets. Without congestion control and other messages on the way it is received from
then on, exactly when it has been cut into packets at all. -/
theorem received_iff_ticks (h : construct ord portIds portToNode widths route config = .ok b)
    {port dst : BusPortT} {c : ChannelT} {data : Bytes} {s' : BusState}
    (hsend : b.send (b.run {} calls).2 port dst c data = .ok (true, s')) {n : ℕ}
    (hn : b.route.TakesHops (b.home port) (b.home dst) n) :
    (∀ more, Received dst c (b.packets (b.run {} calls).2 port dst c data)
        (b.run s' (more ++ [.recv dst c])).1 →
      n * (b.routeLatency + 1) + b.pacCnt data.length c ≤ ticks more) ∧
    (config.congestion.enabled = false → Clear (b.run {} calls).2 dst c →
      ((∀ more, (∀ call ∈ more, call.NoSend) →
        (Received dst c (b.packets (b.run {} calls).2 port dst c data)
            (b.run s' (more ++ [.recv dst c])).1 ↔
          n * (b.routeLatency + 1) + b.pacCnt data.length c ≤ ticks more)) ↔
      0 < b.pacCnt data.length c)) := by
  have hb := construct_wellFormed h
  obtain ⟨-, -, -, -, -, -, hconfig⟩ := construct_eq_ok h
  have hs := placed_run hb calls
  have hknown := known_run hb calls
  obtain ⟨hport, hdst, hc, -, -, hcnt, hs'⟩ := send_accepted hsend
  have hbatch := batch_packets (b := b) (b.run {} calls).2 port dst c data hcnt
  have hs₁ := hs.perform hb (.send port dst c data)
  have hknown₁ := hknown.perform hb hs (.send port dst c data)
  rw [perform, hsend] at hs₁ hknown₁
  have hhops := eq_hops_of_takes hb (hb.home_mem _ hport) (hb.home_mem _ hdst) hn
  have hlength := length_packets (b := b) (b.run {} calls).2 port dst c data
  have hbefore : ∀ more, Received dst c (b.packets (b.run {} calls).2 port dst c data)
      (b.run s' (more ++ [.recv dst c])).1 →
      n * (b.routeLatency + 1) + b.pacCnt data.length c ≤ ticks more := by
    intro more hreceived
    have htimely : b.Timely ⟨port, dst, c⟩ (b.packets (b.run {} calls).2 port dst c data)
        (b.run {} calls).2.accepted 0 s' := hs' ▸ .of_send hknown hcnt
    have hle := ticks_of_received hb (hb.home_mem _ hdst) hbatch _ hs₁ hknown₁ htimely hreceived
    rw [ticks, List.count_append] at hle
    rw [hhops, ← hlength]
    change _ ≤ 0 + (ticks more + 0) at hle
    rwa [Nat.add_zero, Nat.zero_add] at hle
  refine ⟨hbefore, fun hfree hclear ↦ ⟨fun hexact ↦ ?_, fun hpos more hmore ↦ ?_⟩⟩
  · -- A message without packets is not received, however many ticks pass.
    obtain ⟨m, hm⟩ : ∃ m, m = n * (b.routeLatency + 1) + b.pacCnt data.length c := ⟨_, rfl⟩
    have hreceived := (hexact (List.replicate m .applyNextTick) fun call hcall ↦ by
      rw [List.eq_of_mem_replicate hcall]
      trivial).mpr (by rw [ticks, List.count_replicate_self, hm])
    have hne := Received.ne_nil hb _ hs₁ hknown₁ hreceived
    rw [← hlength]
    exact List.length_pos_of_ne_nil hne
  · refine ⟨hbefore more, fun hle ↦ ?_⟩
    -- In an empty network the message is alone.
    have hlone := hclear.lone hb hs (pointed_run calls) hknown hsend
    rw [← hlength] at hpos hle
    rw [hhops] at hle
    have hle₀ := hle.trans_eq (Nat.zero_add _).symm
    exact hlone.received hb (hconfig ▸ hfree) hdst hc hbatch (List.ne_nil_of_length_pos hpos) more
      hmore hle₀

theorem takesHops_open : openBus.route.TakesHops (openBus.home 0) (openBus.home 1) 1 where
  arrives := rfl
  first := fun i hi ↦ by
    obtain rfl := Nat.lt_one_iff.mp hi
    decide

theorem clear_init (d : BusPortT) (c : ChannelT) : Clear {} d c where
  travel := by
    rintro ⟨y, hy⟩
    cases y <;> exact hy rfl
  order := fun _ ↦ rfl
  recvBuf := rfl

/-- Two packets over one hop take six ticks. -/
theorem received_iff_ticks_open :
    (∀ more, Received 1 0 (openBus.packets {} 0 1 0 [1, 2, 3, 4, 5])
        (openBus.run (openBus.perform {} (.send 0 1 0 [1, 2, 3, 4, 5])).2
          (more ++ [.recv 1 0])).1 → 6 ≤ ticks more) ∧
      ∀ more, (∀ call ∈ more, call.NoSend) →
        (Received 1 0 (openBus.packets {} 0 1 0 [1, 2, 3, 4, 5])
          (openBus.run (openBus.perform {} (.send 0 1 0 [1, 2, 3, 4, 5])).2
            (more ++ [.recv 1 0])).1 ↔ 6 ≤ ticks more) := by
  have hsend : openBus.send (openBus.run {} []).2 0 1 0 [1, 2, 3, 4, 5] =
      .ok (true, (openBus.perform {} (.send 0 1 0 [1, 2, 3, 4, 5])).2) := rfl
  obtain ⟨hbefore, hexact⟩ := received_iff_ticks construct_openBus hsend takesHops_open
  exact ⟨hbefore, (hexact rfl (clear_init 1 0)).mpr (by decide)⟩

/-- A message that is never received: of 2^32 bytes, cut into no packets. -/
theorem not_received_oversized :
    construct .insertion [0, 1] [0, 1] [4] pairRoute openConfig = .ok openBus ∧
      openConfig.congestion.enabled = false ∧
      openBus.route.TakesHops (openBus.home 0) (openBus.home 1) 1 ∧ Clear {} 1 0 ∧
      ∃ s', openBus.send {} 0 1 0 (List.replicate (2 ^ 32) 0) = .ok (true, s') ∧
        ¬∀ more, (∀ call ∈ more, call.NoSend) →
          (Received 1 0 (openBus.packets {} 0 1 0 (List.replicate (2 ^ 32) 0))
              (openBus.run s' (more ++ [.recv 1 0])).1 ↔
            1 * (openBus.routeLatency + 1) +
              openBus.pacCnt (List.replicate (2 ^ 32) (0 : UInt8)).length 0 ≤ ticks more) := by
  refine ⟨construct_openBus, rfl, takesHops_open, clear_init 1 0, ?_⟩
  generalize hdata : List.replicate (2 ^ 32) (0 : UInt8) = data
  have hlength : data.length = 2 ^ 32 := by rw [← hdata, List.length_replicate]
  have hb := construct_wellFormed construct_openBus
  obtain ⟨s', hsent, -, -⟩ := perform_oversized hlength
  have hs := (Placed.init openBus).perform hb (.send 0 1 0 data)
  have hknown := (Known.init openBus).perform hb (.init openBus) (.send 0 1 0 data)
  rw [hsent] at hs hknown
  have hcnt : openBus.pacCnt data.length 0 = 0 := by
    rw [hlength]
    decide
  refine ⟨s', ?_, fun h ↦ ?_⟩
  · rw [perform] at hsent
    split at hsent
    · rename_i accepted s₁ hsend
      obtain ⟨haccepted, rfl⟩ := Prod.mk.inj hsent
      obtain rfl := Outcome.sent.inj haccepted
      exact hsend
    · cases (Prod.mk.inj hsent).1
  · have hreceived := (h (List.replicate 4 .applyNextTick) fun call hcall ↦ by
      rw [List.eq_of_mem_replicate hcall]
      trivial).mpr (by rw [hcnt]; decide)
    have hne := Received.ne_nil hb _ hs hknown hreceived
    rw [packets, hcnt] at hne
    exact hne rfl

end Simbus
