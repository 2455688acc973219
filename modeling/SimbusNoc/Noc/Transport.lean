import SimbusNoc.Noc.TickSpec
import SimbusNoc.Noc.Endpoints

/-!
# The network as a transport

The invariant of the whole bus, and what each call does to the ledger: an accepted `send` adds a
message to the live ones, a tick only moves packets, and a `recv` that returns takes back a
delivered message.

## The invariant

`Inv` joins the two halves: the packets stand on their ways (`Placed`), and a ledger accounts for
what is in transit and at the destinations (`Carries`). To these it adds the credits, which are the
live messages of a port and channel when reception is bounded, and the numbering of the messages,
by which two live messages never have one serial.

## The calls

For `send` the work is in `send_eq_ok`, which says in one statement what a call that does not throw
can have found and done, and in the fields of the ports afterwards. For `recv` it is in
`recv_whole`: a port whose buffer begins with a whole message returns the bytes of that message,
returns its credit and removes its packets and nothing else. That these are all the cases is
`recv_cases`. There `recv` throws only when two live messages have shared a transmission id.
-/

namespace Simbus

open Stages

namespace Bus

/-- The messages to one port and channel. -/
def addressed (d : BusPortT) (c : ChannelT) (m : Message) : Bool := decide (m.dst = d ∧ m.cha = c)

/-- The credits taken for one port and channel, when reception is bounded. -/
def credits (b : Bus) (g : Ledger) (d : BusPortT) (c : ChannelT) : ℕ :=
  if b.config.receiveMessageSlots = 0 then 0 else g.live.countP (addressed d c)

/-- The ledger accounts for the whole state. -/
structure Inv (b : Bus) (K : Prop) (g : Ledger) (s : BusState) : Prop where
  placed : b.Placed s
  carries : Carries b K g (s.view b)
  reserved : ∀ d c, (s.ports d).reserved c = b.credits g d c
  xmtid : s.xmtidAlloc = s.accepted % 2 ^ 32
  serials : ∀ m ∈ g.live, m.serial < s.accepted

variable {b : Bus} {K : Prop} {g : Ledger} {s : BusState}

theorem Inv.init (b : Bus) (K : Prop) : b.Inv K {} {} where
  placed := {
    located := fun y p hp ↦ by cases y <;> simp [BusState.contents] at hp
    packs := fun y p hp ↦ by cases y <;> simp [BusState.contents] at hp
    routers := fun _ ↦ ⟨List.Pairwise.nil, by simp, by simp, List.nodup_nil, by simp⟩ }
  carries := {
    sized := by simp
    serials := List.Pairwise.nil
    travel := fun f ↦ List.eq_nil_iff_forall_not_mem.mpr fun p hp ↦ by
      obtain ⟨-, y, -, hp⟩ := Stages.mem_along.mp hp
      cases y <;> simp [BusState.contents] at hp
    arrived_le := by simp
    delivered_live := by simp
    delivered_nodup := by simp
    recvBuf := fun _ _ ↦ rfl
    jam := fun _ _ ↦ .inl rfl
    order := fun _ _ ↦ .inl rfl
    order_live := fun v x p hp ↦ by simp [BusState.view, orderList] at hp
    partly := by simp
    ordered := fun _ f ↦ ⟨[], rfl, by simp⟩
    jam_live := by simp }
  reserved := fun d c ↦ by simp [credits]
  xmtid := rfl
  serials := by simp

theorem nodes_clearStatistics (v : BusNodeT) :
    ((b.clearStatistics s).nodes v).pipeline = (s.nodes v).pipeline ∧
      ((b.clearStatistics s).nodes v).orderBuf = (s.nodes v).orderBuf ∧
      ((b.clearStatistics s).nodes v).bufferedPackets = (s.nodes v).bufferedPackets := by
  unfold Bus.clearStatistics
  dsimp only
  split_ifs <;> exact ⟨rfl, rfl, rfl⟩

theorem edges_clearStatistics (e : EdgeId) :
    ((b.clearStatistics s).edges e).input = (s.edges e).input ∧
      ((b.clearStatistics s).edges e).output = (s.edges e).output := by
  unfold Bus.clearStatistics
  dsimp only
  split_ifs <;> exact ⟨rfl, rfl⟩

theorem contents_clearStatistics (s : BusState) : (b.clearStatistics s).contents = s.contents := by
  funext y
  cases y with
  | queue => rfl
  | pipe v => simp only [BusState.contents, (nodes_clearStatistics v).1]
  | input e c => simp only [BusState.contents, (edges_clearStatistics e).1]
  | output e c => simp only [BusState.contents, (edges_clearStatistics e).2]

theorem Placed.clearStatistics (h : b.Placed s) : Evolves b s (b.clearStatistics s) :=
  .of_contents h (contents_clearStatistics s)
    (fun v ↦ (h.routers v).congr (nodes_clearStatistics v).1 (nodes_clearStatistics v).2.1
      (nodes_clearStatistics v).2.2)
    (fun _ ↦ rfl) (fun v ↦ (nodes_clearStatistics v).2.1) ⟨fun _ ↦ rfl, rfl, rfl, rfl⟩

namespace Inv

/-- Only the stages, the buffers, the reservations and the two counters matter. -/
theorem congr (h : b.Inv K g s) {s' : BusState} (hnodes : s'.nodes = s.nodes)
    (hports : s'.ports = s.ports) (hedges : s'.edges = s.edges)
    (hxmtid : s'.xmtidAlloc = s.xmtidAlloc) (haccepted : s'.accepted = s.accepted) :
    b.Inv K g s' := by
  have hcontents : s'.contents = s.contents := by
    funext y
    cases y <;> simp [BusState.contents, hnodes, hports, hedges]
  have hview : s'.view b = s.view b := by
    simp only [BusState.view, hcontents, hnodes, hports]
  exact {
    placed := {
      located := hcontents ▸ h.placed.located
      packs := hcontents ▸ h.placed.packs
      routers := hnodes ▸ h.placed.routers }
    carries := hview ▸ h.carries
    reserved := hports ▸ h.reserved
    xmtid := by rw [hxmtid, haccepted, h.xmtid]
    serials := haccepted ▸ h.serials }

/-! ## The tick and the statistics -/

theorem carries_arrivals (hb : b.WellFormed) {w w' : View} (hmode : K ∨ g.Distinct b)
    (hkeyed : K → g.Keyed b) (h : Carries b K g w) (hw : Relation.ReflTransGen (Arrive b) w w') :
    ∃ g', g'.live = g.live ∧ Carries b K g' w' := by
  induction hw with
  | refl => exact ⟨g, rfl, h⟩
  | tail _ harrive ih =>
    obtain ⟨g₁, hlive, hcarries⟩ := ih
    obtain ⟨p, t, hp, rfl⟩ := harrive
    obtain ⟨g₂, hlive', hcarries'⟩ := hcarries.arrive hb
      (hmode.imp_right fun hd ↦ by rw [Ledger.Distinct, hlive]; exact hd)
      (fun hK ↦ by rw [Ledger.Keyed, hlive]; exact hkeyed hK) hp
    exact ⟨g₂, hlive'.trans hlive, hcarries'⟩

/-- Moves inside a tick keep the live messages. -/
theorem of_evolves (hb : b.WellFormed) (h : b.Inv K g s) (hmode : K ∨ g.Distinct b)
    (hkeyed : K → g.Keyed b) {s' : BusState} (hev : Evolves b s s') :
    ∃ g', g'.live = g.live ∧ b.Inv K g' s' := by
  obtain ⟨g', hlive, hcarries⟩ := carries_arrivals hb hmode hkeyed h.carries hev.arrivals
  refine ⟨g', hlive, ?_⟩
  exact {
    placed := hev.placed
    carries := hcarries
    reserved := fun d c ↦ by
      rw [hev.keeps.reserved, h.reserved, credits, credits, hlive]
    xmtid := by rw [hev.keeps.xmtidAlloc, hev.keeps.accepted, h.xmtid]
    serials := fun m hm ↦ by
      rw [hev.keeps.accepted]
      exact h.serials m (hlive ▸ hm) }

theorem tick (hb : b.WellFormed) (h : b.Inv K g s) (hmode : K ∨ g.Distinct b)
    (hkeyed : K → g.Keyed b) :
    ∃ s' g', b.applyNextTick s = .ok s' ∧ g'.live = g.live ∧ b.Inv K g' s' ∧
      s'.accepted = s.accepted ∧ s'.currentTick = s.currentTick + 1 := by
  obtain ⟨s₁, s', hs', hev, rfl⟩ := applyNextTick_spec hb h.placed
  obtain ⟨g', hlive, hinv⟩ := h.of_evolves hb hmode hkeyed hev
  exact ⟨_, g', hs', hlive, hinv.congr rfl rfl rfl rfl rfl, hev.keeps.accepted,
    congrArg (· + 1) hev.keeps.currentTick⟩

theorem clearStatistics (hb : b.WellFormed) (h : b.Inv K g s) (hmode : K ∨ g.Distinct b)
    (hkeyed : K → g.Keyed b) :
    ∃ g', g'.live = g.live ∧ b.Inv K g' (b.clearStatistics s) :=
  h.of_evolves hb hmode hkeyed h.placed.clearStatistics

end Inv

/-! ## Sending

An accepted `send` puts the packets of the message at the end of a send buffer and takes a
reservation. Both are seen in the ledger as one event, and a `send` that returns false is none.
-/

theorem validatePort_eq_ok {p : BusPortT} {u : Unit} :
    b.validatePort p = .ok u ↔ b.knownPort p = true := require_eq_ok_iff

theorem validateChannel_eq_ok {c : ChannelT} {u : Unit} :
    b.validateChannel c = .ok u ↔ c < b.chaCnt := by
  rw [validateChannel, require_eq_ok_iff, decide_eq_true_eq]

/-- What a `send` that does not throw can do. When it returns false, only the statistics can have
changed. -/
theorem send_eq_ok {port dst : BusPortT} {c : ChannelT} {data : Bytes} {accepted : Bool}
    {s' : BusState} (h : b.send s port dst c data = .ok (accepted, s')) :
    b.knownPort port = true ∧ b.knownPort dst = true ∧ c < b.chaCnt ∧
      ((accepted = false ∧ ∃ stats, s' = { s with stats := stats }) ∨
        (accepted = true ∧ b.canSendNow s port c = true ∧
          (b.config.receiveMessageSlots = 0 ∨ data.length ≤ b.config.maxMessageBytes ∧
            (s.ports dst).reserved c < b.config.receiveMessageSlots) ∧
          b.pacCnt data.length c ≤ 65535 ∧
          s' = enqueue (b.reserve s dst c) port c (b.packets s port dst c data))) := by
  simp only [send, Except.bind_eq_ok_iff, validatePort_eq_ok, validateChannel_eq_ok,
    exists_and_left, exists_const] at h
  obtain ⟨hport, hdst, hc, h⟩ := h
  refine ⟨hport, hdst, hc, ?_⟩
  by_cases hcan : b.canSendNow s port c = true
  · rw [if_neg (by simp [hcan])] at h
    simp only [Except.bind_eq_ok_iff, require_eq_ok_iff, exists_and_left, exists_const,
      Bool.or_eq_true, beq_iff_eq, decide_eq_true_eq] at h
    obtain ⟨hsize, h⟩ := h
    by_cases hfull : b.config.receiveMessageSlots ≠ 0 ∧
        b.config.receiveMessageSlots ≤ (s.ports dst).reserved c
    · rw [if_pos hfull] at h
      simp only [pure, Except.pure, Except.ok.injEq, Prod.mk.injEq] at h
      exact .inl ⟨h.1.symm, _, h.2.symm⟩
    · rw [if_neg hfull] at h
      simp only [Except.bind_eq_ok_iff, require_eq_ok_iff, exists_and_left, exists_const,
        decide_eq_true_eq, pure, Except.pure, Except.ok.injEq, Prod.mk.injEq] at h
      obtain ⟨hcnt, htrue, hs'⟩ := h
      refine .inr ⟨htrue.symm, hcan, ?_, hcnt, hs'.symm⟩
      by_cases hzero : b.config.receiveMessageSlots = 0
      · exact .inl hzero
      · exact .inr ⟨hsize.resolve_left hzero, Nat.lt_of_not_le fun hge ↦ hfull ⟨hzero, hge⟩⟩
  · rw [if_pos (by simp [hcan])] at h
    simp only [pure, Except.pure, Except.ok.injEq, Prod.mk.injEq] at h
    exact .inl ⟨h.1.symm, s.stats, h.2.symm⟩

theorem send_accepted {port dst : BusPortT} {c : ChannelT} {data : Bytes} {s' : BusState}
    (h : b.send s port dst c data = .ok (true, s')) :
    b.knownPort port = true ∧ b.knownPort dst = true ∧ c < b.chaCnt ∧
      b.canSendNow s port c = true ∧
      (b.config.receiveMessageSlots = 0 ∨ data.length ≤ b.config.maxMessageBytes ∧
        (s.ports dst).reserved c < b.config.receiveMessageSlots) ∧
      b.pacCnt data.length c ≤ 65535 ∧
      s' = enqueue (b.reserve s dst c) port c (b.packets s port dst c data) := by
  obtain ⟨hport, hdst, hc, ⟨hfalse, -⟩ | ⟨-, hcan, hroom, hcnt, hs'⟩⟩ := send_eq_ok h
  · cases hfalse
  · exact ⟨hport, hdst, hc, hcan, hroom, hcnt, hs'⟩

/-! The fields of the ports after an accepted `send`. -/

section Ports

variable (s) (port dst : BusPortT) (c : ChannelT) (packs : List MsgPack)

@[simp] theorem recvBuf_enqueue (p : BusPortT) :
    ((enqueue s port c packs).ports p).recvBuf = (s.ports p).recvBuf := by
  by_cases hp : p = port <;> simp [enqueue, BusState.setPort, hp]

@[simp] theorem reserved_enqueue (p : BusPortT) :
    ((enqueue s port c packs).ports p).reserved = (s.ports p).reserved := by
  by_cases hp : p = port <;> simp [enqueue, BusState.setPort, hp]

@[simp] theorem sendBuf_enqueue_self :
    ((enqueue s port c packs).ports port).sendBuf c = (s.ports port).sendBuf c ++ packs := by
  simp [enqueue, BusState.setPort]

theorem sendBuf_enqueue_ne {p : BusPortT} {e : ChannelT} (h : (p, e) ≠ (port, c)) :
    ((enqueue s port c packs).ports p).sendBuf e = (s.ports p).sendBuf e := by
  by_cases hp : p = port
  · subst hp
    have he : e ≠ c := fun he ↦ h (by rw [he])
    simp [enqueue, BusState.setPort, he]
  · simp [enqueue, BusState.setPort, hp]

@[simp] theorem recvBuf_reserve (p : BusPortT) :
    ((b.reserve s dst c).ports p).recvBuf = (s.ports p).recvBuf := by
  unfold reserve
  split_ifs
  · rfl
  · by_cases hp : p = dst <;> simp [BusState.setPort, hp]

@[simp] theorem sendBuf_reserve (p : BusPortT) :
    ((b.reserve s dst c).ports p).sendBuf = (s.ports p).sendBuf := by
  unfold reserve
  split_ifs
  · rfl
  · by_cases hp : p = dst <;> simp [BusState.setPort, hp]

theorem reserved_reserve (d : BusPortT) (e : ChannelT) :
    ((b.reserve s dst c).ports d).reserved e = (s.ports d).reserved e +
      if b.config.receiveMessageSlots ≠ 0 ∧ d = dst ∧ e = c then 1 else 0 := by
  unfold reserve
  by_cases hslots : b.config.receiveMessageSlots = 0
  · simp [hslots]
  · by_cases hd : d = dst
    · by_cases he : e = c <;> simp [BusState.setPort, hslots, hd, he]
    · simp [BusState.setPort, hslots, hd]

@[simp] theorem nodes_reserve : (b.reserve s dst c).nodes = s.nodes := by
  unfold reserve
  split_ifs <;> rfl

@[simp] theorem edges_reserve : (b.reserve s dst c).edges = s.edges := by
  unfold reserve
  split_ifs <;> rfl

@[simp] theorem xmtidAlloc_reserve : (b.reserve s dst c).xmtidAlloc = s.xmtidAlloc := by
  unfold reserve
  split_ifs <;> rfl

@[simp] theorem accepted_reserve : (b.reserve s dst c).accepted = s.accepted := by
  unfold reserve
  split_ifs <;> rfl

@[simp] theorem currentTick_reserve : (b.reserve s dst c).currentTick = s.currentTick := by
  unfold reserve
  split_ifs <;> rfl

end Ports

/-- Packets of one flow enter the send buffer of its port. -/
theorem push_enqueue (f : Flow) {packs : List MsgPack} (hpacks : ∀ p ∈ packs, p.flow = f) :
    Push MsgPack.flow b.stages s.contents
      (enqueue (b.reserve s f.dst f.cha) f.src f.cha packs).contents
      (.queue f.src f.cha) f packs where
  first := ⟨_, rfl⟩
  keys := hpacks
  target := by simp [BusState.contents]
  others := fun z hz ↦ by
    cases z with
    | queue p e =>
      have hne : (p, e) ≠ (f.src, f.cha) := by simpa using hz
      simp [BusState.contents, sendBuf_enqueue_ne _ _ _ _ hne]
    | pipe u =>
      change List.map _ ((b.reserve s f.dst f.cha).nodes u).pipeline = _
      rw [nodes_reserve]
      rfl
    | input e e' =>
      change (((b.reserve s f.dst f.cha).edges e).input e').toList = _
      rw [edges_reserve]
      rfl
    | output e e' =>
      change (((b.reserve s f.dst f.cha).edges e).output e').toList = _
      rw [edges_reserve]
      rfl

theorem view_enqueue (hb : b.WellFormed) {f : Flow} (hf : b.KnownFlow f) {packs : List MsgPack}
    (hpacks : ∀ p ∈ packs, p.flow = f) :
    (enqueue (b.reserve s f.dst f.cha) f.src f.cha packs).view b =
      (s.view b).setTravel f ((s.view b).travel f ++ packs) := by
  have hpush := push_enqueue (b := b) (s := s) f hpacks
  have hnodes : (enqueue (b.reserve s f.dst f.cha) f.src f.cha packs).nodes = s.nodes :=
    nodes_reserve s f.dst f.cha
  refine View.ext (funext fun f' ↦ ?_) (funext fun p ↦ ?_) (by simp [BusState.view, hnodes])
  · by_cases hf' : f' = f
    · subst hf'
      rw [View.travel_setTravel_self]
      exact hpush.inTransit_self (stages_nodup hb hf)
    · rw [View.travel_setTravel_ne _ _ _ hf']
      exact hpush.inTransit_other hf'
  · simp [BusState.view]

/-- Accepted packets stand at the beginning of their way, whatever they carry. -/
theorem Placed.enqueue (h : b.Placed s) {f : Flow} (hf : b.KnownFlow f) (hc : f.cha < b.chaCnt)
    {packs : List MsgPack} (hpacks : ∀ p ∈ packs, p.flow = f ∧ p.tgt = b.home f.dst) :
    b.Placed (enqueue (b.reserve s f.dst f.cha) f.src f.cha packs) := by
  have hpush := push_enqueue (b := b) (s := s) f fun p hp ↦ (hpacks p hp).1
  refine ⟨hpush.located h.located, fun y p hp ↦ ?_, fun v ↦ ?_⟩
  · by_cases hy : y = .queue f.src f.cha
    · subst hy
      rw [hpush.target] at hp
      rcases List.mem_append.mp hp with hp | hp
      · exact h.packs _ p hp
      · obtain ⟨rfl, htgt⟩ := hpacks p hp
        exact ⟨hf, htgt, hc⟩
    · exact h.packs y p (hpush.others y hy ▸ hp)
  · change b.RouterOk ((b.reserve s f.dst f.cha).nodes v)
    rw [nodes_reserve]
    exact h.routers v

theorem credits_accept (g : Ledger) (m : Message) (d : BusPortT) (c : ChannelT) :
    b.credits (g.accept m) d c =
      b.credits g d c + if b.config.receiveMessageSlots ≠ 0 ∧ d = m.dst ∧
      c = m.cha then 1 else 0 := by
  rw [credits, credits]
  by_cases hslots : b.config.receiveMessageSlots = 0
  · simp [hslots]
  · rw [if_neg hslots, if_neg hslots, Ledger.accept, List.countP_append]
    congr 1
    simp only [List.countP_cons, List.countP_nil, addressed, decide_eq_true_eq]
    by_cases hdc : d = m.dst ∧ c = m.cha
    · simp [hslots, hdc.1, hdc.2]
    · rw [if_neg fun h ↦ hdc ⟨h.1.symm, h.2.symm⟩, if_neg fun h ↦ hdc h.2]

theorem credits_giveBack {g : Ledger} {m : Message} (hnodup : g.live.Nodup) (hm : m ∈ g.live)
    (d : BusPortT) (c : ChannelT) :
    b.credits (g.giveBack m) d c =
      b.credits g d c - if b.config.receiveMessageSlots ≠ 0 ∧ d = m.dst ∧
      c = m.cha then 1 else 0 := by
  rw [credits, credits]
  by_cases hslots : b.config.receiveMessageSlots = 0
  · simp [hslots]
  · rw [if_neg hslots, if_neg hslots, g.countP_live_giveBack m hnodup hm (addressed d c)]
    by_cases hdc : d = m.dst ∧ c = m.cha
    · simp [addressed, hslots, hdc.1, hdc.2]
    · have hne : ¬(m.dst = d ∧ m.cha = c) := fun h ↦ hdc ⟨h.1.symm, h.2.symm⟩
      simp [addressed, hdc, hne]

namespace Inv

theorem send_true (hb : b.WellFormed) (h : b.Inv K g s) {port dst : BusPortT} {c : ChannelT}
    {data : Bytes} {s' : BusState} (hsize : data.length ≤ 2 ^ 32 - b.width c)
    (hsend : b.send s port dst c data = .ok (true, s')) :
    b.Inv K (g.accept (draft s port dst c data)) s' ∧ s'.accepted = s.accepted + 1 ∧
      s'.currentTick = s.currentTick := by
  obtain ⟨hport, hdst, hc, -, -, hcnt, rfl⟩ := send_accepted hsend
  rw [b.packets_eq h.xmtid]
  -- The message by itself, so that the state can be forgotten.
  obtain ⟨m, hm⟩ : ∃ m, m = draft s port dst c data := ⟨_, rfl⟩
  obtain ⟨rfl, rfl, rfl, hserial⟩ : port = m.src ∧ dst = m.dst ∧ c = m.cha ∧
      m.serial = s.accepted := by
    rw [hm]
    exact ⟨rfl, rfl, rfl, rfl⟩
  have hsized : b.Sized m := by
    refine ⟨hport, hdst, hc, ?_, ?_⟩ <;> rw [hm]
    · exact hsize
    · exact hcnt
  have hflow : ∀ p ∈ b.packetsOf m, p.flow = m.flow := fun _ hp ↦ flow_of_mem_packetsOf hp
  have hplaced : b.Placed (enqueue (b.reserve s m.dst m.cha) m.src m.cha (b.packetsOf m)) :=
    h.placed.enqueue hsized.flow hc fun p hp ↦ ⟨hflow p hp, tgt_of_mem_packetsOf hp⟩
  rw [← hm]
  set s' := enqueue (b.reserve s m.dst m.cha) m.src m.cha (b.packetsOf m) with hs'
  have haccepted : s'.accepted = s.accepted + 1 :=
    congrArg (· + 1) (accepted_reserve s m.dst m.cha)
  have hview : s'.view b = (s.view b).setTravel
    m.flow ((s.view b).travel m.flow ++ b.packetsOf m) :=
    view_enqueue hb hsized.flow hflow
  refine ⟨?_, haccepted, currentTick_reserve s m.dst m.cha⟩
  exact {
    placed := hplaced
    carries := hview ▸ h.carries.accept hb hsized fun m' hm' ↦ hserial ▸ h.serials m' hm'
    reserved := fun d e ↦ by
      rw [hs', reserved_enqueue, reserved_reserve, h.reserved, credits_accept]
    xmtid := by
      change ((b.reserve s m.dst m.cha).xmtidAlloc + 1) % 2 ^ 32 = _
      rw [xmtidAlloc_reserve, haccepted, h.xmtid, Nat.mod_add_mod]
    serials := fun m' hm' ↦ by
      rw [haccepted]
      rcases g.mem_live_accept m |>.mp hm' with hm' | rfl
      · exact (h.serials m' hm').trans (Nat.lt_succ_self _)
      · omega }

theorem send_false (h : b.Inv K g s) {port dst : BusPortT} {c : ChannelT} {data : Bytes}
    {s' : BusState} (hsend : b.send s port dst c data = .ok (false, s')) : b.Inv K g s' := by
  obtain ⟨-, -, -, ⟨-, stats, rfl⟩ | ⟨hfalse, -⟩⟩ := send_eq_ok hsend
  · exact h.congr rfl rfl rfl rfl rfl
  · cases hfalse

end Inv

/-! ## Receiving

A successful `recv` takes a message from the front of a receive buffer, packet by packet. By the
ledger what lies in front is a whole message, unless two live messages have shared a transmission
id; only then does it throw.
-/

/-- The packet loop changes statistics only. -/
theorem takePackets_state (t : ℕ) : ∀ (n i : ℕ) (taken buf : List MsgPack) (s : BusState),
    ∃ stats cnt, (takePackets t n i taken buf s).2.2.2 =
      { s with stats := stats, transmitCnt := cnt } := by
  intro n
  induction n with
  | zero => exact fun _ _ _ s ↦ ⟨s.stats, s.transmitCnt, rfl⟩
  | succ n ih =>
    intro i taken buf s
    cases buf with
    | nil => exact ⟨s.stats, s.transmitCnt, rfl⟩
    | cons p buf =>
      rw [takePackets]
      split_ifs
      · exact ih _ _ _ _
      · exact ⟨s.stats, s.transmitCnt, rfl⟩

/-- Whatever `recv` ends with, it touches nothing but its own port and the statistics. -/
theorem recv_snd (s : BusState) (d : BusPortT) (c : ChannelT) :
    ∃ q stats cnt, (b.recv s d c).2 =
      { s with ports := Function.update s.ports d q, stats := stats, transmitCnt := cnt } ∧
      q.sendBuf = (s.ports d).sendBuf := by
  have hself : ∃ q stats cnt, s =
      { s with ports := Function.update s.ports d q, stats := stats, transmitCnt := cnt } ∧
      q.sendBuf = (s.ports d).sendBuf :=
    ⟨s.ports d, s.stats, s.transmitCnt, by rw [Function.update_eq_self], rfl⟩
  rw [Bus.recv]
  split
  · exact hself
  · exact hself
  · rw [recvNow]
    split
    · exact hself
    · rename_i front rest _
      split_ifs
      · exact hself
      · obtain ⟨stats, cnt, htake⟩ :=
          takePackets_state s.currentTick front.pacCnt 0 [] (front :: rest) s
        rcases hout : takePackets s.currentTick front.pacCnt 0 [] (front :: rest) s with
          ⟨_ | i, packs, buf, s₁⟩ <;> rw [hout] at htake <;> obtain rfl := htake
        · dsimp only
          split
          · exact ⟨_, _, _, rfl, rfl⟩
          · rename_i s₂ hrelease
            unfold release at hrelease
            dsimp only at hrelease
            split_ifs at hrelease
            · obtain rfl := Option.some.inj hrelease
              exact ⟨_, _, _, rfl, rfl⟩
            · obtain rfl := Option.some.inj hrelease
              refine ⟨_, _, cnt, congrArg (fun ports ↦ { s with
                ports := ports
                stats := { stats with receivedMessages := stats.receivedMessages + 1 }
                transmitCnt := cnt }) (Function.update_idem ..), ?_⟩
              simp [setRecvBuf]
        · exact ⟨_, _, _, rfl, rfl⟩

/-- What no `recv` touches, whatever it ends with. -/
structure RecvKeeps (s s' : BusState) : Prop where
  nodes : s'.nodes = s.nodes
  edges : s'.edges = s.edges
  sendBuf : ∀ p, (s'.ports p).sendBuf = (s.ports p).sendBuf
  accepted : s'.accepted = s.accepted

theorem recv_keeps (s : BusState) (d : BusPortT) (c : ChannelT) :
    RecvKeeps s (b.recv s d c).2 := by
  obtain ⟨q, stats, cnt, heq, hsend⟩ := recv_snd (b := b) s d c
  rw [heq]
  refine ⟨rfl, rfl, fun p ↦ ?_, rfl⟩
  by_cases hp : p = d
  · rw [hp, ← hsend]
    exact congrArg PortStruct.sendBuf (Function.update_self ..)
  · exact congrArg PortStruct.sendBuf (Function.update_of_ne hp ..)

theorem takePackets_eq (t : ℕ) {l : List MsgPack} :
    ∀ (i : ℕ) (taken buf : List MsgPack) (s : BusState),
      (∀ k (hk : k < l.length), (l[k]).pacIdx = i + k) →
      ∃ stats cnt, takePackets t l.length i taken (l ++ buf) s =
        (none, taken ++ l, buf, { s with stats := stats, transmitCnt := cnt }) := by
  induction l with
  | nil => exact fun i taken buf s _ ↦ ⟨s.stats, s.transmitCnt, by simp [takePackets]⟩
  | cons p l ih =>
    intro i taken buf s hidx
    have hp : p.pacIdx = i := hidx 0 (Nat.succ_pos _)
    have hrest : ∀ k (hk : k < l.length), (l[k]).pacIdx = i + 1 + k := fun k hk ↦ by
      have := hidx (k + 1) (by simpa using hk)
      simpa [Nat.add_assoc, Nat.add_comm 1 k] using this
    rw [List.length_cons, List.cons_append, takePackets, if_pos hp]
    obtain ⟨stats, cnt, heq⟩ := ih (i + 1) (taken ++ [p]) buf _ hrest
    exact ⟨stats, cnt, by rw [heq]; simp⟩

/-- What a received message leaves of a state. -/
structure Taken (b : Bus) (s s' : BusState) (d : BusPortT) (c : ChannelT) (buf : List MsgPack) :
    Prop where
  nodes : s'.nodes = s.nodes
  edges : s'.edges = s.edges
  sendBuf : ∀ p, (s'.ports p).sendBuf = (s.ports p).sendBuf
  recvBuf_self : (s'.ports d).recvBuf c = buf
  recvBuf_ne : ∀ p e, (p, e) ≠ (d, c) → (s'.ports p).recvBuf e = (s.ports p).recvBuf e
  reserved : ∀ p e, (s'.ports p).reserved e = (s.ports p).reserved e -
    if b.config.receiveMessageSlots ≠ 0 ∧ p = d ∧ e = c then 1 else 0
  xmtidAlloc : s'.xmtidAlloc = s.xmtidAlloc
  accepted : s'.accepted = s.accepted
  currentTick : s'.currentTick = s.currentTick

private theorem taken_update {d : BusPortT} {c : ChannelT} {buf : List MsgPack} {q : PortStruct}
    (stats : NocStatistics) (cnt : BusPortT × BusPortT → ℕ)
    (hrecv : q.recvBuf = Function.update (s.ports d).recvBuf c buf)
    (hsend : q.sendBuf = (s.ports d).sendBuf)
    (hreserved : ∀ e, q.reserved e = (s.ports d).reserved e -
      if b.config.receiveMessageSlots ≠ 0 ∧ e = c then 1 else 0) :
    b.Taken s { s with ports := Function.update s.ports d q, stats := stats, transmitCnt := cnt }
      d c buf := by
  refine ⟨rfl, rfl, fun p ↦ ?_, by simp [hrecv], fun p e hpe ↦ ?_, fun p e ↦ ?_, rfl, rfl, rfl⟩ <;>
    by_cases hp : p = d
  · simp [hp, hsend]
  · simp [hp]
  · subst hp
    have he : e ≠ c := fun he ↦ hpe (by rw [he])
    simp [hrecv, he]
  · simp [hp]
  · simp [hp, hreserved]
  · simp [hp]

/-- The end of a successful `recv`: the packets are gone and the credit, if there is one, is
returned. -/
theorem release_setRecvBuf {d : BusPortT} {c : ChannelT} (buf : List MsgPack)
    (stats : NocStatistics) (cnt : BusPortT × BusPortT → ℕ)
    (hcredit : b.config.receiveMessageSlots = 0 ∨ 0 < (s.ports d).reserved c) :
    ∃ s', b.release { setRecvBuf s d c buf with stats := stats, transmitCnt := cnt } d c = some s' ∧
      b.Taken s s' d c buf := by
  by_cases hslots : b.config.receiveMessageSlots = 0
  · exact ⟨_, if_pos hslots, taken_update stats cnt rfl rfl fun e ↦ by simp [hslots]⟩
  · have hpos : 0 < (s.ports d).reserved c := hcredit.resolve_left hslots
    refine ⟨_, ?_, taken_update stats cnt (q := { s.ports d with
      recvBuf := Function.update (s.ports d).recvBuf c buf
      reserved := Function.update (s.ports d).reserved c ((s.ports d).reserved c - 1) })
      rfl rfl fun e ↦ ?_⟩
    · simp [release, hslots, setRecvBuf, BusState.setPort, hpos]
    · by_cases he : e = c <;> simp [he, hslots]

/-- A port whose buffer begins with a whole message returns it. -/
theorem recv_whole (hb : b.WellFormed) {m : Message} (hsized : b.Sized m) {buf : List MsgPack}
    (hbuf : (s.ports m.dst).recvBuf m.cha = b.packetsOf m ++ buf)
    (hcredit : b.config.receiveMessageSlots = 0 ∨ 0 < (s.ports m.dst).reserved m.cha) :
    ∃ s', canRecvNow s m.dst m.cha = true ∧
      b.recv s m.dst m.cha = (.message m.data (b.packetsOf m), s') ∧
      b.Taken s s' m.dst m.cha buf := by
  have hrecv : b.recv s m.dst m.cha = b.recvNow s m.dst m.cha := by
    rw [recv, (validatePort_eq_ok (u := ())).mpr hsized.dst,
      (validateChannel_eq_ok (u := ())).mpr hsized.cha]
  have hidx : ∀ k (hk : k < (b.packetsOf m).length), ((b.packetsOf m)[k]).pacIdx = 0 + k := by
    intro k hk
    rw [length_packetsOf] at hk
    simp only [packetsOf, List.getElem_map, List.getElem_range, Nat.zero_add]
    exact hsized.pack_pacIdx hk
  obtain ⟨stats, cnt, htake⟩ := takePackets_eq s.currentTick 0 [] buf s hidx
  rw [length_packetsOf, List.nil_append] at htake
  obtain ⟨tail, hcons⟩ : ∃ tail, b.packetsOf m = b.pack m 0 :: tail :=
    ⟨_, packetsOf_eq_cons (hsized.count_pos hb)⟩
  have hlen : b.count m = tail.length + 1 := by
    rw [← length_packetsOf, hcons, List.length_cons]
  obtain ⟨s', hs', htaken⟩ := release_setRecvBuf (b := b) buf
    { stats with receivedMessages := stats.receivedMessages + 1 } cnt hcredit
  refine ⟨s', ?_, ?_, htaken⟩
  · rw [canRecvNow, hbuf, hcons, List.cons_append]
    simp only [hsized.pack_pacCnt, List.length_append, decide_eq_true_eq]
    omega
  · rw [hrecv, recvNow, hbuf, hcons, List.cons_append]
    dsimp only
    rw [if_neg (by rw [hsized.pack_pacCnt, hlen, List.length_append]; omega), ← List.cons_append,
      ← hcons, hsized.pack_pacCnt, htake]
    simp only [setRecvBuf, BusState.setPort] at hs' ⊢
    rw [hs', resize_packetsOf hb hsized]

/-- What `recv` can do at a port whose buffer and whose reservations the ledger knows. -/
theorem recv_of_carries (hb : b.WellFormed) {w : View} (h : Carries b K g w) {d : BusPortT}
    {c : ChannelT} (hd : b.knownPort d = true) (hc : c < b.chaCnt)
    (hview : (s.ports d).recvBuf c = w.recvBuf d c)
    (hreserved : (s.ports d).reserved c = b.credits g d c) :
    (b.recv s d c = (.empty, s) ∧ canRecvNow s d c = false ∧ (¬K → g.delivered d c = [])) ∨
      (∃ m rest s', g.delivered d c = m :: rest ∧ canRecvNow s d c = true ∧
        b.recv s d c = (.message m.data (b.packetsOf m), s') ∧
        b.Taken s s' d c (rest.flatMap b.packetsOf ++ g.jam d c)) ∨
      (K ∧ canRecvNow s d c = true ∧ ∃ e s', b.recv s d c = (.thrown e, s')) := by
  have hrecv : b.recv s d c = b.recvNow s d c := by
    rw [recv, (validatePort_eq_ok (u := ())).mpr hd, (validateChannel_eq_ok (u := ())).mpr hc]
  have hbuf : (s.ports d).recvBuf c = (g.delivered d c).flatMap b.packetsOf ++ g.jam d c :=
    hview.trans (h.recvBuf d c)
  -- The buffer begins with a delivered message if there is one, and otherwise with the jam.
  cases hdel : g.delivered d c with
  | cons m rest =>
    obtain ⟨hm, rfl, rfl, -⟩ := h.delivered_live d c m (by simp [hdel])
    rw [hdel, List.flatMap_cons, List.append_assoc] at hbuf
    have hcredit : b.config.receiveMessageSlots = 0 ∨ 0 < (s.ports m.dst).reserved m.cha := by
      by_cases hslots : b.config.receiveMessageSlots = 0
      · exact .inl hslots
      · rw [hreserved, credits, if_neg hslots]
        exact .inr (List.countP_pos_iff.mpr ⟨m, hm, by simp [addressed]⟩)
    obtain ⟨s', hcan, hmessage, htaken⟩ := recv_whole hb (h.sized m hm) hbuf hcredit
    exact .inr (.inl ⟨m, rest, s', rfl, hcan, hmessage, htaken⟩)
  | nil =>
    rw [hdel, List.flatMap_nil, List.nil_append] at hbuf
    rw [hrecv]
    rcases h.jam d c with hjam | ⟨hK, p, q, r, hjam, hp, hq, hcnt⟩
    · left
      rw [hjam] at hbuf
      exact ⟨by rw [recvNow, hbuf], by rw [canRecvNow, hbuf], fun _ ↦ rfl⟩
    · rw [hjam] at hbuf
      by_cases hfew : r.length + 1 + 1 < p.pacCnt
      · refine .inl ⟨?_, ?_, fun hK' ↦ absurd hK hK'⟩
        · rw [recvNow, hbuf]
          exact if_pos hfew
        · rw [canRecvNow, hbuf]
          exact decide_eq_false (Nat.not_le.mpr hfew)
      · -- The second packet has index 0 where index 1 is expected.
        obtain ⟨n, hn⟩ : ∃ n, p.pacCnt = n + 2 := ⟨p.pacCnt - 2, by omega⟩
        refine .inr (.inr ⟨hK, ?_, ?_⟩)
        · rw [canRecvNow, hbuf]
          exact decide_eq_true (Nat.le_of_not_lt hfew)
        · rw [recvNow, hbuf]
          simp only [List.length_cons, hn, takePackets, hp, hq, if_true]
          rw [if_neg (by omega)]
          exact ⟨_, _, rfl⟩

namespace Inv

/-- A receive buffer begins with a whole delivered message, or with a jam, or is empty. -/
theorem canRecvNow_iff (hb : b.WellFormed) (h : b.Inv K g s) (hK : ¬K) (d : BusPortT)
    (c : ChannelT) :
    canRecvNow s d c = true ↔ (s.ports d).recvBuf c ≠ [] := by
  have hjam : g.jam d c = [] := (h.carries.jam d c).resolve_right fun h ↦ hK h.1
  have hbuf : (s.ports d).recvBuf c = (g.delivered d c).flatMap b.packetsOf := by
    rw [← List.append_nil (List.flatMap _ _), ← hjam]
    exact h.carries.recvBuf d c
  cases hdel : g.delivered d c with
  | nil => simp [canRecvNow, hbuf, hdel]
  | cons m rest =>
    have hsized := h.carries.sized m (h.carries.delivered_live d c m (by simp [hdel])).1
    obtain ⟨n, hn⟩ := Nat.exists_eq_succ_of_ne_zero (hsized.count_pos hb).ne'
    rw [canRecvNow, hbuf, hdel, List.flatMap_cons, packetsOf_eq_cons (hsized.count_pos hb),
      List.cons_append]
    simp only [hsized.pack_pacCnt, List.length_append, List.length_drop, length_packetsOf]
    simp only [decide_eq_true_eq, ne_eq, reduceCtorEq, not_false_eq_true, iff_true]
    omega

private theorem of_taken (h : b.Inv K g s) {m : Message} {rest : List Message} {s' : BusState}
    (hfront : g.delivered m.dst m.cha = m :: rest)
    (htaken : b.Taken s s' m.dst m.cha (rest.flatMap b.packetsOf ++ g.jam m.dst m.cha)) :
    b.Inv K (g.giveBack m) s' := by
  obtain ⟨hm, -, -, -⟩ := h.carries.delivered_live m.dst m.cha m (by simp [hfront])
  have hcontents : s'.contents = s.contents := by
    funext y
    cases y <;> simp [BusState.contents, htaken.nodes, htaken.edges, htaken.sendBuf]
  exact {
    placed := {
      located := hcontents ▸ h.placed.located
      packs := hcontents ▸ h.placed.packs
      routers := htaken.nodes ▸ h.placed.routers }
    carries := h.carries.giveBack hfront (by simp only [BusState.view, hcontents])
      (by simp only [BusState.view, htaken.nodes]) htaken.recvBuf_self htaken.recvBuf_ne
    reserved := fun d c ↦ by
      rw [htaken.reserved, h.reserved, credits_giveBack h.carries.live_nodup hm]
    xmtid := by rw [htaken.xmtidAlloc, htaken.accepted, h.xmtid]
    serials := fun m' hm' ↦ by
      rw [htaken.accepted]
      exact h.serials m' (g.mem_live_giveBack m |>.mp hm').1 }

/-- What `recv` can do. It throws only when two live messages have shared a transmission id. -/
theorem recv_cases (hb : b.WellFormed) (h : b.Inv K g s) {d : BusPortT} {c : ChannelT}
    (hd : b.knownPort d = true) (hc : c < b.chaCnt) :
    (b.recv s d c = (.empty, s) ∧ canRecvNow s d c = false ∧ (¬K → g.delivered d c = [])) ∨
      (∃ m rest s', g.delivered d c = m :: rest ∧ canRecvNow s d c = true ∧
        b.recv s d c = (.message m.data (b.packetsOf m), s') ∧ b.Inv K (g.giveBack m) s' ∧
        s'.accepted = s.accepted ∧ s'.currentTick = s.currentTick) ∨
      (K ∧ canRecvNow s d c = true ∧ ∃ e s', b.recv s d c = (.thrown e, s')) := by
  rcases recv_of_carries hb h.carries hd hc rfl (h.reserved d c) with hempty |
    ⟨m, rest, s', hdel, hcan, hrecv, htaken⟩ | hthrown
  · exact .inl hempty
  · obtain ⟨-, rfl, rfl, -⟩ := h.carries.delivered_live d c m (by simp [hdel])
    exact .inr (.inl ⟨m, rest, s', hdel, hcan, hrecv, h.of_taken hdel htaken, htaken.accepted,
      htaken.currentTick⟩)
  · exact .inr (.inr hthrown)

end Inv

end Bus

end Simbus
