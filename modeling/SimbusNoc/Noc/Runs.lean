import SimbusNoc.Noc.Transport

/-!
# Runs of the bus

Any sequence of calls, with what each of them returned, and the one ledger that accounts for a
whole run: what has been accepted is what has been returned, in order, followed by what is still
live.

## Calls and events

`Call` lists the calls that a user of the bus can make, with their arguments, and `run` makes them
one after the other from a state, noting the outcome of each. Calls with unknown ports or with
messages that are too large are calls like all others. Where a result needs them to be otherwise it
says so, by `Known` and `Fits`.

## When ids collide

A transmission id is free when no packet of another message of several packets for the same node is
in the network under it. A run in which each accepted message finds its id free is accounted for
without a jam (`Inv.run`). As long as fewer than `2 ^ 32` messages have been accepted this is so in
any case, and after that it is a matter of how long a message can stay in the network.

## The account

`RunAccounts` says what a run has accepted and returned for each flow, as lists of messages in
order, and for each port and channel, as numbers of messages. The statements about deliveries,
order, credits and capacity are instances of it.
-/

namespace Simbus

namespace Bus

/-! ## Calls -/

inductive Call
  | send (port dstPort : BusPortT) (channel : ChannelT) (data : Bytes)
  | recv (port : BusPortT) (channel : ChannelT)
  | applyNextTick
  | clearStatistics
  deriving DecidableEq

inductive Outcome
  | sent (accepted : Bool)
  | sendThrew (error : String)
  | received (outcome : RecvOutcome)
  | ticked
  | tickThrew (error : String)
  | cleared
  deriving DecidableEq

/-- A call together with what it ended with. -/
abbrev Event := Call × Outcome

variable (b : Bus)

/-- One call. A throwing tick is not followed further: the state is left as it was, and no run
reaches one. -/
def perform (s : BusState) : Call → Outcome × BusState
  | .send port dstPort channel data =>
    match b.send s port dstPort channel data with
    | .ok (accepted, s') => (.sent accepted, s')
    | .error e => (.sendThrew e, s)
  | .recv port channel => (.received (b.recv s port channel).1, (b.recv s port channel).2)
  | .applyNextTick =>
    match b.applyNextTick s with
    | .ok s' => (.ticked, s')
    | .error e => (.tickThrew e, s)
  | .clearStatistics => (.cleared, b.clearStatistics s)

/-- A sequence of calls, with its events in order. -/
def run : BusState → List Call → List Event × BusState
  | s, [] => ([], s)
  | s, call :: rest =>
    let (outcome, s) := b.perform s call
    let (events, s) := run s rest
    ((call, outcome) :: events, s)

theorem run_append (s : BusState) (calls rest : List Call) :
    (b.run s (calls ++ rest)).2 = (b.run (b.run s calls).2 rest).2 := by
  induction calls generalizing s with
  | nil => rfl
  | cons call calls ih => exact ih _

/-- The call names known ports and channels, and its message is shorter than `bound`. -/
def Call.Known (bound : ℕ) : Call → Prop
  | .send port dstPort channel data =>
    b.knownPort port = true ∧ b.knownPort dstPort = true ∧ channel < b.chaCnt ∧ data.length < bound
  | .recv port channel => b.knownPort port = true ∧ channel < b.chaCnt
  | .applyNextTick => True
  | .clearStatistics => True

instance (bound : ℕ) : (call : Call) → Decidable (call.Known b bound)
  | .send _ _ _ _ => inferInstanceAs (Decidable (_ ∧ _ ∧ _ ∧ _))
  | .recv _ _ => inferInstanceAs (Decidable (_ ∧ _))
  | .applyNextTick => .isTrue trivial
  | .clearStatistics => .isTrue trivial

/-- The size of the message, rounded up to the width of its channel, fits 32 bits. -/
def Call.Fits : Call → Prop
  | .send _ _ channel data => data.length ≤ 2 ^ 32 - b.width channel
  | _ => True

variable {b} in
theorem Call.Known.fits (hb : b.WellFormed) {call : Call} (h : call.Known b (2 ^ 31 + 1)) :
    call.Fits b := by
  cases call with
  | send port dst c data =>
    have hlt : data.length < 2 ^ 31 + 1 := h.2.2.2
    have hw := (width_bounds hb c).2
    change data.length ≤ 2 ^ 32 - b.width c
    omega
  | recv | applyNextTick | clearStatistics => trivial

/-! ## What a run has accepted and returned

What is accepted joins the live messages of its flow at the end, and what is returned is the first
of them. So the messages accepted on a flow are those returned and those pending, in this order.
-/

/-- The message of flow `f` that the event accepted. -/
def acceptedBy (f : Flow) : Event → Option Bytes
  | (.send port dstPort channel data, .sent true) =>
    if (⟨port, dstPort, channel⟩ : Flow) = f then some data else none
  | _ => none

/-- The message returned by the event, when `recv` was called at the end of flow `f` and one of the
packets carries its source. -/
def returnedBy (f : Flow) : Event → Option Bytes
  | (.recv port channel, .received (.message bytes packs)) =>
    if port = f.dst ∧ channel = f.cha ∧ (packs.any fun p ↦ p.src == f.src) = true then some bytes
    else none
  | _ => none

def isAccepted : Event → Bool
  | (.send .., .sent true) => true
  | _ => false

/-- The messages of flow `f` accepted in a run, in order. -/
def accepted (f : Flow) (events : List Event) : List Bytes := events.filterMap (acceptedBy f)

/-- The messages of flow `f` returned in a run, in order. -/
def returned (f : Flow) (events : List Event) : List Bytes := events.filterMap (returnedBy f)

def acceptedAt (d : BusPortT) (c : ChannelT) : Event → Bool
  | (.send _ dstPort channel _, .sent true) => decide (dstPort = d ∧ channel = c)
  | _ => false

def returnedAt (d : BusPortT) (c : ChannelT) : Event → Bool
  | (.recv port channel, .received (.message _ _)) => decide (port = d ∧ channel = c)
  | _ => false

/-- The event is no exception of a tick or of `recv`. -/
def Quiet : Event → Prop
  | (_, .tickThrew _) => False
  | (_, .received (.thrown _)) => False
  | _ => True

end Bus

/-- The bytes of the live messages of a flow, oldest first. -/
def Ledger.pending (g : Ledger) (f : Flow) : List Bytes :=
  (g.live.filter fun m ↦ decide (m.flow = f)).map Message.data

/-- The message returned is the oldest live one of its flow. -/
theorem Carries.pending_giveBack {b : Bus} {g : Ledger} {w : View} (h : Carries b False g w)
    {m : Message} {rest : List Message} (hfront : g.delivered m.dst m.cha = m :: rest) (f : Flow) :
    g.pending f = (if m.flow = f then [m.data] else []) ++ (g.giveBack m).pending f := by
  have hlive : (g.giveBack m).live.filter (fun m' ↦ decide (m'.flow = f)) =
      (g.live.filter fun m' ↦ decide (m'.flow = f)).filter fun m' ↦ !(decide (m' = m)) :=
    List.filter_comm _ _ _
  have hnodup : (g.live.filter fun m' ↦ decide (m'.flow = f)).Nodup := h.live_nodup.filter _
  rw [Ledger.pending, Ledger.pending, hlive]
  by_cases hf : m.flow = f
  · subst hf
    obtain ⟨tail, htail, -⟩ := h.ordered id m.flow
    have hd : g.delivered m.flow.dst m.flow.cha = m :: rest := hfront
    rw [hd, List.filter_cons_of_pos (by simp [Message.flow]), List.cons_append] at htail
    rw [htail] at hnodup ⊢
    have hrest : ∀ l : List Message, m ∉ l → l.filter (fun m' ↦ !(decide (m' = m))) = l := by
      intro l hl
      refine List.filter_eq_self.mpr fun m' hm' ↦ ?_
      have hne : m' ≠ m := by
        rintro rfl
        exact hl hm'
      simp [hne]
    rw [List.filter_cons_of_neg (by simp), hrest _ (List.nodup_cons.mp hnodup).1]
    simp
  · have hkeep : ((g.live.filter fun m' ↦ decide (m'.flow = f)).filter
        fun m' ↦ !(decide (m' = m))) = g.live.filter fun m' ↦ decide (m'.flow = f) := by
      refine List.filter_eq_self.mpr fun m' hm' ↦ ?_
      have hne : m' ≠ m := by
        rintro rfl
        exact hf (by simpa using (List.mem_filter.mp hm').2)
      simp [hne]
    rw [hkeep, if_neg hf, List.nil_append]

namespace Bus

variable {b : Bus} {K : Prop} {g : Ledger} {s : BusState}

/-- With bounded reception, no port and channel has more live messages than slots, and every live
message is within the size limit. -/
def Bounded (b : Bus) (g : Ledger) : Prop :=
  b.config.receiveMessageSlots ≠ 0 →
    (∀ d c, g.live.countP (addressed d c) ≤ b.config.receiveMessageSlots) ∧
      ∀ m ∈ g.live, m.data.length ≤ b.config.maxMessageBytes

/-- What one event does to the ledger. -/
structure Accounts (b : Bus) (s s' : BusState) (g g' : Ledger) (e : Event) : Prop where
  flows : ∀ f, g.pending f ++ (acceptedBy f e).toList = (returnedBy f e).toList ++ g'.pending f
  messages : ∀ d c, g.live.countP (addressed d c) + (acceptedAt d c e).toNat =
    (returnedAt d c e).toNat + g'.live.countP (addressed d c)
  live : ∀ m ∈ g'.live, m ∈ g.live ∨ ∃ port dst c data,
    e = (.send port dst c data, .sent true) ∧ m = draft s port dst c data
  bounded : Bounded b g → Bounded b g'
  accepted : s'.accepted = s.accepted + (isAccepted e).toNat
  quiet : Quiet e

/-- An event that accepts and returns nothing keeps the live messages. -/
theorem Accounts.of_live {s' : BusState} {g' : Ledger} {e : Event} (hlive : g'.live = g.live)
    (haccepted : s'.accepted = s.accepted) (hacc : ∀ f, acceptedBy f e = none)
    (hret : ∀ f, returnedBy f e = none) (haccAt : ∀ d c, acceptedAt d c e = false)
    (hretAt : ∀ d c, returnedAt d c e = false) (his : isAccepted e = false) (hq : Quiet e) :
    Accounts b s s' g g' e where
  flows := fun f ↦ by simp [hacc, hret, Ledger.pending, hlive]
  messages := fun d c ↦ by simp [haccAt, hretAt, hlive]
  live := fun m hm ↦ .inl (hlive ▸ hm)
  bounded := fun h ↦ by rw [Bounded, hlive]; exact h
  accepted := by simp [his, haccepted]
  quiet := hq

/-- The message that `recv` returns counts for its own flow and for no other. -/
theorem returnedBy_packetsOf {m : Message} (hpos : 0 < b.count m) (f : Flow) :
    returnedBy f (.recv m.dst m.cha, .received (.message m.data (b.packetsOf m))) =
      if m.flow = f then some m.data else none := by
  have hany : ((b.packetsOf m).any fun p ↦ p.src == f.src) = true ↔ m.src = f.src := by
    rw [List.any_eq_true]
    constructor
    · rintro ⟨p, hp, hsrc⟩
      obtain ⟨i, -, rfl⟩ := mem_packetsOf.mp hp
      exact beq_iff_eq.mp hsrc
    · exact fun hsrc ↦ ⟨b.pack m 0, mem_packetsOf.mpr ⟨0, hpos, rfl⟩, beq_iff_eq.mpr hsrc⟩
  have hflow : (m.dst = f.dst ∧ m.cha = f.cha ∧ m.src = f.src) ↔ m.flow = f := by
    obtain ⟨src, dst, cha⟩ := f
    simp only [Message.flow, Flow.mk.injEq]
    tauto
  simp only [returnedBy, hany, hflow]

namespace Inv

theorem accounts_send (hb : b.WellFormed) (h : b.Inv False g s) {port dst : BusPortT}
    {c : ChannelT} {data : Bytes} (hsize : data.length ≤ 2 ^ 32 - b.width c) :
    ∃ g', b.Inv False g' (b.perform s (.send port dst c data)).2 ∧
      Accounts b s (b.perform s (.send port dst c data)).2 g g'
        (.send port dst c data, (b.perform s (.send port dst c data)).1) := by
  -- Only an accepted call changes the live messages.
  cases hsend : b.send s port dst c data with
  | error e =>
    refine ⟨g, by simpa [perform, hsend] using h, ?_⟩
    simp only [perform, hsend]
    exact .of_live rfl rfl (fun _ ↦ rfl) (fun _ ↦ rfl) (fun _ _ ↦ rfl) (fun _ _ ↦ rfl) rfl trivial
  | ok result =>
    obtain ⟨accepted, s'⟩ := result
    simp only [perform, hsend]
    cases accepted with
    | false =>
      obtain ⟨-, -, -, ⟨-, stats, rfl⟩ | ⟨hfalse, -⟩⟩ := send_eq_ok hsend
      · exact ⟨g, h.send_false hsend, .of_live rfl rfl (fun _ ↦ rfl) (fun _ ↦ rfl) (fun _ _ ↦ rfl)
          (fun _ _ ↦ rfl) rfl trivial⟩
      · cases hfalse
    | true =>
      obtain ⟨hinv, haccepted, -⟩ := h.send_true hb hsize hsend
      refine ⟨_, hinv, ?_, ?_, fun m hm ↦ ?_, fun hbound hslots ↦ ?_, haccepted, trivial⟩
      · intro f
        by_cases hf : (⟨port, dst, c⟩ : Flow) = f <;>
          simp [Ledger.pending, Ledger.accept, acceptedBy, returnedBy, draft, Message.flow, hf]
      · intro d e
        have hret : returnedAt d e (.send port dst c data, .sent true) = false := rfl
        have hacc : acceptedAt d e (.send port dst c data, .sent true) =
          decide (dst = d ∧ c = e) := rfl
        rw [hret, hacc, Ledger.accept, List.countP_append]
        by_cases hde : dst = d ∧ c = e <;> simp [addressed, draft, hde]
      · exact (g.mem_live_accept _ |>.mp hm).imp_right fun hm ↦ ⟨port, dst, c, data, rfl, hm⟩
      · obtain ⟨-, -, -, -, hroom, -⟩ := send_accepted hsend
        -- The check for a free slot has been passed.
        obtain ⟨hlen, hfree⟩ := hroom.resolve_left hslots
        obtain ⟨hslot, hmax⟩ := hbound hslots
        refine ⟨fun d e ↦ ?_, fun m hm ↦ ?_⟩
        · rw [h.reserved, credits, if_neg hslots] at hfree
          have hold := hslot d e
          rw [Ledger.accept, List.countP_append]
          by_cases hde : dst = d ∧ c = e
          · obtain ⟨rfl, rfl⟩ := hde
            simp [addressed, draft] at hfree ⊢
            omega
          · simpa [addressed, draft, hde] using hold
        · rcases g.mem_live_accept _ |>.mp hm with hm | rfl
          · exact hmax m hm
          · exact hlen

theorem accounts_recv (hb : b.WellFormed) (h : b.Inv False g s) {d : BusPortT} {c : ChannelT}
    (hd : b.knownPort d = true) (hc : c < b.chaCnt) :
    ∃ g', b.Inv False g' (b.perform s (.recv d c)).2 ∧
      Accounts b s (b.perform s (.recv d c)).2 g g' (.recv d c, (b.perform s (.recv d c)).1) := by
  rcases h.recv_cases hb hd hc with ⟨hrecv, -⟩ | ⟨m, rest, s', hfront, -, hrecv, hinv, hacc, -⟩ |
    ⟨hK, -⟩
  · simp only [perform, hrecv]
    exact ⟨g, h, .of_live rfl rfl (fun _ ↦ rfl) (fun _ ↦ rfl) (fun _ _ ↦ rfl) (fun _ _ ↦ rfl) rfl
      trivial⟩
  · simp only [perform, hrecv]
    obtain ⟨hm, rfl, rfl, -⟩ := h.carries.delivered_live d c m (by simp [hfront])
    have hret : ∀ d c, returnedAt d c (.recv m.dst m.cha,
        .received (.message m.data (b.packetsOf m))) = addressed d c m := fun _ _ ↦ rfl
    refine ⟨_, hinv, fun f ↦ ?_, fun d c ↦ ?_,
      fun m' hm' ↦ .inl (g.mem_live_giveBack m |>.mp hm').1, fun hbound hslots ↦ ?_, hacc, trivial⟩
    · rw [returnedBy_packetsOf ((h.carries.sized m hm).count_pos hb),
        h.carries.pending_giveBack hfront f]
      by_cases hf : m.flow = f <;> simp [acceptedBy, hf]
    · rw [hret, g.countP_live_giveBack m h.carries.live_nodup hm]
      cases addressed d c m <;> simp [acceptedAt, Nat.add_comm]
    · obtain ⟨hslot, hmax⟩ := hbound hslots
      exact ⟨fun d c ↦ (List.Sublist.countP_le List.filter_sublist).trans (hslot d c),
        fun m' hm' ↦ hmax m' (g.mem_live_giveBack m |>.mp hm').1⟩
  · exact hK.elim

theorem accounts_moves {s' : BusState} {g' : Ledger} {call : Call} {outcome : Outcome}
    (hcall : call = .applyNextTick ∧ outcome = .ticked ∨
      call = .clearStatistics ∧ outcome = .cleared)
    (hlive : g'.live = g.live) (haccepted : s'.accepted = s.accepted) :
    Accounts b s s' g g' (call, outcome) := by
  obtain ⟨rfl, rfl⟩ | ⟨rfl, rfl⟩ := hcall <;>
    exact .of_live hlive haccepted (fun _ ↦ rfl) (fun _ ↦ rfl) (fun _ _ ↦ rfl) (fun _ _ ↦ rfl) rfl
      trivial

/-- One call, while no two live messages can meet under one transmission id. -/
theorem accounts (hb : b.WellFormed) (h : b.Inv False g s) (hdistinct : g.Distinct b) {call : Call}
    {bound : ℕ} (hcall : call.Known b bound) (hfits : call.Fits b) :
    ∃ g', b.Inv False g' (b.perform s call).2 ∧
      Accounts b s (b.perform s call).2 g g' (call, (b.perform s call).1) := by
  cases call with
  | send port dst c data => exact h.accounts_send hb hfits
  | recv d c => exact h.accounts_recv hb hcall.1 hcall.2
  | applyNextTick =>
    obtain ⟨s', g', hs', hlive, hinv, haccepted, -⟩ := h.tick hb (.inr hdistinct) False.elim
    refine ⟨g', ?_, ?_⟩ <;> simp only [perform, hs']
    · exact hinv
    · exact accounts_moves (.inl ⟨rfl, rfl⟩) hlive haccepted
  | clearStatistics =>
    obtain ⟨g', hlive, hinv⟩ := h.clearStatistics hb (.inr hdistinct) False.elim
    exact ⟨g', hinv, accounts_moves (.inr ⟨rfl, rfl⟩) hlive rfl⟩

end Inv

/-! ## Transmission ids in the network

A transmission id is free when no packet in the network has it. A call that only uses a free one
keeps the live messages apart, and this is a condition on the states of the run alone.
-/

/-- The packet is in the network: on its way, in an order buffer or in a receive buffer. -/
inductive InNetwork (s : BusState) (p : MsgPack) : Prop
  | travelling (y : Stage) (h : p ∈ s.contents y)
  | ordering (v : BusNodeT) (e : XmitIDT × List MsgPack) (he : e ∈ (s.nodes v).orderBuf)
      (h : p ∈ e.2)
  | waiting (d : BusPortT) (c : ChannelT) (h : p ∈ (s.ports d).recvBuf c)

/-- An accepted message of several packets finds no packet of another such message for the same node
under its transmission id. -/
def IdFree (b : Bus) (s : BusState) : Call → Prop
  | .send _ dst c data => 2 ≤ b.pacCnt data.length c →
      ∀ p, InNetwork s p → p.xmtid = s.xmtidAlloc → p.tgt = b.home dst → p.pacCnt < 2
  | _ => True

/-- A condition on the state before each call of a run. -/
def RunAll (b : Bus) (cond : BusState → Call → Prop) : BusState → List Call → Prop
  | _, [] => True
  | s, call :: rest => cond s call ∧ RunAll b cond (b.perform s call).2 rest

theorem orderList_of_mem {buf : List (XmitIDT × List MsgPack)} (h : (buf.map Prod.fst).Nodup)
    {e : XmitIDT × List MsgPack} (he : e ∈ buf) : orderList buf e.1 = e.2 := by
  induction buf with
  | nil => cases he
  | cons a buf ih =>
    obtain ⟨hnot, hnodup⟩ := List.nodup_cons.mp h
    rcases List.mem_cons.mp he with rfl | he
    · rw [orderList, List.lookup_cons, beq_self_eq_true]
      rfl
    · have hne : (e.1 == a.1) = false := by
        rw [beq_eq_false_iff_ne]
        rintro heq
        exact hnot (heq ▸ List.mem_map_of_mem he)
      rw [orderList, List.lookup_cons, hne]
      exact ih hnodup he

namespace Inv

/-! A packet of the network is a packet of a live message, wherever it is. -/

theorem live_of_contents (h : b.Inv K g s) {p : MsgPack} {y : Stage} (hp : p ∈ s.contents y) :
    ∃ m ∈ g.live, p ∈ b.packetsOf m := by
  have hmem : p ∈ (s.view b).travel p.flow :=
    Stages.mem_along.mpr ⟨by simp, y, h.placed.located y p hp, hp⟩
  rw [h.carries.travel] at hmem
  obtain ⟨m, hm, hpm⟩ := List.mem_flatMap.mp hmem
  exact ⟨m, (List.mem_filter.mp hm).1, List.mem_of_mem_drop hpm⟩

theorem live_of_orderBuf (h : b.Inv K g s) {p : MsgPack} {v : BusNodeT}
    {e : XmitIDT × List MsgPack} (he : e ∈ (s.nodes v).orderBuf) (hp : p ∈ e.2) :
    ∃ m ∈ g.live, p ∈ b.packetsOf m := by
  have hlist := orderList_of_mem (h.placed.routers v).keys he
  obtain ⟨m, hm, -, -, hpm, -⟩ := h.carries.order_live v e.1 p (by
    change p ∈ orderList _ _
    rwa [hlist])
  exact ⟨m, hm, hpm⟩

theorem live_of_recvBuf (h : b.Inv K g s) {p : MsgPack} {d : BusPortT} {c : ChannelT}
    (hjam : g.jam d c = []) (hp : p ∈ (s.ports d).recvBuf c) :
    ∃ m ∈ g.live, p ∈ b.packetsOf m := by
  have hbuf := h.carries.recvBuf d c
  rw [hjam, List.append_nil] at hbuf
  have hmem : p ∈ (g.delivered d c).flatMap b.packetsOf := hbuf ▸ hp
  obtain ⟨m, hm, hpm⟩ := List.mem_flatMap.mp hmem
  exact ⟨m, (h.carries.delivered_live d c m hm).1, hpm⟩

theorem live_of_inNetwork (h : b.Inv False g s) {p : MsgPack} (hp : InNetwork s p) :
    ∃ m ∈ g.live, p ∈ b.packetsOf m := by
  cases hp with
  | travelling y hy => exact h.live_of_contents hy
  | ordering v e he hpe => exact h.live_of_orderBuf he hpe
  | waiting d c hdc =>
    exact h.live_of_recvBuf ((h.carries.jam d c).resolve_right fun h ↦ h.1) hdc

theorem not_inNetwork (h : b.Inv K g s) (hlive : g.live = []) (p : MsgPack) :
    ¬InNetwork s p := by
  have hnone : ∀ m, m ∉ g.live := fun m hm ↦ by
    rw [hlive] at hm
    cases hm
  intro hp
  obtain ⟨m, hm, -⟩ : ∃ m ∈ g.live, p ∈ b.packetsOf m := by
    cases hp with
    | travelling y hy => exact h.live_of_contents hy
    | ordering v e he hpe => exact h.live_of_orderBuf he hpe
    | waiting d c hdc =>
      refine h.live_of_recvBuf ?_ hdc
      by_contra hne
      obtain ⟨m, hm, -⟩ := h.carries.jam_live d c hne
      exact hnone m hm
  exact hnone m hm

theorem inNetwork_of_live (hb : b.WellFormed) (h : b.Inv False g s) {m : Message}
    (hm : m ∈ g.live) : ∃ p ∈ b.packetsOf m, InNetwork s p := by
  have hsized := h.carries.sized m hm
  rcases (h.carries.arrived_le m hm).lt_or_eq with hlt | hfull
  · have hmem : b.pack m (g.arrived m.serial) ∈ (s.view b).travel m.flow := by
      rw [h.carries.travel]
      refine List.mem_flatMap.mpr ⟨m, by simp [hm], ?_⟩
      rw [packetsOf_drop hlt]
      exact List.mem_cons_self
    obtain ⟨-, y, -, hy⟩ := Stages.mem_along.mp hmem
    exact ⟨_, mem_packetsOf.mpr ⟨_, hlt, rfl⟩, .travelling y hy⟩
  · obtain ⟨rest, hrest, hall⟩ := h.carries.ordered id m.flow
    have hmem : m ∈ g.live.filter fun m' ↦ decide (m'.flow = m.flow) := by simp [hm]
    rw [hrest] at hmem
    have hdel : m ∈ g.delivered m.dst m.cha := by
      rcases List.mem_append.mp hmem with hmem | hmem
      · exact (List.mem_filter.mp hmem).1
      · exact absurd hfull (hall m hmem).ne
    refine ⟨b.pack m 0, mem_packetsOf.mpr ⟨0, hsized.count_pos hb, rfl⟩, .waiting m.dst m.cha ?_⟩
    have hbuf := h.carries.recvBuf m.dst m.cha
    change (s.ports m.dst).recvBuf m.cha = _ at hbuf
    rw [hbuf]
    refine List.mem_append_left _ (List.mem_flatMap.mpr ⟨m, hdel, ?_⟩)
    exact mem_packetsOf.mpr ⟨0, hsized.count_pos hb, rfl⟩

/-- A call that finds its transmission id free keeps the ids distinct. -/
theorem distinct_perform (hb : b.WellFormed) (h : b.Inv False g s) (hdistinct : g.Distinct b)
    {call : Call} {bound : ℕ} (hcall : call.Known b bound) (hfits : call.Fits b)
    (hfree : IdFree b s call) :
    ∃ g', b.Inv False g' (b.perform s call).2 ∧ g'.Distinct b ∧
      Accounts b s (b.perform s call).2 g g' (call, (b.perform s call).1) := by
  obtain ⟨g', hinv, hacc⟩ := h.accounts hb hdistinct hcall hfits
  refine ⟨g', hinv, fun m hm m' hm' hx hv hcnt hcnt' ↦ ?_, hacc⟩
  -- A new message against an old one: a packet of the old one is in the network.
  have hmeet : ∀ m ∈ g.live, ∀ port dst c data, call = .send port dst c data →
      2 ≤ b.count m → m.xmtid = (draft s port dst c data).xmtid → b.home m.dst = b.home dst →
      ¬2 ≤ b.count (draft s port dst c data) := by
    rintro m hm port dst c data rfl hcnt hx hv hcnt'
    obtain ⟨p, hp, hnet⟩ := h.inNetwork_of_live hb hm
    have hsized := h.carries.sized m hm
    obtain ⟨i, -, rfl⟩ := mem_packetsOf.mp hp
    have hlt := hfree hcnt' _ hnet (hx.trans h.xmtid.symm) hv
    rw [hsized.pack_pacCnt] at hlt
    omega
  rcases hacc.live m hm with hm | ⟨port, dst, c, data, he, rfl⟩ <;>
    rcases hacc.live m' hm' with hm' | ⟨port', dst', c', data', he', rfl⟩
  · exact hdistinct m hm m' hm' hx hv hcnt hcnt'
  · exact absurd hcnt' (hmeet m hm _ _ _ _ (congrArg Prod.fst he') hcnt hx hv)
  · exact absurd hcnt (hmeet m' hm' _ _ _ _ (congrArg Prod.fst he) hcnt' hx.symm hv.symm)
  · obtain ⟨rfl, rfl, rfl, rfl⟩ := Call.send.inj ((congrArg Prod.fst he).symm.trans
      (congrArg Prod.fst he'))
    rfl

end Inv

/-! ## Whole runs -/

/-- The account of a whole run, from a state with ledger `g` to one with ledger `g'`. -/
structure RunAccounts (b : Bus) (s s' : BusState) (g g' : Ledger) (events : List Event) : Prop where
  inv : b.Inv False g' s'
  flows : ∀ f, g.pending f ++ accepted f events = returned f events ++ g'.pending f
  messages : ∀ d c, g.live.countP (addressed d c) + events.countP (acceptedAt d c) =
    events.countP (returnedAt d c) + g'.live.countP (addressed d c)
  bounded : Bounded b g → Bounded b g'
  accepted : s'.accepted = s.accepted + events.countP isAccepted
  quiet : ∀ e ∈ events, Quiet e

private theorem countP_cons_toNat {α : Type} (keep : α → Bool) (a : α) (l : List α) :
    (a :: l).countP keep = (keep a).toNat + l.countP keep := by
  rw [List.countP_cons]
  cases keep a <;> simp [Nat.add_comm]

theorem filterMap_cons_toList {α β : Type} (f : α → Option β) (a : α) (l : List α) :
    (a :: l).filterMap f = (f a).toList ++ l.filterMap f := by
  cases h : f a <;> simp [h]

/-- Every run in which each call finds its transmission id free is accounted for. -/
theorem Inv.run (hb : b.WellFormed) (calls : List Call) :
    ∀ {s : BusState} {g : Ledger}, b.Inv False g s → g.Distinct b →
      (∀ call ∈ calls, call.Known b (2 ^ 31 + 1)) → RunAll b (IdFree b) s calls →
      ∃ g', RunAccounts b s (b.run s calls).2 g g' (b.run s calls).1 := by
  induction calls with
  | nil =>
    intro s g h _ _ _
    exact ⟨g, h, fun f ↦ by simp [Bus.run, Bus.accepted, returned], fun d c ↦ by simp [Bus.run],
      id, by simp [Bus.run], by simp [Bus.run]⟩
  | cons call rest ih =>
    intro s g h hdistinct hcalls hfree
    have hcall := hcalls call List.mem_cons_self
    obtain ⟨g₁, hinv, hdistinct₁, hacc⟩ :=
      h.distinct_perform hb hdistinct hcall (hcall.fits hb) hfree.1
    obtain ⟨g₂, hrest⟩ := ih hinv hdistinct₁
      (fun c hc ↦ hcalls c (List.mem_cons_of_mem _ hc)) hfree.2
    refine ⟨g₂, hrest.inv, fun f ↦ ?_, fun d c ↦ ?_, hrest.bounded ∘ hacc.bounded, ?_, ?_⟩
    · have h₁ := hacc.flows f
      have h₂ := hrest.flows f
      simp only [Bus.run, Bus.accepted, returned, filterMap_cons_toList] at h₂ ⊢
      rw [← List.append_assoc, h₁, List.append_assoc, h₂, List.append_assoc]
    · have h₁ := hacc.messages d c
      have h₂ := hrest.messages d c
      simp only [Bus.run, countP_cons_toNat]
      omega
    · have h₁ := hacc.accepted
      have h₂ := hrest.accepted
      simp only [Bus.run, countP_cons_toNat]
      omega
    · intro e he
      rcases List.mem_cons.mp he with rfl | he
      · exact hacc.quiet
      · exact hrest.quiet e he

/-- As long as fewer than `2 ^ 32` messages have been accepted, every transmission id is free. -/
theorem Inv.idFree (h : b.Inv False g s) (hlt : s.accepted < 2 ^ 32) (call : Call) :
    IdFree b s call := by
  cases call with
  | send port dst c data =>
    intro _ p hp hx _
    obtain ⟨m, hm, hpm⟩ := h.live_of_inNetwork hp
    obtain ⟨i, -, rfl⟩ := mem_packetsOf.mp hpm
    have hserial := h.serials m hm
    change m.serial % 2 ^ 32 = s.xmtidAlloc at hx
    rw [h.xmtid, Nat.mod_eq_of_lt hlt, Nat.mod_eq_of_lt (hserial.trans hlt)] at hx
    exact absurd hx hserial.ne
  | recv | applyNextTick | clearStatistics => trivial

/-- A run that accepts fewer than `2 ^ 32` messages finds every transmission id free. -/
theorem Inv.runAll_idFree (hb : b.WellFormed) (calls : List Call) :
    ∀ {s : BusState} {g : Ledger}, b.Inv False g s → g.Distinct b →
      (∀ call ∈ calls, call.Known b (2 ^ 31 + 1)) →
      s.accepted + (b.run s calls).1.countP isAccepted < 2 ^ 32 → RunAll b (IdFree b) s calls := by
  induction calls with
  | nil => exact fun _ _ _ _ ↦ trivial
  | cons call rest ih =>
    intro s g h hdistinct hcalls hlt
    simp only [Bus.run, countP_cons_toNat] at hlt
    have hfree := h.idFree (by omega) call
    have hcall := hcalls call List.mem_cons_self
    obtain ⟨g₁, hinv, hdistinct₁, hacc⟩ :=
      h.distinct_perform hb hdistinct hcall (hcall.fits hb) hfree
    refine ⟨hfree, ih hinv hdistinct₁ (fun c hc ↦ hcalls c (List.mem_cons_of_mem _ hc)) ?_⟩
    rw [hacc.accepted]
    omega

/-- Every run from a new bus in which each call finds its transmission id free. -/
theorem runAll_accounts (hb : b.WellFormed) {calls : List Call}
    (hcalls : ∀ call ∈ calls, call.Known b (2 ^ 31 + 1)) (hfree : RunAll b (IdFree b) {} calls) :
    ∃ g, RunAccounts b {} (b.run {} calls).2 {} g (b.run {} calls).1 :=
  (Inv.init b False).run hb calls (by simp [Ledger.Distinct]) hcalls hfree

/-- Every run from a new bus that accepts fewer than `2 ^ 32` messages. -/
theorem runAll_accounts_of_accepted_lt (hb : b.WellFormed) {calls : List Call}
    (hcalls : ∀ call ∈ calls, call.Known b (2 ^ 31))
    (haccepted : (b.run {} calls).1.countP isAccepted < 2 ^ 32) :
    ∃ g, RunAccounts b {} (b.run {} calls).2 {} g (b.run {} calls).1 := by
  have hcalls' : ∀ call ∈ calls, call.Known b (2 ^ 31 + 1) := by
    intro call hcall
    have hknown := hcalls call hcall
    cases call with
    | send => exact ⟨hknown.1, hknown.2.1, hknown.2.2.1, hknown.2.2.2.trans (Nat.lt_succ_self _)⟩
    | recv | applyNextTick | clearStatistics => exact hknown
  exact runAll_accounts hb hcalls' ((Inv.init b False).runAll_idFree hb calls
    (by simp [Ledger.Distinct]) hcalls' (by simpa using haccepted))

end Bus

end Simbus
