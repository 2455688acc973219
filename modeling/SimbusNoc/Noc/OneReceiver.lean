import SimbusNoc.Noc.Transport

/-!
# What reaches one port

A `recv` that throws has taken packets away, and from then on no ledger accounts for the buffer of
its port. The other ports are not concerned. `View.toward` keeps of a view what is for one port,
and a ledger for this part alone outlives the errors of all other ports.

The port has a node of its own (`Bus.Alone`): its order lists then hold no packets for others.
Arrivals at other nodes are not seen in its part of the view, and messages for other ports do not
enter its ledger. So the rules for an arrival, for an accepted and for a returned message are those
of the whole ledger, applied to a smaller view, and nothing has to be proved again. The serials of
the messages are still those of the whole bus.
-/

namespace Simbus

namespace View

variable (w : View) (d : BusPortT) (v : BusNodeT)

/-- What is on its way to port `d` and what has arrived there, with the order lists of its node
`v`. -/
def toward : View where
  travel := fun f ↦ if f.dst = d then w.travel f else []
  recvBuf := fun p c ↦ if p = d then w.recvBuf p c else []
  order := fun u x ↦ if u = v then w.order u x else []

@[simp] theorem recvBuf_toward (c : ChannelT) : (w.toward d v).recvBuf d c = w.recvBuf d c :=
  if_pos rfl

@[simp] theorem order_toward (x : XmitIDT) : (w.toward d v).order v x = w.order v x :=
  if_pos rfl

theorem travel_toward {f : Flow} (h : f.dst = d) : (w.toward d v).travel f = w.travel f :=
  if_pos h

variable {d v}

theorem toward_setTravel {f : Flow} (h : f.dst = d) (packs : List MsgPack) :
    (w.setTravel f packs).toward d v = (w.toward d v).setTravel f packs := by
  refine View.ext (funext fun f' ↦ ?_) rfl rfl
  by_cases hf : f' = f
  · subst hf
    rw [travel_toward _ _ _ h, travel_setTravel_self, travel_setTravel_self]
  · rw [travel_setTravel_ne _ _ _ hf, toward, toward]
    dsimp only
    rw [travel_setTravel_ne _ _ _ hf]

theorem toward_setTravel_of_ne {f : Flow} (h : f.dst ≠ d) (packs : List MsgPack) :
    (w.setTravel f packs).toward d v = w.toward d v := by
  refine View.ext (funext fun f' ↦ ?_) rfl rfl
  rw [toward, toward]
  dsimp only
  by_cases hf : f' = f
  · rw [hf, if_neg h, if_neg h]
  · rw [travel_setTravel_ne _ _ _ hf]

theorem toward_append (c : ChannelT) (packs : List MsgPack) :
    (w.append d c packs).toward d v = (w.toward d v).append d c packs := by
  refine View.ext rfl (funext fun p ↦ funext fun e ↦ ?_) rfl
  by_cases hp : (p, e) = (d, c)
  · obtain ⟨rfl, rfl⟩ := Prod.mk.inj hp
    rw [recvBuf_toward, recvBuf_append_self, recvBuf_append_self, recvBuf_toward]
  · rw [recvBuf_append_ne _ _ _ _ hp, toward, toward]
    dsimp only
    rw [recvBuf_append_ne _ _ _ _ hp]

theorem toward_append_of_ne {p : BusPortT} (h : p ≠ d) (c : ChannelT) (packs : List MsgPack) :
    (w.append p c packs).toward d v = w.toward d v := by
  refine View.ext rfl (funext fun p' ↦ funext fun e ↦ ?_) rfl
  rw [toward, toward]
  dsimp only
  by_cases hp : p' = d
  · rw [if_pos hp, if_pos hp, recvBuf_append_ne]
    intro heq
    exact h ((Prod.mk.inj heq).1.symm.trans hp)
  · rw [if_neg hp, if_neg hp]

theorem toward_setOrder (x : XmitIDT) (packs : List MsgPack) :
    (w.setOrder v x packs).toward d v = (w.toward d v).setOrder v x packs := by
  refine View.ext rfl rfl (funext fun u ↦ funext fun y ↦ ?_)
  by_cases hu : (u, y) = (v, x)
  · obtain ⟨rfl, rfl⟩ := Prod.mk.inj hu
    rw [order_toward, order_setOrder_self, order_setOrder_self]
  · rw [order_setOrder_ne _ _ _ _ hu, toward, toward]
    dsimp only
    rw [order_setOrder_ne _ _ _ _ hu]

theorem toward_setOrder_of_ne {u : BusNodeT} (h : u ≠ v) (x : XmitIDT) (packs : List MsgPack) :
    (w.setOrder u x packs).toward d v = w.toward d v := by
  refine View.ext rfl rfl (funext fun u' ↦ funext fun y ↦ ?_)
  rw [toward, toward]
  dsimp only
  by_cases hu : u' = v
  · rw [if_pos hu, if_pos hu, order_setOrder_ne]
    intro heq
    exact h ((Prod.mk.inj heq).1.symm.trans hu)
  · rw [if_neg hu, if_neg hu]

theorem toward_deliver {p : MsgPack} (h : p.dst = d) :
    (w.deliver v p).toward d v = (w.toward d v).deliver v p := by
  subst h
  rw [deliver, deliver, order_toward]
  split_ifs
  · rw [toward_append]
  · rw [toward_setOrder, toward_append]
  · rw [toward_setOrder]

theorem toward_deliver_of_ne {p : MsgPack} {u : BusNodeT} (h : p.dst ≠ d) (hu : u ≠ v) :
    (w.deliver u p).toward d v = w.toward d v := by
  rw [deliver]
  split_ifs
  · rw [toward_append_of_ne _ h]
  · rw [toward_setOrder_of_ne _ hu, toward_append_of_ne _ h]
  · rw [toward_setOrder_of_ne _ hu]

end View

variable {b : Bus} {d : BusPortT}

/-- No other port is at the node of `d`. -/
def Bus.Alone (b : Bus) (d : BusPortT) : Prop := ∀ p, b.home p = b.home d → p = d

/-- An arrival elsewhere is not seen. -/
theorem Arrive.toward (halone : b.Alone d) {w w' : View} (h : Arrive b w w') :
    w'.toward d (b.home d) = w.toward d (b.home d) ∨
      Arrive b (w.toward d (b.home d)) (w'.toward d (b.home d)) := by
  obtain ⟨p, t, hp, rfl⟩ := h
  by_cases hd : p.dst = d
  · refine .inr ⟨p, t, (View.travel_toward _ _ _ hd).trans hp, ?_⟩
    rw [hd, View.toward_deliver _ hd, View.toward_setTravel _ hd]
  · refine .inl ?_
    rw [View.toward_deliver_of_ne _ hd fun hhome ↦ hd (halone _ hhome),
      View.toward_setTravel_of_ne _ hd]

theorem arrivals_toward (halone : b.Alone d) {w w' : View}
    (h : Relation.ReflTransGen (Arrive b) w w') :
    Relation.ReflTransGen (Arrive b) (w.toward d (b.home d)) (w'.toward d (b.home d)) := by
  induction h with
  | refl => exact .refl
  | tail _ harrive ih =>
    rcases harrive.toward halone with heq | harrive'
    · rwa [heq]
    · exact ih.tail harrive'

namespace Bus

/-! ## The invariant of one port -/

/-- The ledger accounts for all messages to port `d`, and for nothing else. -/
structure InvAt (b : Bus) (d : BusPortT) (g : Ledger) (s : BusState) : Prop where
  placed : b.Placed s
  carries : Carries b True g ((s.view b).toward d (b.home d))
  reserved : ∀ c, (s.ports d).reserved c = b.credits g d c
  xmtid : s.xmtidAlloc = s.accepted % 2 ^ 32
  serials : ∀ m ∈ g.live, m.serial < s.accepted

namespace InvAt

variable {g : Ledger} {s s' : BusState}

theorem init (b : Bus) (d : BusPortT) : b.InvAt d {} {} := by
  have h := Inv.init b True
  have hview : (({} : BusState).view b).toward d (b.home d) = ({} : BusState).view b := by
    refine View.ext (funext fun f ↦ ?_) (funext fun p ↦ funext fun c ↦ ite_self _)
      (funext fun v ↦ funext fun x ↦ ite_self _)
    rw [View.toward]
    dsimp only
    rw [h.carries.travel]
    exact ite_self _
  exact ⟨h.placed, by rw [hview]; exact h.carries, h.reserved d, h.xmtid, h.serials⟩

theorem of_empty (h : b.Inv False g s) (hlive : g.live = []) (d : BusPortT) : b.InvAt d {} s := by
  have hdelivered : ∀ p c, g.delivered p c = [] := fun p c ↦
    List.eq_nil_iff_forall_not_mem.mpr fun m hm ↦ by
      have := (h.carries.delivered_live p c m hm).1
      simp [hlive] at this
  have hview : (s.view b).toward d (b.home d) = (({} : BusState).view b).toward d (b.home d) := by
    refine View.ext (funext fun f ↦ ?_) (funext fun p ↦ funext fun c ↦ ?_)
      (funext fun v ↦ funext fun x ↦ ?_)
    · have hinit := (Inv.init b False).carries.travel f
      rw [View.toward, View.toward]
      dsimp only
      rw [h.carries.travel, hinit, hlive]
      rfl
    · have hjam := (h.carries.jam p c).resolve_right fun hK ↦ hK.1
      rw [View.toward, View.toward]
      dsimp only
      rw [h.carries.recvBuf, hdelivered, hjam]
      rfl
    · have horder : (s.view b).order v x = [] := by
        rcases h.carries.order v x with hnil | ⟨m, hm, -⟩ | ⟨hK, -⟩
        · exact hnil
        · simp [hlive] at hm
        · exact hK.elim
      rw [View.toward, View.toward]
      dsimp only
      rw [horder]
      rfl
  exact {
    placed := h.placed
    carries := hview ▸ (init b d).carries
    reserved := fun c ↦ by
      rw [h.reserved, credits, credits, hlive]
    xmtid := h.xmtid
    serials := nofun }

/-- Only the stages, the port and the two counters matter. -/
theorem congr (h : b.InvAt d g s) (hcontents : s'.contents = s.contents)
    (hnodes : s'.nodes = s.nodes) (hrecv : (s'.ports d).recvBuf = (s.ports d).recvBuf)
    (hreserved : (s'.ports d).reserved = (s.ports d).reserved)
    (hxmtid : s'.xmtidAlloc = s.xmtidAlloc) (haccepted : s'.accepted = s.accepted) :
    b.InvAt d g s' where
  placed := ⟨hcontents ▸ h.placed.located, hcontents ▸ h.placed.packs, hnodes ▸ h.placed.routers⟩
  carries := by
    have hview : (s'.view b).toward d (b.home d) = (s.view b).toward d (b.home d) := by
      refine View.ext (funext fun f ↦ ?_) (funext fun p ↦ funext fun c ↦ ?_)
        (funext fun v ↦ funext fun x ↦ ?_)
      · simp only [View.toward, BusState.view, hcontents]
      · simp only [View.toward, BusState.view]
        by_cases hp : p = d
        · rw [if_pos hp, if_pos hp, hp, hrecv]
        · rw [if_neg hp, if_neg hp]
      · simp only [View.toward, BusState.view, hnodes]
    exact hview ▸ h.carries
  reserved := hreserved ▸ h.reserved
  xmtid := by rw [hxmtid, haccepted, h.xmtid]
  serials := haccepted ▸ h.serials

theorem tick (hb : b.WellFormed) (halone : b.Alone d) (h : b.InvAt d g s) (hkeyed : g.Keyed b)
    (htick : b.applyNextTick s = .ok s') : ∃ g', g'.live = g.live ∧ b.InvAt d g' s' := by
  obtain ⟨s₁, s₂, hs₂, hev, rfl⟩ := applyNextTick_spec hb h.placed
  obtain rfl := Except.ok.inj (hs₂.symm.trans htick)
  obtain ⟨g', hlive, hcarries⟩ := Inv.carries_arrivals hb (.inl trivial) (fun _ ↦ hkeyed) h.carries
    (arrivals_toward halone hev.arrivals)
  have h₁ : b.InvAt d g' s₁ :=
    { placed := hev.placed
      carries := hcarries
      reserved := fun c ↦ by rw [hev.keeps.reserved, h.reserved, credits, credits, hlive]
      xmtid := by rw [hev.keeps.xmtidAlloc, hev.keeps.accepted, h.xmtid]
      serials := fun m hm ↦ by
        rw [hev.keeps.accepted]
        exact h.serials m (hlive ▸ hm) }
  exact ⟨g', hlive, h₁.congr rfl rfl rfl rfl rfl rfl⟩

/-! ## Sending

A message for another port is not seen in the view towards this one, but it uses up a serial
number.
-/

theorem send_false (h : b.InvAt d g s) {port dst : BusPortT} {c : ChannelT} {data : Bytes}
    (hsend : b.send s port dst c data = .ok (false, s')) : b.InvAt d g s' := by
  obtain ⟨-, -, -, ⟨-, stats, rfl⟩ | ⟨hfalse, -⟩⟩ := send_eq_ok hsend
  · exact h.congr rfl rfl rfl rfl rfl rfl
  · cases hfalse

theorem xmtid_enqueue (h : b.InvAt d g s) (port dst : BusPortT) (c : ChannelT)
    (packs : List MsgPack) :
    (enqueue (b.reserve s dst c) port c packs).xmtidAlloc =
      (enqueue (b.reserve s dst c) port c packs).accepted % 2 ^ 32 := by
  change ((b.reserve s dst c).xmtidAlloc + 1) % 2 ^ 32 = ((b.reserve s dst c).accepted + 1) % 2 ^ 32
  rw [xmtidAlloc_reserve, accepted_reserve, h.xmtid, Nat.mod_add_mod]

theorem send_of_ne (hb : b.WellFormed) (h : b.InvAt d g s) {port dst : BusPortT} {c : ChannelT}
    {data : Bytes} (hdst : dst ≠ d) (hsend : b.send s port dst c data = .ok (true, s')) :
    b.InvAt d g s' := by
  obtain ⟨hport, hknown, hc, -, -, -, rfl⟩ := send_accepted hsend
  have hknownFlow : b.KnownFlow ⟨port, dst, c⟩ := ⟨hport, hknown⟩
  rw [b.packets_eq h.xmtid]
  have hflow : ∀ p ∈ b.packetsOf (draft s port dst c data), p.flow = ⟨port, dst, c⟩ :=
    fun _ hp ↦ flow_of_mem_packetsOf hp
  exact {
    placed := h.placed.enqueue hknownFlow hc fun p hp ↦ ⟨hflow p hp, tgt_of_mem_packetsOf hp⟩
    carries := by
      rw [view_enqueue (f := ⟨port, dst, c⟩) hb hknownFlow hflow,
        View.toward_setTravel_of_ne _ hdst]
      exact h.carries
    reserved := fun e ↦ by
      rw [reserved_enqueue, reserved_reserve, h.reserved, if_neg fun hd ↦ hdst hd.2.1.symm,
        Nat.add_zero]
    xmtid := h.xmtid_enqueue _ _ _ _
    serials := fun m hm ↦ by
      change m.serial < (b.reserve s dst c).accepted + 1
      rw [accepted_reserve]
      exact Nat.lt_succ_of_lt (h.serials m hm) }

theorem send_self (hb : b.WellFormed) (h : b.InvAt d g s) {port : BusPortT} {c : ChannelT}
    {data : Bytes} (hsize : data.length ≤ 2 ^ 32 - b.width c)
    (hsend : b.send s port d c data = .ok (true, s')) :
    b.InvAt d (g.accept (draft s port d c data)) s' := by
  obtain ⟨hport, hknown, hc, -, -, hcnt, rfl⟩ := send_accepted hsend
  have hknownFlow : b.KnownFlow ⟨port, d, c⟩ := ⟨hport, hknown⟩
  rw [b.packets_eq h.xmtid]
  have hflow : ∀ p ∈ b.packetsOf (draft s port d c data), p.flow = ⟨port, d, c⟩ :=
    fun _ hp ↦ flow_of_mem_packetsOf hp
  have hsized : b.Sized (draft s port d c data) := ⟨hport, hknown, hc, hsize, hcnt⟩
  exact {
    placed := h.placed.enqueue hknownFlow hc fun p hp ↦ ⟨hflow p hp, tgt_of_mem_packetsOf hp⟩
    carries := by
      have hview := view_enqueue (f := ⟨port, d, c⟩) (s := s) hb hknownFlow hflow
      rw [hview, View.toward_setTravel _ rfl, ← View.travel_toward _ d (b.home d) rfl]
      exact h.carries.accept hb hsized fun m hm ↦ h.serials m hm
    reserved := fun e ↦ by
      rw [reserved_enqueue, reserved_reserve, h.reserved, credits_accept]
      rfl
    xmtid := h.xmtid_enqueue _ _ _ _
    serials := fun m hm ↦ by
      change m.serial < (b.reserve s d c).accepted + 1
      rw [accepted_reserve]
      rcases g.mem_live_accept _ |>.mp hm with hm | rfl
      · exact Nat.lt_succ_of_lt (h.serials m hm)
      · exact Nat.lt_succ_self _ }

/-! ## Receiving

A `recv` at another port may throw and take packets away there, and the part of the view for this
port is as it was.
-/

/-- Whatever `recv` at another port ends with. -/
theorem recv_of_ne (h : b.InvAt d g s) {p : BusPortT} (hp : p ≠ d) (c : ChannelT) :
    b.InvAt d g (b.recv s p c).2 := by
  obtain ⟨q, stats, cnt, heq, hsend⟩ := recv_snd (b := b) s p c
  have hport : Function.update s.ports p q d = s.ports d := Function.update_of_ne hp.symm ..
  rw [heq]
  refine h.congr (funext fun y ↦ ?_) rfl (congrArg PortStruct.recvBuf hport)
    (congrArg PortStruct.reserved hport) rfl rfl
  cases y with
  | queue p' e =>
    change (Function.update s.ports p q p').sendBuf e = (s.ports p').sendBuf e
    by_cases hp' : p' = p
    · rw [hp', Function.update_self, hsend]
    · rw [Function.update_of_ne hp']
  | pipe | input | output => rfl

theorem recv_message (hb : b.WellFormed) (h : b.InvAt d g s) (hd : b.knownPort d = true)
    {c : ChannelT} (hc : c < b.chaCnt) {bytes : Bytes} {packs : List MsgPack}
    (hrecv : b.recv s d c = (.message bytes packs, s')) :
    ∃ m ∈ g.live, m.dst = d ∧ m.cha = c ∧ m.data = bytes ∧ b.InvAt d (g.giveBack m) s' := by
  rcases recv_of_carries hb h.carries hd hc (by simp [BusState.view]) (h.reserved c) with
    ⟨hempty, -⟩ | ⟨m, rest, s₁, hfront, -, hmessage, htaken⟩ | ⟨-, -, e, s₁, hthrown⟩
  · cases hempty.symm.trans hrecv
  · obtain ⟨hout, rfl⟩ := Prod.mk.inj (hmessage.symm.trans hrecv)
    obtain ⟨hm, rfl, rfl, -⟩ := h.carries.delivered_live d c m (by simp [hfront])
    have hcontents : s₁.contents = s.contents := by
      funext y
      cases y <;> simp [BusState.contents, htaken.nodes, htaken.edges, htaken.sendBuf]
    refine ⟨m, hm, rfl, rfl, (RecvOutcome.message.inj hout).1, ?_⟩
    exact {
      placed := ⟨hcontents ▸ h.placed.located, hcontents ▸ h.placed.packs,
        htaken.nodes ▸ h.placed.routers⟩
      carries := by
        refine h.carries.giveBack hfront ?_ ?_ ?_ fun p e hpe ↦ ?_
        · simp only [View.toward, BusState.view, hcontents]
        · simp only [View.toward, BusState.view, htaken.nodes]
        · rw [View.recvBuf_toward]
          exact htaken.recvBuf_self
        · simp only [View.toward, BusState.view, htaken.recvBuf_ne p e hpe]
      reserved := fun e ↦ by
        rw [htaken.reserved, h.reserved, credits_giveBack h.carries.live_nodup hm]
      xmtid := by rw [htaken.xmtidAlloc, htaken.accepted, h.xmtid]
      serials := fun m' hm' ↦ by
        rw [htaken.accepted]
        exact h.serials m' (g.mem_live_giveBack m |>.mp hm').1 }
  · cases hthrown.symm.trans hrecv

theorem recv_empty (h : b.InvAt d g s) {c : ChannelT} (hb : b.WellFormed)
    (hd : b.knownPort d = true) (hc : c < b.chaCnt) (hrecv : b.recv s d c = (.empty, s')) :
    b.InvAt d g s' := by
  rcases recv_of_carries hb h.carries hd hc (by simp [BusState.view]) (h.reserved c) with
    ⟨hempty, -⟩ | ⟨m, rest, s₁, -, -, hmessage, -⟩ | ⟨-, -, e, s₁, hthrown⟩
  · exact (Prod.mk.inj (hempty.symm.trans hrecv)).2 ▸ h
  · cases hmessage.symm.trans hrecv
  · cases hthrown.symm.trans hrecv

end InvAt

end Bus

end Simbus
