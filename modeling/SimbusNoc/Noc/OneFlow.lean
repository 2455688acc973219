import SimbusNoc.Noc.Transport

/-!
# A node that hears one flow

When all messages for a node are of one flow, they arrive one after the other: the receive buffer
holds whole messages, the order list the first packets of the next one, and the rest is on the way.
That two of them share a transmission id does no harm then, however many messages the network has
accepted, and `recv` never throws at the port of the flow.

The invariant has no ledger. It spells out where everything is that is under way to the node, as
two lists of messages and a number: the messages that are whole, those that are coming, and how
many packets of the first of these have arrived. An arriving packet must be the next one of that
message, since packets of a flow do not overtake each other. This is the situation of a port that
answers requests one at a time, or of one that is the only one to be talked to, and there it
replaces the bound on the number of messages.
-/

namespace Simbus

open Stages

/-- All that is under way to the node of flow `f`: the messages `whole` in the receive buffer, the
first `k` packets of the first message of `coming` in its order list, and the others on the way. -/
structure OneFlow (b : Bus) (f : Flow) (whole coming : List Message) (k : ℕ) (w : View) : Prop where
  sized : ∀ m ∈ whole ++ coming, b.Sized m ∧ m.flow = f
  recvBuf : w.recvBuf f.dst f.cha = whole.flatMap b.packetsOf
  order : ∀ x, w.order (b.home f.dst) x =
    ((coming.take 1).filter fun m ↦ decide (m.xmtid = x)).flatMap fun m ↦ (b.packetsOf m).take k
  travel : w.travel f = (coming.flatMap b.packetsOf).drop k
  parts : if coming = [] then k = 0 else ∀ m ∈ coming.take 1, k < b.count m
  /-- No other flow ends at this node. -/
  alone : ∀ f', b.home f'.dst = b.home f.dst → f' ≠ f → w.travel f' = []

namespace OneFlow

variable {b : Bus} {f : Flow} {whole coming : List Message} {k : ℕ} {w w' : View}

/-- What the invariant reads of a view. -/
theorem congr (h : OneFlow b f whole coming k w)
    (hrecv : w'.recvBuf f.dst f.cha = w.recvBuf f.dst f.cha)
    (horder : w'.order (b.home f.dst) = w.order (b.home f.dst))
    (htravel : ∀ f', b.home f'.dst = b.home f.dst → w'.travel f' = w.travel f') :
    OneFlow b f whole coming k w' where
  sized := h.sized
  recvBuf := hrecv.trans h.recvBuf
  order := horder ▸ h.order
  travel := (htravel f rfl).trans h.travel
  parts := h.parts
  alone := fun f' hhome hne ↦ (htravel f' hhome).trans (h.alone f' hhome hne)

/-! ## A packet arrives

The packet that arrives is packet `k` of the first message that is coming. It goes to the end of
the order list, or completes the message when it is the last one.
-/

theorem arrive_other (h : OneFlow b f whole coming k w) {p : MsgPack} {t : List MsgPack}
    (hne : b.home p.dst ≠ b.home f.dst) :
    OneFlow b f whole coming k ((w.setTravel p.flow t).deliver (b.home p.dst) p) := by
  have hdst : (f.dst, f.cha) ≠ (p.dst, p.cha) := fun heq ↦ hne (by rw [(Prod.mk.inj heq).1])
  rw [View.deliver_setTravel]
  refine h.congr ?_ ?_ fun f' hhome ↦ ?_
  · rw [View.recvBuf_setTravel, View.deliver]
    split_ifs
    · exact View.recvBuf_append_ne _ _ _ _ hdst
    · exact View.recvBuf_append_ne _ _ _ _ hdst
    · rfl
  · rw [View.order_setTravel, View.deliver]
    funext x
    have hkey : (b.home f.dst, x) ≠ (b.home p.dst, p.xmtid) := fun heq ↦
      hne (Prod.mk.inj heq).1.symm
    split_ifs
    · rfl
    · exact View.order_setOrder_ne _ _ _ _ hkey
    · exact View.order_setOrder_ne _ _ _ _ hkey
  · have hflow : f' ≠ p.flow := by
      rintro rfl
      exact hne hhome
    rw [View.travel_setTravel_ne _ _ _ hflow, View.deliver]
    split_ifs <;> rfl

section Next

variable {m : Message} {rest : List Message}

theorem lt_count (h : OneFlow b f whole (m :: rest) k w) : k < b.count m := by
  have hparts := h.parts
  rw [if_neg (List.cons_ne_nil m rest)] at hparts
  exact hparts m (by simp)

/-- The next packet on the way is packet `k` of the message that is arriving. -/
theorem travel_eq_cons (h : OneFlow b f whole (m :: rest) k w) :
    w.travel f = b.pack m k :: ((b.packetsOf m).drop (k + 1) ++ rest.flatMap b.packetsOf) := by
  rw [h.travel, List.flatMap_cons, List.drop_append_of_le_length (by simpa using h.lt_count.le),
    Bus.packetsOf_drop h.lt_count, List.cons_append]

theorem order_self (h : OneFlow b f whole (m :: rest) k w) :
    w.order (b.home f.dst) m.xmtid = (b.packetsOf m).take k := by
  rw [h.order]
  simp

theorem order_ne (h : OneFlow b f whole (m :: rest) k w) {x : XmitIDT} (hx : x ≠ m.xmtid) :
    w.order (b.home f.dst) x = [] := by
  rw [h.order]
  simp [Ne.symm hx]

/-- The packets before it are in the order list, so it goes to the end. -/
theorem orderInsert_next (h : OneFlow b f whole (m :: rest) k w) :
    Bus.orderInsert (b.pack m k) (w.order (b.home f.dst) m.xmtid) =
      (b.packetsOf m).take (k + 1) := by
  rw [h.order_self, (h.sized m (by simp)).1.orderInsert_take h.lt_count]

theorem whole_append (h : OneFlow b f whole (m :: rest) k w) (hb : b.WellFormed)
    (htravel : ∀ f', w'.travel f' = (w.setTravel f (rest.flatMap b.packetsOf)).travel f')
    (hrecv : w'.recvBuf f.dst f.cha = w.recvBuf f.dst f.cha ++ b.packetsOf m)
    (horder : ∀ x, w'.order (b.home f.dst) x = []) :
    OneFlow b f (whole ++ [m]) rest 0 w' where
  sized := by
    rw [List.append_assoc]
    exact h.sized
  recvBuf := by rw [hrecv, h.recvBuf, List.flatMap_append, List.flatMap_singleton]
  order := fun x ↦ by simp [horder]
  travel := by rw [htravel, View.travel_setTravel_self, List.drop_zero]
  parts := by
    split_ifs
    · rfl
    · exact fun m' hm' ↦ (h.sized m' (by simp [List.mem_of_mem_take hm'])).1.count_pos hb
  alone := fun f' hhome hne ↦
    (htravel f').trans ((View.travel_setTravel_ne _ _ _ hne).trans (h.alone f' hhome hne))

theorem take_succ (h : OneFlow b f whole (m :: rest) k w) (hlast : k + 1 < b.count m) :
    OneFlow b f whole (m :: rest) (k + 1)
      ((w.setTravel f ((b.packetsOf m).drop (k + 1) ++ rest.flatMap b.packetsOf)).setOrder
        (b.home f.dst) m.xmtid ((b.packetsOf m).take (k + 1))) where
  sized := h.sized
  recvBuf := h.recvBuf
  order := fun x ↦ by
    by_cases hx : x = m.xmtid
    · rw [hx, View.order_setOrder_self]
      simp
    · have hkey : (b.home f.dst, x) ≠ (b.home f.dst, m.xmtid) := fun heq ↦ hx (Prod.mk.inj heq).2
      rw [View.order_setOrder_ne _ _ _ _ hkey, View.order_setTravel, h.order_ne hx]
      simp [Ne.symm hx]
  travel := by
    rw [View.travel_setOrder, View.travel_setTravel_self, List.flatMap_cons,
      List.drop_append_of_le_length (by rw [Bus.length_packetsOf]; exact hlast.le)]
  parts := by
    rw [if_neg (List.cons_ne_nil m rest)]
    intro m' hm'
    obtain rfl : m' = m := by simpa using hm'
    exact hlast
  alone := fun f' hhome hne ↦
    (View.travel_setTravel_ne _ _ _ hne).trans (h.alone f' hhome hne)

end Next

/-- The next packet of the message that is arriving. -/
theorem arrive_next (h : OneFlow b f whole coming k w) (hb : b.WellFormed) {p : MsgPack}
    {t : List MsgPack} (hp : w.travel f = p :: t) :
    ∃ whole' coming' k', whole' ++ coming' = whole ++ coming ∧
      OneFlow b f whole' coming' k' ((w.setTravel f t).deliver (b.home f.dst) p) := by
  cases coming with
  | nil =>
    rw [h.travel] at hp
    simp at hp
  | cons m rest =>
    obtain ⟨rfl, rfl⟩ := List.cons.inj (hp.symm.trans h.travel_eq_cons)
    obtain ⟨hsized, hflow⟩ := h.sized m (by simp)
    have hk := h.lt_count
    have hdst : (b.pack m k).dst = f.dst := congrArg Flow.dst hflow
    have hcha : (b.pack m k).cha = f.cha := congrArg Flow.cha hflow
    have hid : (b.pack m k).xmtid = m.xmtid := rfl
    have hlength : ((b.packetsOf m).take (k + 1)).length = k + 1 := by
      rw [List.length_take, Bus.length_packetsOf]
      omega
    have hdrop (hlast : k + 1 = b.count m) :
        (b.packetsOf m).drop (k + 1) ++ rest.flatMap b.packetsOf = rest.flatMap b.packetsOf := by
      rw [List.drop_eq_nil_of_le (by simp [hlast]), List.nil_append]
    rw [View.deliver, hsized.pack_pacCnt, hdst, hcha, hid, View.order_setTravel,
      h.orderInsert_next, hlength]
    split_ifs with hone hlast
    · -- a single packet bypasses the order list
      obtain rfl : k = 0 := by omega
      rw [hdrop (by omega)]
      refine ⟨whole ++ [m], rest, 0, by simp, h.whole_append hb (fun f' ↦ rfl) ?_ fun x ↦ ?_⟩
      · have hpackets : b.packetsOf m = [b.pack m 0] := by
          rw [Bus.packetsOf, show b.count m = 1 by omega]
          rfl
        rw [View.recvBuf_append_self, hpackets]
        rfl
      · rw [View.order_append, View.order_setTravel]
        by_cases hx : x = m.xmtid
        · rw [hx, h.order_self, List.take_zero]
        · exact h.order_ne hx
    · -- the last packet completes the list
      have htake : (b.packetsOf m).take (k + 1) = b.packetsOf m :=
        List.take_of_length_le (by rw [Bus.length_packetsOf]; omega)
      rw [hdrop hlast]
      refine ⟨whole ++ [m], rest, 0, by simp, h.whole_append hb (fun f' ↦ rfl) ?_ fun x ↦ ?_⟩
      · rw [View.recvBuf_setOrder, htake, View.recvBuf_append_self]
        rfl
      · by_cases hx : x = m.xmtid
        · rw [hx]
          exact View.order_setOrder_self _ _ _ _
        · have hkey : (b.home f.dst, x) ≠ (b.home f.dst, m.xmtid) := fun heq ↦
            hx (Prod.mk.inj heq).2
          rw [View.order_setOrder_ne _ _ _ _ hkey]
          exact h.order_ne hx
    · exact ⟨whole, m :: rest, k + 1, rfl, h.take_succ (by omega)⟩

theorem arrive (h : OneFlow b f whole coming k w) (hb : b.WellFormed) (harrive : Arrive b w w') :
    ∃ whole' coming' k', whole' ++ coming' = whole ++ coming ∧
      OneFlow b f whole' coming' k' w' := by
  obtain ⟨p, t, hp, rfl⟩ := harrive
  by_cases hhome : b.home p.dst = b.home f.dst
  · have hflow : p.flow = f := by
      by_contra hne
      rw [h.alone p.flow hhome hne] at hp
      cases hp
    rw [hflow] at hp ⊢
    rw [hhome]
    exact h.arrive_next hb hp
  · exact ⟨whole, coming, k, rfl, h.arrive_other hhome⟩

theorem arrivals (h : OneFlow b f whole coming k w) (hb : b.WellFormed)
    (hw : Relation.ReflTransGen (Arrive b) w w') :
    ∃ whole' coming' k', whole' ++ coming' = whole ++ coming ∧
      OneFlow b f whole' coming' k' w' := by
  induction hw with
  | refl => exact ⟨whole, coming, k, rfl, h⟩
  | tail _ harrive ih =>
    obtain ⟨whole₁, coming₁, k₁, heq₁, h₁⟩ := ih
    obtain ⟨whole₂, coming₂, k₂, heq₂, h₂⟩ := h₁.arrive hb harrive
    exact ⟨whole₂, coming₂, k₂, heq₂.trans heq₁, h₂⟩

/-! ## Messages are accepted and returned

A message that is accepted comes behind all that are coming, and the one returned is the first of
the whole ones. Whatever happens at other nodes is not seen. `HearsOne` is the invariant said of a
state.
-/

/-- A message of the flow is accepted. -/
theorem accept (h : OneFlow b f whole coming k w) (hb : b.WellFormed) {m : Message}
    (hsized : b.Sized m) (hflow : m.flow = f) :
    OneFlow b f whole (coming ++ [m]) k (w.setTravel f (w.travel f ++ b.packetsOf m)) where
  sized := fun m' hm' ↦ by
    rw [← List.append_assoc] at hm'
    rcases List.mem_append.mp hm' with hm' | hm'
    · exact h.sized m' hm'
    · rw [List.mem_singleton.mp hm']
      exact ⟨hsized, hflow⟩
  recvBuf := h.recvBuf
  order := fun x ↦ by
    rw [View.order_setTravel, h.order]
    have hparts := h.parts
    cases coming with
    | nil =>
      rw [if_pos rfl] at hparts
      simp [hparts]
    | cons m' rest => simp
  travel := by
    rw [View.travel_setTravel_self, h.travel, List.flatMap_append, List.flatMap_singleton]
    -- What has arrived is part of the first message, so it is not in what is appended.
    refine (List.drop_append_of_le_length ?_).symm
    have hparts := h.parts
    cases coming with
    | nil =>
      rw [if_pos rfl] at hparts
      simp [hparts]
    | cons m' rest =>
      rw [if_neg (List.cons_ne_nil m' rest)] at hparts
      have hk := hparts m' (by simp)
      rw [List.flatMap_cons, List.length_append, Bus.length_packetsOf]
      omega
  parts := by
    have hparts := h.parts
    rw [if_neg (by simp)]
    cases coming with
    | nil =>
      rw [if_pos rfl] at hparts
      intro m' hm'
      obtain rfl : m' = m := by simpa using hm'
      rw [hparts]
      exact hsized.count_pos hb
    | cons m' rest =>
      rw [if_neg (List.cons_ne_nil m' rest)] at hparts
      simpa using hparts
  alone := fun f' hhome hne ↦ by
    rw [View.travel_setTravel_ne _ _ _ hne]
    exact h.alone f' hhome hne

theorem accept_other (h : OneFlow b f whole coming k w) {f' : Flow}
    (hne : b.home f'.dst ≠ b.home f.dst) (packs : List MsgPack) :
    OneFlow b f whole coming k (w.setTravel f' packs) := by
  refine h.congr rfl rfl fun f'' hhome ↦ View.travel_setTravel_ne _ _ _ ?_
  rintro rfl
  exact hne hhome

theorem giveBack {m : Message} (h : OneFlow b f (m :: whole) coming k w)
    (htravel : w'.travel = w.travel) (horder : w'.order = w.order)
    (hrecv : w'.recvBuf f.dst f.cha = whole.flatMap b.packetsOf) :
    OneFlow b f whole coming k w' where
  sized := fun m' hm' ↦ h.sized m' (List.mem_cons_of_mem m hm')
  recvBuf := hrecv
  order := horder ▸ h.order
  travel := htravel ▸ h.travel
  parts := h.parts
  alone := htravel ▸ h.alone

end OneFlow

namespace Bus

/-- The node of flow `f` hears this flow only, and a credit is taken for each message. -/
def HearsOne (b : Bus) (f : Flow) (s : BusState) : Prop :=
  ∃ whole coming k, OneFlow b f whole coming k (s.view b) ∧
    (b.config.receiveMessageSlots ≠ 0 →
      (s.ports f.dst).reserved f.cha = (whole ++ coming).length)

variable {b : Bus} {f : Flow} {s s' : BusState}

theorem HearsOne.init (b : Bus) (f : Flow) : b.HearsOne f {} := by
  have hempty := (Inv.init b True).carries
  refine ⟨[], [], 0, ?_, fun _ ↦ rfl⟩
  exact
    { sized := nofun
      recvBuf := rfl
      order := fun _ ↦ rfl
      travel := hempty.travel f
      parts := rfl
      alone := fun f' _ _ ↦ hempty.travel f' }

/-- The stages, the buffers and the reservations of the port are what matters. -/
theorem HearsOne.of_view_eq (h : b.HearsOne f s) (hview : s'.view b = s.view b)
    (hreserved : (s'.ports f.dst).reserved = (s.ports f.dst).reserved) : b.HearsOne f s' := by
  obtain ⟨whole, coming, k, hone, hcredit⟩ := h
  exact ⟨whole, coming, k, hview ▸ hone, hreserved ▸ hcredit⟩

theorem HearsOne.tick (h : b.HearsOne f s) (hb : b.WellFormed) (hs : b.Placed s)
    (htick : b.applyNextTick s = .ok s') : b.HearsOne f s' := by
  obtain ⟨s₁, s₂, hs₂, hev, rfl⟩ := applyNextTick_spec hb hs
  obtain rfl := Except.ok.inj (hs₂.symm.trans htick)
  obtain ⟨whole, coming, k, hone, hcredit⟩ := h
  obtain ⟨whole', coming', k', heq, hone'⟩ := hone.arrivals hb hev.arrivals
  refine ⟨whole', coming', k', hone', fun hslots ↦ ?_⟩
  rw [heq, ← hcredit hslots]
  exact congrFun (hev.keeps.reserved f.dst) f.cha

theorem HearsOne.send (h : b.HearsOne f s) (hb : b.WellFormed) {K : Prop} {g : Ledger}
    (hinv : b.Inv K g s) {port dst : BusPortT} {c : ChannelT} {data : Bytes} {accepted : Bool}
    (hsize : data.length ≤ 2 ^ 32 - b.width c)
    (hflow : (⟨port, dst, c⟩ : Flow) = f ∨ b.home dst ≠ b.home f.dst)
    (hsend : b.send s port dst c data = .ok (accepted, s')) : b.HearsOne f s' := by
  obtain ⟨hport, hdst, hc, ⟨-, stats, rfl⟩ | ⟨-, -, -, hcnt, rfl⟩⟩ := send_eq_ok hsend
  · exact h.of_view_eq rfl rfl
  obtain ⟨whole, coming, k, hone, hcredit⟩ := h
  rw [b.packets_eq hinv.xmtid]
  set m : Message := draft s port dst c data with hm
  have hsized : b.Sized m := ⟨hport, hdst, hc, hsize, hcnt⟩
  have hpacks : ∀ p ∈ b.packetsOf m, p.flow = m.flow := fun p hp ↦ flow_of_mem_packetsOf hp
  have hview := view_enqueue (s := s) hb hsized.flow hpacks
  rcases hflow with rfl | hne
  · refine ⟨whole, coming ++ [m], k, ?_, fun hslots ↦ ?_⟩
    · exact hview ▸ hone.accept hb hsized rfl
    · rw [reserved_enqueue, reserved_reserve, hcredit hslots, if_pos ⟨hslots, rfl, rfl⟩,
        ← List.append_assoc]
      simp only [List.length_append, List.length_singleton]
  · refine ⟨whole, coming, k, ?_, fun hslots ↦ ?_⟩
    · exact hview ▸ hone.accept_other hne _
    · have hdst' : f.dst ≠ dst := fun heq ↦ hne (by rw [heq])
      rw [reserved_enqueue, reserved_reserve, if_neg fun h ↦ hdst' h.2.1]
      exact hcredit hslots

/-- What a `recv` that returns a message leaves. -/
theorem HearsOne.taken (h : b.HearsOne f s) {d : BusPortT} {c : ChannelT} {m : Message}
    {buf : List MsgPack} (hb : b.WellFormed) (hsized : b.Sized m) (hm : m.dst = d ∧ m.cha = c)
    (hbuf : (s.ports d).recvBuf c = b.packetsOf m ++ buf) (htaken : b.Taken s s' d c buf) :
    b.HearsOne f s' := by
  obtain ⟨whole, coming, k, hone, hcredit⟩ := h
  have hcontents : s'.contents = s.contents := by
    funext y
    cases y <;> simp [BusState.contents, htaken.nodes, htaken.edges, htaken.sendBuf]
  have htravel : (s'.view b).travel = (s.view b).travel := by simp only [BusState.view, hcontents]
  have horder : (s'.view b).order = (s.view b).order := by simp only [BusState.view, htaken.nodes]
  by_cases hport : (f.dst, f.cha) = (d, c)
  · obtain ⟨rfl, rfl⟩ := Prod.mk.inj hport
    have hrecv : (s.ports f.dst).recvBuf f.cha = whole.flatMap b.packetsOf := hone.recvBuf
    cases whole with
    | nil =>
      have hempty := hbuf.symm.trans hrecv
      have hpos := hsized.count_pos hb
      rw [← length_packetsOf (b := b) (m := m), (List.append_eq_nil_iff.mp hempty).1] at hpos
      cases hpos
    | cons m' whole =>
      obtain ⟨hsized', hflow'⟩ := hone.sized m' (by simp)
      -- a buffer begins with one message only
      have hrest : buf = whole.flatMap b.packetsOf := by
        rw [List.flatMap_cons, hbuf] at hrecv
        have hcnt : (b.packetsOf m).length = (b.packetsOf m').length := by
          have hhead := congrArg List.head? hrecv
          have hfirst : ∀ m₁ : Message, b.Sized m₁ → ∀ l, (b.packetsOf m₁ ++ l).head? =
              some (b.pack m₁ 0) := by
            intro m₁ hm₁ l
            rw [packetsOf_eq_cons (hm₁.count_pos hb)]
            rfl
          rw [hfirst m hsized, hfirst m' hsized'] at hhead
          have hpack := congrArg MsgPack.pacCnt (Option.some.inj hhead)
          rwa [hsized.pack_pacCnt, hsized'.pack_pacCnt, ← length_packetsOf (b := b) (m := m),
            ← length_packetsOf (b := b) (m := m')] at hpack
        exact (List.append_inj hrecv hcnt).2
      refine ⟨whole, coming, k, hone.giveBack htravel horder (htaken.recvBuf_self.trans hrest),
        fun hslots ↦ ?_⟩
      rw [htaken.reserved, hcredit hslots, if_pos ⟨hslots, rfl, rfl⟩]
      rfl
  · refine ⟨whole, coming, k, hone.congr (htaken.recvBuf_ne _ _ hport) (by rw [horder])
      (fun f' _ ↦ by rw [htravel]), fun hslots ↦ ?_⟩
    rw [htaken.reserved, if_neg fun h ↦ hport (by rw [h.2.1, h.2.2]), Nat.sub_zero]
    exact hcredit hslots

/-- A `recv` that returns, at any port. -/
theorem HearsOne.of_recv (h : b.HearsOne f s) (hb : b.WellFormed) {K : Prop} {g : Ledger}
    (hinv : b.Inv K g s) {d : BusPortT} {c : ChannelT} (hd : b.knownPort d = true)
    (hc : c < b.chaCnt) {outcome : RecvOutcome} (hrecv : b.recv s d c = (outcome, s'))
    (hreturns : ∀ e, outcome ≠ .thrown e) : b.HearsOne f s' := by
  rcases recv_of_carries hb hinv.carries hd hc rfl (hinv.reserved d c) with ⟨heq, -⟩ |
    ⟨m, rest, s₁, hdelivered, -, heq, htaken⟩ | ⟨-, -, e, s₁, heq⟩
  · obtain ⟨-, rfl⟩ := Prod.mk.inj (hrecv.symm.trans heq)
    exact h
  · obtain ⟨-, rfl⟩ := Prod.mk.inj (hrecv.symm.trans heq)
    obtain ⟨hm, hdst, hcha, -⟩ := hinv.carries.delivered_live d c m (by simp [hdelivered])
    have hbuf : (s.ports d).recvBuf c =
        b.packetsOf m ++ (rest.flatMap b.packetsOf ++ g.jam d c) := by
      have hrecvBuf := hinv.carries.recvBuf d c
      rwa [hdelivered, List.flatMap_cons, List.append_assoc] at hrecvBuf
    exact h.taken hb (hinv.carries.sized m hm) ⟨hdst, hcha⟩ hbuf htaken
  · exact absurd (Prod.mk.inj (hrecv.symm.trans heq)).1 (hreturns e)

theorem HearsOne.recv (h : b.HearsOne f s) (hb : b.WellFormed) (hd : b.knownPort f.dst = true)
    (hc : f.cha < b.chaCnt) :
    b.recv s f.dst f.cha = (.empty, s) ∨
      ∃ bytes packs s', b.recv s f.dst f.cha = (.message bytes packs, s') := by
  obtain ⟨whole, coming, k, hone, hcredit⟩ := h
  have hrecv : (s.ports f.dst).recvBuf f.cha = whole.flatMap b.packetsOf := hone.recvBuf
  cases whole with
  | nil =>
    left
    rw [Bus.recv, (validatePort_eq_ok (u := ())).mpr hd, (validateChannel_eq_ok (u := ())).mpr hc]
    simp only [recvNow, hrecv, List.flatMap_nil]
  | cons m whole =>
    right
    obtain ⟨hsized, rfl⟩ := hone.sized m (by simp)
    have hcredit' : b.config.receiveMessageSlots = 0 ∨ 0 < (s.ports m.dst).reserved m.cha := by
      by_cases hslots : b.config.receiveMessageSlots = 0
      · exact .inl hslots
      · refine .inr (Nat.lt_of_lt_of_eq ?_ (hcredit hslots).symm)
        simp
    obtain ⟨s', -, hmessage, -⟩ := recv_whole hb hsized hrecv hcredit'
    exact ⟨m.data, b.packetsOf m, s', hmessage⟩

end Bus

end Simbus
