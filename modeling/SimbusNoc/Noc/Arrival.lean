import SimbusNoc.Noc.Delivery

/-!
# One packet arrives

An arriving packet keeps the account of `Carries`: it starts or extends the order list of its
message, completes its message, or joins a jam.

## Three ways to change the ledger

A packet of `m` advances the count of the arrived packets of `m` in each case. When it completes
`m`, the message joins the delivered ones (`complete`); when it does not, nothing else changes
(`part`); and when the list it enters was not in order, or becomes so, its receive buffer is jammed
from then on (`spoil`). Each of these has a lemma of its own, which is about any view in which a
packet of `m` has left the network and only the buffer and the list of `m` may be different.

## Order

That `m` is the next of its flow to be delivered follows from the order in which its packets
travel. The packets of a flow arrive in the order in which they were sent, so a packet of `m`
arrives only when all packets of the messages before it have. These are then whole, and, unless ids
are shared, delivered (`ordered_complete`).
-/

namespace Simbus

namespace Carries

/-- The list of a flow splits in one way into complete and incomplete messages. -/
private theorem split_unique {m : Message} {l₁ l₂ d rest : List Message} {P : Message → Prop}
    (heq : d ++ rest = l₁ ++ m :: l₂) (hl₁ : ∀ a ∈ l₁, P a) (hd : ∀ a ∈ d, P a)
    (hrest : ∀ a ∈ rest, ¬P a) (hm : ¬P m) : l₁ = d ∧ rest = m :: l₂ := by
  rcases List.append_eq_append_iff.mp heq with ⟨l, rfl, hr⟩ | ⟨l, rfl, hr⟩
  · cases l with
    | nil => exact ⟨by simp, hr⟩
    | cons a l => exact absurd (hl₁ a (by simp)) (hrest a (by simp [hr]))
  · cases l with
    | nil => exact ⟨by simp, hr.symm⟩
    | cons a l =>
      obtain ⟨rfl, -⟩ := List.cons.inj hr
      exact absurd (hd m (by simp)) hm

variable {b : Bus} {K : Prop} {g : Ledger} {w : View} (h : Carries b K g w)
  {m : Message} (hm : m ∈ g.live) (hlt : g.arrived m.serial < b.count m)
include h hm

/-! ## What stays

An arrival changes how many packets of one message have arrived. Orders that are said about several
messages of a flow stay, since an arriving packet is always of the oldest message that is not
complete.
-/

theorem arrived_advance {m' : Message} (hm' : m' ∈ g.live) (hne : m' ≠ m) :
    (g.advance m).arrived m'.serial = g.arrived m'.serial :=
  g.arrived_advance_ne m fun heq ↦ hne (h.serial_inj hm' hm heq)

theorem arrived_advance_le (hlt : g.arrived m.serial < b.count m) {m' : Message}
    (hm' : m' ∈ g.live) : (g.advance m).arrived m'.serial ≤ b.count m' := by
  by_cases hne : m' = m
  · subst hne
    rw [g.arrived_advance_self]
    omega
  · rw [h.arrived_advance hm hm' hne]
    exact h.arrived_le m' hm'

/-- An order list without packets of `m` stays what it is when a packet of `m` arrives. -/
theorem orderOk_advance (g' : Ledger) (hlive : g'.live = g.live)
    (harrived : g'.arrived = (g.advance m).arrived)
    (hjam : ∀ d c, g.jam d c ≠ [] → g'.jam d c ≠ []) {v : BusNodeT} {x : XmitIDT}
    (hkey : (v, x) ≠ (b.home m.dst, m.xmtid) ∨ g.arrived m.serial = 0) {l : List MsgPack}
    (hl : OrderOk b K g v x l) : OrderOk b K g' v x l := by
  rcases hl with hnil | ⟨m', hm', hx, hv, hpos, hlt', hlist⟩ | ⟨hK, hbad⟩
  · exact .inl hnil
  · have hne : m' ≠ m := by
      rintro rfl
      rcases hkey with hkey | hzero
      · exact hkey (by rw [hx, hv])
      · omega
    refine .inr (.inl ⟨m', hlive ▸ hm', hx, hv, ?_⟩)
    rw [harrived, h.arrived_advance hm hm' hne]
    exact ⟨hpos, hlt', hlist⟩
  · refine .inr (.inr ⟨hK, hbad.imp_right ?_⟩)
    rintro ⟨p, hp, hpjam⟩
    exact ⟨p, hp, hjam _ _ hpjam⟩

theorem arrived_pos_advance {m' : Message} (hm' : m' ∈ g.live)
    (hpos : 0 < g.arrived m'.serial) : 0 < (g.advance m).arrived m'.serial := by
  by_cases hne : m' = m
  · subst hne
    rw [g.arrived_advance_self]
    exact Nat.succ_pos _
  · rwa [h.arrived_advance hm hm' hne]

theorem ordered_advance (hlt : g.arrived m.serial < b.count m)
    (hpart : ¬K → g.arrived m.serial + 1 < b.count m) (hK : ¬K) (f : Flow) :
    ∃ rest, (g.live.filter fun m' ↦ decide (m'.flow = f)) =
      ((g.delivered f.dst f.cha).filter fun m' ↦ decide (m'.src = f.src)) ++ rest ∧
      ∀ m' ∈ rest, (g.advance m).arrived m'.serial < b.count m' := by
  obtain ⟨rest, hrest, hall⟩ := h.ordered hK f
  refine ⟨rest, hrest, fun m' hm' ↦ ?_⟩
  have hlive : m' ∈ g.live := by
    have : m' ∈ g.live.filter fun m' ↦ decide (m'.flow = f) := by simp [hrest, hm']
    exact (List.mem_filter.mp this).1
  by_cases hne : m' = m
  · subst hne
    rw [g.arrived_advance_self]
    exact hpart hK
  · rw [h.arrived_advance hm hlive hne]
    exact hall m' hm'

/-- When `m` completes, it is the next of its flow to be delivered. -/
theorem ordered_complete (hlast : g.arrived m.serial + 1 = b.count m)
    (hfirst : ∃ l₁ l₂, (g.live.filter fun m' ↦ decide (m'.flow = m.flow)) = l₁ ++ m :: l₂ ∧
      ∀ m' ∈ l₁, g.arrived m'.serial = b.count m') (hK : ¬K) (f : Flow) :
    ∃ rest, (g.live.filter fun m' ↦ decide (m'.flow = f)) =
      (((g.complete m).delivered f.dst f.cha).filter fun m' ↦ decide (m'.src = f.src)) ++ rest ∧
      ∀ m' ∈ rest, (g.advance m).arrived m'.serial < b.count m' := by
  obtain ⟨rest, hrest, hall⟩ := h.ordered hK f
  have hlive : ∀ m' ∈ rest, m' ∈ g.live ∧ m'.flow = f := by
    intro m' hm'
    have : m' ∈ g.live.filter fun m' ↦ decide (m'.flow = f) := by simp [hrest, hm']
    simpa using this
  by_cases hf : m.flow = f
  · subst hf
    obtain ⟨l₁, l₂, hl, hfull⟩ := hfirst
    -- `m` is the first message of its flow that was not complete, so it heads the rest.
    obtain ⟨rfl, rfl⟩ := split_unique (P := fun m' ↦ g.arrived m'.serial = b.count m')
      (hrest.symm.trans hl) hfull
      (fun a ha ↦ (h.delivered_live _ _ a (List.mem_filter.mp ha).1).2.2.2)
      (fun a ha ↦ (hall a ha).ne) (by omega)
    have hnodup : (m :: l₂).Nodup := by
      have hsub : (m :: l₂).Sublist g.live :=
        (List.sublist_append_right _ _).trans (hl ▸ List.filter_sublist)
      exact (h.serials.imp fun hlt heq ↦ by simp [heq] at hlt).sublist hsub
    refine ⟨l₂, ?_, fun m' hm' ↦ ?_⟩
    · rw [hl]
      have hd : (g.complete m).delivered m.flow.dst m.flow.cha =
          g.delivered m.dst m.cha ++ [m] := g.delivered_complete_self m
      rw [hd, List.filter_append]
      simp [Message.flow]
    · have hne : m' ≠ m := by
        rintro rfl
        exact (List.nodup_cons.mp hnodup).1 hm'
      rw [h.arrived_advance hm (hlive m' (List.mem_cons_of_mem m hm')).1 hne]
      exact hall m' (List.mem_cons_of_mem m hm')
  · refine ⟨rest, ?_, fun m' hm' ↦ ?_⟩
    · rw [hrest]
      congr 1
      -- A flow with the same destination and another source does not see the delivery.
      by_cases hdc : (f.dst, f.cha) = (m.dst, m.cha)
      · obtain ⟨hd, hc⟩ := Prod.mk.inj hdc
        have hsrc : m.src ≠ f.src := fun hs ↦ hf (by
          obtain ⟨s, d, c⟩ := f
          simp_all [Message.flow])
        rw [hd, hc, g.delivered_complete_self, List.filter_append]
        simp [hsrc]
      · rw [g.delivered_complete_ne m hdc]
    · have hne : m' ≠ m := by
        rintro rfl
        exact hf (hlive m' hm').2
      rw [h.arrived_advance hm (hlive m' hm').1 hne]
      exact hall m' hm'

/-! ## The frame of an arrival

A packet of `m` leaves the network and enters the receive buffer or the order list of `m`. Whatever
becomes of it there, the other buffers and lists are as before, and so is what the account says
about the other messages.
-/

omit h hm in
/-- Between `w` and `w'` a packet of `m` has left the network, and of the buffers and order lists
only those of `m` may have changed. -/
structure Frame (b : Bus) (g : Ledger) (m : Message) (w w' : View) : Prop where
  travel : ∀ f, w'.travel f = (g.live.filter fun m' ↦ decide (m'.flow = f)).flatMap fun m' ↦
    (b.packetsOf m').drop ((g.advance m).arrived m'.serial)
  recvBuf : ∀ d c, (d, c) ≠ (m.dst, m.cha) → w'.recvBuf d c = w.recvBuf d c
  order : ∀ v x, (v, x) ≠ (b.home m.dst, m.xmtid) → w'.order v x = w.order v x

variable {w' : View} (hframe : Frame b g m w w')

theorem delivered_live_advance (hlt : g.arrived m.serial < b.count m) {d : BusPortT} {c : ChannelT}
    {m' : Message} (hm' : m' ∈ g.delivered d c) :
    m' ∈ g.live ∧ m'.dst = d ∧ m'.cha = c ∧ (g.advance m).arrived m'.serial = b.count m' := by
  obtain ⟨hl, hd, hc, harr⟩ := h.delivered_live d c m' hm'
  have hne : m' ≠ m := by
    rintro rfl
    omega
  exact ⟨hl, hd, hc, (h.arrived_advance hm hl hne).trans harr⟩

theorem not_mem_of_forall_mem_packetsOf {m' : Message} (hm' : m' ∈ g.live) (hne : m' ≠ m)
    {l : List MsgPack} (hall : ∀ q ∈ l, q ∈ b.packetsOf m) : b.pack m' 0 ∉ l := fun hmem ↦
  hne (h.serial_inj hm' hm (Bus.serial_of_mem_packetsOf (hall _ hmem)))

include hframe

theorem order_live_advance {v : BusNodeT} {x : XmitIDT} {q : MsgPack}
    (hkey : (v, x) ≠ (b.home m.dst, m.xmtid)) (hq : q ∈ w'.order v x) :
    ∃ m' ∈ g.live, m' ∉ g.delivered m'.dst m'.cha ∧ 0 < (g.advance m).arrived m'.serial ∧
      q ∈ b.packetsOf m' ∧ m'.xmtid = x ∧ b.home m'.dst = v := by
  obtain ⟨m', hm', hnot, hpos, hrest⟩ := h.order_live v x q (hframe.order v x hkey ▸ hq)
  exact ⟨m', hm', hnot, h.arrived_pos_advance hm hm' hpos, hrest⟩

/-- Another message in part keeps its first packet, if the order list of `m` does. -/
theorem partly_advance {m' : Message} (hm' : m' ∈ g.live) (hne : m' ≠ m)
    (hpos : 0 < (g.advance m).arrived m'.serial) (hnot : m' ∉ g.delivered m'.dst m'.cha)
    (hown : b.pack m' 0 ∈ w.order (b.home m.dst) m.xmtid →
      b.pack m' 0 ∈ w'.order (b.home m.dst) m.xmtid) :
    g.jam m'.dst m'.cha ≠ [] ∨ b.pack m' 0 ∈ w'.order (b.home m'.dst) m'.xmtid := by
  have hpos' : 0 < g.arrived m'.serial := h.arrived_advance hm hm' hne ▸ hpos
  refine (h.partly m' hm' hpos' hnot).imp_right fun hmem ↦ ?_
  by_cases hkey : (b.home m'.dst, m'.xmtid) = (b.home m.dst, m.xmtid)
  · obtain ⟨hv, hx⟩ := Prod.mk.inj hkey
    rw [hv, hx] at hmem ⊢
    exact hown hmem
  · rwa [hframe.order _ _ hkey]

/-! ## The message is complete -/

omit hm hframe in
theorem delivered_nodup_complete (hlt : g.arrived m.serial < b.count m) (d : BusPortT)
    (c : ChannelT) : ((g.complete m).delivered d c).Nodup := by
  by_cases hdc : (d, c) = (m.dst, m.cha)
  · obtain ⟨rfl, rfl⟩ := Prod.mk.inj hdc
    rw [g.delivered_complete_self]
    refine List.nodup_append.mpr ⟨h.delivered_nodup _ _, List.nodup_singleton m, ?_⟩
    rintro a ha _ hb rfl
    exact h.not_delivered hlt (List.mem_singleton.mp hb ▸ ha)
  · rw [g.delivered_complete_ne m hdc]
    exact h.delivered_nodup d c

/-- A packet that is left in an order list is of another message, which was in part before. -/
theorem order_live_of_ne
    (hown : w'.order (b.home m.dst) m.xmtid = [] ∨ (g.arrived m.serial = 0 ∧
      w'.order (b.home m.dst) m.xmtid = w.order (b.home m.dst) m.xmtid))
    {v : BusNodeT} {x : XmitIDT} {q : MsgPack} (hq : q ∈ w'.order v x) :
    ∃ m' ∈ g.live, m' ∉ g.delivered m'.dst m'.cha ∧ 0 < (g.advance m).arrived m'.serial ∧
      q ∈ b.packetsOf m' ∧ m'.xmtid = x ∧ b.home m'.dst = v ∧ m' ≠ m := by
  by_cases hkey : (v, x) = (b.home m.dst, m.xmtid)
  · obtain ⟨rfl, rfl⟩ := Prod.mk.inj hkey
    rcases hown with hnil | ⟨hzero, hsame⟩
    · rw [hnil] at hq
      cases hq
    · obtain ⟨m', hm', hnot, hpos, hqm, hx, hv⟩ := h.order_live _ _ q (hsame ▸ hq)
      refine ⟨m', hm', hnot, h.arrived_pos_advance hm hm' hpos, hqm, hx, hv, ?_⟩
      rintro rfl
      exact hpos.ne' hzero
  · obtain ⟨m', hm', hnot, hpos, hqm, hx, hv⟩ := h.order_live_advance hm hframe hkey hq
    refine ⟨m', hm', hnot, hpos, hqm, hx, hv, ?_⟩
    rintro rfl
    exact hkey (by rw [hx, hv])

/-- When the last packet of `m` completes it, and it is the oldest incomplete message of its flow,
`m` joins the delivered messages. -/
theorem complete (hlast : g.arrived m.serial + 1 = b.count m) (hjam : g.jam m.dst m.cha = [])
    (hfirst : ∃ l₁ l₂, (g.live.filter fun m' ↦ decide (m'.flow = m.flow)) = l₁ ++ m :: l₂ ∧
      ∀ m' ∈ l₁, g.arrived m'.serial = b.count m')
    (hself : w'.recvBuf m.dst m.cha = w.recvBuf m.dst m.cha ++ b.packetsOf m)
    (hown : (w'.order (b.home m.dst) m.xmtid = [] ∧
        ∀ q ∈ w.order (b.home m.dst) m.xmtid, q ∈ b.packetsOf m) ∨
      (g.arrived m.serial = 0 ∧
        w'.order (b.home m.dst) m.xmtid = w.order (b.home m.dst) m.xmtid)) :
    Carries b K (g.complete m) w' := by
  have hlt : g.arrived m.serial < b.count m := by omega
  refine {
    sized := h.sized
    serials := h.serials
    travel := hframe.travel
    arrived_le := fun m' hm' ↦ h.arrived_advance_le hm hlt hm'
    delivered_live := fun d c m' hm' ↦ ?_
    delivered_nodup := h.delivered_nodup_complete hlt
    recvBuf := fun d c ↦ ?_
    jam := h.jam
    order := fun v x ↦ ?_
    order_live := fun v x q hq ↦ ?_
    partly := fun m' hm' hpos hnot ↦ ?_
    ordered := h.ordered_complete hm hlast hfirst
    jam_live := fun d c hne ↦ ?_ }
  · -- Delivered are those that were, and `m`, whose last packet has arrived.
    rcases g.mem_delivered_complete m |>.mp hm' with hm' | ⟨rfl, hdc⟩
    · exact h.delivered_live_advance hm hlt hm'
    · obtain ⟨rfl, rfl⟩ := Prod.mk.inj hdc
      exact ⟨hm, rfl, rfl, (g.arrived_advance_self m').trans hlast⟩
  · by_cases hdc : (d, c) = (m.dst, m.cha)
    · obtain ⟨rfl, rfl⟩ := Prod.mk.inj hdc
      have hjam' : (g.complete m).jam m.dst m.cha = [] := hjam
      rw [hself, h.recvBuf, hjam, hjam', g.delivered_complete_self]
      simp
    · rw [hframe.recvBuf d c hdc, h.recvBuf, g.delivered_complete_ne m hdc]
      rfl
  · -- The list of `m` is empty now, or was never used. The others hold no packet of `m`.
    by_cases hkey : (v, x) = (b.home m.dst, m.xmtid)
    · obtain ⟨rfl, rfl⟩ := Prod.mk.inj hkey
      rcases hown with ⟨hnil, -⟩ | ⟨hzero, hsame⟩
      · exact .inl hnil
      · rw [hsame]
        exact h.orderOk_advance hm (g.complete m) rfl rfl (fun _ _ ↦ id) (.inr hzero) (h.order _ _)
    · rw [hframe.order v x hkey]
      exact h.orderOk_advance hm (g.complete m) rfl rfl (fun _ _ ↦ id) (.inl hkey) (h.order _ _)
  · obtain ⟨m', hm', hnot, hpos, hqm, hx, hv, hne⟩ :=
      h.order_live_of_ne hm hframe (hown.imp_left And.left) hq
    exact ⟨m', hm', fun hmem ↦ (g.mem_delivered_complete m |>.mp hmem).elim hnot (hne ·.1), hpos,
      hqm, hx, hv⟩
  · have hne : m' ≠ m := by
      rintro rfl
      exact hnot (by simp)
    -- Another message in part has its first packet in a list that `m` has not emptied.
    refine h.partly_advance hm hframe hm' hne hpos
      (fun hmem ↦ hnot (g.mem_delivered_complete m |>.mpr (.inl hmem))) fun hmem ↦ ?_
    rcases hown with ⟨-, hall⟩ | ⟨-, hsame⟩
    · exact absurd hmem (h.not_mem_of_forall_mem_packetsOf hm hm' hne hall)
    · exact hsame ▸ hmem
  · have hdc : (d, c) ≠ (m.dst, m.cha) := by
      rintro hdc
      obtain ⟨rfl, rfl⟩ := Prod.mk.inj hdc
      exact hne hjam
    rw [g.delivered_complete_ne m hdc]
    exact h.jam_live d c hne

/-! ## The message is still in parts -/

/-- A packet that extends the order list of its message without completing it. -/
theorem part (hlt : g.arrived m.serial + 1 < b.count m)
    (hself : w'.recvBuf m.dst m.cha = w.recvBuf m.dst m.cha)
    (hown : w'.order (b.home m.dst) m.xmtid = (b.packetsOf m).take (g.arrived m.serial + 1))
    (hall : ∀ q ∈ w.order (b.home m.dst) m.xmtid, q ∈ b.packetsOf m) :
    Carries b K (g.advance m) w' := by
  refine {
    sized := h.sized
    serials := h.serials
    travel := hframe.travel
    arrived_le := fun m' hm' ↦ h.arrived_advance_le hm (by omega) hm'
    delivered_live := fun d c m' hm' ↦ h.delivered_live_advance hm (by omega) hm'
    delivered_nodup := h.delivered_nodup
    recvBuf := fun d c ↦ ?_
    jam := h.jam
    order := fun v x ↦ ?_
    order_live := fun v x q hq ↦ ?_
    partly := fun m' hm' hpos hnot ↦ ?_
    ordered := fun hK f ↦ h.ordered_advance hm (by omega) (fun _ ↦ hlt) hK f
    jam_live := h.jam_live }
  · by_cases hdc : (d, c) = (m.dst, m.cha)
    · obtain ⟨rfl, rfl⟩ := Prod.mk.inj hdc
      exact hself.trans (h.recvBuf _ _)
    · exact (hframe.recvBuf d c hdc).trans (h.recvBuf d c)
  · by_cases hkey : (v, x) = (b.home m.dst, m.xmtid)
    · obtain ⟨rfl, rfl⟩ := Prod.mk.inj hkey
      -- Its own order list has one packet of `m` more.
      refine .inr (.inl ⟨m, hm, rfl, rfl, ?_⟩)
      rw [g.arrived_advance_self]
      exact ⟨Nat.succ_pos _, hlt, hown⟩
    · rw [hframe.order v x hkey]
      exact h.orderOk_advance hm (g.advance m) rfl rfl (fun _ _ ↦ id) (.inl hkey) (h.order _ _)
  · by_cases hkey : (v, x) = (b.home m.dst, m.xmtid)
    · obtain ⟨rfl, rfl⟩ := Prod.mk.inj hkey
      refine ⟨m, hm, h.not_delivered (by omega), ?_, List.mem_of_mem_take (hown ▸ hq), rfl, rfl⟩
      rw [g.arrived_advance_self]
      exact Nat.succ_pos _
    · exact h.order_live_advance hm hframe hkey hq
  · by_cases hne : m' = m
    · subst hne
      refine .inr ?_
      rw [hown, Bus.packetsOf_eq_cons (by omega), List.take_succ_cons]
      exact List.mem_cons_self
    · exact h.partly_advance hm hframe hm' hne hpos hnot fun hmem ↦
        absurd hmem (h.not_mem_of_forall_mem_packetsOf hm hm' hne hall)

/-! ## The list is spoilt

A packet `p` of `m` meets a jam or spoils its order list: `packs` join the jam, and `l` is what is
left in the order list.
-/

section Spoilt

variable {packs l : List MsgPack} {p : MsgPack} (hK : K)
  (hkeyed : g.Keyed b) (hp : p ∈ b.packetsOf m) (hown : w'.order (b.home m.dst) m.xmtid = l)
  (hl : ∀ q ∈ l, q = p ∨ q ∈ w.order (b.home m.dst) m.xmtid)
  (hbad : Jammed (g.jam m.dst m.cha ++ packs) ∨
    (g.jam m.dst m.cha ++ packs = [] ∧ Jammed l ∧ p ∈ l ∧
      ∀ q ∈ w.order (b.home m.dst) m.xmtid, q ∈ l))

include hlt hp hl in
omit hframe in
/-- What is left in the order list is of messages in part. -/
theorem order_live_spoil {q : MsgPack} (hq : q ∈ l) : ∃ m' ∈ g.live,
    m' ∉ g.delivered m'.dst m'.cha ∧ 0 < (g.advance m).arrived m'.serial ∧ q ∈ b.packetsOf m' ∧
    m'.xmtid = m.xmtid ∧ b.home m'.dst = b.home m.dst := by
  rcases hl q hq with rfl | hq
  · exact ⟨m, hm, h.not_delivered hlt, by simp, hp, rfl, rfl⟩
  · obtain ⟨m', hm', hnot, hpos, hrest⟩ := h.order_live _ _ q hq
    exact ⟨m', hm', hnot, h.arrived_pos_advance hm hm' hpos, hrest⟩

include hlt hK hkeyed hp hown hl hbad in
theorem orderOk_spoil (v : BusNodeT) (x : XmitIDT) :
    OrderOk b K (g.spoil m packs) v x (w'.order v x) := by
  by_cases hkey : (v, x) = (b.home m.dst, m.xmtid)
  · obtain ⟨rfl, rfl⟩ := Prod.mk.inj hkey
    rw [hown]
    rcases hbad with hbad | ⟨-, hbad, -⟩
    · cases hcase : l with
      | nil => exact .inl rfl
      | cons q l' =>
        -- the list holds a packet for the port and channel of the jam
        refine .inr (.inr ⟨hK, .inr ⟨q, by simp, ?_⟩⟩)
        obtain ⟨m', hm', -, -, hq, hx, hv⟩ :=
          h.order_live_spoil hm hlt hp hl (q := q) (by simp [hcase])
        obtain ⟨hd, hc⟩ := hkeyed m' hm' m hm hx hv
        obtain ⟨i, -, rfl⟩ := Bus.mem_packetsOf.mp hq
        change (g.spoil m packs).jam m'.dst m'.cha ≠ []
        rw [hd, hc, g.jam_spoil_self]
        exact hbad.ne_nil
    · exact .inr (.inr ⟨hK, .inl hbad⟩)
  · rw [hframe.order v x hkey]
    exact h.orderOk_advance hm (g.spoil m packs) rfl rfl (fun _ _ ↦ g.jam_spoil_ne_nil m packs)
      (.inl hkey) (h.order _ _)

include hkeyed hown hbad in
theorem partly_spoil (hzero : g.arrived m.serial = 0 → p = b.pack m 0) {m' : Message}
    (hm' : m' ∈ g.live) (hpos : 0 < (g.advance m).arrived m'.serial)
    (hnot : m' ∉ g.delivered m'.dst m'.cha) : (g.spoil m packs).jam m'.dst m'.cha ≠ [] ∨
      b.pack m' 0 ∈ w'.order (b.home m'.dst) m'.xmtid := by
  rcases hbad with hbad | ⟨-, -, hpl, hall⟩
  · by_cases hkey : (b.home m'.dst, m'.xmtid) = (b.home m.dst, m.xmtid)
    · obtain ⟨hv, hx⟩ := Prod.mk.inj hkey
      obtain ⟨hd, hc⟩ := hkeyed m' hm' m hm hx hv
      rw [hd, hc, g.jam_spoil_self]
      exact .inl hbad.ne_nil
    · have hne : m' ≠ m := by
        rintro rfl
        exact hkey rfl
      have hpos' : 0 < g.arrived m'.serial := h.arrived_advance hm hm' hne ▸ hpos
      rw [hframe.order _ _ hkey]
      exact (h.partly m' hm' hpos' hnot).imp_left (g.jam_spoil_ne_nil m packs)
  · by_cases hne : m' = m
    · subst hne
      rw [hown]
      by_cases hz : g.arrived m'.serial = 0
      · exact .inr (hzero hz ▸ hpl)
      · exact (h.partly m' hm' (Nat.pos_of_ne_zero hz) hnot).imp (g.jam_spoil_ne_nil m' packs)
          (hall _)
    · exact (h.partly_advance hm hframe hm' hne hpos hnot fun hmem ↦ hown ▸ hall _ hmem).imp_left
        (g.jam_spoil_ne_nil m packs)

include hlt hK hkeyed hp hown hl hbad in
theorem spoil (hzero : g.arrived m.serial = 0 → p = b.pack m 0)
    (hself : w'.recvBuf m.dst m.cha = w.recvBuf m.dst m.cha ++ packs) :
    Carries b K (g.spoil m packs) w' := by
  -- What is spoilt is the part of the ledger for the port and channel of `m`; orders are not
  -- promised any more.
  refine {
    sized := h.sized
    serials := h.serials
    travel := hframe.travel
    arrived_le := fun m' hm' ↦ h.arrived_advance_le hm hlt hm'
    delivered_live := fun d c m' hm' ↦ h.delivered_live_advance hm hlt hm'
    delivered_nodup := h.delivered_nodup
    recvBuf := fun d c ↦ ?_
    jam := fun d c ↦ ?_
    order := h.orderOk_spoil hm hlt hframe hK hkeyed hp hown hl hbad
    order_live := fun v x q hq ↦ ?_
    partly := fun m' hm' hpos hnot ↦
      h.partly_spoil hm hframe hkeyed hown hbad hzero hm' hpos hnot
    ordered := fun hK' ↦ absurd hK hK'
    jam_live := fun d c hne ↦ ?_ }
  · by_cases hdc : (d, c) = (m.dst, m.cha)
    · obtain ⟨rfl, rfl⟩ := Prod.mk.inj hdc
      rw [hself, h.recvBuf, g.jam_spoil_self, List.append_assoc]
      rfl
    · rw [hframe.recvBuf d c hdc, h.recvBuf, g.jam_spoil_ne m packs hdc]
      rfl
  · by_cases hdc : (d, c) = (m.dst, m.cha)
    · obtain ⟨rfl, rfl⟩ := Prod.mk.inj hdc
      rw [g.jam_spoil_self]
      rcases hbad with hbad | ⟨hnil, -⟩
      · exact .inr ⟨hK, hbad⟩
      · exact .inl hnil
    · rw [g.jam_spoil_ne m packs hdc]
      exact h.jam d c
  · by_cases hkey : (v, x) = (b.home m.dst, m.xmtid)
    · obtain ⟨rfl, rfl⟩ := Prod.mk.inj hkey
      exact h.order_live_spoil hm hlt hp hl (hown ▸ hq)
    · exact h.order_live_advance hm hframe hkey hq
  · by_cases hdc : (d, c) = (m.dst, m.cha)
    · obtain ⟨rfl, rfl⟩ := Prod.mk.inj hdc
      exact ⟨m, hm, rfl, rfl, h.not_delivered hlt⟩
    · rw [g.jam_spoil_ne m packs hdc] at hne
      exact h.jam_live d c hne

end Spoilt

/-! ## The arrival -/

omit hm hframe in
theorem arrive (hb : b.WellFormed) (hmode : K ∨ g.Distinct b) (hkeyed : K → g.Keyed b)
    {p : MsgPack} {t : List MsgPack} (hp : w.travel p.flow = p :: t) :
    ∃ g', g'.live = g.live ∧
      Carries b K g' ((w.setTravel p.flow t).deliver (b.home p.dst) p) := by
  obtain ⟨m, hm, hf, hlt, hpack, hfirst, htravel⟩ := h.travel_head hp
  have hsized := h.sized m hm
  have hmem : p ∈ b.packetsOf m := Bus.mem_packetsOf.mpr ⟨_, hlt, hpack.symm⟩
  have hcnt : p.pacCnt = b.count m := by rw [hpack, hsized.pack_pacCnt]
  have hzero : g.arrived m.serial = 0 → p = b.pack m 0 := fun hz ↦ by rw [hpack, hz]
  obtain ⟨hd, hc, hx⟩ : p.dst = m.dst ∧ p.cha = m.cha ∧ p.xmtid = m.xmtid := by
    rw [hpack]
    exact ⟨rfl, rfl, rfl⟩
  rw [← hf] at hfirst
  rw [View.deliver]
  split_ifs with hone hwhole
  · -- A single packet bypasses the order buffer.
    have hone' : b.count m = 1 := by
      have := hsized.count_pos hb
      omega
    have harr : g.arrived m.serial = 0 := by omega
    -- Behind a jam even a whole message only makes the jam longer.
    by_cases hjam : g.jam m.dst m.cha = []
    · have hpackets : b.packetsOf m = [p] := by
        rw [hzero harr, Bus.packetsOf, hone']
        rfl
      refine ⟨g.complete m, rfl, h.complete hm ⟨htravel, ?_, fun _ _ _ ↦ rfl⟩ (by omega) hjam
        hfirst ?_ (.inr ⟨harr, rfl⟩)⟩
      · intro d c hdc
        exact View.recvBuf_append_ne _ _ _ _ (by rwa [hd, hc])
      · simp [hd, hc, hpackets]
    · have hjam' := (h.jam m.dst m.cha).resolve_left hjam
      refine ⟨g.spoil m [p], rfl, h.spoil hm hlt ?_ hjam'.1 (hkeyed hjam'.1) hmem rfl
        (fun q hq ↦ .inr hq) (.inl (hjam'.2.append [p])) hzero ?_⟩
      · refine ⟨htravel, fun d c hdc ↦ ?_, fun _ _ _ ↦ rfl⟩
        exact View.recvBuf_append_ne _ _ _ _ (by rwa [hd, hc])
      · simp [hd, hc]
  · -- The order list has as many packets as the message.
    have hcases := h.orderInsert_cases hm hlt (by omega) hmode hkeyed
    rw [← hpack] at hcases
    rw [View.order_setTravel, hd, hx] at hwhole ⊢
    rw [hc]
    rcases hcases with ⟨hjam, hlist, hall⟩ | ⟨hK, hbad⟩
    · have hlast : g.arrived m.serial + 1 = b.count m := by
        rw [hlist, List.length_take, Bus.length_packetsOf] at hwhole
        omega
      -- The list has become the message: it goes to the receive buffer.
      have htake : (b.packetsOf m).take (g.arrived m.serial + 1) = b.packetsOf m :=
        List.take_of_length_le (by rw [Bus.length_packetsOf]; omega)
      refine ⟨g.complete m, rfl, h.complete hm ⟨htravel, ?_, ?_⟩ hlast hjam hfirst ?_
        (.inl ⟨by simp, hall⟩)⟩
      · exact fun d c hdc ↦ View.recvBuf_append_ne _ _ _ _ hdc
      · exact fun v x hkey ↦ View.order_setOrder_ne _ _ _ _ hkey
      · simp [hlist, htake]
    · refine ⟨g.spoil m _, rfl, h.spoil hm hlt ?_ hK (hkeyed hK) hmem
        (View.order_setOrder_self _ _ _ _) ?_ ?_ hzero (View.recvBuf_append_self _ _ _ _)⟩
      · exact ⟨htravel, fun d c hdc ↦ View.recvBuf_append_ne _ _ _ _ hdc,
          fun v x hkey ↦ View.order_setOrder_ne _ _ _ _ hkey⟩
      · simp
      · left
        rcases h.jam m.dst m.cha with hjam | ⟨-, hjam⟩
        · rw [hjam, List.nil_append]
          exact hbad.resolve_left (not_not.mpr hjam)
        · exact hjam.append _
  · -- The order list is still incomplete, or longer than the message.
    have hcases := h.orderInsert_cases hm hlt (by omega) hmode hkeyed
    rw [← hpack] at hcases
    rw [View.order_setTravel, hd, hx] at hwhole ⊢
    rcases hcases with ⟨hjam, hlist, hall⟩ | ⟨hK, hbad⟩
    · have hlast : g.arrived m.serial + 1 < b.count m := by
        rw [hlist, List.length_take, Bus.length_packetsOf] at hwhole
        omega
      refine ⟨g.advance m, rfl, h.part hm ⟨htravel, fun _ _ _ ↦ rfl, ?_⟩ hlast rfl ?_ hall⟩
      · exact fun v x hkey ↦ View.order_setOrder_ne _ _ _ _ hkey
      · simp [hlist]
    · refine ⟨g.spoil m [], rfl, h.spoil hm hlt ?_ hK (hkeyed hK) hmem
        (View.order_setOrder_self _ _ _ _) ?_ ?_ hzero (by simp)⟩
      · exact ⟨htravel, fun _ _ _ ↦ rfl, fun v x hkey ↦ View.order_setOrder_ne _ _ _ _ hkey⟩
      · exact fun q hq ↦ mem_orderInsert.mp hq
      · rw [List.append_nil]
        rcases h.jam m.dst m.cha with hjam | ⟨-, hjam⟩
        · exact .inr ⟨hjam, hbad.resolve_left (not_not.mpr hjam), mem_orderInsert.mpr (.inl rfl),
            fun q hq ↦ mem_orderInsert.mpr (.inr hq)⟩
        · exact .inl hjam

end Carries

end Simbus
