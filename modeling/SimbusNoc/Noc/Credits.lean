import SimbusNoc.Noc.Reliability

/-!
# Destination credits

With bounded reception, the reservation counter of a port and channel counts the messages for it
that are anywhere in the network, and these are never more than the slots.

## Messages and packets

The ledger counts live messages. The counter is exact in a stronger sense: the messages it counts
are those of which a packet can be found somewhere in the network, in a send buffer, a pipeline, a
register, an order list or a receive buffer. So the first part lists all packets of the network,
shows that none is listed twice (`nodup_network`), and that the messages with a packet in the list
are the live ones (`serials_networkAt`). A bound on the number of packets for a port follows, from
the slots and the size limit.

## Which runs

The credits are exact in every run in which no message of several packets is accepted under an id
that another such message for the same node still occupies. When ids are reused too early this can
fail, which another module shows by a run.
-/

namespace Simbus

open Stages

namespace Bus

variable (b : Bus)

/-! ## The packets of the network

`network` lists every packet that is in the network, from the send buffers to the receive buffers,
with the order lists in between.
-/

/-- The packets in the order buffers. -/
def ordering (s : BusState) : List MsgPack :=
  b.nodeIds.flatMap fun v ↦ (s.nodes v).orderBuf.flatMap Prod.snd

/-- The packets in the receive buffers. -/
def waiting (s : BusState) : List MsgPack :=
  (b.port2node.map Prod.fst).flatMap fun p ↦
    (List.range b.chaCnt).flatMap fun c ↦ (s.ports p).recvBuf c

/-- Every packet anywhere in the network. -/
def network (s : BusState) : List MsgPack :=
  b.allStages.flatMap s.contents ++ (b.ordering s ++ b.waiting s)

/-- The packets of messages for one port and channel anywhere in the network. -/
def networkAt (s : BusState) (d : BusPortT) (c : ChannelT) : List MsgPack :=
  (b.network s).filter fun p ↦ decide (p.dst = d ∧ p.cha = c)

variable {b} {g : Ledger} {s : BusState}

theorem nodup_allStages (hb : b.WellFormed) : b.allStages.Nodup := by
  refine List.nodup_append.mpr ⟨List.nodup_append.mpr ⟨?_, ?_, ?_⟩, ?_, ?_⟩
  · refine List.nodup_flatMap.mpr ⟨fun p _ ↦ ?_, hb.portIds_nodup.imp fun hne y hy hy' ↦ ?_⟩
    · exact List.nodup_range.map fun _ _ h ↦ (Stage.queue.inj h).2
    · obtain ⟨_, -, rfl⟩ := List.mem_map.mp hy
      obtain ⟨_, -, heq⟩ := List.mem_map.mp hy'
      exact hne (Stage.queue.inj heq).1.symm
  · exact hb.nodes_nodup.map fun _ _ h ↦ Stage.pipe.inj h
  · intro y hy z hz
    obtain ⟨p, -, hy⟩ := List.mem_flatMap.mp hy
    obtain ⟨c, -, rfl⟩ := List.mem_map.mp hy
    obtain ⟨v, -, rfl⟩ := List.mem_map.mp hz
    simp
  · refine List.nodup_flatMap.mpr ⟨fun e _ ↦ ?_, hb.edges_nodup.imp fun hne y hy hy' ↦ ?_⟩
    · refine List.nodup_flatMap.mpr ⟨fun c _ ↦ by simp, List.nodup_range.imp fun hne y hy hy' ↦ ?_⟩
      simp only [List.mem_cons, List.not_mem_nil, or_false] at hy hy'
      rcases hy with rfl | rfl <;> simp_all
    · obtain ⟨c, -, hy⟩ := List.mem_flatMap.mp hy
      obtain ⟨c', -, hy'⟩ := List.mem_flatMap.mp hy'
      simp only [List.mem_cons, List.not_mem_nil, or_false] at hy hy'
      rcases hy with rfl | rfl <;> simp_all
  · intro y hy z hz
    obtain ⟨e, -, hz⟩ := List.mem_flatMap.mp hz
    obtain ⟨c, -, hz⟩ := List.mem_flatMap.mp hz
    simp only [List.mem_cons, List.not_mem_nil, or_false] at hz
    rcases List.mem_append.mp hy with hy | hy
    · obtain ⟨p, -, hy⟩ := List.mem_flatMap.mp hy
      obtain ⟨c, -, rfl⟩ := List.mem_map.mp hy
      rcases hz with rfl | rfl <;> simp
    · obtain ⟨v, -, rfl⟩ := List.mem_map.mp hy
      rcases hz with rfl | rfl <;> simp

theorem nodup_packetsOf {m : Message} (hm : b.Sized m) : (b.packetsOf m).Nodup := by
  refine List.Nodup.map_on (fun i hi j hj heq ↦ ?_) List.nodup_range
  rw [List.mem_range] at hi hj
  rw [← hm.pack_pacIdx hi, heq, hm.pack_pacIdx hj]

/-! ## Where the packets of a message are

Each place of the network is read off the ledger: what is on the way belongs to messages that have
not arrived as a whole, what lies in an order list to messages in part, and what lies in a receive
buffer to delivered ones. So a packet is in one place, once.
-/

namespace Inv

/-- A packet on its way belongs to a live message and has not arrived. -/
theorem mem_contents (h : b.Inv False g s) {y : Stage} {p : MsgPack} (hp : p ∈ s.contents y) :
    ∃ m ∈ g.live, ∃ i, g.arrived m.serial ≤ i ∧ i < b.count m ∧ p = b.pack m i := by
  have hmem : p ∈ (s.view b).travel p.flow :=
    mem_along.mpr ⟨by simp, y, h.placed.located y p hp, hp⟩
  rw [h.carries.travel] at hmem
  obtain ⟨m, hm, hpm⟩ := List.mem_flatMap.mp hmem
  obtain ⟨i, hi, rfl⟩ := List.mem_iff_getElem.mp hpm
  rw [List.length_drop, length_packetsOf] at hi
  exact ⟨m, (List.mem_filter.mp hm).1, g.arrived m.serial + i, by omega, by omega,
    by simp [packetsOf]⟩

/-- A packet in an order list belongs to a live message in part, and has arrived. -/
theorem mem_order (h : b.Inv False g s) {v : BusNodeT} {x : XmitIDT} {p : MsgPack}
    (hp : p ∈ orderList (s.nodes v).orderBuf x) :
    ∃ m ∈ g.live, g.arrived m.serial < b.count m ∧ m.xmtid = x ∧ b.home m.dst = v ∧
      orderList (s.nodes v).orderBuf x = (b.packetsOf m).take (g.arrived m.serial) ∧
      ∃ i < g.arrived m.serial, p = b.pack m i := by
  rcases h.carries.order v x with hnil | ⟨m, hm, hx, hv, -, hlt, hlist⟩ | ⟨hK, -⟩
  · change orderList _ _ = [] at hnil
    rw [hnil] at hp
    cases hp
  · change orderList _ _ = _ at hlist
    refine ⟨m, hm, hlt, hx, hv, hlist, ?_⟩
    rw [hlist] at hp
    obtain ⟨i, hi, rfl⟩ := List.mem_iff_getElem.mp hp
    rw [List.length_take, Nat.lt_min] at hi
    exact ⟨i, hi.1, by simp [packetsOf]⟩
  · exact hK.elim

theorem recvBuf_eq (h : b.Inv False g s) (d : BusPortT) (c : ChannelT) :
    (s.ports d).recvBuf c = (g.delivered d c).flatMap b.packetsOf := by
  have hbuf := h.carries.recvBuf d c
  rwa [(h.carries.jam d c).resolve_right fun h ↦ h.1, List.append_nil] at hbuf

theorem travel_nodup (h : b.Inv False g s) (f : Flow) : ((s.view b).travel f).Nodup := by
  rw [h.carries.travel]
  refine List.nodup_flatMap.mpr ⟨fun m hm ↦ ?_, ?_⟩
  · exact (nodup_packetsOf (h.carries.sized m (List.mem_filter.mp hm).1)).sublist
      (List.drop_sublist _ _)
  · refine (h.carries.serials.sublist List.filter_sublist).imp fun hlt p hp hp' ↦ ?_
    have := serial_of_mem_packetsOf (List.mem_of_mem_drop hp)
    have := serial_of_mem_packetsOf (List.mem_of_mem_drop hp')
    omega

theorem nodup_stages (hb : b.WellFormed) (h : b.Inv False g s) :
    (b.allStages.flatMap s.contents).Nodup := by
  refine List.nodup_flatMap.mpr ⟨fun y _ ↦ ?_, (nodup_allStages hb).imp fun hne p hp hp' ↦ ?_⟩
  · refine List.nodup_iff_sublist.mpr fun p hp ↦ ?_
    have hmem : p ∈ s.contents y := hp.subset List.mem_cons_self
    have hsub := hp.filter fun q ↦ decide (q.flow = p.flow)
    simp only [decide_true, List.filter_cons_of_pos, List.filter_nil] at hsub
    exact List.nodup_iff_sublist.mp (nodup_filter_of_along (h.travel_nodup p.flow)
      (h.placed.located y p hmem)) p hsub
  · exact hne (eq_of_mem_along (h.travel_nodup p.flow) (h.placed.located _ p hp)
      (h.placed.located _ p hp') (by simp) hp hp')

theorem pack_inj (h : b.Inv False g s) {m m' : Message} (hm : m ∈ g.live) (hm' : m' ∈ g.live)
    {i j : ℕ} (hi : i < b.count m) (hj : j < b.count m') (heq : b.pack m i = b.pack m' j) :
    m = m' ∧ i = j := by
  obtain rfl := h.carries.serial_inj hm hm' (congrArg MsgPack.serial heq)
  have hsized := h.carries.sized m hm
  exact ⟨rfl, by rw [← hsized.pack_pacIdx hi, heq, hsized.pack_pacIdx hj]⟩

theorem nodup_ordering (hb : b.WellFormed) (h : b.Inv False g s) : (b.ordering s).Nodup := by
  have hlist : ∀ v, ∀ e ∈ (s.nodes v).orderBuf, orderList (s.nodes v).orderBuf e.1 = e.2 :=
    fun v e he ↦ orderList_of_mem (h.placed.routers v).keys he
  refine List.nodup_flatMap.mpr ⟨fun v _ ↦ ?_, hb.nodes_nodup.imp fun hne p hp hp' ↦ ?_⟩
  · refine List.nodup_flatMap.mpr ⟨fun e he ↦ ?_, ?_⟩
    · obtain ⟨p, hp⟩ := List.exists_mem_of_ne_nil _ ((h.placed.routers v).filled e he)
      rw [← hlist v e he] at hp ⊢
      obtain ⟨m, hm, -, -, -, heq, -⟩ := h.mem_order hp
      rw [heq]
      exact (nodup_packetsOf (h.carries.sized m hm)).sublist (List.take_sublist _ _)
    · refine List.Pairwise.imp_of_mem (fun {e e'} he he' hne p hp hp' ↦ ?_)
        (List.pairwise_map.mp (h.placed.routers v).keys)
      rw [← hlist v e he] at hp
      rw [← hlist v e' he'] at hp'
      obtain ⟨m, hm, hlt, hx, -, -, i, hi, rfl⟩ := h.mem_order hp
      obtain ⟨m', hm', hlt', hx', -, -, j, hj, heq⟩ := h.mem_order hp'
      obtain ⟨rfl, -⟩ := h.pack_inj hm hm' (hi.trans hlt) (hj.trans hlt') heq
      exact hne (hx.symm.trans hx')
  · obtain ⟨e, he, hp⟩ := List.mem_flatMap.mp hp
    obtain ⟨e', he', hp'⟩ := List.mem_flatMap.mp hp'
    rw [← hlist _ e he] at hp
    rw [← hlist _ e' he'] at hp'
    obtain ⟨m, hm, hlt, -, hv, -, i, hi, rfl⟩ := h.mem_order hp
    obtain ⟨m', hm', hlt', -, hv', -, j, hj, heq⟩ := h.mem_order hp'
    obtain ⟨rfl, -⟩ := h.pack_inj hm hm' (hi.trans hlt) (hj.trans hlt') heq
    exact hne (hv.symm.trans hv')

theorem nodup_waiting (hb : b.WellFormed) (h : b.Inv False g s) : (b.waiting s).Nodup := by
  have hdst : ∀ d c, ∀ p ∈ (s.ports d).recvBuf c, p.dst = d ∧ p.cha = c := by
    intro d c p hp
    rw [h.recvBuf_eq] at hp
    obtain ⟨m, hm, hpm⟩ := List.mem_flatMap.mp hp
    obtain ⟨-, rfl, rfl, -⟩ := h.carries.delivered_live d c m hm
    obtain ⟨i, -, rfl⟩ := mem_packetsOf.mp hpm
    exact ⟨rfl, rfl⟩
  refine List.nodup_flatMap.mpr ⟨fun d _ ↦ ?_, hb.portIds_nodup.imp fun hne p hp hp' ↦ ?_⟩
  · refine List.nodup_flatMap.mpr ⟨fun c _ ↦ ?_, List.nodup_range.imp fun hne p hp hp' ↦ ?_⟩
    · rw [h.recvBuf_eq]
      refine List.nodup_flatMap.mpr ⟨fun m hm ↦ ?_, ?_⟩
      · exact nodup_packetsOf (h.carries.sized m (h.carries.delivered_live d c m hm).1)
      · refine List.Pairwise.imp_of_mem (fun {m m'} hm hm' hne p hp hp' ↦ hne ?_)
          (h.carries.delivered_nodup d c)
        exact h.carries.serial_inj (h.carries.delivered_live d c m hm).1
          (h.carries.delivered_live d c m' hm').1
          ((serial_of_mem_packetsOf hp).symm.trans (serial_of_mem_packetsOf hp'))
    · exact hne ((hdst d _ p hp).2.symm.trans (hdst d _ p hp').2)
  · obtain ⟨c, -, hp⟩ := List.mem_flatMap.mp hp
    obtain ⟨c', -, hp'⟩ := List.mem_flatMap.mp hp'
    exact hne ((hdst _ c p hp).1.symm.trans (hdst _ c' p hp').1)

/-- A waiting packet belongs to a message that has arrived as a whole. -/
theorem mem_recvBuf (h : b.Inv False g s) {d : BusPortT} {c : ChannelT} {p : MsgPack}
    (hp : p ∈ (s.ports d).recvBuf c) :
    ∃ m ∈ g.live, g.arrived m.serial = b.count m ∧ ∃ i < b.count m, p = b.pack m i := by
  rw [h.recvBuf_eq] at hp
  obtain ⟨m, hm, hpm⟩ := List.mem_flatMap.mp hp
  obtain ⟨hlive, -, -, hfull⟩ := h.carries.delivered_live d c m hm
  obtain ⟨i, hi, rfl⟩ := mem_packetsOf.mp hpm
  exact ⟨m, hlive, hfull, i, hi, rfl⟩

theorem nodup_network (hb : b.WellFormed) (h : b.Inv False g s) : (b.network s).Nodup := by
  have horder : ∀ p ∈ b.ordering s, ∃ m ∈ g.live, g.arrived m.serial < b.count m ∧
      ∃ i < g.arrived m.serial, p = b.pack m i := by
    intro p hp
    obtain ⟨v, -, hp⟩ := List.mem_flatMap.mp hp
    obtain ⟨e, he, hp⟩ := List.mem_flatMap.mp hp
    rw [← orderList_of_mem (h.placed.routers v).keys he] at hp
    obtain ⟨m, hm, hlt, -, -, -, i, hi, rfl⟩ := h.mem_order hp
    exact ⟨m, hm, hlt, i, hi, rfl⟩
  have hwait : ∀ p ∈ b.waiting s, ∃ m ∈ g.live, g.arrived m.serial = b.count m ∧
      ∃ i < b.count m, p = b.pack m i := by
    intro p hp
    obtain ⟨d, -, hp⟩ := List.mem_flatMap.mp hp
    obtain ⟨c, -, hp⟩ := List.mem_flatMap.mp hp
    exact h.mem_recvBuf hp
  refine List.nodup_append.mpr ⟨h.nodup_stages hb, List.nodup_append.mpr ⟨h.nodup_ordering hb,
    h.nodup_waiting hb, ?_⟩, ?_⟩
  · rintro p hp _ hp' rfl
    obtain ⟨m, hm, hlt, i, hi, rfl⟩ := horder p hp
    obtain ⟨m', hm', hfull, j, hj, heq⟩ := hwait _ hp'
    obtain ⟨rfl, -⟩ := h.pack_inj hm hm' (hi.trans hlt) hj heq
    omega
  · rintro p hp _ hp' rfl
    obtain ⟨y, -, hp⟩ := List.mem_flatMap.mp hp
    obtain ⟨m, hm, i, hle, hi, rfl⟩ := h.mem_contents hp
    rcases List.mem_append.mp hp' with hp' | hp'
    · obtain ⟨m', hm', hlt, j, hj, heq⟩ := horder _ hp'
      obtain ⟨rfl, rfl⟩ := h.pack_inj hm hm' hi (hj.trans hlt) heq
      omega
    · obtain ⟨m', hm', hfull, j, hj, heq⟩ := hwait _ hp'
      obtain ⟨rfl, rfl⟩ := h.pack_inj hm hm' hi hj heq
      omega

/-- The list of the network's packets leaves none out. -/
theorem mem_network (hb : b.WellFormed) (h : b.Inv False g s) {p : MsgPack} :
    p ∈ b.network s ↔ InNetwork s p := by
  rw [network, List.mem_append, List.mem_append]
  constructor
  · rintro (hp | hp | hp)
    · obtain ⟨y, -, hp⟩ := List.mem_flatMap.mp hp
      exact .travelling y hp
    · obtain ⟨v, -, hp⟩ := List.mem_flatMap.mp hp
      obtain ⟨e, he, hp⟩ := List.mem_flatMap.mp hp
      exact .ordering v e he hp
    · obtain ⟨d, -, hp⟩ := List.mem_flatMap.mp hp
      obtain ⟨c, -, hp⟩ := List.mem_flatMap.mp hp
      exact .waiting d c hp
  · rintro (⟨y, hp⟩ | ⟨v, e, he, hp⟩ | ⟨d, c, hp⟩)
    · exact .inl (List.mem_flatMap.mpr ⟨y, h.placed.mem_allStages hb hp, hp⟩)
    · refine .inr (.inl (List.mem_flatMap.mpr ⟨v, ?_, List.mem_flatMap.mpr ⟨e, he, hp⟩⟩))
      rw [← orderList_of_mem (h.placed.routers v).keys he] at hp
      obtain ⟨m, hm, -, -, rfl, -⟩ := h.mem_order hp
      exact hb.home_mem _ (h.carries.sized m hm).dst
    · have hp' := hp
      rw [h.recvBuf_eq] at hp'
      obtain ⟨m, hm, -⟩ := List.mem_flatMap.mp hp'
      obtain ⟨hlive, rfl, rfl, -⟩ := h.carries.delivered_live d c m hm
      have hsized := h.carries.sized m hlive
      refine .inr (.inr (List.mem_flatMap.mpr ⟨m.dst, ?_, List.mem_flatMap.mpr
        ⟨m.cha, List.mem_range.mpr hsized.cha, hp⟩⟩))
      simpa [knownPort] using hsized.dst

/-! ## Counting messages and packets -/

theorem serials_networkAt (hb : b.WellFormed) (h : b.Inv False g s) (d : BusPortT) (c : ChannelT) :
    ((b.networkAt s d c).map MsgPack.serial).dedup.length = g.live.countP (addressed d c) := by
  have hserials : (g.live.map Message.serial).Nodup :=
    List.pairwise_map.mpr (h.carries.serials.imp fun hlt ↦ hlt.ne)
  have hnodup : ((g.live.filter (addressed d c)).map Message.serial).Nodup :=
    hserials.sublist (List.filter_sublist.map _)
  rw [List.countP_eq_length_filter, ← List.length_map (f := Message.serial)]
  refine ((List.perm_ext_iff_of_nodup (List.nodup_dedup _) hnodup).mpr fun n ↦ ?_).length_eq
  simp only [List.mem_dedup, List.mem_map, networkAt, List.mem_filter, h.mem_network hb,
    decide_eq_true_eq, addressed]
  constructor
  · rintro ⟨p, ⟨hp, hd, hc⟩, rfl⟩
    obtain ⟨m, hm, hpm⟩ := h.live_of_inNetwork hp
    obtain ⟨i, -, rfl⟩ := mem_packetsOf.mp hpm
    exact ⟨m, ⟨hm, hd, hc⟩, rfl⟩
  · rintro ⟨m, ⟨hm, hd, hc⟩, rfl⟩
    obtain ⟨p, hpm, hp⟩ := h.inNetwork_of_live hb hm
    obtain ⟨i, -, rfl⟩ := mem_packetsOf.mp hpm
    exact ⟨_, ⟨hp, hd, hc⟩, rfl⟩

private theorem length_flatMap_le {l : List Message} {f : Message → List MsgPack} {n : ℕ}
    (h : ∀ m ∈ l, (f m).length ≤ n) : (l.flatMap f).length ≤ l.length * n := by
  induction l with
  | nil => simp
  | cons m l ih =>
    have hm := h m List.mem_cons_self
    have hl := ih fun m' hm' ↦ h m' (List.mem_cons_of_mem m hm')
    rw [List.flatMap_cons, List.length_append, List.length_cons, Nat.succ_mul]
    omega

/-- Each live message has no more packets in the network than it was cut into. -/
theorem length_networkAt_le (hb : b.WellFormed) (h : b.Inv False g s) (d : BusPortT) (c : ChannelT)
    {n : ℕ} (hn : ∀ m ∈ g.live, m.cha = c → b.count m ≤ n) :
    (b.networkAt s d c).length ≤ g.live.countP (addressed d c) * n := by
  have hsub : b.networkAt s d c ⊆ (g.live.filter (addressed d c)).flatMap b.packetsOf := by
    intro p hp
    simp only [networkAt, List.mem_filter, h.mem_network hb, decide_eq_true_eq] at hp
    obtain ⟨m, hm, hpm⟩ := h.live_of_inNetwork hp.1
    refine List.mem_flatMap.mpr ⟨m, List.mem_filter.mpr ⟨hm, ?_⟩, hpm⟩
    obtain ⟨i, -, rfl⟩ := mem_packetsOf.mp hpm
    exact decide_eq_true hp.2
  calc (b.networkAt s d c).length
      ≤ ((g.live.filter (addressed d c)).flatMap b.packetsOf).length :=
        (List.subperm_of_subset ((h.nodup_network hb).filter _) hsub).length_le
    _ ≤ (g.live.filter (addressed d c)).length * n := by
        refine length_flatMap_le fun m hm ↦ ?_
        obtain ⟨hm, haddr⟩ := List.mem_filter.mp hm
        rw [length_packetsOf]
        exact hn m hm (of_decide_eq_true haddr).2
    _ = g.live.countP (addressed d c) * n := by rw [List.countP_eq_length_filter]

end Inv

/-- A message within the size limit has at most as many packets as the limit rounded up. -/
theorem count_le_of_size (hb : b.WellFormed) {m : Message} (hm : b.Sized m)
    (hsize : m.data.length ≤ b.config.maxMessageBytes) :
    b.count m ≤
      max 1 ((b.config.maxMessageBytes + b.width m.cha - 1) / b.width m.cha) := by
  obtain ⟨hpos, -⟩ := width_bounds hb m.cha
  rw [count, pacCnt_eq hb m.cha hm.size]
  rcases Nat.eq_zero_or_pos m.data.length with hzero | hne
  · rw [hzero]
    refine (Nat.le_of_eq ?_).trans (Nat.le_max_left _ _)
    rw [show max 0 1 + b.width m.cha - 1 = b.width m.cha by omega, Nat.div_self hpos]
  · exact (Nat.div_le_div_right (by omega)).trans (Nat.le_max_right _ _)

/-! ## The credit invariant -/

/-- What holds of the credits after a run: no `recv` has found a counter at zero; the counter of a
port and channel is the number of messages accepted for it and not returned, which are the ones
with a packet in the network; it is within the slots, and so are the packets; and a `send` that does
not accept its message changes no counter, no send buffer and no transmission id. -/
structure CreditsOk (b : Bus) (events : List Event) (s : BusState) : Prop where
  noUnderflow : ∀ e ∈ events, e.2 ≠ .received (.thrown "destination credit underflow")
  reserved : ∀ d c, b.knownPort d = true → c < b.chaCnt → ∃ n, b.reservedMessages s d c = .ok n ∧
    events.countP (acceptedAt d c) = n + events.countP (returnedAt d c) ∧
    ((b.networkAt s d c).map MsgPack.serial).dedup.length = n ∧
    n ≤ b.config.receiveMessageSlots
  packets : ∀ d c, b.knownPort d = true → c < b.chaCnt → (b.networkAt s d c).length ≤
    b.config.receiveMessageSlots *
      max 1 ((b.config.maxMessageBytes + b.width c - 1) / b.width c)
  refused : ∀ port dst c data, (b.perform s (.send port dst c data)).1 ≠ .sent true →
    (∀ p, ((b.perform s (.send port dst c data)).2.ports p).reserved = (s.ports p).reserved ∧
      ((b.perform s (.send port dst c data)).2.ports p).sendBuf = (s.ports p).sendBuf) ∧
    (b.perform s (.send port dst c data)).2.xmtidAlloc = s.xmtidAlloc

theorem perform_send_refused {port dst : BusPortT} {c : ChannelT} {data : Bytes}
    (h : (b.perform s (.send port dst c data)).1 ≠ .sent true) :
    ∃ stats, (b.perform s (.send port dst c data)).2 = { s with stats := stats } := by
  cases hsend : b.send s port dst c data with
  | error e => exact ⟨s.stats, by simp [perform, hsend]⟩
  | ok result =>
    obtain ⟨accepted, s'⟩ := result
    simp only [perform, hsend] at h ⊢
    obtain ⟨-, -, -, ⟨-, hstats⟩ | ⟨rfl, -⟩⟩ := send_eq_ok hsend
    · exact hstats
    · exact absurd rfl h

/-- The credits are exact in every run in which no message of several packets is accepted under a
transmission id that another such message for the same node still has in the network. -/
theorem creditsOk_of_idFree {ord : HashOrder} {portIds : List BusPortT}
    {portToNode : List BusNodeT} {widths : List ℕ} {route : BusRouteTable} {config : NocConfig}
    (h : construct ord portIds portToNode widths route config = .ok b)
    (hslots : b.config.receiveMessageSlots ≠ 0) {calls : List Call}
    (hcalls : ∀ call ∈ calls, call.Known b (2 ^ 31 + 1)) (hfree : RunAll b (IdFree b) {} calls) :
    CreditsOk b (b.run {} calls).1 (b.run {} calls).2 := by
  have hb := construct_wellFormed h
  obtain ⟨g, hacc⟩ := runAll_accounts hb hcalls hfree
  obtain ⟨hslot, hmax⟩ := hacc.bounded (fun _ ↦ by simp) hslots
  refine ⟨fun e he hthrown ↦ ?_, fun d c hd hc ↦
    ⟨_, ?_, ?_, hacc.inv.serials_networkAt hb d c, hslot d c⟩,
    fun d c _ _ ↦ ?_, fun port dst c data hne ↦ ?_⟩
  · obtain ⟨call, outcome⟩ := e
    obtain rfl : outcome = _ := hthrown
    exact hacc.quiet _ he
  · rw [reservedMessages, validatePort_eq_ok (u := ()) |>.mpr hd,
      validateChannel_eq_ok (u := ()) |>.mpr hc]
    change Except.ok _ = _
    rw [hacc.inv.reserved, credits, if_neg hslots]
  · have := hacc.messages d c
    simp only [List.countP_nil] at this
    omega
  · refine (hacc.inv.length_networkAt_le hb d c fun m hm hmc ↦ ?_).trans
      (Nat.mul_le_mul_right _ (hslot d c))
    subst hmc
    exact count_le_of_size hb (hacc.inv.carries.sized m hm) (hmax m hm)
  · obtain ⟨stats, hstats⟩ := perform_send_refused hne
    rw [hstats]
    exact ⟨fun _ ↦ ⟨rfl, rfl⟩, rfl⟩

theorem creditsOk_of_idFree_pair :
    CreditsOk pairBus (pairBus.run {} pairCalls).1 (pairBus.run {} pairCalls).2 := by
  have hknown : ∀ call ∈ pairCalls, call.Known pairBus (2 ^ 31 + 1) := by decide +kernel
  have hfree := (Inv.init pairBus False).runAll_idFree (construct_wellFormed construct_pairBus)
    pairCalls (by simp [Ledger.Distinct]) hknown (by decide +kernel)
  exact creditsOk_of_idFree construct_pairBus (by decide) hknown hfree

end Bus

end Simbus
