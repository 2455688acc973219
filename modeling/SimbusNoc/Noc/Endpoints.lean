import SimbusNoc.Noc.Arrival

/-!
# Accepting and returning a message

The two ends of the account of `Carries`: an accepted message enters with all its packets in
transit, and a returned one leaves with all its packets from the front of a receive buffer.

An accepted message has a serial above those of all live ones, so it is the last of its flow and no
count of arrived packets speaks of it yet. A returned message is the first of the delivered ones of
its port and channel. It has arrived as a whole, so taking it out of the ledger takes nothing out
of what is in transit or in an order list.
-/

namespace Simbus

namespace Ledger

/-- `m` is accepted. -/
def accept (g : Ledger) (m : Message) : Ledger :=
  { g with
    live := g.live ++ [m]
    arrived := Function.update g.arrived m.serial 0 }

/-- `m`, the first delivered message of its port and channel, is returned. -/
def giveBack (g : Ledger) (m : Message) : Ledger :=
  { g with
    live := g.live.filter fun m' ↦ !(decide (m' = m))
    delivered := Function.update g.delivered m.dst
      (Function.update (g.delivered m.dst) m.cha (g.delivered m.dst m.cha).tail) }

variable (g : Ledger) (m : Message)

@[simp] theorem delivered_giveBack_self :
    (g.giveBack m).delivered m.dst m.cha = (g.delivered m.dst m.cha).tail := by
  simp [giveBack]

theorem delivered_giveBack_ne {d : BusPortT} {c : ChannelT} (h : (d, c) ≠ (m.dst, m.cha)) :
    (g.giveBack m).delivered d c = g.delivered d c := by
  by_cases hd : d = m.dst
  · subst hd
    have hc : c ≠ m.cha := fun hc ↦ h (by rw [hc])
    simp [giveBack, hc]
  · simp [giveBack, hd]

theorem mem_live_giveBack {m' : Message} :
    m' ∈ (g.giveBack m).live ↔ m' ∈ g.live ∧ m' ≠ m := by
  simp [giveBack]

theorem countP_live_giveBack (hnodup : g.live.Nodup) (hm : m ∈ g.live) (keep : Message → Bool) :
    g.live.countP keep = (g.giveBack m).live.countP keep + if keep m then 1 else 0 := by
  have herase : (g.giveBack m).live = g.live.erase m := by
    rw [hnodup.erase_eq_filter]
    exact List.filter_congr fun m' _ ↦ rfl
  rw [herase, (List.perm_cons_erase hm).countP_eq, List.countP_cons]

theorem mem_live_accept {m' : Message} : m' ∈ (g.accept m).live ↔ m' ∈ g.live ∨ m' = m := by
  simp [accept]

end Ledger

namespace Carries

variable {b : Bus} {K : Prop} {g : Ledger} {w : View} (h : Carries b K g w) {m : Message}
include h

theorem live_nodup : g.live.Nodup := h.serials.imp fun hlt heq ↦ by simp [heq] at hlt

/-! ## Accepting

A message that is accepted joins the live ones as the youngest of its flow, and all of its packets
are in transit behind those of the others.
-/

theorem accept (hb : b.WellFormed) (hm : b.Sized m)
    (hserial : ∀ m' ∈ g.live, m'.serial < m.serial) :
    Carries b K (g.accept m) (w.setTravel m.flow (w.travel m.flow ++ b.packetsOf m)) := by
  have hself : (g.accept m).arrived m.serial = 0 := by simp [Ledger.accept]
  have hother : ∀ m' ∈ g.live, (g.accept m).arrived m'.serial = g.arrived m'.serial := by
    intro m' hm'
    simp [Ledger.accept, (hserial m' hm').ne]
  have hnew : ∀ d c, m ∉ g.delivered d c := fun d c hmem ↦
    (hserial m (h.delivered_live d c m hmem).1).ne rfl
  -- The counts of the old messages are what they were, so their packets in transit are.
  have hold : ∀ f, ((g.live.filter fun m' ↦ decide (m'.flow = f)).flatMap fun m' ↦
      (b.packetsOf m').drop ((g.accept m).arrived m'.serial)) = w.travel f := by
    intro f
    rw [h.travel f]
    refine List.flatMap_congr fun m' hm' ↦ ?_
    rw [hother m' (List.mem_filter.mp hm').1]
  refine {
    sized := fun m' hm' ↦ ?_
    serials := List.pairwise_append.mpr ⟨h.serials, List.pairwise_singleton _ _, ?_⟩
    travel := fun f ↦ ?_
    arrived_le := fun m' hm' ↦ ?_
    delivered_live := fun d c m' hm' ↦ ?_
    delivered_nodup := h.delivered_nodup
    recvBuf := h.recvBuf
    jam := h.jam
    order := fun v x ↦ ?_
    order_live := fun v x p hp ↦ ?_
    partly := fun m' hm' hpos hnot ↦ ?_
    ordered := fun hK f ↦ ?_
    jam_live := fun d c hne ↦ ?_ }
  · rcases g.mem_live_accept m |>.mp hm' with hm' | rfl
    · exact h.sized m' hm'
    · exact hm
  · intro m' hm' m'' hm''
    obtain rfl := List.mem_singleton.mp hm''
    exact hserial m' hm'
  · -- The packets of `m` come behind all others of its flow, and no other flow changes.
    change _ = ((g.live ++ [m]).filter fun m' ↦ decide (m'.flow = f)).flatMap fun m' ↦
      (b.packetsOf m').drop ((g.accept m).arrived m'.serial)
    rw [List.filter_append, List.flatMap_append, hold f]
    by_cases hf : f = m.flow
    · subst hf
      simp [hself]
    · rw [View.travel_setTravel_ne _ _ _ hf]
      simp [Ne.symm hf]
  · rcases g.mem_live_accept m |>.mp hm' with hm' | rfl
    · rw [hother m' hm']
      exact h.arrived_le m' hm'
    · rw [hself]
      exact Nat.zero_le _
  · obtain ⟨hl, hd, hc, harr⟩ := h.delivered_live d c m' hm'
    exact ⟨g.mem_live_accept m |>.mpr (.inl hl), hd, hc, (hother m' hl).trans harr⟩
  · refine (h.order v x).imp_right (Or.imp_left ?_)
    rintro ⟨m', hm', hx, hv, hrest⟩
    refine ⟨m', g.mem_live_accept m |>.mpr (.inl hm'), hx, hv, ?_⟩
    rw [hother m' hm']
    exact hrest
  · obtain ⟨m', hm', hnot, hpos, hrest⟩ := h.order_live v x p hp
    exact ⟨m', g.mem_live_accept m |>.mpr (.inl hm'), hnot, (hother m' hm').symm ▸ hpos, hrest⟩
  · rcases g.mem_live_accept m |>.mp hm' with hm' | rfl
    · exact h.partly m' hm' (hother m' hm' ▸ hpos) hnot
    · rw [hself] at hpos
      exact absurd hpos (lt_irrefl 0)
  · obtain ⟨rest, hrest, hall⟩ := h.ordered hK f
    have hlive : ∀ m' ∈ rest, m' ∈ g.live := by
      intro m' hm'
      have : m' ∈ g.live.filter fun m' ↦ decide (m'.flow = f) := by simp [hrest, hm']
      exact (List.mem_filter.mp this).1
    refine ⟨rest ++ [m].filter fun m' ↦ decide (m'.flow = f), ?_, fun m' hm' ↦ ?_⟩
    · change (g.live ++ [m]).filter _ = _
      rw [List.filter_append, hrest, List.append_assoc]
      rfl
    · rcases List.mem_append.mp hm' with hm' | hm'
      · rw [hother m' (hlive m' hm')]
        exact hall m' hm'
      · obtain rfl := List.mem_singleton.mp (List.mem_filter.mp hm').1
        rw [hself]
        exact hm.count_pos hb
  · obtain ⟨m', hm', hrest⟩ := h.jam_live d c hne
    exact ⟨m', g.mem_live_accept m |>.mpr (.inl hm'), hrest⟩

/-! ## Returning

The message that is returned is taken out of every list of the ledger. What is left to see is that
it has nothing in transit and in no order list any more, since it has arrived as a whole.
-/

section Returning

variable {rest : List Message} (hfront : g.delivered m.dst m.cha = m :: rest)
include hfront

theorem mem_live_of_front : m ∈ g.live ∧ g.arrived m.serial = b.count m := by
  obtain ⟨hm, -, -, hfull⟩ := h.delivered_live m.dst m.cha m (by simp [hfront])
  exact ⟨hm, hfull⟩

theorem delivered_giveBack (d : BusPortT) (c : ChannelT) : (g.giveBack m).delivered d c =
    (g.delivered d c).filter fun m' ↦ !(decide (m' = m)) := by
  symm
  by_cases hdc : (d, c) = (m.dst, m.cha)
  · obtain ⟨rfl, rfl⟩ := Prod.mk.inj hdc
    have hnodup := h.delivered_nodup m.dst m.cha
    rw [hfront] at hnodup
    rw [g.delivered_giveBack_self, hfront, List.filter_cons_of_neg (by simp), List.tail_cons]
    refine List.filter_eq_self.mpr fun m' hm' ↦ ?_
    have hne : m' ≠ m := by
      rintro rfl
      exact (List.nodup_cons.mp hnodup).1 hm'
    simp [hne]
  · rw [g.delivered_giveBack_ne m hdc]
    refine List.filter_eq_self.mpr fun m' hm' ↦ ?_
    have hne : m' ≠ m := by
      rintro rfl
      obtain ⟨-, hd, hc, -⟩ := h.delivered_live _ _ m' hm'
      exact hdc (by rw [hd, hc])
    simp [hne]

theorem mem_delivered_giveBack {d : BusPortT} {c : ChannelT} {m' : Message} :
    m' ∈ (g.giveBack m).delivered d c ↔ m' ∈ g.delivered d c ∧ m' ≠ m := by
  rw [h.delivered_giveBack hfront, List.mem_filter]
  simp

theorem mem_live_giveBack_of_lt {m' : Message} (hm' : m' ∈ g.live)
    (hlt : g.arrived m'.serial < b.count m') : m' ∈ (g.giveBack m).live := by
  refine g.mem_live_giveBack m |>.mpr ⟨hm', ?_⟩
  rintro rfl
  exact hlt.ne (h.mem_live_of_front hfront).2

/-- All packets of the message have arrived, so it has none in transit. -/
theorem travel_giveBack (f : Flow) :
    ((g.live.filter fun m' ↦ decide (m'.flow = f)).flatMap fun m' ↦
      (b.packetsOf m').drop (g.arrived m'.serial)) =
    ((g.giveBack m).live.filter fun m' ↦ decide (m'.flow = f)).flatMap fun m' ↦
      (b.packetsOf m').drop (g.arrived m'.serial) := by
  have hnil : (b.packetsOf m).drop (g.arrived m.serial) = [] :=
    List.drop_eq_nil_of_le (by rw [(h.mem_live_of_front hfront).2, Bus.length_packetsOf])
  change _ = ((g.live.filter fun m' ↦ !(decide (m' = m))).filter _).flatMap _
  rw [List.filter_comm]
  generalize g.live.filter (fun m' ↦ decide (m'.flow = f)) = l
  induction l with
  | nil => rfl
  | cons a l ih =>
    by_cases ha : a = m
    · subst ha
      simpa [hnil] using ih
    · simpa [ha] using ih

/-- The messages of a flow that are still to be delivered stay behind the delivered ones. -/
theorem ordered_giveBack (hK : ¬K) (f : Flow) :
    ∃ rest, ((g.giveBack m).live.filter fun m ↦ decide (m.flow = f)) =
      (((g.giveBack m).delivered f.dst f.cha).filter fun m ↦ decide (m.src = f.src)) ++ rest ∧
      ∀ m ∈ rest, g.arrived m.serial < b.count m := by
  obtain ⟨rest', hrest', hall⟩ := h.ordered hK f
  have hkeep : rest'.filter (fun m' ↦ !(decide (m' = m))) = rest' := by
    refine List.filter_eq_self.mpr fun m' hm' ↦ ?_
    have hne : m' ≠ m := by
      rintro rfl
      exact (hall m' hm').ne (h.mem_live_of_front hfront).2
    simp [hne]
  refine ⟨rest', ?_, hall⟩
  change (g.live.filter fun m' ↦ !(decide (m' = m))).filter _ = _
  rw [List.filter_comm, hrest', List.filter_append, hkeep, List.filter_comm,
    h.delivered_giveBack hfront]

theorem giveBack {w' : View} (htravel : w'.travel = w.travel) (horder : w'.order = w.order)
    (hself : w'.recvBuf m.dst m.cha = rest.flatMap b.packetsOf ++ g.jam m.dst m.cha)
    (hother : ∀ d c, (d, c) ≠ (m.dst, m.cha) → w'.recvBuf d c = w.recvBuf d c) :
    Carries b K (g.giveBack m) w' := by
  have hmem {d : BusPortT} {c : ChannelT} {m' : Message} :
      m' ∈ (g.giveBack m).delivered d c ↔ m' ∈ g.delivered d c ∧ m' ≠ m :=
    h.mem_delivered_giveBack hfront
  -- a message that is not delivered is another one
  have hstays {m' : Message} (hm' : m' ∈ g.live) (hnot : m' ∉ g.delivered m'.dst m'.cha) :
      m' ∈ (g.giveBack m).live := by
    refine g.mem_live_giveBack m |>.mpr ⟨hm', ?_⟩
    rintro rfl
    exact hnot (hfront ▸ List.mem_cons_self)
  refine {
    sized := fun m' hm' ↦ h.sized m' (g.mem_live_giveBack m |>.mp hm').1
    serials := h.serials.sublist List.filter_sublist
    travel := fun f ↦ htravel ▸ (h.travel f).trans (h.travel_giveBack hfront f)
    arrived_le := fun m' hm' ↦ h.arrived_le m' (g.mem_live_giveBack m |>.mp hm').1
    delivered_live := fun d c m' hm' ↦ ?_
    delivered_nodup := fun d c ↦ h.delivered_giveBack hfront d c ▸ (h.delivered_nodup d c).filter _
    recvBuf := fun d c ↦ ?_
    jam := h.jam
    order := fun v x ↦ ?_
    order_live := fun v x p hp ↦ ?_
    partly := fun m' hm' hpos hnot ↦ ?_
    ordered := h.ordered_giveBack hfront
    jam_live := fun d c hne ↦ ?_ }
  · obtain ⟨hdelivered, hne⟩ := hmem.mp hm'
    obtain ⟨hl, hrest⟩ := h.delivered_live d c m' hdelivered
    exact ⟨g.mem_live_giveBack m |>.mpr ⟨hl, hne⟩, hrest⟩
  · by_cases hdc : (d, c) = (m.dst, m.cha)
    · obtain ⟨rfl, rfl⟩ := Prod.mk.inj hdc
      rw [hself, g.delivered_giveBack_self, hfront]
      rfl
    · rw [hother d c hdc, h.recvBuf, g.delivered_giveBack_ne m hdc]
      rfl
  · rw [horder]
    refine (h.order v x).imp_right (Or.imp_left ?_)
    rintro ⟨m', hm', hx, hv, hpos, hlt, hlist⟩
    exact ⟨m', h.mem_live_giveBack_of_lt hfront hm' hlt, hx, hv, hpos, hlt, hlist⟩
  · rw [horder] at hp
    obtain ⟨m', hm', hnot, hrest⟩ := h.order_live v x p hp
    exact ⟨m', hstays hm' hnot, fun hin ↦ hnot (hmem.mp hin).1, hrest⟩
  · obtain ⟨hl, hne⟩ := g.mem_live_giveBack m |>.mp hm'
    rw [horder]
    exact h.partly m' hl hpos fun hin ↦ hnot (hmem.mpr ⟨hin, hne⟩)
  · obtain ⟨m', hm', rfl, rfl, hnot⟩ := h.jam_live d c hne
    exact ⟨m', hstays hm' hnot, rfl, rfl, fun hin ↦ hnot (hmem.mp hin).1⟩

end Returning

end Carries

end Simbus
