import SimbusNoc.Noc.Messages
import Mathlib.Data.List.Pairwise

/-!
# Reassembly at the destination

What the network does to a message, without the stages: its packets are in transit, in the order in
which `send` made them; they arrive one at a time; the order buffer of the destination node
collects them under the transmission id; and a complete list is appended to the receive buffer.

## Shared transmission ids

Transmission ids are 32-bit, so two messages can share one. `Carries` therefore has a parameter
`K`, the possibility that this has happened. While `K` is false, every order list belongs to one
message and every receive buffer is a sequence of whole messages. When it is true, and messages
that share an id at a node at least share their port and channel, a receive buffer is a sequence of
whole messages followed by a jam: a list that starts with two packets of index 0, which `recv`
refuses.

## The ledger

`Ledger` is a history: which messages have been accepted and not returned, how many packets of each
have arrived, which are whole in a receive buffer, and what the jams are. It is not computed from
the state. `Carries` relates a ledger to what can be seen of a state, and each step of the network
takes some ledger to some ledger. From the relation everything can be read that is wanted at the
ends: the packets in transit of a flow are the rests of its live messages in the order of their
acceptance, and what lies in a receive buffer are whole messages in that order.

## Where an arriving packet goes

A packet of a message of several packets is inserted into an order list by its index. By the
relation the list holds the packets of its message that have come before it, or nothing, or, when
ids are shared, packets of another message or a list that is spoilt already. `orderInsert_cases`
says what comes out of it in each case, and the next module what this does to the relation.
-/

namespace Simbus

open Stages

/-! ## The view -/

/-- The packets in transit of each flow, oldest first, the receive buffers and the order lists. -/
@[ext]
structure View where
  travel : Flow → List MsgPack
  recvBuf : BusPortT → ChannelT → List MsgPack
  order : BusNodeT → XmitIDT → List MsgPack

namespace View

/-- `packs` are appended to a receive buffer. -/
def append (w : View) (d : BusPortT) (c : ChannelT) (packs : List MsgPack) : View :=
  { w with
    recvBuf := Function.update w.recvBuf d
      (Function.update (w.recvBuf d) c (w.recvBuf d c ++ packs)) }

def setOrder (w : View) (v : BusNodeT) (x : XmitIDT) (packs : List MsgPack) : View :=
  { w with order := Function.update w.order v (Function.update (w.order v) x packs) }

def setTravel (w : View) (f : Flow) (packs : List MsgPack) : View :=
  { w with travel := Function.update w.travel f packs }

/-- `deliver_to_local_port` at node `v`. -/
def deliver (w : View) (v : BusNodeT) (p : MsgPack) : View :=
  if p.pacCnt ≤ 1 then w.append p.dst p.cha [p]
  else if (Bus.orderInsert p (w.order v p.xmtid)).length = p.pacCnt then
    (w.append p.dst p.cha (Bus.orderInsert p (w.order v p.xmtid))).setOrder v p.xmtid []
  else w.setOrder v p.xmtid (Bus.orderInsert p (w.order v p.xmtid))

variable (w : View) (v : BusNodeT) (x : XmitIDT) (f : Flow) (d : BusPortT) (c : ChannelT)
  (packs : List MsgPack)

@[simp] theorem travel_append : (w.append d c packs).travel = w.travel := rfl

@[simp] theorem order_append : (w.append d c packs).order = w.order := rfl

@[simp] theorem travel_setOrder : (w.setOrder v x packs).travel = w.travel := rfl

@[simp] theorem recvBuf_setOrder : (w.setOrder v x packs).recvBuf = w.recvBuf := rfl

@[simp] theorem recvBuf_setTravel : (w.setTravel f packs).recvBuf = w.recvBuf := rfl

@[simp] theorem order_setTravel : (w.setTravel f packs).order = w.order := rfl

@[simp] theorem travel_setTravel_self : (w.setTravel f packs).travel f = packs := by
  simp [setTravel]

theorem travel_setTravel_ne {f' : Flow} (h : f' ≠ f) :
    (w.setTravel f packs).travel f' = w.travel f' := by
  simp [setTravel, h]

@[simp] theorem recvBuf_append_self :
    (w.append d c packs).recvBuf d c = w.recvBuf d c ++ packs := by
  simp [append]

theorem recvBuf_append_ne {d' : BusPortT} {c' : ChannelT} (h : (d', c') ≠ (d, c)) :
    (w.append d c packs).recvBuf d' c' = w.recvBuf d' c' := by
  by_cases hd : d' = d
  · subst hd
    have hc : c' ≠ c := fun hc ↦ h (by rw [hc])
    simp [append, hc]
  · simp [append, hd]

@[simp] theorem order_setOrder_self : (w.setOrder v x packs).order v x = packs := by
  simp [setOrder]

theorem order_setOrder_ne {v' : BusNodeT} {x' : XmitIDT} (h : (v', x') ≠ (v, x)) :
    (w.setOrder v x packs).order v' x' = w.order v' x' := by
  by_cases hv : v' = v
  · subst hv
    have hx : x' ≠ x := fun hx ↦ h (by rw [hx])
    simp [setOrder, hx]
  · simp [setOrder, hv]

theorem deliver_setTravel (p : MsgPack) :
    (w.setTravel f packs).deliver v p = (w.deliver v p).setTravel f packs := by
  unfold deliver
  by_cases hone : p.pacCnt ≤ 1
  · rw [if_pos hone, if_pos hone]
    rfl
  · rw [if_neg hone, if_neg hone, order_setTravel]
    by_cases hwhole : (Bus.orderInsert p (w.order v p.xmtid)).length = p.pacCnt
    · rw [if_pos hwhole, if_pos hwhole]
      rfl
    · rw [if_neg hwhole, if_neg hwhole]
      rfl

@[simp] theorem travel_deliver (p : MsgPack) : (w.deliver v p).travel = w.travel := by
  unfold deliver
  split_ifs <;> rfl

theorem deliver_congr (w' : View) (hrecv : w'.recvBuf = w.recvBuf) (horder : w'.order = w.order)
    (p : MsgPack) : (w'.deliver v p).recvBuf = (w.deliver v p).recvBuf ∧
      (w'.deliver v p).order = (w.deliver v p).order := by
  obtain ⟨travel, recvBuf, order⟩ := w
  obtain ⟨travel', recvBuf', order'⟩ := w'
  subst hrecv horder
  unfold deliver
  dsimp only
  split_ifs <;> exact ⟨rfl, rfl⟩

end View

/-- The view of a state. -/
def BusState.view (b : Bus) (s : BusState) : View where
  travel := inTransit MsgPack.flow b.stages s.contents
  recvBuf := fun p c ↦ (s.ports p).recvBuf c
  order := fun v x ↦ Bus.orderList (s.nodes v).orderBuf x

/-! ## The order insertion -/

theorem mem_orderInsert {p q : MsgPack} {l : List MsgPack} :
    q ∈ Bus.orderInsert p l ↔ q = p ∨ q ∈ l := by
  induction l with
  | nil => simp [Bus.orderInsert]
  | cons r l ih =>
    rw [Bus.orderInsert]
    split_ifs
    · rw [List.mem_cons, ih, List.mem_cons]
      tauto
    · rw [List.mem_cons]

theorem orderInsert_eq_append {p : MsgPack} {l : List MsgPack} (h : ∀ q ∈ l, q.pacIdx < p.pacIdx) :
    Bus.orderInsert p l = l ++ [p] := by
  induction l with
  | nil => rfl
  | cons q l ih =>
    rw [Bus.orderInsert, if_pos (h q List.mem_cons_self),
      ih fun r hr ↦ h r (List.mem_cons_of_mem q hr), List.cons_append]

/-- The next packet of a message goes behind those that have arrived. -/
theorem Bus.Sized.orderInsert_take {b : Bus} {m : Message} (h : b.Sized m) {i : ℕ}
    (hi : i < b.count m) :
    Bus.orderInsert (b.pack m i) ((b.packetsOf m).take i) = (b.packetsOf m).take (i + 1) := by
  rw [Bus.packetsOf_take hi]
  refine orderInsert_eq_append fun q hq ↦ ?_
  obtain ⟨j, hj, rfl⟩ := List.mem_iff_getElem.mp hq
  rw [List.length_take, Nat.lt_min, Bus.length_packetsOf] at hj
  simp only [List.getElem_take, Bus.packetsOf, List.getElem_map, List.getElem_range]
  rw [h.pack_pacIdx hj.2, h.pack_pacIdx hi]
  exact hj.1

/-- A list that `recv` refuses: its first two packets have index 0, and its first message has
several packets. -/
def Jammed (l : List MsgPack) : Prop :=
  ∃ p q r, l = p :: q :: r ∧ p.pacIdx = 0 ∧ q.pacIdx = 0 ∧ 2 ≤ p.pacCnt

theorem Jammed.ne_nil {l : List MsgPack} (h : Jammed l) : l ≠ [] := by
  obtain ⟨p, q, r, rfl, -⟩ := h
  exact List.cons_ne_nil _ _

theorem Jammed.append {l : List MsgPack} (h : Jammed l) (l' : List MsgPack) : Jammed (l ++ l') := by
  obtain ⟨p, q, r, rfl, hp, hq, hcnt⟩ := h
  exact ⟨p, q, r ++ l', rfl, hp, hq, hcnt⟩

theorem Jammed.orderInsert {l : List MsgPack} (h : Jammed l) {p : MsgPack} (hp : 2 ≤ p.pacCnt) :
    Jammed (Bus.orderInsert p l) := by
  obtain ⟨q, q', r, rfl, hq, hq', hcnt⟩ := h
  by_cases hidx : p.pacIdx = 0
  · exact ⟨p, q, q' :: r, by simp [Bus.orderInsert, hq, hidx], hidx, hq, hp⟩
  · exact ⟨q, q', Bus.orderInsert p r, by simp [Bus.orderInsert, hq, hq', Nat.pos_of_ne_zero hidx],
      hq, hq', hcnt⟩

/-! ## The ledger -/

/-- The history of the messages: the accepted messages that `recv` has not returned, how many
packets of each have arrived, which of them are whole in a receive buffer, and the jam behind
them. -/
structure Ledger where
  live : List Message := []
  arrived : ℕ → ℕ := fun _ ↦ 0
  delivered : BusPortT → ChannelT → List Message := fun _ _ ↦ []
  jam : BusPortT → ChannelT → List MsgPack := fun _ _ ↦ []

/-- No two live messages that the order buffer of one node can hold share a transmission id. -/
def Ledger.Distinct (b : Bus) (g : Ledger) : Prop :=
  ∀ m ∈ g.live, ∀ m' ∈ g.live, m.xmtid = m'.xmtid → b.home m.dst = b.home m'.dst →
    2 ≤ b.count m → 2 ≤ b.count m' → m = m'

/-- Live messages that share a transmission id and a destination node share the port and the
channel. -/
def Ledger.Keyed (b : Bus) (g : Ledger) : Prop :=
  ∀ m ∈ g.live, ∀ m' ∈ g.live, m.xmtid = m'.xmtid → b.home m.dst = b.home m'.dst →
    m.dst = m'.dst ∧ m.cha = m'.cha

/-- An order list is empty, holds the arrived packets of one message, or is spoilt. -/
def OrderOk (b : Bus) (K : Prop) (g : Ledger) (v : BusNodeT) (x : XmitIDT) (l : List MsgPack) :
    Prop :=
  l = [] ∨
    (∃ m ∈ g.live, m.xmtid = x ∧ b.home m.dst = v ∧ 0 < g.arrived m.serial ∧
      g.arrived m.serial < b.count m ∧ l = (b.packetsOf m).take (g.arrived m.serial)) ∨
    K ∧ (Jammed l ∨ ∃ p ∈ l, g.jam p.dst p.cha ≠ [])

/-- The ledger accounts for everything in the view. -/
structure Carries (b : Bus) (K : Prop) (g : Ledger) (w : View) : Prop where
  sized : ∀ m ∈ g.live, b.Sized m
  serials : g.live.Pairwise fun m m' ↦ m.serial < m'.serial
  travel : ∀ f, w.travel f = (g.live.filter fun m ↦ decide (m.flow = f)).flatMap fun m ↦
    (b.packetsOf m).drop (g.arrived m.serial)
  arrived_le : ∀ m ∈ g.live, g.arrived m.serial ≤ b.count m
  delivered_live : ∀ d c, ∀ m ∈ g.delivered d c, m ∈ g.live ∧ m.dst = d ∧ m.cha = c ∧
    g.arrived m.serial = b.count m
  delivered_nodup : ∀ d c, (g.delivered d c).Nodup
  recvBuf : ∀ d c, w.recvBuf d c = (g.delivered d c).flatMap b.packetsOf ++ g.jam d c
  jam : ∀ d c, g.jam d c = [] ∨ K ∧ Jammed (g.jam d c)
  order : ∀ v x, OrderOk b K g v x (w.order v x)
  order_live : ∀ v x, ∀ p ∈ w.order v x, ∃ m ∈ g.live, m ∉ g.delivered m.dst m.cha ∧
    0 < g.arrived m.serial ∧ p ∈ b.packetsOf m ∧ m.xmtid = x ∧ b.home m.dst = v
  /-- The first packet of a message in part is in its order list, unless there is a jam. -/
  partly : ∀ m ∈ g.live, 0 < g.arrived m.serial → m ∉ g.delivered m.dst m.cha →
    g.jam m.dst m.cha ≠ [] ∨ b.pack m 0 ∈ w.order (b.home m.dst) m.xmtid
  /-- Without shared ids, the messages of a flow are delivered in order. -/
  ordered : ¬K → ∀ f, ∃ rest, (g.live.filter fun m ↦ decide (m.flow = f)) =
    ((g.delivered f.dst f.cha).filter fun m ↦ decide (m.src = f.src)) ++ rest ∧
    ∀ m ∈ rest, g.arrived m.serial < b.count m
  /-- A message that has got into a jam is never returned. -/
  jam_live : ∀ d c, g.jam d c ≠ [] → ∃ m ∈ g.live, m.dst = d ∧ m.cha = c ∧ m ∉ g.delivered d c

namespace Ledger

/-- One more packet of `m` has arrived. -/
def advance (g : Ledger) (m : Message) : Ledger :=
  { g with arrived := Function.update g.arrived m.serial (g.arrived m.serial + 1) }

/-- `m` is whole in its receive buffer. -/
def complete (g : Ledger) (m : Message) : Ledger :=
  { g.advance m with
    delivered := Function.update g.delivered m.dst
      (Function.update (g.delivered m.dst) m.cha (g.delivered m.dst m.cha ++ [m])) }

/-- `packs` join the jam in the receive buffer of `m`. -/
def spoil (g : Ledger) (m : Message) (packs : List MsgPack) : Ledger :=
  { g.advance m with
    jam := Function.update g.jam m.dst
      (Function.update (g.jam m.dst) m.cha (g.jam m.dst m.cha ++ packs)) }

variable (g : Ledger) (m : Message)

@[simp] theorem live_advance : (g.advance m).live = g.live := rfl

@[simp] theorem live_complete : (g.complete m).live = g.live := rfl

@[simp] theorem live_spoil (packs : List MsgPack) : (g.spoil m packs).live = g.live := rfl

@[simp] theorem arrived_advance_self :
    (g.advance m).arrived m.serial = g.arrived m.serial + 1 := by
  simp [advance]

theorem arrived_advance_ne {n : ℕ} (h : n ≠ m.serial) : (g.advance m).arrived n = g.arrived n := by
  simp [advance, h]

@[simp] theorem delivered_complete_self :
    (g.complete m).delivered m.dst m.cha = g.delivered m.dst m.cha ++ [m] := by
  simp [complete]

theorem delivered_complete_ne {d : BusPortT} {c : ChannelT} (h : (d, c) ≠ (m.dst, m.cha)) :
    (g.complete m).delivered d c = g.delivered d c := by
  by_cases hd : d = m.dst
  · subst hd
    have hc : c ≠ m.cha := fun hc ↦ h (by rw [hc])
    simp [complete, hc]
  · simp [complete, advance, hd]

theorem mem_delivered_complete {d : BusPortT} {c : ChannelT} {m' : Message} :
    m' ∈ (g.complete m).delivered d c ↔
      m' ∈ g.delivered d c ∨ m' = m ∧ (d, c) = (m.dst, m.cha) := by
  by_cases hdc : (d, c) = (m.dst, m.cha)
  · obtain ⟨rfl, rfl⟩ := Prod.mk.inj hdc
    simp
  · simp [g.delivered_complete_ne m hdc, hdc]

@[simp] theorem jam_spoil_self (packs : List MsgPack) :
    (g.spoil m packs).jam m.dst m.cha = g.jam m.dst m.cha ++ packs := by
  simp [spoil]

theorem jam_spoil_ne (packs : List MsgPack) {d : BusPortT} {c : ChannelT}
    (h : (d, c) ≠ (m.dst, m.cha)) : (g.spoil m packs).jam d c = g.jam d c := by
  by_cases hd : d = m.dst
  · subst hd
    have hc : c ≠ m.cha := fun hc ↦ h (by rw [hc])
    simp [spoil, hc]
  · simp [spoil, advance, hd]

theorem jam_spoil_ne_nil (packs : List MsgPack) {d : BusPortT} {c : ChannelT}
    (h : g.jam d c ≠ []) : (g.spoil m packs).jam d c ≠ [] := by
  by_cases hdc : (d, c) = (m.dst, m.cha)
  · obtain ⟨rfl, rfl⟩ := Prod.mk.inj hdc
    simp [h]
  · rwa [g.jam_spoil_ne m packs hdc]

end Ledger

namespace Carries

variable {b : Bus} {K : Prop} {g : Ledger} {w : View} (h : Carries b K g w)
include h

theorem serial_inj {m m' : Message} (hm : m ∈ g.live) (hm' : m' ∈ g.live)
    (heq : m.serial = m'.serial) : m = m' := by
  have hnodup : (g.live.map Message.serial).Nodup :=
    List.pairwise_map.mpr (h.serials.imp fun hlt ↦ hlt.ne)
  exact List.inj_on_of_nodup_map hnodup hm hm' heq

/-! ## The oldest packet of a flow

What is in transit on a flow are the packets that have not arrived, message by message. Its head is
the next packet of a message, and what is behind it keeps the same form.
-/

omit h in
private theorem flatMap_eq_cons {β : Type} {F : β → List MsgPack} {l : List β} {p : MsgPack}
    {t : List MsgPack} (h : l.flatMap F = p :: t) :
    ∃ l₁ m l₂ t', l = l₁ ++ m :: l₂ ∧ (∀ m' ∈ l₁, F m' = []) ∧ F m = p :: t' ∧
      t = t' ++ l₂.flatMap F := by
  induction l with
  | nil => simp at h
  | cons a l ih =>
    rw [List.flatMap_cons] at h
    cases hF : F a with
    | nil =>
      rw [hF, List.nil_append] at h
      obtain ⟨l₁, m, l₂, t', rfl, hl₁, hm, ht⟩ := ih h
      refine ⟨a :: l₁, m, l₂, t', rfl, fun m' hm' ↦ ?_, hm, ht⟩
      rcases List.mem_cons.mp hm' with rfl | hm'
      · exact hF
      · exact hl₁ m' hm'
    | cons q t' =>
      rw [hF, List.cons_append, List.cons.injEq] at h
      obtain ⟨rfl, rfl⟩ := h
      exact ⟨[], a, l, t', rfl, by simp, hF, rfl⟩

/-- The oldest packet in transit is the next packet of a live message, and behind it the messages
keep their order. -/
theorem travel_head {f : Flow} {p : MsgPack} {t : List MsgPack} (hp : w.travel f = p :: t) :
    ∃ m ∈ g.live, m.flow = f ∧ g.arrived m.serial < b.count m ∧
      p = b.pack m (g.arrived m.serial) ∧
      (∃ l₁ l₂, (g.live.filter fun m ↦ decide (m.flow = f)) = l₁ ++ m :: l₂ ∧
        ∀ m' ∈ l₁, g.arrived m'.serial = b.count m') ∧
      ∀ f', (w.setTravel f t).travel f' =
        (g.live.filter fun m' ↦ decide (m'.flow = f')).flatMap fun m' ↦
          (b.packetsOf m').drop ((g.advance m).arrived m'.serial) := by
  -- The first message of the flow that has a packet in transit.
  obtain ⟨l₁, m, l₂, t', hl, hl₁, hm, ht⟩ := flatMap_eq_cons ((h.travel f).symm.trans hp)
  have hmem : ∀ m' ∈ l₁ ++ m :: l₂, m' ∈ g.live ∧ m'.flow = f := by
    intro m' hm'
    rw [← hl] at hm'
    simpa using hm'
  obtain ⟨hlive, hflow⟩ := hmem m (by simp)
  have hlt : g.arrived m.serial < b.count m := by
    by_contra hge
    rw [List.drop_eq_nil_of_le (by simpa using hge)] at hm
    cases hm
  rw [Bus.packetsOf_drop hlt, List.cons.injEq] at hm
  obtain ⟨rfl, rfl⟩ := hm
  refine ⟨m, hlive, hflow, hlt, rfl, ⟨l₁, l₂, hl, fun m' hm' ↦ ?_⟩, fun f' ↦ ?_⟩
  · have hle := List.drop_eq_nil_iff.mp (hl₁ m' hm')
    have := h.arrived_le m' (hmem m' (by simp [hm'])).1
    simp only [Bus.length_packetsOf] at hle
    omega
  · by_cases hf : f' = f
    · subst hf
      have hne : ∀ m' ∈ l₁ ++ l₂, m'.serial ≠ m.serial := by
        have hnodup : (l₁ ++ m :: l₂).Nodup := by
          rw [← hl]
          exact List.Nodup.filter _ (h.serials.imp fun h heq ↦ by simp [heq] at h)
        intro m' hm' heq
        obtain rfl := h.serial_inj (hmem m' (by
          rcases List.mem_append.mp hm' with h | h <;> simp [h])).1 hlive heq
        simp only [List.nodup_append, List.nodup_cons, List.mem_cons] at hnodup
        grind
      -- One more packet of `m` has arrived, and the counts of the others stay.
      have hcongr : ∀ l : List Message, (∀ m' ∈ l, m'.serial ≠ m.serial) →
          (l.flatMap fun m' ↦ (b.packetsOf m').drop ((g.advance m).arrived m'.serial)) =
            l.flatMap fun m' ↦ (b.packetsOf m').drop (g.arrived m'.serial) := by
        intro l hne
        refine List.flatMap_congr fun m' hm' ↦ ?_
        rw [g.arrived_advance_ne m (hne m' hm')]
      have hnil : (l₁.flatMap fun m' ↦ (b.packetsOf m').drop (g.arrived m'.serial)) = [] :=
        List.flatMap_eq_nil_iff.mpr hl₁
      rw [View.travel_setTravel_self, hl, List.flatMap_append, List.flatMap_cons,
        hcongr l₁ fun m' hm' ↦ hne m' (by simp [hm']),
        hcongr l₂ fun m' hm' ↦ hne m' (by simp [hm']), hnil, g.arrived_advance_self, ht,
        List.nil_append]
    · rw [View.travel_setTravel_ne _ _ _ hf, h.travel f']
      refine List.flatMap_congr fun m' hm' ↦ ?_
      have hm'f : m'.flow = f' := by simpa using (List.mem_filter.mp hm').2
      rw [g.arrived_advance_ne m]
      intro heq
      obtain rfl := h.serial_inj (List.mem_filter.mp hm').1 hlive heq
      exact hf (hm'f.symm.trans hflow)

/-! ## Where an arriving packet goes -/

section Arrival

variable {m : Message} (hm : m ∈ g.live) (hlt : g.arrived m.serial < b.count m)
include hlt

omit hm in
theorem not_delivered : m ∉ g.delivered m.dst m.cha := fun hmem ↦
  hlt.ne (h.delivered_live _ _ m hmem).2.2.2

include hm

/-- The list an arriving packet completes to: one packet more of its own message, or a spoilt
list. -/
theorem orderInsert_cases (hcnt : 2 ≤ b.count m) (hmode : K ∨ g.Distinct b)
    (hkeyed : K → g.Keyed b) :
    (g.jam m.dst m.cha = [] ∧
        Bus.orderInsert (b.pack m (g.arrived m.serial)) (w.order (b.home m.dst) m.xmtid) =
          (b.packetsOf m).take (g.arrived m.serial + 1) ∧
        ∀ q ∈ w.order (b.home m.dst) m.xmtid, q ∈ b.packetsOf m) ∨
      K ∧ (g.jam m.dst m.cha ≠ [] ∨ Jammed
        (Bus.orderInsert (b.pack m (g.arrived m.serial)) (w.order (b.home m.dst) m.xmtid))) := by
  have hsized := h.sized m hm
  by_cases hjam : g.jam m.dst m.cha = []
  swap
  · exact .inr ⟨((h.jam m.dst m.cha).resolve_left hjam).1, .inl hjam⟩
  have hfirst : 0 < g.arrived m.serial →
      b.pack m 0 ∈ w.order (b.home m.dst) m.xmtid := fun hpos ↦
    (h.partly m hm hpos (h.not_delivered hlt)).resolve_left (not_not.mpr hjam)
  have hcnt' : 2 ≤ (b.pack m (g.arrived m.serial)).pacCnt := by rwa [hsized.pack_pacCnt]
  -- What the order list of `m` holds before: nothing, the first packets of a message, or a jam.
  rcases h.order (b.home m.dst) m.xmtid with
    hnil | ⟨m', hm', hx, hv, hpos, hlt', hlist⟩ | ⟨hK, hbad⟩
  · left
    have hzero : g.arrived m.serial = 0 := by
      by_contra hne
      have := hfirst (Nat.pos_of_ne_zero hne)
      rw [hnil] at this
      cases this
    refine ⟨hjam, ?_, by simp [hnil]⟩
    rw [hnil, hzero, Bus.packetsOf_take (by omega)]
    rfl
  · -- Packets of another message in the list of `m` mean that the two share an id.
    by_cases hmm : m' = m
    · subst hmm
      refine .inl ⟨hjam, ?_, fun q hq ↦ List.mem_of_mem_take (hlist ▸ hq)⟩
      rw [hlist, hsized.orderInsert_take hlt]
    · have hK : K := hmode.resolve_right fun hd ↦
        hmm (hd m' hm' m hm hx hv (by omega) hcnt)
      refine .inr ⟨hK, .inr ?_⟩
      have hsized' := h.sized m' hm'
      have hzero : g.arrived m.serial = 0 := by
        by_contra hne
        have hmem := hfirst (Nat.pos_of_ne_zero hne)
        rw [hlist] at hmem
        have hserial := Bus.serial_of_mem_packetsOf (List.mem_of_mem_take hmem)
        exact hmm (h.serial_inj hm' hm hserial.symm)
      obtain ⟨n, hn⟩ := Nat.exists_eq_succ_of_ne_zero hpos.ne'
      have hhead : (b.packetsOf m').take (n + 1) =
          b.pack m' 0 :: ((b.packetsOf m').drop 1).take n := by
        conv_lhs => rw [Bus.packetsOf_eq_cons (by omega)]
        rfl
      have hidx : (b.pack m 0).pacIdx = 0 := hsized.pack_pacIdx (by omega)
      have hidx' : (b.pack m' 0).pacIdx = 0 := hsized'.pack_pacIdx (by omega)
      rw [hlist, hn, hhead, hzero]
      refine ⟨b.pack m 0, b.pack m' 0, ((b.packetsOf m').drop 1).take n, ?_, hidx, hidx', ?_⟩
      · simp [Bus.orderInsert, hidx, hidx']
      · rwa [hsized.pack_pacCnt]
  · rcases hbad with hbad | ⟨q, hq, hqjam⟩
    · exact .inr ⟨hK, .inr (hbad.orderInsert hcnt')⟩
    · obtain ⟨m', hm', -, -, hqm', hx, hv⟩ := h.order_live _ _ q hq
      obtain ⟨hd, hc⟩ := hkeyed hK m' hm' m hm hx hv
      obtain ⟨i, -, rfl⟩ := Bus.mem_packetsOf.mp hqm'
      refine absurd hjam ?_
      rw [← hd, ← hc]
      exact hqjam

end Arrival

end Carries

end Simbus
