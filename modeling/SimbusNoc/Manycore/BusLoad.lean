import SimbusNoc.Manycore.InterconnectLaws

/-!
# The load of the shared bus

How far the messages on a shared bus between harts and memory still have to go, as a number: a tick
of the bus lowers it while the medium has work, a message sent raises it by a fixed cost, and a
message taken lowers it again. When the medium has no work, only a message that nobody takes stops
a sender.

The load has three parts. The work of the medium counts ticks. A request costs what the controller
will spend on it and on its response, and a response costs one until it is taken. So a request
weighs more than anything it leads to, and the cost is a parameter here, fixed where the controller
is known.

`Measured` is the shared bus with at most `2 ^ 31` ports, for whose ports the scan works, and
`Idle` is a medium with nothing to do. Two states are `Alike` when a call has changed nothing on
the bus, as a failed attempt to send does; the progress of a party that rests leaves the bus alike.
-/

namespace Manycore

open Simbus

namespace SharedBus

open SharedBusState

variable {b : SharedBus} {s s' : SharedBusState} {n cost : ℕ}

/-- What is on a bus between `n` harts and the memory at port `n`: the ticks that the medium still
needs, `cost` for each request and 1 for each response that has not been taken. -/
def load (b : SharedBus) (n cost : ℕ) (s : SharedBusState) : ℕ :=
  b.work s + cost * s.reserved n requestChannel +
    ∑ i ∈ Finset.range n, s.reserved i responseChannel

/-! ## Sending -/

theorem work_enqueue {l : Letter} (hsrc : l.src < b.size) :
    b.work (enqueue s l) = b.work s + b.cycles := by
  have hsum := sum_countP_update (fun _ ↦ true) hsrc s.queued (s.queued l.src ++ [l])
  simp only [List.countP_true, List.length_append, List.length_singleton] at hsum
  have hsum' : ∑ i ∈ Finset.range b.size,
      (Function.update s.queued l.src (s.queued l.src ++ [l]) i).length =
        (∑ i ∈ Finset.range b.size, (s.queued i).length) + 1 := by omega
  rw [work, work, queued_enqueue, hsum', Nat.mul_add, Nat.mul_one, ← Nat.add_assoc]
  rfl

theorem load_enqueue_request {l : Letter} (hsrc : l.src < b.size) (hdst : l.dst = n)
    (hcha : l.cha = requestChannel) :
    b.load n cost (enqueue s l) = b.load n cost s + (b.cycles + cost) := by
  have hother : ∀ i, (enqueue s l).reserved i responseChannel = s.reserved i responseChannel := by
    intro i
    rw [reserved_enqueue, Letter.isTo, hcha, if_neg (by simp [requestChannel, responseChannel]),
      Nat.add_zero]
  have hself : (enqueue s l).reserved n requestChannel = s.reserved n requestChannel + 1 := by
    rw [reserved_enqueue, Letter.isTo, hcha, hdst, if_pos (by simp)]
  simp only [load, work_enqueue hsrc, hother, hself, Nat.mul_add, Nat.mul_one]
  omega

theorem load_enqueue_response {l : Letter} (hsrc : l.src < b.size) (hdst : l.dst < n)
    (hcha : l.cha = responseChannel) :
    b.load n cost (enqueue s l) = b.load n cost s + (b.cycles + 1) := by
  have hother : (enqueue s l).reserved n requestChannel = s.reserved n requestChannel := by
    rw [reserved_enqueue, Letter.isTo, hcha, if_neg (by simp [requestChannel, responseChannel]),
      Nat.add_zero]
  have hself : ∑ i ∈ Finset.range n, (enqueue s l).reserved i responseChannel =
      (∑ i ∈ Finset.range n, s.reserved i responseChannel) + 1 := by
    simp only [reserved_enqueue, Finset.sum_add_distrib]
    congr 1
    rw [Finset.sum_eq_single_of_mem l.dst (Finset.mem_range.mpr hdst)]
    · rw [Letter.isTo, hcha, if_pos (by simp)]
    · intro i _ hi
      rw [Letter.isTo, if_neg (by simp [Ne.symm hi])]
  rw [load, load, work_enqueue hsrc, hother, hself]
  omega

/-! ## Receiving -/

private theorem sum_add_one {f g : ℕ → ℕ} {i : ℕ} (hi : i ∈ Finset.range n) (hself : g i + 1 = f i)
    (hother : ∀ j ≠ i, g j = f j) :
    (∑ j ∈ Finset.range n, g j) + 1 = ∑ j ∈ Finset.range n, f j := by
  have hrest : ∑ j ∈ (Finset.range n).erase i, g j = ∑ j ∈ (Finset.range n).erase i, f j :=
    Finset.sum_congr rfl fun j hj ↦ hother j (Finset.ne_of_mem_erase hj)
  have hf := Finset.add_sum_erase _ f hi
  have hg := Finset.add_sum_erase _ g hi
  omega

theorem reserved_dequeue (p d : BusPortT) (c c' : ChannelT) (bytes : Bytes)
    (rest : List BusMessage) : (dequeue s p c bytes rest).reserved d c' =
      s.reserved d c' - if d = p ∧ c' = c then 1 else 0 := by
  by_cases hd : d = p
  · subst hd
    by_cases hc : c' = c
    · subst hc
      simp [dequeue]
    · simp [dequeue, hc]
  · simp [dequeue, hd]

/-- A message in an inbox holds a credit. -/
theorem Ledger.reserved_pos (h : b.Ledger s) {p : BusPortT} {c : ChannelT} {m : BusMessage}
    {rest : List BusMessage} (hbox : s.inbox p c = m :: rest) : 0 < s.reserved p c := by
  rw [h.credits, holders, boxed, hbox, List.map_cons, List.length_cons]
  omega

theorem load_dequeue_request (h : b.Ledger s) {m : BusMessage} {rest : List BusMessage}
    (hbox : s.inbox n requestChannel = m :: rest) :
    b.load n cost (dequeue s n requestChannel m.bytes rest) + cost = b.load n cost s := by
  have hpos := h.reserved_pos hbox
  have hwork : b.work (dequeue s n requestChannel m.bytes rest) = b.work s := rfl
  have hother : ∀ i, (dequeue s n requestChannel m.bytes rest).reserved i responseChannel =
      s.reserved i responseChannel := fun i ↦ by
    rw [reserved_dequeue, if_neg (by simp [requestChannel, responseChannel]), Nat.sub_zero]
  have hmul : cost * (s.reserved n requestChannel - 1) + cost = cost * s.reserved n
    requestChannel := by
    rw [← Nat.mul_succ, Nat.succ_eq_add_one, Nat.sub_add_cancel hpos]
  simp only [load, hwork, hother]
  rw [reserved_dequeue, if_pos ⟨rfl, rfl⟩]
  omega

theorem load_dequeue_response (h : b.Ledger s) {i : ℕ} (hi : i < n) {m : BusMessage}
    {rest : List BusMessage} (hbox : s.inbox i responseChannel = m :: rest) :
    b.load n cost (dequeue s i responseChannel m.bytes rest) + 1 = b.load n cost s := by
  have hpos := h.reserved_pos hbox
  have hwork : b.work (dequeue s i responseChannel m.bytes rest) = b.work s := rfl
  have hother : (dequeue s i responseChannel m.bytes rest).reserved n requestChannel =
      s.reserved n requestChannel := by
    rw [reserved_dequeue, if_neg (by simp [requestChannel, responseChannel]), Nat.sub_zero]
  have hself : (dequeue s i responseChannel m.bytes rest).reserved i responseChannel + 1 =
      s.reserved i responseChannel := by
    rw [reserved_dequeue, if_pos ⟨rfl, rfl⟩, Nat.sub_add_cancel hpos]
  have hrest : ∀ j ≠ i, (dequeue s i responseChannel m.bytes rest).reserved j responseChannel =
      s.reserved j responseChannel := fun j hj ↦ by
    rw [reserved_dequeue, if_neg fun heq ↦ hj heq.1, Nat.sub_zero]
  have hsum := @sum_add_one n _ (fun j ↦
    (dequeue s i responseChannel m.bytes rest).reserved j responseChannel) i
    (Finset.mem_range.mpr hi) hself hrest
  rw [load, load, hwork, hother]
  omega

/-! ## A tick -/

theorem reserved_applyNextTick (s : SharedBusState) :
    (b.applyNextTick s).reserved = s.reserved := by
  have htransfer : ∀ t : SharedBusState, (transfer t).reserved = t.reserved := by
    intro t
    rcases transfer_cases t with ⟨-, heq⟩ | ⟨m, -, -, heq⟩ | ⟨m, -, -, heq⟩ <;> rw [heq]
    rfl
  have hgrant : (b.grant s).reserved = s.reserved := by
    rcases grant_cases b s with ⟨p, m, rest, -, -, -, -, heq⟩ | ⟨-, heq⟩
    · rw [heq]
      rfl
    · rw [heq]
  exact (htransfer (b.countWaits (b.grant s))).trans hgrant

/-- A tick lowers the load while the medium has work. -/
theorem load_applyNextTick (hsize : b.size ≤ 2 ^ 31) (hb : b.Accepted) (h : b.Ledger s) :
    b.load n cost (b.applyNextTick s) ≤ b.load n cost s ∧
      (0 < b.work s → b.load n cost (b.applyNextTick s) < b.load n cost s) := by
  have hwork := work_applyNextTick hsize hb h
  simp only [load, reserved_applyNextTick, hwork]
  omega

/-! ## An idle medium

When the medium has no work, all messages lie in inboxes, so a party that cannot send faces a
message that its receiver has not taken.
-/

section Idle

variable (hb : b.Accepted) (h : b.Ledger s) (hidle : b.work s = 0)
include hb h hidle

/-- When the medium has no work, every message lies in its inbox. -/
theorem reserved_of_idle (d : BusPortT) (c : ChannelT) :
    s.reserved d c = (s.inbox d c).length := by
  obtain ⟨hcarried, hqueued⟩ := (work_eq_zero_iff hb h).mp hidle
  rw [h.credits, holders, hcarried]
  simp [hqueued, boxed]

theorem hasRoom_of_idle (p : BusPortT) : b.hasRoom s p = true := by
  have hqueued := ((work_eq_zero_iff hb h).mp hidle).2 p
  rw [queued, List.map_eq_nil_iff] at hqueued
  rw [hasRoom, hqueued]
  exact decide_eq_true hb.queueDepth_pos

/-- A credit that is not left is held by a message in the inbox. -/
theorem waiting_of_outOfCredit {d : BusPortT} {c : ChannelT}
    (hcredit : b.outOfCredit s d c = true) :
    s.inbox d c ≠ [] := by
  rw [outOfCredit, Bool.and_eq_true, Bool.not_eq_true', beq_eq_false_iff_ne,
    decide_eq_true_eq, reserved_of_idle hb h hidle] at hcredit
  have hpos : 0 < b.config.receiveSlots.toNat := by
    rw [Nat.pos_iff_ne_zero]
    exact fun hzero ↦ hcredit.1 (UInt32.toNat_inj.mp hzero)
  exact List.ne_nil_of_length_pos (Nat.lt_of_lt_of_le hpos hcredit.2)

end Idle

end SharedBus

/-! ## The interconnect of a system -/

namespace Interconnect

open SharedBus

/-- The ticks that a message holds the medium. -/
def cycles : Interconnect → ℕ
  | ring _ _ => 0
  | shared b _ => b.cycles

/-- The load of a shared bus. -/
def load (n cost : ℕ) : Interconnect → ℕ
  | ring _ _ => 0
  | shared b s => b.load n cost s

/-- A shared bus between `n` harts and the memory, whose ports are all found by its scan. -/
inductive Measured (n : ℕ) : Interconnect → Prop
  | shared {b s} : b.size = n + 1 → b.size ≤ 2 ^ 31 → b.Accepted → b.Ledger s →
      Measured n (shared b s)

/-- Port `p` cannot send to `d`. -/
inductive Refuses (p d : BusPortT) (c : ChannelT) : Interconnect → Prop
  | full {b s} : b.hasRoom s p = false → Refuses p d c (shared b s)
  | outOfCredit {b s} : b.outOfCredit s d c = true → Refuses p d c (shared b s)

/-- There is nothing to receive. -/
inductive Vacant (p : BusPortT) (c : ChannelT) : Interconnect → Prop
  | shared {b s} : s.inbox p c = [] → Vacant p c (shared b s)

/-- The medium has nothing to do. -/
inductive Idle : Interconnect → Prop
  | shared {b s} : b.work s = 0 → Idle (shared b s)

/-- The two carry the same messages. -/
inductive Alike : Interconnect → Interconnect → Prop
  | shared {b s stalls} : Alike (shared b s) (shared b { s with creditStalls := stalls })

variable {n cost : ℕ} {p d : BusPortT} {c : ChannelT} {x x' x'' : Interconnect} {data : Bytes}

namespace Alike

theorem trans (h : Alike x x') (h' : Alike x' x'') : Alike x x'' := by
  cases h with
  | shared =>
    cases h' with
    | shared => exact .shared

theorem load_eq (h : Alike x x') : x'.load n cost = x.load n cost := by
  cases h with
  | shared => rfl

theorem cycles_eq (h : Alike x x') : x'.cycles = x.cycles := by
  cases h with
  | shared => rfl

theorem idle (h : Alike x x') (hidle : Idle x') : Idle x := by
  cases h with
  | shared =>
    cases hidle with
    | shared hwork => exact .shared hwork

theorem refuses (h : Alike x x') (hrefuses : Refuses p d c x') : Refuses p d c x := by
  cases h with
  | shared =>
    cases hrefuses with
    | full hroom => exact .full hroom
    | outOfCredit hcredit => exact .outOfCredit hcredit

theorem vacant (h : Alike x x') (hvacant : Vacant p c x') : Vacant p c x := by
  cases h with
  | shared =>
    cases hvacant with
    | shared hinbox => exact .shared hinbox

end Alike

namespace Measured

variable (h : Measured n x)
include h

theorem alike_refl : Alike x x := by
  cases h with
  | shared => exact .shared

theorem send {accepted : Bool} (hsend : interface.send x p d c data = .ok (accepted, x')) :
    Measured n x' := by
  cases h with
  | shared hsize hsmall hb hledger =>
    obtain ⟨⟨accepted', s'⟩, hs, hsend⟩ := Except.bind_eq_ok_iff.mp hsend
    obtain ⟨rfl, rfl⟩ := Prod.mk.inj (Except.ok.inj hsend)
    exact .shared hsize hsmall hb (hledger.send hs)

theorem recv {received : Option Bytes} (hrecv : interface.recv x p c = .ok (received, x')) :
    Measured n x' := by
  cases h with
  | shared hsize hsmall hb hledger =>
    obtain ⟨⟨received', s'⟩, hs, hrecv⟩ := Except.bind_eq_ok_iff.mp hrecv
    obtain ⟨rfl, rfl⟩ := Prod.mk.inj (Except.ok.inj hrecv)
    exact .shared hsize hsmall hb (hledger.recv hs)

theorem refuse (hsend : interface.send x p d c data = .ok (false, x')) :
    Measured n x' ∧ Alike x x' ∧ Refuses p d c x := by
  cases h with
  | @shared b s hsize hsmall hb hledger =>
    obtain ⟨⟨accepted, s'⟩, hs, hsend⟩ := Except.bind_eq_ok_iff.mp hsend
    obtain ⟨rfl, rfl⟩ := Prod.mk.inj (Except.ok.inj hsend)
    refine ⟨.shared hsize hsmall hb (hledger.send hs), ?_⟩
    rcases (send_cases hs).2.2.2 with ⟨-, hroom, rfl⟩ | ⟨-, hcredit, rfl⟩ | ⟨htrue, -⟩
    · exact ⟨.shared, .full hroom⟩
    · exact ⟨.shared, .outOfCredit hcredit⟩
    · cases htrue

theorem refuses_of_canSend (hcan : interface.canSend x p c = .ok false) (d : BusPortT)
    (c' : ChannelT) : Refuses p d c' x := by
  cases h with
  | shared => exact .full (canSend_eq_ok hcan).1.symm

theorem sendRequest (hsend : interface.send x p n requestChannel data = .ok (true, x')) :
    Measured n x' ∧ x'.cycles = x.cycles ∧
      x'.load n cost = x.load n cost + (x.cycles + cost) := by
  cases h with
  | @shared b s hsize hsmall hb hledger =>
    obtain ⟨⟨accepted, s'⟩, hs, hsend⟩ := Except.bind_eq_ok_iff.mp hsend
    obtain ⟨rfl, rfl⟩ := Prod.mk.inj (Except.ok.inj hsend)
    refine ⟨.shared hsize hsmall hb (hledger.send hs), rfl, ?_⟩
    obtain ⟨hsrc, -, -, ⟨hfalse, -⟩ | ⟨hfalse, -⟩ | ⟨-, -, -, rfl⟩⟩ := send_cases hs
    · cases hfalse
    · cases hfalse
    · exact load_enqueue_request hsrc rfl rfl

theorem sendResponse (hd : d < n)
    (hsend : interface.send x p d responseChannel data = .ok (true, x')) :
    Measured n x' ∧ x'.cycles = x.cycles ∧ x'.load n cost = x.load n cost + (x.cycles + 1) := by
  cases h with
  | @shared b s hsize hsmall hb hledger =>
    obtain ⟨⟨accepted, s'⟩, hs, hsend⟩ := Except.bind_eq_ok_iff.mp hsend
    obtain ⟨rfl, rfl⟩ := Prod.mk.inj (Except.ok.inj hsend)
    refine ⟨.shared hsize hsmall hb (hledger.send hs), rfl, ?_⟩
    obtain ⟨hsrc, -, -, ⟨hfalse, -⟩ | ⟨hfalse, -⟩ | ⟨-, -, -, rfl⟩⟩ := send_cases hs
    · cases hfalse
    · cases hfalse
    · exact load_enqueue_response hsrc hd rfl

theorem vacant_of_canRecv (hcan : interface.canRecv x p c = .ok false) : Vacant p c x := by
  cases h with
  | shared =>
    have hready := (canRecv_eq_ok hcan).1
    rw [eq_comm, Bool.not_eq_false', List.isEmpty_iff] at hready
    exact .shared hready

theorem recv_none (hrecv : interface.recv x p c = .ok (none, x')) : Vacant p c x ∧ x' = x := by
  cases h with
  | shared =>
    obtain ⟨⟨data, s'⟩, hs, hrecv⟩ := Except.bind_eq_ok_iff.mp hrecv
    obtain ⟨rfl, rfl⟩ := Prod.mk.inj (Except.ok.inj hrecv)
    rcases (recv_cases hs).2.2 with ⟨-, hinbox, rfl⟩ | ⟨m, rest, hdata, -⟩
    · exact ⟨.shared hinbox, rfl⟩
    · cases hdata

theorem takeRequest (hrecv : interface.recv x n requestChannel = .ok (some data, x')) :
    Measured n x' ∧ x'.cycles = x.cycles ∧ x'.load n cost + cost = x.load n cost := by
  cases h with
  | shared hsize hsmall hb hledger =>
    obtain ⟨⟨data', s'⟩, hs, hrecv⟩ := Except.bind_eq_ok_iff.mp hrecv
    obtain ⟨rfl, rfl⟩ := Prod.mk.inj (Except.ok.inj hrecv)
    refine ⟨.shared hsize hsmall hb (hledger.recv hs), rfl, ?_⟩
    rcases (recv_cases hs).2.2 with ⟨hnone, -⟩ | ⟨m, rest, -, hinbox, rfl⟩
    · cases hnone
    · exact load_dequeue_request hledger hinbox

theorem takeResponse (hp : p < n)
    (hrecv : interface.recv x p responseChannel = .ok (some data, x')) :
    Measured n x' ∧ x'.cycles = x.cycles ∧ x'.load n cost + 1 = x.load n cost := by
  cases h with
  | shared hsize hsmall hb hledger =>
    obtain ⟨⟨data', s'⟩, hs, hrecv⟩ := Except.bind_eq_ok_iff.mp hrecv
    obtain ⟨rfl, rfl⟩ := Prod.mk.inj (Except.ok.inj hrecv)
    refine ⟨.shared hsize hsmall hb (hledger.recv hs), rfl, ?_⟩
    rcases (recv_cases hs).2.2 with ⟨hnone, -⟩ | ⟨m, rest, -, hinbox, rfl⟩
    · cases hnone
    · exact load_dequeue_response hledger hp hinbox

theorem applyNextTick : ∃ x', interface.applyNextTick x = .ok x' ∧ Measured n x' ∧
    x'.cycles = x.cycles ∧ x'.load n cost ≤ x.load n cost ∧
    (x'.load n cost < x.load n cost ∨ Idle x) := by
  cases h with
  | @shared b s hsize hsmall hb hledger =>
    obtain ⟨hle, hlt⟩ := @load_applyNextTick b s n cost hsmall hb hledger
    refine ⟨_, rfl, .shared hsize hsmall hb (hledger.applyNextTick hb), rfl, hle, ?_⟩
    rcases Nat.eq_zero_or_pos (b.work s) with hidle | hpos
    · exact .inr (.shared hidle)
    · exact .inl (hlt hpos)

/-! ## An idle medium -/

section Idle

variable (hidle : Idle x)
include hidle

/-- Who cannot send finds a message that has not been taken. -/
theorem not_vacant_of_refuses (hrefuses : Refuses p d c x) : ¬Vacant d c x := by
  rintro ⟨hinbox⟩
  cases h with
  | shared hsize hsmall hb hledger =>
    cases hidle with
    | shared hwork =>
      cases hrefuses with
      | full hroom => cases hroom.symm.trans (hasRoom_of_idle hb hledger hwork p)
      | outOfCredit hcredit => exact waiting_of_outOfCredit hb hledger hwork hcredit hinbox

theorem not_vacant_of_mem {K : Prop} {letters : List Letter} (hholds : Holds n K letters x)
    {l : Letter} (hl : l ∈ letters) : ¬Vacant l.dst l.cha x := by
  rintro ⟨hinbox⟩
  cases h with
  | @shared b s hsize hsmall hb hledger =>
    cases hidle with
    | shared hwork =>
      cases hholds with
      | shared hsize' hholds hallowed =>
        obtain ⟨hcarried, hqueued⟩ := (work_eq_zero_iff hb hledger).mp hwork
        have hon : l.isOn l.src l.dst l.cha = true := Letter.isOn_eq_true_iff.mpr ⟨rfl, rfl, rfl⟩
        have hmem := List.mem_filter.mpr ⟨hl, hon⟩
        rw [hholds.located, located, hcarried, hqueued, SharedBusState.boxed, hinbox] at hmem
        cases hmem

end Idle

end Measured

end Interconnect

end Manycore
