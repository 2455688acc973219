import SimbusNoc.Manycore.SharedBus
import Mathlib.Algebra.BigOperators.Group.Finset.Basic
import Mathlib.Algebra.BigOperators.Group.Finset.Piecewise
import Mathlib.Algebra.Order.BigOperators.Group.Finset

/-!
# Accounts of the shared bus

Every accepted message is in one place: it waits in the queue of its source, is on the medium, or
has entered its inbox. `Ledger` says so for each source, in order, together with the accounts of
the inboxes and the credits, and every call keeps it.

## The invariant

`queued`, `carried` and `boxed` read off where the letters of a state are, and the ghost fields say
which were accepted, have arrived and were returned. `Ledger` equates the two sides: what a port
was asked to send is what has been granted to it and what it still queues; what has entered an
inbox is what was returned from it and what it holds; and the credits that are taken are the
letters that have been accepted and not yet returned. The due times of the transfers are part of
it, so the times of the arrivals are known as well.

## The proofs

The parts of a tick change the queues, the medium and the inboxes one after the other, so each part
has its own lemma, and `Ledger.applyNextTick` puts them together. The wait counters and warnings do
not touch letters. For each call there is a lemma with the cases in which it returns (`send_cases`,
`recv_cases`, `grant_cases`, `transfer_cases`), and nothing after it unfolds the call. `Ledger.run`
is the induction over the calls, and `exists_run_eq_ok` says that valid calls return.
-/

namespace Manycore

open Simbus

/-! ## Letters -/

namespace Letter

/-- The letter was sent by port `p`. -/
def isFrom (p : BusPortT) (l : Letter) : Bool := decide (l.src = p)

/-- The letter is for port `d` on channel `c`. -/
def isTo (d : BusPortT) (c : ChannelT) (l : Letter) : Bool := decide (l.dst = d ∧ l.cha = c)

end Letter

theorem sum_countP_update {α : Type} (P : α → Bool) {n p : ℕ} (hp : p < n) (q : ℕ → List α)
    (l : List α) :
    (∑ i ∈ Finset.range n, (Function.update q p l i).countP P) + (q p).countP P =
      (∑ i ∈ Finset.range n, (q i).countP P) + l.countP P := by
  have hmem : p ∈ Finset.range n := Finset.mem_range.mpr hp
  have hrest : ∑ i ∈ (Finset.range n).erase p, (Function.update q p l i).countP P =
      ∑ i ∈ (Finset.range n).erase p, (q i).countP P := by
    refine Finset.sum_congr rfl fun i hi ↦ ?_
    rw [Function.update_of_ne (Finset.ne_of_mem_erase hi)]
  rw [← Finset.add_sum_erase _ _ hmem, ← Finset.add_sum_erase _ (fun i ↦ (q i).countP P) hmem,
    hrest, Function.update_self]
  omega

namespace SharedBusState

variable (s : SharedBusState)

/-- The letters that wait at a port, oldest first. -/
def queued (p : BusPortT) : List Letter := (s.pending p).map BusMessage.letter

/-- The letter on the medium. -/
def carried : List Letter := s.active.toList.map BusMessage.letter

/-- The letters in an inbox, oldest first. -/
def boxed (d : BusPortT) (c : ChannelT) : List Letter := (s.inbox d c).map BusMessage.letter

/-- The letters that have entered an inbox so far. -/
def arrived : List Letter := s.arrivals.map Arrival.letter

/-- The letters of `(d, c)` that hold a credit. -/
def holders (n : ℕ) (d : BusPortT) (c : ChannelT) : ℕ :=
  (∑ p ∈ Finset.range n, (s.queued p).countP (Letter.isTo d c)) +
    s.carried.countP (Letter.isTo d c) + (s.boxed d c).length

end SharedBusState

namespace SharedBus

open SharedBusState

variable {b : SharedBus} {s s' : SharedBusState}

/-- The tick at whose end a granted letter is due. -/
def due (b : SharedBus) (g : Grant) : Arrival := ⟨g.tick + b.cycles - 1, g.letter⟩

/-- The arrival that the transfer in progress leads to. -/
def expected (s : SharedBusState) : List Arrival :=
  s.carried.map fun l ↦ ⟨s.tick + s.remaining - 1, l⟩

/-- The accounts of a state. -/
structure Ledger (b : SharedBus) (s : SharedBusState) : Prop where
  next_lt : s.next < b.size
  queued_ok : ∀ p, ∀ l ∈ s.queued p, l.src = p ∧ p < b.size ∧ l.dst < b.size ∧ l.cha ≤ 1
  carried_ok : ∀ l ∈ s.carried, l.src < b.size ∧ l.dst < b.size ∧ l.cha ≤ 1
  boxed_ok : ∀ d c, ∀ l ∈ s.boxed d c, l.dst = d ∧ l.cha = c
  busy : s.active.isSome ↔ 0 < s.remaining
  remaining_le : s.remaining ≤ b.cycles
  /-- What port `p` sent has arrived, is on the medium or waits, in this order. -/
  order : ∀ p, (s.arrived ++ s.carried).filter (Letter.isFrom p) ++ s.queued p =
    s.accepted.filter (Letter.isFrom p)
  /-- What has arrived at an inbox has been returned or lies in it, in this order. -/
  inbox : ∀ d c, s.returned d c ++ (s.boxed d c).map Letter.data =
    (s.arrived.filter (Letter.isTo d c)).map Letter.data
  credits : ∀ d c, s.reserved d c = s.holders b.size d c
  slots : b.config.receiveSlots ≠ 0 → ∀ d c, s.reserved d c ≤ b.config.receiveSlots.toNat
  depth : ∀ p, (s.queued p).length ≤ b.config.queueDepth.toNat
  timing : s.grants.map b.due = s.arrivals ++ expected s
  past : ∀ a ∈ s.arrivals, a.tick < s.tick

/-! ## The constructor -/

/-- What the constructor has checked. -/
structure Accepted (b : SharedBus) : Prop where
  size_pos : 0 < b.size
  addressCycles_pos : 0 < b.config.addressCycles.toNat
  dataCycles_pos : 0 < b.config.dataCycles.toNat
  queueDepth_pos : 0 < b.config.queueDepth.toNat

theorem construct_eq_ok {ports : UInt32} {config : SharedBusConfig}
    (h : construct ports config = .ok b) :
    b = { ports := ports, config := config } ∧ b.Accepted := by
  rw [construct, Except.bind_eq_ok_iff] at h
  obtain ⟨u, hreq, h⟩ := h
  obtain rfl := Except.ok.inj h
  rw [require_eq_ok_iff] at hreq
  simp only [Bool.not_eq_true', Bool.or_eq_false_iff, beq_eq_false_iff_ne] at hreq
  obtain ⟨⟨⟨⟨hports, haddr⟩, hdata⟩, hdepth⟩, -⟩ := hreq
  have hpos : ∀ x : UInt32, x ≠ 0 → 0 < x.toNat := by
    intro x hx
    rw [Nat.pos_iff_ne_zero]
    exact fun h0 ↦ hx (UInt32.toNat_inj.mp h0)
  exact ⟨rfl, hpos _ hports, hpos _ haddr, hpos _ hdata, hpos _ hdepth⟩

theorem Accepted.cycles_pos (hb : b.Accepted) : 2 ≤ b.cycles := by
  have haddr := hb.addressCycles_pos
  have hdata := hb.dataCycles_pos
  rw [cycles]
  omega

theorem Ledger.init (hb : b.Accepted) : b.Ledger {} where
  next_lt := hb.size_pos
  queued_ok := fun p l hl ↦ absurd hl List.not_mem_nil
  carried_ok := fun l hl ↦ absurd hl List.not_mem_nil
  boxed_ok := fun d c l hl ↦ absurd hl List.not_mem_nil
  busy := by simp
  remaining_le := Nat.zero_le _
  order := fun p ↦ rfl
  inbox := fun d c ↦ rfl
  credits := fun d c ↦ by simp [holders, queued, carried, boxed]
  slots := fun _ d c ↦ Nat.zero_le _
  depth := fun p ↦ Nat.zero_le _
  timing := rfl
  past := fun a ha ↦ absurd ha List.not_mem_nil

/-! ## Sending

An accepted message goes to the end of its source's queue and takes a credit of its destination.
-/

theorem check_eq_ok_iff {p : BusPortT} {c : ChannelT} {u : Unit} :
    b.check p c = .ok u ↔ p < b.size ∧ c ≤ 1 := by
  rw [check, require_eq_ok_iff]
  simp

theorem canSend_eq_ok {p : BusPortT} {c : ChannelT} {room : Bool}
    (h : b.canSend s p c = .ok room) : room = b.hasRoom s p ∧ p < b.size ∧ c ≤ 1 := by
  rw [canSend, Except.bind_eq_ok_iff] at h
  obtain ⟨u, hcheck, h⟩ := h
  exact ⟨(Except.ok.inj h).symm, check_eq_ok_iff.mp hcheck⟩

/-- A `send` that returns has queued the message, or the queue is full, or the credit is spent. -/
theorem send_cases {p d : BusPortT} {c : ChannelT} {bytes : Bytes} {accepted : Bool}
    (h : b.send s p d c bytes = .ok (accepted, s')) :
    p < b.size ∧ d < b.size ∧ c ≤ 1 ∧
      (accepted = false ∧ b.hasRoom s p = false ∧ s' = s ∨
        accepted = false ∧ b.outOfCredit s d c = true ∧
          s' = { s with creditStalls := s.creditStalls + 1 } ∨
        accepted = true ∧ b.hasRoom s p = true ∧ b.outOfCredit s d c = false ∧
          s' = enqueue s ⟨p, d, c, bytes⟩) := by
  rw [send, Except.bind_eq_ok_iff] at h
  obtain ⟨u, hp, h⟩ := h
  rw [Except.bind_eq_ok_iff] at h
  obtain ⟨u', hd, h⟩ := h
  rw [Except.bind_eq_ok_iff] at h
  obtain ⟨room, hroom, h⟩ := h
  obtain ⟨hp, hc⟩ := check_eq_ok_iff.mp hp
  obtain ⟨hd, -⟩ := check_eq_ok_iff.mp hd
  obtain ⟨rfl, -⟩ := canSend_eq_ok hroom
  refine ⟨hp, hd, hc, ?_⟩
  cases hfull : b.hasRoom s p with
  | false =>
    rw [hfull] at h
    obtain ⟨rfl, rfl⟩ := Prod.mk.inj (Except.ok.inj h)
    exact .inl ⟨rfl, rfl, rfl⟩
  | true =>
    rw [hfull] at h
    cases hcredit : b.outOfCredit s d c with
    | true =>
      rw [hcredit] at h
      obtain ⟨rfl, rfl⟩ := Prod.mk.inj (Except.ok.inj h)
      exact .inr (.inl ⟨rfl, rfl, rfl⟩)
    | false =>
      rw [hcredit] at h
      obtain ⟨rfl, rfl⟩ := Prod.mk.inj (Except.ok.inj h)
      exact .inr (.inr ⟨rfl, rfl, rfl, rfl⟩)

theorem exists_send_eq_ok {p d : BusPortT} {c : ChannelT} (hp : p < b.size) (hd : d < b.size)
    (hc : c ≤ 1) (s : SharedBusState) (bytes : Bytes) :
    ∃ accepted s', b.send s p d c bytes = .ok (accepted, s') := by
  have hcheck : b.check p c = .ok () := check_eq_ok_iff.mpr ⟨hp, hc⟩
  have hcheck' : b.check d c = .ok () := check_eq_ok_iff.mpr ⟨hd, hc⟩
  rw [send, canSend, hcheck, hcheck']
  simp only [bind, Except.bind, pure, Except.pure]
  split
  · exact ⟨_, _, rfl⟩
  · split
    · exact ⟨_, _, rfl⟩
    · exact ⟨_, _, rfl⟩

theorem queued_enqueue (s : SharedBusState) (l : Letter) :
    (enqueue s l).queued = Function.update s.queued l.src (s.queued l.src ++ [l]) := by
  funext p
  by_cases hp : p = l.src
  · subst hp
    simp [queued, enqueue, BusMessage.letter]
  · simp [queued, enqueue, hp]

theorem reserved_enqueue (s : SharedBusState) (l : Letter) (d : BusPortT) (c : ChannelT) :
    (enqueue s l).reserved d c = s.reserved d c + if l.isTo d c then 1 else 0 := by
  by_cases hd : d = l.dst
  · subst hd
    by_cases hc : c = l.cha
    · subst hc
      simp [enqueue, Letter.isTo]
    · simp [enqueue, Letter.isTo, hc, Ne.symm hc]
  · simp [enqueue, Letter.isTo, hd, Ne.symm hd]

theorem Ledger.enqueue (h : b.Ledger s) {l : Letter} (hsrc : l.src < b.size)
    (hdst : l.dst < b.size) (hcha : l.cha ≤ 1) (hroom : b.hasRoom s l.src = true)
    (hcredit : b.outOfCredit s l.dst l.cha = false) : b.Ledger (SharedBus.enqueue s l) where
  next_lt := h.next_lt
  queued_ok := by
    intro p l' hl'
    rw [queued_enqueue] at hl'
    by_cases hp : p = l.src
    · subst hp
      rw [Function.update_self, List.mem_append, List.mem_singleton] at hl'
      rcases hl' with hl' | rfl
      · exact h.queued_ok _ _ hl'
      · exact ⟨rfl, hsrc, hdst, hcha⟩
    · rw [Function.update_of_ne hp] at hl'
      exact h.queued_ok _ _ hl'
  carried_ok := h.carried_ok
  boxed_ok := h.boxed_ok
  busy := h.busy
  remaining_le := h.remaining_le
  order := by
    intro p
    -- At its source the letter is the last on both sides, elsewhere it is on neither.
    have horder := h.order p
    change (s.arrived ++ s.carried).filter (Letter.isFrom p) ++
      (SharedBus.enqueue s l).queued p = (s.accepted ++ [l]).filter (Letter.isFrom p)
    rw [queued_enqueue, List.filter_append s.accepted, ← horder]
    by_cases hp : p = l.src
    · subst hp
      rw [Function.update_self, List.filter_cons_of_pos (by simp [Letter.isFrom]),
        List.filter_nil, List.append_assoc]
    · have hne : ¬l.isFrom p = true := by simpa [Letter.isFrom] using Ne.symm hp
      rw [Function.update_of_ne hp, List.filter_cons_of_neg hne, List.filter_nil, List.append_nil]
  inbox := h.inbox
  credits := by
    intro d c
    -- One letter more in the queues is one more that holds a credit.
    have hsum := sum_countP_update (Letter.isTo d c) hsrc s.queued (s.queued l.src ++ [l])
    have hone : [l].countP (Letter.isTo d c) = if l.isTo d c then 1 else 0 := by
      rw [List.countP_singleton]
    rw [List.countP_append, hone] at hsum
    have hheld := h.credits d c
    rw [reserved_enqueue]
    change _ = (∑ p ∈ Finset.range b.size, ((SharedBus.enqueue s l).queued p).countP
      (Letter.isTo d c)) + s.carried.countP (Letter.isTo d c) + (s.boxed d c).length
    rw [queued_enqueue]
    rw [holders] at hheld
    omega
  slots := by
    intro hslots d c
    have hle := h.slots hslots d c
    rw [reserved_enqueue]
    by_cases hto : l.isTo d c = true
    · rw [if_pos hto]
      simp only [Letter.isTo, decide_eq_true_eq] at hto
      obtain ⟨rfl, rfl⟩ := hto
      have hzero : (b.config.receiveSlots == 0) = false := beq_eq_false_iff_ne.mpr hslots
      -- The check of `send` has found a credit left.
      rw [outOfCredit, hzero] at hcredit
      simp only [Bool.not_false, Bool.true_and, decide_eq_false_iff_not, not_le] at hcredit
      omega
    · rw [if_neg hto]
      exact hle
  depth := by
    intro p
    rw [queued_enqueue]
    by_cases hp : p = l.src
    · subst hp
      have hlt : (s.queued l.src).length < b.config.queueDepth.toNat := by
        rw [queued, List.length_map]
        exact of_decide_eq_true hroom
      rw [Function.update_self, List.length_append]
      exact hlt
    · rw [Function.update_of_ne hp]
      exact h.depth p
  timing := h.timing
  past := h.past

theorem Ledger.send (h : b.Ledger s) {p d : BusPortT} {c : ChannelT} {bytes : Bytes}
    {accepted : Bool} (hsend : b.send s p d c bytes = .ok (accepted, s')) : b.Ledger s' := by
  obtain ⟨hp, hd, hc, hcases⟩ := send_cases hsend
  rcases hcases with ⟨-, -, rfl⟩ | ⟨-, -, rfl⟩ | ⟨-, hroom, hcredit, rfl⟩
  · exact h
  · exact { h with }
  · exact h.enqueue hp hd hc hroom hcredit

/-! ## Receiving

A message that is received leaves the front of its inbox and gives its credit back.
-/

theorem canRecv_eq_ok {p : BusPortT} {c : ChannelT} {ready : Bool}
    (h : b.canRecv s p c = .ok ready) : ready = !(s.inbox p c).isEmpty ∧ p < b.size ∧ c ≤ 1 := by
  rw [canRecv, Except.bind_eq_ok_iff] at h
  obtain ⟨u, hcheck, h⟩ := h
  exact ⟨(Except.ok.inj h).symm, check_eq_ok_iff.mp hcheck⟩

/-- A `recv` that returns found the inbox empty, or has taken its oldest message. -/
theorem recv_cases {p : BusPortT} {c : ChannelT} {bytes : Option Bytes}
    (h : b.recv s p c = .ok (bytes, s')) :
    p < b.size ∧ c ≤ 1 ∧
      (bytes = none ∧ s.inbox p c = [] ∧ s' = s ∨
        ∃ m rest, bytes = some m.bytes ∧ s.inbox p c = m :: rest ∧
          s' = dequeue s p c m.bytes rest) := by
  rw [recv, Except.bind_eq_ok_iff] at h
  obtain ⟨ready, hready, h⟩ := h
  obtain ⟨rfl, hp, hc⟩ := canRecv_eq_ok hready
  refine ⟨hp, hc, ?_⟩
  cases hbox : s.inbox p c with
  | nil =>
    rw [hbox] at h
    obtain ⟨rfl, rfl⟩ := Prod.mk.inj (Except.ok.inj h)
    exact .inl ⟨rfl, rfl, rfl⟩
  | cons m rest =>
    rw [hbox] at h
    obtain ⟨rfl, rfl⟩ := Prod.mk.inj (Except.ok.inj h)
    exact .inr ⟨m, rest, rfl, rfl, rfl⟩

theorem exists_recv_eq_ok {p : BusPortT} {c : ChannelT} (hp : p < b.size) (hc : c ≤ 1)
    (s : SharedBusState) : ∃ bytes s', b.recv s p c = .ok (bytes, s') := by
  have hcheck : b.check p c = .ok () := check_eq_ok_iff.mpr ⟨hp, hc⟩
  rw [recv, canRecv, hcheck]
  cases hbox : s.inbox p c with
  | nil => exact ⟨_, _, rfl⟩
  | cons m rest => exact ⟨_, _, rfl⟩

theorem Ledger.dequeue (h : b.Ledger s) {p : BusPortT} {c : ChannelT} {m : BusMessage}
    {rest : List BusMessage} (hbox : s.inbox p c = m :: rest) :
    b.Ledger (SharedBus.dequeue s p c m.bytes rest) := by
  have hboxed : s.boxed p c = m.letter :: rest.map BusMessage.letter := by
    rw [boxed, hbox, List.map_cons]
  -- Only this one inbox changes.
  have hsame : ∀ d c', ¬(d = p ∧ c' = c) →
      (SharedBus.dequeue s p c m.bytes rest).boxed d c' = s.boxed d c' ∧
      (SharedBus.dequeue s p c m.bytes rest).returned d c' = s.returned d c' ∧
      (SharedBus.dequeue s p c m.bytes rest).reserved d c' = s.reserved d c' := by
    intro d c' hne
    by_cases hd : d = p
    · subst hd
      have hc' : c' ≠ c := fun hc' ↦ hne ⟨rfl, hc'⟩
      simp [SharedBus.dequeue, boxed, hc']
    · simp [SharedBus.dequeue, boxed, hd]
  have hself : (SharedBus.dequeue s p c m.bytes rest).boxed p c = rest.map BusMessage.letter ∧
      (SharedBus.dequeue s p c m.bytes rest).returned p c = s.returned p c ++ [m.bytes] ∧
      (SharedBus.dequeue s p c m.bytes rest).reserved p c = s.reserved p c - 1 := by
    simp [SharedBus.dequeue, boxed]
  refine { h with boxed_ok := ?_, inbox := ?_, credits := ?_, slots := ?_ }
  · intro d c' l hl
    by_cases heq : d = p ∧ c' = c
    · obtain ⟨rfl, rfl⟩ := heq
      rw [hself.1] at hl
      exact h.boxed_ok _ _ l (hboxed ▸ List.mem_cons_of_mem _ hl)
    · rw [(hsame d c' heq).1] at hl
      exact h.boxed_ok d c' l hl
  · intro d c'
    by_cases heq : d = p ∧ c' = c
    · obtain ⟨rfl, rfl⟩ := heq
      have hin := h.inbox d c'
      rw [hboxed, List.map_cons] at hin
      rw [hself.1, hself.2.1, List.append_assoc]
      exact hin
    · rw [(hsame d c' heq).1, (hsame d c' heq).2.1]
      exact h.inbox d c'
  · intro d c'
    have hheld := h.credits d c'
    change _ = (∑ p ∈ Finset.range b.size, (s.queued p).countP (Letter.isTo d c')) +
      s.carried.countP (Letter.isTo d c') + _
    rw [holders] at hheld
    by_cases heq : d = p ∧ c' = c
    · obtain ⟨rfl, rfl⟩ := heq
      rw [hself.1, hself.2.2]
      rw [hboxed, List.length_cons] at hheld
      omega
    · rw [(hsame d c' heq).1, (hsame d c' heq).2.2]
      exact hheld
  · intro hslots d c'
    have hle := h.slots hslots d c'
    by_cases heq : d = p ∧ c' = c
    · obtain ⟨rfl, rfl⟩ := heq
      rw [hself.2.2]
      omega
    · rw [(hsame d c' heq).2.2]
      exact hle

theorem Ledger.recv (h : b.Ledger s) {p : BusPortT} {c : ChannelT} {bytes : Option Bytes}
    (hrecv : b.recv s p c = .ok (bytes, s')) : b.Ledger s' := by
  obtain ⟨-, -, ⟨-, -, rfl⟩ | ⟨m, rest, -, hbox, rfl⟩⟩ := recv_cases hrecv
  · exact h
  · exact h.dequeue hbox

/-! ## The grant

The message granted is the oldest of its port. It moves from the queue to the medium.
-/

theorem heads_eq_true_iff {c : ChannelT} {p : BusPortT} :
    heads s c p = true ↔ ∃ m rest, s.pending p = m :: rest ∧ m.channel = c := by
  rw [heads]
  cases hpending : s.pending p with
  | nil => simp
  | cons m rest => simp

theorem asSelected_eq_some {x : Option BusPortT} {p : BusPortT} (h : asSelected x = some p) :
    x = some p ∧ p < 2 ^ 31 := by
  rw [asSelected, Option.filter_eq_some_iff] at h
  exact ⟨h.1, of_decide_eq_true h.2⟩

theorem lt_size_of_mem_scan {p : BusPortT} {next : BusPortT}
    (h : p ∈ (List.range b.size).map (b.scanned next)) : p < b.size := by
  obtain ⟨k, hk, rfl⟩ := List.mem_map.mp h
  have hk' : k < b.size := List.mem_range.mp hk
  rw [scanned]
  split
  · exact hk'
  · exact Nat.mod_lt _ (Nat.zero_lt_of_lt hk')

theorem firstHead_eq_some {c : ChannelT} {p : BusPortT} (h : b.firstHead s c = some p) :
    p < b.size ∧ ∃ m rest, s.pending p = m :: rest ∧ m.channel = c := by
  rw [firstHead] at h
  exact ⟨lt_size_of_mem_scan (List.mem_of_find?_eq_some h),
    heads_eq_true_iff.mp (List.find?_some h)⟩

theorem selected_eq_some {p : BusPortT} (h : b.selected s = some p) :
    p < b.size ∧ ∃ m rest, s.pending p = m :: rest := by
  rw [selected] at h
  split at h
  · rename_i q hq
    obtain rfl := Option.some.inj h
    obtain ⟨hlt, m, rest, hpending, -⟩ := firstHead_eq_some (asSelected_eq_some hq).1
    exact ⟨hlt, m, rest, hpending⟩
  · obtain ⟨hlt, m, rest, hpending, -⟩ := firstHead_eq_some (asSelected_eq_some h).1
    exact ⟨hlt, m, rest, hpending⟩

/-- A tick grants an idle medium to the port selected, or changes nothing at first. -/
theorem grant_cases (b : SharedBus) (s : SharedBusState) :
    (∃ p m rest, s.active = none ∧ b.selected s = some p ∧ p < b.size ∧
        s.pending p = m :: rest ∧ b.grant s = b.grantTo s p m rest) ∨
      ((s.active.isSome ∨ b.selected s = none) ∧ b.grant s = s) := by
  rw [grant]
  cases hactive : s.active with
  | some m => exact .inr ⟨.inl rfl, rfl⟩
  | none =>
    cases hselected : b.selected s with
    | none => exact .inr ⟨.inr rfl, rfl⟩
    | some p =>
      obtain ⟨hlt, m, rest, hpending⟩ := selected_eq_some hselected
      refine .inl ⟨p, m, rest, rfl, rfl, hlt, hpending, ?_⟩
      dsimp only
      rw [hpending]

theorem queued_grantTo (s : SharedBusState) (p : BusPortT) (m : BusMessage)
    (rest : List BusMessage) :
    (b.grantTo s p m rest).queued =
      Function.update s.queued p (rest.map BusMessage.letter) := by
  funext q
  by_cases hq : q = p
  · subst hq
    simp [queued, grantTo]
  · simp [queued, grantTo, hq]

theorem Ledger.grantTo (hb : b.Accepted) (h : b.Ledger s) {p : BusPortT} {m : BusMessage}
    {rest : List BusMessage} (hidle : s.active = none) (hpending : s.pending p = m :: rest) :
    b.Ledger (b.grantTo s p m rest) := by
  have hcycles := hb.cycles_pos
  have hqueued : s.queued p = m.letter :: rest.map BusMessage.letter := by
    rw [queued, hpending, List.map_cons]
  have hcarried : s.carried = [] := by rw [carried, hidle]; rfl
  have hmem : m.letter ∈ s.queued p := hqueued ▸ List.mem_cons_self
  obtain ⟨hsrc, hp, hdst, hcha⟩ := h.queued_ok p _ hmem
  have hcarried' : (b.grantTo s p m rest).carried = [m.letter] := rfl
  refine
    { next_lt := ?_, queued_ok := ?_, carried_ok := ?_, boxed_ok := h.boxed_ok, busy := ?_
      remaining_le := le_rfl, order := ?_, inbox := h.inbox, credits := ?_, slots := h.slots
      depth := ?_, timing := ?_, past := h.past }
  · rw [SharedBus.grantTo]
    dsimp only
    split
    · exact Nat.mod_lt _ hb.size_pos
    · exact h.next_lt
  · intro q l hl
    rw [queued_grantTo] at hl
    by_cases hq : q = p
    · subst hq
      rw [Function.update_self] at hl
      exact h.queued_ok q l (hqueued ▸ List.mem_cons_of_mem _ hl)
    · rw [Function.update_of_ne hq] at hl
      exact h.queued_ok q l hl
  · intro l hl
    rw [hcarried', List.mem_singleton] at hl
    subst hl
    exact ⟨hsrc ▸ hp, hdst, hcha⟩
  · exact ⟨fun _ ↦ Nat.lt_of_lt_of_le Nat.zero_lt_two hcycles, fun _ ↦ rfl⟩
  · intro q
    -- The letter goes from the front of the queue to the medium, which is next in the order.
    have horder := h.order q
    change (s.arrived ++ [m.letter]).filter (Letter.isFrom q) ++ _ = _
    rw [hcarried, List.append_nil] at horder
    rw [queued_grantTo, List.filter_append]
    by_cases hq : q = p
    · subst hq
      rw [hqueued] at horder
      rw [Function.update_self, List.filter_cons_of_pos (by simp [Letter.isFrom, hsrc]),
        List.filter_nil, List.append_assoc]
      exact horder
    · have hne : ¬m.letter.isFrom q = true := by
        simpa [Letter.isFrom, hsrc] using Ne.symm hq
      rw [Function.update_of_ne hq, List.filter_cons_of_neg hne, List.filter_nil, List.append_nil]
      exact horder
  · intro d c
    -- What is lost in the queues is counted on the medium.
    have hsum := sum_countP_update (Letter.isTo d c) hp s.queued (rest.map BusMessage.letter)
    rw [hqueued, ← List.singleton_append, List.countP_append] at hsum
    have hheld := h.credits d c
    rw [holders, hcarried, List.countP_nil] at hheld
    rw [holders, queued_grantTo, hcarried']
    change s.reserved d c = _ + _ + (s.boxed d c).length
    omega
  · intro q
    rw [queued_grantTo]
    by_cases hq : q = p
    · subst hq
      have hle := h.depth q
      rw [hqueued, List.length_cons] at hle
      rw [Function.update_self]
      exact Nat.le_of_succ_le hle
    · rw [Function.update_of_ne hq]
      exact h.depth q
  · -- The grant is logged together with the arrival that it leads to.
    have htiming := h.timing
    rw [expected, hcarried, List.map_nil, List.append_nil] at htiming
    change (s.grants ++ [Grant.mk s.tick m.letter]).map b.due =
      s.arrivals ++ [Arrival.mk (s.tick + b.cycles - 1) m.letter]
    rw [List.map_append, htiming]
    rfl

theorem Ledger.grant (hb : b.Accepted) (h : b.Ledger s) : b.Ledger (b.grant s) := by
  rcases grant_cases b s with ⟨p, m, rest, hidle, -, -, hpending, heq⟩ | ⟨-, heq⟩
  · rw [heq]
    exact h.grantTo hb hidle hpending
  · rw [heq]
    exact h

/-! ## Waiting -/

theorem letter_warn (now : ℕ) (m : BusMessage) : (b.warn now m).letter = m.letter := by
  rw [warn]
  split <;> rfl

@[simp] theorem queued_countWaits (s : SharedBusState) : (b.countWaits s).queued = s.queued := by
  funext p
  rw [queued, queued, countWaits]
  simp only [List.map_map, Function.comp_def, letter_warn]

theorem Ledger.countWaits (h : b.Ledger s) : b.Ledger (b.countWaits s) :=
  { h with
    queued_ok := fun p l hl ↦ h.queued_ok p l (queued_countWaits (b := b) s ▸ hl)
    order := fun p ↦ queued_countWaits (b := b) s ▸ h.order p
    credits := fun d c ↦ by
      rw [holders, queued_countWaits]
      exact h.credits d c
    depth := fun p ↦ queued_countWaits (b := b) s ▸ h.depth p }

/-! ## The transfer -/

theorem transfer_of_idle (h : s.active = none) :
    transfer s = { s with idleCycles := s.idleCycles + 1 } := by
  rw [transfer, h]

/-- The end of a tick leaves an idle medium, moves the transfer on, or ends it. -/
theorem transfer_cases (s : SharedBusState) :
    s.active = none ∧ transfer s = { s with idleCycles := s.idleCycles + 1 } ∨
      (∃ m, s.active = some m ∧ s.remaining - 1 ≠ 0 ∧
        transfer s =
          { s with busyCycles := s.busyCycles + 1, remaining := s.remaining - 1 }) ∨
      ∃ m, s.active = some m ∧ s.remaining - 1 = 0 ∧
        transfer s =
          deliver { s with busyCycles := s.busyCycles + 1, remaining := s.remaining - 1 } m := by
  cases hactive : s.active with
  | none =>
    refine .inl ⟨rfl, ?_⟩
    rw [transfer_of_idle hactive, hactive]
  | some m =>
    rw [transfer, hactive]
    by_cases hlast : s.remaining - 1 = 0
    · exact .inr (.inr ⟨m, rfl, hlast, if_pos hlast⟩)
    · exact .inr (.inl ⟨m, rfl, hlast, if_neg hlast⟩)

theorem boxed_deliver (s : SharedBusState) (m : BusMessage) (d : BusPortT) (c : ChannelT) :
    (deliver s m).boxed d c = s.boxed d c ++ if m.letter.isTo d c then [m.letter] else [] := by
  by_cases hd : d = m.dst
  · subst hd
    by_cases hc : c = m.channel
    · subst hc
      simp [deliver, boxed, Letter.isTo, BusMessage.letter]
    · simp [deliver, boxed, Letter.isTo, BusMessage.letter, hc, Ne.symm hc]
  · simp [deliver, boxed, Letter.isTo, BusMessage.letter, hd, Ne.symm hd]

/-! ### The transfer and the step of the clock

The medium is free, carries its message for another cycle, or delivers it.
-/

theorem Ledger.idleCycle (h : b.Ledger s) (hidle : s.active = none) :
    b.Ledger { s with idleCycles := s.idleCycles + 1, tick := s.tick + 1 } := by
  have hcarried : s.carried = [] := by rw [carried, hidle]; rfl
  refine { h with timing := ?_, past := fun a ha ↦ Nat.lt_succ_of_lt (h.past a ha) }
  have htiming := h.timing
  rw [expected, hcarried] at htiming
  change _ = _ ++ List.map _ s.carried
  rw [hcarried]
  exact htiming

theorem Ledger.busyCycle (h : b.Ledger s) {m : BusMessage} (hactive : s.active = some m)
    (hmore : s.remaining - 1 ≠ 0) :
    b.Ledger { s with
      busyCycles := s.busyCycles + 1, remaining := s.remaining - 1, tick := s.tick + 1 } := by
  refine
    { h with busy := ?_, remaining_le := ?_, timing := ?_
             past := fun a ha ↦ Nat.lt_succ_of_lt (h.past a ha) }
  · refine ⟨fun _ ↦ Nat.pos_of_ne_zero hmore, fun _ ↦ ?_⟩
    exact hactive ▸ rfl
  · exact (Nat.sub_le _ _).trans h.remaining_le
  · have htick : s.tick + 1 + (s.remaining - 1) - 1 = s.tick + s.remaining - 1 := by omega
    change s.grants.map b.due =
      s.arrivals ++ s.carried.map (Arrival.mk (s.tick + 1 + (s.remaining - 1) - 1))
    rw [htick]
    exact h.timing

/-- The letter on the medium keeps its credit when it enters its inbox. -/
theorem Ledger.credits_deliver (h : b.Ledger s) {m : BusMessage} (hcarried : s.carried = [m.letter])
    (d : BusPortT) (c : ChannelT) :
    s.reserved d c = (∑ p ∈ Finset.range b.size, (s.queued p).countP (Letter.isTo d c)) + 0 +
      (s.boxed d c ++ if m.letter.isTo d c then [m.letter] else []).length := by
  have hheld := h.credits d c
  rw [holders, hcarried, List.countP_singleton] at hheld
  rw [List.length_append]
  by_cases hto : m.letter.isTo d c = true
  · rw [if_pos hto] at hheld ⊢
    rw [hheld, List.length_singleton]
    omega
  · rw [if_neg hto] at hheld ⊢
    rw [hheld, List.length_nil]
    omega

theorem Ledger.lastCycle (h : b.Ledger s) {m : BusMessage} (hactive : s.active = some m)
    (hlast : s.remaining - 1 = 0) :
    b.Ledger { deliver
        { s with busyCycles := s.busyCycles + 1, remaining := s.remaining - 1 } m with
      tick := s.tick + 1 } := by
  have hcarried : s.carried = [m.letter] := by rw [carried, hactive]; rfl
  have hone : s.remaining = 1 := by
    have hpos : 0 < s.remaining := h.busy.mp (hactive ▸ rfl)
    omega
  have hboxed := boxed_deliver
    { s with busyCycles := s.busyCycles + 1, remaining := s.remaining - 1 } m
  refine
    { h with carried_ok := ?_, boxed_ok := ?_, busy := ?_, remaining_le := ?_, order := ?_
             inbox := ?_, credits := ?_, timing := ?_, past := ?_ }
  · exact fun l hl ↦ absurd hl List.not_mem_nil
  · intro d c l hl
    change l ∈ (deliver _ m).boxed d c at hl
    rw [hboxed, List.mem_append] at hl
    rcases hl with hl | hl
    · exact h.boxed_ok d c l hl
    · by_cases hto : m.letter.isTo d c = true
      · rw [if_pos hto, List.mem_singleton] at hl
        subst hl
        exact of_decide_eq_true hto
      · rw [if_neg hto] at hl
        exact absurd hl List.not_mem_nil
  · change none.isSome = true ↔ 0 < s.remaining - 1
    rw [hone]
    simp
  · exact Nat.le_trans (Nat.sub_le _ _) h.remaining_le
  · intro p
    -- The letter goes from the medium to the arrivals, in the same place of the order.
    have horder := h.order p
    change ((s.arrivals ++ [Arrival.mk s.tick m.letter]).map Arrival.letter ++ []).filter _ ++
      s.queued p = _
    rw [hcarried] at horder
    rw [List.map_append, List.append_nil]
    exact horder
  · intro d c
    -- What is new in the inbox is new among the arrivals for it.
    have hin := h.inbox d c
    change s.returned d c ++ ((deliver _ m).boxed d c).map Letter.data =
      (((s.arrivals ++ [Arrival.mk s.tick m.letter]).map Arrival.letter).filter _).map _
    rw [hboxed, List.map_append, List.map_append, List.filter_append, List.map_append,
      ← List.append_assoc]
    change s.returned d c ++ (s.boxed d c).map Letter.data ++ _ =
      (s.arrived.filter (Letter.isTo d c)).map Letter.data ++ _
    rw [hin]
    congr 1
    by_cases hto : m.letter.isTo d c = true
    · simp [hto]
    · simp [hto]
  · intro d c
    change s.reserved d c = (∑ p ∈ Finset.range b.size, (s.queued p).countP (Letter.isTo d c)) +
      0 + ((deliver _ m).boxed d c).length
    rw [hboxed]
    exact h.credits_deliver hcarried d c
  · have htiming := h.timing
    -- With one cycle left the expected arrival is one in this tick.
    rw [expected, hcarried, hone] at htiming
    change _ = (s.arrivals ++ [Arrival.mk s.tick m.letter]) ++ []
    rw [List.append_nil]
    exact htiming
  · intro a ha
    change a ∈ s.arrivals ++ [Arrival.mk s.tick m.letter] at ha
    rw [List.mem_append, List.mem_singleton] at ha
    rcases ha with ha | rfl
    · exact Nat.lt_succ_of_lt (h.past a ha)
    · exact Nat.lt_succ_self s.tick

theorem Ledger.transfer (h : b.Ledger s) :
    b.Ledger { SharedBus.transfer s with tick := (SharedBus.transfer s).tick + 1 } := by
  rcases transfer_cases s with ⟨hidle, heq⟩ | ⟨m, hactive, hmore, heq⟩ | ⟨m, hactive, hlast, heq⟩
  · rw [heq]
    exact h.idleCycle hidle
  · rw [heq]
    exact h.busyCycle hactive hmore
  · rw [heq]
    exact h.lastCycle hactive hlast

theorem Ledger.applyNextTick (hb : b.Accepted) (h : b.Ledger s) :
    b.Ledger (b.applyNextTick s) :=
  (h.grant hb).countWaits.transfer

/-! ## Runs -/

theorem Ledger.perform (hb : b.Accepted) (h : b.Ledger s) {call : Call}
    (hcall : b.perform s call = .ok s') : b.Ledger s' := by
  cases call with
  | send port dstPort channel bytes =>
    rw [SharedBus.perform, Except.bind_eq_ok_iff] at hcall
    obtain ⟨⟨accepted, s₁⟩, hsend, hcall⟩ := hcall
    exact Except.ok.inj hcall ▸ h.send hsend
  | recv port channel =>
    rw [SharedBus.perform, Except.bind_eq_ok_iff] at hcall
    obtain ⟨⟨bytes, s₁⟩, hrecv, hcall⟩ := hcall
    exact Except.ok.inj hcall ▸ h.recv hrecv
  | applyNextTick => exact Except.ok.inj hcall ▸ h.applyNextTick hb

theorem Ledger.run (hb : b.Accepted) (h : b.Ledger s) {calls : List Call}
    (hrun : b.run s calls = .ok s') : b.Ledger s' :=
  foldlM_keeps b.Ledger h (fun _ _ _ _ hs hcall ↦ hs.perform hb hcall) hrun

theorem exists_perform_eq_ok {call : Call} (hcall : call.Valid b) (s : SharedBusState) :
    ∃ s', b.perform s call = .ok s' := by
  cases call with
  | send port dstPort channel bytes =>
    obtain ⟨hp, hd, hc⟩ := hcall
    obtain ⟨accepted, s', hsend⟩ := exists_send_eq_ok hp hd hc s bytes
    exact ⟨s', by rw [SharedBus.perform, hsend]; rfl⟩
  | recv port channel =>
    obtain ⟨hp, hc⟩ := hcall
    obtain ⟨bytes, s', hrecv⟩ := exists_recv_eq_ok hp hc s
    exact ⟨s', by rw [SharedBus.perform, hrecv]; rfl⟩
  | applyNextTick => exact ⟨_, rfl⟩

theorem exists_run_eq_ok {calls : List Call} (hcalls : ∀ call ∈ calls, call.Valid b) :
    ∀ s : SharedBusState, ∃ s', b.run s calls = .ok s' := by
  induction calls with
  | nil => exact fun s ↦ ⟨s, rfl⟩
  | cons call calls ih =>
    intro s
    obtain ⟨s₁, hs₁⟩ := exists_perform_eq_ok (hcalls call List.mem_cons_self) s
    obtain ⟨s', hs'⟩ := ih (fun c hc ↦ hcalls c (List.mem_cons_of_mem _ hc)) s₁
    refine ⟨s', ?_⟩
    rw [SharedBus.run, List.foldlM_cons, hs₁]
    exact hs'

end SharedBus

end Manycore
