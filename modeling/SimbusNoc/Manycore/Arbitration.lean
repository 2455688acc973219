import SimbusNoc.Manycore.SharedBusLedger
import SimbusNoc.Library.RoundRobin
import Mathlib.Logic.Function.Iterate

/-!
# Arbitration of the shared bus

With at most `2 ^ 31` ports the 32-bit index of the scan does not wrap and every port that it finds
is a non-negative `int`. Then the scan finds whoever waits, so that the bus drains when nothing
more is sent, and a request at the head of its queue lets every other port go first at most once.

With more ports than that, a message of port `2 ^ 31` is found and not taken: it is never granted.

## Draining

`work` counts the ticks that the messages on the way still take: the rest of the transfer and a
full transfer for each queued message. A tick lowers it by one unless it is zero, so the bus is
drained after `work` ticks, and the ledger says that everything accepted has then arrived.

## Requests in turn

While a request waits at the head of port `p`, each grant of a request goes to a port that comes
before `p` in the round that starts at the arbiter's pointer, and moves the pointer behind that
port. The distance of `p` from the pointer therefore falls with each grant. The argument about
pointers and distances is that of any round robin and stands in the library; `serves_tick` is its
step, for a tick, and `serves_run` its course, for any calls.

## The exact range

`Delivers` and `Arbitrates` are the promises, over every run. `delivers_iff` and `arbitrates_iff`
say for which numbers of ports they hold, the other direction by the run `highCalls`.
-/

namespace Manycore

open Simbus

namespace SharedBus

open SharedBusState

variable {b : SharedBus} {s s' : SharedBusState}

/-! ## What the scan finds

With at most `2 ^ 31` ports the scan visits all of them, each once, and what it finds is a port
that waits, the first in the order of the scan. Responses are looked for before requests.
-/

/-- Every port that is found is a non-negative `int`. -/
theorem lt_of_selected {p : BusPortT} (h : b.selected s = some p) : p < 2 ^ 31 := by
  rw [selected] at h
  split at h
  · rename_i q hq
    exact Option.some.inj h ▸ (asSelected_eq_some hq).2
  · exact (asSelected_eq_some h).2

theorem scan_eq (hsize : b.size ≤ 2 ^ 31) {next : ℕ} (hnext : next < b.size) :
    (List.range b.size).map (b.scanned next) =
      if b.config.fixedPriority then List.range b.size else RoundRobin.scan b.size next := by
  cases hfixed : b.config.fixedPriority with
  | true =>
    have hid : b.scanned next = id := by
      funext k
      rw [scanned, hfixed]
      rfl
    rw [hid, List.map_id]
    rfl
  | false =>
    refine List.map_congr_left fun k hk ↦ ?_
    have hk' : k < b.size := List.mem_range.mp hk
    rw [scanned, hfixed, if_neg Bool.false_ne_true, Nat.mod_eq_of_lt (a := next + k) (by omega)]

theorem mem_scan (hsize : b.size ≤ 2 ^ 31) {next : BusPortT} (hnext : next < b.size)
    {p : BusPortT} : p ∈ (List.range b.size).map (b.scanned next) ↔ p < b.size := by
  rw [scan_eq hsize hnext]
  split
  · exact List.mem_range
  · exact RoundRobin.mem_scan hnext

theorem firstHead_eq_none (hsize : b.size ≤ 2 ^ 31) (h : b.Ledger s) {c : ChannelT}
    (hnone : b.firstHead s c = none) (p : BusPortT) : heads s c p = false := by
  by_contra hne
  have hheads : heads s c p = true := by simpa using hne
  obtain ⟨m, rest, hpending, -⟩ := heads_eq_true_iff.mp hheads
  have hmem : m.letter ∈ s.queued p := by
    rw [queued, hpending]
    exact List.mem_cons_self
  have hp := (h.queued_ok p _ hmem).2.1
  rw [firstHead, List.find?_eq_none] at hnone
  exact hnone p ((mem_scan hsize h.next_lt).mpr hp) hheads

theorem asSelected_firstHead (hsize : b.size ≤ 2 ^ 31) (c : ChannelT) :
    asSelected (b.firstHead s c) = b.firstHead s c := by
  cases hfirst : b.firstHead s c with
  | none => rfl
  | some p =>
    have hp : p < b.size := (firstHead_eq_some hfirst).1
    have hlt : p < 2 ^ 31 := Nat.lt_of_lt_of_le hp hsize
    rw [asSelected, Option.filter_some, if_pos (decide_eq_true hlt)]

/-- The port selected has a response at the head of its queue, or no port has one. -/
theorem selected_cases (hsize : b.size ≤ 2 ^ 31) (h : b.Ledger s) {p : BusPortT}
    (hsel : b.selected s = some p) :
    b.firstHead s 1 = some p ∨ (∀ q, heads s 1 q = false) ∧ b.firstHead s 0 = some p := by
  rw [selected, asSelected_firstHead hsize, asSelected_firstHead hsize] at hsel
  cases hresponse : b.firstHead s 1 with
  | some q =>
    rw [hresponse] at hsel
    exact .inl hsel
  | none =>
    rw [hresponse] at hsel
    exact .inr ⟨firstHead_eq_none hsize h hresponse, hsel⟩

theorem selected_eq_none (hsize : b.size ≤ 2 ^ 31) (h : b.Ledger s)
    (hsel : b.selected s = none) (p : BusPortT) : s.pending p = [] := by
  rw [selected, asSelected_firstHead hsize, asSelected_firstHead hsize] at hsel
  cases hresponse : b.firstHead s 1 with
  | some q =>
    rw [hresponse] at hsel
    exact absurd hsel (by simp)
  | none =>
    rw [hresponse] at hsel
    cases hpending : s.pending p with
    | nil => rfl
    | cons m rest =>
      have hmem : m.letter ∈ s.queued p := by
        rw [queued, hpending]
        exact List.mem_cons_self
      have hcha : m.channel ≤ 1 := (h.queued_ok p _ hmem).2.2.2
      -- the message is on one of the two channels, and both scans have found nothing
      have hno : ∀ c, b.firstHead s c = none → m.channel ≠ c := by
        intro c hnone hc
        have hheads := firstHead_eq_none hsize h hnone p
        rw [heads_eq_true_iff.mpr ⟨m, rest, hpending, hc⟩] at hheads
        exact Bool.noConfusion hheads
      rcases Nat.le_one_iff_eq_zero_or_eq_one.mp hcha with hc | hc
      · exact absurd hc (hno 0 hsel)
      · exact absurd hc (hno 1 hresponse)

/-- In which case a tick grants the medium. -/
theorem grant_spec (hsize : b.size ≤ 2 ^ 31) (h : b.Ledger s) :
    (∃ p m rest, s.active = none ∧ b.selected s = some p ∧ s.pending p = m :: rest ∧
        b.grant s = b.grantTo s p m rest) ∨
      (s.active.isSome ∨ ∀ p, s.pending p = []) ∧ b.grant s = s := by
  rcases grant_cases b s with ⟨p, m, rest, hidle, hsel, -, hpending, heq⟩ | ⟨hno, heq⟩
  · exact .inl ⟨p, m, rest, hidle, hsel, hpending, heq⟩
  · exact .inr ⟨hno.imp_right fun hsel ↦ selected_eq_none hsize h hsel, heq⟩

/-! ## Draining -/

/-- The ticks that the messages on the way still take. -/
def work (b : SharedBus) (s : SharedBusState) : ℕ :=
  s.remaining + b.cycles * ∑ p ∈ Finset.range b.size, (s.queued p).length

theorem queued_eq_nil_of_le (h : b.Ledger s) {p : BusPortT} (hp : b.size ≤ p) :
    s.queued p = [] := by
  by_contra hne
  obtain ⟨l, hl⟩ := List.exists_mem_of_ne_nil _ hne
  exact absurd (h.queued_ok p l hl).2.1 (Nat.not_lt.mpr hp)

theorem work_eq_zero_iff (hb : b.Accepted) (h : b.Ledger s) :
    b.work s = 0 ↔ s.carried = [] ∧ ∀ p, s.queued p = [] := by
  have hcycles := hb.cycles_pos
  rw [work, Nat.add_eq_zero_iff, Nat.mul_eq_zero, Finset.sum_eq_zero_iff]
  have hbusy : s.remaining = 0 ↔ s.carried = [] := by
    rw [carried, List.map_eq_nil_iff, Option.toList_eq_nil_iff, ← Option.not_isSome_iff_eq_none,
      h.busy]
    omega
  rw [hbusy]
  refine and_congr_right fun _ ↦ ⟨fun hzero p ↦ ?_, fun hall ↦ .inr fun p _ ↦ ?_⟩
  · by_cases hp : p < b.size
    · exact List.eq_nil_of_length_eq_zero
        ((hzero.resolve_left (by omega)) p (Finset.mem_range.mpr hp))
    · exact queued_eq_nil_of_le h (Nat.not_lt.mp hp)
  · rw [hall p]
    rfl

theorem work_countWaits (s : SharedBusState) : b.work (b.countWaits s) = b.work s := by
  rw [work, work, queued_countWaits]
  rfl

/-- A grant starts the transfer of one message. -/
theorem work_grant (h : b.Ledger s) : b.work (b.grant s) = b.work s := by
  rcases grant_cases b s with ⟨p, m, rest, hidle, -, hp, hpending, heq⟩ | ⟨-, heq⟩
  · have hzero : s.remaining = 0 := by
      have hbusy := h.busy
      rw [hidle] at hbusy
      exact Nat.eq_zero_of_not_pos fun hpos ↦ Bool.noConfusion (hbusy.mpr hpos)
    have hqueued : s.queued p = m.letter :: rest.map BusMessage.letter := by
      rw [queued, hpending, List.map_cons]
    have hsum := sum_countP_update (fun _ ↦ true) hp s.queued (rest.map BusMessage.letter)
    simp only [List.countP_true, hqueued, List.length_cons] at hsum
    have hsum' : (∑ i ∈ Finset.range b.size,
        (Function.update s.queued p (rest.map BusMessage.letter) i).length) + 1 =
        ∑ i ∈ Finset.range b.size, (s.queued i).length := by omega
    rw [heq, work, work, queued_grantTo, hzero, ← hsum', Nat.mul_add, Nat.mul_one, Nat.zero_add,
      Nat.add_comm]
    rfl
  · rw [heq]

/-- A tick of a bus with at most `2 ^ 31` ports does one tick's work, when there is any. -/
theorem work_applyNextTick (hsize : b.size ≤ 2 ^ 31) (hb : b.Accepted) (h : b.Ledger s) :
    b.work (b.applyNextTick s) = b.work s - 1 := by
  have hgrant := (h.grant hb).countWaits
  have hwork : b.work (b.countWaits (b.grant s)) = b.work s := by
    rw [work_countWaits, work_grant h]
  rw [← hwork]
  rcases transfer_cases (b.countWaits (b.grant s)) with
    ⟨hidle, heq⟩ | ⟨m, hactive, -, heq⟩ | ⟨m, hactive, -, heq⟩
  · -- the medium is still idle after the grant, so nobody waits
    have hzero : b.work s = 0 := by
      rw [work_eq_zero_iff hb h]
      rcases grant_spec hsize h with ⟨p, m, rest, -, -, -, hgrantTo⟩ | ⟨hnone, hsame⟩
      · rw [hgrantTo] at hidle
        exact absurd hidle (by simp [countWaits, grantTo])
      · rw [hsame] at hidle
        have hactive : s.active = none := hidle
        refine ⟨by rw [carried, hactive]; rfl, fun p ↦ ?_⟩
        rcases hnone with hsome | hnone
        · rw [hactive] at hsome
          exact Bool.noConfusion hsome
        · rw [queued, hnone p, List.map_nil]
    rw [hwork, hzero]
    rw [← hwork] at hzero
    rw [applyNextTick, heq]
    exact hzero
  all_goals
    have hpos : 0 < (b.countWaits (b.grant s)).remaining := hgrant.busy.mp (hactive ▸ rfl)
    rw [applyNextTick, heq]
    change ((b.countWaits (b.grant s)).remaining - 1) +
      b.cycles * ∑ p ∈ Finset.range b.size, ((b.countWaits (b.grant s)).queued p).length = _
    rw [work]
    omega

theorem accepted_applyNextTick (s : SharedBusState) :
    (b.applyNextTick s).accepted = s.accepted := by
  have htransfer : ∀ t : SharedBusState, (transfer t).accepted = t.accepted := by
    intro t
    rcases transfer_cases t with ⟨-, heq⟩ | ⟨m, -, -, heq⟩ | ⟨m, -, -, heq⟩ <;> rw [heq]
    rfl
  have hgrant : (b.grant s).accepted = s.accepted := by
    rcases grant_cases b s with ⟨p, m, rest, -, -, -, -, heq⟩ | ⟨-, heq⟩
    · rw [heq]
      rfl
    · rw [heq]
  calc (b.applyNextTick s).accepted = (transfer (b.countWaits (b.grant s))).accepted := rfl
    _ = (b.countWaits (b.grant s)).accepted := htransfer _
    _ = s.accepted := hgrant

/-- When nothing more is sent, the bus does all its work. -/
theorem work_iterate (hsize : b.size ≤ 2 ^ 31) (hb : b.Accepted) (k : ℕ) :
    ∀ {s : SharedBusState}, b.Ledger s → b.work s = k →
      b.Ledger (b.applyNextTick^[k] s) ∧ b.work (b.applyNextTick^[k] s) = 0 ∧
        (b.applyNextTick^[k] s).accepted = s.accepted := by
  induction k with
  | zero => exact fun h hwork ↦ ⟨h, hwork, rfl⟩
  | succ k ih =>
    intro s h hwork
    have hwork' : b.work (b.applyNextTick s) = k := by
      rw [work_applyNextTick hsize hb h, hwork, Nat.add_sub_cancel]
    obtain ⟨hledger, hzero, haccepted⟩ := ih (h.applyNextTick hb) hwork'
    rw [Function.iterate_succ_apply]
    exact ⟨hledger, hzero, haccepted.trans (accepted_applyNextTick s)⟩

/-- Everything accepted arrives, port by port and in order. -/
theorem exists_arrived_eq_accepted (hsize : b.size ≤ 2 ^ 31) (hb : b.Accepted)
    (h : b.Ledger s) : ∃ k, ∀ p,
      (b.applyNextTick^[k] s).arrived.filter (Letter.isFrom p) =
        s.accepted.filter (Letter.isFrom p) := by
  obtain ⟨hledger, hzero, haccepted⟩ := work_iterate hsize hb (b.work s) h rfl
  refine ⟨b.work s, fun p ↦ ?_⟩
  obtain ⟨hcarried, hqueued⟩ := (work_eq_zero_iff hb hledger).mp hzero
  have horder := hledger.order p
  rwa [hcarried, hqueued p, List.append_nil, List.append_nil, haccepted] at horder

/-! ## Requests in turn -/

/-- A request is at the head of port `p`. -/
abbrev Asks (s : SharedBusState) (p : BusPortT) : Prop := heads s 0 p = true

/-- The requests among the grants. -/
def requests (grants : List Grant) : List Grant :=
  grants.filter fun g ↦ decide (g.letter.cha = 0)

/-- What has been granted between two states of a run. -/
def grantsSince (s s' : SharedBusState) : List Grant := s'.grants.drop s.grants.length

theorem heads_eq_queued (s : SharedBusState) (c : ChannelT) (p : BusPortT) :
    heads s c p = match s.queued p with
      | [] => false
      | l :: _ => l.cha == c := by
  rw [heads, queued]
  cases s.pending p <;> rfl

theorem heads_applyNextTick (s : SharedBusState) (c : ChannelT) (p : BusPortT) :
    heads (b.applyNextTick s) c p = heads (b.grant s) c p := by
  have hqueued : (b.applyNextTick s).queued = (b.grant s).queued := by
    rw [← queued_countWaits (b := b) (b.grant s), applyNextTick]
    rcases transfer_cases (b.countWaits (b.grant s)) with
      ⟨-, heq⟩ | ⟨m, -, -, heq⟩ | ⟨m, -, -, heq⟩ <;> rw [heq] <;> rfl
  rw [heads_eq_queued, heads_eq_queued, hqueued]

theorem grants_applyNextTick (s : SharedBusState) :
    (b.applyNextTick s).grants = (b.grant s).grants ∧
      (b.applyNextTick s).next = (b.grant s).next := by
  rw [applyNextTick]
  rcases transfer_cases (b.countWaits (b.grant s)) with
    ⟨-, heq⟩ | ⟨m, -, -, heq⟩ | ⟨m, -, -, heq⟩ <;> rw [heq] <;> exact ⟨rfl, rfl⟩

/-- The log of the grants only grows. -/
theorem grants_prefix_perform {call : Call} (hcall : b.perform s call = .ok s') :
    s.grants <+: s'.grants := by
  cases call with
  | send port dstPort channel bytes =>
    rw [SharedBus.perform, Except.bind_eq_ok_iff] at hcall
    obtain ⟨⟨accepted, s₁⟩, hsend, hcall⟩ := hcall
    obtain rfl := Except.ok.inj hcall
    obtain ⟨-, -, -, ⟨-, -, rfl⟩ | ⟨-, -, rfl⟩ | ⟨-, -, -, rfl⟩⟩ := send_cases hsend <;>
      exact List.prefix_rfl
  | recv port channel =>
    rw [SharedBus.perform, Except.bind_eq_ok_iff] at hcall
    obtain ⟨⟨bytes, s₁⟩, hrecv, hcall⟩ := hcall
    obtain rfl := Except.ok.inj hcall
    obtain ⟨-, -, ⟨-, -, rfl⟩ | ⟨m, rest, -, -, rfl⟩⟩ := recv_cases hrecv <;>
      exact List.prefix_rfl
  | applyNextTick =>
    obtain rfl := Except.ok.inj hcall
    rw [(grants_applyNextTick s).1]
    rcases grant_cases b s with ⟨q, m, rest, -, -, -, -, heq⟩ | ⟨-, heq⟩
    · rw [heq]
      exact List.prefix_append _ _
    · rw [heq]

theorem grants_prefix_run {calls : List Call} (hrun : b.run s calls = .ok s') :
    s.grants <+: s'.grants :=
  foldlM_keeps (fun t : SharedBusState ↦ s.grants <+: t.grants) List.prefix_rfl
    (fun _ _ _ _ h hcall ↦ h.trans (grants_prefix_perform hcall)) hrun

/-- A request that is granted while one waits at the head of another port `p` comes before `p` in
the round. -/
theorem dist_lt_of_request (hsize : b.size ≤ 2 ^ 31) (hrr : b.config.fixedPriority = false)
    (h : b.Ledger s) {p q : BusPortT} {m : BusMessage} {rest : List BusMessage}
    (hsel : b.selected s = some q) (hpending : s.pending q = m :: rest) (hrequest : m.channel = 0)
    (hasks : Asks s p) (hqp : q ≠ p) :
    RoundRobin.dist b.size s.next q < RoundRobin.dist b.size s.next p := by
  have hp : p < b.size := by
    obtain ⟨m', rest', hpending', -⟩ := heads_eq_true_iff.mp hasks
    refine (h.queued_ok p m'.letter ?_).2.1
    rw [queued, hpending']
    exact List.mem_cons_self
  have hfirst : b.firstHead s 0 = some q := by
    rcases selected_cases hsize h hsel with hresponse | ⟨-, hfirst⟩
    · obtain ⟨-, m', rest', hpending', hone⟩ := firstHead_eq_some hresponse
      rw [hpending] at hpending'
      obtain ⟨rfl, -⟩ := List.cons.inj hpending'
      exact absurd (hrequest.symm.trans hone) Nat.zero_ne_one
    · exact hfirst
  have hq : q < b.size := (firstHead_eq_some hfirst).1
  rw [firstHead, scan_eq hsize h.next_lt, hrr] at hfirst
  refine Nat.lt_of_le_of_ne (RoundRobin.dist_le_of_find? h.next_lt hfirst hp hasks) fun hdist ↦ ?_
  exact hqp (RoundRobin.dist_injective h.next_lt hq hp hdist)

/-- What a tick does while a request waits at the head of port `p` and `p` is not granted: the
requests granted go to ports that come before `p`. -/
theorem serves_tick (hsize : b.size ≤ 2 ^ 31) (hrr : b.config.fixedPriority = false)
    (h : b.Ledger s) {p : BusPortT} (hasks : Asks s p)
    (hother : ∀ g ∈ grantsSince s (b.applyNextTick s), g.letter.src ≠ p) :
    Asks (b.applyNextTick s) p ∧
      RoundRobin.Serves b.size p s.next
        ((requests (grantsSince s (b.applyNextTick s))).map fun g ↦ g.letter.src)
        (b.applyNextTick s).next := by
  obtain ⟨hgrants, hnext⟩ := grants_applyNextTick (b := b) s
  rw [grantsSince, hgrants] at hother
  rw [Asks, heads_applyNextTick, hnext, grantsSince, hgrants]
  rcases grant_cases b s with ⟨q, m, rest, -, hsel, hq, hpending, heq⟩ | ⟨-, heq⟩
  · have hsince : (b.grant s).grants = s.grants ++ [⟨s.tick, m.letter⟩] := by rw [heq]; rfl
    have hsrc : m.letter.src = q := by
      refine (h.queued_ok q m.letter ?_).1
      rw [queued, hpending]
      exact List.mem_cons_self
    rw [hsince, List.drop_left] at hother ⊢
    have hqp : q ≠ p := hsrc ▸ hother _ (List.mem_singleton_self _)
    refine ⟨?_, ?_⟩
    · rw [heads, heq, grantTo]
      dsimp only
      rw [Function.update_of_ne hqp.symm]
      exact hasks
    · by_cases hrequest : m.channel = 0
      · have hreqs : requests [⟨s.tick, m.letter⟩] = [⟨s.tick, m.letter⟩] :=
          List.filter_cons_of_pos (decide_eq_true hrequest)
        have hnext' : (b.grant s).next = RoundRobin.advance b.size q := by
          rw [heq, grantTo]
          exact if_pos hrequest
        rw [hreqs, hnext', List.map_singleton, hsrc]
        exact .cons hq (dist_lt_of_request hsize hrr h hsel hpending hrequest hasks hqp) .nil
      · have hreqs : requests [⟨s.tick, m.letter⟩] = [] :=
          List.filter_cons_of_neg fun h0 ↦ hrequest (of_decide_eq_true h0)
        have hnext' : (b.grant s).next = s.next := by
          rw [heq, grantTo]
          exact if_neg hrequest
        rw [hreqs, hnext']
        exact .nil
  · rw [heq]
    refine ⟨hasks, ?_⟩
    rw [List.drop_length]
    exact .nil

theorem serves_perform (hsize : b.size ≤ 2 ^ 31) (hrr : b.config.fixedPriority = false)
    (h : b.Ledger s) {call : Call} (hcall : b.perform s call = .ok s') {p : BusPortT}
    (hasks : Asks s p) (hother : ∀ g ∈ grantsSince s s', g.letter.src ≠ p) :
    Asks s' p ∧
      RoundRobin.Serves b.size p s.next
        ((requests (grantsSince s s')).map fun g ↦ g.letter.src) s'.next := by
  have hquiet : ∀ t : SharedBusState, t.grants = s.grants → t.next = s.next → Asks t p →
      Asks t p ∧ RoundRobin.Serves b.size p s.next
        ((requests (grantsSince s t)).map fun g ↦ g.letter.src) t.next := by
    intro t hgrants hnext ht
    rw [grantsSince, hgrants, hnext, List.drop_length]
    exact ⟨ht, .nil⟩
  cases call with
  | send port dstPort channel bytes =>
    rw [SharedBus.perform, Except.bind_eq_ok_iff] at hcall
    obtain ⟨⟨accepted, s₁⟩, hsend, hcall⟩ := hcall
    obtain rfl := Except.ok.inj hcall
    obtain ⟨-, -, -, ⟨-, -, rfl⟩ | ⟨-, -, rfl⟩ | ⟨-, -, -, rfl⟩⟩ := send_cases hsend
    · exact hquiet _ rfl rfl hasks
    · exact hquiet _ rfl rfl hasks
    · refine hquiet _ rfl rfl ?_
      -- a new message stands behind the head
      rw [Asks, heads_eq_queued] at hasks ⊢
      rw [queued_enqueue]
      by_cases hp : p = port
      · subst hp
        rw [Function.update_self]
        cases hqueued : s.queued p with
        | nil => rw [hqueued] at hasks; exact absurd hasks (by decide)
        | cons l rest => rw [hqueued] at hasks; exact hasks
      · rw [Function.update_of_ne hp]
        exact hasks
  | recv port channel =>
    rw [SharedBus.perform, Except.bind_eq_ok_iff] at hcall
    obtain ⟨⟨bytes, s₁⟩, hrecv, hcall⟩ := hcall
    obtain rfl := Except.ok.inj hcall
    obtain ⟨-, -, ⟨-, -, rfl⟩ | ⟨m, rest, -, -, rfl⟩⟩ := recv_cases hrecv
    · exact hquiet _ rfl rfl hasks
    · exact hquiet _ rfl rfl hasks
  | applyNextTick =>
    obtain rfl := Except.ok.inj hcall
    exact serves_tick hsize hrr h hasks hother

theorem serves_run (hsize : b.size ≤ 2 ^ 31) (hrr : b.config.fixedPriority = false)
    (hb : b.Accepted) {p : BusPortT} {calls : List Call} :
    ∀ {s : SharedBusState}, b.Ledger s → b.run s calls = .ok s' → Asks s p →
      (∀ g ∈ grantsSince s s', g.letter.src ≠ p) →
      RoundRobin.Serves b.size p s.next
        ((requests (grantsSince s s')).map fun g ↦ g.letter.src) s'.next := by
  induction calls with
  | nil =>
    intro s h hrun hasks hother
    obtain rfl := Except.ok.inj hrun
    rw [grantsSince, List.drop_length]
    exact .nil
  | cons call calls ih =>
    intro s h hrun hasks hother
    rw [SharedBus.run, List.foldlM_cons, Except.bind_eq_ok_iff] at hrun
    obtain ⟨s₁, hcall, hrun⟩ := hrun
    have hprefix₁ : s.grants <+: s₁.grants := grants_prefix_perform hcall
    have hprefix' : s₁.grants <+: s'.grants := grants_prefix_run hrun
    obtain ⟨first, hfirst⟩ := hprefix₁
    obtain ⟨later, hlater⟩ := hprefix'
    have hsince₁ : grantsSince s s₁ = first := by
      rw [grantsSince, ← hfirst, List.drop_left]
    have hsince' : grantsSince s₁ s' = later := by
      rw [grantsSince, ← hlater, List.drop_left]
    have hsince : grantsSince s s' = first ++ later := by
      rw [grantsSince, ← hlater, ← hfirst, List.append_assoc, List.drop_left]
    rw [hsince] at hother
    obtain ⟨hasks₁, hserves₁⟩ := serves_perform hsize hrr h hcall hasks fun g hg ↦
      hother g (List.mem_append_left _ (hsince₁ ▸ hg))
    have hserves' := ih (h.perform hb hcall) hrun hasks₁ fun g hg ↦
      hother g (List.mem_append_right _ (hsince' ▸ hg))
    rw [hsince, requests, List.filter_append, List.map_append]
    rw [hsince₁] at hserves₁
    rw [hsince'] at hserves'
    exact hserves₁.append hserves'

/-! ## The promises -/

/-- What the bus owes its users in a state `s` of a run. -/
structure Delivers (b : SharedBus) (s : SharedBusState) : Prop where
  /-- What port `p` sent has arrived, is on the medium or waits, each message once and in order. -/
  order : ∀ p, (s.arrived ++ s.carried).filter (Letter.isFrom p) ++ s.queued p =
    s.accepted.filter (Letter.isFrom p)
  /-- If nothing more is sent, all of it arrives. -/
  arrives : ∃ k, ∀ p, (b.applyNextTick^[k] s).arrived.filter (Letter.isFrom p) =
    s.accepted.filter (Letter.isFrom p)
  /-- `recv` returns the messages of an inbox in the order in which they entered it. -/
  inbox : ∀ d c, s.returned d c ++ (s.inbox d c).map BusMessage.bytes =
    (s.arrived.filter (Letter.isTo d c)).map Letter.data
  /-- A credit is held by each message that waits, is on the medium or lies in the inbox. -/
  credits : ∀ d c, s.reserved d c =
    (∑ p ∈ Finset.range b.size, (s.queued p).countP (Letter.isTo d c)) +
      s.carried.countP (Letter.isTo d c) + (s.inbox d c).length
  /-- Where `recv` takes a credit back, there is one. -/
  reserved_pos : ∀ d c, s.inbox d c ≠ [] → 0 < s.reserved d c
  slots : b.config.receiveSlots ≠ 0 → ∀ d c, s.reserved d c ≤ b.config.receiveSlots.toNat
  depth : ∀ p, (s.pending p).length ≤ b.config.queueDepth.toNat
  carried : s.carried.length ≤ 1

theorem Ledger.delivers (hsize : b.size ≤ 2 ^ 31) (hb : b.Accepted) (h : b.Ledger s) :
    b.Delivers s where
  order := h.order
  arrives := exists_arrived_eq_accepted hsize hb h
  inbox := fun d c ↦ by
    have hin := h.inbox d c
    rwa [boxed, List.map_map] at hin
  credits := fun d c ↦ by
    have hheld := h.credits d c
    rwa [holders, boxed, List.length_map] at hheld
  reserved_pos := fun d c hne ↦ by
    have hheld := h.credits d c
    have hpos : 0 < (s.inbox d c).length := List.length_pos_of_ne_nil hne
    rw [holders, boxed, List.length_map] at hheld
    omega
  slots := h.slots
  depth := fun p ↦ by
    have hdepth := h.depth p
    rwa [queued, List.length_map] at hdepth
  carried := by
    rw [SharedBusState.carried, List.length_map]
    cases s.active <;> simp

/-- How the medium has been granted up to `s`, is granted in the next tick, and from there on. -/
structure Arbitrates (b : SharedBus) (s : SharedBusState) : Prop where
  /-- The grants so far are the letters that have arrived and the one on the medium. -/
  granted : s.grants.map Grant.letter = s.arrived ++ s.carried
  /-- What has arrived at an inbox has been returned or lies in it. -/
  inbox : ∀ d c, s.returned d c ++ (s.inbox d c).map BusMessage.bytes =
    (s.arrived.filter (Letter.isTo d c)).map Letter.data
  /-- The medium is granted exactly when it is idle and some message waits. -/
  grant_iff : (∃ l, (b.applyNextTick s).grants = s.grants ++ [⟨s.tick, l⟩]) ↔
    s.active = none ∧ ∃ p, s.pending p ≠ []
  no_grant : (¬∃ l, (b.applyNextTick s).grants = s.grants ++ [⟨s.tick, l⟩]) →
    (b.applyNextTick s).grants = s.grants
  /-- Each grant of a tick that lies `A + D` ticks back has led to its arrival in the last of these
  ticks, and there are no other arrivals. -/
  arrivals : s.arrivals =
    (s.grants.filter fun g ↦ decide (g.tick + b.cycles ≤ s.tick)).map b.due
  /-- No request is granted while a response is at the head of a queue. -/
  responses_first : ∀ l, (b.applyNextTick s).grants = s.grants ++ [⟨s.tick, l⟩] → l.cha = 0 →
    ∀ p, heads s 1 p = false
  /-- With fixed priority, the lowest port with a request at its head is granted. -/
  lowest : b.config.fixedPriority = true → ∀ l,
    (b.applyNextTick s).grants = s.grants ++ [⟨s.tick, l⟩] → l.cha = 0 →
    Asks s l.src ∧ ∀ p < l.src, ¬Asks s p
  /-- Round robin: while a request is at the head of port `p` and `p` is not granted, no port is
  granted two requests. -/
  fair : b.config.fixedPriority = false → ∀ p, Asks s p → ∀ calls s', b.run s calls = .ok s' →
    (∀ g ∈ grantsSince s s', g.letter.src ≠ p) →
    ∀ q, ((requests (grantsSince s s')).filter fun g ↦ decide (g.letter.src = q)).length ≤ 1

theorem grantTo_of_grants {l : Letter}
    (hgrant : (b.applyNextTick s).grants = s.grants ++ [⟨s.tick, l⟩]) :
    ∃ p m rest, b.selected s = some p ∧ s.active = none ∧ s.pending p = m :: rest ∧
      l = m.letter := by
  rw [(grants_applyNextTick s).1] at hgrant
  rcases grant_cases b s with ⟨p, m, rest, hidle, hsel, -, hpending, heq⟩ | ⟨-, heq⟩
  · rw [heq] at hgrant
    have hlast := List.append_cancel_left (show s.grants ++ [⟨s.tick, m.letter⟩] = _ from hgrant)
    exact ⟨p, m, rest, hsel, hidle, hpending, (congrArg Grant.letter (List.cons.inj hlast).1).symm⟩
  · rw [heq] at hgrant
    exact absurd hgrant (by simp)

/-- What has arrived, and when: the arrivals that are due before now. -/
theorem Ledger.arrivals_eq (hb : b.Accepted) (h : b.Ledger s) :
    s.arrivals = (s.grants.filter fun g ↦ decide (g.tick + b.cycles ≤ s.tick)).map b.due := by
  have hcycles := hb.cycles_pos
  have hpast : s.arrivals.filter (fun a ↦ decide (a.tick < s.tick)) = s.arrivals :=
    List.filter_eq_self.mpr fun a ha ↦ decide_eq_true (h.past a ha)
  have hfuture : (expected s).filter (fun a ↦ decide (a.tick < s.tick)) = [] := by
    rw [List.filter_eq_nil_iff]
    intro a ha hlt
    obtain ⟨l, hl, rfl⟩ := List.mem_map.mp ha
    -- the medium is busy, so its transfer still takes a tick
    have hpos : 0 < s.remaining := by
      obtain ⟨m, hm, -⟩ := List.mem_map.mp hl
      exact h.busy.mp (Option.mem_toList.mp hm ▸ rfl)
    have hlt' : s.tick + s.remaining - 1 < s.tick := of_decide_eq_true hlt
    omega
  have hdue : (fun a : Arrival ↦ decide (a.tick < s.tick)) ∘ b.due =
      fun g ↦ decide (g.tick + b.cycles ≤ s.tick) := by
    funext g
    have hiff : g.tick + b.cycles - 1 < s.tick ↔ g.tick + b.cycles ≤ s.tick := by omega
    exact decide_eq_decide.mpr hiff
  calc s.arrivals = (s.arrivals ++ expected s).filter (fun a ↦ decide (a.tick < s.tick)) := by
        rw [List.filter_append, hpast, hfuture, List.append_nil]
    _ = (s.grants.map b.due).filter fun a ↦ decide (a.tick < s.tick) := by rw [h.timing]
    _ = _ := by rw [List.filter_map, hdue]

theorem Ledger.grant_iff (hsize : b.size ≤ 2 ^ 31) (h : b.Ledger s) :
    (∃ l, (b.applyNextTick s).grants = s.grants ++ [⟨s.tick, l⟩]) ↔
      s.active = none ∧ ∃ p, s.pending p ≠ [] := by
  constructor
  · rintro ⟨l, hgrant⟩
    obtain ⟨p, m, rest, -, hidle, hpending, -⟩ := grantTo_of_grants hgrant
    refine ⟨hidle, p, ?_⟩
    rw [hpending]
    exact List.cons_ne_nil _ _
  · rintro ⟨hidle, p, hp⟩
    rw [(grants_applyNextTick s).1]
    rcases grant_spec hsize h with ⟨q, m, rest, -, -, -, heq⟩ | ⟨hno, -⟩
    · exact ⟨m.letter, by rw [heq]; rfl⟩
    · rcases hno with hsome | hnone
      · rw [hidle] at hsome
        exact Bool.noConfusion hsome
      · exact absurd (hnone p) hp

theorem Ledger.request_granted (hsize : b.size ≤ 2 ^ 31) (h : b.Ledger s) {l : Letter}
    (hgrant : (b.applyNextTick s).grants = s.grants ++ [⟨s.tick, l⟩]) (hrequest : l.cha = 0) :
    (∀ p, heads s 1 p = false) ∧ b.firstHead s 0 = some l.src := by
  obtain ⟨p, m, rest, hsel, -, hpending, rfl⟩ := grantTo_of_grants hgrant
  have hsrc : m.letter.src = p := by
    refine (h.queued_ok p m.letter ?_).1
    rw [queued, hpending]
    exact List.mem_cons_self
  rw [hsrc]
  rcases selected_cases hsize h hsel with hresponse | hcase
  · obtain ⟨-, m', rest', hpending', hone⟩ := firstHead_eq_some hresponse
    rw [hpending] at hpending'
    obtain ⟨rfl, -⟩ := List.cons.inj hpending'
    exact absurd (hrequest.symm.trans hone) Nat.zero_ne_one
  · exact hcase

/-- Whom a scan in the order of the port numbers finds, nobody lower asks. -/
theorem lowest_of_find? {asks : ℕ → Bool} {n q : ℕ} (h : (List.range n).find? asks = some q) :
    asks q = true ∧ ∀ p < q, ¬asks p = true := by
  obtain ⟨hq, i, hi, hiq, hbefore⟩ := List.find?_eq_some_iff_getElem.mp h
  rw [List.getElem_range] at hiq
  subst hiq
  refine ⟨hq, fun p hp ↦ ?_⟩
  have hno := hbefore p hp
  rw [List.getElem_range] at hno
  simpa using hno

theorem Ledger.arbitrates (hsize : b.size ≤ 2 ^ 31) (hb : b.Accepted) (h : b.Ledger s) :
    b.Arbitrates s where
  granted := by
    have hletters := congrArg (List.map Arrival.letter) h.timing
    rw [List.map_append, List.map_map, expected, List.map_map] at hletters
    have hid : (Arrival.letter ∘ fun l ↦ ⟨s.tick + s.remaining - 1, l⟩) = (id : Letter → Letter) :=
      rfl
    rwa [hid, List.map_id] at hletters
  inbox := (h.delivers hsize hb).inbox
  grant_iff := h.grant_iff hsize
  no_grant := by
    intro hno
    rw [(grants_applyNextTick s).1] at hno ⊢
    rcases grant_cases b s with ⟨p, m, rest, -, -, -, -, heq⟩ | ⟨-, heq⟩
    · exact absurd ⟨m.letter, by rw [heq]; rfl⟩ hno
    · rw [heq]
  arrivals := h.arrivals_eq hb
  responses_first := fun l hgrant hrequest ↦ (h.request_granted hsize hgrant hrequest).1
  lowest := by
    intro hfixed l hgrant hrequest
    have hfirst := (h.request_granted hsize hgrant hrequest).2
    rw [firstHead, scan_eq hsize h.next_lt, if_pos hfixed] at hfirst
    exact lowest_of_find? hfirst
  fair := by
    intro hrr p hasks calls s' hrun hother q
    have hserves := serves_run hsize hrr hb h hrun hasks hother
    have hp : p < b.size := by
      obtain ⟨m, rest, hpending, -⟩ := heads_eq_true_iff.mp hasks
      refine (h.queued_ok p m.letter ?_).2.1
      rw [queued, hpending]
      exact List.mem_cons_self
    have hnodup := hserves.nodup h.next_lt hp
    calc ((requests (grantsSince s s')).filter fun g ↦ decide (g.letter.src = q)).length
        = ((requests (grantsSince s s')).map fun g ↦ g.letter.src).count q := by
          rw [← List.countP_eq_length_filter, List.count, List.countP_map]
          rfl
      _ ≤ 1 := List.nodup_iff_count_le_one.mp hnodup q

/-! ## Too many ports

A message of port `2 ^ 31` is found by the scan, and as an `int` the port's number is negative. So
the medium stays idle in every tick, and the message only grows older.
-/

/-- A run that queues one message at port `2 ^ 31`. -/
def highCalls : List Call := [.send (2 ^ 31) 0 0 []]

/-- One message waits, at port `2 ^ 31`. -/
structure Stuck (s : SharedBusState) : Prop where
  active : s.active = none
  pending : ∀ p, p < 2 ^ 31 → s.pending p = []
  arrivals : s.arrivals = []

theorem Stuck.selected (h : Stuck s) : b.selected s = none := by
  rcases hsel : b.selected s with _ | p
  · rfl
  · obtain ⟨-, m, rest, hpending⟩ := selected_eq_some hsel
    rw [h.pending p (lt_of_selected hsel)] at hpending
    exact absurd hpending (List.cons_ne_nil _ _).symm

/-- The message at port `2 ^ 31` is not granted, so a tick only counts its wait. -/
theorem Stuck.applyNextTick (h : Stuck s) :
    Stuck (b.applyNextTick s) ∧ (b.applyNextTick s).grants = s.grants := by
  have hgrant : b.grant s = s := by
    rw [grant, h.active, h.selected]
  have htick : b.applyNextTick s =
      { b.countWaits s with idleCycles := s.idleCycles + 1, tick := s.tick + 1 } := by
    have hidle : transfer (b.countWaits s) =
        { b.countWaits s with idleCycles := s.idleCycles + 1 } := transfer_of_idle h.active
    rw [SharedBus.applyNextTick, hgrant, hidle]
    rfl
  rw [htick]
  refine ⟨⟨h.active, fun p hp ↦ ?_, h.arrivals⟩, rfl⟩
  change (s.pending p).map _ = []
  rw [h.pending p hp, List.map_nil]

theorem Stuck.iterate (k : ℕ) : ∀ {s : SharedBusState}, Stuck s →
    Stuck (b.applyNextTick^[k] s) := by
  induction k with
  | zero => exact fun h ↦ h
  | succ k ih =>
    intro s h
    rw [Function.iterate_succ_apply]
    exact ih h.applyNextTick.1

theorem run_highCalls (hb : b.Accepted) (hsize : 2 ^ 31 < b.size) :
    b.run {} highCalls = .ok (enqueue {} ⟨2 ^ 31, 0, 0, []⟩) := by
  have hcheck : b.check (2 ^ 31) 0 = .ok () := check_eq_ok_iff.mpr ⟨hsize, Nat.zero_le 1⟩
  have hcheck' : b.check 0 0 = .ok () := check_eq_ok_iff.mpr ⟨hb.size_pos, Nat.zero_le 1⟩
  have hroom : b.hasRoom {} (2 ^ 31) = true := decide_eq_true hb.queueDepth_pos
  have hcredit : b.outOfCredit {} 0 0 = false := by
    rw [outOfCredit]
    cases hslots : b.config.receiveSlots == 0 with
    | true => rfl
    | false =>
      have hne : b.config.receiveSlots ≠ 0 := beq_eq_false_iff_ne.mp hslots
      have hpos : ¬b.config.receiveSlots.toNat ≤ 0 := fun h0 ↦
        hne (UInt32.toNat_inj.mp (Nat.le_zero.mp h0))
      exact decide_eq_false hpos
  rw [SharedBus.run, highCalls, List.foldlM_cons, SharedBus.perform, send, canSend, hcheck,
    hcheck']
  simp only [bind, Except.bind, pure, Except.pure, hroom, hcredit]
  rfl

theorem stuck_highCalls : Stuck (enqueue {} ⟨2 ^ 31, 0, 0, []⟩) where
  active := rfl
  pending := fun p hp ↦ by
    rw [enqueue]
    dsimp only
    rw [Function.update_of_ne (Nat.ne_of_lt hp)]
  arrivals := rfl

theorem valid_highCalls (hb : b.Accepted) (hsize : 2 ^ 31 < b.size) :
    ∀ call ∈ highCalls, call.Valid b := by
  intro call hcall
  obtain rfl := List.mem_singleton.mp hcall
  exact ⟨hsize, hb.size_pos, Nat.zero_le 1⟩

theorem not_delivers_highCalls : ¬b.Delivers (enqueue {} ⟨2 ^ 31, 0, 0, []⟩) := by
  intro h
  obtain ⟨k, hk⟩ := h.arrives
  have harrived : (b.applyNextTick^[k] (enqueue {} ⟨2 ^ 31, 0, 0, []⟩)).arrived = [] := by
    rw [arrived, (stuck_highCalls.iterate k).arrivals, List.map_nil]
  have hall := hk (2 ^ 31)
  rw [harrived] at hall
  exact absurd hall (by decide)

theorem not_arbitrates_highCalls : ¬b.Arbitrates (enqueue {} ⟨2 ^ 31, 0, 0, []⟩) := by
  intro h
  obtain ⟨l, hgrant⟩ := h.grant_iff.mpr ⟨rfl, 2 ^ 31, by
    rw [enqueue]
    dsimp only
    rw [Function.update_self]
    exact List.cons_ne_nil _ _⟩
  rw [stuck_highCalls.applyNextTick.2] at hgrant
  exact absurd hgrant (by simp)

/-! ## The exact range of the promises -/

variable {ports : UInt32} {config : SharedBusConfig}

/-- The bus delivers what it accepts, in every run, exactly when it has at most `2 ^ 31` ports. -/
theorem delivers_iff (h : construct ports config = .ok b) :
    (∀ calls : List Call, (∀ call ∈ calls, call.Valid b) →
        ∃ s, b.run {} calls = .ok s ∧ b.Delivers s) ↔ b.size ≤ 2 ^ 31 := by
  have hb := (construct_eq_ok h).2
  constructor
  · intro hall
    by_contra hsize
    have hsize' : 2 ^ 31 < b.size := Nat.lt_of_not_le hsize
    obtain ⟨s, hrun, hdelivers⟩ := hall highCalls (valid_highCalls hb hsize')
    rw [run_highCalls hb hsize'] at hrun
    obtain rfl := Except.ok.inj hrun
    exact not_delivers_highCalls hdelivers
  · intro hsize calls hcalls
    obtain ⟨s, hrun⟩ := exists_run_eq_ok hcalls {}
    exact ⟨s, hrun, ((Ledger.init hb).run hb hrun).delivers hsize hb⟩

/-- The bus arbitrates as its documentation says, in every run, exactly when it has at most
`2 ^ 31` ports. -/
theorem arbitrates_iff (h : construct ports config = .ok b) :
    (∀ calls : List Call, (∀ call ∈ calls, call.Valid b) →
        ∃ s, b.run {} calls = .ok s ∧ b.Arbitrates s) ↔ b.size ≤ 2 ^ 31 := by
  have hb := (construct_eq_ok h).2
  constructor
  · intro hall
    by_contra hsize
    have hsize' : 2 ^ 31 < b.size := Nat.lt_of_not_le hsize
    obtain ⟨s, hrun, harbitrates⟩ := hall highCalls (valid_highCalls hb hsize')
    rw [run_highCalls hb hsize'] at hrun
    obtain rfl := Except.ok.inj hrun
    exact not_arbitrates_highCalls harbitrates
  · intro hsize calls hcalls
    obtain ⟨s, hrun⟩ := exists_run_eq_ok hcalls {}
    exact ⟨s, hrun, ((Ledger.init hb).run hb hrun).arbitrates hsize hb⟩

/-! ## Two buses -/

/-- Three ports and the default configuration. -/
def smallBus : SharedBus := { ports := 3, config := {} }

theorem construct_smallBus : construct 3 {} = .ok smallBus := rfl

theorem delivers_iff_smallBus :
    (∀ calls : List Call, (∀ call ∈ calls, call.Valid smallBus) →
      ∃ s, smallBus.run {} calls = .ok s ∧ smallBus.Delivers s) ↔ smallBus.size ≤ 2 ^ 31 :=
  delivers_iff construct_smallBus

theorem arbitrates_iff_smallBus :
    (∀ calls : List Call, (∀ call ∈ calls, call.Valid smallBus) →
      ∃ s, smallBus.run {} calls = .ok s ∧ smallBus.Arbitrates s) ↔ smallBus.size ≤ 2 ^ 31 :=
  arbitrates_iff construct_smallBus

/-- One port more than `2 ^ 31`. -/
def hugeBus : SharedBus := { ports := 2147483649, config := {} }

theorem construct_hugeBus : construct 2147483649 {} = .ok hugeBus := rfl

theorem hugeBus_size : 2 ^ 31 < hugeBus.size := by decide

theorem not_delivers_hugeBus :
    construct 2147483649 {} = .ok hugeBus ∧ (∀ call ∈ highCalls, call.Valid hugeBus) ∧
      ∃ s, hugeBus.run {} highCalls = .ok s ∧ ¬hugeBus.Delivers s :=
  ⟨construct_hugeBus, valid_highCalls (construct_eq_ok construct_hugeBus).2 hugeBus_size, _,
    run_highCalls (construct_eq_ok construct_hugeBus).2 hugeBus_size, not_delivers_highCalls⟩

theorem not_arbitrates_hugeBus :
    construct 2147483649 {} = .ok hugeBus ∧ (∀ call ∈ highCalls, call.Valid hugeBus) ∧
      ∃ s, hugeBus.run {} highCalls = .ok s ∧ ¬hugeBus.Arbitrates s :=
  ⟨construct_hugeBus, valid_highCalls (construct_eq_ok construct_hugeBus).2 hugeBus_size, _,
    run_highCalls (construct_eq_ok construct_hugeBus).2 hugeBus_size, not_arbitrates_highCalls⟩

end SharedBus

end Manycore
