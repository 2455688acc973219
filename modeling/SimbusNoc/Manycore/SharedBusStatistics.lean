import SimbusNoc.Manycore.SharedBusLedger
import Mathlib.Algebra.GroupWithZero.Nat

/-!
# The statistics of the shared bus

The counters of the shared bus, against the notes of somebody who watches its calls: for each
message, the tick in which it entered the queue of its port and the tick in which it left the queue
for the medium. The counters of a port are updated when a message enters, when it is granted, and
once a tick while it waits. `PortAccount` says what they are between any two of these points.

## The notes

A `Stay` is noted from the calls and the ghost logs alone: `observe` compares the numbers of
accepted and granted messages before and after a call. It reads no counter, so that the equations
of `Accounts` say something about the counters: the wait total is the sum of the stays, the maximum
is the longest of them, and the warnings are the stays that have reached the threshold.

## The invariant

The stays of a port are those that have ended, then those of its queue in its order. A queued
message carries its entry time and whether a warning has been given, and `stay` reads a stay off
it. The wait counters are updated at the end of a tick and a granted message leaves before, so its
stay ends without a last update; this is the one place where the order of the parts of a tick is
used. A tick of waiting lengthens every open stay by one: `sum_ticks_succ`, `longest_le_succ` and
`starved_succ` say what that does to the three counters.
-/

namespace Manycore

open Simbus

namespace SharedBus

/-! ## Watching the calls -/

/-- The stay of a message in the queue of its port. -/
structure Stay where
  entered : ℕ
  left : Option ℕ := none
  deriving DecidableEq

/-- The ticks that the message has spent in the queue so far. -/
def Stay.ticks (now : ℕ) (v : Stay) : ℕ := v.left.getD now - v.entered

/-- The oldest message that is still in the queue leaves it. -/
def leave (tick : ℕ) : List Stay → List Stay
  | [] => []
  | v :: rest =>
    if v.left.isSome then v :: leave tick rest else { v with left := some tick } :: rest

/-- The stays at port `p` after a call: the messages that it has accepted enter, and those that it
has granted leave. -/
def observe (s s' : SharedBusState) (stays : BusPortT → List Stay) (p : BusPortT) : List Stay :=
  let entered := (s'.accepted.drop s.accepted.length).filter (Letter.isFrom p)
  let left := (s'.grants.drop s.grants.length).filter fun g ↦ g.letter.isFrom p
  left.foldl (fun stays g ↦ leave g.tick stays) (stays p ++ entered.map fun _ ↦ ⟨s.tick, none⟩)

variable (b : SharedBus)

/-- A call, and what is noted of it. -/
def watchCall (w : SharedBusState × (BusPortT → List Stay)) (call : Call) :
    Except String (SharedBusState × (BusPortT → List Stay)) := do
  let s ← b.perform w.1 call
  return (s, observe w.1 s w.2)

/-- A sequence of calls on a new bus, and what is noted of them. -/
def watch (calls : List Call) : Except String (SharedBusState × (BusPortT → List Stay)) :=
  calls.foldlM b.watchCall ({}, fun _ ↦ [])

/-- The longest of these stays. -/
def longest (now : ℕ) (stays : List Stay) : ℕ := (stays.map (Stay.ticks now)).foldr max 0

/-- The stays that have reached the threshold. -/
def starved (now : ℕ) (stays : List Stay) : ℕ :=
  stays.countP fun v ↦ decide (b.config.starvationThreshold.toNat ≤ v.ticks now)

/-- What the counters of a bus say about the stays of its messages. -/
structure Accounts (s : SharedBusState) (stays : BusPortT → List Stay) : Prop where
  clock : s.busyCycles + s.idleCycles = s.tick
  busy : s.busyCycles =
    s.delivered * b.cycles + if s.active.isSome then b.cycles - s.remaining else 0
  requests : ∀ p, (s.stats p).requests = (s.stats p).grants + (s.pending p).length
  waitCycles : ∀ p, (s.stats p).waitCycles = (s.stats p).grantWait.sum +
    ((s.pending p).map fun m ↦ s.tick - m.enqueued).sum
  longestWait : ∀ p, (s.stats p).longestWait = longest s.tick (stays p)
  starvationEvents : ∀ p, (s.stats p).starvationEvents = b.starved s.tick (stays p)
  /-- The notes are about the messages that the counters are about. -/
  noted : ∀ p, (s.stats p).requests = (stays p).length ∧
    (s.stats p).grants = (stays p).countP (fun v ↦ v.left.isSome) ∧
    (s.stats p).grantWait.sum =
      (((stays p).filter fun v ↦ v.left.isSome).map (Stay.ticks s.tick)).sum

/-! ## The account of a port -/

/-- The stay of a message that waits. -/
def stay (m : BusMessage) : Stay := ⟨m.enqueued, none⟩

/-- The queue, the counters and the stays of a port at time `now`. The messages of `gone` have left
the queue. -/
structure PortAccount (now : ℕ) (pending : List BusMessage) (stats : MasterBusStats)
    (gone : List Stay) : Prop where
  left : ∀ v ∈ gone, v.left.isSome
  entered : ∀ m ∈ pending, m.enqueued ≤ now
  warned : ∀ m ∈ pending,
    (m.warned = true ↔ b.config.starvationThreshold.toNat ≤ now - m.enqueued)
  requests : stats.requests = gone.length + pending.length
  grants : stats.grants = gone.length
  grantWait : stats.grantWait.sum = (gone.map (Stay.ticks now)).sum
  waitCycles : stats.waitCycles = ((gone ++ pending.map stay).map (Stay.ticks now)).sum
  longestWait : stats.longestWait = longest now (gone ++ pending.map stay)
  starvationEvents : stats.starvationEvents = b.starved now (gone ++ pending.map stay)

variable {b} {now : ℕ} {pending : List BusMessage} {stats : MasterBusStats} {gone : List Stay}
  {s s' : SharedBusState} {stays : BusPortT → List Stay}

/-! ## Lists of stays -/

theorem longest_append (now : ℕ) (l l' : List Stay) :
    longest now (l ++ l') = max (longest now l) (longest now l') := by
  induction l with
  | nil => exact (Nat.zero_max _).symm
  | cons v l ih =>
    change max (v.ticks now) (longest now (l ++ l')) = max (max (v.ticks now) (longest now l)) _
    rw [ih, max_assoc]

theorem starved_append (now : ℕ) (l l' : List Stay) :
    b.starved now (l ++ l') = b.starved now l + b.starved now l' :=
  List.countP_append

/-- What has left the queue does not wait any more. -/
theorem ticks_of_left {v : Stay} (h : v.left.isSome) (now now' : ℕ) :
    v.ticks now = v.ticks now' := by
  obtain ⟨t, ht⟩ := Option.isSome_iff_exists.mp h
  rw [Stay.ticks, Stay.ticks, ht]
  rfl

theorem map_ticks_of_left (h : ∀ v ∈ gone, v.left.isSome) (now now' : ℕ) :
    gone.map (Stay.ticks now) = gone.map (Stay.ticks now') :=
  List.map_congr_left fun v hv ↦ ticks_of_left (h v hv) now now'

theorem leave_append (h : ∀ v ∈ gone, v.left.isSome) (tick : ℕ) (l : List Stay) :
    leave tick (gone ++ l) = gone ++ leave tick l := by
  induction gone with
  | nil => rfl
  | cons v gone ih =>
    rw [List.cons_append, leave, if_pos (h v List.mem_cons_self),
      ih fun v' hv' ↦ h v' (List.mem_cons_of_mem v hv'), List.cons_append]

/-! ## A message enters, is granted and waits -/

theorem PortAccount.init (now : ℕ) : b.PortAccount now [] {} [] where
  left := nofun
  entered := nofun
  warned := nofun
  requests := rfl
  grants := rfl
  grantWait := rfl
  waitCycles := rfl
  longestWait := rfl
  starvationEvents := rfl

theorem PortAccount.enter (hpos : 0 < b.config.starvationThreshold.toNat)
    (h : b.PortAccount now pending stats gone) {m : BusMessage} (hentered : m.enqueued = now)
    (hwarned : m.warned = false) :
    b.PortAccount now (pending ++ [m]) { stats with requests := stats.requests + 1 } gone := by
  have hstays : gone ++ (pending ++ [m]).map stay = (gone ++ pending.map stay) ++ [stay m] := by
    rw [List.map_append, List.append_assoc]
    rfl
  have hzero : (stay m).ticks now = 0 := by
    rw [Stay.ticks, stay, hentered]
    exact Nat.sub_self now
  refine { h with entered := ?_, warned := ?_, requests := ?_, waitCycles := ?_, longestWait := ?_
                  starvationEvents := ?_ }
  · intro m' hm'
    rcases List.mem_append.mp hm' with hm' | hm'
    · exact h.entered m' hm'
    · exact (List.mem_singleton.mp hm' ▸ hentered).le
  · intro m' hm'
    rcases List.mem_append.mp hm' with hm' | hm'
    · exact h.warned m' hm'
    · rw [List.mem_singleton.mp hm', hentered, hwarned, Nat.sub_self]
      exact iff_of_false Bool.false_ne_true (Nat.not_le_of_lt hpos)
  · change stats.requests + 1 = _
    rw [h.requests, List.length_append]
    rfl
  · change stats.waitCycles = _
    rw [hstays, List.map_append, List.sum_append, ← h.waitCycles, List.map_singleton, hzero]
    rfl
  · change stats.longestWait = _
    rw [hstays, longest_append, ← h.longestWait, longest, List.map_singleton, hzero]
    exact (Nat.max_zero _).symm
  · change stats.starvationEvents = _
    rw [hstays, starved_append, ← h.starvationEvents, starved, List.countP_singleton, hzero,
      if_neg (by simpa using hpos.ne')]
    rfl

/-- The oldest message leaves the queue. Its time in the queue has been counted already. -/
theorem PortAccount.leave {m : BusMessage} {rest : List BusMessage}
    (h : b.PortAccount now (m :: rest) stats gone) :
    b.PortAccount now rest
      { stats with
        grantWait := stats.grantWait.add (now - m.enqueued)
        longestWait := max stats.longestWait (now - m.enqueued)
        grants := stats.grants + 1 }
      (gone ++ [⟨m.enqueued, some now⟩]) := by
  -- The stay ends now, so its length is what it was, and so is everything computed from the
  -- lengths.
  have hticks : (gone ++ (m :: rest).map stay).map (Stay.ticks now) =
      ((gone ++ [Stay.mk m.enqueued (some now)]) ++ rest.map stay).map (Stay.ticks now) := by
    rw [List.map_cons, List.append_assoc]
    simp only [List.map_append, List.map_cons, List.singleton_append]
    rfl
  have hcounted : now - m.enqueued ≤ stats.longestWait := by
    rw [h.longestWait, longest_append]
    exact (le_max_left (now - m.enqueued) _).trans (le_max_right _ _)
  refine
    { left := ?_, entered := fun m' hm' ↦ h.entered m' (List.mem_cons_of_mem m hm')
      warned := fun m' hm' ↦ h.warned m' (List.mem_cons_of_mem m hm'), requests := ?_, grants := ?_
      grantWait := ?_, waitCycles := ?_, longestWait := ?_, starvationEvents := ?_ }
  · intro v hv
    rcases List.mem_append.mp hv with hv | hv
    · exact h.left v hv
    · exact List.mem_singleton.mp hv ▸ rfl
  · change stats.requests = _
    rw [h.requests, List.length_append, List.length_cons, List.length_singleton]
    omega
  · change stats.grants + 1 = _
    rw [h.grants, List.length_append, List.length_singleton]
  · change stats.grantWait.sum + (now - m.enqueued) = _
    rw [h.grantWait, List.map_append, List.sum_append]
    rfl
  · change stats.waitCycles = _
    rw [h.waitCycles, hticks]
  · change max stats.longestWait (now - m.enqueued) = _
    rw [max_eq_left hcounted, h.longestWait, longest, longest, hticks]
  · change stats.starvationEvents = _
    have hcount : ∀ l l' : List Stay, l.map (Stay.ticks now) = l'.map (Stay.ticks now) →
        b.starved now l = b.starved now l' := by
      intro l l' heq
      have := congrArg (List.countP fun t ↦ decide (b.config.starvationThreshold.toNat ≤ t)) heq
      rwa [List.countP_map, List.countP_map] at this
    rw [h.starvationEvents, hcount _ _ hticks]

/-- The counters after the loop over the waiting messages. -/
theorem foldl_countWait (now : ℕ) : ∀ (pending : List BusMessage) (stats : MasterBusStats),
    pending.foldl (b.countWait now) stats =
      { stats with
        waitCycles := stats.waitCycles + pending.length
        longestWait := max stats.longestWait (longest (now + 1) (pending.map stay))
        starvationEvents := stats.starvationEvents + pending.countP (b.starves now) } := by
  intro pending
  induction pending with
  | nil =>
    intro stats
    change stats = { stats with longestWait := max stats.longestWait 0 }
    rw [Nat.max_zero]
  | cons m pending ih =>
    intro stats
    rw [List.foldl_cons, ih, countWait]
    change _ = { stats with
      waitCycles := stats.waitCycles + (pending.length + 1)
      longestWait := max stats.longestWait
        (max (now + 1 - m.enqueued) (longest (now + 1) (pending.map stay)))
      starvationEvents := stats.starvationEvents + (m :: pending).countP (b.starves now) }
    rw [List.countP_cons, ← max_assoc, waited]
    congr 1
    · exact (Nat.add_right_comm _ _ _).trans (Nat.add_assoc _ _ _)
    · dsimp only
      split <;> omega

theorem stay_warn (now : ℕ) (m : BusMessage) : stay (b.warn now m) = stay m := by
  rw [warn]
  split <;> rfl

/-! ## A tick of waiting -/

theorem ticks_stay_succ {m : BusMessage} (h : m.enqueued ≤ now) :
    (stay m).ticks (now + 1) = (stay m).ticks now + 1 :=
  Nat.succ_sub h

theorem sum_ticks_succ (h : ∀ m ∈ pending, m.enqueued ≤ now) :
    ((pending.map stay).map (Stay.ticks (now + 1))).sum =
      ((pending.map stay).map (Stay.ticks now)).sum + pending.length := by
  have hmap : pending.map (Stay.ticks (now + 1) ∘ stay) =
      pending.map fun m ↦ (stay m).ticks now + 1 :=
    List.map_congr_left fun m hm ↦ ticks_stay_succ (h m hm)
  rw [List.map_map, List.map_map, hmap, List.sum_map_add]
  simp [Function.comp_def]

theorem longest_le_succ (h : ∀ m ∈ pending, m.enqueued ≤ now) :
    longest now (pending.map stay) ≤ longest (now + 1) (pending.map stay) := by
  induction pending with
  | nil => exact le_rfl
  | cons m pending ih =>
    refine max_le_max ?_ (ih fun m' hm' ↦ h m' (List.mem_cons_of_mem m hm'))
    rw [ticks_stay_succ (h m List.mem_cons_self)]
    exact Nat.le_succ _

/-- A message starves in the tick in which it reaches the threshold. -/
theorem starves_iff {m : BusMessage}
    (hwarned : m.warned = true ↔ b.config.starvationThreshold.toNat ≤ now - m.enqueued) :
    b.starves now m = true ↔ b.config.starvationThreshold.toNat ≤ (stay m).ticks (now + 1) ∧
      ¬ b.config.starvationThreshold.toNat ≤ (stay m).ticks now := by
  rw [starves, Bool.and_eq_true, decide_eq_true_eq, Bool.not_eq_true', ← Bool.not_eq_true, hwarned]
  rfl

theorem starved_succ (hentered : ∀ m ∈ pending, m.enqueued ≤ now)
    (hwarned : ∀ m ∈ pending,
      (m.warned = true ↔ b.config.starvationThreshold.toNat ≤ now - m.enqueued)) :
    b.starved (now + 1) (pending.map stay) =
      b.starved now (pending.map stay) + pending.countP (b.starves now) := by
  induction pending with
  | nil => rfl
  | cons m pending ih =>
    have hm := ticks_stay_succ (hentered m List.mem_cons_self)
    have hstarves := starves_iff (hwarned m List.mem_cons_self)
    have hrest := ih (fun m' hm' ↦ hentered m' (List.mem_cons_of_mem m hm'))
      fun m' hm' ↦ hwarned m' (List.mem_cons_of_mem m hm')
    rw [starved, starved] at hrest ⊢
    rw [List.map_cons, List.countP_cons, List.countP_cons, List.countP_cons, hrest]
    simp only [decide_eq_true_eq]
    by_cases hnow : b.config.starvationThreshold.toNat ≤ (stay m).ticks now
    · rw [if_pos hnow, if_pos (by omega), if_neg (by rw [hstarves]; tauto)]
      omega
    · by_cases hnext : b.config.starvationThreshold.toNat ≤ (stay m).ticks (now + 1)
      · rw [if_neg hnow, if_pos hnext, if_pos (hstarves.mpr ⟨hnext, hnow⟩)]
        omega
      · rw [if_neg hnow, if_neg hnext, if_neg (by rw [hstarves]; tauto)]
        omega

/-- A message that the threshold has reached is warned now or has been warned before. -/
theorem warned_warn {m : BusMessage} (hentered : m.enqueued ≤ now)
    (hwarned : m.warned = true ↔ b.config.starvationThreshold.toNat ≤ now - m.enqueued) :
    (b.warn now m).warned = true ↔
      b.config.starvationThreshold.toNat ≤ now + 1 - (b.warn now m).enqueued := by
  rw [warn]
  split_ifs with hstarves
  · rw [starves, Bool.and_eq_true, decide_eq_true_eq] at hstarves
    exact iff_of_true rfl hstarves.1
  · rw [starves, Bool.and_eq_true, decide_eq_true_eq, Bool.not_eq_true', not_and,
      Bool.not_eq_false] at hstarves
    refine ⟨fun hm ↦ ?_, hstarves⟩
    have := hwarned.mp hm
    omega

theorem PortAccount.wait (h : b.PortAccount now pending stats gone) :
    b.PortAccount (now + 1) (pending.map (b.warn now)) (pending.foldl (b.countWait now) stats)
      gone := by
  have hstays : (pending.map (b.warn now)).map stay = pending.map stay := by
    rw [List.map_map]
    exact List.map_congr_left fun m _ ↦ stay_warn now m
  have hgone := map_ticks_of_left h.left now (now + 1)
  rw [foldl_countWait]
  refine
    { left := h.left, entered := ?_, warned := ?_, requests := ?_, grants := h.grants
      grantWait := hgone ▸ h.grantWait, waitCycles := ?_, longestWait := ?_
      starvationEvents := ?_ }
  · intro m' hm'
    obtain ⟨m, hm, rfl⟩ := List.mem_map.mp hm'
    have hle := h.entered m hm
    rw [warn]
    split <;> exact Nat.le_succ_of_le hle
  · intro m' hm'
    obtain ⟨m, hm, rfl⟩ := List.mem_map.mp hm'
    exact warned_warn (h.entered m hm) (h.warned m hm)
  · change stats.requests = _
    rw [h.requests, List.length_map]
  · change stats.waitCycles + pending.length = _
    rw [h.waitCycles, hstays, List.map_append, List.map_append, List.sum_append, List.sum_append,
      sum_ticks_succ h.entered, hgone]
    omega
  · change max stats.longestWait _ = _
    rw [h.longestWait, hstays, longest_append, longest_append, max_assoc,
      max_eq_right (longest_le_succ h.entered), longest, hgone]
    rfl
  · change stats.starvationEvents + _ = _
    -- the messages that starve now are those that have not been warned before
    rw [h.starvationEvents, hstays, starved_append, starved_append,
      starved_succ h.entered h.warned, Nat.add_assoc]
    congr 1
    refine List.countP_congr fun v hv ↦ ?_
    rw [ticks_of_left (h.left v hv) now (now + 1)]

/-! ## The account of a bus -/

/-- The counters of the bus, and the account of each port. -/
structure BusAccount (b : SharedBus) (s : SharedBusState) (stays : BusPortT → List Stay) :
    Prop where
  ledger : b.Ledger s
  clock : s.busyCycles + s.idleCycles = s.tick
  busy : s.busyCycles =
    s.delivered * b.cycles + if s.active.isSome then b.cycles - s.remaining else 0
  port : ∀ p, ∃ gone, stays p = gone ++ (s.pending p).map stay ∧
    b.PortAccount s.tick (s.pending p) (s.stats p) gone

theorem BusAccount.init (hb : b.Accepted) : b.BusAccount {} fun _ ↦ [] where
  ledger := .init hb
  clock := rfl
  busy := (Nat.zero_mul _).symm
  port := fun _ ↦ ⟨[], rfl, .init 0⟩

theorem observe_of_same (s s' : SharedBusState) (haccepted : s'.accepted = s.accepted)
    (hgrants : s'.grants = s.grants) (stays : BusPortT → List Stay) :
    observe s s' stays = stays := by
  funext p
  rw [observe, haccepted, hgrants, List.drop_length, List.drop_length]
  exact List.append_nil _

theorem observe_enqueue (s : SharedBusState) (l : Letter) (stays : BusPortT → List Stay)
    (p : BusPortT) : observe s (enqueue s l) stays p =
      stays p ++ if p = l.src then [⟨s.tick, none⟩] else [] := by
  have haccepted : (enqueue s l).accepted.drop s.accepted.length = [l] := List.drop_left' rfl
  have hgrants : (enqueue s l).grants.drop s.grants.length = [] := List.drop_length
  rw [observe, haccepted, hgrants]
  by_cases hp : p = l.src
  · rw [if_pos hp, List.filter_cons_of_pos (by simp [Letter.isFrom, hp])]
    rfl
  · rw [if_neg hp, List.filter_cons_of_neg (by simpa [Letter.isFrom] using Ne.symm hp)]
    rfl

theorem BusAccount.enqueue (hpos : 0 < b.config.starvationThreshold.toNat)
    (h : b.BusAccount s stays) {l : Letter} (hledger : b.Ledger (SharedBus.enqueue s l)) :
    b.BusAccount (SharedBus.enqueue s l) (observe s (SharedBus.enqueue s l) stays) where
  ledger := hledger
  clock := h.clock
  busy := h.busy
  port := by
    intro p
    obtain ⟨gone, hstays, hport⟩ := h.port p
    refine ⟨gone, ?_⟩
    rw [observe_enqueue]
    by_cases hp : p = l.src
    · subst hp
      simp only [SharedBus.enqueue, Function.update_self, if_pos]
      refine ⟨?_, hport.enter hpos rfl rfl⟩
      rw [hstays, List.map_append, List.append_assoc]
      rfl
    · simp only [SharedBus.enqueue, Function.update_of_ne hp, if_neg hp, List.append_nil]
      exact ⟨hstays, hport⟩

theorem BusAccount.send (hpos : 0 < b.config.starvationThreshold.toNat)
    (h : b.BusAccount s stays) {p d : BusPortT} {c : ChannelT} {bytes : Bytes} {accepted : Bool}
    (hsend : b.send s p d c bytes = .ok (accepted, s')) :
    b.BusAccount s' (observe s s' stays) := by
  have hledger := h.ledger.send hsend
  obtain ⟨-, -, -, ⟨-, -, rfl⟩ | ⟨-, -, rfl⟩ | ⟨-, -, -, rfl⟩⟩ := send_cases hsend
  · rw [observe_of_same s' s' rfl rfl]
    exact h
  · rw [observe_of_same s { s with creditStalls := s.creditStalls + 1 } rfl rfl]
    exact { h with ledger := hledger }
  · exact h.enqueue hpos hledger

theorem BusAccount.recv (h : b.BusAccount s stays) {p : BusPortT} {c : ChannelT}
    {bytes : Option Bytes} (hrecv : b.recv s p c = .ok (bytes, s')) :
    b.BusAccount s' (observe s s' stays) := by
  have hledger := h.ledger.recv hrecv
  obtain ⟨-, -, ⟨-, -, rfl⟩ | ⟨m, rest, -, -, rfl⟩⟩ := recv_cases hrecv
  · rw [observe_of_same s' s' rfl rfl]
    exact h
  · rw [observe_of_same s (dequeue s p c m.bytes rest) rfl rfl]
    exact { h with ledger := hledger }

/-! ## A tick -/

theorem observe_grantTo (s : SharedBusState) (p : BusPortT) (m : BusMessage)
    (rest : List BusMessage) (stays : BusPortT → List Stay) (q : BusPortT) :
    observe s (b.grantTo s p m rest) stays q =
      if q = m.src then leave s.tick (stays q) else stays q := by
  have haccepted : (b.grantTo s p m rest).accepted.drop s.accepted.length = [] := List.drop_length
  have hgrants : (b.grantTo s p m rest).grants.drop s.grants.length = [⟨s.tick, m.letter⟩] :=
    List.drop_left' rfl
  rw [observe, haccepted, hgrants]
  by_cases hq : q = m.src
  · rw [if_pos hq, List.filter_cons_of_pos (by simp [Letter.isFrom, BusMessage.letter, hq])]
    exact congrArg (leave s.tick) (List.append_nil _)
  · have hnone : [Grant.mk s.tick m.letter].filter (fun g ↦ g.letter.isFrom q) = [] := by
      simpa [Letter.isFrom, BusMessage.letter] using Ne.symm hq
    rw [if_neg hq, hnone]
    exact List.append_nil _

theorem BusAccount.grant (hb : b.Accepted) (h : b.BusAccount s stays) :
    b.BusAccount (b.grant s) (observe s (b.grant s) stays) := by
  have hledger := h.ledger.grant hb
  rcases grant_cases b s with ⟨p, m, rest, hidle, -, -, hpending, heq⟩ | ⟨-, heq⟩
  · rw [heq] at hledger ⊢
    have hsrc : m.src = p := by
      refine (h.ledger.queued_ok p m.letter ?_).1
      rw [SharedBusState.queued, hpending]
      exact List.mem_cons_self
    refine { ledger := hledger, clock := h.clock, busy := ?_, port := fun q ↦ ?_ }
    · have hbusy := h.busy
      rw [hidle] at hbusy
      change s.busyCycles = s.delivered * b.cycles + (b.cycles - b.cycles)
      rw [hbusy, Nat.sub_self]
      rfl
    · obtain ⟨gone, hstays, hport⟩ := h.port q
      rw [observe_grantTo, hsrc]
      by_cases hq : q = p
      · subst hq
        rw [hpending] at hstays hport
        simp only [grantTo, Function.update_self, if_pos]
        refine ⟨_, ?_, hport.leave⟩
        rw [hstays, leave_append hport.left, List.append_assoc]
        rfl
      · simp only [grantTo, Function.update_of_ne hq, if_neg hq]
        exact ⟨gone, hstays, hport⟩
  · rw [heq, observe_of_same s s rfl rfl]
    exact h

theorem observe_applyNextTick (s : SharedBusState) (stays : BusPortT → List Stay) :
    observe s (b.applyNextTick s) stays = observe s (b.grant s) stays := by
  have hsame : (b.applyNextTick s).accepted = (b.grant s).accepted ∧
      (b.applyNextTick s).grants = (b.grant s).grants := by
    rw [SharedBus.applyNextTick]
    rcases transfer_cases (b.countWaits (b.grant s)) with ⟨-, heq⟩ | ⟨m, -, -, heq⟩ |
      ⟨m, -, -, heq⟩
    all_goals
      rw [heq]
      exact ⟨rfl, rfl⟩
  funext p
  rw [observe, observe, hsame.1, hsame.2]

/-- The transfer and the step of the clock, after the queues have been counted. -/
theorem transfer_account (s : SharedBusState) (hledger : b.Ledger s)
    (hclock : s.busyCycles + s.idleCycles = s.tick)
    (hbusy : s.busyCycles =
      s.delivered * b.cycles + if s.active.isSome then b.cycles - s.remaining else 0) :
    (transfer s).busyCycles + (transfer s).idleCycles = (transfer s).tick + 1 ∧
    ((transfer s).busyCycles = (transfer s).delivered * b.cycles +
      if (transfer s).active.isSome then b.cycles - (transfer s).remaining else 0) ∧
    (transfer s).tick = s.tick ∧ (transfer s).pending = s.pending ∧
    (transfer s).stats = s.stats := by
  have hle := hledger.remaining_le
  rcases transfer_cases s with ⟨hidle, heq⟩ | ⟨m, hactive, hmore, heq⟩ | ⟨m, hactive, hlast, heq⟩
  · rw [heq]
    refine ⟨?_, hbusy, rfl, rfl, rfl⟩
    change s.busyCycles + (s.idleCycles + 1) = s.tick + 1
    omega
  · rw [heq]
    rw [hactive, Option.isSome_some, if_pos rfl] at hbusy
    refine ⟨?_, ?_, rfl, rfl, rfl⟩
    · change s.busyCycles + 1 + s.idleCycles = s.tick + 1
      omega
    · change s.busyCycles + 1 = s.delivered * b.cycles +
        if s.active.isSome then b.cycles - (s.remaining - 1) else 0
      rw [hactive, Option.isSome_some, if_pos rfl]
      omega
  · have hpos : 0 < s.remaining := hledger.busy.mp (hactive ▸ rfl)
    rw [heq]
    rw [hactive, Option.isSome_some, if_pos rfl] at hbusy
    refine ⟨?_, ?_, rfl, rfl, rfl⟩
    · change s.busyCycles + 1 + s.idleCycles = s.tick + 1
      omega
    · change s.busyCycles + 1 = (s.delivered + 1) * b.cycles + 0
      rw [Nat.add_mul, Nat.one_mul]
      omega

theorem BusAccount.applyNextTick (hb : b.Accepted) (h : b.BusAccount s stays) :
    b.BusAccount (b.applyNextTick s) (observe s (b.applyNextTick s) stays) := by
  have hledger := h.ledger.applyNextTick hb
  have hgrant := h.grant hb
  rw [observe_applyNextTick]
  obtain ⟨hclock, hbusy, htick, hpending, hstats⟩ :=
    transfer_account (b.countWaits (b.grant s)) hgrant.ledger.countWaits hgrant.clock hgrant.busy
  refine { ledger := hledger, clock := hclock, busy := hbusy, port := fun p ↦ ?_ }
  obtain ⟨gone, hstays, hport⟩ := hgrant.port p
  refine ⟨gone, ?_, ?_⟩
  · rw [hstays]
    change _ = gone ++ ((transfer (b.countWaits (b.grant s))).pending p).map stay
    rw [hpending]
    change _ = gone ++ (((b.grant s).pending p).map (b.warn (b.grant s).tick)).map stay
    rw [List.map_map]
    exact congrArg (gone ++ ·) (List.map_congr_left fun m _ ↦ (stay_warn _ m).symm)
  · change b.PortAccount ((transfer (b.countWaits (b.grant s))).tick + 1)
      ((transfer (b.countWaits (b.grant s))).pending p)
      ((transfer (b.countWaits (b.grant s))).stats p) gone
    rw [htick, hpending, hstats]
    exact hport.wait

/-! ## Runs -/

theorem BusAccount.watchCall (hb : b.Accepted) (hpos : 0 < b.config.starvationThreshold.toNat)
    (h : b.BusAccount s stays) {call : Call} (hcall : b.perform s call = .ok s') :
    b.BusAccount s' (observe s s' stays) := by
  cases call with
  | send port dstPort channel bytes =>
    rw [SharedBus.perform, Except.bind_eq_ok_iff] at hcall
    obtain ⟨⟨accepted, s₁⟩, hsend, hcall⟩ := hcall
    exact Except.ok.inj hcall ▸ h.send hpos hsend
  | recv port channel =>
    rw [SharedBus.perform, Except.bind_eq_ok_iff] at hcall
    obtain ⟨⟨bytes, s₁⟩, hrecv, hcall⟩ := hcall
    exact Except.ok.inj hcall ▸ h.recv hrecv
  | applyNextTick => exact Except.ok.inj hcall ▸ h.applyNextTick hb

theorem BusAccount.run (hb : b.Accepted) (hpos : 0 < b.config.starvationThreshold.toNat)
    {calls : List Call} : ∀ {s : SharedBusState} {stays : BusPortT → List Stay},
      b.BusAccount s stays → b.run s calls = .ok s' →
      ∃ stays', calls.foldlM b.watchCall (s, stays) = .ok (s', stays') ∧
        b.BusAccount s' stays' := by
  induction calls with
  | nil =>
    intro s stays h hrun
    obtain rfl : s = s' := Except.ok.inj hrun
    exact ⟨stays, rfl, h⟩
  | cons call calls ih =>
    intro s stays h hrun
    rw [SharedBus.run, List.foldlM_cons] at hrun
    obtain ⟨s₁, hcall, hrun⟩ := Except.bind_eq_ok_iff.mp hrun
    obtain ⟨stays', hwatch, haccount⟩ := ih (h.watchCall hb hpos hcall) hrun
    refine ⟨stays', ?_, haccount⟩
    rw [List.foldlM_cons]
    exact Except.bind_eq_ok_iff.mpr ⟨_, Except.bind_eq_ok_iff.mpr ⟨s₁, hcall, rfl⟩, hwatch⟩

theorem BusAccount.accounts (h : b.BusAccount s stays) : b.Accounts s stays where
  clock := h.clock
  busy := h.busy
  requests := fun p ↦ by
    obtain ⟨gone, -, hport⟩ := h.port p
    rw [hport.requests, hport.grants]
  waitCycles := fun p ↦ by
    obtain ⟨gone, -, hport⟩ := h.port p
    rw [hport.waitCycles, hport.grantWait, List.map_append, List.sum_append, List.map_map]
    rfl
  longestWait := fun p ↦ by
    obtain ⟨gone, hstays, hport⟩ := h.port p
    rw [hport.longestWait, hstays]
  starvationEvents := fun p ↦ by
    obtain ⟨gone, hstays, hport⟩ := h.port p
    rw [hport.starvationEvents, hstays]
  noted := fun p ↦ by
    obtain ⟨gone, hstays, hport⟩ := h.port p
    have hgone : gone.filter (fun v ↦ v.left.isSome) = gone :=
      List.filter_eq_self.mpr hport.left
    have hqueue : ((s.pending p).map stay).filter (fun v ↦ v.left.isSome) = [] := by
      refine List.filter_eq_nil_iff.mpr fun v hv ↦ ?_
      obtain ⟨m, -, rfl⟩ := List.mem_map.mp hv
      exact Bool.false_ne_true
    rw [hstays, List.countP_eq_length_filter, List.filter_append, hgone, hqueue, List.append_nil]
    exact ⟨by rw [hport.requests, List.length_append, List.length_map], hport.grants,
      hport.grantWait⟩

theorem construct_starvationThreshold {ports : UInt32} {config : SharedBusConfig}
    (h : construct ports config = .ok b) : 0 < b.config.starvationThreshold.toNat := by
  obtain ⟨u, hrequire, h⟩ := Except.bind_eq_ok_iff.mp h
  obtain rfl := Except.ok.inj h
  rw [require_eq_ok_iff] at hrequire
  simp only [Bool.not_eq_true', Bool.or_eq_false_iff, beq_eq_false_iff_ne] at hrequire
  exact Nat.pos_of_ne_zero fun hzero ↦ hrequire.2 (UInt64.toNat_inj.mp hzero)

/-- In every run the counters say what has happened to the messages. -/
theorem run_accounts {ports : UInt32} {config : SharedBusConfig} {calls : List Call}
    (h : construct ports config = .ok b) (hrun : b.run {} calls = .ok s) :
    ∃ stays, b.watch calls = .ok (s, stays) ∧ b.Accounts s stays := by
  obtain ⟨-, hb⟩ := construct_eq_ok h
  obtain ⟨stays, hwatch, haccount⟩ :=
    (BusAccount.init hb).run hb (construct_starvationThreshold h) hrun
  exact ⟨stays, hwatch, haccount.accounts⟩

/-- Two messages of port 0 to port 1, one tick. -/
theorem run_accounts_pair : ∃ b s stays, construct 2 {} = .ok b ∧
    b.watch [.send 0 1 0 [7], .send 0 1 0 [8], .applyNextTick] = .ok (s, stays) ∧
    b.Accounts s stays := by
  obtain ⟨b, hb⟩ : ∃ b, construct 2 {} = .ok b := ⟨_, rfl⟩
  obtain ⟨s, hrun⟩ : ∃ s, b.run {} [.send 0 1 0 [7], .send 0 1 0 [8], .applyNextTick] = .ok s := by
    obtain rfl := Except.ok.inj hb
    exact ⟨_, rfl⟩
  obtain ⟨stays, hwatch, haccounts⟩ := run_accounts hb hrun
  exact ⟨b, s, stays, hb, hwatch, haccounts⟩

end SharedBus

end Manycore
