import SimbusNoc.Manycore.SharedBusLedger
import SimbusNoc.Manycore.Traffic

/-!
# The shared bus as a reliable bus

Letters with the same source, destination and channel stay in their order: the oldest lie in the
inbox, then comes the one on the medium, and the rest wait at the source.

`Reliable` asks for a state in which known letters are on their way, and for calls that add a
letter at the end of its way and take one from the front. `located` is that list for the shared
bus. The queues are shared by all destinations and both channels, so a way is a filtered queue, and
what is appended or taken elsewhere does not change it. `Holds` packs the ledger of the bus with
these lists, and the lemmas about `send`, `recv` and the tick are the fields that `Reliable` asks
for. The systems are proved correct over any reliable bus, and this module is all that they need to
know of this one.
-/

namespace Manycore

open Simbus

/-- The letter goes from `src` to `dst` on channel `cha`. -/
def Letter.isOn (src dst : BusPortT) (cha : ChannelT) (l : Letter) : Bool :=
  decide (l.src = src ∧ l.dst = dst ∧ l.cha = cha)

theorem Letter.isOn_eq_true_iff {src dst : BusPortT} {cha : ChannelT} {l : Letter} :
    l.isOn src dst cha = true ↔ l.src = src ∧ l.dst = dst ∧ l.cha = cha :=
  decide_eq_true_iff

/-- What a list of one letter has on another way. -/
theorem Letter.filter_isOn_of_ne {src dst : BusPortT} {cha : ChannelT} {l : Letter}
    (h : ¬(l.src = src ∧ l.dst = dst ∧ l.cha = cha)) :
    [l].filter (Letter.isOn src dst cha) = [] := by
  rw [List.filter_cons_of_neg fun hon ↦ h (Letter.isOn_eq_true_iff.mp hon), List.filter_nil]

namespace SharedBus

open SharedBusState

variable {b : SharedBus} {s s' : SharedBusState} {letters : List Letter}

/-- The letters that may be on the way from `src` to `dst` on channel `cha`, oldest first. -/
def located (s : SharedBusState) (src dst : BusPortT) (cha : ChannelT) : List Letter :=
  s.boxed dst cha ++ (s.carried ++ s.queued src)

/-- These are the letters on the bus, way by way. -/
def Located (letters : List Letter) (s : SharedBusState) : Prop :=
  ∀ src dst cha, letters.filter (Letter.isOn src dst cha) =
    (located s src dst cha).filter (Letter.isOn src dst cha)

/-- The bus holds these letters. -/
structure Holds (b : SharedBus) (letters : List Letter) (s : SharedBusState) : Prop where
  accepted : b.Accepted
  ledger : b.Ledger s
  located : Located letters s

theorem Holds.init (hb : b.Accepted) : b.Holds [] {} :=
  ⟨hb, Ledger.init hb, fun _ _ _ ↦ rfl⟩

/-! ## The calls -/

theorem Located.enqueue (h : Located letters s) (l : Letter) :
    Located (letters ++ [l]) (SharedBus.enqueue s l) := by
  intro src dst cha
  have hboxed : (SharedBus.enqueue s l).boxed = s.boxed := rfl
  have hcarried : (SharedBus.enqueue s l).carried = s.carried := rfl
  rw [List.filter_append, h src dst cha, SharedBus.located, SharedBus.located, hboxed, hcarried,
    queued_enqueue]
  by_cases hsrc : src = l.src
  · subst hsrc
    rw [Function.update_self]
    simp only [List.filter_append, List.append_assoc]
  · rw [Function.update_of_ne hsrc, Letter.filter_isOn_of_ne fun hon ↦ hsrc hon.1.symm,
      List.append_nil]

theorem Holds.send (h : b.Holds letters s) {l : Letter} {accepted : Bool}
    (hsend : b.send s l.src l.dst l.cha l.data = .ok (accepted, s')) :
    b.Holds (if accepted then letters ++ [l] else letters) s' := by
  refine ⟨h.accepted, h.ledger.send hsend, ?_⟩
  obtain ⟨-, -, -, hcases⟩ := send_cases hsend
  rcases hcases with ⟨rfl, -, rfl⟩ | ⟨rfl, -, rfl⟩ | ⟨rfl, -, -, rfl⟩
  · exact h.located
  · exact h.located
  · exact h.located.enqueue l

theorem Holds.recv_none (h : b.Holds letters s) {d : BusPortT} {c : ChannelT}
    (hrecv : b.recv s d c = .ok (none, s')) : b.Holds letters s' := by
  obtain ⟨-, -, ⟨-, -, rfl⟩ | ⟨m, rest, hnone, -, -⟩⟩ := recv_cases hrecv
  · exact h
  · cases hnone

theorem boxed_dequeue (s : SharedBusState) (d : BusPortT) (c : ChannelT) (bytes : Bytes)
    (rest : List BusMessage) (d' : BusPortT) (c' : ChannelT) :
    (dequeue s d c bytes rest).boxed d' c' =
      if d' = d ∧ c' = c then rest.map BusMessage.letter else s.boxed d' c' := by
  by_cases hd : d' = d
  · subst hd
    by_cases hc : c' = c
    · subst hc
      simp [dequeue, boxed]
    · simp [dequeue, boxed, hc]
  · simp [dequeue, boxed, hd]

/-- The letter that `recv` returns is the oldest of its way. -/
theorem Holds.recv_some (h : b.Holds letters s) {d : BusPortT} {c : ChannelT} {data : Bytes}
    (hrecv : b.recv s d c = .ok (some data, s')) :
    ∃ front l back, letters = front ++ l :: back ∧ l.dst = d ∧ l.cha = c ∧ l.data = data ∧
      b.Holds (front ++ back) s' ∧ ∀ l' ∈ front, ¬l'.SameWay l := by
  have hledger := h.ledger.recv hrecv
  obtain ⟨-, -, ⟨hnone, -, -⟩ | ⟨m, rest, hsome, hbox, rfl⟩⟩ := recv_cases hrecv
  · cases hnone
  obtain rfl := Option.some.inj hsome
  have hboxed : s.boxed d c = m.letter :: rest.map BusMessage.letter := by
    rw [boxed, hbox, List.map_cons]
  obtain ⟨hd, hc⟩ := h.ledger.boxed_ok d c m.letter (hboxed ▸ List.mem_cons_self)
  have hway := h.located m.letter.src d c
  rw [SharedBus.located, hboxed, List.cons_append,
    List.filter_cons_of_pos (Letter.isOn_eq_true_iff.mpr ⟨rfl, hd, hc⟩),
    List.filter_eq_cons_iff] at hway
  obtain ⟨front, back, rfl, hfront, -, hback⟩ := hway
  refine ⟨front, m.letter, back, rfl, hd, hc, rfl, ⟨h.accepted, hledger, ?_⟩, ?_⟩
  · intro src dst cha
    have hcarried : (dequeue s d c m.bytes rest).carried = s.carried := rfl
    have hqueued : (dequeue s d c m.bytes rest).queued = s.queued := rfl
    rw [SharedBus.located, hcarried, hqueued, boxed_dequeue]
    by_cases hmine : m.letter.src = src ∧ d = dst ∧ c = cha
    · -- the way of the letter itself
      obtain ⟨rfl, rfl, rfl⟩ := hmine
      have hnone : front.filter (Letter.isOn m.letter.src d c) = [] :=
        List.filter_eq_nil_iff.mpr hfront
      rw [if_pos ⟨rfl, rfl⟩, List.filter_append, hnone, List.nil_append, hback]
    · have hother : ¬m.letter.isOn src dst cha = true := fun hon ↦ hmine
        (hd ▸ hc ▸ Letter.isOn_eq_true_iff.mp hon)
      have hold := h.located src dst cha
      rw [List.filter_append, List.filter_cons_of_neg hother, ← List.filter_append,
        SharedBus.located] at hold
      rw [hold]
      split_ifs with hdc
      · obtain ⟨rfl, rfl⟩ := hdc
        rw [hboxed, List.cons_append, List.filter_cons_of_neg hother]
      · rfl
  · rintro l' hl' ⟨hsrc, hdst, hcha⟩
    exact hfront l' hl' (Letter.isOn_eq_true_iff.mpr ⟨hsrc, hdst.trans hd, hcha.trans hc⟩)

/-! ## A tick -/

theorem Located.grant (h : Located letters s) (hledger : b.Ledger s) :
    Located letters (b.grant s) := by
  rcases grant_cases b s with ⟨p, m, rest, hidle, -, -, hpending, heq⟩ | ⟨-, heq⟩
  · rw [heq]
    intro src dst cha
    have hboxed : (b.grantTo s p m rest).boxed = s.boxed := rfl
    have hcarried : (b.grantTo s p m rest).carried = [m.letter] := rfl
    have hidle' : s.carried = [] := by rw [carried, hidle]; rfl
    have hqueued : s.queued p = m.letter :: rest.map BusMessage.letter := by
      rw [queued, hpending, List.map_cons]
    have hsrc : m.letter.src = p :=
      (hledger.queued_ok p m.letter (hqueued ▸ List.mem_cons_self)).1
    rw [h src dst cha, SharedBus.located, SharedBus.located, hboxed, hcarried, hidle',
      List.nil_append, queued_grantTo]
    by_cases hp : src = p
    · subst hp
      rw [Function.update_self, hqueued, List.singleton_append]
    · rw [Function.update_of_ne hp, List.filter_append, List.filter_append, List.filter_append,
        Letter.filter_isOn_of_ne fun hon ↦ hp (hon.1.symm.trans hsrc), List.nil_append]
  · rw [heq]
    exact h

theorem Located.transfer (h : Located letters s) : Located letters (SharedBus.transfer s) := by
  rcases transfer_cases s with ⟨-, heq⟩ | ⟨m, -, -, heq⟩ | ⟨m, hactive, -, heq⟩
  · rw [heq]
    exact h
  · rw [heq]
    exact h
  · rw [heq]
    intro src dst cha
    have hcarried : s.carried = [m.letter] := by rw [carried, hactive]; rfl
    rw [h src dst cha, SharedBus.located, SharedBus.located, boxed_deliver, hcarried]
    change List.filter _ (s.boxed dst cha ++ ([m.letter] ++ s.queued src)) =
      List.filter _ (s.boxed dst cha ++ _ ++ ([] ++ s.queued src))
    by_cases hto : m.letter.isTo dst cha = true
    · rw [if_pos hto, List.nil_append, List.append_assoc]
    · have hother : ¬(m.letter.src = src ∧ m.letter.dst = dst ∧ m.letter.cha = cha) :=
        fun hon ↦ hto (decide_eq_true hon.2)
      rw [if_neg hto, List.append_nil, List.nil_append, List.filter_append, List.filter_append,
        List.filter_append, Letter.filter_isOn_of_ne hother, List.nil_append]

theorem Holds.applyNextTick (h : b.Holds letters s) : b.Holds letters (b.applyNextTick s) := by
  refine ⟨h.accepted, h.ledger.applyNextTick h.accepted, ?_⟩
  have hwaits : Located letters (b.countWaits (b.grant s)) := by
    have hgrant := h.located.grant h.ledger
    intro src dst cha
    rw [hgrant src dst cha, SharedBus.located, SharedBus.located, queued_countWaits]
    rfl
  exact hwaits.transfer

end SharedBus

end Manycore
