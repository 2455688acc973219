import SimbusNoc.Manycore.Arbitration
import SimbusNoc.Manycore.Interconnect
import SimbusNoc.Manycore.Layout
import SimbusNoc.Manycore.SharedBusChannel

/-!
# What the interconnects promise

The double ring and the shared bus hold letters, as `Reliable` asks. Between two ticks they do so
without a condition on the number of messages, so the laws are those of `still`, the interconnect
whose tick does nothing. The tick itself has laws of its own.

With `K` false, letters of one way keep their order and no `recv` throws, and the ring asks for
fewer than `2 ^ 32` messages when it moves on. With `K` true the ring asks for nothing, but it
promises neither.

## Why the flag

Transmission ids of the ring are 32-bit counters. When they repeat, the packets of two messages can
be mixed up, and a receiver may be handed a message that nobody has sent. Some properties survive
this, such as that no request touches the control window, and some need the messages to be few. One
flag lets both kinds use the same lemmas about the turns of a system, and only the lemma about the
tick of the bus asks which of the two is meant.

`Returns` and `HartsReturn` list what the parties of a system call, for messages of given sizes. A
call that throws would end the simulation, so that these calls return is part of what is promised.
-/

namespace Simbus.Bus

variable {b : Bus}

/-- A message of this size passes the checks of `send`. -/
def Fits (b : Bus) (size : ℕ) (c : ChannelT) : Prop :=
  (b.config.receiveMessageSlots = 0 ∨ size ≤ b.config.maxMessageBytes) ∧ b.pacCnt size c ≤ 65535

theorem exists_canSend_eq_ok {p : BusPortT} {c : ChannelT} (hp : b.knownPort p = true)
    (hc : c < b.chaCnt) (s : BusState) : ∃ room, b.canSend s p c = .ok room := by
  rw [canSend, (validatePort_eq_ok (u := ())).mpr hp, (validateChannel_eq_ok (u := ())).mpr hc]
  exact ⟨_, rfl⟩

theorem exists_canRecv_eq_ok {p : BusPortT} {c : ChannelT} (hp : b.knownPort p = true)
    (hc : c < b.chaCnt) (s : BusState) : ∃ ready, b.canRecv s p c = .ok ready := by
  rw [canRecv, (validatePort_eq_ok (u := ())).mpr hp, (validateChannel_eq_ok (u := ())).mpr hc]
  exact ⟨_, rfl⟩

theorem exists_send_eq_ok {p d : BusPortT} {c : ChannelT} {data : Bytes}
    (hp : b.knownPort p = true) (hd : b.knownPort d = true) (hc : c < b.chaCnt)
    (hfits : b.Fits data.length c) (s : BusState) :
    ∃ accepted s', b.send s p d c data = .ok (accepted, s') := by
  have hsize : (b.config.receiveMessageSlots == 0 ||
      decide (data.length ≤ b.config.maxMessageBytes)) = true := by
    simpa using hfits.1
  rw [send, (validatePort_eq_ok (u := ())).mpr hp, (validatePort_eq_ok (u := ())).mpr hd,
    (validateChannel_eq_ok (u := ())).mpr hc, hsize, decide_eq_true hfits.2]
  simp only [bind, Except.bind, require_true, pure, Except.pure]
  split
  · exact ⟨_, _, rfl⟩
  · split
    · exact ⟨_, _, rfl⟩
    · exact ⟨_, _, rfl⟩

/-- A short message fits, whatever the widths of the channels. -/
theorem fits_of_le (hb : b.WellFormed) {size : ℕ} (hsize : size ≤ 65535)
    (hmax : size ≤ b.config.maxMessageBytes) (c : ChannelT) : b.Fits size c := by
  refine ⟨.inr hmax, ?_⟩
  obtain ⟨hpos, hw⟩ := width_bounds hb c
  rw [pacCnt_eq hb c (by omega)]
  -- rounding up by a positive width gives no more than the size itself
  refine Nat.le_of_lt_succ (Nat.div_lt_of_lt_mul ?_)
  omega

end Simbus.Bus

namespace Manycore

open Simbus Simbus.Bus

/-- The calls of `n` harts and of the controller return in these states, for messages of these
sizes. -/
structure Returns {σ : Type} (bus : BusInterfaceV2 σ) (n : ℕ) (Fits : ℕ → Prop)
    (Good : σ → Prop) : Prop where
  canSend : ∀ {s p c}, Good s → p ≤ n → c ≤ 1 → ∃ room, bus.canSend s p c = .ok room
  send : ∀ {s p d c data}, Good s → p ≤ n → d ≤ n → c ≤ 1 → Fits data.length →
    ∃ accepted s', bus.send s p d c data = .ok (accepted, s')
  canRecv : ∀ {s p c}, Good s → p ≤ n → c ≤ 1 → ∃ ready, bus.canRecv s p c = .ok ready
  recv : ∀ {s p c}, Good s → p ≤ n → c ≤ 1 → ∃ data s', bus.recv s p c = .ok (data, s')

/-- The calls of `n` harts return in these states: each sends requests to port `n`, and receives
responses. -/
structure HartsReturn {σ : Type} (bus : BusInterfaceV2 σ) (n : ℕ) (Fits : ℕ → Prop)
    (Good : σ → Prop) : Prop where
  canSend : ∀ {s p}, Good s → p < n → ∃ room, bus.canSend s p requestChannel = .ok room
  send : ∀ {s p data}, Good s → p < n → Fits data.length →
    ∃ accepted s', bus.send s p n requestChannel data = .ok (accepted, s')
  canRecv : ∀ {s p}, Good s → p < n → ∃ ready, bus.canRecv s p responseChannel = .ok ready
  recv : ∀ {s p}, Good s → p < n → ∃ data s', bus.recv s p responseChannel = .ok (data, s')

theorem Returns.harts {σ : Type} {bus : BusInterfaceV2 σ} {n : ℕ} {Fits : ℕ → Prop}
    {Good : σ → Prop} (h : Returns bus n Fits Good) : HartsReturn bus n Fits Good where
  canSend := fun hgood hp ↦ h.canSend hgood hp.le (by decide)
  send := fun hgood hp ↦ h.send hgood hp.le le_rfl (by decide)
  canRecv := fun hgood hp ↦ h.canRecv hgood hp.le (by decide)
  recv := fun hgood hp ↦ h.recv hgood hp.le (by decide)

/-! ## The two classes -/

theorem Layout.channel {ord : HashOrder} {config : ManycoreConfig} {m : ManycoreSystem}
    (h : Layout ord config m) {c : ChannelT} (hc : c ≤ 1) : c < m.noc.chaCnt := by
  rw [h.chaCnt]
  exact Nat.lt_succ_of_le hc

/-- While the ring tells its messages apart, its calls return. -/
theorem Layout.returns {ord : HashOrder} {config : ManycoreConfig} {m : ManycoreSystem}
    (h : Layout ord config m) {Fits : ℕ → Prop}
    (hfits : ∀ size, ∀ c ≤ 1, Fits size → m.noc.Fits size c) {Allowed : Letter → Prop} :
    Returns (nocInterface m.noc) config.coreCount Fits
      (fun s ↦ ∃ letters, NocHolds m.noc False Allowed letters s) where
  canSend := fun _ hp hc ↦ exists_canSend_eq_ok (h.knownPort.mpr hp)
    (h.channel hc) _
  send := fun _ hp hd hc hsize ↦ exists_send_eq_ok (h.knownPort.mpr hp) (h.knownPort.mpr hd)
    (h.channel hc) (hfits _ _ hc hsize) _
  canRecv := fun _ hp hc ↦ exists_canRecv_eq_ok (h.knownPort.mpr hp)
    (h.channel hc) _
  recv := by
    rintro s p c ⟨letters, g, hinv, -, -⟩ hp hc
    rcases hinv.recv_cases h.wellFormed (h.knownPort.mpr hp) (h.channel hc) with
      ⟨heq, -⟩ | ⟨m', rest, s', -, -, heq, -⟩ | ⟨hK, -⟩
    · exact ⟨none, s, by simp only [nocInterface, heq]⟩
    · exact ⟨some m'.data, s', by simp only [nocInterface, heq]⟩
    · exact hK.elim

theorem SharedBus.returns {b : SharedBus} {n : ℕ} (hsize : b.size = n + 1) :
    Returns b.interface n (fun _ ↦ True) fun _ ↦ True where
  canSend := fun {s p c} _ hp hc ↦ by
    have hcheck : b.check p c = .ok () :=
      check_eq_ok_iff.mpr ⟨hsize ▸ Nat.lt_succ_of_le hp, hc⟩
    exact ⟨b.hasRoom s p, by simp only [interface, canSend, hcheck]; rfl⟩
  send := fun _ hp hd hc _ ↦ exists_send_eq_ok (hsize ▸ Nat.lt_succ_of_le hp)
    (hsize ▸ Nat.lt_succ_of_le hd) hc _ _
  canRecv := fun {s p c} _ hp hc ↦ by
    have hcheck : b.check p c = .ok () :=
      check_eq_ok_iff.mpr ⟨hsize ▸ Nat.lt_succ_of_le hp, hc⟩
    exact ⟨_, by simp only [interface, canRecv, hcheck]; rfl⟩
  recv := fun _ hp hc ↦ exists_recv_eq_ok (hsize ▸ Nat.lt_succ_of_le hp) hc _

namespace Interconnect

/-- The interconnect within a tick of the system, as a bus whose own tick does nothing. -/
def still : IBus Interconnect := { interface with applyNextTick := .ok }

/-- The letters on the interconnect of `n` harts. -/
inductive Holds (n : ℕ) (K : Prop) (letters : List Letter) : Interconnect → Prop
  | ring {ord config noc s} : Layout ord config ⟨config, noc⟩ → config.coreCount = n →
      (∀ size c, size ≤ 64 → noc.Fits size c) → NocHolds noc K (Allowed n) letters s →
      Holds n K letters (ring noc s)
  | shared {b s} : b.size = n + 1 → b.Holds letters s → (∀ l ∈ letters, Allowed n l) →
      Holds n K letters (shared b s)

variable {n : ℕ} {K : Prop} {letters : List Letter} {x x' : Interconnect}

/-! ## The calls

Each call of the interface either changes the letters as `Reliable` says or returns without a
change.
-/

theorem Holds.send (h : Holds n K letters x) {l : Letter} (hl : Allowed n l) {accepted : Bool}
    (hsend : interface.send x l.src l.dst l.cha l.data = .ok (accepted, x')) :
    Holds n K (if accepted then letters ++ [l] else letters) x' := by
  cases h with
  | @ring ord config noc s hlayout hn hfits hholds =>
    obtain ⟨⟨accepted', s'⟩, hs, h⟩ := Except.bind_eq_ok_iff.mp hsend
    obtain ⟨rfl, rfl⟩ := Prod.mk.inj (Except.ok.inj h)
    exact .ring hlayout hn hfits (hholds.send hlayout.wellFormed (fun _ ↦ Allowed.length_le) hl hs)
  | @shared b s hsize hholds hallowed =>
    obtain ⟨⟨accepted', s'⟩, hs, h⟩ := Except.bind_eq_ok_iff.mp hsend
    obtain ⟨rfl, rfl⟩ := Prod.mk.inj (Except.ok.inj h)
    refine .shared hsize (hholds.send hs) fun l' hl' ↦ ?_
    cases accepted' with
    | false => exact hallowed l' hl'
    | true =>
      rcases List.mem_append.mp hl' with hl' | hl'
      · exact hallowed l' hl'
      · exact List.mem_singleton.mp hl' ▸ hl

theorem Holds.recv_none (h : Holds n K letters x) {d : BusPortT} {c : ChannelT}
    (hrecv : interface.recv x d c = .ok (none, x')) : Holds n K letters x' := by
  cases h with
  | @ring ord config noc s hlayout hn hfits hholds =>
    obtain ⟨⟨data, s'⟩, hs, h⟩ := Except.bind_eq_ok_iff.mp hrecv
    obtain ⟨rfl, rfl⟩ := Prod.mk.inj (Except.ok.inj h)
    exact .ring hlayout hn hfits (hholds.recv_none hlayout.wellFormed hs)
  | @shared b s hsize hholds hallowed =>
    obtain ⟨⟨data, s'⟩, hs, h⟩ := Except.bind_eq_ok_iff.mp hrecv
    obtain ⟨rfl, rfl⟩ := Prod.mk.inj (Except.ok.inj h)
    exact .shared hsize (hholds.recv_none hs) hallowed

theorem Holds.recv_some (h : Holds n K letters x) {d : BusPortT} {c : ChannelT} {data : Bytes}
    (hrecv : interface.recv x d c = .ok (some data, x')) :
    ∃ front l back, letters = front ++ l :: back ∧ l.dst = d ∧ l.cha = c ∧ l.data = data ∧
      Holds n K (front ++ back) x' ∧ (¬K → ∀ l' ∈ front, ¬l'.SameWay l) := by
  cases h with
  | @ring ord config noc s hlayout hn hfits hholds =>
    obtain ⟨⟨data', s'⟩, hs, h⟩ := Except.bind_eq_ok_iff.mp hrecv
    obtain ⟨rfl, rfl⟩ := Prod.mk.inj (Except.ok.inj h)
    obtain ⟨front, l, back, hsplit, hd, hc, hdata, hholds', hfifo⟩ :=
      hholds.recv_some hlayout.wellFormed hs
    exact ⟨front, l, back, hsplit, hd, hc, hdata, .ring hlayout hn hfits hholds', hfifo⟩
  | @shared b s hsize hholds hallowed =>
    obtain ⟨⟨data', s'⟩, hs, h⟩ := Except.bind_eq_ok_iff.mp hrecv
    obtain ⟨rfl, rfl⟩ := Prod.mk.inj (Except.ok.inj h)
    obtain ⟨front, l, back, hsplit, hd, hc, hdata, hholds', hfifo⟩ := hholds.recv_some hs
    refine ⟨front, l, back, hsplit, hd, hc, hdata, .shared hsize hholds' fun l' hl' ↦ ?_,
      fun _ ↦ hfifo⟩
    rw [hsplit] at hallowed
    exact hallowed l' (List.mem_append.mpr
      ((List.mem_append.mp hl').imp_right (List.mem_cons_of_mem l)))

theorem reliable_still (n : ℕ) (K : Prop) :
    Reliable still.toBusInterfaceV2 (Allowed n) (fun _ ↦ True) (¬K) (Holds n K) where
  send := fun _ h hl hsend _ ↦ h.send hl hsend
  recv_none := fun h hrecv _ ↦ h.recv_none hrecv
  recv_some := fun h hrecv _ ↦ h.recv_some hrecv
  tick := fun h htick _ ↦ Except.ok.inj htick ▸ h
  live_send := fun _ _ ↦ trivial
  live_recv := fun _ _ ↦ trivial
  live_tick := fun _ _ ↦ trivial

theorem returns_still (n : ℕ) :
    Returns still.toBusInterfaceV2 n (· ≤ 64) fun x ↦ ∃ letters, Holds n False letters x where
  canSend := by
    rintro x p c ⟨letters, h⟩ hp hc
    cases h with
    | ring hlayout hn hfits hholds =>
      exact (hlayout.returns fun size c _ ↦ hfits size c).canSend ⟨_, hholds⟩ (hn ▸ hp) hc
    | shared hsize => exact (SharedBus.returns hsize).canSend trivial hp hc
  send := by
    rintro x p d c data ⟨letters, h⟩ hp hd hc hdata
    cases h with
    | @ring _ _ noc s hlayout hn hfits hholds =>
      obtain ⟨accepted, s', hs⟩ :=
        (hlayout.returns fun size c _ ↦ hfits size c).send ⟨_, hholds⟩ (hn ▸ hp) (hn ▸ hd) hc hdata
      exact ⟨accepted, .ring noc s', Except.bind_eq_ok_iff.mpr ⟨_, hs, rfl⟩⟩
    | @shared b s hsize =>
      have hp' : p < b.size := by omega
      have hd' : d < b.size := by omega
      obtain ⟨accepted, s', hs⟩ := SharedBus.exists_send_eq_ok hp' hd' hc s data
      exact ⟨accepted, .shared b s', Except.bind_eq_ok_iff.mpr ⟨_, hs, rfl⟩⟩
  canRecv := by
    rintro x p c ⟨letters, h⟩ hp hc
    cases h with
    | ring hlayout hn hfits hholds =>
      exact (hlayout.returns fun size c _ ↦ hfits size c).canRecv ⟨_, hholds⟩ (hn ▸ hp) hc
    | shared hsize => exact (SharedBus.returns hsize).canRecv trivial hp hc
  recv := by
    rintro x p c ⟨letters, h⟩ hp hc
    cases h with
    | @ring _ _ noc s hlayout hn hfits hholds =>
      obtain ⟨data, s', hs⟩ :=
        (hlayout.returns fun size c _ ↦ hfits size c).recv ⟨_, hholds⟩ (hn ▸ hp) hc
      exact ⟨data, .ring noc s', Except.bind_eq_ok_iff.mpr ⟨_, hs, rfl⟩⟩
    | @shared b s hsize =>
      obtain ⟨data, s', hs⟩ := (SharedBus.returns hsize).recv (s := s) trivial hp hc
      exact ⟨data, .shared b s', Except.bind_eq_ok_iff.mpr ⟨_, hs, rfl⟩⟩

/-! ## A tick -/

/-- The interconnect moves on without a loss. With `K` false the ring must not have accepted too
many messages. -/
theorem Holds.applyNextTick (h : Holds n K letters x) (hlt : ¬K → x.messages < 2 ^ 32) :
    ∃ x', interface.applyNextTick x = .ok x' ∧ Holds n K letters x' ∧ x'.messages = x.messages := by
  cases h with
  | @ring ord config noc s hlayout hn hfits hholds =>
    obtain ⟨g, hinv, rfl, hallowed⟩ := hholds
    have hkeyed : K → g.Keyed noc := by
      intro _ m hm m' hm' _ hv
      exact hlayout.keyed (letterOf m) (letterOf m')
        (hn ▸ hallowed _ (List.mem_map_of_mem hm)) (hn ▸ hallowed _ (List.mem_map_of_mem hm')) hv
    have hmode : K ∨ g.Distinct noc := by
      by_cases hK : K
      · exact .inl hK
      · exact .inr (distinct_of_accepted_lt hinv (hlt hK))
    obtain ⟨s', g', hs, hlive, hinv', haccepted, -⟩ := hinv.tick hlayout.wellFormed hmode hkeyed
    refine ⟨.ring noc s', Except.bind_eq_ok_iff.mpr ⟨s', hs, rfl⟩,
      .ring hlayout hn hfits ⟨g', hinv', by rw [hlive], hallowed⟩, haccepted⟩
  | @shared b s hsize hholds hallowed =>
    refine ⟨.shared b (b.applyNextTick s), rfl, .shared hsize hholds.applyNextTick hallowed, ?_⟩
    rw [messages, messages, SharedBus.accepted_applyNextTick]

end Interconnect

end Manycore
