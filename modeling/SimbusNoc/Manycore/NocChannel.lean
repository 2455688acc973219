import SimbusNoc.Manycore.Channel
import SimbusNoc.Manycore.System
import SimbusNoc.Noc.Transport

/-!
# The network as a reliable bus

The letters of the network are the live messages of its ledger. Two sets of circumstances make it
reliable: when all messages for one node are for one port and channel, whatever their number; and,
with order kept, as long as fewer than `2 ^ 32` messages have been accepted.

The laws of a bus are about calls that return. So in the first case a `recv` may well throw, when
two messages of a node have met under one transmission id, and then the tick of its caller throws
as well. As long as it returns, it returns what has been sent. In the second case it never throws,
and the ledger has the messages of each flow in their order.
-/

namespace Manycore

open Simbus Simbus.Bus

/-- A live message as a letter. -/
def letterOf (m : Message) : Letter := ⟨m.src, m.dst, m.cha, m.data⟩

/-- The ledger of the network has these letters, all of them allowed. -/
def NocHolds (b : Bus) (K : Prop) (Allowed : Letter → Prop) (letters : List Letter)
    (s : BusState) : Prop :=
  ∃ g, b.Inv K g s ∧ letters = g.live.map letterOf ∧ ∀ l ∈ letters, Allowed l

variable {b : Bus} {K : Prop} {Allowed : Letter → Prop} {letters : List Letter} {s s' : BusState}

theorem NocHolds.init (b : Bus) (K : Prop) (Allowed : Letter → Prop) :
    NocHolds b K Allowed [] {} :=
  ⟨{}, Inv.init b K, rfl, fun _ h ↦ nomatch h⟩

/-! ## The calls

A call of the network through the interface is one event of a run: a letter sent, a letter
returned, or neither.
-/

theorem NocHolds.send (hb : b.WellFormed) (hsize : ∀ l, Allowed l → l.data.length ≤ 2 ^ 31)
    (h : NocHolds b K Allowed letters s) {l : Letter} {accepted : Bool} (hl : Allowed l)
    (hsend : b.send s l.src l.dst l.cha l.data = .ok (accepted, s')) :
    NocHolds b K Allowed (if accepted then letters ++ [l] else letters) s' := by
  obtain ⟨g, hinv, rfl, hallowed⟩ := h
  cases accepted with
  | false => exact ⟨g, hinv.send_false hsend, rfl, hallowed⟩
  | true =>
    have hfits : l.data.length ≤ 2 ^ 32 - b.width l.cha := by
      have hlen := hsize l hl
      have hw := (width_bounds hb l.cha).2
      omega
    refine ⟨_, (hinv.send_true hb hfits hsend).1, ?_, ?_⟩
    · rw [if_pos rfl, Ledger.accept, List.map_append]
      rfl
    · intro l' hl'
      rcases List.mem_append.mp hl' with hl' | hl'
      · exact hallowed l' hl'
      · rwa [List.mem_singleton.mp hl']

theorem NocHolds.tick (hb : b.WellFormed) (h : NocHolds b K Allowed letters s)
    (hmode : ∀ g, b.Inv K g s → letters = g.live.map letterOf →
      (∀ l ∈ letters, Allowed l) → (K ∨ g.Distinct b) ∧ (K → g.Keyed b))
    (htick : b.applyNextTick s = .ok s') : NocHolds b K Allowed letters s' := by
  obtain ⟨g, hinv, rfl, hallowed⟩ := h
  obtain ⟨hdistinct, hkeyed⟩ := hmode g hinv rfl hallowed
  obtain ⟨s₁, g', hs₁, hlive, hinv', -⟩ := hinv.tick hb hdistinct hkeyed
  obtain rfl : s₁ = s' := Except.ok.inj (hs₁.symm.trans htick)
  exact ⟨g', hinv', by rw [hlive], hallowed⟩

theorem nocInterface_recv_eq_ok {d : BusPortT} {c : ChannelT} {data : Option Bytes}
    (h : (nocInterface b).recv s d c = .ok (data, s')) :
    b.knownPort d = true ∧ c < b.chaCnt ∧
      ((data = none ∧ b.recv s d c = (.empty, s')) ∨
        ∃ bytes packs, data = some bytes ∧ b.recv s d c = (.message bytes packs, s')) := by
  have hknown : b.knownPort d = true ∧ c < b.chaCnt := by
    simp only [nocInterface, Bus.recv] at h
    cases hport : b.validatePort d with
    | error e => simp [hport] at h
    | ok u =>
      cases hcha : b.validateChannel c with
      | error e => simp [hport, hcha] at h
      | ok u' => exact ⟨validatePort_eq_ok.mp hport, validateChannel_eq_ok.mp hcha⟩
  refine ⟨hknown.1, hknown.2, ?_⟩
  rcases hrecv : b.recv s d c with ⟨outcome, s₁⟩
  simp only [nocInterface, hrecv] at h
  cases outcome with
  | empty =>
    obtain ⟨rfl, rfl⟩ := Prod.mk.inj (Except.ok.inj h)
    exact .inl ⟨rfl, rfl⟩
  | message bytes packs =>
    obtain ⟨rfl, rfl⟩ := Prod.mk.inj (Except.ok.inj h)
    exact .inr ⟨bytes, packs, rfl, rfl⟩
  | thrown e => cases h

theorem NocHolds.recv_none (hb : b.WellFormed) (h : NocHolds b K Allowed letters s)
    {d : BusPortT} {c : ChannelT} (hrecv : (nocInterface b).recv s d c = .ok (none, s')) :
    NocHolds b K Allowed letters s' := by
  obtain ⟨g, hinv, rfl, hallowed⟩ := h
  obtain ⟨hd, hc, ⟨-, hempty⟩ | ⟨bytes, packs, hnone, -⟩⟩ := nocInterface_recv_eq_ok hrecv
  · rcases hinv.recv_cases hb hd hc with ⟨heq, -⟩ | ⟨m, rest, s₁, -, -, heq, -⟩ |
      ⟨-, -, e, s₁, heq⟩
    · obtain rfl : s = s' := congrArg Prod.snd (heq.symm.trans hempty)
      exact ⟨g, hinv, rfl, hallowed⟩
    · cases heq.symm.trans hempty
    · cases heq.symm.trans hempty
  · cases hnone

/-- The first delivered message is the oldest live one of its flow, and taking it back leaves the
others as they were. -/
private theorem split_live {g : Ledger} {w : View} (h : Carries b K g w) {m : Message}
    {rest : List Message} (hfront : g.delivered m.dst m.cha = m :: rest) :
    ∃ front back, g.live = front ++ m :: back ∧ (g.giveBack m).live = front ++ back ∧
      (¬K → ∀ m' ∈ front, m'.flow ≠ m.flow) := by
  have hm : m ∈ g.live := (h.delivered_live m.dst m.cha m (by simp [hfront])).1
  have hsplit : ∃ front back, g.live = front ++ m :: back ∧
      (¬K → ∀ m' ∈ front, m'.flow ≠ m.flow) := by
    by_cases hK : K
    · obtain ⟨front, back, heq⟩ := List.append_of_mem hm
      exact ⟨front, back, heq, fun hK' ↦ absurd hK hK'⟩
    · obtain ⟨tail, htail, -⟩ := h.ordered hK m.flow
      have hd : g.delivered m.flow.dst m.flow.cha = m :: rest := hfront
      rw [hd, List.filter_cons_of_pos (by simp [Message.flow]), List.cons_append,
        List.filter_eq_cons_iff] at htail
      obtain ⟨front, back, heq, hother, -⟩ := htail
      exact ⟨front, back, heq, fun _ m' hm' hf ↦ hother m' hm' (decide_eq_true hf)⟩
  obtain ⟨front, back, heq, hother⟩ := hsplit
  refine ⟨front, back, heq, ?_, hother⟩
  have hnodup := h.live_nodup
  rw [heq] at hnodup
  have hkeep : ∀ l : List Message, m ∉ l → l.filter (fun m' ↦ !(decide (m' = m))) = l := by
    intro l hl
    refine List.filter_eq_self.mpr fun m' hm' ↦ ?_
    have hne : m' ≠ m := fun heq ↦ hl (heq ▸ hm')
    simp [hne]
  have hnot := List.nodup_middle.mp hnodup
  obtain ⟨hmem, -⟩ := List.nodup_cons.mp hnot
  rw [List.mem_append, not_or] at hmem
  rw [Ledger.giveBack, heq, List.filter_append, List.filter_cons_of_neg (by simp),
    hkeep front hmem.1, hkeep back hmem.2]

theorem NocHolds.recv_some (hb : b.WellFormed) (h : NocHolds b K Allowed letters s)
    {d : BusPortT} {c : ChannelT} {data : Bytes}
    (hrecv : (nocInterface b).recv s d c = .ok (some data, s')) :
    ∃ front l back, letters = front ++ l :: back ∧ l.dst = d ∧ l.cha = c ∧ l.data = data ∧
      NocHolds b K Allowed (front ++ back) s' ∧ (¬K → ∀ l' ∈ front, ¬l'.SameWay l) := by
  obtain ⟨g, hinv, rfl, hallowed⟩ := h
  obtain ⟨hd, hc, ⟨hnone, -⟩ | ⟨bytes, packs, hsome, hmessage⟩⟩ := nocInterface_recv_eq_ok hrecv
  · cases hnone
  obtain rfl := Option.some.inj hsome
  rcases hinv.recv_cases hb hd hc with ⟨heq, -⟩ | ⟨m, rest, s₁, hfront, -, heq, hinv', -⟩ |
    ⟨-, -, e, s₁, heq⟩
  · cases heq.symm.trans hmessage
  · obtain ⟨houtcome, rfl⟩ := Prod.mk.inj (heq.symm.trans hmessage)
    obtain ⟨rfl, -⟩ := RecvOutcome.message.inj houtcome
    obtain ⟨-, rfl, rfl, -⟩ := hinv.carries.delivered_live d c m (by simp [hfront])
    obtain ⟨front, back, hlive, hlive', hother⟩ := split_live hinv.carries hfront
    refine ⟨front.map letterOf, letterOf m, back.map letterOf, ?_, rfl, rfl,
      rfl, ⟨_, hinv', ?_, ?_⟩, ?_⟩
    · rw [hlive, List.map_append, List.map_cons]
    · rw [hlive', List.map_append]
    · intro l hl
      refine hallowed l ?_
      rw [hlive, List.map_append, List.map_cons]
      exact List.mem_append.mpr ((List.mem_append.mp hl).imp_right (List.mem_cons_of_mem _))
    · rintro hK l' hl' ⟨hsrc, hdst, hcha⟩
      obtain ⟨m', hm', rfl⟩ := List.mem_map.mp hl'
      exact hother hK m' hm' ((Simbus.Flow.mk.injEq ..).mpr ⟨hsrc, hdst, hcha⟩)
  · cases heq.symm.trans hmessage

/-! ## The laws -/

theorem reliable_between_ticks (hb : b.WellFormed)
    (hsize : ∀ l, Allowed l → l.data.length ≤ 2 ^ 31) :
    Reliable (nocInterface b).still Allowed (fun _ ↦ True) True (NocHolds b False Allowed) where
  send := fun _ h hl hsend _ ↦ h.send hb hsize hl hsend
  recv_none := fun h hrecv _ ↦ h.recv_none hb hrecv
  recv_some := fun h hrecv _ ↦ by
    obtain ⟨front, l, back, heq, hd, hc, hdata, hholds, hother⟩ := h.recv_some hb hrecv
    exact ⟨front, l, back, heq, hd, hc, hdata, hholds, fun _ ↦ hother id⟩
  tick := fun h htick _ ↦ Except.ok.inj htick ▸ h
  live_send := fun _ _ ↦ trivial
  live_recv := fun _ _ ↦ trivial
  live_tick := fun _ _ ↦ trivial

/-- The network whose nodes each receive on one port and channel. -/
theorem reliable_keyed (hb : b.WellFormed) (hsize : ∀ l, Allowed l → l.data.length ≤ 2 ^ 31)
    (hkeyed : ∀ l l', Allowed l → Allowed l' → b.home l.dst = b.home l'.dst →
      l.dst = l'.dst ∧ l.cha = l'.cha) :
    Reliable (nocInterface b) Allowed (fun _ ↦ True) False (NocHolds b True Allowed) where
  send := fun _ h hl hsend _ ↦ h.send hb hsize hl hsend
  recv_none := fun h hrecv _ ↦ h.recv_none hb hrecv
  recv_some := fun h hrecv _ ↦ by
    obtain ⟨front, l, back, heq, hd, hc, hdata, hholds, -⟩ := h.recv_some hb hrecv
    exact ⟨front, l, back, heq, hd, hc, hdata, hholds, False.elim⟩
  tick := fun h htick _ ↦ h.tick hb (fun g _ hletters hallowed ↦ ⟨.inl trivial,
    fun _ m hm m' hm' _ hv ↦ hkeyed (letterOf m) (letterOf m')
      (hallowed _ (hletters ▸ List.mem_map_of_mem hm))
      (hallowed _ (hletters ▸ List.mem_map_of_mem hm')) hv⟩) htick
  live_send := fun _ _ ↦ trivial
  live_recv := fun _ _ ↦ trivial
  live_tick := fun _ _ ↦ trivial

/-- With fewer than `2 ^ 32` accepted messages no two of them share a transmission id. -/
theorem distinct_of_accepted_lt {g : Ledger} (h : b.Inv K g s) (hlt : s.accepted < 2 ^ 32) :
    g.Distinct b := by
  intro m hm m' hm' hx _ _ _
  have hserial : ∀ m ∈ g.live, m.xmtid = m.serial := fun m hm ↦
    Nat.mod_eq_of_lt ((h.serials m hm).trans hlt)
  exact h.carries.serial_inj hm hm' ((hserial m hm).symm.trans (hx.trans (hserial m' hm')))

end Manycore
