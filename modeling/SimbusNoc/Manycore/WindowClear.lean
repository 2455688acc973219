import SimbusNoc.Manycore.ControlWindow
import SimbusNoc.Manycore.Rv64Safety
import SimbusNoc.Noc.OneReceiver

/-!
# No transaction touches the control window

What holds of the requests on their way to the controller, in every reachable state and whatever
the number of messages. The ring may lose track of the responses of a hart once transmission ids
repeat, and such a hart faults; the messages to the controller stay what they are.

## Why repeated ids do no harm here

The controller is alone at its node and the harts are elsewhere, so its messages keep apart from
those that a hart may confuse. `Interconnect.Screened` says of each letter to the controller that
it is a request outside the window, and all calls keep it, also a `recv` that throws.

## From the parties to the system

Every party has the same two lemmas: its turn keeps what is to be kept, and its turn on the guarded
bus is the same turn. The parties are the controller with its memory, the adapters and the cores.
`Clear` collects what holds between any two turns, `Clear.ticks` is the induction over the ticks,
and `ticks_keepsWindow` states what it means: memory has no byte in the window, no request is on
its way there, and a bus that would refuse such a request is never asked to.
-/

namespace Manycore

open Simbus Rv64archsem

/-! ## The interconnect

Messages to the controller are not mixed up with others, for the controller is alone at its node.
What the harts send there is a request outside the window, so whatever lies there is one.
-/

/-- A request of one of `n` harts that stays outside the window. -/
structure MemoryRequest.Clear (n : ℕ) (q : MemoryRequest) : Prop where
  valid : q.Valid
  avoids : q.Avoids
  hartId : q.hartId.toNat < n

/-- Such a request may go to the controller. -/
def Screens (n : ℕ) (channel : ChannelT) (data : Bytes) : Prop :=
  channel = requestChannel ∧ ∃ q : MemoryRequest, q.Clear n ∧ data = q.wire

theorem Layout.alone {ord : HashOrder} {config : ManycoreConfig} {m : ManycoreSystem}
    (h : Layout ord config m) : m.noc.Alone config.coreCount := by
  intro p hp
  rw [h.home le_rfl] at hp
  by_cases hknown : p ≤ config.coreCount
  · rwa [h.home hknown] at hp
  · have hnone : m.noc.port2node.lookup p = none := by
      rw [List.lookup_eq_none_iff, h.port2node]
      intro entry hentry
      obtain ⟨i, hi, rfl⟩ := List.mem_map.mp hentry
      have hlt := List.mem_range.mp hi
      refine bne_iff_ne.mpr ?_
      rintro rfl
      exact hknown (Nat.le_of_lt_succ hlt)
    rw [Bus.home, hnone, Option.getD_none] at hp
    exact absurd hp.symm h.cores

namespace Interconnect

/-- All messages on their way to the controller of `n` harts are requests that stay outside the
window. -/
inductive Screened (n : ℕ) : Interconnect → Prop
  | ring {ord config noc s g} : Layout ord config ⟨config, noc⟩ → config.coreCount = n →
      noc.InvAt n g s → (∀ m ∈ g.live, m.dst = n ∧ Screens n m.cha m.data) → Screened n (ring noc s)
  | shared {b s letters} : b.Holds letters s → (∀ l ∈ letters, l.dst = n → Screens n l.cha l.data) →
      Screened n (shared b s)

namespace Screened

variable {n : ℕ} {x x' : Interconnect}

theorem of_holds (h : x.Holds n False []) : Screened n x := by
  cases h with
  | ring hlayout hn hfits hholds =>
    obtain ⟨g, hinv, hlive, -⟩ := hholds
    exact .ring hlayout hn (Bus.InvAt.of_empty hinv (List.map_eq_nil_iff.mp hlive.symm) n) nofun
  | shared hsize hholds hallowed => exact .shared hholds nofun

theorem send (h : Screened n x) {p d : BusPortT} {c : ChannelT} {data : Bytes}
    (hl : d = n → Screens n c data) {accepted : Bool}
    (hsend : interface.send x p d c data = .ok (accepted, x')) : Screened n x' := by
  cases h with
  | @ring ord config noc s g hlayout hn hinv hlive =>
    obtain ⟨⟨accepted', s'⟩, hs, h⟩ := Except.bind_eq_ok_iff.mp hsend
    obtain ⟨rfl, rfl⟩ := Prod.mk.inj (Except.ok.inj h)
    have hb := hlayout.wellFormed
    cases accepted' with
    | false => exact .ring hlayout hn (hinv.send_false hs) hlive
    | true =>
      by_cases hd : d = n
      · subst hd
        have hscreens := hl rfl
        have hfits : data.length ≤ 2 ^ 32 - noc.width c := by
          obtain ⟨-, q, hq, rfl⟩ := hscreens
          have hlen := hq.valid.length_data_le
          have hw : noc.width c ≤ 65536 := (Bus.width_bounds hb c).2
          rw [length_wire]
          omega
        refine .ring hlayout hn (hinv.send_self hb hfits hs) fun m hm ↦ ?_
        rcases (Ledger.mem_live_accept _ _).mp hm with hm | rfl
        · exact hlive m hm
        · exact ⟨rfl, hscreens⟩
      · exact .ring hlayout hn (hinv.send_of_ne hb hd hs) hlive
  | @shared b s letters hholds hletters =>
    obtain ⟨⟨accepted', s'⟩, hs, h⟩ := Except.bind_eq_ok_iff.mp hsend
    obtain ⟨rfl, rfl⟩ := Prod.mk.inj (Except.ok.inj h)
    refine .shared (hholds.send (l := ⟨p, d, c, data⟩) hs) fun l hl' ↦ ?_
    cases accepted' with
    | false => exact hletters l hl'
    | true =>
      rcases List.mem_append.mp hl' with hl' | hl'
      · exact hletters l hl'
      · rw [List.mem_singleton.mp hl']
        exact hl

theorem recv_of_ne (h : Screened n x) {p : BusPortT} (hp : p ≠ n) {c : ChannelT}
    {data : Option Bytes} (hrecv : interface.recv x p c = .ok (data, x')) : Screened n x' := by
  cases h with
  | @ring ord config noc s g hlayout hn hinv hlive =>
    obtain ⟨⟨data', s'⟩, hs, h⟩ := Except.bind_eq_ok_iff.mp hrecv
    obtain ⟨rfl, rfl⟩ := Prod.mk.inj (Except.ok.inj h)
    have hs' : s' = (noc.recv s p c).2 := by
      obtain ⟨-, -, ⟨-, heq⟩ | ⟨bytes, packs, -, heq⟩⟩ := nocInterface_recv_eq_ok hs
      · rw [heq]
      · rw [heq]
    exact .ring hlayout hn (hs' ▸ hinv.recv_of_ne hp c) hlive
  | @shared b s letters hholds hletters =>
    obtain ⟨⟨data', s'⟩, hs, h⟩ := Except.bind_eq_ok_iff.mp hrecv
    obtain ⟨rfl, rfl⟩ := Prod.mk.inj (Except.ok.inj h)
    cases data' with
    | none => exact .shared (hholds.recv_none hs) hletters
    | some bytes =>
      obtain ⟨front, l, back, rfl, -, -, -, hholds', -⟩ := hholds.recv_some hs
      refine .shared hholds' fun l' hl' ↦ hletters l' ?_
      exact List.mem_append.mpr ((List.mem_append.mp hl').imp_right (List.mem_cons_of_mem l))

theorem recvThrown_of_ne (h : Screened n x) {p : BusPortT} (hp : p ≠ n) (c : ChannelT) :
    Screened n (interface.recvThrown x p c) := by
  cases h with
  | ring hlayout hn hinv hlive => exact .ring hlayout hn (hinv.recv_of_ne hp c) hlive
  | shared hholds hletters => exact .shared hholds hletters

theorem recv_some (h : Screened n x) {c : ChannelT} {data : Bytes}
    (hrecv : interface.recv x n c = .ok (some data, x')) :
    ∃ q : MemoryRequest, q.Clear n ∧ data = q.wire ∧ Screened n x' := by
  cases h with
  | @ring ord config noc s g hlayout hn hinv hlive =>
    obtain ⟨⟨data', s'⟩, hs, h⟩ := Except.bind_eq_ok_iff.mp hrecv
    obtain ⟨rfl, rfl⟩ := Prod.mk.inj (Except.ok.inj h)
    obtain ⟨hd, hc, ⟨hnone, -⟩ | ⟨bytes, packs, hsome, heq⟩⟩ := nocInterface_recv_eq_ok hs
    · cases hnone
    · obtain ⟨m, hm, -, -, hdata, hinv'⟩ := hinv.recv_message hlayout.wellFormed hd hc heq
      obtain ⟨-, -, q, hq, hwire⟩ := hlive m hm
      refine ⟨q, hq, ?_, .ring hlayout hn hinv' fun m' hm' ↦
        hlive m' (Ledger.mem_live_giveBack _ _ |>.mp hm').1⟩
      rw [Option.some.inj hsome, ← hdata, hwire]
  | @shared b s letters hholds hletters =>
    obtain ⟨⟨data', s'⟩, hs, h⟩ := Except.bind_eq_ok_iff.mp hrecv
    obtain ⟨rfl, rfl⟩ := Prod.mk.inj (Except.ok.inj h)
    obtain ⟨front, l, back, rfl, hd, -, rfl, hholds', -⟩ := hholds.recv_some hs
    obtain ⟨-, q, hq, hwire⟩ := hletters l (by simp) hd
    refine ⟨q, hq, hwire, .shared hholds' fun l' hl' ↦ hletters l' ?_⟩
    exact List.mem_append.mpr ((List.mem_append.mp hl').imp_right (List.mem_cons_of_mem l))

theorem recv_none (h : Screened n x) {c : ChannelT}
    (hrecv : interface.recv x n c = .ok (none, x')) : Screened n x' := by
  cases h with
  | @ring ord config noc s g hlayout hn hinv hlive =>
    obtain ⟨⟨data', s'⟩, hs, h⟩ := Except.bind_eq_ok_iff.mp hrecv
    obtain ⟨rfl, rfl⟩ := Prod.mk.inj (Except.ok.inj h)
    obtain ⟨hd, hc, ⟨-, heq⟩ | ⟨bytes, packs, hsome, -⟩⟩ := nocInterface_recv_eq_ok hs
    · exact .ring hlayout hn (hinv.recv_empty hlayout.wellFormed hd hc heq) hlive
    · cases hsome
  | @shared b s letters hholds hletters =>
    obtain ⟨⟨data', s'⟩, hs, h⟩ := Except.bind_eq_ok_iff.mp hrecv
    obtain ⟨rfl, rfl⟩ := Prod.mk.inj (Except.ok.inj h)
    exact .shared (hholds.recv_none hs) hletters

theorem applyNextTick (h : Screened n x) (htick : interface.applyNextTick x = .ok x') :
    Screened n x' := by
  cases h with
  | @ring ord config noc s g hlayout hn hinv hlive =>
    obtain ⟨s', hs, h⟩ := Except.bind_eq_ok_iff.mp htick
    obtain rfl := Except.ok.inj h
    have hkeyed : g.Keyed noc := by
      intro m hm m' hm' _ _
      obtain ⟨hd, hc, -⟩ := hlive m hm
      obtain ⟨hd', hc', -⟩ := hlive m' hm'
      exact ⟨hd.trans hd'.symm, hc.trans hc'.symm⟩
    obtain ⟨g', hlive', hinv'⟩ := hinv.tick hlayout.wellFormed (hn ▸ hlayout.alone) hkeyed hs
    exact .ring hlayout hn hinv' fun m hm ↦ hlive m (hlive' ▸ hm)
  | @shared b s letters hholds hletters =>
    obtain rfl := Except.ok.inj htick
    exact .shared hholds.applyNextTick hletters

end Screened

end Interconnect

open Interconnect

/-! ## The controller

What the controller receives is clear, so what it writes into memory is outside the window.
-/

theorem SharedMemory.write_of_ne {data : Bytes} {address x : UInt64} {m : SharedMemory}
    (h : ∀ i < data.length, address + UInt64.ofNat i ≠ x) : m.write address data x = m x := by
  induction data generalizing address m with
  | nil => rfl
  | cons byte rest ih =>
    have hfirst : address ≠ x := by
      have hzero := h 0 (Nat.succ_pos _)
      rwa [show UInt64.ofNat 0 = 0 from rfl, UInt64.add_zero] at hzero
    have hrest : ∀ i < rest.length, address + 1 + UInt64.ofNat i ≠ x := by
      intro i hi
      have hsucc := h (i + 1) (Nat.succ_lt_succ hi)
      rwa [UInt64.ofNat_add, UInt64.add_comm (UInt64.ofNat i), ← UInt64.add_assoc] at hsucc
    rw [write, ih hrest, Function.update_of_ne hfirst.symm]

/-- The memory has no byte in the control window. -/
def SharedMemory.WindowFree (m : SharedMemory) : Prop :=
  ∀ address, MmioBusAdapter.contains address = true → m address = none

namespace MemoryController

/-- All requests that the controller has are clear, and so is the memory. -/
structure Clear (n : ℕ) (c : MemoryController) : Prop where
  requests : ∀ q ∈ (c.active.map WorkItem.request).toList ++ c.queue, q.Clear n
  response : ∀ r ∈ c.response, r.hartId.toNat < n
  memory : c.memory.WindowFree

variable {n : ℕ} {c c' : MemoryController} {x x' : Interconnect}

theorem Clear.init (n : ℕ) : Clear n {} where
  requests := nofun
  response := nofun
  memory := fun _ _ ↦ rfl

theorem Clear.congr (h : c.Clear n) (hsame : SameWork c c') (hresponse : c'.response = c.response) :
    c'.Clear n where
  requests := by rw [hsame.active, hsame.queue]; exact h.requests
  response := by rw [hresponse]; exact h.response
  memory := hsame.memory ▸ h.memory

theorem windowFree_apply {m : SharedMemory} (hm : m.WindowFree) {q : MemoryRequest}
    (hq : q.Clear n) : (apply m q).2.WindowFree := by
  rw [apply, serve]
  rcases hq.valid.data with ⟨hop, -⟩ | ⟨hop, hlen⟩
  · rw [if_pos hop]
    exact hm
  · rw [if_neg (by rw [hop]; decide), if_pos hop]
    intro address haddress
    dsimp only
    rw [SharedMemory.write_of_ne, hm address haddress]
    rintro i hi rfl
    exact Bool.noConfusion ((hq.avoids i (hlen ▸ hi)).symm.trans haddress)

theorem sendResponse_clear (hc : c.Clear n) (hx : Screened n x)
    (h : sendResponse interface.toBusInterfaceV2 n c x = .ok (c', x')) :
    c'.Clear n ∧ Screened n x' := by
  rcases sendResponse_cases h with ⟨rfl, rfl, -⟩ | ⟨rfl, rfl⟩ | ⟨r, accepted, hr, hsend, rfl⟩
  · exact ⟨hc, hx⟩
  · exact ⟨hc.congr ⟨rfl, rfl, rfl, rfl, rfl, rfl, rfl⟩ rfl, hx⟩
  · refine ⟨?_, hx.send (fun hn ↦ absurd hn (hc.response r (by rw [hr]; rfl)).ne) hsend⟩
    cases accepted with
    | false => exact hc.congr ⟨rfl, rfl, rfl, rfl, rfl, rfl, rfl⟩ rfl
    | true => exact ⟨hc.requests, nofun, hc.memory⟩

theorem receiveRequest_clear {config : MemoryControllerConfig} (hc : c.Clear n)
    (hx : Screened n x)
    (h : receiveRequest interface.toBusInterfaceV2 n config c x = .ok (c', x')) :
    c'.Clear n ∧ Screened n x' := by
  rcases receiveRequest_cases config h with ⟨hsame, hresponse, hx'⟩ |
    ⟨bytes, q, stats, -, hrecv, hq, -, -, -, rfl⟩
  · refine ⟨hc.congr hsame hresponse, ?_⟩
    rcases hx' with rfl | hrecv
    · exact hx
    · exact hx.recv_none hrecv
  · obtain ⟨q', hclear, rfl, hx'⟩ := hx.recv_some hrecv
    obtain rfl : q' = q := Except.ok.inj ((decodeRequest_wire hclear.valid).symm.trans hq)
    refine ⟨⟨fun q hq ↦ ?_, hc.response, hc.memory⟩, hx'⟩
    rw [← List.append_assoc] at hq
    rcases List.mem_append.mp hq with hq | hq
    · exact hc.requests q hq
    · rwa [List.mem_singleton.mp hq]

theorem Clear.advanceRequest (hc : c.Clear n) : c.advanceRequest.Clear n := by
  rcases advanceRequest_cases c with ⟨hsame, hresponse⟩ | ⟨item, hactive, -, -, heq⟩ |
    ⟨item, hactive, -, -, heq⟩
  · exact hc.congr hsame hresponse
  · rw [heq]
    refine ⟨?_, hc.response, hc.memory⟩
    have hrequests := hc.requests
    rwa [hactive] at hrequests
  · have hitem : item.request.Clear n := hc.requests _ (by rw [hactive]; exact List.mem_cons_self)
    rw [heq]
    refine ⟨fun q hq ↦ hc.requests q (List.mem_append_right _ hq), fun r hr ↦ ?_,
      windowFree_apply hc.memory hitem⟩
    obtain rfl := Option.some.inj hr
    rw [apply_hartId]
    exact hitem.hartId

theorem Clear.startRequest (hc : c.Clear n) (config : MemoryControllerConfig) :
    (startRequest config c).Clear n := by
  rw [MemoryController.startRequest]
  split
  · rename_i request rest hactive hresponse hqueue
    refine ⟨?_, hc.response, hc.memory⟩
    have hrequests := hc.requests
    rwa [hactive, hqueue] at hrequests
  · exact hc

theorem tick_clear {config : MemoryControllerConfig} (hc : c.Clear n) (hx : Screened n x)
    (h : tick interface.toBusInterfaceV2 n config c x = .ok (c', x')) :
    c'.Clear n ∧ Screened n x' := by
  obtain ⟨⟨c₁, x₁⟩, hsend, h⟩ := Except.bind_eq_ok_iff.mp h
  obtain ⟨⟨c₂, x₂⟩, hreceive, h⟩ := Except.bind_eq_ok_iff.mp h
  obtain ⟨rfl, rfl⟩ := Prod.mk.inj (Except.ok.inj h)
  have hcounted : Clear n { c with stats := { c.stats with
      queuedRequestCycles := c.stats.queuedRequestCycles + c.queue.length } } :=
    hc.congr ⟨rfl, rfl, rfl, rfl, rfl, rfl, rfl⟩ rfl
  obtain ⟨hc₁, hx₁⟩ := sendResponse_clear hcounted hx hsend
  obtain ⟨hc₂, hx₂⟩ := receiveRequest_clear hc₁ hx₁ hreceive
  exact ⟨hc₂.advanceRequest.startRequest config, hx₂⟩

/-- The controller sends nothing on the request channel. -/
theorem tick_guarded {config : MemoryControllerConfig} (error : String) :
    tick (interface.guarded error).toBusInterfaceV2 n config c x =
      tick interface.toBusInterfaceV2 n config c x := by
  have hsend : ∀ c : MemoryController,
    sendResponse (interface.guarded error).toBusInterfaceV2 n c x =
      sendResponse interface.toBusInterfaceV2 n c x := by
    intro c
    rw [sendResponse, sendResponse]
    cases c.response with
    | none => rfl
    | some r =>
      dsimp only
      rw [guarded_send_response]
      rfl
  rw [tick, tick, hsend]
  rfl

end MemoryController

/-! ## A hart -/

section Hart

variable {n i : ℕ} {x x' : Interconnect}

/-- What a hart sends to the controller. -/
theorem Interconnect.Screened.sendRequest (hx : Screened n x) {hart : UInt32}
    (hhart : hart.toNat < n) {q : MemoryRequest} (hq : q.Sendable hart) (havoids : q.Avoids)
    {bytes : Bytes} (hbytes : encodeRequest q = .ok bytes) {accepted : Bool}
    (hsend : interface.send x i n requestChannel bytes = .ok (accepted, x')) : Screened n x' := by
  rw [encodeRequest_of_valid hq.valid] at hbytes
  obtain rfl := Except.ok.inj hbytes
  exact hx.send (fun _ ↦ ⟨rfl, q, ⟨hq.valid, havoids, hq.hartId ▸ hhart⟩, rfl⟩) hsend

theorem MmioBusAdapter.tryTick_screened {a : MmioBusAdapter} {hart : UInt32}
    (ha : ∀ e ∈ a.requests, e.request.Sendable hart ∧ e.request.Avoids) (hhart : hart.toNat < n)
    (hi : i < n) (hx : Screened n x) : Screened n (tryTick interface hart i n a x).2.2 := by
  rw [tryTick]
  cases hsend : sendUnsent interface.toBusInterfaceV2 i n { a with clock := a.clock + 1 } x with
  | error reason => exact hx
  | ok result =>
    obtain ⟨a₁, x₁⟩ := result
    have hx₁ : Screened n x₁ := by
      rcases sendUnsent_cases hsend with ⟨-, rfl⟩ | ⟨e, bytes, accepted, he, hbytes, hsend, -⟩
      · exact hx
      · obtain ⟨hq, havoids⟩ := ha e (unsent_mem he)
        exact hx.sendRequest hhart hq havoids hbytes hsend
    dsimp only
    cases hreceive : receive interface.toBusInterfaceV2 hart i a₁ x₁ with
    | error reason =>
      dsimp only
      rw [receiveThrown]
      split
      · exact hx₁
      · split
        · exact hx₁.recvThrown_of_ne hi.ne _
        · next hrecv => exact hx₁.recv_of_ne hi.ne hrecv
    | ok result' =>
      rcases receive_cases hreceive with ⟨-, hx' | hrecv⟩ | ⟨bytes, r, e, -, hrecv, -⟩
      · dsimp only
        rwa [hx']
      · exact hx₁.recv_of_ne hi.ne hrecv
      · exact hx₁.recv_of_ne hi.ne hrecv

theorem Rv64AtomicCore.tick_screened {k : Rv64Hart} {c c' : Rv64AtomicCore} (h : Reachable k c)
    (hhart : k.hartId.toNat = i) (hi : i < n) (hx : Screened n x)
    (htick : c.tick interface k i n x = .ok (c', x')) : Screened n x' := by
  have hlt : k.hartId.toNat < n := hhart.symm ▸ hi
  have hx₁ : Screened n (c.tickMmio interface k i n x).2 := by
    have htry := MmioBusAdapter.tryTick_screened (a := c.mmio) (fun e he ↦
      ⟨h.view_ok.adapter e he, h.avoids e he⟩) hlt hi hx
    rw [tickMmio]
    split
    · next heq => rwa [heq] at htry
    · next heq => rwa [heq] at htry
  have hreached := h.turn (.adapter interface i n x)
  rw [tick] at htick
  generalize c.tickMmio interface k i n x = p at hx₁ hreached htick
  obtain ⟨c₁, x₁⟩ := p
  dsimp only at htick
  have hok : c₁.countTick.view.Ok k.hartId := hreached.view_ok
  -- In its own part of the tick a core sends in `memoryIssue` only, and receives in `memoryWait`
  -- only.
  cases hstate : c₁.state with
  | memoryIssue =>
    rw [tickCore_of_memoryIssue (c := c₁) hstate] at htick
    rcases issueMemoryRequest_cases htick with ⟨rfl, -⟩ |
      ⟨bytes, accepted, hwindow, -, hbytes, hsend, -⟩
    · exact hx₁
    · obtain ⟨q, hq, hrequest⟩ := request_sendable hok (.inl hstate)
      rw [hrequest] at hbytes hwindow
      exact hx₁.sendRequest hlt hq.sendable (avoids_of_touchesWindow hwindow) hbytes hsend
  | memoryWait =>
    rw [tickCore_of_memoryWait (c := c₁) hstate] at htick
    rcases receiveMemoryResponse_cases htick with ⟨-, rfl | hrecv⟩ | ⟨bytes, hrecv, -⟩
    · exact hx₁
    · exact hx₁.recv_of_ne hi.ne hrecv
    · exact hx₁.recv_of_ne hi.ne hrecv
  | fetchDecode =>
    rw [tickCore_of_fetchDecode (c := c₁) hstate] at htick
    exact (Prod.mk.inj (Except.ok.inj htick)).2 ▸ hx₁
  | executeWait =>
    rw [tickCore_of_executeWait (c := c₁) hstate] at htick
    exact (Prod.mk.inj (Except.ok.inj htick)).2 ▸ hx₁
  | halted | faulted =>
    rw [tickCore_of_finished (c := c₁) (by simp [finished, halted, faulted, hstate])] at htick
    exact (Prod.mk.inj (Except.ok.inj htick)).2 ▸ hx₁

end Hart

/-! ## Every reachable state -/

namespace Rv64ManycoreSystem

variable {m : Rv64ManycoreSystem} {s s' : Rv64SystemState} {i : ℕ}

/-- What holds between any two turns. -/
structure Clear (m : Rv64ManycoreSystem) (s : Rv64SystemState) : Prop where
  bus : Screened m.coreCount s.bus
  controller : s.memoryController.Clear m.coreCount
  cores : ∀ i < m.coreCount, Rv64AtomicCore.Reachable (m.hart i) (s.cores i)

theorem Built.clear (h : m.Built s) : m.Clear s where
  bus := .of_holds (h.holds False)
  controller := h.controller ▸ .init _
  cores := fun i hi ↦ .construct (h.cores i hi)

theorem Clear.tickController (h : m.Clear s) (htick : m.tickController s = .ok s') :
    m.Clear s' := by
  obtain ⟨⟨c', x'⟩, hcontroller, htick⟩ := Except.bind_eq_ok_iff.mp htick
  obtain rfl := Except.ok.inj htick
  obtain ⟨hc', hx'⟩ := MemoryController.tick_clear h.controller h.bus hcontroller
  exact ⟨hx', hc', h.cores⟩

theorem Clear.tickCore (h : m.Clear s) (hi : i < m.coreCount) (htick : m.tickCore s i = .ok s') :
    m.Clear s' := by
  obtain ⟨⟨c', x'⟩, hcore, htick⟩ := Except.bind_eq_ok_iff.mp htick
  obtain rfl := Except.ok.inj htick
  refine ⟨Rv64AtomicCore.tick_screened (h.cores i hi) (m.toNat_hartId hi) hi h.bus hcore,
    h.controller, fun j hj ↦ ?_⟩
  change Rv64AtomicCore.Reachable (m.hart j) (Function.update s.cores i c' j)
  by_cases hji : j = i
  · subst hji
    rw [Function.update_self]
    exact Rv64AtomicCore.reachable_tick (h.cores j hj) hcore
  · rw [Function.update_of_ne hji]
    exact h.cores j hj

theorem Clear.during (h : m.Clear s) (hi : i ≤ m.coreCount) (hduring : m.during s i = .ok s') :
    m.Clear s' := by
  induction i generalizing s' with
  | zero =>
    obtain ⟨s₀, hs₀, hduring⟩ := Except.bind_eq_ok_iff.mp hduring
    obtain rfl := Except.ok.inj hduring
    exact h.tickController hs₀
  | succ i ih =>
    rw [during_succ] at hduring
    obtain ⟨s₁, hs₁, hduring⟩ := Except.bind_eq_ok_iff.mp hduring
    exact (ih (Nat.le_of_succ_le hi) hs₁).tickCore hi hduring

theorem Clear.tick (h : m.Clear s) (htick : m.tick s = .ok s') : m.Clear s' := by
  obtain ⟨s₁, hturns, htick⟩ := Except.bind_eq_ok_iff.mp htick
  obtain ⟨x', hx', htick⟩ := Except.bind_eq_ok_iff.mp htick
  obtain rfl := Except.ok.inj htick
  have h₁ := h.during le_rfl hturns
  exact ⟨h₁.bus.applyNextTick hx', h₁.controller, h₁.cores⟩

theorem Clear.ticks (h : m.Clear s) (k : ℕ) (hticks : m.ticks k s = .ok s') : m.Clear s' := by
  induction k generalizing s' with
  | zero => exact Except.ok.inj hticks ▸ h
  | succ k ih =>
    obtain ⟨s₁, hs₁, hticks⟩ := Except.bind_eq_ok_iff.mp hticks
    exact (ih hs₁).tick hticks

/-- The control window is kept off the bus. In the tick that begins in `s`, a bus that answers every
request into the window with an error behaves as the bus itself does, so no such request is
offered. -/
structure KeepsWindow (m : Rv64ManycoreSystem) (s : Rv64SystemState) : Prop where
  controller : ∀ error, s.memoryController.tick (interface.guarded error).toBusInterfaceV2
      m.memoryPort (controllerConfig m.config.toManycoreConfig) s.bus =
    s.memoryController.tick interface.toBusInterfaceV2 m.memoryPort
      (controllerConfig m.config.toManycoreConfig) s.bus
  /-- The turn of hart `i` begins in `s₁`. -/
  hart : ∀ i < m.coreCount, ∀ s₁, m.during s i = .ok s₁ → ∀ error,
    (s₁.cores i).tick (interface.guarded error) (m.hart i) i m.memoryPort s₁.bus =
      (s₁.cores i).tick interface (m.hart i) i m.memoryPort s₁.bus
  memory : s.memoryController.memory.WindowFree
  /-- After the turn of its adapter a core `c` may be about to access the window. -/
  access : ∀ i < m.coreCount, ∀ s₁, m.during s i = .ok s₁ → ∀ c x,
    (s₁.cores i).tickMmio interface (m.hart i) i m.memoryPort s₁.bus = (c, x) →
    c.state = .memoryIssue → c.vectorIssueLeft = 0 → ¬c.request.Avoids →
    ∃ c', c.tickCore interface (m.hart i) i m.memoryPort x = .ok (c', x) ∧
      c.ServedLocally (m.hart i) c'
  /-- A command is written while its target reaches into the window. -/
  command : ∀ i < m.coreCount, ∀ value id,
    ¬(MmioCommand.request (m.hart i).hartId ⟨value, (s.cores i).mmio.target,
      (s.cores i).mmio.writeData, (s.cores i).mmio.size, id⟩).Avoids →
    ∃ a', (s.cores i).mmio.write (m.hart i).hartId (MmioBusAdapter.base + 0x18) 8 value = .ok a' ∧
      a'.requests = (s.cores i).mmio.requests ∧ a'.issued = (s.cores i).mmio.issued ∧
      a'.status &&& MmioBusAdapter.errorBit = MmioBusAdapter.errorBit

/-- No bus transaction ever touches the control window. -/
theorem ticks_keepsWindow {arch : ArchSem} {ord : HashOrder} {program : ProgramImage}
    {config : Rv64ManycoreConfig} {latency : InstructionLatencyConfig} {s₀ : Rv64SystemState}
    (h : construct arch ord program config latency = .ok (m, s₀)) {k : ℕ}
    (hk : m.ticks k s₀ = .ok s) : m.KeepsWindow s := by
  have hclear : m.Clear s := (construct_eq_ok h).2.clear.ticks k hk
  exact {
    controller := MemoryController.tick_guarded
    hart := fun i hi s₁ hs₁ error ↦
      Rv64AtomicCore.tick_guarded interface error ((hclear.during hi.le hs₁).cores i hi) _ _ _
    memory := hclear.controller.memory
    access := fun i hi s₁ hs₁ c x hc hstate hissue hinside ↦ by
      exact Rv64AtomicCore.exists_tickCore_of_not_avoids hstate hissue hinside
    command := fun i hi value id h ↦ MmioBusAdapter.write_command_of_not_avoids h }

/-! ## A look at the status -/

/-- Hart 0 reads the status register of its adapter, and hart 1 stores to address 0. -/
def statusProgram : ProgramImage :=
  .fromWords [0xf1402573, 0x00051663, 0x10000297, 0x0182b303, 0x00003023, 0x00000073]

/-- The request of hart 1 is on its way when hart 0 is about to access the window. -/
theorem ticks_keepsWindow_small : ∃ m s₀ s,
    construct Rv64AtomicCore.decodingArch .insertion statusProgram
      { coreCount := 2, sharedBus := true } {} = .ok (m, s₀) ∧
    m.ticks 8 s₀ = .ok s ∧ s.bus.messages = 1 ∧ (s.cores 0).state = .memoryIssue ∧
    Rv64AtomicCore.touchesWindow (s.cores 0).request = true ∧ m.KeepsWindow s := by
  have hends : (firstTicks Rv64AtomicCore.decodingArch .insertion statusProgram
      { coreCount := 2, sharedBus := true } {} 8).map (fun r ↦
        (r.2.2.bus.messages, (r.2.2.cores 0).state,
          Rv64AtomicCore.touchesWindow (r.2.2.cores 0).request)) =
      .ok (1, .memoryIssue, true) := rfl
  obtain ⟨m, s₀, s, -, h, hs, hend⟩ := exists_of_firstTicks hends
  obtain ⟨hmessages, hrest⟩ := Prod.mk.inj hend
  obtain ⟨hstate, hwindow⟩ := Prod.mk.inj hrest
  exact ⟨m, s₀, s, h, hs, hmessages, hstate, hwindow, ticks_keepsWindow h hs⟩

end Rv64ManycoreSystem

end Manycore
