import SimbusNoc.Manycore.HartTurn
import SimbusNoc.Manycore.Service

/-!
# The turn of the controller

On a bus whose calls return, the tick of the memory controller returns as well: what it receives
decodes, and its responses go to harts that exist.

The ring takes a message only up to a certain size, so the sizes of the messages are followed too.
A request of a hart asks for at most `B` bytes, and no response is longer than its request asks
for. `Small` bounds what the controller has in its hands, and `Small.turn` keeps it for a whole
tick. Since requests are served in the order in which they have come, this is a property of lists
of requests and does not look into the phases.
-/

namespace Manycore

open Simbus Sequential

namespace MemoryController

section Laws

variable {σ : Type} {bus : BusInterfaceV2 σ} {n : ℕ} {Fits : ℕ → Prop} {Fifo : Prop}
  {Holds : List Letter → σ → Prop} (hbus : Reliable bus (Allowed n) (fun _ ↦ True) Fifo Holds)
  (hreturns : Returns bus n Fits fun s ↦ ∃ letters, Holds letters s)
  {c c' : MemoryController} {t : Traffic} {s s' : σ} (config : MemoryControllerConfig)

include hreturns in
theorem exists_sendResponse_eq_ok (hok : c.Ok n) (hcarried : Carried Holds n t s)
    (hfits : ∀ r ∈ c.response, Fits (encodeResponse r).length) :
    ∃ result, sendResponse bus n c s = .ok result := by
  rw [sendResponse]
  cases hr : c.response with
  | none => exact ⟨_, rfl⟩
  | some r =>
    obtain ⟨-, hn⟩ := hok.short r hr
    obtain ⟨room, hroom⟩ := hreturns.canSend (c := responseChannel) hcarried.good le_rfl (by decide)
    obtain ⟨accepted, s', hsend⟩ :=
      hreturns.send (c := responseChannel) hcarried.good le_rfl hn.le (by decide) (hfits r hr)
    dsimp only
    rw [hroom]
    dsimp only [bind, Except.bind]
    cases room with
    | false => exact ⟨_, rfl⟩
    | true =>
      rw [if_neg (by decide), hsend]
      cases accepted with
      | false => exact ⟨_, rfl⟩
      | true => exact ⟨_, rfl⟩

include hbus hreturns in
theorem exists_receiveRequest_eq_ok (hcarried : Carried Holds n t s) :
    ∃ result, receiveRequest bus n config c s = .ok result := by
  obtain ⟨ready, hready⟩ := hreturns.canRecv (c := requestChannel) hcarried.good le_rfl (by decide)
  obtain ⟨data, s', hrecv⟩ := hreturns.recv (c := requestChannel) hcarried.good le_rfl (by decide)
  rw [receiveRequest, hready]
  dsimp only [bind, Except.bind]
  by_cases hfull : config.requestQueueCapacity ≤ c.queue.length
  · rw [if_pos hfull]
    cases ready with
    | false => exact ⟨_, rfl⟩
    | true => exact ⟨_, rfl⟩
  · rw [if_neg hfull]
    cases ready with
    | false => exact ⟨_, rfl⟩
    | true =>
      rw [if_neg (by decide), hrecv]
      cases data with
      | none => exact ⟨_, rfl⟩
      | some bytes =>
        obtain ⟨before, q, after, -, rfl, hvalid, -, -, -⟩ :=
          hcarried.recvRequest hbus hrecv trivial
        dsimp only
        rw [decodeRequest_wire hvalid]
        exact ⟨_, rfl⟩

include hbus hreturns in
theorem exists_tick_eq_ok (hok : c.Ok n) (hcarried : Carried Holds n t s)
    (hfits : ∀ r ∈ c.response, Fits (encodeResponse r).length) :
    ∃ result, tick bus n config c s = .ok result := by
  have hcounted : MemoryController.Ok n { c with stats := { c.stats with
      queuedRequestCycles := c.stats.queuedRequestCycles + c.queue.length } } :=
    hok.congr ⟨rfl, rfl, rfl, rfl, rfl, rfl, rfl⟩ hok.short
  obtain ⟨⟨c₁, s₁⟩, hsend⟩ := exists_sendResponse_eq_ok hreturns hcounted hcarried hfits
  obtain ⟨t₁, hcarried₁, -, -⟩ :=
    sendResponse_spec hbus hcounted hcarried hsend trivial
  obtain ⟨result, hreceive⟩ :=
    exists_receiveRequest_eq_ok hbus hreturns config (c := c₁) hcarried₁
  rw [tick, hsend]
  dsimp only [bind, Except.bind]
  rw [hreceive]
  exact ⟨_, rfl⟩

end Laws

/-! ## The sizes of requests and responses -/

/-- All requests that are not served yet, and all responses on their way, have at most this size. -/
structure Small (size : ℕ) (c : MemoryController) (t : Traffic) : Prop where
  pending : ∀ q ∈ c.pending t, q.size.toNat ≤ size
  answers : ∀ r ∈ c.answers t, r.data.length ≤ size

theorem Small.init (size : ℕ) : Small size {} {} where
  pending := nofun
  answers := nofun

theorem apply_length_le (memory : SharedMemory) (q : MemoryRequest) :
    (apply memory q).1.data.length ≤ q.size.toNat := by
  rw [apply, serve]
  split_ifs
  · exact (length_read memory q.address q.size.toNat).le
  · exact Nat.zero_le _
  · exact Nat.zero_le _

theorem mem_history_snd {memory : SharedMemory} {l : List MemoryRequest} {r : MemoryResponse}
    (h : r ∈ (history apply memory l).map Prod.snd) :
    ∃ q ∈ l, ∃ memory', r = (apply memory' q).1 := by
  induction l generalizing memory with
  | nil => cases h
  | cons q l ih =>
    rw [history, List.map_cons] at h
    rcases List.mem_cons.mp h with rfl | h
    · exact ⟨q, List.mem_cons_self, memory, rfl⟩
    · obtain ⟨q', hq', hr⟩ := ih h
      exact ⟨q', List.mem_cons_of_mem q hq', hr⟩

variable {size : ℕ} {Fifo : Prop} {c c' : MemoryController} {t t' : Traffic}

theorem Small.serve (h : Small size c t) {done : List MemoryRequest}
    (hserved : Served Fifo c c' t t' done) : Small size c' t' where
  pending := fun q hq ↦
    h.pending q (hserved.pending.mem_iff.mpr (List.mem_append_right done hq))
  answers := by
    intro r hr
    rw [hserved.answers] at hr
    rcases List.mem_append.mp hr with hr | hr
    · exact h.answers r hr
    · obtain ⟨q, hq, memory, rfl⟩ := mem_history_snd hr
      have hpending := hserved.pending.mem_iff.mpr (List.mem_append_left _ hq)
      exact (apply_length_le memory q).trans (h.pending q hpending)

theorem Small.turn (h : Small 15 c t) {hart : UInt32} (hturn : t.Turn hart t') :
    Small 15 c t' where
  pending := by
    obtain ⟨sent, hrequests, hsent⟩ := hturn.requests
    intro q hq
    rw [MemoryController.pending, hrequests, ← List.append_assoc, ← List.append_assoc] at hq
    rcases List.mem_append.mp hq with hq | hq
    · exact h.pending q (by rwa [MemoryController.pending, ← List.append_assoc])
    · exact (hsent q hq).size_le
  answers := fun r hr ↦ h.answers r ((hturn.responses.append_right _).subset hr)

end MemoryController

end Manycore
