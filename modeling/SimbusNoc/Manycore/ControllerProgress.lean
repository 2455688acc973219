import SimbusNoc.Library.Variant
import SimbusNoc.Manycore.BusLoad
import SimbusNoc.Manycore.ControllerTurn

/-!
# The progress of the controller

In its turn the controller moves a request or a response on, which lowers the work that is left. Or
it rests: the bus does not take its response, or there is nothing to do.

The work of a request is its service and what its response will cost on the bus, and one for each
of the places that it passes: the queue, the service, the response held back. Every phase of a tick
moves at most one message, so each has a lemma that says that the sum of the controller's work and
the bus's load has fallen, or that nothing has moved. `tick_advance` composes them, and the two
cases of `Rests` are what remains when none of the four has moved anything.
-/

namespace Manycore

open Simbus Variant Interconnect

namespace MemoryController

variable {n cost : ℕ} {config : MemoryControllerConfig} {c c' : MemoryController}
  {x x' : Interconnect}

/-- What a request on the bus still costs. -/
def requestCost (config : MemoryControllerConfig) (cycles : ℕ) : ℕ :=
  config.serviceLatency + cycles + 5

/-- The work of the controller until it has nothing left. -/
def work (config : MemoryControllerConfig) (cycles : ℕ) (c : MemoryController) : ℕ :=
  c.queue.length * (config.serviceLatency + cycles + 4) +
    (c.active.elim 0 fun item ↦ item.cyclesLeft + cycles + 3) +
    if c.response.isSome then cycles + 2 else 0

/-- The two have the same requests and responses. -/
structure Unmoved (c c' : MemoryController) : Prop where
  queue : c'.queue = c.queue
  active : c'.active = c.active
  response : c'.response = c.response

theorem Unmoved.refl (c : MemoryController) : Unmoved c c := ⟨rfl, rfl, rfl⟩

theorem sendResponse_advance (hx : Measured n x) (hok : c.Ok n)
    (h : c.sendResponse interface.toBusInterfaceV2 n x = .ok (c', x')) :
    Measured n x' ∧ x'.cycles = x.cycles ∧
      Advance ((∀ r, c.response = some r → Refuses n r.hartId.toNat responseChannel x) ∧
          Alike x x' ∧ Unmoved c c')
        0 (c.work config x.cycles + x.load n cost) 0
        (c'.work config x.cycles + x'.load n cost) := by
  rw [sendResponse] at h
  cases hr : c.response with
  | none =>
    rw [hr] at h
    obtain ⟨rfl, rfl⟩ := Prod.mk.inj (Except.ok.inj h)
    exact ⟨hx, rfl, .rests rfl rfl ⟨by simp, hx.alike_refl, .refl c⟩⟩
  | some r =>
    rw [hr] at h
    have hn : r.hartId.toNat < n := (hok.short r hr).2
    obtain ⟨can, hcan, h⟩ := Except.bind_eq_ok_iff.mp h
    cases can with
    | false =>
      obtain ⟨rfl, rfl⟩ := Prod.mk.inj (Except.ok.inj h)
      exact ⟨hx, rfl, .rests rfl rfl ⟨fun _ _ ↦ hx.refuses_of_canSend hcan _ _, hx.alike_refl,
        ⟨rfl, rfl, rfl⟩⟩⟩
    | true =>
      obtain ⟨⟨accepted, x₁⟩, hsend, h⟩ := Except.bind_eq_ok_iff.mp h
      cases accepted with
      | false =>
        obtain ⟨rfl, rfl⟩ := Prod.mk.inj (Except.ok.inj h)
        obtain ⟨hx', halike, hrefuses⟩ := hx.refuse hsend
        refine ⟨hx', halike.cycles_eq, .rests rfl ?_ ⟨?_, halike, ⟨rfl, rfl, rfl⟩⟩⟩
        · rw [halike.load_eq]
          rfl
        · intro r' hr'
          obtain rfl := Option.some.inj hr'
          exact hrefuses
      | true =>
        obtain ⟨rfl, rfl⟩ := Prod.mk.inj (Except.ok.inj h)
        -- A response on the bus costs less than one that is held back.
        obtain ⟨hx', hcycles, hload⟩ := @Measured.sendResponse n cost n _ x x₁ _ hx hn hsend
        refine ⟨hx', hcycles, .works rfl ?_⟩
        rw [hload, work, work, hr]
        simp only [Option.isSome_some, Option.isSome_none, Bool.false_eq_true, if_true, if_false]
        omega

theorem receiveRequest_advance (hx : Measured n x) (hcost : cost = requestCost config x.cycles)
    (h : c.receiveRequest interface.toBusInterfaceV2 n config x = .ok (c', x')) :
    Measured n x' ∧ x'.cycles = x.cycles ∧
      Advance ((config.requestQueueCapacity ≤ c.queue.length ∨ Vacant n requestChannel x) ∧
          Alike x x' ∧ Unmoved c c')
        0 (c.work config x.cycles + x.load n cost) 0
        (c'.work config x.cycles + x'.load n cost) := by
  rw [receiveRequest] at h
  by_cases hfull : config.requestQueueCapacity ≤ c.queue.length
  · rw [if_pos hfull] at h
    obtain ⟨ready, -, h⟩ := Except.bind_eq_ok_iff.mp h
    cases ready with
    | false =>
      obtain ⟨rfl, rfl⟩ := Prod.mk.inj (Except.ok.inj h)
      exact ⟨hx, rfl, .rests rfl rfl ⟨.inl hfull, hx.alike_refl, .refl c⟩⟩
    | true =>
      obtain ⟨rfl, rfl⟩ := Prod.mk.inj (Except.ok.inj h)
      exact ⟨hx, rfl, .rests rfl rfl ⟨.inl hfull, hx.alike_refl, ⟨rfl, rfl, rfl⟩⟩⟩
  · rw [if_neg hfull] at h
    obtain ⟨ready, hready, h⟩ := Except.bind_eq_ok_iff.mp h
    cases ready with
    | false =>
      obtain ⟨rfl, rfl⟩ := Prod.mk.inj (Except.ok.inj h)
      exact ⟨hx, rfl, .rests rfl rfl ⟨.inr (hx.vacant_of_canRecv hready), hx.alike_refl, .refl c⟩⟩
    | true =>
      obtain ⟨⟨data, x₁⟩, hrecv, h⟩ := Except.bind_eq_ok_iff.mp h
      cases data with
      | none =>
        obtain ⟨rfl, rfl⟩ := Prod.mk.inj (Except.ok.inj h)
        obtain ⟨hvacant, rfl⟩ := hx.recv_none hrecv
        exact ⟨hx, rfl, .rests rfl rfl ⟨.inr hvacant, hx.alike_refl, .refl c⟩⟩
      | some bytes =>
        obtain ⟨request, -, h⟩ := Except.bind_eq_ok_iff.mp h
        obtain ⟨rfl, rfl⟩ := Prod.mk.inj (Except.ok.inj h)
        obtain ⟨hx', hcycles, hload⟩ := @Measured.takeRequest n cost x x₁ bytes hx hrecv
        refine ⟨hx', hcycles, .works rfl ?_⟩
        rw [requestCost] at hcost
        rw [← hload, work, work, List.length_append, List.length_singleton, Nat.add_mul,
          Nat.one_mul]
        dsimp only
        omega

theorem advanceRequest_advance (config : MemoryControllerConfig) (cycles load : ℕ)
    (c : MemoryController) :
    Advance ((c.response = none → c.active = none) ∧ Unmoved c c.advanceRequest)
      0 (c.work config cycles + load) 0 (c.advanceRequest.work config cycles + load) := by
  rw [advanceRequest]
  split
  · next item hactive hresponse =>
    refine .works rfl (Nat.add_lt_add_right ?_ load)
    dsimp only
    split
    · rw [work, work, hactive, hresponse]
      simp only [Option.elim_some]
      omega
    · rw [work, work, hactive, hresponse]
      simp only [Option.elim_some, Option.elim_none, Option.isSome_some, Option.isSome_none,
        Bool.false_eq_true, if_true, if_false]
      omega
  · next hidle =>
    refine .rests rfl rfl ⟨fun hresponse ↦ ?_, .refl c⟩
    by_contra hactive
    obtain ⟨item, hitem⟩ := Option.ne_none_iff_exists'.mp hactive
    exact hidle item hitem hresponse

theorem startRequest_advance (cycles load : ℕ) (c : MemoryController) :
    Advance ((c.active = none → c.response = none → c.queue = []) ∧
    Unmoved c (c.startRequest config))
      0 (c.work config cycles + load) 0 ((c.startRequest config).work config cycles + load) := by
  rw [startRequest]
  split
  · next request rest hactive hresponse hqueue =>
    refine .works rfl (Nat.add_lt_add_right ?_ load)
    rw [work, work, hactive, hresponse, hqueue, List.length_cons, Nat.add_mul, Nat.one_mul]
    simp only [Option.elim_some, Option.elim_none]
    omega
  · next hidle =>
    refine .rests rfl rfl ⟨fun hactive hresponse ↦ ?_, .refl c⟩
    cases hqueue : c.queue with
    | nil => rfl
    | cons request rest => exact absurd hqueue (hidle request rest hactive hresponse)

/-- The controller has no way to go on. -/
inductive Rests (n : ℕ) (x : Interconnect) (c : MemoryController) : Prop
  | blocked {r : MemoryResponse} (hresponse : c.response = some r)
      (hrefuses : Refuses n r.hartId.toNat responseChannel x)
  | idle (hidle : c.idle = true) (hvacant : Vacant n requestChannel x)

theorem tick_advance (hx : Measured n x) (hok : c.Ok n)
    (hcost : cost = requestCost config x.cycles) (hcapacity : 0 < config.requestQueueCapacity)
    (h : c.tick interface.toBusInterfaceV2 n config x = .ok (c', x')) :
    Measured n x' ∧ x'.cycles = x.cycles ∧ Advance (c.Rests n x ∧ Alike x x')
      0 (c.work config x.cycles + x.load n cost) 0 (c'.work config x.cycles + x'.load n cost) := by
  rw [tick] at h
  obtain ⟨⟨c₁, x₁⟩, hsend, h⟩ := Except.bind_eq_ok_iff.mp h
  obtain ⟨⟨c₂, x₂⟩, hreceive, h⟩ := Except.bind_eq_ok_iff.mp h
  obtain ⟨rfl, rfl⟩ := Prod.mk.inj (Except.ok.inj h)
  have hcounted : MemoryController.Ok n { c with stats := { c.stats with
      queuedRequestCycles := c.stats.queuedRequestCycles + c.queue.length } } :=
    hok.congr ⟨rfl, rfl, rfl, rfl, rfl, rfl, rfl⟩ hok.short
  obtain ⟨hx₁, hcycles₁, hadvance₁⟩ := @sendResponse_advance n cost config _ _ x x₁ hx
    hcounted hsend
  obtain ⟨hx₂, hcycles₂, hadvance₂⟩ := receiveRequest_advance hx₁ (hcycles₁.symm ▸ hcost)
    hreceive
  rw [hcycles₁] at hadvance₂
  refine ⟨hx₂, hcycles₂.trans hcycles₁, (hadvance₁.trans (hadvance₂.trans
    ((advanceRequest_advance config x.cycles _ c₂).trans
      (startRequest_advance x.cycles _ _)))).mono ?_⟩
  rintro ⟨⟨hsends, halike₁, hsame₁⟩, ⟨hreceives, halike₂, hsame₂⟩, ⟨hadvances, hsame₃⟩, hstarts, -⟩
  refine ⟨?_, halike₁.trans halike₂⟩
  cases hresponse : c.response with
  | some r => exact .blocked hresponse (hsends r hresponse)
  | none =>
    have hresponse₂ : c₂.response = none := (hsame₂.response.trans hsame₁.response).trans hresponse
    have hactive₂ : c₂.active = none := hadvances hresponse₂
    have hqueue₂ : c₂.queue = [] := hsame₃.queue.symm.trans
      (hstarts (hsame₃.active.trans hactive₂) (hsame₃.response.trans hresponse₂))
    have hactive : c.active = none := (hsame₂.active.trans hsame₁.active).symm.trans hactive₂
    have hqueue : c.queue = [] := (hsame₂.queue.trans hsame₁.queue).symm.trans hqueue₂
    refine .idle (by simp [MemoryController.idle, hqueue, hactive, hresponse]) ?_
    refine halike₁.vacant (hreceives.resolve_left ?_)
    rw [show c₁.queue = [] from hsame₁.queue.trans hqueue, List.length_nil]
    omega

end MemoryController

end Manycore
