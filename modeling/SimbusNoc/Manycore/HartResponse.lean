import SimbusNoc.Manycore.HartWork
import SimbusNoc.Manycore.Service

/-!
# What a core does with a response

A core that waits takes any response from its port. It keeps the invariant of its view or faults,
and when the response answers its request, it never faults for the response being another one.

`takeResponse` checks the response against the request and throws for each difference. `Refused`
says of a failed attempt that, if the response does answer the request, then none of these was the
reason. A response to a vector access goes on to the next request or ends the access, and a
response to a scalar one fills a register and commits. The write to the host is between the two: it
may stop the core before the instruction commits.
-/

namespace Manycore

open Simbus Rv64archsem Throwing

namespace HartView

variable {hart : UInt32} {v : HartView}

theorem Ok.answer (h : v.Ok hart) (hstate : v.state = .memoryWait)
    (hinactive : v.vectorActive = false) {answered : List (MemoryRequest × MemoryResponse)}
    {state : Rv64CoreState} (hnew : state = .fetchDecode ∨ state = .halted) :
    Ok hart { v with answered := answered, request := none, state := state } where
  adapter := h.adapter
  staged := fun hissue ↦ by
    rcases hnew with rfl | rfl <;> rcases hissue with hissue | hissue <;> cases hissue
  inactive := fun _ ↦ hinactive
  loads := h.loads
  stores := h.stores
  prepared := fun _ ↦ by
    have hprepared := h.prepared (by rw [hstate]; decide)
    rw [hstate] at hprepared
    rcases hnew with rfl | rfl <;> exact hprepared

theorem Ok.record (h : v.Ok hart) (answered : List (MemoryRequest × MemoryResponse)) :
    Ok hart { v with answered := answered } := by
  refine { h with staged := fun hstate ↦ ?_ }
  obtain ⟨q, hq⟩ := h.staged hstate
  exact ⟨q, hq.request, hq.sendable, hq.scalar, hq.vector⟩

theorem Ok.stageable (h : v.Ok hart) (hstate : v.state = .memoryWait)
    (hactive : v.vectorActive = true) {answered : List (MemoryRequest × MemoryResponse)}
    {activeLoad : Option MemLoadDescriptor} :
    Stageable hart { v with answered := answered, activeLoad := activeLoad, request := none } where
  adapter := h.adapter
  active := hactive
  loads := h.loads
  stores := h.stores
  prepared := by
    have hprepared := h.prepared (by rw [hstate]; decide)
    rw [hstate] at hprepared
    exact hprepared

end HartView

namespace Rv64AtomicCore

variable {k : Rv64Hart} {c c' : Rv64AtomicCore}

/-- An attempt to take a response has failed. When the response answers the request, it was not for
being unexpected. -/
def Refused (c : Rv64AtomicCore) (response : MemoryResponse) (e : String × Rv64AtomicCore) : Prop :=
  e.2.mmio = c.mmio ∧
    ((∃ q, c.memoryRequest = some q ∧ Answers q response) → e.1 ∉ unexpectedReasons)

theorem Amiss.refused {e : String × Rv64AtomicCore} (h : Amiss c e) (response : MemoryResponse) :
    Refused c response e :=
  ⟨h.1, fun _ ↦ h.2⟩

variable {response : MemoryResponse}

/-- A check that every answer passes. -/
theorem refused_require_bind {α : Type} {condition : Bool} {message : String}
    {f : Unit → Except (String × Rv64AtomicCore) α} {P : α → Prop}
    (hcheck : (∃ q, c.memoryRequest = some q ∧ Answers q response) → condition = true)
    (hf : condition = true → Ensures P (Refused c response) (f ())) :
    Ensures P (Refused c response) (onThrow c (require condition message) >>= f) := by
  cases hcondition : condition with
  | true => exact hf hcondition
  | false => exact ⟨rfl, fun hanswers ↦ absurd (hcheck hanswers) (by simp [hcondition])⟩

/-! ## Vector loads and scalar loads -/

theorem takeVectorData_spec (hok : c.view.Ok k.hartId) (hstate : c.state = .memoryWait)
    (hactive : c.vectorMemoryActive = true) (hload : c.vectorMemoryIsLoad = true) :
    Ensures (fun c' ↦ c'.view = { c.view with activeLoad := none }) (Refused c response)
      (c.takeVectorData response.data) := by
  obtain ⟨q, hq⟩ := hok.staged (.inr hstate)
  obtain ⟨hop, d, hd, hsize⟩ := hq.vector hactive hload
  have hd' : c.activeVectorLoad = some d := hd
  rw [takeVectorData, hd']
  refine refused_require_bind (fun hanswers ↦ ?_) fun _ ↦ ?_
  · obtain ⟨q', hq', hanswers⟩ := hanswers
    obtain rfl : q' = q := Option.some.inj (hq'.symm.trans hq.request)
    rw [hanswers.length_of_read hq.sendable.valid hop, hsize, beq_self_eq_true]
  · cases hroom : decide (d.regOffset.toNat + response.data.length ≤
        c.vectorLoadBuffer.length * 8) with
    | false => exact (amiss (by decide) rfl).refused response
    | true => rfl

theorem takeScalarData_spec (hok : c.view.Ok k.hartId) (hstate : c.state = .memoryWait)
    (hinactive : c.vectorMemoryActive = false) {q : MemoryRequest}
    (hrequest : c.memoryRequest = some q) (hop : q.op = MemoryOp.read) :
    Ensures (fun c' ↦ c'.view = c.view) (Refused c response)
    (c.takeScalarData q response.data) := by
  obtain ⟨q', hq⟩ := hok.staged (.inr hstate)
  obtain rfl : q' = q := Option.some.inj (hq.request.symm.trans hrequest)
  refine refused_require_bind (fun hanswers ↦ ?_) fun _ ↦ view_writeReg c _ _
  obtain ⟨q, hq', hanswers⟩ := hanswers
  obtain rfl : q = q' := Option.some.inj (hq'.symm.trans hrequest)
  rw [hanswers.length_of_read hq.sendable.valid hop]
  have hle := hq.scalar hinactive
  simpa using hle

/-! ## The rest of an access -/

/-- After a response to a vector access the next request is prepared, or the access is done. -/
theorem finishVectorMemoryResponse_spec (hok : c.view.Ok k.hartId) (hstate : c.state = .memoryWait)
    (hactive : c.vectorMemoryActive = true) :
    Ensures (fun c' ↦ c'.view.Ok k.hartId ∧ c.view.Keeps c'.view ∧
        c'.state ≠ .memoryWait ∧ c'.state ≠ .faulted)
      (Refused c response) (finishVectorMemoryResponse k c response) := by
  -- what follows the data of a load
  have hrest : ∀ c₁ : Rv64AtomicCore,
      (∃ activeLoad, c₁.view = { c.view with activeLoad := activeLoad }) →
      Ensures (fun c' ↦ c'.view.Ok k.hartId ∧ c.view.Keeps c'.view ∧
          c'.state ≠ .memoryWait ∧ c'.state ≠ .faulted) (Refused c response)
        (let c := { c₁ with memoryRequest := none }
        if c.moreVectorRequests then stageNextVectorRequest k c
        else do
          let c ← if c.vectorMemoryIsLoad then
              onThrow c (c.writeVectorGroup c.vectorMemoryRegister c.vectorLoadBuffer)
            else .ok c
          return { c with vectorLoadBuffer := [], vectorMemoryActive := false }.commit) := by
    rintro c₁ ⟨activeLoad, hview₁⟩
    set c₂ : Rv64AtomicCore := { c₁ with memoryRequest := none }
    have hview₂ : c₂.view = { c.view with activeLoad := activeLoad, request := none } := by
      change { c₁.view with request := none } = _
      rw [hview₁]
    have hstageable : c₂.view.Stageable k.hartId := hview₂ ▸ hok.stageable hstate hactive
    have hkeeps : c.view.Keeps c₂.view := by
      rw [hview₂]
      exact ⟨rfl, rfl, rfl, rfl⟩
    refine Ensures.ite (fun _ ↦ ?_) fun _ ↦ ?_
    · refine (stageNextVectorRequest_spec hstageable).mono (fun c' hc' ↦ ?_) fun e he ↦ ?_
      · obtain ⟨hok', hissue, hkeeps'⟩ := hc'
        refine ⟨hok', hkeeps.trans hkeeps', ?_⟩
        rw [hissue]
        decide
      · exact ⟨he.1.trans hkeeps.mmio, fun _ ↦ he.2⟩
    · have hdone : ∀ c₃ : Rv64AtomicCore, c₃.view = c₂.view →
          Ensures (fun c' ↦ c'.view.Ok k.hartId ∧ c.view.Keeps c'.view ∧
              c'.state ≠ .memoryWait ∧ c'.state ≠ .faulted) (Refused c response)
            (pure { c₃ with vectorLoadBuffer := [], vectorMemoryActive := false }.commit) := by
        intro c₃ hview₃
        have hview₄ : { c₃ with vectorLoadBuffer := [], vectorMemoryActive := false }.commit.view =
            { c₂.view with vectorActive := false, state := .fetchDecode } := by
          rw [← hview₃]
          rfl
        refine ⟨?_, ?_, by simp [commit]⟩
        · rw [hview₄]
          exact hstageable.done
        · rw [hview₄]
          exact ⟨hkeeps.mmio, hkeeps.transactions, hkeeps.sent, hkeeps.answered⟩
      refine Ensures.ite (fun _ ↦ ?_) fun _ ↦ hdone c₂ rfl
      refine Ensures.bind (P := fun c₃ : Rv64AtomicCore ↦ c₃.view = c₂.view) ?_ hdone
      cases hwrite : c₂.writeVectorGroup c₂.vectorMemoryRegister c₂.vectorLoadBuffer with
      | ok c₃ => exact view_writeVectorGroup hwrite
      | error reason =>
        exact ⟨hkeeps.mmio, fun _ ↦ (expected_writeVectorGroup c₂ _ _).of_eq_error hwrite⟩
  rw [finishVectorMemoryResponse]
  refine Ensures.ite (fun hload ↦ ?_) fun _ ↦ hrest c ⟨_, rfl⟩
  refine Ensures.bind (P := fun c₁ : Rv64AtomicCore ↦ ∃ activeLoad,
    c₁.view = { c.view with activeLoad := activeLoad }) ?_ hrest
  exact (takeVectorData_spec hok hstate hactive hload).mono (fun c₁ h₁ ↦ ⟨none, h₁⟩) fun _ ↦ id

theorem handleTohostWrite_spec (c : Rv64AtomicCore) (q : MemoryRequest) :
    Ensures (fun result ↦ ∀ c', result = some c' → c'.view = { c.view with state := .halted })
      (Amiss c) (handleTohostWrite k c q) := by
  have hnone : ∀ c', (none : Option Rv64AtomicCore) = some c' →
      c'.view = { c.view with state := .halted } := fun _ h ↦ nomatch h
  have hsome : ∀ code reason, ∀ c', some (c.commit.stop code reason) = some c' →
      c'.view = { c.view with state := .halted } := fun _ _ c' h ↦ Option.some.inj h ▸ rfl
  rw [handleTohostWrite]
  refine Ensures.ite (fun _ ↦ hnone) fun _ ↦ ?_
  cases hbytes : !(q.data.isEmpty || decide (8 < q.data.length)) with
  | false => exact amiss (by decide) rfl
  | true =>
    refine Ensures.ite (fun _ ↦ hnone) fun _ ↦ ?_
    exact Ensures.ite (fun _ ↦ hsome _ _) fun _ ↦ hsome _ _

/-- What a core has taken as the response to its request. -/
structure Takes (k : Rv64Hart) (c : Rv64AtomicCore) (response : MemoryResponse)
    (c' : Rv64AtomicCore) : Prop where
  mmio : c'.mmio = c.mmio
  transactions : c'.view.transactions = c.view.transactions
  sent : c'.view.sent = c.view.sent
  answered : c'.view.answered = c.view.answered ++ [(c.request, response)]
  state : c'.state ≠ .memoryWait ∧ c'.state ≠ .faulted
  ok : c'.view.Ok k.hartId

/-- The end of `takeResponse`: the core has stopped, or it commits. -/
private def commitUnlessStopped (c : Rv64AtomicCore) :
    Option Rv64AtomicCore → Except (String × Rv64AtomicCore) Rv64AtomicCore
  | some c' => return c'
  | none => return c.commit

/-- A core that waits takes a response or faults. -/
theorem takeResponse_spec (hok : c.view.Ok k.hartId) (hstate : c.state = .memoryWait)
    {bytes : Bytes} (hdecode : decodeResponse bytes = .ok response) :
    Ensures (Takes k c response) (Refused c response) (takeResponse k c bytes) := by
  obtain ⟨q, hq⟩ := hok.staged (.inr hstate)
  have hrequest : c.memoryRequest = some q := hq.request
  have hanswers_iff : (∃ q', c.memoryRequest = some q' ∧ Answers q' response) →
      Answers q response := by
    rintro ⟨q', hq', hanswers⟩
    obtain rfl : q' = q := Option.some.inj (hq'.symm.trans hrequest)
    exact hanswers
  have hbind : ∀ rest : MemoryResponse → Except (String × Rv64AtomicCore) Rv64AtomicCore,
      (c.onThrow (.ok response) >>= rest) = rest response := fun _ ↦ rfl
  rw [takeResponse, hdecode, hbind, hrequest]
  refine refused_require_bind (fun hanswers ↦ ?_) fun _ ↦ ?_
  · have hanswers := hanswers_iff hanswers
    rw [hanswers.hartId, hanswers.transactionId, hq.sendable.hartId, beq_self_eq_true,
      beq_self_eq_true, Bool.and_self]
  refine refused_require_bind (fun hanswers ↦ ?_) fun _ ↦ ?_
  · rw [(hanswers_iff hanswers).status hq.sendable.valid, beq_self_eq_true]
  dsimp only
  set c₁ : Rv64AtomicCore := { c.recordLatency with
    trace := { c.trace with answered := c.trace.answered ++ [(q, response)] } } with hc₁
  have hview₁ : c₁.view = { c.view with answered := c.view.answered ++ [(q, response)] } := by
    rw [hc₁, recordLatency]
    split <;> rfl
  have hok₁ : c₁.view.Ok k.hartId := hview₁ ▸ hok.record _
  have hstate₁ : c₁.state = .memoryWait := (congrArg HartView.state hview₁).trans hstate
  have hmmio₁ : c₁.mmio = c.mmio := congrArg HartView.mmio hview₁
  have hrefused : ∀ e, Refused c₁ response e → Refused c response e := by
    rintro e ⟨hmmio, hreason⟩
    refine ⟨hmmio.trans hmmio₁, fun hanswers ↦ hreason ?_⟩
    rwa [show c₁.memoryRequest = c.memoryRequest from congrArg HartView.request hview₁]
  have htakes : ∀ c', c₁.view.Keeps c'.view → c'.state ≠ .memoryWait ∧ c'.state ≠ .faulted →
      c'.view.Ok k.hartId → Takes k c response c' := by
    rintro c' ⟨hmmio, htransactions, hsent, hanswered⟩ hstate' hok'
    rw [hview₁] at htransactions hsent hanswered
    refine ⟨hmmio.trans hmmio₁, htransactions, hsent, ?_, hstate', hok'⟩
    rw [hanswered, request, hrequest, Option.getD_some]
  refine Ensures.ite (fun hactive ↦ ?_) fun hinactive ↦ ?_
  · have hspec := @finishVectorMemoryResponse_spec k _ response hok₁ hstate₁ hactive
    refine hspec.mono ?_ hrefused
    rintro c' ⟨hok', hkeeps, hstate'⟩
    exact htakes c' hkeeps hstate' hok'
  · have hinactive₁ : c₁.view.vectorActive = false := Bool.eq_false_of_not_eq_true hinactive
    have hrest : ∀ c₂ : Rv64AtomicCore, c₂.view = c₁.view →
        Ensures (Takes k c response) (Refused c response)
          (handleTohostWrite k { c₂ with memoryRequest := none } q >>=
            commitUnlessStopped { c₂ with memoryRequest := none }) := by
      intro c₂ hview₂
      -- the core afterwards, in either state
      have hafter : ∀ c' state, state = Rv64CoreState.fetchDecode ∨ state = .halted →
          c'.view = { c₂.view with request := none, state := state } → Takes k c response c' := by
        intro c' state hnew hview'
        rw [hview₂] at hview'
        have hstate' : c'.state = state := congrArg HartView.state hview'
        refine htakes c' ?_ ?_ ?_
        · rw [hview']
          exact ⟨rfl, rfl, rfl, rfl⟩
        · rw [hstate']
          rcases hnew with rfl | rfl <;> decide
        · rw [hview']
          exact hok₁.answer hstate₁ hinactive₁ hnew
      refine Ensures.bind ((handleTohostWrite_spec { c₂ with memoryRequest := none } q).mono
        (fun _ ↦ id) fun e he ↦ ?_) fun result hresult ↦ ?_
      · exact ⟨he.1.trans ((congrArg HartView.mmio hview₂).trans hmmio₁), fun _ ↦ he.2⟩
      · cases result with
        | some c' => exact hafter c' .halted (.inr rfl) (hresult c' rfl)
        | none => exact hafter _ .fetchDecode (.inl rfl) rfl
    refine Ensures.ite (fun hop ↦ ?_) fun _ ↦ hrest c₁ rfl
    refine Ensures.bind ?_ hrest
    exact (takeScalarData_spec hok₁ hstate₁ hinactive₁
      ((congrArg HartView.request hview₁).trans hrequest) hop).mono (fun _ ↦ id) hrefused

end Rv64AtomicCore

end Manycore
