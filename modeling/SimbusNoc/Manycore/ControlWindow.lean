import SimbusNoc.Manycore.MmioCommands

/-!
# The control window

The registers of the adapters lie in a window of 256 addresses that no request on the bus reaches
into. Two tests see to that: `touchesWindow` stops the requests of a core, and `acceptable` those
of the commands. Addresses wrap, so neither test is a plain comparison.

`Avoids` says of each byte that a request covers that it lies outside. The tests compare the first
address and the size with the ends of the window. The size has 16 bits, so a request that begins
behind the window does not come round to it, and `MemoryRequest.avoids_iff` says `Avoids` in
comparisons of numbers.

A core keeps two things, for every image and every bus: its adapter holds no command that reaches
into the window, and an access of its own to the window is served by the adapter or faults. To say
of a run that nothing in the window was requested, the bus is replaced by one that answers such a
`send` with an error, `IBus.guarded`: that the two busses give the same tick means that no such
`send` was made.
-/

namespace Manycore

open Simbus Rv64archsem

/-! ## Requests outside the window -/

/-- The request covers no byte of the control window. -/
def MemoryRequest.Avoids (q : MemoryRequest) : Prop :=
  ∀ i < q.size.toNat, MmioBusAdapter.contains (q.address + UInt64.ofNat i) = false

instance MemoryRequest.decidableAvoids (q : MemoryRequest) : Decidable q.Avoids :=
  inferInstanceAs (Decidable (∀ i < q.size.toNat, _))

theorem contains_eq_true_iff {address : UInt64} :
    MmioBusAdapter.contains address = true ↔
      0x90000000 ≤ address.toNat ∧ address.toNat < 0x90000100 := by
  rw [MmioBusAdapter.contains, Bool.and_eq_true, decide_eq_true_eq, decide_eq_true_eq,
    UInt64.le_iff_toNat_le, UInt64.lt_iff_toNat_lt]
  rfl

theorem contains_eq_false_iff {address : UInt64} :
    MmioBusAdapter.contains address = false ↔
      address.toNat < 0x90000000 ∨ 0x90000100 ≤ address.toNat := by
  rw [← Bool.not_eq_true, contains_eq_true_iff]
  omega

theorem toNat_add_ofNat (address : UInt64) {i : ℕ} (hi : i < 2 ^ 64) :
    (address + UInt64.ofNat i).toNat = (address.toNat + i) % 2 ^ 64 := by
  rw [UInt64.toNat_add, UInt64.toNat_ofNat_of_lt' hi]

/-- A request is too short to wrap into the window from the end of the address space. -/
theorem MemoryRequest.avoids_iff {q : MemoryRequest} :
    q.Avoids ↔ q.size.toNat = 0 ∨ 0x90000100 ≤ q.address.toNat ∨
      q.address.toNat + q.size.toNat ≤ 0x90000000 := by
  have hsize : q.size.toNat < 2 ^ 16 := q.size.toNat_lt
  have haddress : q.address.toNat < 2 ^ 64 := q.address.toNat_lt
  constructor
  · intro havoids
    by_contra hinside
    -- the first byte of the window that the request reaches
    obtain ⟨i, hi, hlow, hhigh⟩ : ∃ i < q.size.toNat, 0x90000000 ≤ q.address.toNat + i ∧
        q.address.toNat + i < 0x90000100 := by
      rcases Nat.lt_or_ge q.address.toNat 0x90000000 with hbelow | habove
      · exact ⟨0x90000000 - q.address.toNat, by omega, by omega, by omega⟩
      · exact ⟨0, by omega, by omega, by omega⟩
    have hbyte := contains_eq_false_iff.mp (havoids i hi)
    rw [toNat_add_ofNat _ (by omega)] at hbyte
    omega
  · intro houtside i hi
    rw [contains_eq_false_iff, toNat_add_ofNat _ (by omega)]
    omega

namespace Rv64AtomicCore

/-- The test of a core finds the requests that reach into the window. -/
theorem touchesWindow_eq_true_iff {q : MemoryRequest} (hsize : q.size.toNat ≠ 0) :
    touchesWindow q = true ↔ ¬q.Avoids := by
  have hlt : q.size.toNat < 2 ^ 16 := q.size.toNat_lt
  have haddress : q.address.toNat < 2 ^ 64 := q.address.toNat_lt
  have hend : (MmioBusAdapter.base + MmioBusAdapter.span).toNat = 0x90000100 := rfl
  have hbase : MmioBusAdapter.base.toNat = 0x90000000 := rfl
  rw [touchesWindow, MemoryRequest.avoids_iff, Bool.and_eq_true, Bool.or_eq_true,
    decide_eq_true_eq, decide_eq_true_eq, decide_eq_true_eq, UInt64.lt_iff_toNat_lt,
    UInt64.lt_iff_toNat_lt, UInt64.le_iff_toNat_le, UInt64.toNat_sub,
    UInt64.toNat_ofNat_of_lt' (hlt.trans (by decide)), hend, hbase]
  omega

theorem avoids_of_touchesWindow {q : MemoryRequest} (h : touchesWindow q = false) : q.Avoids := by
  by_cases hsize : q.size.toNat = 0
  · exact MemoryRequest.avoids_iff.mpr (.inl hsize)
  · by_contra havoids
    rw [(touchesWindow_eq_true_iff hsize).mpr havoids] at h
    cases h

end Rv64AtomicCore

namespace MmioBusAdapter

variable {hart : UInt32} {a : MmioBusAdapter} {value : UInt64}

theorem avoids_of_acceptable (h : a.acceptable value = true) (id : UInt32) :
    (MmioCommand.request hart ⟨value, a.target, a.writeData, a.size, id⟩).Avoids := by
  obtain ⟨-, hsize, -, hwindow⟩ := acceptable_iff.mp h
  have hcast : (MmioCommand.request hart ⟨value, a.target, a.writeData, a.size, id⟩).size.toNat =
      a.size.toNat := by
    have hlt : a.size.toNat < 2 ^ 16 := by
      rcases hsize with h | h | h | h <;> rw [h] <;> decide
    exact UInt16.toNat_ofNat_of_lt' hlt
  rw [MemoryRequest.avoids_iff, hcast]
  exact .inr hwindow

theorem command_of_not_avoids {id : UInt32}
    (h : ¬(MmioCommand.request hart ⟨value, a.target, a.writeData, a.size, id⟩).Avoids) :
    command hart a value = a.reject ∨ command hart a value = a.startCommand.reject :=
  command_of_not_admissible fun hadmissible ↦
    h (avoids_of_acceptable (admissible_iff.mp hadmissible).2.1 id)

/-- A command that reaches into the window is turned down, with the error bit set. -/
theorem write_command_of_not_avoids {id : UInt32}
    (h : ¬(MmioCommand.request hart ⟨value, a.target, a.writeData, a.size, id⟩).Avoids) :
    ∃ a', a.write hart (base + 0x18) 8 value = .ok a' ∧ a'.requests = a.requests ∧
      a'.issued = a.issued ∧ a'.status &&& errorBit = errorBit := by
  refine ⟨_, write_command hart a value, ?_⟩
  split_ifs
  · exact ⟨rfl, rfl, and_errorBit_of_or _⟩
  · rcases command_of_not_avoids h with heq | heq <;> rw [heq]
    · exact ⟨rfl, rfl, and_errorBit_of_or _⟩
    · exact ⟨rfl, rfl, and_errorBit_of_or _⟩

end MmioBusAdapter

/-! ## What a core keeps -/

namespace Rv64AtomicCore

variable {k : Rv64Hart} {c c' : Rv64AtomicCore}

/-- In its own turn a core leaves the adapter as it is, or writes one of its registers. -/
theorem tickCore_mmio {σ : Type} {bus : IBus σ} {port memoryPort : BusPortT} {s s' : σ}
    (hok : c.view.Ok k.hartId) (h : c.tickCore bus k port memoryPort s = .ok (c', s')) :
    c'.mmio = c.mmio ∨
      ∃ address size value, c.mmio.write k.hartId address size value = .ok c'.mmio := by
  have hok₁ : c.countTick.view.Ok k.hartId := hok
  have hdoes : ∀ {c'}, Does k c.countTick c' ∨ Faults c.countTick c' → c'.mmio = c.mmio ∨
      ∃ address size value, c.mmio.write k.hartId address size value = .ok c'.mmio := by
    rintro c' (hdoes | ⟨reason, c₁, rfl, hmmio, -⟩)
    · exact hdoes.works.mmio
    · exact .inl hmmio
  rcases tickCore_cases h with rfl | ⟨hstate, rfl⟩ | ⟨hstate, rfl⟩ | ⟨hstate, hissue⟩ |
    ⟨hstate, hreceive⟩
  · exact .inl rfl
  · exact hdoes (fetchDecode_spec hok₁ hstate)
  · exact hdoes (advanceExecute_spec hok₁ hstate)
  · rcases issueMemoryRequest_cases hissue with ⟨-, hsame | ⟨-, -, rfl⟩⟩ |
      ⟨-, accepted, -, -, -, -, hview⟩
    · exact .inl (congrArg HartView.mmio hsame)
    · exact hdoes (recover_spec (accessWindow_spec hok₁ hstate))
    · refine .inl ((congrArg HartView.mmio hview).trans ?_)
      cases accepted with
      | false => rfl
      | true => rfl
  · rcases receiveMemoryResponse_cases hreceive with ⟨hsame, -⟩ | ⟨bytes, -, rfl⟩
    · exact .inl (congrArg HartView.mmio hsame)
    · refine .inl ?_
      cases hdecode : decodeResponse bytes with
      | error reason =>
        rw [takeResponse, hdecode]
        rfl
      | ok response =>
        have hspec := takeResponse_spec hok₁ hstate hdecode
        cases htake : takeResponse k c.countTick bytes with
        | ok c' => exact (hspec.of_eq_ok htake).mmio
        | error e => exact (hspec.of_eq_error htake).1

/-- The adapter of a core never holds a command that reaches into the window. -/
theorem Reachable.avoids (h : Reachable k c) : ∀ e ∈ c.mmio.requests, e.request.Avoids := by
  induction h with
  | construct h =>
    obtain ⟨u, -, h⟩ := Except.bind_eq_ok_iff.mp h
    obtain ⟨mmio, hmmio, h⟩ := Except.bind_eq_ok_iff.mp h
    obtain ⟨u', -, hmmio⟩ := Except.bind_eq_ok_iff.mp hmmio
    obtain rfl := Except.ok.inj hmmio
    obtain rfl := Except.ok.inj h
    exact nofun
  | @turn c c' h hturn ih =>
    cases hturn with
    | adapter bus port memoryPort s =>
      have hrequests := MmioBusAdapter.tryTick_requests bus k.hartId port memoryPort ih s
      rw [tickMmio]
      split
      · next mmio s₁ heq =>
        rw [heq] at hrequests
        exact hrequests
      · next reason mmio s₁ heq =>
        rw [heq] at hrequests
        exact hrequests
    | core bus port memoryPort s hcore =>
      rcases tickCore_mmio h.view_ok hcore with hsame | ⟨address, size, value, hwrite⟩
      · rwa [hsame]
      · exact MmioBusAdapter.write_requests ih
          (fun id hacceptable ↦ MmioBusAdapter.avoids_of_acceptable hacceptable id) hwrite

/-- A core that was about to access the window has accessed a register of its adapter, or has
faulted. -/
inductive ServedLocally (k : Rv64Hart) (c c' : Rv64AtomicCore) : Prop
  | read {value} : c.request.op = MemoryOp.read →
      c.mmio.read c.request.address c.request.size = .ok value → c'.mmio = c.mmio →
      c'.state = .fetchDecode → ServedLocally k c c'
  | write : c.request.op ≠ MemoryOp.read →
      c.mmio.write k.hartId c.request.address c.request.size
        (UInt64.ofNat (leValue c.request.data)) = .ok c'.mmio →
      c'.state = .fetchDecode → ServedLocally k c c'
  | fault : c'.mmio = c.mmio → c'.state = .faulted → ServedLocally k c c'

theorem accessWindow_servedLocally (k : Rv64Hart) (c : Rv64AtomicCore) :
    ServedLocally k c (recover (accessWindow k c)) := by
  have hfault : ∀ reason, ServedLocally k c (c.fault reason) := fun reason ↦ .fault rfl rfl
  rw [accessWindow]
  cases require (!c.vectorMemoryActive) "vector MMIO is unsupported" with
  | error reason => exact hfault reason
  | ok u =>
    by_cases hop : c.request.op = MemoryOp.read
    · cases hread : c.mmio.read c.request.address c.request.size with
      | error reason =>
        simp only [onThrow, bind, Except.bind, if_pos hop]
        exact hfault reason
      | ok value =>
        simp only [onThrow, bind, Except.bind, if_pos hop]
        exact .read hop hread (congrArg HartView.mmio (view_writeReg c c.loadRd value)) rfl
    · cases hwrite : c.mmio.write k.hartId c.request.address c.request.size
          (UInt64.ofNat (leValue c.request.data)) with
      | error reason =>
        simp only [onThrow, bind, Except.bind, if_neg hop, hwrite]
        exact hfault reason
      | ok mmio =>
        simp only [onThrow, bind, Except.bind, if_neg hop, hwrite]
        exact .write hop hwrite rfl

/-- An access to the window never reaches the bus. -/
theorem exists_tickCore_of_not_avoids {σ : Type} {bus : IBus σ} {port memoryPort : BusPortT} {s : σ}
    (hstate : c.state = .memoryIssue) (hissue : c.vectorIssueLeft = 0)
    (hinside : ¬c.request.Avoids) :
    ∃ c', c.tickCore bus k port memoryPort s = .ok (c', s) ∧ ServedLocally k c c' := by
  have hwindow : touchesWindow c.countTick.request = true := by
    by_contra hnot
    exact hinside (avoids_of_touchesWindow (Bool.not_eq_true _ ▸ hnot))
  refine ⟨recover (accessWindow k c.countTick), ?_, ?_⟩
  · rw [tickCore_of_memoryIssue hstate, issueMemoryRequest,
      if_neg (by rw [show c.countTick.vectorIssueLeft = 0 from hissue]; decide), if_pos hwindow]
    rfl
  · cases accessWindow_servedLocally k c.countTick with
    | read hop hread hmmio hfetch => exact .read hop hread hmmio hfetch
    | write hop hwrite hfetch => exact .write hop hwrite hfetch
    | fault hmmio hfaulted => exact .fault hmmio hfaulted

end Rv64AtomicCore

/-! ## A bus that guards the window -/

/-- The message is no request that stays outside the window. -/
def trespasses (bytes : Bytes) : Bool :=
  match decodeRequest bytes with
  | .ok q => !decide q.Avoids
  | .error _ => true

/-- The bus with an error in the place of a `send` of such a message on the request channel. -/
def IBus.guarded {σ : Type} (bus : IBus σ) (error : String) : IBus σ :=
  { bus with
    send := fun s port dstPort channel data ↦
      if channel = requestChannel ∧ trespasses data = true then .error error
      else bus.send s port dstPort channel data }

theorem trespasses_wire {q : MemoryRequest} (hvalid : q.Valid) (havoids : q.Avoids) :
    trespasses q.wire = false := by
  rw [trespasses, decodeRequest_wire hvalid]
  exact congrArg not (decide_eq_true havoids)

section Guarded

variable {σ : Type} (bus : IBus σ) (error : String)

theorem guarded_send {data : Bytes} (h : trespasses data = false) (s : σ) (port dstPort : BusPortT)
    (channel : ChannelT) :
    (bus.guarded error).send s port dstPort channel data =
      bus.send s port dstPort channel data :=
  if_neg fun hguard ↦ Bool.noConfusion (h.symm.trans hguard.2)

theorem guarded_send_response (s : σ) (port dstPort : BusPortT) (data : Bytes) :
    (bus.guarded error).send s port dstPort responseChannel data =
      bus.send s port dstPort responseChannel data := by
  have hguard : ¬(responseChannel = requestChannel ∧ trespasses data = true) :=
    fun h ↦ absurd h.1 (by decide)
  rw [IBus.guarded]
  dsimp only
  rw [if_neg hguard]

theorem MmioBusAdapter.sendUnsent_guarded {a : MmioBusAdapter}
    (ha : ∀ e ∈ a.requests, e.request.Valid ∧ e.request.Avoids) (port memoryPort : BusPortT)
    (s : σ) :
    a.sendUnsent (bus.guarded error).toBusInterfaceV2 port memoryPort s =
      a.sendUnsent bus.toBusInterfaceV2 port memoryPort s := by
  rw [sendUnsent, sendUnsent]
  cases he : a.unsent with
  | none => rfl
  | some e =>
    obtain ⟨hvalid, havoids⟩ := ha e (unsent_mem he)
    dsimp only
    rw [encodeRequest_of_valid hvalid]
    change (bus.canSend s port requestChannel >>= fun room ↦ if !room then _ else
        (bus.guarded error).send s port memoryPort requestChannel e.request.wire >>= _) = _
    rw [guarded_send bus error (trespasses_wire hvalid havoids)]
    rfl

theorem MmioBusAdapter.tryTick_guarded {a : MmioBusAdapter}
    (ha : ∀ e ∈ a.requests, e.request.Valid ∧ e.request.Avoids) (hart : UInt32)
    (port memoryPort : BusPortT) (s : σ) :
    a.tryTick (bus.guarded error) hart port memoryPort s =
      a.tryTick bus hart port memoryPort s := by
  rw [tryTick, tryTick, sendUnsent_guarded (a := { a with clock := a.clock + 1 }) bus error ha]
  rfl

namespace Rv64AtomicCore

variable {k : Rv64Hart} {c : Rv64AtomicCore}

theorem issueMemoryRequest_guarded (hok : c.view.Ok k.hartId) (hstate : c.state = .memoryIssue)
    (port memoryPort : BusPortT) (s : σ) :
    issueMemoryRequest (bus.guarded error) k port memoryPort c s =
      issueMemoryRequest bus k port memoryPort c s := by
  obtain ⟨q, hq, hrequest⟩ := request_sendable hok (.inl hstate)
  have hvalid : c.request.Valid := hrequest ▸ hq.sendable.valid
  rw [issueMemoryRequest, issueMemoryRequest]
  by_cases hwait : 0 < c.vectorIssueLeft
  · rw [if_pos hwait, if_pos hwait]
  rw [if_neg hwait, if_neg hwait]
  by_cases hwindow : touchesWindow c.request = true
  · rw [if_pos hwindow, if_pos hwindow]
  rw [if_neg hwindow, if_neg hwindow]
  by_cases hbusy : c.mmio.busy = true
  · rw [if_pos hbusy, if_pos hbusy]
  have havoids := avoids_of_touchesWindow (Bool.not_eq_true _ ▸ hwindow)
  have hstart : c.startRequest.request = c.request :=
    congrArg (fun v ↦ v.request.getD {}) (view_startRequest c)
  rw [if_neg hbusy, if_neg hbusy]
  dsimp only
  rw [hstart, encodeRequest_of_valid hvalid]
  change (bus.canSend s port requestChannel >>= fun room ↦ if !room then _ else
      (bus.guarded error).send s port memoryPort requestChannel c.request.wire >>= _) = _
  rw [guarded_send bus error (trespasses_wire hvalid havoids)]
  rfl

/-- Whatever the bus, and whatever it has done before, a core offers it no request that reaches into
the window. -/
theorem tick_guarded (h : Reachable k c) (port memoryPort : BusPortT) (s : σ) :
    c.tick (bus.guarded error) k port memoryPort s = c.tick bus k port memoryPort s := by
  have hmmio : c.tickMmio (bus.guarded error) k port memoryPort s =
      c.tickMmio bus k port memoryPort s := by
    rw [tickMmio, tickMmio, MmioBusAdapter.tryTick_guarded (a := c.mmio) bus error fun e he ↦
      ⟨(h.view_ok.adapter e he).valid, h.avoids e he⟩]
  rw [tick, tick, hmmio]
  dsimp only
  have hreached := h.turn (.adapter bus port memoryPort s)
  generalize (c.tickMmio bus k port memoryPort s).1 = c₁ at hreached
  cases hstate : c₁.state with
  | memoryIssue =>
    rw [tickCore_of_memoryIssue hstate, tickCore_of_memoryIssue hstate]
    exact issueMemoryRequest_guarded (c := c₁.countTick) bus error hreached.view_ok hstate _ _ _
  | fetchDecode => rw [tickCore_of_fetchDecode hstate, tickCore_of_fetchDecode hstate]
  | executeWait => rw [tickCore_of_executeWait hstate, tickCore_of_executeWait hstate]
  | memoryWait =>
    rw [tickCore_of_memoryWait hstate, tickCore_of_memoryWait hstate]
    rfl
  | halted | faulted =>
    have hfinished : c₁.finished = true := by simp [finished, halted, faulted, hstate]
    rw [tickCore_of_finished hfinished, tickCore_of_finished hfinished]

end Rv64AtomicCore

end Guarded

end Manycore
