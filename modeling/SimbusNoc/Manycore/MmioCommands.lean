import SimbusNoc.Manycore.HartTurn

/-!
# The commands of the MMIO adapter

From any state of the adapter: which writes to the command register are accepted, what an accepted
command puts on the bus, what the answer to one leaves in the data register, and what a rejected
write leaves alone. The test of a command compares 64-bit sums that may wrap; `acceptable_iff`
reads it in exact arithmetic.

## Accepted and refused

`Admissible` is the condition in numbers, without a register word or a wrapped sum in it, and
`admissible_iff` says that the tests of the source, one after the other, decide it. `Refused` is
all that a refused write may change. `refused_of_write` goes from the error counter back: a write
that counts an error is a refused one, for each of the registers and whatever the reason.

## On the bus

`Orders` spells the request that a command is to become, field by field from the registers.
`backlog` are the requests that the bus has not taken. A write appends to it, a tick takes the
first off it, and no answer changes it, so `Course.sent` follows by induction: the bus is handed
the backlog in order, and after it whatever is commanded later. No assumption is made about the
bus.
-/

namespace Manycore

open Simbus

namespace MmioBusAdapter

variable {σ : Type} {bus : BusInterfaceV2 σ} {hart : UInt32} {port memoryPort : BusPortT}
  {a a' b : MmioBusAdapter} {value : UInt64}

/-! ## Which commands are accepted -/

/-- A command that the adapter is to carry out. -/
structure Admissible (a : MmioBusAdapter) (value : UInt64) : Prop where
  operation : value = 1 ∨ value = 2
  size : a.size = 1 ∨ a.size = 2 ∨ a.size = 4 ∨ a.size = 8
  fits : a.target.toNat + a.size.toNat ≤ 2 ^ 64
  /-- No byte of the access is in the control window. -/
  apart : ∀ n, a.target.toNat ≤ n → n < a.target.toNat + a.size.toNat →
    ¬(0x90000000 ≤ n ∧ n < 0x90000100)
  room : a.requests.length + (if 1 < a.depth then a.results.length else 0) < a.depth.toNat
  fresh : 1 < a.depth → a.nextId ≠ 0x7fffffff

/-- The sums of the test do not wrap where they are taken. -/
theorem acceptable_iff : a.acceptable value = true ↔
    (value = 1 ∨ value = 2) ∧ (a.size = 1 ∨ a.size = 2 ∨ a.size = 4 ∨ a.size = 8) ∧
      a.target.toNat + a.size.toNat ≤ 2 ^ 64 ∧
      (0x90000100 ≤ a.target.toNat ∨ a.target.toNat + a.size.toNat ≤ 0x90000000) := by
  have htarget : a.target.toNat < 2 ^ 64 := a.target.toNat_lt
  have hend : (base + span).toNat = 0x90000100 := rfl
  have hbase : base.toNat = 0x90000000 := rfl
  have hlast : (UInt64.ofNat (2 ^ 64 - 1)).toNat = 2 ^ 64 - 1 := rfl
  have hone : (1 : UInt64).toNat = 1 := rfl
  -- the size is small, so neither the subtraction nor the sum below the window wraps
  have hrange : (a.size = 1 ∨ a.size = 2 ∨ a.size = 4 ∨ a.size = 8) →
      ((¬UInt64.ofNat (2 ^ 64 - 1) - (a.size - 1) < a.target ∧
          (¬a.target < base + span ∨ ¬base < a.target + a.size)) ↔
        a.target.toNat + a.size.toNat ≤ 2 ^ 64 ∧
          (0x90000100 ≤ a.target.toNat ∨ a.target.toNat + a.size.toNat ≤ 0x90000000)) := by
    intro hsize
    have hnat : a.size.toNat = 1 ∨ a.size.toNat = 2 ∨ a.size.toNat = 4 ∨ a.size.toNat = 8 := by
      rcases hsize with h | h | h | h <;> rw [h] <;> decide
    simp only [UInt64.lt_iff_toNat_lt, UInt64.toNat_sub, UInt64.toNat_add, hbase, hend, hlast, hone]
    omega
  rw [acceptable]
  simp only [Bool.not_eq_true', Bool.or_eq_false_iff, Bool.and_eq_false_iff, Bool.not_eq_false',
    beq_iff_eq, decide_eq_false_iff_not]
  constructor
  · rintro ⟨⟨⟨hvalue, hsize⟩, hwraps⟩, hwindow⟩
    rw [or_assoc, or_assoc] at hsize
    exact ⟨hvalue, hsize, (hrange hsize).mp ⟨hwraps, hwindow⟩⟩
  · rintro ⟨hvalue, hsize, hexact⟩
    obtain ⟨hwraps, hwindow⟩ := (hrange hsize).mpr hexact
    refine ⟨⟨⟨hvalue, ?_⟩, hwraps⟩, hwindow⟩
    rwa [or_assoc, or_assoc]

/-- The tests of a command, one after the other, are the conditions of `Admissible`. -/
theorem admissible_iff : a.Admissible value ↔
    ¬a.depth.toNat ≤ a.occupied ∧ a.acceptable value = true ∧
      ¬(1 < a.depth ∧ a.nextId = 0x7fffffff) := by
  have hsize : (a.size = 1 ∨ a.size = 2 ∨ a.size = 4 ∨ a.size = 8) → 0 < a.size.toNat := by
    rintro (h | h | h | h) <;> rw [h] <;> decide
  rw [acceptable_iff, occupied, not_le, not_and]
  constructor
  · rintro ⟨hvalue, hsizes, hfits, hapart, hroom, hfresh⟩
    refine ⟨hroom, ⟨hvalue, hsizes, hfits, ?_⟩, hfresh⟩
    have hpos := hsize hsizes
    -- the first byte of the access, or the first of the window
    have hfirst := hapart a.target.toNat le_rfl (by omega)
    have hwindow := hapart 0x90000000
    omega
  · rintro ⟨hroom, ⟨hvalue, hsizes, hfits, hapart⟩, hfresh⟩
    exact ⟨hvalue, hsizes, hfits, fun n hn hn' ↦ by omega, hroom, hfresh⟩

/-! ## Rejected writes

A write is rejected before it has any effect, except that a command in a free slot has cleared the
data register, and with depth 1 the status.
-/

/-- What a rejected write owes: it sets ERROR and leaves the rest of the state alone. -/
structure Refused (a a' : MmioBusAdapter) : Prop where
  error : a'.status &&& errorBit = errorBit
  requests : a'.requests = a.requests
  results : a'.results = a.results
  target : a'.target = a.target
  writeData : a'.writeData = a.writeData
  size : a'.size = a.size
  nextId : a'.nextId = a.nextId

theorem and_errorBit_of_or (status : UInt64) : (status ||| errorBit) &&& errorBit = errorBit := by
  refine UInt64.toBitVec_inj.mp (BitVec.eq_of_getLsbD_eq fun i _ ↦ ?_)
  rw [UInt64.toBitVec_and, UInt64.toBitVec_or, BitVec.getLsbD_and, BitVec.getLsbD_or]
  exact (by decide : ∀ x y : Bool, ((x || y) && y) = y) _ _

theorem refused_reject (a : MmioBusAdapter) : Refused a a.reject :=
  ⟨and_errorBit_of_or _, rfl, rfl, rfl, rfl, rfl, rfl⟩

/-- Clearing the status before the rejection changes nothing else. -/
theorem refused_startCommand (a : MmioBusAdapter) : Refused a a.startCommand.reject :=
  ⟨and_errorBit_of_or _, rfl, rfl, rfl, rfl, rfl, rfl⟩

theorem command_of_admissible (h : a.Admissible value) :
    command hart a value = accept hart a.startCommand value := by
  obtain ⟨hroom, hacceptable, hfresh⟩ := admissible_iff.mp h
  have hacceptable' : ¬(!a.startCommand.acceptable value) = true := by
    rw [Bool.not_eq_true', Bool.not_eq_false]
    exact hacceptable
  rw [command, if_neg hroom]
  dsimp only
  rw [if_neg hacceptable']
  exact if_neg hfresh

theorem command_of_not_admissible (h : ¬a.Admissible value) :
    command hart a value = a.reject ∨ command hart a value = a.startCommand.reject := by
  rw [admissible_iff, not_and, not_and, not_not] at h
  rw [command]
  dsimp only
  split_ifs with hfull hbad hids
  · exact .inl rfl
  · exact .inr rfl
  · exact .inr rfl
  · have hacceptable : a.startCommand.acceptable value = true := by simpa using hbad
    exact absurd (h hfull hacceptable) hids

theorem write_command (hart : UInt32) (a : MmioBusAdapter) (value : UInt64) :
    a.write hart (base + 0x18) 8 value =
      .ok (if a.busy = true ∧ a.depth = 1 then a.reject else command hart a value) := by
  have hoffset : offset (base + 0x18) 8 = .ok 0x18 := by decide
  rw [write, hoffset]
  by_cases hlocked : a.busy ∧ a.depth = 1
  · rw [if_pos hlocked]
    exact if_pos hlocked
  · rw [if_neg hlocked]
    exact if_neg hlocked

/-- A write that counts an error is refused, and no other is. -/
theorem refused_of_write {address : UInt64} {size : UInt16}
    (hwrite : a.write hart address size value = .ok a') :
    a'.stats.errors = a.stats.errors ∨
      (a'.stats.errors = a.stats.errors + 1 ∧ Refused a a') := by
  rw [MmioBusAdapter.write, Except.bind_eq_ok_iff] at hwrite
  obtain ⟨reg, -, hwrite⟩ := hwrite
  dsimp only at hwrite
  by_cases hpop : reg = 0x48
  · rw [if_pos hpop] at hwrite
    obtain rfl := Except.ok.inj hwrite
    rw [MmioBusAdapter.pop]
    split
    · exact .inr ⟨rfl, refused_reject a⟩
    · split
      · exact .inl rfl
      · exact .inr ⟨rfl, refused_reject a⟩
  rw [if_neg hpop] at hwrite
  by_cases hhigh : 0x28 < reg
  · rw [if_pos hhigh] at hwrite
    cases hwrite
  rw [if_neg hhigh] at hwrite
  split_ifs at hwrite with hlocked htarget hdata hsize hstatus hread hcommand
  · exact .inr (Except.ok.inj hwrite ▸ ⟨rfl, refused_reject a⟩)
  -- the registers that take any value
  iterate 4 exact .inl (Except.ok.inj hwrite ▸ rfl)
  · exact .inr (Except.ok.inj hwrite ▸ ⟨rfl, refused_reject a⟩)
  · obtain rfl := Except.ok.inj hwrite
    by_cases hadmissible : a.Admissible value
    · rw [command_of_admissible hadmissible]
      exact .inl rfl
    · rcases @command_of_not_admissible hart a value hadmissible with heq | heq <;> rw [heq]
      · exact .inr ⟨rfl, refused_reject a⟩
      · exact .inr ⟨rfl, refused_startCommand a⟩

/-! ## What a command puts on the bus -/

/-- The request that a command with `value` is to become, as the registers stand. -/
structure Orders (hart : UInt32) (a : MmioBusAdapter) (value : UInt64) (q : MemoryRequest) :
    Prop where
  op : q.op = if value = 1 then MemoryOp.read else MemoryOp.write
  hartId : q.hartId = hart
  address : q.address = a.target
  size : q.size.toNat = a.size.toNat
  length : q.data.length = if value = 1 then 0 else a.size.toNat
  data : ∀ i < q.data.length, q.data[i]? = some (a.writeData >>> UInt64.ofNat (8 * i)).toUInt8

/-- The requests that the bus has not taken, oldest first. -/
def backlog (a : MmioBusAdapter) : List MemoryRequest :=
  (a.requests.filter fun e ↦ !e.sent).map MmioEntry.request

/-- The adapter, the bus and their exchange later on: after any accesses to the registers, ticks of
the adapter, and changes of the bus between them. -/
inductive Course (bus : BusInterfaceV2 σ) (hart : UInt32) (port memoryPort : BusPortT)
    (a₀ : MmioBusAdapter) (s₀ : σ) : MmioBusAdapter → σ → Exchange → Prop
  | start : Course bus hart port memoryPort a₀ s₀ a₀ s₀ {}
  | write {a a' s x} (address : UInt64) (size : UInt16) (value : UInt64) :
      Course bus hart port memoryPort a₀ s₀ a s x → write hart a address size value = .ok a' →
      Course bus hart port memoryPort a₀ s₀ a' s x
  | tick {a a' s s' x x'} : Course bus hart port memoryPort a₀ s₀ a s x →
      tick (recorded bus) hart port memoryPort a (s, x) = .ok (a', s', x') →
      Course bus hart port memoryPort a₀ s₀ a' s' x'
  | other {a s s' x} : Course bus hart port memoryPort a₀ s₀ a s x →
      Course bus hart port memoryPort a₀ s₀ a s' x

theorem orders_request (hsize : a.size = 1 ∨ a.size = 2 ∨ a.size = 4 ∨ a.size = 8) (id : UInt32) :
    Orders hart a value (MmioCommand.request hart ⟨value, a.target, a.writeData, a.size, id⟩) := by
  have h := MmioCommand.Sized.becomes (c := ⟨value, a.target, a.writeData, a.size, id⟩) hsize hart
  exact ⟨h.op, h.hartId, h.address, h.size, h.length, h.data⟩

/-! ## The order on the bus

The requests are appended when they are commanded and taken from the front when they are sent.
-/

theorem backlog_accept (hart : UInt32) (a : MmioBusAdapter) (value : UInt64) :
    (accept hart a value).backlog =
      a.backlog ++ [MmioCommand.request hart
      ⟨value, a.target, a.writeData, a.size, a.commandId⟩] := by
  rw [backlog, accept, List.filter_append, List.map_append]
  rfl

theorem backlog_write {address : UInt64} {size : UInt16}
    (hwrite : a.write hart address size value = .ok a') :
    ∃ more, a'.backlog = a.backlog ++ more := by
  rcases write_cases hwrite with ⟨hrequests, -⟩ | ⟨-, rfl⟩
  · exact ⟨[], by rw [backlog, backlog, hrequests, List.append_nil]⟩
  · exact ⟨_, backlog_accept hart a.startCommand value⟩

/-- The request that `unsent` finds heads the backlog, and `markSent` takes it off. -/
theorem backlog_markSent {e : MmioEntry} (h : a.unsent = some e) :
    a.backlog = e.request :: { a with requests := markSent a.requests }.backlog := by
  rw [unsent] at h
  rw [backlog, backlog]
  generalize a.requests = l at h
  induction l with
  | nil => cases h
  | cons e' rest ih =>
    rw [List.find?_cons] at h
    rw [markSent]
    cases hsent : e'.sent with
    | false =>
      rw [hsent] at h
      obtain rfl := Option.some.inj h
      simp [hsent]
    | true =>
      rw [hsent] at h
      simpa [hsent] using ih h

theorem backlog_complete (a : MmioBusAdapter) (e : MmioEntry) (r : MemoryResponse) :
    (a.complete e r).backlog = a.backlog := by
  have herase : ∀ l : List MmioEntry, (l.eraseP (answeredBy r.transactionId)).filter
      (fun e ↦ !e.sent) = l.filter fun e ↦ !e.sent := by
    intro l
    induction l with
    | nil => rfl
    | cons e' rest ih =>
      by_cases hanswered : answeredBy r.transactionId e' = true
      · rw [List.eraseP_cons_of_pos hanswered]
        rw [answeredBy, Bool.and_eq_true] at hanswered
        rw [List.filter_cons_of_neg (by simp [hanswered.1])]
      · rw [List.eraseP_cons_of_neg hanswered, List.filter_cons, List.filter_cons, ih]
  rw [backlog, backlog, ← (takeData_same a e r).requests]
  exact congrArg (List.map MmioEntry.request) (herase _)

theorem backlog_tick {s s' : σ} {x x' : Exchange}
    (htick : tick (recorded bus) hart port memoryPort a (s, x) = .ok (a', s', x')) :
    x'.sent ++ a'.backlog.map (addressed memoryPort) =
      x.sent ++ a.backlog.map (addressed memoryPort) := by
  obtain ⟨⟨a₁, s₁, x₁⟩, hsend, hreceive⟩ := Except.bind_eq_ok_iff.mp htick
  have hsent : x₁.sent ++ a₁.backlog.map (addressed memoryPort) =
      x.sent ++ a.backlog.map (addressed memoryPort) := by
    rcases sendUnsent_cases hsend with ⟨hsame, heq⟩ | ⟨e, bytes, accepted, he, hbytes, hbus, rfl⟩
    · obtain ⟨-, rfl⟩ := Prod.mk.inj heq
      rcases hsame with rfl | rfl <;> rfl
    · obtain ⟨⟨accepted', t⟩, -, hbus⟩ := Except.bind_eq_ok_iff.mp hbus
      obtain ⟨rfl, hx⟩ := Prod.mk.inj (Except.ok.inj hbus)
      obtain ⟨-, rfl⟩ := Prod.mk.inj hx
      obtain ⟨rfl, -⟩ := encodeRequest_eq_ok hbytes
      cases accepted' with
      | false => rfl
      | true =>
        have hhead : a.backlog = e.request :: _ := backlog_markSent (a := { a with clock := _ }) he
        rw [hhead, List.map_cons, if_pos rfl, if_pos rfl, List.append_assoc]
        rfl
  rw [← hsent]
  rcases receive_cases hreceive with ⟨hsame, hbus⟩ | ⟨bytes, r, e, -, hbus, -, -, -, rfl⟩
  · have hx : x' = x₁ := by
      rcases hbus with heq | hbus
      · exact (Prod.mk.inj heq).2
      · obtain ⟨⟨data, t⟩, -, hbus⟩ := Except.bind_eq_ok_iff.mp hbus
        obtain ⟨rfl, hx⟩ := Prod.mk.inj (Except.ok.inj hbus)
        exact (Prod.mk.inj hx).2.symm
    rw [hx]
    rcases hsame with rfl | rfl <;> rfl
  · obtain ⟨⟨data, t⟩, -, hbus⟩ := Except.bind_eq_ok_iff.mp hbus
    obtain ⟨rfl, hx⟩ := Prod.mk.inj (Except.ok.inj hbus)
    rw [backlog_complete, ← (Prod.mk.inj hx).2]

/-- The bus is handed the backlog in order, and then what is commanded later. -/
theorem Course.sent {a₀ : MmioBusAdapter} {s₀ s : σ} {x : Exchange}
    (h : Course bus hart port memoryPort a₀ s₀ a s x) :
    ∃ more, x.sent ++ a.backlog.map (addressed memoryPort) =
      (a₀.backlog ++ more).map (addressed memoryPort) := by
  induction h with
  | start => exact ⟨[], by rw [List.append_nil, List.nil_append]⟩
  | write address size value _ hwrite ih =>
    obtain ⟨more, hmore⟩ := ih
    obtain ⟨last, hlast⟩ := backlog_write hwrite
    refine ⟨more ++ last, ?_⟩
    rw [hlast, List.map_append, ← List.append_assoc, hmore, ← List.map_append, List.append_assoc]
  | tick _ htick ih =>
    obtain ⟨more, hmore⟩ := ih
    exact ⟨more, (backlog_tick htick).trans hmore⟩
  | other _ ih => exact ih

/-! ## The promises -/

/-- What the adapter owes in state `a`. -/
structure Exact (hart : UInt32) (a : MmioBusAdapter) : Prop where
  /-- Whether a command is accepted. -/
  accepts : ∀ value, ¬(a.busy = true ∧ a.depth = 1) →
    ∃ a', a.write hart (base + 0x18) 8 value = .ok a' ∧
      (a.Admissible value → ∃ e, a'.requests = a.requests ++ [e] ∧ e.sent = false ∧
        Orders hart a value e.request) ∧
      (¬a.Admissible value → a'.stats.errors = a.stats.errors + 1 ∧ Refused a a')
  /-- What an accepted command puts on any bus: its request, once, behind those that wait. -/
  sends : ∀ value a', ¬(a.busy = true ∧ a.depth = 1) → a.Admissible value →
    a.write hart (base + 0x18) 8 value = .ok a' →
    ∃ q, Orders hart a value q ∧ decodeRequest q.wire = .ok q ∧
      ∀ {σ : Type} (bus : BusInterfaceV2 σ) port memoryPort s b t x,
        Course bus hart port memoryPort a' s b t x →
        ∃ more, x.sent ++ b.backlog.map (addressed memoryPort) =
          a.backlog.map (addressed memoryPort) ++ (memoryPort, q.wire) :: more
  /-- What the answer to the request of a read leaves behind, in any later state. -/
  answers : a.Admissible 1 → ∀ (b : MmioBusAdapter) (e : MmioEntry) (r : MemoryResponse),
    Orders hart a 1 e.request → b.requests.find? (answeredBy r.transactionId) = some e →
    r.hartId = hart → r.status = MemoryStatus.ok → r.data.length = a.size.toNat →
    ∀ {σ : Type} (bus : BusInterfaceV2 σ) port s s', bus.canRecv s port responseChannel = .ok true →
      bus.recv s port responseChannel = .ok (some (encodeResponse r), s') →
      ∃ b', receive bus hart port b s = .ok (b', s') ∧ b'.readData.toNat = leValue r.data ∧
        b'.results = b.results ++
          (if 1 < b.depth then [⟨r.transactionId, b'.readData, false⟩] else [])
  /-- A write that is counted as an error. -/
  refuses : ∀ address size value a', a.write hart address size value = .ok a' →
    a'.stats.errors ≠ a.stats.errors → Refused a a'

private theorem leValue_lt_of_length {data : Bytes} (h : data.length ≤ 8) :
    leValue data < 2 ^ 64 :=
  calc leValue data
      < 256 ^ data.length := leValue_lt data
    _ ≤ 256 ^ 8 := Nat.pow_le_pow_right (by decide) h

/-- Commands are accepted and translated exactly, in every state of the adapter. -/
theorem commands_exact (hart : UInt32) (a : MmioBusAdapter) : Exact hart a where
  accepts := by
    intro value hlocked
    refine ⟨_, (write_command hart a value).trans (congrArg _ (if_neg hlocked)), fun h ↦ ?_,
      fun h ↦ ?_⟩
    · rw [command_of_admissible h]
      exact ⟨_, rfl, rfl, orders_request h.size _⟩
    · rcases @command_of_not_admissible hart a value h with heq | heq <;> rw [heq]
      · exact ⟨rfl, refused_reject a⟩
      · exact ⟨rfl, refused_startCommand a⟩
  sends := by
    intro value a' hlocked h hwrite
    rw [write_command, if_neg hlocked, command_of_admissible h] at hwrite
    obtain rfl := Except.ok.inj hwrite
    have hvalid := @valid_request ⟨value, a.target, a.writeData, a.size, a.commandId⟩ h.size hart
    refine ⟨_, orders_request h.size a.commandId, decodeRequest_wire hvalid.1,
      fun bus port memoryPort s b t x hcourse ↦ ?_⟩
    obtain ⟨more, hmore⟩ := hcourse.sent
    refine ⟨more.map (addressed memoryPort), ?_⟩
    rw [hmore, backlog_accept, List.append_assoc, List.map_append]
    rfl
  answers := by
    intro h b e r horders hfind hhart hstatus hlen σ bus port s s' hcan hrecv
    have hle : a.size.toNat ≤ 8 := by
      rcases h.size with h | h | h | h <;> rw [h] <;> decide
    have hbusy : b.busy = true := by
      rw [busy, Bool.not_eq_true']
      exact List.isEmpty_eq_false_iff.mpr fun hnil ↦ by simp [hnil] at hfind
    have hok : failed e r = false := by
      have hread : e.request.op = MemoryOp.read := horders.op
      simp only [failed, hread, hstatus, hlen, ← horders.size]
      simp
    have hdata : (b.complete e r).readData = UInt64.ofNat (leValue r.data) := by
      simp only [complete, takeData, hok, Bool.false_eq_true, if_false]
    refine ⟨b.complete e r, ?_, ?_, ?_⟩
    · rw [receive, hbusy]
      simp only [bind, Except.bind, Bool.not_true, Bool.false_eq_true, if_false, hcan, hrecv]
      rw [decodeResponse_encodeResponse (by omega)]
      simp only [hfind, hhart, beq_self_eq_true, require_true]
      rfl
    · rw [hdata]
      exact UInt64.toNat_ofNat_of_lt' (leValue_lt_of_length (by omega))
    · rw [hdata]
      simp only [complete, takeData, hok, Bool.false_eq_true, if_false]
      split_ifs
      · rfl
      · exact (List.append_nil _).symm
  refuses := fun address size value a' hwrite hcount ↦
    ((refused_of_write hwrite).resolve_left hcount).2

end MmioBusAdapter

end Manycore
