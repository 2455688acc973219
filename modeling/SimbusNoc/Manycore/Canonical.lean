import SimbusNoc.Manycore.Codec

/-!
# What the decoders accept

A byte string that a decoder accepts is what the encoder writes for the message that it returns. So
the decoders accept exactly the images of the well-formed messages, each of which has one spelling.

The encoders take more than that. `encode_request` does not look at the data of a read, and
`encode_response` writes the low 16 bits of a length of any size; the decoders reject what comes
out.

## The two theorems

`decoders_accept_images` is about the decoders: for every byte list, either it is the spelling of
one well-formed message and this is returned, or the decoder throws. It is proved by reading the
fields back one by one, each `takeLe` that succeeds having found the spelling of the value that it
returns. `roundTrips_iff` is about the encoders: which of the messages that can be encoded come
back. The two messages that do not are shown with it.
-/

namespace Manycore

open Simbus

/-! ## Reading a field back

A decoder that returns has read a field of each kind, in order, and the bytes that it has read are
the spelling of the field.
-/

theorem leValue_lt (field : Bytes) : leValue field < 256 ^ field.length := by
  induction field with
  | nil => exact Nat.one_pos
  | cons x rest ih =>
    rw [leValue, List.length_cons, pow_succ]
    have hx := x.toNat_lt
    omega

theorem appendLe_leValue (field : Bytes) : appendLe field.length (leValue field) = field := by
  induction field with
  | nil => rfl
  | cons x rest ih =>
    -- the first byte is the low digit, and what follows is the quotient by 256
    have hx := x.toNat_lt
    have hquot : (x.toNat + 256 * leValue rest) / 256 = leValue rest := by omega
    have hlow : UInt8.ofNat (x.toNat + 256 * leValue rest) = x := by
      apply UInt8.toNat_inj.mp
      rw [UInt8.toNat_ofNat']
      omega
    rw [List.length_cons, leValue, appendLe, hquot, hlow, ih]

theorem takeLe_eq_ok {n value : ℕ} {bytes rest : Bytes} (h : takeLe n bytes = .ok (value, rest)) :
    value < 256 ^ n ∧ bytes = appendLe n value ++ rest := by
  rw [takeLe, Except.bind_eq_ok_iff] at h
  obtain ⟨u, hreq, h⟩ := h
  rw [require_eq_ok_iff, decide_eq_true_iff] at hreq
  obtain ⟨rfl, rfl⟩ := Prod.mk.inj (Except.ok.inj h)
  have hlen : (bytes.take n).length = n := List.length_take_of_le hreq
  refine ⟨?_, ?_⟩
  · calc leValue (bytes.take n) < 256 ^ (bytes.take n).length := leValue_lt _
      _ = 256 ^ n := by rw [hlen]
  · calc bytes = bytes.take n ++ bytes.drop n := (List.take_append_drop n bytes).symm
      _ = appendLe (bytes.take n).length (leValue (bytes.take n)) ++ bytes.drop n := by
        rw [appendLe_leValue]
      _ = appendLe n (leValue (bytes.take n)) ++ bytes.drop n := by rw [hlen]

theorem takeLe_one_eq_ok {value : ℕ} {bytes rest : Bytes} (h : takeLe 1 bytes = .ok (value, rest)) :
    value < 256 ∧ bytes = UInt8.ofNat value :: rest :=
  takeLe_eq_ok h

theorem checkHeader_eq_ok {tag : UInt8} {bytes rest : Bytes}
    (h : checkHeader bytes tag = .ok rest) : bytes = protocolVersion :: tag :: rest := by
  rw [checkHeader, Except.bind_eq_ok_iff] at h
  obtain ⟨⟨version, bytes₁⟩, hversion, h⟩ := h
  rw [Except.bind_eq_ok_iff] at h
  obtain ⟨u, hv, h⟩ := h
  rw [Except.bind_eq_ok_iff] at h
  obtain ⟨⟨t, bytes₂⟩, htag, h⟩ := h
  rw [Except.bind_eq_ok_iff] at h
  obtain ⟨u', ht, h⟩ := h
  rw [require_eq_ok_iff, beq_iff_eq] at hv ht
  rw [(takeLe_one_eq_ok hversion).2, (takeLe_one_eq_ok htag).2, hv, ht, Except.ok.inj h]

/-! ## Requests -/

/-- A request that the decoder returns is well formed, and it read the spelling of it. -/
theorem decodeRequest_eq_ok {bytes : Bytes} {q : MemoryRequest}
    (h : decodeRequest bytes = .ok q) : q.Valid ∧ bytes = q.wire := by
  rw [decodeRequest, Except.bind_eq_ok_iff] at h
  obtain ⟨b₀, hheader, h⟩ := h
  rw [Except.bind_eq_ok_iff] at h
  obtain ⟨⟨op, b₁⟩, hop, h⟩ := h
  rw [Except.bind_eq_ok_iff] at h
  obtain ⟨⟨hart, b₂⟩, hhart, h⟩ := h
  rw [Except.bind_eq_ok_iff] at h
  obtain ⟨⟨trans, b₃⟩, htrans, h⟩ := h
  rw [Except.bind_eq_ok_iff] at h
  obtain ⟨⟨addr, b₄⟩, haddr, h⟩ := h
  rw [Except.bind_eq_ok_iff] at h
  obtain ⟨⟨size, b₅⟩, hsize, h⟩ := h
  dsimp only at h
  rw [Except.bind_eq_ok_iff] at h
  obtain ⟨u, hops, h⟩ := h
  rw [Except.bind_eq_ok_iff] at h
  obtain ⟨u', hpayload, h⟩ := h
  obtain rfl := Except.ok.inj h
  obtain ⟨-, rfl⟩ := takeLe_one_eq_ok hop
  obtain ⟨hart_lt, rfl⟩ := takeLe_eq_ok hhart
  obtain ⟨trans_lt, rfl⟩ := takeLe_eq_ok htrans
  obtain ⟨addr_lt, rfl⟩ := takeLe_eq_ok haddr
  obtain ⟨size_lt, rfl⟩ := takeLe_eq_ok hsize
  rw [require_eq_ok_iff] at hops hpayload
  simp only [Bool.not_eq_true', Bool.or_eq_false_iff, beq_eq_false_iff_ne, Bool.and_eq_false_iff,
    Bool.not_eq_false', beq_iff_eq, List.isEmpty_iff] at hops hpayload
  refine ⟨⟨hops.1, ?_⟩, ?_⟩
  · rcases hops.2 with hread | hwrite
    · exact .inl ⟨hread, hpayload.1.resolve_left fun hne ↦ hne hread⟩
    · exact .inr ⟨hwrite, hpayload.2.resolve_left fun hne ↦ hne hwrite⟩
  · rw [checkHeader_eq_ok hheader]
    simp only [MemoryRequest.wire, requestHeader, UInt32.toNat_ofNat_of_lt' hart_lt,
      UInt32.toNat_ofNat_of_lt' trans_lt, UInt64.toNat_ofNat_of_lt' addr_lt,
      UInt16.toNat_ofNat_of_lt' size_lt, List.append_assoc, List.cons_append, List.nil_append]

theorem decodeRequest_eq_ok_iff {bytes : Bytes} {q : MemoryRequest} :
    decodeRequest bytes = .ok q ↔ q.Valid ∧ encodeRequest q = .ok bytes := by
  constructor
  · intro h
    obtain ⟨hvalid, rfl⟩ := decodeRequest_eq_ok h
    exact ⟨hvalid, encodeRequest_of_valid hvalid⟩
  · rintro ⟨hvalid, henc⟩
    rw [(encodeRequest_eq_ok henc).1, decodeRequest_wire hvalid]

/-! ## Responses -/

theorem decodeResponse_eq_ok {bytes : Bytes} {r : MemoryResponse}
    (h : decodeResponse bytes = .ok r) : r.data.length < 2 ^ 16 ∧ bytes = encodeResponse r := by
  rw [decodeResponse, Except.bind_eq_ok_iff] at h
  obtain ⟨b₀, hheader, h⟩ := h
  rw [Except.bind_eq_ok_iff] at h
  obtain ⟨⟨status, b₁⟩, hstatus, h⟩ := h
  rw [Except.bind_eq_ok_iff] at h
  obtain ⟨⟨hart, b₂⟩, hhart, h⟩ := h
  rw [Except.bind_eq_ok_iff] at h
  obtain ⟨⟨trans, b₃⟩, htrans, h⟩ := h
  rw [Except.bind_eq_ok_iff] at h
  obtain ⟨⟨size, b₄⟩, hsize, h⟩ := h
  rw [Except.bind_eq_ok_iff] at h
  obtain ⟨u, hpayload, h⟩ := h
  rw [require_eq_ok_iff, beq_iff_eq] at hpayload
  obtain rfl := Except.ok.inj h
  obtain ⟨-, rfl⟩ := takeLe_one_eq_ok hstatus
  obtain ⟨hart_lt, rfl⟩ := takeLe_eq_ok hhart
  obtain ⟨trans_lt, rfl⟩ := takeLe_eq_ok htrans
  obtain ⟨size_lt, rfl⟩ := takeLe_eq_ok hsize
  have hmod : size % 2 ^ 16 = size := Nat.mod_eq_of_lt size_lt
  refine ⟨hpayload ▸ size_lt, ?_⟩
  rw [checkHeader_eq_ok hheader]
  simp only [encodeResponse, UInt32.toNat_ofNat_of_lt' hart_lt, UInt32.toNat_ofNat_of_lt' trans_lt,
    hpayload, hmod, List.append_assoc, List.cons_append, List.nil_append]

theorem decodeResponse_eq_ok_iff {bytes : Bytes} {r : MemoryResponse} :
    decodeResponse bytes = .ok r ↔ r.data.length ≤ 65535 ∧ encodeResponse r = bytes := by
  constructor
  · intro h
    obtain ⟨hlen, rfl⟩ := decodeResponse_eq_ok h
    exact ⟨Nat.le_of_lt_succ hlen, rfl⟩
  · rintro ⟨hlen, rfl⟩
    exact decodeResponse_encodeResponse (Nat.lt_succ_of_le hlen)

/-! ## The two directions together -/

private theorem exists_error {α : Type} {x : Except String α} (h : ¬∃ a, x = .ok a) :
    ∃ e, x = .error e := by
  cases x with
  | error e => exact ⟨e, rfl⟩
  | ok a => exact absurd ⟨a, rfl⟩ h

/-- The decoders accept exactly what the encoders write for the well-formed messages, a message
has no second spelling, and every other byte string is thrown out. -/
theorem decoders_accept_images (bytes : Bytes) :
    ((∃ q, decodeRequest bytes = .ok q) ↔
        ∃! q : MemoryRequest, q.Valid ∧ encodeRequest q = .ok bytes) ∧
      (∀ q, decodeRequest bytes = .ok q ↔ q.Valid ∧ encodeRequest q = .ok bytes) ∧
      ((¬∃ q : MemoryRequest, q.Valid ∧ encodeRequest q = .ok bytes) →
        ∃ e, decodeRequest bytes = .error e) ∧
      ((∃ r, decodeResponse bytes = .ok r) ↔
        ∃! r : MemoryResponse, r.data.length ≤ 65535 ∧ encodeResponse r = bytes) ∧
      (∀ r, decodeResponse bytes = .ok r ↔ r.data.length ≤ 65535 ∧ encodeResponse r = bytes) ∧
      ((¬∃ r : MemoryResponse, r.data.length ≤ 65535 ∧ encodeResponse r = bytes) →
        ∃ e, decodeResponse bytes = .error e) := by
  refine ⟨⟨?_, ?_⟩, fun q ↦ decodeRequest_eq_ok_iff, ?_, ⟨?_, ?_⟩,
    fun r ↦ decodeResponse_eq_ok_iff, ?_⟩
  · rintro ⟨q, hq⟩
    refine ⟨q, decodeRequest_eq_ok_iff.mp hq, fun q' hq' ↦ ?_⟩
    exact Except.ok.inj ((decodeRequest_eq_ok_iff.mpr hq').symm.trans hq)
  · rintro ⟨q, hq, -⟩
    exact ⟨q, decodeRequest_eq_ok_iff.mpr hq⟩
  · intro hno
    exact exists_error fun ⟨q, hq⟩ ↦ hno ⟨q, decodeRequest_eq_ok_iff.mp hq⟩
  · rintro ⟨r, hr⟩
    refine ⟨r, decodeResponse_eq_ok_iff.mp hr, fun r' hr' ↦ ?_⟩
    exact Except.ok.inj ((decodeResponse_eq_ok_iff.mpr hr').symm.trans hr)
  · rintro ⟨r, hr, -⟩
    exact ⟨r, decodeResponse_eq_ok_iff.mpr hr⟩
  · intro hno
    exact exists_error fun ⟨r, hr⟩ ↦ hno ⟨r, decodeResponse_eq_ok_iff.mp hr⟩

/-! ## Messages that do not come back -/

/-- What the encoders owe the decoders: an encoded message decodes to itself. -/
def RoundTrips (q : MemoryRequest) (r : MemoryResponse) : Prop :=
  (∀ bytes, encodeRequest q = .ok bytes → decodeRequest bytes = .ok q) ∧
    decodeResponse (encodeResponse r) = .ok r

/-- A request with a size comes back exactly when it is no read with data, and a response exactly
when its length fits 16 bits. -/
theorem roundTrips_iff (q : MemoryRequest) (r : MemoryResponse)
    (hop : q.op = MemoryOp.read ∨ q.op = MemoryOp.write) :
    RoundTrips q r ↔
      (q.op = MemoryOp.read → q.size ≠ 0 → q.data = []) ∧ r.data.length ≤ 65535 := by
  constructor
  · rintro ⟨hq, hr⟩
    refine ⟨fun hread hsize ↦ ?_, (decodeResponse_eq_ok_iff.mp hr).1⟩
    have hcheck : (!(q.size == 0 || (q.op == MemoryOp.write &&
        !(q.data.length == q.size.toNat)))) = true := by
      simp [hsize, hread, show MemoryOp.read ≠ MemoryOp.write by decide]
    have henc : encodeRequest q = .ok (requestHeader q ++ q.data) := by
      rw [encodeRequest, hcheck]
      rfl
    -- the decoder only returns well-formed requests, and a well-formed read has no data
    rcases (decodeRequest_eq_ok_iff.mp (hq _ henc)).1.data with ⟨-, hnil⟩ | ⟨hwrite, -⟩
    · exact hnil
    · rw [hread] at hwrite
      exact absurd hwrite (by decide)
  · rintro ⟨hread, hlen⟩
    refine ⟨fun bytes henc ↦ ?_, decodeResponse_eq_ok_iff.mpr ⟨hlen, rfl⟩⟩
    obtain ⟨rfl, hsize, hwrite⟩ := encodeRequest_eq_ok henc
    refine decodeRequest_wire ⟨hsize, ?_⟩
    rcases hop with hop | hop
    · exact .inl ⟨hop, hread hop hsize⟩
    · exact .inr ⟨hop, hwrite hop⟩

theorem roundTrips_iff_write :
    RoundTrips { op := MemoryOp.write, data := [7], size := 1 } {} ↔
      (MemoryOp.write = MemoryOp.read → (1 : UInt16) ≠ 0 → [(7 : UInt8)] = []) ∧ 0 ≤ 65535 :=
  roundTrips_iff { op := MemoryOp.write, data := [7], size := 1 } {} (.inr rfl)

/-- A read of one byte that carries a byte, and a response of `2 ^ 16` bytes. Both are encoded, and
neither spelling is accepted. -/
theorem not_roundTrips :
    ¬(∀ bytes, encodeRequest { data := [7], size := 1 } = .ok bytes →
        decodeRequest bytes = .ok { data := [7], size := 1 }) ∧
      ¬decodeResponse (encodeResponse { data := List.replicate (2 ^ 16) 0 }) =
        .ok { data := List.replicate (2 ^ 16) 0 } := by
  refine ⟨fun h ↦ ?_, fun h ↦ ?_⟩
  · exact absurd (h _ rfl) (by decide)
  · have hlen := (decodeResponse_eq_ok_iff.mp h).1
    rw [List.length_replicate] at hlen
    exact absurd hlen (by decide)

end Manycore
