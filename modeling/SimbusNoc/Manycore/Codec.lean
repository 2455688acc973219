import SimbusNoc.Manycore.Protocol

/-!
# Round trips of the wire format

What the encoders write, the decoders read back. A request decodes to itself when it is a read
without data or a write with as many bytes as its size says, which is all that the cores send.

`appendLe` and `takeLe` are inverse for each field, as long as the value fits the field, and a
decoder is a sequence of `takeLe`s with checks in between. So a round trip is a rewriting with one
lemma for each field, in the order of the fields. `MemoryRequest.Valid` is the well-formedness
under which nothing is lost, and `MemoryRequest.wire` the spelling that encoder and decoder have in
common. The general statement, which messages come back and which byte strings are accepted, is in
the module on what the decoders accept.
-/

namespace Manycore

open Simbus

/-! ## Little-endian fields -/

@[simp] theorem length_appendLe (n value : ℕ) : (appendLe n value).length = n := by
  induction n generalizing value with
  | zero => rfl
  | succ n ih => rw [appendLe, List.length_cons, ih]

theorem getElem?_appendLe (n value : ℕ) {i : ℕ} (hi : i < n) :
    (appendLe n value)[i]? = some (UInt8.ofNat (value / 256 ^ i)) := by
  induction n generalizing value i with
  | zero => omega
  | succ n ih =>
    rw [appendLe]
    cases i with
    | zero => simp
    | succ i =>
      rw [List.getElem?_cons_succ, ih _ (by omega), Nat.div_div_eq_div_mul, pow_succ']

theorem leValue_appendLe (n value : ℕ) : leValue (appendLe n value) = value % 256 ^ n := by
  induction n generalizing value with
  | zero => rw [appendLe, leValue, pow_zero, Nat.mod_one]
  | succ n ih =>
    rw [appendLe, leValue, ih, pow_succ', Nat.mod_mul]
    exact congrArg (· + _) (UInt8.toNat_ofNat' ..)

theorem takeLe_append {n : ℕ} {field : Bytes} (hn : field.length = n) (rest : Bytes) :
    takeLe n (field ++ rest) = .ok (leValue field, rest) := by
  have hlen : n ≤ (field ++ rest).length := by
    rw [List.length_append, hn]
    exact Nat.le_add_right _ _
  rw [takeLe, require, if_pos (decide_eq_true hlen)]
  subst hn
  simp [bind, Except.bind, pure, Except.pure]

theorem takeLe_cons (x : UInt8) (rest : Bytes) : takeLe 1 (x :: rest) = .ok (x.toNat, rest) := by
  have hlen : [x].length = 1 := rfl
  have h := takeLe_append hlen rest
  rwa [List.singleton_append, leValue, leValue, Nat.mul_zero, Nat.add_zero] at h

theorem takeLe_appendLe (n value : ℕ) (rest : Bytes) :
    takeLe n (appendLe n value ++ rest) = .ok (value % 256 ^ n, rest) := by
  rw [takeLe_append (length_appendLe n value), leValue_appendLe]

theorem checkHeader_cons (tag : UInt8) (rest : Bytes) :
    checkHeader (protocolVersion :: tag :: rest) tag = .ok rest := by
  rw [checkHeader, takeLe_cons]
  simp only [bind, Except.bind, UInt8.ofNat_toNat, beq_self_eq_true, require_true, takeLe_cons]
  rfl

/-! ## Requests -/

/-- The requests that the cores make: a read carries no data, a write as many bytes as its size. -/
structure MemoryRequest.Valid (q : MemoryRequest) : Prop where
  size : q.size ≠ 0
  data : q.op = MemoryOp.read ∧ q.data = [] ∨
    q.op = MemoryOp.write ∧ q.data.length = q.size.toNat

/-- The bytes of a request. -/
def MemoryRequest.wire (q : MemoryRequest) : Bytes := requestHeader q ++ q.data

@[simp] theorem length_wire (q : MemoryRequest) : q.wire.length = 21 + q.data.length := by
  simp only [MemoryRequest.wire, requestHeader, List.length_append, List.length_cons,
    List.length_nil, length_appendLe]

theorem MemoryRequest.Valid.op {q : MemoryRequest} (h : q.Valid) :
    q.op = MemoryOp.read ∨ q.op = MemoryOp.write := h.data.imp And.left And.left

theorem MemoryRequest.Valid.length_data_le {q : MemoryRequest} (h : q.Valid) :
    q.data.length ≤ 65535 := by
  rcases h.data with ⟨-, hnil⟩ | ⟨-, hlen⟩
  · simp [hnil]
  · have := q.size.toNat_lt
    omega

theorem encodeRequest_eq_ok {q : MemoryRequest} {bytes : Bytes}
    (h : encodeRequest q = .ok bytes) :
    bytes = q.wire ∧ q.size ≠ 0 ∧ (q.op = MemoryOp.write → q.data.length = q.size.toNat) := by
  rw [encodeRequest, Except.bind_eq_ok_iff] at h
  obtain ⟨u, hreq, h⟩ := h
  rw [require_eq_ok_iff] at hreq
  simp only [Bool.not_eq_true', Bool.or_eq_false_iff, beq_eq_false_iff_ne, Bool.and_eq_false_iff,
    Bool.not_eq_false', beq_iff_eq] at hreq
  exact ⟨(Except.ok.inj h).symm, hreq.1, fun hw ↦ hreq.2.resolve_left fun hne ↦ hne hw⟩

theorem encodeRequest_of_valid {q : MemoryRequest} (h : q.Valid) :
    encodeRequest q = .ok q.wire := by
  have hcheck : (!(q.size == 0 || (q.op == MemoryOp.write && !(q.data.length == q.size.toNat)))) =
      true := by
    rcases h.data with ⟨hop, -⟩ | ⟨-, hlen⟩
    · simp [h.size, hop, show MemoryOp.read ≠ MemoryOp.write by decide]
    · simp [h.size, hlen]
  rw [encodeRequest, hcheck]
  rfl

theorem decodeRequest_wire {q : MemoryRequest} (h : q.Valid) : decodeRequest q.wire = .ok q := by
  have hhart : q.hartId.toNat % 256 ^ 4 = q.hartId.toNat := Nat.mod_eq_of_lt q.hartId.toNat_lt
  have htrans : q.transactionId.toNat % 256 ^ 4 = q.transactionId.toNat :=
    Nat.mod_eq_of_lt q.transactionId.toNat_lt
  have haddr : q.address.toNat % 256 ^ 8 = q.address.toNat := Nat.mod_eq_of_lt q.address.toNat_lt
  have hsize : q.size.toNat % 256 ^ 2 = q.size.toNat := Nat.mod_eq_of_lt q.size.toNat_lt
  have hfields : q.wire = protocolVersion :: requestTag :: q.op.raw ::
      (appendLe 4 q.hartId.toNat ++ (appendLe 4 q.transactionId.toNat ++
        (appendLe 8 q.address.toNat ++ (appendLe 2 q.size.toNat ++ q.data)))) := by
    simp [MemoryRequest.wire, requestHeader]
  have hop :
      (!(q.size == 0 || (!(q.op == MemoryOp.read) && !(q.op == MemoryOp.write)))) = true := by
    rcases h.data with ⟨hop, -⟩ | ⟨hop, -⟩ <;> simp [h.size, hop]
  have hpayload : (!((q.op == MemoryOp.read && !q.data.isEmpty) ||
      (q.op == MemoryOp.write && !(q.data.length == q.size.toNat)))) = true := by
    rcases h.data with ⟨hop, hnil⟩ | ⟨hop, hlen⟩
    · simp [hop, hnil, show MemoryOp.read ≠ MemoryOp.write by decide]
    · simp [hop, hlen, show MemoryOp.write ≠ MemoryOp.read by decide]
  rw [hfields, decodeRequest, checkHeader_cons]
  simp only [bind, Except.bind, takeLe_cons, takeLe_appendLe, hhart, htrans, haddr, hsize,
    UInt8.ofNat_toNat, UInt16.ofNat_toNat, UInt32.ofNat_toNat, UInt64.ofNat_toNat, hop, hpayload,
    require_true]
  rfl

/-! ## Responses -/

@[simp] theorem length_encodeResponse (r : MemoryResponse) :
    (encodeResponse r).length = 13 + r.data.length := by
  simp only [encodeResponse, List.length_append, List.length_cons, List.length_nil,
    length_appendLe]

theorem decodeResponse_encodeResponse {r : MemoryResponse} (h : r.data.length < 2 ^ 16) :
    decodeResponse (encodeResponse r) = .ok r := by
  have hhart : r.hartId.toNat % 256 ^ 4 = r.hartId.toNat := Nat.mod_eq_of_lt r.hartId.toNat_lt
  have htrans : r.transactionId.toNat % 256 ^ 4 = r.transactionId.toNat :=
    Nat.mod_eq_of_lt r.transactionId.toNat_lt
  have hsize : r.data.length % 2 ^ 16 % 256 ^ 2 = r.data.length := by omega
  have hfields : encodeResponse r = protocolVersion :: responseTag :: r.status.raw ::
      (appendLe 4 r.hartId.toNat ++ (appendLe 4 r.transactionId.toNat ++
        (appendLe 2 (r.data.length % 2 ^ 16) ++ r.data))) := by
    simp [encodeResponse]
  rw [hfields, decodeResponse, checkHeader_cons]
  simp only [bind, Except.bind, takeLe_cons, takeLe_appendLe, hhart, htrans, hsize,
    UInt8.ofNat_toNat, UInt32.ofNat_toNat, beq_self_eq_true, require_true]
  rfl

end Manycore
