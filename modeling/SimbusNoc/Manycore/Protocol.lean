import SimbusNoc.Noc.Common

/-!
# Memory requests and responses on the wire

`memory_protocol.cpp`: a request or response is a version byte, a tag byte, its fields in
little-endian order and its data. The two enumerations are 8-bit types that a decoder fills by a
cast, so they can hold any byte.

The encoders throw for a write whose data has another length than its size, and take every other
message. The decoders check the version, the tag, that enough bytes are left for each field, and at
the end that nothing is left over. Each error has the text of the source. Sizes of requests are
16-bit fields of the message; the size of a response is the length of its data, cast to 16 bits.
-/

namespace Manycore

open Simbus

structure MemoryOp where
  raw : UInt8
  deriving DecidableEq

namespace MemoryOp

def read : MemoryOp := ⟨1⟩
def write : MemoryOp := ⟨2⟩

end MemoryOp

structure MemoryStatus where
  raw : UInt8
  deriving DecidableEq

namespace MemoryStatus

def ok : MemoryStatus := ⟨0⟩
def invalidRequest : MemoryStatus := ⟨1⟩

end MemoryStatus

structure MemoryRequest where
  op : MemoryOp := MemoryOp.read
  hartId : UInt32 := 0
  transactionId : UInt32 := 0
  address : UInt64 := 0
  data : Bytes := []
  size : UInt16 := 0
  deriving DecidableEq

structure MemoryResponse where
  status : MemoryStatus := MemoryStatus.ok
  hartId : UInt32 := 0
  transactionId : UInt32 := 0
  data : Bytes := []
  deriving DecidableEq

def protocolVersion : UInt8 := 1
def requestTag : UInt8 := 0x51
def responseTag : UInt8 := 0x52

/-- `append_le` of the `n` low bytes of a value. -/
def appendLe : ℕ → ℕ → Bytes
  | 0, _ => []
  | n + 1, value => UInt8.ofNat value :: appendLe n (value / 256)

/-- The value `take_le` assembles from bytes. -/
def leValue : Bytes → ℕ
  | [] => 0
  | x :: rest => x.toNat + 256 * leValue rest

/-- `take_le`: the value of the next `n` bytes, and what follows them. -/
def takeLe (n : ℕ) (bytes : Bytes) : Except String (ℕ × Bytes) := do
  require (decide (n ≤ bytes.length)) "truncated memory protocol message"
  return (leValue (bytes.take n), bytes.drop n)

/-- `check_header`. The tag is not read when the version is wrong. -/
def checkHeader (bytes : Bytes) (tag : UInt8) : Except String Bytes := do
  let (version, bytes) ← takeLe 1 bytes
  require (UInt8.ofNat version == protocolVersion) "invalid memory protocol header"
  let (t, bytes) ← takeLe 1 bytes
  require (UInt8.ofNat t == tag) "invalid memory protocol header"
  return bytes

/-- The header and the fields of a request, without its data. -/
def requestHeader (q : MemoryRequest) : Bytes :=
  [protocolVersion, requestTag, q.op.raw] ++ appendLe 4 q.hartId.toNat ++
    appendLe 4 q.transactionId.toNat ++ appendLe 8 q.address.toNat ++ appendLe 2 q.size.toNat

def encodeRequest (q : MemoryRequest) : Except String Bytes := do
  require (!(q.size == 0 || (q.op == MemoryOp.write && !(q.data.length == q.size.toNat))))
    "invalid memory request size"
  return requestHeader q ++ q.data

def decodeRequest (bytes : Bytes) : Except String MemoryRequest := do
  let bytes ← checkHeader bytes requestTag
  let (op, bytes) ← takeLe 1 bytes
  let op : MemoryOp := ⟨UInt8.ofNat op⟩
  let (hartId, bytes) ← takeLe 4 bytes
  let (transactionId, bytes) ← takeLe 4 bytes
  let (address, bytes) ← takeLe 8 bytes
  let (size, bytes) ← takeLe 2 bytes
  let size := UInt16.ofNat size
  require (!(size == 0 || (!(op == MemoryOp.read) && !(op == MemoryOp.write))))
    "invalid decoded memory request"
  require (!((op == MemoryOp.read && !bytes.isEmpty) ||
      (op == MemoryOp.write && !(bytes.length == size.toNat))))
    "invalid memory request payload"
  return {
    op := op
    hartId := UInt32.ofNat hartId
    transactionId := UInt32.ofNat transactionId
    address := UInt64.ofNat address
    data := bytes
    size := size }

/-- The response's size field is a cast to 16 bits. -/
def encodeResponse (r : MemoryResponse) : Bytes :=
  [protocolVersion, responseTag, r.status.raw] ++ appendLe 4 r.hartId.toNat ++
    appendLe 4 r.transactionId.toNat ++ appendLe 2 (r.data.length % 2 ^ 16) ++ r.data

def decodeResponse (bytes : Bytes) : Except String MemoryResponse := do
  let bytes ← checkHeader bytes responseTag
  let (status, bytes) ← takeLe 1 bytes
  let (hartId, bytes) ← takeLe 4 bytes
  let (transactionId, bytes) ← takeLe 4 bytes
  let (size, bytes) ← takeLe 2 bytes
  require (bytes.length == size) "invalid memory response payload"
  return {
    status := ⟨UInt8.ofNat status⟩
    hartId := UInt32.ofNat hartId
    transactionId := UInt32.ofNat transactionId
    data := bytes }

end Manycore
