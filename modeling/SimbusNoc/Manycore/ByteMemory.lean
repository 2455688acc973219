import SimbusNoc.Library.Sequential
import SimbusNoc.Manycore.Memory

/-!
# Memory as its users see it

A byte for each address, zero at first. A store puts byte `i` of its data at `address + i`, and a
load reads the bytes from its address on; addresses are taken modulo `2 ^ 64`. `SharedMemory`,
which writes one byte after the other into a map, refines it.

`toBytes` is the abstraction. A store that is longer than the address space would write over its
own first bytes, and the two memories would disagree on the order; no request is that long, since
sizes are 16-bit. `serve_eq_apply` is the refinement for one request, with its response, and
`history_serve` that for a list of them. What the system results say about memory they say about
this one.
-/

namespace Manycore

open Simbus Sequential

/-- A byte for each address. -/
abbrev ByteMemory := UInt64 → UInt8

namespace ByteMemory

def zero : ByteMemory := fun _ ↦ 0

def load (m : ByteMemory) (address : UInt64) (size : ℕ) : Bytes :=
  (List.range size).map fun i ↦ m (address + UInt64.ofNat i)

/-- Address `x` gets byte `x - address` of the data, when there is one. -/
def store (m : ByteMemory) (address : UInt64) (data : Bytes) : ByteMemory := fun x ↦
  (data[(x - address).toNat]?).getD (m x)

/-- A request in program order: the response, and the memory after it. -/
def apply (m : ByteMemory) (q : MemoryRequest) : MemoryResponse × ByteMemory :=
  if q.op = MemoryOp.read then
    ({ status := .ok, hartId := q.hartId, transactionId := q.transactionId
       data := m.load q.address q.size.toNat }, m)
  else
    ({ status := .ok, hartId := q.hartId, transactionId := q.transactionId, data := [] },
      m.store q.address q.data)

end ByteMemory

namespace SharedMemory

/-- What the bytes written, and the zeros elsewhere, look like. -/
def toBytes (m : SharedMemory) : ByteMemory := fun x ↦ (m x).getD 0

theorem toBytes_empty : empty.toBytes = ByteMemory.zero := rfl

theorem read_eq_load (m : SharedMemory) (address : UInt64) (size : ℕ) :
    m.read address size = m.toBytes.load address size := rfl

/-- The distance of `x` from the next address is one less, round the address space. -/
private theorem toNat_sub_succ {x address : UInt64} (h : x ≠ address) :
    (x - address).toNat = (x - (address + 1)).toNat + 1 := by
  have hne : x.toNat ≠ address.toNat := fun heq ↦ h (UInt64.toNat_inj.mp heq)
  have hx := x.toNat_lt
  have ha := address.toNat_lt
  rw [UInt64.toNat_sub, UInt64.toNat_sub, UInt64.toNat_add, UInt64.toNat_one]
  omega

private theorem toNat_sub_self_succ (address : UInt64) :
    (address - (address + 1)).toNat = 2 ^ 64 - 1 := by
  have ha := address.toNat_lt
  rw [UInt64.toNat_sub, UInt64.toNat_add, UInt64.toNat_one]
  omega

/-- Writing byte after byte stores the data, unless it wraps onto itself. -/
theorem toBytes_write {data : Bytes} (hlen : data.length ≤ 2 ^ 64) :
    ∀ (m : SharedMemory) (address : UInt64),
      (m.write address data).toBytes = m.toBytes.store address data := by
  induction data with
  | nil =>
    intro m address
    funext x
    simp [write, ByteMemory.store]
  | cons byte rest ih =>
    intro m address
    rw [List.length_cons] at hlen
    rw [write, ih (Nat.le_of_succ_le hlen)]
    funext x
    rw [ByteMemory.store, ByteMemory.store]
    by_cases hx : x = address
    · -- the rest is too short to come round to its own start
      subst hx
      have hnone : rest[(x - (x + 1)).toNat]? = none := by
        rw [toNat_sub_self_succ, List.getElem?_eq_none_iff]
        omega
      rw [hnone, UInt64.sub_self, UInt64.toNat_zero]
      simp [toBytes]
    · rw [toNat_sub_succ hx, List.getElem?_cons_succ, toBytes, Function.update_of_ne hx]
      rfl

end SharedMemory

/-- Serving a well-formed request is what a memory of bytes does. -/
theorem serve_eq_apply (m : SharedMemory) {q : MemoryRequest}
    (hop : q.op = MemoryOp.read ∨ q.op = MemoryOp.write) (hlen : q.data.length ≤ 65535) :
    (MemoryController.serve m q).1 = (ByteMemory.apply m.toBytes q).1 ∧
      (MemoryController.serve m q).2.toBytes = (ByteMemory.apply m.toBytes q).2 := by
  rw [MemoryController.serve, ByteMemory.apply]
  rcases hop with hop | hop
  · rw [if_pos hop, if_pos hop, m.read_eq_load]
    exact ⟨rfl, rfl⟩
  · have hread : q.op ≠ MemoryOp.read := by
      rw [hop]
      decide
    rw [if_neg hread, if_neg hread, if_pos hop]
    exact ⟨rfl, SharedMemory.toBytes_write (hlen.trans (by decide)) m q.address⟩

/-- Serving well-formed requests one after the other is what a memory of bytes does. -/
theorem history_serve {requests : List MemoryRequest}
    (h : ∀ q ∈ requests, (q.op = MemoryOp.read ∨ q.op = MemoryOp.write) ∧ q.data.length ≤ 65535)
    (m : SharedMemory) :
    history MemoryController.serve m requests = history ByteMemory.apply m.toBytes requests ∧
      (final MemoryController.serve m requests).toBytes =
        final ByteMemory.apply m.toBytes requests :=
  history_map MemoryController.serve ByteMemory.apply SharedMemory.toBytes
    (fun m _ hq ↦ serve_eq_apply m hq.1 hq.2) h m

end Manycore
