import SimbusNoc.Noc.Routes

/-!
# Messages and their packets

A message is what an accepted `send` hands over. `packetsOf` cuts it as `send` does, and
`resize_packetsOf` puts it together again as `recv` does.

## What fits

`send` casts the size to 32 bits, rounds it up to the width of the channel and divides, all in
32-bit arithmetic. `Sized` is the condition under which nothing is lost on the way: the rounded
size fits. Then the number of packets is the quotient rounded up, each packet carries its own index
and the count, and the slices cover the message. For larger messages the arithmetic wraps around.

## Reassembly

The last slice is padded with zeros up to the width of the channel, and `recv` cuts the bytes of
all packets back to the size that each packet carries. So cutting and putting together again give
back the message, whatever its length modulo the width is, and also for the empty message, which is
one packet.
-/

namespace Simbus

/-- An accepted message: the arguments of `send`, its number among the accepted ones, and the
tick. -/
structure Message where
  src : BusPortT
  dst : BusPortT
  cha : ChannelT
  data : Bytes
  serial : ℕ
  sentTick : ℕ
  deriving DecidableEq

namespace Message

variable (m : Message)

def flow : Flow := ⟨m.src, m.dst, m.cha⟩

/-- The transmission id, a 32-bit counter. -/
def xmtid : XmitIDT := m.serial % 2 ^ 32

end Message

namespace Bus

variable (b : Bus)

/-- The number of packets of a message. -/
def count (m : Message) : ℕ := b.pacCnt m.data.length m.cha

/-- Packet `i` of a message. -/
def pack (m : Message) (i : ℕ) : MsgPack where
  src := m.src
  dst := m.dst
  tgt := b.home m.dst
  cha := m.cha
  xmtid := m.xmtid
  len := m.data.length % 2 ^ 32
  pacIdx := i % 2 ^ 16
  pacCnt := b.count m % 2 ^ 16
  data := packData m.data (b.width m.cha) i
  txStartTick := m.sentTick
  serial := m.serial

def packetsOf (m : Message) : List MsgPack := (List.range (b.count m)).map (b.pack m)

/-- The message that `send` would accept in state `s`. -/
def draft (s : BusState) (port dstPort : BusPortT) (channel : ChannelT) (data : Bytes) : Message :=
  ⟨port, dstPort, channel, data, s.accepted, s.currentTick⟩

theorem packets_eq {s : BusState} (h : s.xmtidAlloc = s.accepted % 2 ^ 32)
    (port dstPort : BusPortT) (channel : ChannelT) (data : Bytes) :
    b.packets s port dstPort channel data = b.packetsOf (draft s port dstPort channel data) := by
  rw [packets, h]
  rfl

/-- The message fits the fields of its packets. -/
structure Sized (m : Message) : Prop where
  src : b.knownPort m.src = true
  dst : b.knownPort m.dst = true
  cha : m.cha < b.chaCnt
  size : m.data.length ≤ 2 ^ 32 - b.width m.cha
  count : b.count m ≤ 65535

variable {b} {m : Message}

theorem Sized.flow (h : b.Sized m) : b.KnownFlow m.flow := ⟨h.src, h.dst⟩

@[simp] theorem pack_flow (i : ℕ) : (b.pack m i).flow = m.flow := rfl

@[simp] theorem length_packetsOf : (b.packetsOf m).length = b.count m := by
  simp [packetsOf]

/-! ## The number of packets

The packets of a message are a function of it, so a state need not be looked at to know them.
-/

theorem width_bounds (hb : b.WellFormed) (c : ChannelT) :
    0 < b.width c ∧ b.width c ≤ 65536 := by
  rw [width, List.getD_eq_getElem?_getD]
  cases h : b.chaWidths[c]? with
  | none => simp
  | some w => exact hb.widths w (List.mem_of_getElem? h)

/-- The packet count is the size over the width, rounded up, and one for the empty message. -/
theorem pacCnt_eq (hb : b.WellFormed) {size : ℕ} (c : ChannelT)
    (hsize : size ≤ 2 ^ 32 - b.width c) :
    b.pacCnt size c = (max size 1 + b.width c - 1) / b.width c := by
  obtain ⟨hpos, hle⟩ := width_bounds hb c
  have hround : (max size 1 + b.width c - 1) / b.width c * b.width c < 2 ^ 32 :=
    lt_of_le_of_lt (Nat.div_mul_le_self _ _) (by omega)
  rw [pacCnt, alignUp, Nat.mod_eq_of_lt (a := max size 1) (by omega),
    Nat.mod_eq_of_lt (a := max size 1 + b.width c - 1) (by omega), Nat.mod_eq_of_lt hround,
    Nat.mul_div_cancel _ hpos]

theorem pacCnt_pos (hb : b.WellFormed) {size : ℕ} (c : ChannelT)
    (hsize : size ≤ 2 ^ 32 - b.width c) : 0 < b.pacCnt size c := by
  obtain ⟨hpos, -⟩ := width_bounds hb c
  rw [pacCnt_eq hb c hsize]
  exact Nat.div_pos (by omega) hpos

theorem le_pacCnt_mul (hb : b.WellFormed) {size : ℕ} (c : ChannelT)
    (hsize : size ≤ 2 ^ 32 - b.width c) : size ≤ b.pacCnt size c * b.width c := by
  obtain ⟨hpos, -⟩ := width_bounds hb c
  rw [pacCnt_eq hb c hsize]
  have hmod := Nat.div_add_mod (max size 1 + b.width c - 1) (b.width c)
  have hlt := Nat.mod_lt (max size 1 + b.width c - 1) hpos
  rw [Nat.mul_comm] at hmod
  omega

theorem Sized.count_pos (hb : b.WellFormed) (h : b.Sized m) : 0 < b.count m :=
  pacCnt_pos hb m.cha h.size

theorem Sized.pack_pacIdx (h : b.Sized m) {i : ℕ} (hi : i < b.count m) :
    (b.pack m i).pacIdx = i :=
  Nat.mod_eq_of_lt (by have := h.count; omega)

theorem Sized.pack_pacCnt (h : b.Sized m) (i : ℕ) : (b.pack m i).pacCnt = b.count m :=
  Nat.mod_eq_of_lt (by have := h.count; omega)

theorem mem_packetsOf {p : MsgPack} : p ∈ b.packetsOf m ↔ ∃ i < b.count m, b.pack m i = p := by
  simp [packetsOf]

theorem serial_of_mem_packetsOf {p : MsgPack} (h : p ∈ b.packetsOf m) : p.serial = m.serial := by
  obtain ⟨i, -, rfl⟩ := mem_packetsOf.mp h
  rfl

theorem flow_of_mem_packetsOf {p : MsgPack} (h : p ∈ b.packetsOf m) : p.flow = m.flow := by
  obtain ⟨i, -, rfl⟩ := mem_packetsOf.mp h
  rfl

theorem tgt_of_mem_packetsOf {p : MsgPack} (h : p ∈ b.packetsOf m) : p.tgt = b.home m.dst := by
  obtain ⟨i, -, rfl⟩ := mem_packetsOf.mp h
  rfl

theorem packetsOf_drop {i : ℕ} (h : i < b.count m) :
    (b.packetsOf m).drop i = b.pack m i :: (b.packetsOf m).drop (i + 1) := by
  rw [List.drop_eq_getElem_cons (by simpa using h)]
  simp [packetsOf]

theorem packetsOf_eq_cons (h : 0 < b.count m) :
    b.packetsOf m = b.pack m 0 :: (b.packetsOf m).drop 1 := by
  have hdrop := packetsOf_drop h
  rwa [List.drop_zero] at hdrop

theorem packetsOf_take {i : ℕ} (h : i < b.count m) :
    (b.packetsOf m).take (i + 1) = (b.packetsOf m).take i ++ [b.pack m i] := by
  rw [List.take_add_one, List.getElem?_eq_getElem (by simpa using h)]
  simp [packetsOf]

/-! ## Reassembly -/

/-- Consecutive slices of a message make up the message, padded with zeros. -/
theorem flatMap_packData (data : Bytes) {w n : ℕ} (h : n * w < 2 ^ 32) :
    (List.range n).flatMap (fun i ↦ packData data w i) =
      data.take (n * w) ++ List.replicate (n * w - data.length) 0 := by
  induction n with
  | zero => simp
  | succ n ih =>
    have hsucc : (n + 1) * w = n * w + w := Nat.succ_mul n w
    have hn : n * w < 2 ^ 32 := by omega
    rw [List.range_succ, List.flatMap_append, ih hn, hsucc]
    simp only [List.flatMap_cons, List.flatMap_nil, List.append_nil, packData, Nat.mod_eq_of_lt hn]
    rcases Nat.le_total (n * w) data.length with hle | hle
    · rw [Nat.sub_eq_zero_of_le hle, List.replicate_zero, List.append_nil, ← List.append_assoc,
        ← List.take_add, List.length_take, List.length_drop]
      congr 2
      omega
    · rw [List.drop_eq_nil_of_le hle, List.take_of_length_le hle,
        List.take_of_length_le (by simp), List.take_of_length_le (by omega), List.append_assoc]
      simp only [List.length_nil, Nat.sub_zero, List.nil_append,
        List.replicate_append_replicate]
      congr 2
      omega

/-- `recv` cuts the bytes of all packets back to the message. -/
theorem resize_packetsOf (hb : b.WellFormed) (h : b.Sized m) (i : ℕ) :
    resize ((b.packetsOf m).flatMap MsgPack.data) (b.pack m i).len = m.data := by
  obtain ⟨-, hw⟩ := width_bounds hb m.cha
  have hle : m.data.length ≤ b.count m * b.width m.cha := le_pacCnt_mul hb m.cha h.size
  have hlt : b.count m * b.width m.cha < 2 ^ 32 :=
    calc b.count m * b.width m.cha
        ≤ 65535 * 65536 := Nat.mul_le_mul h.count hw
      _ < 2 ^ 32 := by decide
  have hdata : (b.packetsOf m).flatMap MsgPack.data =
      m.data ++ List.replicate (b.count m * b.width m.cha - m.data.length) 0 := by
    rw [packetsOf, List.flatMap_map]
    exact (flatMap_packData m.data hlt).trans (by rw [List.take_of_length_le hle])
  have hlen : (b.pack m i).len = m.data.length := Nat.mod_eq_of_lt (by have := h.size; omega)
  rw [hdata, hlen, resize, List.take_left' rfl]
  simp

end Bus

end Simbus
