import Mathlib.Algebra.Order.Floor.Div
import SimbusNoc.Noc.Drain

/-!
# The packet count of `send`

`send` casts the size of a message to 32 bits, adds the width less one and divides. Up to 65535
packets the count is exact. Beyond that the message is to be refused, but the check comes after the
cast and the sum, either of which can wrap, and then the count that is checked is too small: the
message is accepted and cut into too few packets, or into none.

`packetsNeeded` is the count that the message needs, in unbounded arithmetic, and `CutsWhole` what
is owed to the caller: the whole message is queued, or the call throws and changes nothing. The
theorem is an equivalence between this and a condition on the size and the width, for every bus and
every state in which only the size can be in the way. A message of `2 ^ 32` bytes shows that the
condition is not always met.
-/

namespace Simbus

namespace Bus

variable {b : Bus} {s s' : BusState} {port dst : BusPortT} {c : ChannelT} {data : Bytes}

/-- The packets that `n` bytes take up on a channel of width `w`; one for the empty message. -/
def packetsNeeded (n w : ℕ) : ℕ := max 1 (n ⌈/⌉ w)

/-- A call of `send` that can go through queues the whole message or, if it needs too many packets,
throws and changes nothing. -/
structure CutsWhole (b : Bus) (s : BusState) (port dst : BusPortT) (c : ChannelT) (data : Bytes) :
    Prop where
  queues : ∀ s', b.send s port dst c data = .ok (true, s') →
    ((s'.ports port).sendBuf c).length = packetsNeeded data.length (b.width c) ∧
      ((s'.ports port).sendBuf c).flatMap MsgPack.data = data ++ List.replicate
        (packetsNeeded data.length (b.width c) * b.width c - data.length) 0
  refuses : 65535 < packetsNeeded data.length (b.width c) →
    ∃ e, b.perform s (.send port dst c data) = (.sendThrew e, s)

/-! ## The count

`pac_cnt` rounds up by adding the width less one, in 32 bits. In exact arithmetic this is the
quotient rounded up, and it is so here as long as neither the sum nor the count wraps.
-/

theorem packetsNeeded_eq {n w : ℕ} (hw : 0 < w) :
    packetsNeeded n w = (max n 1 + w - 1) / w := by
  rw [packetsNeeded, Nat.ceilDiv_eq_add_pred_div]
  rcases Nat.eq_zero_or_pos n with rfl | hn
  · have hzero : (0 + w - 1) / w = 0 := Nat.div_eq_of_lt (by omega)
    have hone : (max 0 1 + w - 1) / w = 1 := by
      rw [Nat.zero_max, Nat.add_sub_cancel_left, Nat.div_self hw]
    rw [hzero, hone, Nat.max_zero]
  · rw [Nat.max_eq_left hn, Nat.max_eq_right]
    exact Nat.div_pos (by omega) hw

theorem le_packetsNeeded_mul (n : ℕ) {w : ℕ} (hw : 0 < w) : n ≤ packetsNeeded n w * w := by
  have hdiv := Nat.div_add_mod (max n 1 + w - 1) w
  have hmod := Nat.mod_lt (max n 1 + w - 1) hw
  rw [packetsNeeded_eq hw, Nat.mul_comm]
  omega

theorem packetsNeeded_le_iff {n w : ℕ} (hw : 0 < w) :
    packetsNeeded n w ≤ 65535 ↔ n ≤ 65535 * w := by
  rw [packetsNeeded_eq hw, ← Nat.lt_succ_iff, Nat.div_lt_iff_lt_mul hw]
  omega

/-- What the code computes: the rounding up is in 32 bits. -/
theorem pacCnt_eq_div (hw : 0 < b.width c) (n : ℕ) :
    b.pacCnt n c = (max n 1 % 2 ^ 32 + b.width c - 1) % 2 ^ 32 / b.width c := by
  have hround : (max n 1 % 2 ^ 32 + b.width c - 1) % 2 ^ 32 / b.width c * b.width c < 2 ^ 32 :=
    (Nat.div_mul_le_self _ _).trans_lt (Nat.mod_lt _ (by decide))
  rw [pacCnt, alignUp, Nat.mod_eq_of_lt hround, Nat.mul_div_cancel _ hw]

/-- Up to 65535 packets nothing wraps. -/
theorem pacCnt_eq_packetsNeeded (hw : 0 < b.width c) (hle : b.width c ≤ 65536) {n : ℕ}
    (hn : n ≤ 65535 * b.width c) : b.pacCnt n c = packetsNeeded n (b.width c) := by
  rw [pacCnt_eq_div hw, packetsNeeded_eq hw, Nat.mod_eq_of_lt (a := max n 1) (by omega),
    Nat.mod_eq_of_lt (a := max n 1 + b.width c - 1) (by omega)]

/-- Beyond that the check sees the size modulo 2^32, and a sum that wraps makes it small. -/
theorem lt_pacCnt_iff (hw : 0 < b.width c) (hle : b.width c ≤ 65536) {n : ℕ}
    (hn : 65535 * b.width c < n) :
    65535 < b.pacCnt n c ↔ 65535 * b.width c < n % 2 ^ 32 ∧ n % 2 ^ 32 + b.width c ≤ 2 ^ 32 := by
  have hlt : n % 2 ^ 32 < 2 ^ 32 := Nat.mod_lt _ (by decide)
  rw [pacCnt_eq_div hw, Nat.max_eq_left (by omega), ← Nat.succ_le_iff, Nat.le_div_iff_mul_le hw]
  by_cases hfits : n % 2 ^ 32 + b.width c ≤ 2 ^ 32
  · rw [Nat.mod_eq_of_lt (a := n % 2 ^ 32 + b.width c - 1) (by omega)]
    omega
  · have hwrap : (n % 2 ^ 32 + b.width c - 1) % 2 ^ 32 = n % 2 ^ 32 + b.width c - 1 - 2 ^ 32 := by
      rw [Nat.mod_eq_sub_mod (by omega), Nat.mod_eq_of_lt (by omega)]
    rw [hwrap]
    omega

/-! ## The call

The check of `send` compares the count with the limit, and the count is what is written into the
packets.
-/

/-- Where nothing but the size can be in the way, the count decides. -/
theorem send_of_free (hport : b.knownPort port = true) (hdst : b.knownPort dst = true)
    (hc : c < b.chaCnt) (hslots : b.config.receiveMessageSlots = 0)
    (hfree : b.canSendNow s port c = true) :
    b.send s port dst c data =
      if b.pacCnt data.length c ≤ 65535 then
        .ok (true, enqueue s port c (b.packets s port dst c data))
      else .error "message is too large for 16-bit packet index/count fields" := by
  have hreserve : b.reserve s dst c = s := by rw [reserve, if_pos hslots]
  rw [send, hreserve]
  simp only [validatePort, hport, validateChannel, hdst, decide_eq_true hc, hfree, hslots]
  by_cases hcnt : b.pacCnt data.length c ≤ 65535
  · simp [hcnt, bind, Except.bind, pure, Except.pure]
  · simp [hcnt, bind, Except.bind]

theorem sendBuf_of_canSendNow (hfree : b.canSendNow s port c = true) :
    (s.ports port).sendBuf c = [] := by
  rw [canSendNow, Bool.and_eq_true, List.isEmpty_iff] at hfree
  exact hfree.1

/-- A message of at most 65535 packets is queued whole. -/
private theorem cutsWhole_of_le (hport : b.knownPort port = true) (hdst : b.knownPort dst = true)
    (hc : c < b.chaCnt) (hw : 1 ≤ b.width c) (hle : b.width c ≤ 65536)
    (hslots : b.config.receiveMessageSlots = 0) (hfree : b.canSendNow s port c = true)
    (hn : data.length ≤ 65535 * b.width c) : b.CutsWhole s port dst c data := by
  have hcnt := pacCnt_eq_packetsNeeded hw hle hn
  have hfew := (packetsNeeded_le_iff hw).mpr hn
  refine ⟨fun s' hs' ↦ ?_, fun hmany ↦ absurd hfew (Nat.not_le.mpr hmany)⟩
  rw [send_of_free hport hdst hc hslots hfree, if_pos (hcnt ▸ hfew)] at hs'
  obtain rfl := (Prod.mk.inj (Except.ok.inj hs')).2
  rw [sendBuf_enqueue_self, sendBuf_of_canSendNow hfree, List.nil_append]
  have hfits : packetsNeeded data.length (b.width c) * b.width c < 2 ^ 32 :=
    calc packetsNeeded data.length (b.width c) * b.width c
        ≤ 65535 * 65536 := Nat.mul_le_mul hfew hle
      _ < 2 ^ 32 := by decide
  have hwhole := le_packetsNeeded_mul data.length hw
  constructor
  · rw [packets, List.length_map, List.length_range, hcnt]
  · rw [packets, hcnt, List.flatMap_map]
    exact (flatMap_packData data hfits).trans (by rw [List.take_of_length_le hwhole])

/-- A message of more packets has to be refused. -/
private theorem cutsWhole_iff_of_lt (hport : b.knownPort port = true)
    (hdst : b.knownPort dst = true) (hc : c < b.chaCnt) (hw : 1 ≤ b.width c)
    (hslots : b.config.receiveMessageSlots = 0) (hfree : b.canSendNow s port c = true)
    (hn : 65535 * b.width c < data.length) :
    b.CutsWhole s port dst c data ↔ 65535 < b.pacCnt data.length c := by
  have hmany : 65535 < packetsNeeded data.length (b.width c) :=
    Nat.lt_of_not_le (mt (packetsNeeded_le_iff hw).mp (Nat.not_le.mpr hn))
  have hsend : b.send s port dst c data = _ := send_of_free hport hdst hc hslots hfree
  constructor
  · intro h
    obtain ⟨e, he⟩ := h.refuses hmany
    by_contra hcnt
    rw [perform, hsend, if_pos (Nat.le_of_not_lt hcnt)] at he
    cases (Prod.mk.inj he).1
  · intro hcnt
    rw [if_neg (Nat.not_le.mpr hcnt)] at hsend
    refine ⟨fun s' hs' ↦ ?_, fun _ ↦ ⟨_, by rw [perform, hsend]⟩⟩
    rw [hsend] at hs'
    cases hs'

/-- `send` cuts the messages of at most 65535 packets as it should, and of the larger ones it
refuses those whose size modulo 2^32 needs more than 65535 packets and can be rounded up in 32
bits. -/
theorem cutsWhole_iff (hport : b.knownPort port = true) (hdst : b.knownPort dst = true)
    (hc : c < b.chaCnt) (hw : 1 ≤ b.width c) (hle : b.width c ≤ 65536)
    (hslots : b.config.receiveMessageSlots = 0) (hfree : b.canSendNow s port c = true) :
    b.CutsWhole s port dst c data ↔
      data.length ≤ 65535 * b.width c ∨
        65535 * b.width c < data.length % 2 ^ 32 ∧
          data.length % 2 ^ 32 + b.width c ≤ 2 ^ 32 := by
  rcases Nat.lt_or_ge (65535 * b.width c) data.length with hn | hn
  · rw [cutsWhole_iff_of_lt hport hdst hc hw hslots hfree hn, lt_pacCnt_iff hw hle hn,
      or_iff_right (Nat.not_le.mpr hn)]
  · exact iff_of_true (cutsWhole_of_le hport hdst hc hw hle hslots hfree hn) (.inl hn)

theorem cutsWhole_iff_open :
    openBus.CutsWhole {} 0 1 0 [7, 8, 9, 10, 11] ↔
      5 ≤ 65535 * 4 ∨ 65535 * 4 < 5 % 2 ^ 32 ∧ 5 % 2 ^ 32 + 4 ≤ 2 ^ 32 :=
  cutsWhole_iff (b := openBus) rfl rfl (by decide) (by decide) (by decide) rfl rfl

/-- A message of 2^32 bytes is cast to the size zero and accepted without a packet. -/
theorem not_cutsWhole_open :
    construct .insertion [0, 1] [0, 1] [4] pairRoute openConfig = .ok openBus ∧
      ¬openBus.CutsWhole {} 0 1 0 (List.replicate (2 ^ 32) 0) := by
  refine ⟨construct_openBus, fun h ↦ ?_⟩
  generalize hdata : List.replicate (2 ^ 32) (0 : UInt8) = data at h
  have hlength : data.length = 2 ^ 32 := by rw [← hdata, List.length_replicate]
  obtain ⟨s, hsent, -, -⟩ := perform_oversized hlength
  have hmany : 65535 < packetsNeeded data.length (openBus.width 0) := by
    have hwidth : openBus.width 0 = 4 := rfl
    rw [hlength, hwidth, packetsNeeded_eq (by decide)]
    decide
  obtain ⟨e, he⟩ := h.refuses hmany
  rw [hsent] at he
  cases (Prod.mk.inj he).1

end Bus

end Simbus
