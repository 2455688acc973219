import SimbusNoc.Manycore.DecodeFacts
import SimbusNoc.Manycore.VectorAccess
import SimbusNoc.Manycore.VectorBlocks
import SimbusNoc.Manycore.VectorFile

/-!
# The sub-transactions of a vector access

What the core sends for a vector access tiles the bytes of its elements in ascending order, each
request with at most 8 bytes. A request lies in one aligned block of 8 bytes, except where the base
address lets elements lie across blocks: the loops that merge look at the first bytes only, and the
library has split the elements for another address.

`Respects` is the promise and `ElementsFit` the exact condition for it, in every course that the
access may take, with any bus. The requests sent so far are the first of the plan
(`Requesting.sent`), and the plan tiles the bytes from `firstByte` to `endByte`. So the requests
are always in ascending order and of the right sizes. That a request stays within one block is then
a matter of the elements: a block that crosses a boundary has an element that does, and the other
way round.
-/

namespace Manycore.Rv64AtomicCore

open Simbus Rv64archsem Tiling

variable {k : Rv64Hart} {c c' : Rv64AtomicCore} {inst : DecodedInst} {instWord : UInt32}
  {decodeRvc : UInt32 → Option DecodedInst} {isLoad : Bool} {buffer : List UInt64}
  {plan : List SubTransaction}

/-! ## The statement -/

/-- The core's requests since it was in state `c`. -/
def sentSince (c c' : Rv64AtomicCore) : List MemoryRequest :=
  c'.trace.transactions.drop c.trace.transactions.length

/-- All bytes of the request are in one aligned block of 8 bytes. -/
def OneBlock (q : MemoryRequest) : Prop :=
  ∀ i < q.size.toNat, (q.address + UInt64.ofNat i) / 8 = q.address / 8

/-- The first byte of a request, counted from the base address. -/
def offsetFrom (base : UInt64) (q : MemoryRequest) : ℕ := (q.address - base).toNat

/-- The requests have between 1 and 8 bytes each, and they are disjoint and in ascending order. -/
structure Ascending (base : UInt64) (l : List MemoryRequest) : Prop where
  size : ∀ q ∈ l, 1 ≤ q.size.toNat ∧ q.size.toNat ≤ 8
  within : ∀ q ∈ l, offsetFrom base q + q.size.toNat ≤ 256
  ordered : l.Pairwise fun p q ↦ offsetFrom base p + p.size.toNat ≤ offsetFrom base q

/-- The base address of the access. -/
def accessBase (c : Rv64AtomicCore) : UInt64 := c.x c.instruction.decoded.rs1

/-- What the sub-transactions of an access are to be. -/
def Respects (c c' : Rv64AtomicCore) : Prop :=
  Ascending c.accessBase (sentSince c c') ∧ ∀ q ∈ sentSince c c', OneBlock q

/-- All requests of the access have been sent. -/
def AllSent (c' : Rv64AtomicCore) : Prop :=
  c'.state = .memoryWait ∧ c'.moreVectorRequests = false

/-- Where element `i` goes to or comes from, counted from the base address. A store begins there
whatever its first element is. -/
def elementOffset (c : Rv64AtomicCore) (i : ℕ) : ℕ :=
  if c.instruction.decoded.controlType = .vload then i * c.vectorContext.sew.bytes
  else (i - c.vectorContext.vstart.toNat) * c.vectorContext.sew.bytes

/-- The first element, if it were at the base address, would lie across two blocks, or none of the
elements does. -/
def ElementsFit (c : Rv64AtomicCore) : Prop :=
  c.accessBase.toNat % 8 + c.vectorContext.sew.bytes ≤ 8 →
    ∀ i, c.vectorContext.vstart.toNat ≤ i → i < c.vectorContext.vl.toNat →
      (c.accessBase.toNat + c.elementOffset i) % 8 + c.vectorContext.sew.bytes ≤ 8

/-! ## Blocks and words -/

theorem oneBlock_iff {q : MemoryRequest} (hsize : q.size.toNat ≤ 8) :
    OneBlock q ↔ q.address.toNat % 8 + q.size.toNat ≤ 8 := by
  have hdiv : ∀ i ≤ 8, ((q.address + UInt64.ofNat i) / 8 = q.address / 8 ↔
      (q.address.toNat + i) % 2 ^ 64 / 8 = q.address.toNat / 8) := by
    intro i hi
    have hnat : (UInt64.ofNat i).toNat = i := UInt64.toNat_ofNat_of_lt' (hi.trans_lt (by decide))
    rw [← UInt64.toNat_inj, UInt64.toNat_div, UInt64.toNat_div, UInt64.toNat_add, hnat]
    rfl
  have haddress := q.address.toNat_lt
  constructor
  · intro h
    by_contra hlong
    have hlast := (hdiv (8 - q.address.toNat % 8) (by omega)).mp (h _ (by omega))
    omega
  · intro h i hi
    rw [hdiv i (by omega)]
    omega

/-! ## The plan of an access

The descriptors that the core plans are tiles of the bytes of the access. Their addresses follow
each other from the base address on.
-/

theorem fields_of_isPlainVectorAccess (h : isPlainVectorAccess inst = true) :
    fields inst = [0] := by
  rw [isPlainVectorAccess, Bool.not_eq_true', Bool.or_eq_false_iff, Bool.not_eq_false',
    beq_iff_eq] at h
  have hfields : inst.funct7.toNat / 16 % 8 = 0 := by
    have hnat := congrArg UInt8.toNat h.2
    rw [UInt8.toNat_and, UInt8.toNat_shiftRight] at hnat
    have hmod : inst.funct7.toNat >>> 4 &&& 2 ^ 3 - 1 = 0 := hnat
    rwa [Nat.and_two_pow_sub_one_eq_mod, Nat.shiftRight_eq_div_pow] at hmod
  rw [fields, hfields]
  rfl

theorem getElementBytes_elementView {vctx : VecContext} {n : ℕ}
    (h : vectorMemoryElementBytes inst = .ok n) :
    getElementBytes vctx (elementView inst.funct3) = n := by
  rw [vectorMemoryElementBytes] at h
  split at h
  all_goals try cases h
  all_goals
    next heq =>
      rw [elementView, heq]
      rfl

/-- The first byte of the access, from the base address. -/
def firstByte (c : Rv64AtomicCore) : ℕ :=
  if c.instruction.decoded.controlType = .vload then
    c.vectorContext.vstart.toNat * c.vectorContext.sew.bytes
  else 0

/-- The end of the access. -/
def endByte (c : Rv64AtomicCore) : ℕ :=
  c.firstByte +
    (c.vectorContext.vl.toNat - c.vectorContext.vstart.toNat) * c.vectorContext.sew.bytes

/-- A sub-transaction is a block of the access. -/
def IsBlock (c : Rv64AtomicCore) (reach p : ℕ) (t : SubTransaction) : Prop :=
  Block c.accessBase c.vectorContext.sew.bytes reach p t.address t.size.toNat ∧
    (c.instruction.decoded.controlType = .vload → t.regOffset = p)

theorem endByte_le (hok : c.setting.Ok) (h : c.firstByte < c.endByte) : c.endByte ≤ 256 := by
  obtain ⟨count, hcount, hbytes⟩ := hok.bytes_le
  have hcount8 := vectorGroupRegisters_le hcount
  rw [endByte] at h ⊢
  have hpos := Nat.pos_of_mul_pos_right (a := _) (by omega : 0 <
    (c.vectorContext.vl.toNat - c.vectorContext.vstart.toNat) * c.vectorContext.sew.bytes)
  rw [firstByte]
  split_ifs
  · rw [← Nat.add_mul, Nat.add_sub_cancel' (by omega)]
    omega
  · rw [Nat.zero_add]
    have := Nat.mul_le_mul_right c.vectorContext.sew.bytes
      (Nat.sub_le c.vectorContext.vl.toNat c.vectorContext.vstart.toNat)
    omega

theorem Plans.tiles {reach : ℕ} (hlow : instWord &&& 0x3 = 0x3)
    (hdecode : decode decodeRvc instWord = some inst) (hpending : Fetched c inst instWord)
    (hok : c.setting.Ok) (hreach : reach < 8)
    (hfits : Fits c.accessBase c.vectorContext.sew.bytes reach c.firstByte c.endByte)
    (h : Plans c isLoad buffer plan) :
    Tiles (fun t : SubTransaction ↦ t.size.toNat) (IsBlock c reach) c.firstByte plan
      c.endByte := by
  have hinst : c.instruction.decoded = inst := congrArg _ hpending.instruction_eq
  have hw := isWidth_bytes c.vectorContext.sew
  obtain ⟨count, hcount, hbytes⟩ := hok.bytes_le
  cases h with
  | load hcontrol hname hplain hwidth hparse hbuffer =>
    have hloadv := isLoadv_of_vload hlow hdecode (hinst ▸ hcontrol)
    have hview := (hloadv.unitStride (hinst ▸ hname)).2
    rw [← hinst] at hview
    have hfirst : c.firstByte = c.vectorContext.vstart.toNat * c.vectorContext.sew.bytes :=
      if_pos hcontrol
    -- The library's pieces tile the elements, and placing and merging them keeps that.
    have hpieces := tiles_parseLoadVector (fields_of_isPlainVectorAccess hplain)
      (hview ▸ getElementBytes_elementView hwidth) hw
      (by have := vectorGroupRegisters_le hcount; exact hbytes.trans (by omega)) hparse
    rw [endByte, hfirst] at hfits ⊢
    refine (tiles_normalizeUnitStrideLoads hw hreach hfits hpieces).map fun p d hd ↦ ?_
    exact ⟨⟨hd.1, fun _ ↦ hd.2⟩, rfl⟩
  | @store operand data descriptors hcontrol hname hplain hwidth hdata hparse =>
    have hstorev := isStorev_of_vstore hlow hdecode (hinst ▸ hcontrol)
    have hview := (hstorev.unitStride (hinst ▸ hname)).2.2.1
    rw [← hinst] at hview
    have hnotLoad : c.instruction.decoded.controlType ≠ .vload := fun h ↦ by
      cases h.symm.trans hcontrol
    -- The addresses of a store begin at the base whatever its first element is.
    have hfirst : c.firstByte = 0 := if_neg hnotLoad
    have hpieces := tiles_parseStoreVector (fields_of_isPlainVectorAccess hplain)
      (w := c.vectorContext.sew.bytes) (by rw [hview]; rfl) hw
      (by
        rw [length_wordBytes, length_readVectorGroup hcount hdata]
        exact hbytes.trans (by omega)) hparse
    rw [endByte, hfirst, Nat.zero_add] at hfits ⊢
    refine (tiles_normalizeUnitStrideStores hw hreach hfits hpieces).map fun p d hd ↦ ?_
    have hsize : (UInt16.ofNat d.rawData.length).toNat = d.rawData.length := by
      have hword := hd.1.word
      exact UInt16.toNat_ofNat_of_lt' (by have : UInt16.size = 65536 := rfl; omega)
    refine ⟨⟨?_, fun h ↦ absurd h hnotLoad⟩, hsize⟩
    change Block _ _ _ _ _ (UInt16.ofNat d.rawData.length).toNat
    rw [hsize]
    exact hd.1

/-! ## What has been sent

The requests that the core has sent are those of the plan, in its order, up to the one under way.
-/

theorem sentSince_of_transactions {sent : List MemoryRequest}
    (h : c'.trace.transactions = c.trace.transactions ++ sent) : sentSince c c' = sent := by
  rw [sentSince, h, List.drop_left]

/-- The requests so far are the first of the plan. -/
theorem Requesting.sent {done : Replies} {t : SubTransaction} {q : MemoryRequest}
    (h : Requesting c buffer plan done t q c') : ∃ asked rest, plan = asked ++ rest ∧
      List.Forall₂ SubTransaction.Asks asked (sentSince c c') ∧ (AllSent c' → rest = []) := by
  have hdone : List.Forall₂ SubTransaction.Asks (done.map Prod.fst) (done.map (·.2.1)) := by
    rw [List.forall₂_map_left_iff, List.forall₂_map_right_iff, List.forall₂_same]
    exact fun x hx ↦ (h.served x hx).asks
  have htransactions := h.transactions
  rcases h.state with hstate | hstate
  · rw [hstate, if_neg (by decide), List.append_nil] at htransactions
    refine ⟨_, _, h.plan_eq, ?_, fun hall ↦ ?_⟩
    · rw [sentSince_of_transactions htransactions]
      exact hdone
    · cases hstate.symm.trans hall.1
  · rw [if_pos hstate, List.append_assoc] at htransactions
    refine ⟨done.map Prod.fst ++ [t], c'.queue, ?_, ?_, fun hall ↦ ?_⟩
    · rw [h.plan_eq, List.append_assoc]
      rfl
    · rw [sentSince_of_transactions htransactions]
      exact List.rel_append hdone (.cons h.asks .nil)
    · have hmore := hall.2
      rw [moreVectorRequests_eq] at hmore
      simpa using hmore

/-- The requests tile the first bytes of the access, and all of them when all have been sent. -/
theorem Accessing.tiles {reach : ℕ} (hlow : instWord &&& 0x3 = 0x3)
    (hdecode : decode decodeRvc instWord = some inst) (hreachable : Reachable k c)
    (hpending : Fetched c inst instWord) (h : Accessing k c c') (hreach : reach < 8)
    (hfits : Fits c.accessBase c.vectorContext.sew.bytes reach c.firstByte c.endByte) :
    ∃ m ≤ c.endByte, (AllSent c' → m = c.endByte) ∧ Tiles (fun q : MemoryRequest ↦ q.size.toNat)
      (fun p q ↦ Block c.accessBase c.vectorContext.sew.bytes reach p q.address q.size.toNat ∧ True)
      c.firstByte (sentSince c c') m := by
  obtain ⟨buffer, plan, done, t, q, hrequesting⟩ := h.underway hreachable
  have htiles := hrequesting.plans.tiles hlow hdecode hpending hreachable.setting_ok hreach hfits
  obtain ⟨asked, rest, hplan, hasked, hall⟩ := hrequesting.sent
  rw [hplan] at htiles
  obtain ⟨m, hfirst, hrest⟩ := htiles.of_append
  refine ⟨m, hrest.le, fun h ↦ ?_, hfirst.forall₂ hasked fun p t q ht hq ↦ ?_⟩
  · rw [hall h] at hrest
    cases hrest
    rfl
  · rw [hq.address, hq.size]
    exact ⟨⟨ht.1, trivial⟩, rfl⟩

theorem Accessing.ascending (hlow : instWord &&& 0x3 = 0x3)
    (hdecode : decode decodeRvc instWord = some inst) (hreachable : Reachable k c)
    (hpending : Fetched c inst instWord) (h : Accessing k c c') :
    Ascending c.accessBase (sentSince c c') := by
  have hw := isWidth_bytes c.vectorContext.sew
  obtain ⟨m, hm, -, htiles⟩ := h.tiles hlow hdecode hreachable hpending (slack_lt hw)
    (fits_slack _ hw _ _)
  have hend : ∀ {p n : ℕ}, c.firstByte ≤ p → 0 < n → p + n ≤ m → p + n ≤ 256 :=
    fun hp hn hpn ↦ (hpn.trans hm).trans
      (endByte_le hreachable.setting_ok (by omega))
  have hplace : ∀ p (q : MemoryRequest), (Block c.accessBase c.vectorContext.sew.bytes
      (slack c.accessBase c.vectorContext.sew.bytes) p q.address q.size.toNat ∧ True) ∧
      c.firstByte ≤ p ∧ p + q.size.toNat ≤ m → offsetFrom c.accessBase q = p := by
    rintro p q ⟨⟨hblock, -⟩, hp, hpq⟩
    have := hend hp hblock.pos hpq
    rw [offsetFrom, hblock.addr, toNat_add_ofNat_sub (by omega)]
  constructor
  · intro q hq
    obtain ⟨p, -, -, hblock, -⟩ := htiles.exists_place q hq
    exact ⟨hblock.pos, hblock.size_le hw⟩
  · intro q hq
    obtain ⟨p, -, -, hwithin⟩ := htiles.within.exists_place q hq
    rw [hplace p q hwithin]
    exact hend hwithin.2.1 hwithin.1.1.pos hwithin.2.2
  · exact htiles.within.pairwise hplace

theorem exists_element_iff {e : ℕ} :
    (c.firstByte ≤ e * c.vectorContext.sew.bytes ∧ e * c.vectorContext.sew.bytes < c.endByte) ↔
      ∃ i, c.vectorContext.vstart.toNat ≤ i ∧ i < c.vectorContext.vl.toNat ∧
        c.elementOffset i = e * c.vectorContext.sew.bytes := by
  have hpos := (isWidth_bytes c.vectorContext.sew).pos_le.1
  simp only [endByte, firstByte, elementOffset]
  split_ifs
  · rw [← Nat.add_mul, Nat.mul_le_mul_right_iff hpos, Nat.mul_lt_mul_right hpos]
    constructor
    · rintro ⟨hfirst, hend⟩
      exact ⟨e, hfirst, by omega, rfl⟩
    · rintro ⟨i, hfirst, hend, hi⟩
      obtain rfl := Nat.eq_of_mul_eq_mul_right hpos hi
      omega
  · rw [Nat.zero_add, Nat.mul_lt_mul_right hpos]
    constructor
    · rintro ⟨-, hend⟩
      exact ⟨c.vectorContext.vstart.toNat + e, by omega, by omega, by rw [Nat.add_sub_cancel_left]⟩
    · rintro ⟨i, hfirst, hend, hi⟩
      obtain rfl := Nat.eq_of_mul_eq_mul_right hpos hi
      omega

theorem fits_iff_elementsFit :
    Fits c.accessBase c.vectorContext.sew.bytes 0 c.firstByte c.endByte ↔ ElementsFit c := by
  refine imp_congr_right fun _ ↦ ⟨fun h i hi hi' ↦ ?_, fun h e he he' ↦ ?_⟩
  · obtain ⟨e, he⟩ : ∃ e, c.elementOffset i = e * c.vectorContext.sew.bytes := by
      rw [elementOffset]
      split_ifs <;> exact ⟨_, rfl⟩
    obtain ⟨hfirst, hend⟩ := exists_element_iff.mpr ⟨i, hi, hi', he⟩
    rw [he]
    exact h e hfirst hend
  · obtain ⟨i, hi, hi', hoffset⟩ := exists_element_iff.mp ⟨he, he'⟩
    rw [← hoffset]
    exact h i hi hi'

/-- The sub-transactions of an access respect the blocks exactly where its elements do. -/
theorem respects_iff (hlow : instWord &&& 0x3 = 0x3)
    (hdecode : decode decodeRvc instWord = some inst) (hreachable : Reachable k c)
    (hpending : Fetched c inst instWord) (h : Accessing k c c') :
    (ElementsFit c → Respects c c') ∧ (AllSent c' → Respects c c' → ElementsFit c) := by
  have hascending := h.ascending hlow hdecode hreachable hpending
  rw [← fits_iff_elementsFit]
  constructor
  · intro hfits
    obtain ⟨m, -, -, htiles⟩ := h.tiles hlow hdecode hreachable hpending (by decide) hfits
    exact ⟨hascending, fun q hq ↦
      (oneBlock_iff (hascending.size q hq).2).mpr (inWord_of_tiles htiles q hq)⟩
  · intro hall hrespects
    have hw := isWidth_bytes c.vectorContext.sew
    obtain ⟨m, -, hm, htiles⟩ := h.tiles hlow hdecode hreachable hpending (slack_lt hw)
      (fits_slack _ hw _ _)
    rw [hm hall] at htiles
    exact fits_of_inWord htiles fun q hq ↦
      (oneBlock_iff (hascending.size q hq).2).mp (hrespects.2 q hq)

/-! ## Two loads -/

/-- The core in the next tick, when its adapter has had its turn. -/
def accessStart (k : Rv64Hart) (n : ℕ) : Rv64AtomicCore :=
  ((runAnswered k n).1.tickMmio answeringBus k 0 1 (runAnswered k n).2).1

theorem reachable_accessStart (hissue : k.latency.vectorTransactionIssue ≠ 0) {n : ℕ}
    (h : ∀ i < n, returnsAnswered k i = true) : Reachable k (accessStart k n) :=
  (reachable_runAnswered hissue h).turn (.adapter answeringBus 0 1 _)

theorem accessing_runAnswered {n m : ℕ} (h : ∀ i < n + m + 1, returnsAnswered k i = true)
    (hstate : (accessStart k n).state = .executeWait)
    (hcontrol : (accessStart k n).instruction.decoded.controlType = .vload)
    (hactive : ∀ i < m + 1, (runAnswered k (n + i + 1)).1.vectorMemoryActive = true ∧
      (accessStart k (n + i + 1)).vectorMemoryActive = true) :
    Accessing k (accessStart k n) (runAnswered k (n + m + 1)).1 := by
  have hturn : ∀ i < n + m + 1, Turn k (accessStart k i) (runAnswered k (i + 1)).1 :=
    fun i hi ↦ .core answeringBus 0 1 _ (tick_runAnswered (h i hi))
  induction m with
  | zero => exact .start hstate (.inl hcontrol) (hturn n (Nat.lt_succ_self n)) (hactive 0 one_pos).1
  | succ m ih =>
    have hbefore := ih (fun i hi ↦ h i (Nat.lt_succ_of_lt hi))
      (fun i hi ↦ hactive i (Nat.lt_succ_of_lt hi)) fun i hi ↦ hturn i (Nat.lt_succ_of_lt hi)
    exact (hbefore.turn (.adapter answeringBus 0 1 _)
      (hactive m (Nat.lt_succ_of_lt (Nat.lt_succ_self m))).2).turn
        (hturn _ (Nat.lt_succ_self _)) (hactive (m + 1) (Nat.lt_succ_self _)).1

/-- `vle32.v v1, (x5)` after a word that configures the vector unit. -/
def accessHart (instWord : UInt32) : Rv64Hart := .ofWords [instWord, 0x0202e087]

/-- `vsetivli x5, 4, e32, m1`: four elements from address 4 on. -/
def alignedHart : Rv64Hart := accessHart 0xc10272d7

/-- Three requests make up the access, each of them in one block. -/
theorem respects_aligned :
    (sentSince (accessStart alignedHart 3) (runAnswered alignedHart 9).1).map
      (fun q ↦ (q.address, q.size)) = [(4, 4), (8, 8), (16, 4)] ∧
    AllSent (runAnswered alignedHart 9).1 ∧
    Respects (accessStart alignedHart 3) (runAnswered alignedHart 9).1 := by
  have hreturns : ∀ i < 9, returnsAnswered alignedHart i = true := by decide +kernel
  have hactive : ∀ i < 6, (runAnswered alignedHart (3 + i + 1)).1.vectorMemoryActive = true ∧
      (accessStart alignedHart (3 + i + 1)).vectorMemoryActive = true := by decide +kernel
  have haccessing : Accessing alignedHart (accessStart alignedHart 3)
    (runAnswered alignedHart 9).1 :=
    @accessing_runAnswered alignedHart 3 5 hreturns (by decide +kernel) (by decide +kernel) hactive
  have hfit : ElementsFit (accessStart alignedHart 3) := by
    have hall : ∀ i < (accessStart alignedHart 3).vectorContext.vl.toNat,
        ((accessStart alignedHart 3).accessBase.toNat +
          (accessStart alignedHart 3).elementOffset i) % 8 +
            (accessStart alignedHart 3).vectorContext.sew.bytes ≤ 8 := by decide +kernel
    exact fun _ i _ hi ↦ hall i hi
  have hdecode : decode (fun _ ↦ none) 0x0202e087 =
      some ((decode (fun _ ↦ none) 0x0202e087).getD {}) := rfl
  have hreachable : Reachable alignedHart (accessStart alignedHart 3) :=
    reachable_accessStart (by decide) fun i hi ↦ hreturns i (hi.trans (by decide))
  exact ⟨by decide +kernel, ⟨by decide +kernel, by decide +kernel⟩,
    (respects_iff (by decide) hdecode hreachable rfl haccessing).1 hfit⟩

/-- `vsetivli x5, 2, e32, m1`: two elements from address 2 on. -/
def misalignedHart : Rv64Hart := accessHart 0xc10172d7

theorem misalignedHart_returns : ∀ i < 5, returnsAnswered misalignedHart i = true := by
  decide +kernel

theorem misalignedHart_reachable : Reachable misalignedHart (accessStart misalignedHart 3) :=
  reachable_accessStart (by decide) fun i hi ↦ misalignedHart_returns i (hi.trans (by decide))

theorem misalignedHart_accessing :
    Accessing misalignedHart (accessStart misalignedHart 3) (runAnswered misalignedHart 5).1 :=
  @accessing_runAnswered misalignedHart 3 1 misalignedHart_returns (by decide +kernel)
    (by decide +kernel) (by decide +kernel)

/-- One request of 8 bytes from address 2 on. -/
theorem not_respects : ¬ ∀ (k : Rv64Hart) (c c' : Rv64AtomicCore) (inst : DecodedInst)
    (instWord : UInt32) (decodeRvc : UInt32 → Option DecodedInst), instWord &&& 0x3 = 0x3 →
    decode decodeRvc instWord = some inst → Reachable k c → Fetched c inst instWord →
    Accessing k c c' → Respects c c' := by
  intro h
  have hdecode : decode (fun _ ↦ none) 0x0202e087 =
      some ((decode (fun _ ↦ none) 0x0202e087).getD {}) := rfl
  have hrespects := h misalignedHart (accessStart misalignedHart 3) (runAnswered misalignedHart 5).1
    _ _ _ (by decide) hdecode misalignedHart_reachable rfl misalignedHart_accessing
  have hsent : sentSince (accessStart misalignedHart 3) (runAnswered misalignedHart 5).1 =
      [{ transactionId := 1, address := 2, size := 8 }] := rfl
  have hblock := hrespects.2 _ (hsent ▸ List.mem_singleton_self _) 6 (by decide)
  exact absurd hblock (by decide)

end Manycore.Rv64AtomicCore
