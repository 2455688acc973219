import SimbusNoc.Library.Tiling
import SimbusNoc.Manycore.VectorDescriptors

/-!
# The blocks of vector accesses

The descriptors of a unit-stride access tile the bytes of its elements. The library splits each
element where the base address says, the core gives the pieces their own addresses and merges what
begins in one 8-byte word and goes on there. Where no element is split, an element may lie across a
word boundary, and then its descriptor does.

## Why the tiles may cross words

The library computes the pieces with all elements at the base address, so it splits either all
elements or none, by how the first would lie. The core then moves the pieces to where their
elements are. `Piece` and `Block` say what is known of a descriptor before and after this, and
`slack` is how far a block may reach into the next word: not at all if the elements have been
split, and otherwise as far as an element does.

## Loads and stores

Splitting, merging and placing are done by loops of the same shape for loads and for stores.
`Merging` has what the merging loops have in common, and the lemma about tiles is proved for it
once. That stretches follow each other without a gap is the notion of the library on tilings.
-/

namespace Rv64archsem

open Manycore Simbus Tiling

/-! ## Addresses -/

/-- The bytes of an element. -/
def IsWidth (w : ℕ) : Prop := w = 1 ∨ w = 2 ∨ w = 4 ∨ w = 8

theorem IsWidth.pos_le {w : ℕ} (h : IsWidth w) : 0 < w ∧ w ≤ 8 := by
  rcases h with rfl | rfl | rfl | rfl <;> decide

theorem isWidth_bytes (sew : RVVSEW) : IsWidth sew.bytes := by
  cases sew <;> simp [IsWidth, RVVSEW.bytes]

theorem toNat_add_ofNat_mod {base : UInt64} {n : ℕ} :
    (base + UInt64.ofNat n).toNat % 8 = (base.toNat + n) % 8 := by
  rw [UInt64.toNat_add, UInt64.toNat_ofNat']
  omega

theorem add_ofNat_add (base : UInt64) (m n : ℕ) :
    base + UInt64.ofNat m + UInt64.ofNat n = base + UInt64.ofNat (m + n) := by
  rw [UInt64.ofNat_add, UInt64.add_assoc]

theorem toNat_add_ofNat_sub {base : UInt64} {n : ℕ} (hn : n < 2 ^ 64) :
    (base + UInt64.ofNat n - base).toNat = n := by
  have hsub : base + UInt64.ofNat n - base = UInt64.ofNat n := by
    rw [UInt64.add_comm, UInt64.add_sub_cancel]
  rw [hsub, UInt64.toNat_ofNat_of_lt' hn]

/-! ## Pieces of elements -/

/-- The part of an element of width `w` that the library splits off, at byte `a` of the access. The
library has given all elements the same address. -/
def Piece (base : UInt64) (w a : ℕ) (addr : UInt64) (size : ℕ) : Prop :=
  ∃ e o, a = e * w + o ∧ addr = base + UInt64.ofNat o ∧ 0 < size ∧ o + size ≤ w ∧
    if base.toNat % 8 + w ≤ 8 then o = 0 ∧ size = w
    else base.toNat % 8 + o + size ≤ 8 ∨ 8 ≤ base.toNat % 8 + o

/-- Two pieces that are merged are pieces of one element. -/
theorem Piece.join {base : UInt64} {w a : ℕ} {addr addr' : UInt64} {size size' : ℕ}
    (hw : IsWidth w) (h : Piece base w a addr size) (h' : Piece base w (a + size) addr' size')
    (hword : (addr / 8 == addr' / 8) = true)
    (hcontinues : (addr + UInt64.ofNat size == addr') = true) :
    Piece base w a addr (size + size') := by
  obtain ⟨e, o, ha, haddr, hpos, hle, hfits⟩ := h
  obtain ⟨e', o', ha', haddr', hpos', hle', hfits'⟩ := h'
  have hw8 := hw.pos_le.2
  obtain ⟨hends, -⟩ := word_of_continues (by omega) hword hcontinues
  have hnext : o + size = o' := by
    rw [beq_iff_eq, haddr, haddr', add_ofNat_add] at hcontinues
    have hsub := congrArg (fun x ↦ (x - base).toNat) hcontinues
    rwa [toNat_add_ofNat_sub (by omega), toNat_add_ofNat_sub (by omega)] at hsub
  refine ⟨e, o, ha, haddr, by omega, by omega, ?_⟩
  by_cases hwhole : base.toNat % 8 + w ≤ 8
  · -- a whole element is not continued
    rw [if_pos hwhole] at hfits'
    omega
  · rw [if_neg hwhole] at hfits hfits' ⊢
    rw [haddr, toNat_add_ofNat_mod] at hends
    omega

/-! ## Blocks -/

/-- How far a block may reach into the next word. -/
def slack (base : UInt64) (w : ℕ) : ℕ := if base.toNat % 8 + w ≤ 8 then base.toNat % w else 0

/-- A descriptor of the core at byte `a` of the access. -/
structure Block (base : UInt64) (w reach a : ℕ) (addr : UInt64) (size : ℕ) : Prop where
  addr : addr = base + UInt64.ofNat a
  pos : 0 < size
  word : (base.toNat + a) % 8 + size ≤ 8 + reach
  whole : base.toNat % 8 + w ≤ 8 → w ∣ a ∧ w ∣ size

/-- The piece with the address of its own. -/
theorem Piece.block {base : UInt64} {w reach a : ℕ} {addr : UInt64} {size : ℕ} (hw : IsWidth w)
    (h : Piece base w a addr size)
    (hreach : base.toNat % 8 + w ≤ 8 → (base.toNat + a) % 8 + w ≤ 8 + reach) :
    Block base w reach a (base + UInt64.ofNat a) size := by
  obtain ⟨e, o, ha, -, hpos, hle, hfits⟩ := h
  refine ⟨rfl, hpos, ?_, fun hwhole ↦ ?_⟩
  · by_cases hwhole : base.toNat % 8 + w ≤ 8
    · rw [if_pos hwhole] at hfits
      rw [hfits.2]
      exact hreach hwhole
    · rw [if_neg hwhole] at hfits
      rcases hw with rfl | rfl | rfl | rfl <;> omega
  · rw [if_pos hwhole] at hfits
    rw [ha, hfits.1, hfits.2]
    exact ⟨Nat.dvd_mul_left w e, Nat.dvd_refl w⟩

/-- Where no element is split, the elements from byte `a` to byte `b` reach no further than this
into the next word. -/
def Fits (base : UInt64) (w reach a b : ℕ) : Prop :=
  base.toNat % 8 + w ≤ 8 →
    ∀ e, a ≤ e * w → e * w < b → (base.toNat + e * w) % 8 + w ≤ 8 + reach

theorem fits_slack (base : UInt64) {w : ℕ} (hw : IsWidth w) (a b : ℕ) :
    Fits base w (slack base w) a b := by
  intro hwhole e _ _
  rw [slack, if_pos hwhole]
  rcases hw with rfl | rfl | rfl | rfl <;> omega

theorem slack_lt {base : UInt64} {w : ℕ} (hw : IsWidth w) : slack base w < 8 := by
  rw [slack]
  rcases hw with rfl | rfl | rfl | rfl <;> split_ifs <;> omega

theorem Block.join {base : UInt64} {w reach a : ℕ} {addr addr' : UInt64} {size size' : ℕ}
    (hreach : reach < 8) (h : Block base w reach a addr size)
    (h' : Block base w reach (a + size) addr' size') (hword : (addr / 8 == addr' / 8) = true)
    (hcontinues : (addr + UInt64.ofNat size == addr') = true) :
    Block base w reach a addr (size + size') := by
  have hle := h.word
  obtain ⟨hends, hmod⟩ := word_of_continues (by omega) hword hcontinues
  refine ⟨h.addr, by have := h.pos; omega, ?_, fun hwhole ↦ ?_⟩
  · have hle' := h'.word
    rw [h.addr, h'.addr, toNat_add_ofNat_mod, toNat_add_ofNat_mod] at hmod
    omega
  · exact ⟨(h.whole hwhole).1, Nat.dvd_add (h.whole hwhole).2 (h'.whole hwhole).2⟩

theorem Block.size_le {base : UInt64} {w a : ℕ} {addr : UInt64} {size : ℕ} (hw : IsWidth w)
    (h : Block base w (slack base w) a addr size) : size ≤ 8 := by
  have hword := h.word
  rw [slack] at hword
  split_ifs at hword with hwhole
  · obtain ⟨q, rfl⟩ := (h.whole hwhole).1
    rcases hw with rfl | rfl | rfl | rfl <;> omega
  · omega

/-! ## Merging

A loop that merges goes through a tiling and joins neighbours. What it leaves tiles the same range.
-/

/-- What the loops that merge loads and stores have in common. -/
structure Merging {α : Type} (addr : α → UInt64) (size : α → ℕ) (merges : α → α → Bool)
    (join : α → α → α) : Prop where
  word : ∀ {last d}, merges last d = true → (addr last / 8 == addr d / 8) = true
  continues : ∀ {last d}, merges last d = true →
    (addr last + UInt64.ofNat (size last) == addr d) = true
  addr_join : ∀ last d, addr (join last d) = addr last
  size_join : ∀ {last d}, size last + size d < 2 ^ 16 → size (join last d) = size last + size d

section Merging

variable {α : Type} {addr : α → UInt64} {size : α → ℕ} {merges : α → α → Bool}
  {join : α → α → α} {P : ℕ → α → Prop} {a b : ℕ} {l : List α}

theorem tiles_mergeAll (hjoin : ∀ a last d, P a last → P (a + size last) d →
      merges last d = true → P a (join last d) ∧ size (join last d) = size last + size d)
    (h : Tiles size P a l b) : Tiles size P a (mergeAll merges join l) b := by
  have hadjacent : ∀ {l : List α} {a : ℕ} {last : α}, P a last →
      Tiles size P (a + size last) l b →
      Tiles size P a (mergeAdjacent merges join last l) b := by
    intro l
    induction l with
    | nil =>
      intro a last hlast h
      cases h
      exact .singleton hlast
    | cons d rest ih =>
      intro a last hlast h
      obtain _ | ⟨hd, hrest⟩ := h
      rw [mergeAdjacent]
      by_cases hmerges : merges last d = true
      · rw [if_pos hmerges]
        obtain ⟨hP, hsize⟩ := hjoin a last d hlast hd hmerges
        refine ih hP ?_
        rw [hsize, ← Nat.add_assoc]
        exact hrest
      · rw [if_neg hmerges]
        exact .cons hlast (ih hd hrest)
  cases h with
  | nil => exact .nil _
  | cons hd hl => exact hadjacent hd hl

variable (hmerging : Merging addr size merges join) {base : UInt64} {w reach : ℕ}
  {R : ℕ → α → Prop}
  (hR : ∀ a last d, R a last → R (a + size last) d →
    size (join last d) = size last + size d → R a (join last d))

include hmerging hR

theorem tiles_mergeAll_piece (hw : IsWidth w) (h : Tiles size
      (fun a d ↦ Piece base w a (addr d) (size d) ∧ R a d) a l b) :
    Tiles size (fun a d ↦ Piece base w a (addr d) (size d) ∧ R a d) a
      (mergeAll merges join l) b := by
  refine tiles_mergeAll (fun a last d hlast hd hmerges ↦ ?_) h
  have hjoin := hlast.1.join hw hd.1 (hmerging.word hmerges) (hmerging.continues hmerges)
  have hsize : size (join last d) = size last + size d := hmerging.size_join (by
    obtain ⟨_, _, -, -, -, hle, -⟩ := hjoin
    have := hw.pos_le.2
    omega)
  rw [hmerging.addr_join, hsize]
  exact ⟨⟨hjoin, hR a last d hlast.2 hd.2 hsize⟩, rfl⟩

theorem tiles_mergeAll_block (hreach : reach < 8) (h : Tiles size
      (fun a d ↦ Block base w reach a (addr d) (size d) ∧ R a d) a l b) :
    Tiles size (fun a d ↦ Block base w reach a (addr d) (size d) ∧ R a d) a
      (mergeAll merges join l) b := by
  refine tiles_mergeAll (fun a last d hlast hd hmerges ↦ ?_) h
  have hjoin := hlast.1.join hreach hd.1 (hmerging.word hmerges) (hmerging.continues hmerges)
  have hsize : size (join last d) = size last + size d := hmerging.size_join (by
    have := hjoin.word
    omega)
  rw [hmerging.addr_join, hsize]
  exact ⟨⟨hjoin, hR a last d hlast.2 hd.2 hsize⟩, rfl⟩

end Merging

theorem MemLoadDescriptor.merging :
    Merging MemLoadDescriptor.addr (fun d ↦ d.size.toNat) MemLoadDescriptor.merges
      MemLoadDescriptor.join where
  word := fun h ↦ by
    simp only [merges, Bool.and_eq_true] at h
    exact h.1.1
  continues := fun h ↦ by
    simp only [merges, Bool.and_eq_true] at h
    exact h.1.2
  addr_join := fun _ _ ↦ rfl
  size_join := toNat_size_join

theorem MemStoreDescriptor.merging :
    Merging MemStoreDescriptor.addr (fun d ↦ d.rawData.length) MemStoreDescriptor.merges
      MemStoreDescriptor.join where
  word := fun h ↦ by
    simp only [merges, Bool.and_eq_true] at h
    exact h.1
  continues := fun h ↦ by
    simp only [merges, Bool.and_eq_true] at h
    exact h.2
  addr_join := fun _ _ ↦ rfl
  size_join := fun _ ↦ length_join _ _

/-! ## Splitting

An element is cut where the base address says. Whether it is cut does not depend on the element.
-/

theorem splitAccess_zero (fuel : ℕ) (addr : UInt64) (offset : ℕ) :
    splitAccess fuel addr offset 0 = [] := by
  cases fuel with
  | zero => rfl
  | succ fuel => rw [splitAccess, if_pos rfl]

theorem splitAccess_whole {addr : UInt64} {size : ℕ} (hpos : 0 < size)
    (h : addr.toNat % 8 + size ≤ 8) : splitAccess size addr 0 size = [(addr, 0, size)] := by
  obtain ⟨n, rfl⟩ : ∃ n, size = n + 1 := ⟨size - 1, by omega⟩
  have hchunk : min (n + 1) (alignRemain addr) = n + 1 := min_eq_left (by rw [alignRemain]; omega)
  rw [splitAccess, if_neg hpos.ne']
  dsimp only
  rw [hchunk, Nat.sub_self, splitAccess_zero]

theorem splitAccess_two {addr : UInt64} {size : ℕ} (hle : size ≤ 8)
    (h : 8 < addr.toNat % 8 + size) :
    splitAccess size addr 0 size = [(addr, 0, alignRemain addr),
      (addr + UInt64.ofNat (alignRemain addr), alignRemain addr, size - alignRemain addr)] := by
  have hremain : alignRemain addr = 8 - addr.toNat % 8 := rfl
  obtain ⟨n, rfl⟩ : ∃ n, size = n + 2 := ⟨size - 2, by omega⟩
  have hchunk : min (n + 2) (alignRemain addr) = alignRemain addr := min_eq_right (by omega)
  have hnext : alignRemain (addr + UInt64.ofNat (alignRemain addr)) = 8 := by
    rw [alignRemain, toNat_add_ofNat_mod]
    omega
  have hchunk' : min (n + 2 - alignRemain addr) 8 = n + 2 - alignRemain addr :=
    min_eq_left (by omega)
  rw [splitAccess, if_neg (by omega)]
  dsimp only
  rw [hchunk, splitAccess, if_neg (by omega)]
  dsimp only
  rw [hnext, hchunk', Nat.sub_self, splitAccess_zero, Nat.zero_add]

/-- The parts of element `e` tile it. -/
theorem tiles_splitAccess {base : UInt64} {w : ℕ} (hw : IsWidth w) (e : ℕ) :
    Tiles (fun p : UInt64 × ℕ × ℕ ↦ p.2.2)
      (fun a p ↦ Piece base w a p.1 p.2.2 ∧ a = e * w + p.2.1 ∧ p.2.1 + p.2.2 ≤ w)
      (e * w) (splitAccess w base 0 w) (e * w + w) := by
  obtain ⟨hpos, hle⟩ := hw.pos_le
  by_cases hwhole : base.toNat % 8 + w ≤ 8
  · rw [splitAccess_whole hpos hwhole]
    refine .singleton ⟨⟨e, 0, rfl, ?_, hpos, by dsimp only; omega, ?_⟩, rfl, by dsimp only; omega⟩
    · exact (UInt64.add_zero base).symm
    · rw [if_pos hwhole]
      exact ⟨rfl, rfl⟩
  · rw [splitAccess_two hle (by omega)]
    have hremain : alignRemain base = 8 - base.toNat % 8 := rfl
    have hend : e * w + w = e * w + alignRemain base + (w - alignRemain base) := by omega
    rw [hend]
    refine .cons ⟨⟨e, 0, rfl, ?_, by dsimp only; omega, by dsimp only; omega, ?_⟩, rfl, ?_⟩
      (.singleton ⟨⟨e, alignRemain base, rfl, rfl, by dsimp only; omega, by dsimp only; omega, ?_⟩,
        rfl, by dsimp only; omega⟩)
    · exact (UInt64.add_zero base).symm
    · rw [if_neg hwhole]
      dsimp only
      omega
    · dsimp only
      omega
    · rw [if_neg hwhole]
      omega

theorem MemLoadDescriptor.tiles_split {d : MemLoadDescriptor} {w e : ℕ} (hw : IsWidth w)
    (hsize : d.size.toNat = w) (hoffset : d.regOffset.toNat = e * w) (hbound : e * w + w < 2 ^ 16) :
    Tiles (fun p : MemLoadDescriptor ↦ p.size.toNat)
      (fun a p ↦ Piece d.addr w a p.addr p.size.toNat ∧ p.regOffset.toNat = a)
      (e * w) d.split (e * w + w) := by
  have hw8 := hw.pos_le.2
  rw [split, hsize]
  refine (tiles_splitAccess hw e).map fun a p ⟨hpiece, ha, hle⟩ ↦ ?_
  have hchunk : (UInt16.ofNat p.2.2).toNat = p.2.2 :=
    UInt16.toNat_ofNat_of_lt' (by have : UInt16.size = 65536 := rfl; omega)
  have hplace : (UInt16.ofNat (d.regOffset.toNat + p.2.1)).toNat = a := by
    rw [hoffset, ← ha]
    exact UInt16.toNat_ofNat_of_lt' (by have : UInt16.size = 65536 := rfl; omega)
  exact ⟨⟨hchunk.symm ▸ hpiece, hplace⟩, hchunk⟩

/-- The descriptor at byte `a` has the bytes from there on. -/
def Carries (bytes : Bytes) (a : ℕ) (d : MemStoreDescriptor) : Prop :=
  d.rawData = (bytes.drop a).take d.rawData.length

theorem Carries.join {bytes : Bytes} {a : ℕ} {last d : MemStoreDescriptor}
    (h : Carries bytes a last) (h' : Carries bytes (a + last.rawData.length) d) :
    Carries bytes a (last.join d) := by
  change last.rawData ++ d.rawData = (bytes.drop a).take (last.rawData ++ d.rawData).length
  rw [List.length_append, List.take_add, ← h, List.drop_drop, ← h']

theorem MemStoreDescriptor.tiles_split {bytes : Bytes} {d : MemStoreDescriptor} {w e : ℕ}
    (hw : IsWidth w) (hlength : d.rawData.length = w) (hdata : Carries bytes (e * w) d) :
    Tiles (fun p : MemStoreDescriptor ↦ p.rawData.length)
      (fun a p ↦ Piece d.addr w a p.addr p.rawData.length ∧ Carries bytes a p)
      (e * w) d.split (e * w + w) := by
  rw [split, hlength]
  refine (tiles_splitAccess hw e).map fun a p ⟨hpiece, ha, hle⟩ ↦ ?_
  have hchunk : ((d.rawData.drop p.2.1).take p.2.2).length = p.2.2 := by
    rw [List.length_take, List.length_drop]
    omega
  refine ⟨⟨hchunk.symm ▸ hpiece, ?_⟩, hchunk⟩
  change (d.rawData.drop p.2.1).take p.2.2 = (bytes.drop a).take _
  rw [hchunk, hdata, hlength, List.drop_take, List.take_take, List.drop_drop, ha,
    min_eq_left (by omega)]

/-! ## Parsing

The library's descriptors for an access with one field, in the order of the elements.
-/

/-- The accesses of the core have one field. -/
theorem flatMap_fields {α β : Type} {inst : DecodedInst} {l : List ℕ} {f : ℕ → ℕ → α}
    {g : α → List β} (hfields : fields inst = [0]) :
    (l.flatMap fun i ↦ (fields inst).map fun n ↦ f i n).flatMap g = l.flatMap fun i ↦
    g (f i 0) := by
  rw [hfields, List.flatMap_assoc]
  simp only [List.map_cons, List.map_nil, List.flatMap_cons, List.flatMap_nil, List.append_nil]

section Parse

variable {inst : DecodedInst} {vctx vctx' : VecContext} {base : UInt64}
    {vs2raw vs3raw : List UInt64}
  {w : ℕ} (hfields : fields inst = [0]) (hwidth : getElementBytes vctx inst.vrdView = w)
  (hw : IsWidth w)

include hfields hwidth hw

theorem tiles_parseLoadVector {descriptors : List MemLoadDescriptor}
    (hbytes : vctx.vl.toNat * w ≤ 256)
    (h : parseLoadVector inst vctx base vs2raw = .ok (vctx', descriptors)) :
    Tiles (fun d : MemLoadDescriptor ↦ d.size.toNat)
      (fun a d ↦ Piece base w a d.addr d.size.toNat ∧ d.regOffset.toNat = a)
      (vctx.vstart.toNat * w) descriptors
      (vctx.vstart.toNat * w + (vctx.vl.toNat - vctx.vstart.toNat) * w) := by
  simp only [parseLoadVector, bind, Except.bind, pure, Except.pure] at h
  split at h
  · cases h
  obtain ⟨-, rfl⟩ := Prod.mk.inj (Except.ok.inj h)
  refine tiles_mergeAll_piece MemLoadDescriptor.merging (fun _ _ _ h _ _ ↦ h) hw ?_
  rw [flatMap_fields hfields]
  refine Tiles.flatMap_range' fun i hi hi' ↦ ?_
  have hplace : vctx.vstart.toNat * w + (i - vctx.vstart.toNat) * w = i * w := by
    rw [← Nat.add_mul]
    congr 1
    omega
  have hend : i * w + w ≤ 256 := by
    rw [← Nat.succ_mul]
    exact (Nat.mul_le_mul_right w (by omega)).trans hbytes
  have hsize : (UInt16.ofNat w).toNat = w :=
    UInt16.toNat_ofNat_of_lt' (by have : UInt16.size = 65536 := rfl; omega)
  have hoffset : (UInt16.ofNat (i * w + 0 * getFieldStrideInVreg vctx.lmul)).toNat = i * w := by
    rw [Nat.zero_mul, Nat.add_zero]
    exact UInt16.toNat_ofNat_of_lt' (by have : UInt16.size = 65536 := rfl; omega)
  have hsplit := MemLoadDescriptor.tiles_split (d :=
    { addr := base + UInt64.ofNat (0 * w), size := UInt16.ofNat w
      regOffset := UInt16.ofNat (i * w + 0 * getFieldStrideInVreg vctx.lmul)
      firstElementIdx := UInt16.ofNat i }) hw hsize hoffset (by omega)
  have hbase : base + UInt64.ofNat (0 * w) = base := by
    rw [Nat.zero_mul]
    exact UInt64.add_zero base
  rw [hplace, hwidth]
  rw [hbase] at hsplit ⊢
  exact hsplit

theorem tiles_parseStoreVector {descriptors : List MemStoreDescriptor}
    (hbytes : vctx.vl.toNat * w ≤ (wordBytes vs3raw).length)
    (h : parseStoreVector inst vctx base vs2raw vs3raw = .ok (vctx', descriptors)) :
    Tiles (fun d : MemStoreDescriptor ↦ d.rawData.length)
      (fun a d ↦ Piece base w a d.addr d.rawData.length ∧
        Carries ((wordBytes vs3raw).drop (vctx.vstart.toNat * w)) a d)
      0 descriptors ((vctx.vl.toNat - vctx.vstart.toNat) * w) := by
  simp only [parseStoreVector, bind, Except.bind, pure, Except.pure] at h
  split at h
  · cases h
  split at h
  · cases h
  obtain ⟨-, rfl⟩ := Prod.mk.inj (Except.ok.inj h)
  -- Element by element, each split at the base address with its own slice of the data.
  refine tiles_mergeAll_piece MemStoreDescriptor.merging (fun _ _ _ h h' _ ↦ h.join h') hw ?_
  rw [flatMap_fields hfields, ← Nat.zero_add ((_ - _) * w)]
  refine Tiles.flatMap_range' fun i hi hi' ↦ ?_
  have hend : i * w + w ≤ (wordBytes vs3raw).length := by
    rw [← Nat.succ_mul]
    exact (Nat.mul_le_mul_right w (by omega)).trans hbytes
  have hplace : vctx.vstart.toNat * w + (i - vctx.vstart.toNat) * w = i * w := by
    rw [← Nat.add_mul]
    congr 1
    omega
  have hlength : (((wordBytes vs3raw).drop
      (i * w + 0 * getFieldStrideInVreg vctx.lmul)).take w).length = w := by
    rw [List.length_take, List.length_drop, Nat.zero_mul]
    omega
  have hdata : Carries ((wordBytes vs3raw).drop (vctx.vstart.toNat * w))
      ((i - vctx.vstart.toNat) * w)
      { rawData := ((wordBytes vs3raw).drop
          (i * w + 0 * getFieldStrideInVreg vctx.lmul)).take w
        addr := base + UInt64.ofNat (0 * w) } := by
    rw [Carries]
    dsimp only
    rw [hlength, List.drop_drop, hplace, Nat.zero_mul, Nat.add_zero]
  have hsplit := MemStoreDescriptor.tiles_split hw hlength hdata
  have hbase : base + UInt64.ofNat (0 * w) = base := by
    rw [Nat.zero_mul]
    exact UInt64.add_zero base
  rw [Nat.zero_add, hwidth]
  rw [hbase] at hsplit ⊢
  exact hsplit

end Parse

end Rv64archsem

namespace Manycore.Rv64AtomicCore

open Simbus Rv64archsem Tiling

/-! ## The addresses of the core -/

variable {base : UInt64} {w reach a b : ℕ}

theorem block_of_fits {p : ℕ} {addr : UInt64} {size : ℕ} (hw : IsWidth w)
    (hfits : Fits base w reach a b) (h : Piece base w p addr size) (hp : a ≤ p)
    (hp' : p + size ≤ b) : Block base w reach p (base + UInt64.ofNat p) size := by
  refine h.block hw fun hwhole ↦ ?_
  obtain ⟨e, o, rfl, -, hpos, -, hpiece⟩ := h
  rw [if_pos hwhole] at hpiece
  obtain ⟨rfl, rfl⟩ := hpiece
  exact hfits hwhole e hp (by omega)

theorem tiles_normalizeUnitStrideLoads {l : List MemLoadDescriptor} (hw : IsWidth w)
    (hreach : reach < 8) (hfits : Fits base w reach a b)
    (h : Tiles (fun d : MemLoadDescriptor ↦ d.size.toNat)
      (fun p d ↦ Piece base w p d.addr d.size.toNat ∧ d.regOffset.toNat = p) a l b) :
    Tiles (fun d : MemLoadDescriptor ↦ d.size.toNat)
      (fun p d ↦ Block base w reach p d.addr d.size.toNat ∧ d.regOffset.toNat = p) a
      (normalizeUnitStrideLoads base l) b := by
  refine tiles_mergeAll_block MemLoadDescriptor.merging (fun _ _ _ h _ _ ↦ h) hreach ?_
  refine h.within.map fun p d ⟨⟨hpiece, hoffset⟩, hp, hp'⟩ ↦ ⟨⟨?_, hoffset⟩, rfl⟩
  rw [hoffset]
  exact block_of_fits hw hfits hpiece hp hp'

theorem tiles_placeStores {P Q : ℕ → MemStoreDescriptor → Prop} {l : List MemStoreDescriptor}
    (h : Tiles (fun d : MemStoreDescriptor ↦ d.rawData.length) P a l b)
    (hQ : ∀ p d, P p d → Q p { d with addr := base + UInt64.ofNat p }) :
    Tiles (fun d : MemStoreDescriptor ↦ d.rawData.length) Q a (placeStores base a l) b := by
  induction h with
  | nil a => exact .nil a
  | cons h _ ih => exact .cons (hQ _ _ h) ih

theorem tiles_normalizeUnitStrideStores {bytes : Bytes} {l : List MemStoreDescriptor}
    (hw : IsWidth w) (hreach : reach < 8) (hfits : Fits base w reach 0 b)
    (h : Tiles (fun d : MemStoreDescriptor ↦ d.rawData.length)
      (fun p d ↦ Piece base w p d.addr d.rawData.length ∧ Carries bytes p d) 0 l b) :
    Tiles (fun d : MemStoreDescriptor ↦ d.rawData.length)
      (fun p d ↦ Block base w reach p d.addr d.rawData.length ∧ Carries bytes p d) 0
      (normalizeUnitStrideStores base l) b := by
  refine tiles_mergeAll_block MemStoreDescriptor.merging (fun _ _ _ h h' _ ↦ h.join h') hreach ?_
  refine tiles_placeStores h.within fun p d ⟨⟨hpiece, hdata⟩, hp, hp'⟩ ↦ ⟨?_, hdata⟩
  exact block_of_fits hw hfits hpiece hp hp'

/-! ## Words -/

section Words

variable {α : Type} {addr : α → UInt64} {size : α → ℕ} {R : ℕ → α → Prop} {l : List α}

/-- Blocks that reach into no other word lie in one. -/
theorem inWord_of_tiles (h : Tiles size
      (fun p d ↦ Block base w 0 p (addr d) (size d) ∧ R p d) a l b) :
    ∀ d ∈ l, (addr d).toNat % 8 + size d ≤ 8 := by
  intro d hd
  obtain ⟨p, -, -, hblock, -⟩ := h.exists_place d hd
  rw [hblock.addr, toNat_add_ofNat_mod]
  exact hblock.word

/-- An element that lies across a word boundary takes its block with it. -/
theorem fits_of_inWord (h : Tiles size
      (fun p d ↦ Block base w reach p (addr d) (size d) ∧ R p d) a l b)
    (hword : ∀ d ∈ l, (addr d).toNat % 8 + size d ≤ 8) : Fits base w 0 a b := by
  intro hwhole e he he'
  obtain ⟨d, hd, p, hp, hp', hblock, -⟩ := h.exists_covering he he'
  have hd' := hword d hd
  rw [hblock.addr, toNat_add_ofNat_mod] at hd'
  obtain ⟨⟨m, hm⟩, n, hn⟩ := hblock.whole hwhole
  have hend : e * w + w ≤ p + size d := by
    rw [hm, hn, ← Nat.mul_add, Nat.mul_comm w, ← Nat.succ_mul]
    rw [hm, hn, ← Nat.mul_add, Nat.mul_comm w] at hp'
    exact Nat.mul_le_mul_right w (Nat.lt_of_mul_lt_mul_right hp')
  omega

end Words

end Manycore.Rv64AtomicCore
