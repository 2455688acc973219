import SimbusNoc.Manycore.Rv64AtomicCore

/-!
# The sizes of vector accesses

Every descriptor of a parsed vector access lies within one 8-byte word. The core gives the
descriptors new addresses and merges them again, and then each has at most 15 bytes: an access that
another one continues has at most 7 bytes in its word.

This is less than the truth, which is 8, but it holds of any list of descriptors and needs no
account of where the elements lie. It is all that the invariants of the protocol ask of the size of
a request: it is positive and small enough for one message. `forall_mergeAll` is the general fact
about the merging loop, that what holds of each descriptor and is kept by a merge holds afterwards.
-/

namespace Rv64archsem

open Manycore

/-! ## Splitting and merging -/

/-- Every piece lies within one word and within the access. -/
theorem splitAccess_spec {fuel : ℕ} {addr : UInt64} {offset size : ℕ} :
    ∀ piece ∈ splitAccess fuel addr offset size,
      0 < piece.2.2 ∧ piece.1.toNat % 8 + piece.2.2 ≤ 8 ∧
        piece.2.1 + piece.2.2 ≤ offset + size := by
  induction fuel generalizing addr offset size with
  | zero => exact fun _ h ↦ nomatch h
  | succ fuel ih =>
    intro piece hpiece
    rw [splitAccess] at hpiece
    by_cases hsize : size = 0
    · rw [if_pos hsize] at hpiece
      cases hpiece
    · rw [if_neg hsize] at hpiece
      have hchunk : 0 < min size (alignRemain addr) ∧ min size (alignRemain addr) ≤ size ∧
          addr.toNat % 8 + min size (alignRemain addr) ≤ 8 := by
        rw [alignRemain]
        omega
      rcases List.mem_cons.mp hpiece with rfl | hpiece
      · exact ⟨hchunk.1, hchunk.2.2, by dsimp only; omega⟩
      · obtain ⟨hpos, hword, hle⟩ := ih piece hpiece
        exact ⟨hpos, hword, by omega⟩

section Merge

variable {α : Type} {merges : α → α → Bool} {join : α → α → α} {P Q : α → Prop}

theorem forall_mergeAdjacent (hstart : ∀ d, Q d → P d)
    (hjoin : ∀ last d, P last → Q d → merges last d = true → P (join last d)) {l : List α} :
    ∀ {last : α}, P last → (∀ d ∈ l, Q d) → ∀ d ∈ mergeAdjacent merges join last l, P d := by
  induction l with
  | nil =>
    intro last hlast _ d hd
    rw [mergeAdjacent] at hd
    exact List.mem_singleton.mp hd ▸ hlast
  | cons e rest ih =>
    intro last hlast hl d hd
    have hrest : ∀ d ∈ rest, Q d := fun d hd ↦ hl d (List.mem_cons_of_mem e hd)
    have he : Q e := hl e List.mem_cons_self
    rw [mergeAdjacent] at hd
    by_cases hmerges : merges last e = true
    · rw [if_pos hmerges] at hd
      exact ih (hjoin last e hlast he hmerges) hrest d hd
    · rw [if_neg hmerges] at hd
      rcases List.mem_cons.mp hd with rfl | hd
      · exact hlast
      · exact ih (hstart e he) hrest d hd

/-- What holds of the descriptors and is kept by joining them holds after merging. -/
theorem forall_mergeAll (hstart : ∀ d, Q d → P d)
    (hjoin : ∀ last d, P last → Q d → merges last d = true → P (join last d)) {l : List α}
    (hl : ∀ d ∈ l, Q d) : ∀ d ∈ mergeAll merges join l, P d := by
  cases l with
  | nil => exact fun _ h ↦ nomatch h
  | cons e rest =>
    exact forall_mergeAdjacent hstart hjoin (hstart e (hl e List.mem_cons_self))
      fun d hd ↦ hl d (List.mem_cons_of_mem e hd)

end Merge

/-- An access that another one continues in the same word ends before the end of the word. -/
theorem word_of_continues {a b : UInt64} {n : ℕ} (hn : n ≤ 15) (hword : (a / 8 == b / 8) = true)
    (hcontinues : (a + UInt64.ofNat n == b) = true) :
    a.toNat % 8 + n ≤ 7 ∧ b.toNat % 8 = a.toNat % 8 + n := by
  rw [beq_iff_eq] at hword hcontinues
  have hb : b.toNat = (a.toNat + n) % 2 ^ 64 := by
    rw [← hcontinues, UInt64.toNat_add, UInt64.toNat_ofNat_of_lt' (hn.trans_lt (by decide))]
  have hdiv := congrArg UInt64.toNat hword
  have height : (8 : UInt64).toNat = 8 := rfl
  rw [UInt64.toNat_div, UInt64.toNat_div, hb, height] at hdiv
  have ha := a.toNat_lt
  omega

/-! ## Loads -/

namespace MemLoadDescriptor

/-- The descriptor lies within one word. -/
def InWord (d : MemLoadDescriptor) : Prop :=
  0 < d.size.toNat ∧ d.addr.toNat % 8 + d.size.toNat ≤ 8

theorem toNat_size_join {last d : MemLoadDescriptor}
    (h : last.size.toNat + d.size.toNat < 2 ^ 16) :
    (join last d).size.toNat = last.size.toNat + d.size.toNat := by
  rw [join, UInt16.toNat_add]
  exact Nat.mod_eq_of_lt h

theorem inWord_split (d : MemLoadDescriptor) : ∀ e ∈ d.split, e.InWord := by
  intro e he
  obtain ⟨piece, hpiece, rfl⟩ := List.mem_map.mp he
  obtain ⟨hpos, hword, -⟩ := splitAccess_spec piece hpiece
  have hsize : (UInt16.ofNat piece.2.2).toNat = piece.2.2 :=
    UInt16.toNat_ofNat_of_lt' (by have : UInt16.size = 65536 := rfl; omega)
  exact ⟨by rwa [hsize], by rwa [hsize]⟩

theorem inWord_join (last d : MemLoadDescriptor) (hlast : last.InWord) (hd : d.InWord)
    (h : merges last d = true) : (join last d).InWord := by
  simp only [merges, Bool.and_eq_true] at h
  have hle : last.size.toNat ≤ 15 := by have := hlast.2; omega
  obtain ⟨-, hmod⟩ := word_of_continues hle h.1.1 h.1.2
  have hsize : (join last d).size.toNat = last.size.toNat + d.size.toNat :=
    toNat_size_join (by have := hd.2; omega)
  refine ⟨?_, ?_⟩
  · rw [hsize]
    have := hd.1
    omega
  · rw [hsize]
    have hword := hd.2
    change last.addr.toNat % 8 + _ ≤ 8
    omega

theorem size_join_le (last d : MemLoadDescriptor) (hlast : 0 < last.size.toNat ∧
    last.size.toNat ≤ 15) (hd : 0 < d.size.toNat ∧ d.size.toNat ≤ 8)
    (h : merges last d = true) :
    0 < (join last d).size.toNat ∧ (join last d).size.toNat ≤ 15 := by
  simp only [merges, Bool.and_eq_true] at h
  obtain ⟨hle, -⟩ := word_of_continues hlast.2 h.1.1 h.1.2
  rw [toNat_size_join (by omega)]
  omega

end MemLoadDescriptor

theorem parseLoadVector_inWord {inst : DecodedInst} {vctx vctx' : VecContext} {rs1val : UInt64}
    {vs2raw : List UInt64} {descriptors : List MemLoadDescriptor}
    (h : parseLoadVector inst vctx rs1val vs2raw = .ok (vctx', descriptors)) :
    ∀ d ∈ descriptors, d.InWord := by
  simp only [parseLoadVector, bind, Except.bind, pure, Except.pure] at h
  split at h
  · cases h
  · obtain ⟨-, rfl⟩ := Prod.mk.inj (Except.ok.inj h)
    refine forall_mergeAll (fun _ ↦ id) MemLoadDescriptor.inWord_join fun d hd ↦ ?_
    obtain ⟨e, -, hd⟩ := List.mem_flatMap.mp hd
    exact e.inWord_split d hd

/-! ## Stores -/

namespace MemStoreDescriptor

/-- The descriptor lies within one word. -/
def InWord (d : MemStoreDescriptor) : Prop :=
  0 < d.rawData.length ∧ d.addr.toNat % 8 + d.rawData.length ≤ 8

theorem length_join (last d : MemStoreDescriptor) :
    (join last d).rawData.length = last.rawData.length + d.rawData.length :=
  List.length_append

theorem inWord_split (d : MemStoreDescriptor) : ∀ e ∈ d.split, e.InWord := by
  intro e he
  obtain ⟨piece, hpiece, rfl⟩ := List.mem_map.mp he
  obtain ⟨hpos, hword, hle⟩ := splitAccess_spec piece hpiece
  have hlen : ((d.rawData.drop piece.2.1).take piece.2.2).length = piece.2.2 := by
    rw [List.length_take, List.length_drop]
    omega
  exact ⟨by rwa [hlen], by rwa [hlen]⟩

theorem inWord_join (last d : MemStoreDescriptor) (hlast : last.InWord) (hd : d.InWord)
    (h : merges last d = true) : (join last d).InWord := by
  simp only [merges, Bool.and_eq_true] at h
  have hle : last.rawData.length ≤ 15 := by have := hlast.2; omega
  obtain ⟨-, hmod⟩ := word_of_continues hle h.1 h.2
  refine ⟨?_, ?_⟩
  · rw [length_join]
    have := hd.1
    omega
  · rw [length_join]
    have hword := hd.2
    change last.addr.toNat % 8 + _ ≤ 8
    omega

theorem length_join_le (last d : MemStoreDescriptor) (hlast : 0 < last.rawData.length ∧
    last.rawData.length ≤ 15) (hd : 0 < d.rawData.length ∧ d.rawData.length ≤ 8)
    (h : merges last d = true) :
    0 < (join last d).rawData.length ∧ (join last d).rawData.length ≤ 15 := by
  simp only [merges, Bool.and_eq_true] at h
  obtain ⟨hle, -⟩ := word_of_continues hlast.2 h.1 h.2
  rw [length_join]
  omega

end MemStoreDescriptor

theorem parseStoreVector_inWord {inst : DecodedInst} {vctx vctx' : VecContext} {rs1val : UInt64}
    {vs2raw vs3raw : List UInt64} {descriptors : List MemStoreDescriptor}
    (h : parseStoreVector inst vctx rs1val vs2raw vs3raw = .ok (vctx', descriptors)) :
    ∀ d ∈ descriptors, d.InWord := by
  simp only [parseStoreVector, bind, Except.bind, pure, Except.pure] at h
  split at h
  · cases h
  · split at h
    · cases h
    · obtain ⟨-, rfl⟩ := Prod.mk.inj (Except.ok.inj h)
      refine forall_mergeAll (fun _ ↦ id) MemStoreDescriptor.inWord_join fun d hd ↦ ?_
      obtain ⟨e, -, hd⟩ := List.mem_flatMap.mp hd
      exact e.inWord_split d hd

end Rv64archsem

namespace Manycore.Rv64AtomicCore

open Rv64archsem

/-! ## The descriptors of the core -/

theorem size_normalizeUnitStrideLoads {inst : DecodedInst} {vctx vctx' : VecContext}
    {rs1val base : UInt64} {vs2raw : List UInt64} {descriptors : List MemLoadDescriptor}
    (h : parseLoadVector inst vctx rs1val vs2raw = .ok (vctx', descriptors)) :
    ∀ d ∈ normalizeUnitStrideLoads base descriptors, 0 < d.size.toNat ∧ d.size.toNat ≤ 15 := by
  refine forall_mergeAll (Q := fun d ↦ 0 < d.size.toNat ∧ d.size.toNat ≤ 8)
    (fun d hd ↦ ⟨hd.1, hd.2.trans (by decide)⟩) MemLoadDescriptor.size_join_le fun d hd ↦ ?_
  obtain ⟨e, he, rfl⟩ := List.mem_map.mp hd
  obtain ⟨hpos, hle⟩ := parseLoadVector_inWord h e he
  exact ⟨hpos, by dsimp only; omega⟩

theorem mem_placeStores {base : UInt64} {offset : ℕ} {descriptors : List MemStoreDescriptor} :
    ∀ d ∈ placeStores base offset descriptors, ∃ e ∈ descriptors, d.rawData = e.rawData := by
  induction descriptors generalizing offset with
  | nil => exact fun _ h ↦ nomatch h
  | cons e rest ih =>
    intro d hd
    rcases List.mem_cons.mp hd with rfl | hd
    · exact ⟨e, List.mem_cons_self, rfl⟩
    · obtain ⟨e', he', hdata⟩ := ih d hd
      exact ⟨e', List.mem_cons_of_mem e he', hdata⟩

theorem length_normalizeUnitStrideStores {inst : DecodedInst} {vctx vctx' : VecContext}
    {rs1val base : UInt64} {vs2raw vs3raw : List UInt64} {descriptors : List MemStoreDescriptor}
    (h : parseStoreVector inst vctx rs1val vs2raw vs3raw = .ok (vctx', descriptors)) :
    ∀ d ∈ normalizeUnitStrideStores base descriptors,
      0 < d.rawData.length ∧ d.rawData.length ≤ 15 := by
  refine forall_mergeAll (Q := fun d ↦ 0 < d.rawData.length ∧ d.rawData.length ≤ 8)
    (fun d hd ↦ ⟨hd.1, hd.2.trans (by decide)⟩) MemStoreDescriptor.length_join_le fun d hd ↦ ?_
  obtain ⟨e, he, hdata⟩ := mem_placeStores d hd
  obtain ⟨hpos, hle⟩ := parseStoreVector_inWord h e he
  rw [hdata]
  exact ⟨hpos, by omega⟩

end Manycore.Rv64AtomicCore
