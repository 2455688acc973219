import SimbusNoc.Manycore.Decode

/-!
# What the decoder gives

The fields of an accepted instruction that the core goes by: an opcode determines the control type,
but for the two opcodes that floating-point and vector accesses share.

The core dispatches on the opcode, the control type and the registers' types of an instruction, so
the properties of the core need to know which combinations the decoder can give. Each function of
the decoder is looked at once, and `decode_eq_some` says that an accepted word went through the
switch for its opcode. The lemmas after it go the other way: from the control type of an accepted
instruction to the function that has produced it and to all that this function says.
-/

namespace Rv64archsem

variable {decodeRvc : UInt32 → Option DecodedInst} {instWord : UInt32} {inst inst' : DecodedInst}

theorem named_eq_some {name : InstName} (h : named name inst = some inst') :
    name ≠ .illegal ∧ inst' = { inst with instName := name } := by
  rw [named] at h
  by_cases hname : name = .illegal
  · rw [if_pos hname] at h
    cases h
  · rw [if_neg hname] at h
    exact ⟨hname, (Option.some.inj h).symm⟩

/-! ## Vector arithmetic -/

/-- The instruction is one of `OP-V`. It has no control type of its own. -/
def IsOpv (inst : DecodedInst) : Prop := inst.opcode = .opv ∧ inst.controlType = .none

theorem isOpv_opvSwitch {table : List ((ℕ × Option ℕ) × OpvRow)}
    (h : opvSwitch table instWord inst = some inst') (hinst : IsOpv inst) : IsOpv inst' := by
  obtain ⟨row, -, hrow⟩ := Option.bind_eq_some_iff.mp h
  obtain ⟨-, rfl⟩ := named_eq_some hrow
  exact hinst

theorem isOpv_decodevOpcfg (hinst : IsOpv inst) (h : decodevOpcfg instWord inst = some inst') :
    IsOpv inst' := by
  rw [decodevOpcfg] at h
  split_ifs at h <;> exact Option.some.inj h ▸ hinst

theorem isOpv_decodeOpv (hinst : inst.controlType = .none)
    (h : decodeOpv instWord inst = some inst') : IsOpv inst' := by
  have hopv : IsOpv { inst with opcode := .opv } := ⟨rfl, hinst⟩
  rw [decodeOpv] at h
  split at h
  · exact isOpv_opvSwitch h hopv
  · exact isOpv_opvSwitch h hopv
  · exact isOpv_opvSwitch h hopv
  · exact isOpv_opvSwitch h hopv
  · exact isOpv_opvSwitch h hopv
  · exact isOpv_opvSwitch h hopv
  · exact isOpv_opvSwitch h hopv
  · exact isOpv_decodevOpcfg hopv h

/-! ## Memory instructions of the floating-point opcodes

The field of the width says whether an access is one of a vector. Those that are not have the
control type of an integer access, though the registers are floating-point ones.
-/

/-- A vector load as it is decoded. A unit-stride one has no second operand, and its elements are
as wide as `funct3` says. -/
structure IsLoadv (inst : DecodedInst) : Prop where
  opcode : inst.opcode = .loadfp
  controlType : inst.controlType = .vload
  unitStride : inst.instName = .vleXV →
    inst.rs2Type = .none ∧ inst.vrdView = elementView inst.funct3

theorem isLoadv_decodeLoadv (hinst : inst.rs2Type = .none)
    (h : decodeLoadv instWord inst = some inst') : IsLoadv inst' := by
  rw [decodeLoadv] at h
  -- every other case has a name of its own
  have hother : ∀ {inst₁ : DecodedInst} {n : ℕ}, inst₁.opcode = .loadfp →
      inst₁.controlType = .vload → inst₁.instName = .other n → IsLoadv inst₁ :=
    fun hop hcontrol hname ↦ ⟨hop, hcontrol, fun h ↦ by rw [hname] at h; cases h⟩
  split at h
  · cases h
  · split at h
    · split at h
      · exact Option.some.inj h ▸ ⟨rfl, rfl, fun _ ↦ ⟨hinst, rfl⟩⟩
      · split at h
        · cases h
        · obtain ⟨view, -, rfl⟩ := Option.map_eq_some_iff.mp h
          exact hother rfl rfl rfl
      · split at h
        · cases h
        · exact Option.some.inj h ▸ hother rfl rfl rfl
      · exact Option.some.inj h ▸ hother rfl rfl rfl
      · cases h
    · exact Option.some.inj h ▸ hother rfl rfl rfl
    · exact Option.some.inj h ▸ hother rfl rfl rfl
    · exact Option.some.inj h ▸ hother rfl rfl rfl

/-- A vector store as it is decoded. -/
structure IsStorev (inst : DecodedInst) : Prop where
  opcode : inst.opcode = .storefp
  controlType : inst.controlType = .vstore
  unitStride : inst.instName = .vseXV → inst.rs2Type = .none ∧ inst.rs3Type = .vreg ∧
    inst.vrdView = .none ∧ inst.vrs3View = elementView inst.funct3

theorem isStorev_decodeStorev (hinst : inst.rs2Type = .none) (hview : inst.vrdView = .none)
    (h : decodeStorev instWord inst = some inst') : IsStorev inst' := by
  rw [decodeStorev] at h
  have hother : ∀ {inst₁ : DecodedInst} {n : ℕ}, inst₁.opcode = .storefp →
      inst₁.controlType = .vstore → inst₁.instName = .other n → IsStorev inst₁ :=
    fun hop hcontrol hname ↦ ⟨hop, hcontrol, fun h ↦ by rw [hname] at h; cases h⟩
  split at h
  · cases h
  · split at h
    · split at h
      · exact Option.some.inj h ▸ ⟨rfl, rfl, fun _ ↦ ⟨hinst, rfl, hview, rfl⟩⟩
      · split at h
        · cases h
        · obtain ⟨view, -, rfl⟩ := Option.map_eq_some_iff.mp h
          exact hother rfl rfl rfl
      · split at h
        · cases h
        · exact Option.some.inj h ▸ hother rfl rfl rfl
      · cases h
    · exact Option.some.inj h ▸ hother rfl rfl rfl
    · exact Option.some.inj h ▸ hother rfl rfl rfl
    · exact Option.some.inj h ▸ hother rfl rfl rfl

/-- A floating-point load as it is decoded, with the control type of an integer load. -/
def IsFpLoad (inst : DecodedInst) : Prop :=
  inst.opcode = .loadfp ∧ inst.controlType = .load ∧ inst.rdType = .freg

theorem decodeLoadfp_cases (hinst : inst.rs2Type = .none)
    (h : decodeLoadfp instWord inst = some inst') : IsLoadv inst' ∨ IsFpLoad inst' := by
  rw [decodeLoadfp] at h
  split at h
  · exact .inl (isLoadv_decodeLoadv hinst h)
  · exact .inl (isLoadv_decodeLoadv hinst h)
  · exact .inl (isLoadv_decodeLoadv hinst h)
  · exact .inl (isLoadv_decodeLoadv hinst h)
  · obtain ⟨-, rfl⟩ := named_eq_some h
    exact .inr ⟨rfl, rfl, rfl⟩

/-- A floating-point store as it is decoded. -/
def IsFpStore (inst : DecodedInst) : Prop :=
  inst.opcode = .storefp ∧ inst.controlType = .store ∧ inst.rs2Type = .freg

theorem decodeStorefp_cases (hinst : inst.rs2Type = .none) (hview : inst.vrdView = .none)
    (h : decodeStorefp instWord inst = some inst') : IsStorev inst' ∨ IsFpStore inst' := by
  rw [decodeStorefp] at h
  split at h
  · exact .inl (isStorev_decodeStorev hinst hview h)
  · exact .inl (isStorev_decodeStorev hinst hview h)
  · exact .inl (isStorev_decodeStorev hinst hview h)
  · exact .inl (isStorev_decodeStorev hinst hview h)
  · obtain ⟨-, rfl⟩ := named_eq_some h
    exact .inr ⟨rfl, rfl, rfl⟩

/-! ## The decoder as a whole -/

theorem decodeOpfp_eq_some (h : decodeOpfp instWord inst = some inst') :
    inst'.opcode = inst.opcode ∧ inst'.controlType = inst.controlType := by
  obtain ⟨inst₁, hname, h⟩ := Option.bind_eq_some_iff.mp h
  obtain ⟨-, rfl⟩ := named_eq_some hname
  dsimp only at h
  split at h
  · cases h
  · exact Option.some.inj h ▸ ⟨rfl, rfl⟩

theorem opcode_decodeSystem (h : decodeSystem instWord inst = some inst') :
    inst'.opcode = inst.opcode := by
  rw [decodeSystem] at h
  split at h
  · exact Option.some.inj h ▸ rfl
  · split at h
    · split at h <;> first | exact Option.some.inj h ▸ rfl | cases h
    all_goals first | exact Option.some.inj h ▸ rfl | cases h

/-- No system instruction accesses memory. -/
theorem controlType_decodeSystem (h : decodeSystem instWord inst = some inst') :
    inst'.controlType ≠ .vload ∧ inst'.controlType ≠ .vstore := by
  rw [decodeSystem] at h
  split at h
  · exact Option.some.inj h ▸ ⟨nofun, nofun⟩
  · split at h
    · split at h <;> first | exact Option.some.inj h ▸ ⟨nofun, nofun⟩ | cases h
    all_goals first | exact Option.some.inj h ▸ ⟨nofun, nofun⟩ | cases h

theorem opcode_decodeOpcode {opcode : OPCode}
    (h : decodeOpcode instWord { rawInst := instWord, opcode := opcode } = some inst) :
    inst.opcode = opcode := by
  have hnamed : ∀ {name : InstName} {inst₁ : DecodedInst}, inst₁.opcode = opcode →
      named name inst₁ = some inst → inst.opcode = opcode := by
    intro name inst₁ hop h
    obtain ⟨-, rfl⟩ := named_eq_some h
    exact hop
  cases opcode with
  | load | opimm | opimm32 | store | amo | op | op32 | madd | msub | nmsub | nmadd | branch =>
    exact hnamed rfl h
  | loadfp =>
    rcases decodeLoadfp_cases rfl h with h | h
    · exact h.opcode
    · exact h.1
  | storefp =>
    rcases decodeStorefp_cases rfl rfl h with h | h
    · exact h.opcode
    · exact h.1
  | miscmem =>
    rw [decodeOpcode] at h
    dsimp only at h
    split_ifs at h <;> exact Option.some.inj h ▸ rfl
  | auipc | lui | jalr | jal => exact Option.some.inj h ▸ rfl
  | opfp => exact (decodeOpfp_eq_some h).1
  | opv => exact (isOpv_decodeOpv rfl h).1
  | system => exact opcode_decodeSystem h
  | nop => cases h

/-- An accepted word is one that the switch over its opcode accepts. -/
theorem decode_eq_some (hlow : instWord &&& 0x3 = 0x3)
    (h : decode decodeRvc instWord = some inst) :
    decodeOpcode instWord { rawInst := instWord, opcode := inst.opcode } = some inst := by
  rw [decode, if_neg (not_not_intro hlow)] at h
  obtain ⟨opcode, -, h⟩ := Option.bind_eq_some_iff.mp h
  rwa [opcode_decodeOpcode h]

section Accepted

variable (hlow : instWord &&& 0x3 = 0x3) (h : decode decodeRvc instWord = some inst)
include hlow h

theorem controlType_jal (hop : inst.opcode = .jal) :
    inst.controlType = if inst.rd = 1 ∨ inst.rd = 5 then .call else .directJump := by
  have h' := decode_eq_some hlow h
  rw [hop] at h'
  exact Option.some.inj h' ▸ rfl

/-- A jump to a register is a call if it links to `x1`, from another register. -/
theorem controlType_jalr (hop : inst.opcode = .jalr) :
    inst.controlType = if inst.rd = 1 ∧ inst.rs1 ≠ 1 then .call
      else if inst.rd = 0 ∧ inst.rs1 = 1 then .ret
      else .indirectJump := by
  have h' := decode_eq_some hlow h
  rw [hop] at h'
  exact Option.some.inj h' ▸ rfl

/-- The arithmetic of floating-point numbers has no control type. -/
theorem controlType_floatingPoint (hop : inst.opcode = .opfp ∨ inst.opcode = .madd ∨
    inst.opcode = .msub ∨ inst.opcode = .nmsub ∨ inst.opcode = .nmadd) :
    inst.controlType = .none := by
  have h' := decode_eq_some hlow h
  rcases hop with hop | hop | hop | hop | hop <;> rw [hop] at h'
  · exact (decodeOpfp_eq_some h').2
  all_goals
    obtain ⟨-, heq⟩ := named_eq_some h'
    exact heq ▸ rfl

theorem controlType_amo (hop : inst.opcode = .amo) : inst.controlType = .amo := by
  have h' := decode_eq_some hlow h
  rw [hop] at h'
  obtain ⟨-, heq⟩ := named_eq_some h'
  exact heq ▸ rfl

theorem controlType_opv (hop : inst.opcode = .opv) : inst.controlType = .none := by
  have h' := decode_eq_some hlow h
  rw [hop] at h'
  exact (isOpv_decodeOpv rfl h').2

/-- The two control types of vector accesses come from two opcodes. -/
theorem vectorAccess_cases : IsLoadv inst ∨ IsStorev inst ∨
    (inst.controlType ≠ .vload ∧ inst.controlType ≠ .vstore) := by
  have h' := decode_eq_some hlow h
  have hnamed : ∀ {name : InstName} {inst₁ : DecodedInst},
      (inst₁.controlType ≠ .vload ∧ inst₁.controlType ≠ .vstore) →
      named name inst₁ = some inst → inst.controlType ≠ .vload ∧ inst.controlType ≠ .vstore := by
    intro name inst₁ hcontrol h
    obtain ⟨-, rfl⟩ := named_eq_some h
    exact hcontrol
  cases hop : inst.opcode <;> rw [hop] at h'
  case loadfp =>
    rcases decodeLoadfp_cases rfl h' with hload | hload
    · exact .inl hload
    · rw [hload.2.1]
      exact .inr (.inr ⟨nofun, nofun⟩)
  case storefp =>
    rcases decodeStorefp_cases rfl rfl h' with hstore | hstore
    · exact .inr (.inl hstore)
    · rw [hstore.2.1]
      exact .inr (.inr ⟨nofun, nofun⟩)
  case opv =>
    rw [controlType_opv hlow h hop]
    exact .inr (.inr ⟨nofun, nofun⟩)
  case opfp =>
    rw [controlType_floatingPoint hlow h (.inl hop)]
    exact .inr (.inr ⟨nofun, nofun⟩)
  case system => exact .inr (.inr (controlType_decodeSystem h'))
  case jal =>
    rw [controlType_jal hlow h hop]
    refine .inr (.inr ?_)
    split <;> exact ⟨nofun, nofun⟩
  case jalr =>
    rw [controlType_jalr hlow h hop]
    refine .inr (.inr ?_)
    split_ifs <;> exact ⟨nofun, nofun⟩
  case miscmem =>
    rw [decodeOpcode] at h'
    dsimp only at h'
    refine .inr (.inr ?_)
    split_ifs at h' <;> exact Option.some.inj h' ▸ ⟨nofun, nofun⟩
  case auipc | lui =>
    obtain rfl := Option.some.inj h'
    exact .inr (.inr ⟨fun h ↦ (by cases h), fun h ↦ (by cases h)⟩)
  case nop => cases h'
  all_goals
    refine .inr (.inr (hnamed ?_ h'))
    exact ⟨fun h ↦ (by cases h), fun h ↦ (by cases h)⟩

theorem isLoadv_of_vload (hcontrol : inst.controlType = .vload) : IsLoadv inst := by
  rcases vectorAccess_cases hlow h with hload | hstore | hneither
  · exact hload
  · cases hcontrol.symm.trans hstore.controlType
  · exact absurd hcontrol hneither.1

theorem isStorev_of_vstore (hcontrol : inst.controlType = .vstore) : IsStorev inst := by
  rcases vectorAccess_cases hlow h with hload | hstore | hneither
  · cases hcontrol.symm.trans hload.controlType
  · exact hstore
  · exact absurd hcontrol hneither.2

end Accepted

end Rv64archsem
