import SimbusNoc.Manycore.CoreRuns
import Mathlib.Algebra.Order.Floor.Div

/-!
# Timing tables

`load_instruction_timing`: a file of lines `name = cycles` and `name = { base = b, lanes = n }`,
with comments, whose entries go over those of a configuration. A file is its bytes, one character
each. The two regular expressions have no choices that overlap, so each is a parser without
backtracking.

A table may be accepted and still stop an instruction: `base = 0` passes, and with a vector length
of 0 there is no cycle left, and a base close to 2^32 leaves no room for the lanes.
`timed_iff_fits` says that nothing else can go wrong.

## From the file to its entries

`loadInstructionTiming` is the source's loop, with its checks in their order and the texts of its
errors. `entries` is what the file says with the checks left aside, and `loadLines_eq_ok` relates
the two: an accepted file has no key twice, and its entries go over the configuration one by one.
Since no key occurs twice the order of the lines does not matter, and `timingOf` looks an entry up
in the file.

## From an entry to a latency

`InForce` says which entry an instruction is timed by: its own, or the common one of vector
instructions, or its category. `exactCycles` are the cycles of a timing in exact arithmetic, and
`Fits` is the condition under which the source's check passes for every vector length.
-/

namespace Manycore

open Simbus Rv64archsem

namespace TimingTable

/-! ## Lines -/

/-- What `\s` matches. -/
def isSpace (c : Char) : Bool := [' ', '\t', '\n', '\x0b', '\x0c', '\r'].contains c

/-- `[a-zA-Z0-9_.]`. -/
def isKeyChar (c : Char) : Bool := c.isAlphanum || c == '_' || c == '.'

def skipSpace (s : List Char) : List Char := s.dropWhile isSpace

/-- The given characters, after white space. -/
def literal (word : List Char) (s : List Char) : Option (List Char) :=
  let s := skipSpace s
  if word.isPrefixOf s then some (s.drop word.length) else none

/-- At least one character of a class, after white space, as many as there are. -/
def run (keep : Char → Bool) (s : List Char) : Option (List Char × List Char) :=
  let s := skipSpace s
  if (s.takeWhile keep).isEmpty then none else some (s.takeWhile keep, s.dropWhile keep)

/-- What the groups of the two regular expressions hold. -/
structure TimingLine where
  key : String
  base : List Char
  lanes : Option (List Char)

/-- A match of `vector`. -/
def vectorLine (s : List Char) : Option TimingLine := do
  let (key, s) ← run isKeyChar s
  let s ← literal ['='] s
  let s ← literal ['\x7b'] s
  let s ← literal ['b', 'a', 's', 'e'] s
  let s ← literal ['='] s
  let (base, s) ← run Char.isDigit s
  let s ← literal [','] s
  let s ← literal ['l', 'a', 'n', 'e', 's'] s
  let s ← literal ['='] s
  let (lanes, s) ← run Char.isDigit s
  let s ← literal ['\x7d'] s
  if (skipSpace s).isEmpty then some ⟨String.ofList key, base, some lanes⟩ else none

/-- A match of `scalar`. -/
def scalarLine (s : List Char) : Option TimingLine := do
  let (key, s) ← run isKeyChar s
  let s ← literal ['='] s
  let (base, s) ← run Char.isDigit s
  if (skipSpace s).isEmpty then some ⟨String.ofList key, base, none⟩ else none

/-- A line up to its comment. -/
def uncommented (line : List Char) : List Char := line.takeWhile fun c ↦ !(c == '#' || c == ';')

/-- The line is left out: `find_first_not_of(" \r\t")` finds nothing. -/
def isBlank (line : List Char) : Bool := line.all fun c ↦ c == ' ' || c == '\r' || c == '\t'

/-- The lines that `getline` reads. One that is empty for want of a last line break is blank. -/
def fileLines (file : List Char) : List (List Char) :=
  (file.splitOn '\n').map uncommented

/-! ## Entries -/

/-- The value of decimal digits. -/
def decimal (digits : List Char) : ℕ := digits.foldl (fun n c ↦ 10 * n + (c.toNat - '0'.toNat)) 0

/-- The lambda `integer`, with the exception of `stoull`. -/
def timingInteger (digits : List Char) : Except String ℕ := do
  let n := decimal digits
  require (decide (n < 2 ^ 64)) "stoull"
  require (decide (n ≤ 2 ^ 32 - 1)) "timing overflow"
  return n

/-- The lanes of a line, 0 when it has none. -/
def timingLanes : Option (List Char) → Except String ℕ
  | none => .ok 0
  | some digits => timingInteger digits

/-- The keys of vector loads and stores, which are no instruction names. -/
def accessKeys : List String :=
  ["vle8.v", "vle16.v", "vle32.v", "vle64.v", "vse8.v", "vse16.v", "vse32.v", "vse64.v"]

def defaultKey : String := "vector.default"

/-- The configuration with one entry more. -/
def insert (config : InstructionLatencyConfig) (entry : String × Timing) :
    InstructionLatencyConfig :=
  if entry.1 = defaultKey then
    { config with vectorBase := entry.2.base, vectorLanes := entry.2.lanes }
  else { config with instructions := Function.update config.instructions entry.1 (some entry.2) }

/-- The loop body for a line that is not blank, after the check for duplicates. -/
def timingEntry (names : List String) (line : TimingLine) : Except String (String × Timing) := do
  let key := line.key
  let base ← timingInteger line.base
  let lanes ← timingLanes line.lanes
  let v := line.lanes.isSome
  require (!(v && lanes == 0)) "lanes must be positive"
  require (!(!v && base == 0)) "cycles must be positive"
  if key = defaultKey then
    require v "vector.default requires lanes"
    return (key, ⟨base, lanes⟩)
  require (names.contains key || accessKeys.contains key) s!"unknown instruction: {key}"
  require (!(v && (!(key.toList.head? == some 'v') || ['v', 's', 'e', 't'].isPrefixOf key.toList)))
    "VL timing requires vector ALU"
  return (key, ⟨base, lanes⟩)

/-- The loop over the lines. The candidate and the keys so far are `candidate` and `seen`. -/
def loadLines (names : List String) :
    List (List Char × ℕ) → InstructionLatencyConfig → List String →
      Except String InstructionLatencyConfig
  | [], candidate, _ => .ok candidate
  | (line, number) :: rest, candidate, seen =>
    if isBlank line then loadLines names rest candidate seen
    else
      match (vectorLine line).or (scalarLine line) with
      | none => .error s!"invalid timing line {number}"
      | some m => do
        require (!seen.contains m.key) s!"duplicate timing key: {m.key}"
        let entry ← timingEntry names m
        loadLines names rest (insert candidate entry) (m.key :: seen)

/-- `load_instruction_timing` on the contents of the file: what it throws, if anything, and the
configuration that it leaves. -/
def loadInstructionTiming (names : List String) (path : String) (contents : Option (List Char))
    (config : InstructionLatencyConfig) : Option String × InstructionLatencyConfig :=
  match contents with
  | none => (some s!"cannot open timing table: {path}", config)
  | some file =>
    match loadLines names ((fileLines file).zipIdx 1) config [] with
    | .ok candidate => (none, candidate)
    | .error e => (some e, config)

/-! ## What an accepted table says -/

/-- What a line that is not blank says, all checks aside. -/
def entryOf (line : List Char) : Option (String × Timing) :=
  ((vectorLine line).or (scalarLine line)).map fun m ↦
    (m.key, ⟨decimal m.base, (m.lanes.map decimal).getD 0⟩)

/-- The entries of a file. -/
def entries (file : List Char) : List (String × Timing) :=
  ((fileLines file).filter fun line ↦ !isBlank line).filterMap entryOf

/-- The timing under a key: from the table, or else from the configuration below it. -/
def timingOf (start : InstructionLatencyConfig) (entries : List (String × Timing)) (key : String) :
    Option Timing :=
  ((entries.filter fun e ↦ !(e.1 == defaultKey)).lookup key).or (start.instructions key)

/-- The timing of vector instructions without one of their own. -/
def defaultOf (start : InstructionLatencyConfig) (entries : List (String × Timing)) : Timing :=
  (entries.lookup defaultKey).getD ⟨start.vectorBase, start.vectorLanes⟩

/-- `vsetvli`, `vsetivli` and `vsetvl`. -/
def IsVset (inst : DecodedInst) : Prop :=
  inst.instName = .vsetvli ∨ inst.instName = .vsetivli ∨ inst.instName = .vsetvl

variable {arch : ArchSem} {names : List String} {path : String} {file : List Char}
  {start config : InstructionLatencyConfig} {inst : DecodedInst} {t : Timing}

/-- The entry that an instruction is timed by. -/
inductive InForce (arch : ArchSem) (start : InstructionLatencyConfig)
    (entries : List (String × Timing)) (inst : DecodedInst) (t : Timing) : Prop
  | own : timingOf start entries (timingKey arch inst) = some t → InForce arch start entries inst t
  | default : timingOf start entries (timingKey arch inst) = none → inst.opcode = .opv →
      ¬IsVset inst → defaultOf start entries = t → t.lanes ≠ 0 → InForce arch start entries inst t

theorem timingEntry_eq_ok {m : TimingLine} {entry : String × Timing}
    (h : timingEntry names m = .ok entry) :
    entry = (m.key, ⟨decimal m.base, (m.lanes.map decimal).getD 0⟩) := by
  have hinteger : ∀ {digits n}, timingInteger digits = .ok n → n = decimal digits := by
    intro digits n hn
    obtain ⟨_, -, hn⟩ := Except.bind_eq_ok_iff.mp hn
    obtain ⟨_, -, hn⟩ := Except.bind_eq_ok_iff.mp hn
    exact (Except.ok.inj hn).symm
  obtain ⟨base, hbase, h⟩ := Except.bind_eq_ok_iff.mp h
  obtain ⟨lanes, hlanes, h⟩ := Except.bind_eq_ok_iff.mp h
  obtain ⟨_, -, h⟩ := Except.bind_eq_ok_iff.mp h
  obtain ⟨_, -, h⟩ := Except.bind_eq_ok_iff.mp h
  have hlanes' : lanes = (m.lanes.map decimal).getD 0 := by
    cases hm : m.lanes with
    | none =>
      rw [hm] at hlanes
      exact (Except.ok.inj hlanes).symm
    | some digits =>
      rw [hm] at hlanes
      exact hinteger hlanes
  have hentry : entry = (m.key, ⟨base, lanes⟩) := by
    split_ifs at h
    · obtain ⟨_, -, h⟩ := Except.bind_eq_ok_iff.mp h
      exact (Except.ok.inj h).symm
    · obtain ⟨_, -, h⟩ := Except.bind_eq_ok_iff.mp h
      obtain ⟨_, -, h⟩ := Except.bind_eq_ok_iff.mp h
      exact (Except.ok.inj h).symm
  rw [hentry, hinteger hbase, hlanes']

/-- An accepted file has no key twice, and its entries go over the configuration one by one. -/
theorem loadLines_eq_ok {lines : List (List Char × ℕ)} {seen : List String}
    (h : loadLines names lines start seen = .ok config) :
    let l := ((lines.map Prod.fst).filter fun line ↦ !isBlank line).filterMap entryOf
    (l.map Prod.fst).Nodup ∧ (∀ key ∈ l.map Prod.fst, key ∉ seen) ∧
      config = l.foldl insert start := by
  -- Over the lines. The keys seen so far keep those of the rest apart from them.
  induction lines generalizing start seen with
  | nil => exact ⟨List.nodup_nil, nofun, (Except.ok.inj h).symm⟩
  | cons head rest ih =>
    obtain ⟨line, number⟩ := head
    rw [loadLines] at h
    by_cases hblank : isBlank line = true
    · rw [if_pos hblank] at h
      simpa [hblank] using ih h
    · rw [if_neg hblank] at h
      cases hmatch : (vectorLine line).or (scalarLine line) with
      | none =>
        rw [hmatch] at h
        cases h
      | some m =>
        rw [hmatch] at h
        obtain ⟨_, hseen, h⟩ := Except.bind_eq_ok_iff.mp h
        obtain ⟨entry, hentry, h⟩ := Except.bind_eq_ok_iff.mp h
        rw [require_eq_ok_iff, Bool.not_eq_true', List.contains_eq_mem, decide_eq_false_iff_not]
          at hseen
        obtain ⟨hnodup, hfresh, hconfig⟩ := ih h
        have hline : entryOf line = some entry := by
          rw [entryOf, hmatch, timingEntry_eq_ok hentry]
          rfl
        have hkey : entry.1 = m.key := by rw [timingEntry_eq_ok hentry]
        have hcons : (((line, number) :: rest).map Prod.fst).filter (fun line ↦ !isBlank line) =
            line :: (rest.map Prod.fst).filter fun line ↦ !isBlank line :=
          List.filter_cons_of_pos (by simpa using hblank)
        rw [hcons, List.filterMap_cons_some hline]
        refine ⟨List.nodup_cons.mpr ⟨fun hmem ↦ hfresh _ hmem ?_, hnodup⟩, fun key hmem ↦ ?_,
          hconfig⟩
        · exact hkey ▸ List.mem_cons_self
        · rcases List.mem_cons.mp hmem with rfl | hmem
          · exact hkey ▸ hseen
          · exact fun hold ↦ hfresh key hmem (List.mem_cons_of_mem _ hold)

/-- Entries without a key twice can be looked up in any order. -/
theorem foldl_insert {l : List (String × Timing)} (hnodup : (l.map Prod.fst).Nodup) :
    (l.foldl insert start).instructions = timingOf start l ∧
      (l.foldl insert start).vectorBase = (defaultOf start l).base ∧
      (l.foldl insert start).vectorLanes = (defaultOf start l).lanes := by
  induction l generalizing start with
  | nil => exact ⟨rfl, rfl, rfl⟩
  | cons entry rest ih =>
    obtain ⟨name, t⟩ := entry
    obtain ⟨hnot, hnodup⟩ := List.nodup_cons.mp hnodup
    -- The key does not come again, so the later entries do not hide this one.
    have hfresh : rest.lookup name = none := List.lookup_eq_none_iff.mpr fun e he ↦ by
      rw [bne_iff_ne]
      exact fun heq ↦ hnot (List.mem_map.mpr ⟨e, he, heq.symm⟩)
    have ih' := @ih (insert start (name, t)) hnodup
    obtain ⟨hinstructions, hbase, hlanes⟩ := ih'
    rw [List.foldl_cons, hinstructions, hbase, hlanes]
    by_cases hname : name = defaultKey
    · subst hname
      have hinsert : insert start (defaultKey, t) =
          { start with vectorBase := t.base, vectorLanes := t.lanes } := if_pos rfl
      rw [hinsert]
      refine ⟨funext fun key ↦ ?_, ?_, ?_⟩
      · rw [timingOf, timingOf, List.filter_cons_of_neg (by simp)]
      · simp [defaultOf, hfresh]
      · simp [defaultOf, hfresh]
    · have hinsert : insert start (name, t) =
          { start with instructions := Function.update start.instructions name (some t) } :=
        if_neg hname
      have hdefault : defaultOf (insert start (name, t)) rest = defaultOf start
        ((name, t) :: rest) := by
        rw [defaultOf, defaultOf, hinsert, List.lookup_cons, beq_false_of_ne (Ne.symm hname)]
      refine ⟨funext fun key ↦ ?_, congrArg Timing.base hdefault, congrArg Timing.lanes hdefault⟩
      rw [timingOf, timingOf, hinsert, List.filter_cons_of_pos (by simpa using hname),
        List.lookup_cons]
      by_cases hkey : key = name
      · subst hkey
        have hfresh' : (rest.filter fun e ↦ !(e.1 == defaultKey)).lookup key = none :=
          List.lookup_eq_none_iff.mpr fun e he ↦
            List.lookup_eq_none_iff.mp hfresh e (List.mem_of_mem_filter he)
        simp [hfresh']
      · simp [hkey, beq_false_of_ne hkey]

theorem foldl_insert_categories (l : List (String × Timing)) :
    l.foldl insert start = { start with
      instructions := (l.foldl insert start).instructions
      vectorBase := (l.foldl insert start).vectorBase
      vectorLanes := (l.foldl insert start).vectorLanes } := by
  induction l generalizing start with
  | nil => rfl
  | cons entry rest ih =>
    rw [List.foldl_cons, ih, insert]
    split_ifs <;> rfl

/-! ## Latencies

A timing is looked up under one key, so only the entry in force matters to an instruction.
-/

/-- The largest vector length of a legal configuration. -/
def largestVl : ℕ := getMaxVectorLength .e8 .m8

/-- No category takes no time. -/
structure Positive (config : InstructionLatencyConfig) : Prop where
  integerAlu : config.integerAlu ≠ 0
  integerMultiply : config.integerMultiply ≠ 0
  integerDivide : config.integerDivide ≠ 0
  branchJump : config.branchJump ≠ 0
  csr : config.csr ≠ 0
  memoryIssue : config.memoryIssue ≠ 0
  fence : config.fence ≠ 0
  vectorConfig : config.vectorConfig ≠ 0
  vectorIntegerAlu : config.vectorIntegerAlu ≠ 0

/-- What a table owes to an instruction. -/
structure Timed (arch : ArchSem) (config start : InstructionLatencyConfig)
    (entries : List (String × Timing)) (inst : DecodedInst) : Prop where
  runs : ∀ vl ≤ largestVl, ∃ n, instructionLatency arch inst config vl = .ok n ∧ 1 ≤ n ∧
    ∀ t, InForce arch start entries inst t → t.lanes ≠ 0 → n = t.base + vl ⌈/⌉ t.lanes
  mono : ∀ vl vl' n n', vl ≤ vl' → vl' ≤ largestVl →
    instructionLatency arch inst config vl = .ok n →
    instructionLatency arch inst config vl' = .ok n' → n ≤ n'

/-- The cycles of a timing are neither 0 nor too many, for any vector length. -/
structure Fits (t : Timing) : Prop where
  pos : 1 ≤ t.base
  le : t.base + (if t.lanes = 0 then 0 else largestVl ⌈/⌉ t.lanes) ≤ 2 ^ 32 - 1

/-- The cycles of a timing in exact arithmetic. -/
def exactCycles (t : Timing) (vl : ℕ) : ℕ := t.base + if t.lanes = 0 then 0 else vl ⌈/⌉ t.lanes

theorem cycles_eq_ok_iff {vl n : ℕ} :
    t.cycles vl = .ok n ↔ n = exactCycles t vl ∧ 1 ≤ n ∧ n ≤ 2 ^ 32 - 1 := by
  have hexact : (t.base + if t.lanes = 0 then 0 else (vl + t.lanes - 1) / t.lanes) =
      exactCycles t vl := rfl
  rw [Timing.cycles, hexact, Except.bind_eq_ok_iff]
  constructor
  · rintro ⟨_, hcheck, h⟩
    obtain rfl := Except.ok.inj h
    rw [require_eq_ok_iff] at hcheck
    simp only [Bool.not_eq_true', Bool.or_eq_false_iff, beq_eq_false_iff_ne,
      decide_eq_false_iff_not] at hcheck
    omega
  · rintro ⟨rfl, hpos, hle⟩
    refine ⟨(), ?_, rfl⟩
    rw [require_eq_ok_iff]
    simp only [Bool.not_eq_true', Bool.or_eq_false_iff, beq_eq_false_iff_ne,
      decide_eq_false_iff_not]
    omega

theorem exactCycles_mono {vl vl' : ℕ} (h : vl ≤ vl') : exactCycles t vl ≤ exactCycles t vl' := by
  rw [exactCycles, exactCycles]
  split_ifs with hlanes
  · exact le_rfl
  · exact Nat.add_le_add_left ((gc_mul_ceilDiv (Nat.pos_of_ne_zero hlanes)).monotone_l h) _

theorem fits_iff : Fits t ↔ ∀ vl ≤ largestVl, ∃ n, t.cycles vl = .ok n := by
  constructor
  · intro h vl hvl
    have hle : exactCycles t vl ≤ 2 ^ 32 - 1 := (exactCycles_mono hvl).trans h.le
    have hpos : 1 ≤ exactCycles t vl := h.pos.trans (Nat.le_add_right _ _)
    exact ⟨_, cycles_eq_ok_iff.mpr ⟨rfl, hpos, hle⟩⟩
  · intro h
    obtain ⟨n, hn⟩ := h 0 (Nat.zero_le _)
    obtain ⟨m, hm⟩ := h largestVl le_rfl
    obtain ⟨rfl, hpos, -⟩ := cycles_eq_ok_iff.mp hn
    obtain ⟨rfl, -, hle⟩ := cycles_eq_ok_iff.mp hm
    refine ⟨?_, hle⟩
    simpa [exactCycles] using hpos

theorem defaultLatency_positive (hstart : Positive config)
    (hdefault : ¬(inst.opcode = .opv ∧ ¬IsVset inst ∧ config.vectorLanes ≠ 0)) :
    ∃ n, 1 ≤ n ∧ ∀ vl, defaultLatency inst config vl = .ok n := by
  have hpos : ∀ {n : ℕ}, n ≠ 0 → 1 ≤ n := Nat.pos_of_ne_zero
  by_cases hopv : inst.opcode = .opv
  · by_cases hvset : IsVset inst
    · exact ⟨_, hpos hstart.vectorConfig, fun _ ↦ (if_pos hopv).trans (if_pos hvset)⟩
    · have hlanes : config.vectorLanes = 0 := by
        by_contra hlanes
        exact hdefault ⟨hopv, hvset, hlanes⟩
      exact ⟨_, hpos hstart.vectorIntegerAlu, fun _ ↦
        (if_pos hopv).trans ((if_neg hvset).trans (if_pos hlanes))⟩
  · simp only [defaultLatency, if_neg hopv]
    split
    any_goals exact ⟨_, hpos hstart.branchJump, fun _ ↦ rfl⟩
    any_goals exact ⟨_, hpos hstart.memoryIssue, fun _ ↦ rfl⟩
    any_goals exact ⟨_, hpos hstart.csr, fun _ ↦ rfl⟩
    any_goals exact ⟨_, hpos hstart.fence, fun _ ↦ rfl⟩
    split_ifs
    · exact ⟨_, hpos hstart.integerDivide, fun _ ↦ rfl⟩
    · exact ⟨_, hpos hstart.integerMultiply, fun _ ↦ rfl⟩
    · exact ⟨_, hpos hstart.integerAlu, fun _ ↦ rfl⟩

variable {l : List (String × Timing)}

theorem instructionLatency_foldl (hnodup : (l.map Prod.fst).Nodup) (hstart : Positive start)
    (inst : DecodedInst) :
    (∃ t, (∀ t', InForce arch start l inst t' ↔ t' = t) ∧
      ∀ vl n, instructionLatency arch inst (l.foldl insert start) vl = .ok n ↔
        t.cycles vl = .ok n) ∨
    ((∀ t, ¬InForce arch start l inst t) ∧ ∃ n, 1 ≤ n ∧
      ∀ vl, instructionLatency arch inst (l.foldl insert start) vl = .ok n) := by
  obtain ⟨hinstructions, hbase, hlanes⟩ := @foldl_insert start l hnodup
  have hcategories := @foldl_insert_categories start l
  rw [hinstructions, hbase, hlanes] at hcategories
  rw [hcategories]
  set config : InstructionLatencyConfig := { start with
    instructions := timingOf start l
    vectorBase := (defaultOf start l).base
    vectorLanes := (defaultOf start l).lanes } with hconfig
  -- A timing of its own comes first, then the common one of vector instructions, then the category.
  generalize htiming : timingOf start l (timingKey arch inst) = timing
  cases timing with
  | some t =>
    refine .inl ⟨t, fun t' ↦ ⟨?_, ?_⟩, fun vl n ↦ ?_⟩
    · rintro (hown | ⟨hnone, -⟩)
      · exact (Option.some.inj (htiming.symm.trans hown)).symm
      · cases htiming.symm.trans hnone
    · rintro rfl
      exact .own htiming
    · simp only [instructionLatency, hconfig, htiming]
  | none =>
    have hlatency : ∀ vl, instructionLatency arch inst config vl = (do
        let value ← defaultLatency inst config vl
        require (!(value == 0)) "instruction latency must be non-zero"
        return value) := by
      intro vl
      simp only [instructionLatency, hconfig, htiming]
    by_cases hdefault : inst.opcode = .opv ∧ ¬IsVset inst ∧ (defaultOf start l).lanes ≠ 0
    · obtain ⟨hopv, hvset, hne⟩ := hdefault
      have hvalue : ∀ vl, defaultLatency inst config vl = (defaultOf start l).cycles vl := fun vl ↦
        (if_pos hopv).trans ((if_neg hvset).trans (if_neg hne))
      refine .inl ⟨defaultOf start l, fun t' ↦ ⟨?_, ?_⟩, fun vl n ↦ ?_⟩
      · rintro (hown | ⟨-, -, -, hsame, -⟩)
        · cases htiming.symm.trans hown
        · exact hsame.symm
      · rintro rfl
        exact .default htiming hopv hvset rfl hne
      · rw [hlatency, hvalue, Except.bind_eq_ok_iff]
        constructor
        · rintro ⟨value, hcycles, h⟩
          obtain ⟨_, -, h⟩ := Except.bind_eq_ok_iff.mp h
          exact Except.ok.inj h ▸ hcycles
        · intro hcycles
          have hpos : n ≠ 0 := Nat.pos_iff_ne_zero.mp (cycles_eq_ok_iff.mp hcycles).2.1
          refine ⟨n, hcycles, ?_⟩
          rw [show (!(n == 0)) = true by simpa using hpos, require_true]
          rfl
    · -- No timing covers the instruction, and its category is the same for any vector length.
      obtain ⟨n, hpos, hn⟩ := @defaultLatency_positive config inst
        ⟨hstart.integerAlu, hstart.integerMultiply, hstart.integerDivide, hstart.branchJump,
          hstart.csr, hstart.memoryIssue, hstart.fence, hstart.vectorConfig,
          hstart.vectorIntegerAlu⟩ hdefault
      refine .inr ⟨?_, n, hpos, fun vl ↦ ?_⟩
      · rintro t (hown | ⟨-, hopv, hvset, rfl, hne⟩)
        · cases htiming.symm.trans hown
        · exact hdefault ⟨hopv, hvset, hne⟩
      · rw [hlatency, hn]
        have hcheck : (!(n == 0)) = true := by simpa using Nat.pos_iff_ne_zero.mp hpos
        simp only [bind, Except.bind, hcheck, require_true]
        rfl

/-- An instruction is timed as it should be exactly when its timing fits. -/
theorem timed_iff_fits (hnodup : (l.map Prod.fst).Nodup) (hstart : Positive start) :
    Timed arch (l.foldl insert start) start l inst ↔ ∀ t, InForce arch start l inst t → Fits t := by
  rcases @instructionLatency_foldl arch start l hnodup hstart inst with
    ⟨t, hforce, hlatency⟩ | ⟨hforce, n, hpos, hlatency⟩
  · have hall : (∀ t', InForce arch start l inst t' → Fits t') ↔ Fits t :=
      ⟨fun h ↦ h t ((hforce t).mpr rfl), fun h t' ht' ↦ (hforce t').mp ht' ▸ h⟩
    rw [hall, fits_iff]
    constructor
    · intro h vl hvl
      obtain ⟨n, hn, -⟩ := h.runs vl hvl
      exact ⟨n, (hlatency vl n).mp hn⟩
    · intro h
      refine ⟨fun vl hvl ↦ ?_, fun vl vl' n n' hle hvl' hn hn' ↦ ?_⟩
      · obtain ⟨n, hn⟩ := h vl hvl
        obtain ⟨hexact, hpos, -⟩ := cycles_eq_ok_iff.mp hn
        refine ⟨n, (hlatency vl n).mpr hn, hpos, fun t' ht' hlanes ↦ ?_⟩
        rw [hexact, (hforce t').mp ht', exactCycles, if_neg ((hforce t').mp ht' ▸ hlanes)]
      · rw [(cycles_eq_ok_iff.mp ((hlatency vl n).mp hn)).1,
          (cycles_eq_ok_iff.mp ((hlatency vl' n').mp hn')).1]
        exact exactCycles_mono hle
  · refine ⟨fun _ t ht ↦ absurd ht (hforce t), fun _ ↦
      ⟨fun vl _ ↦ ?_, fun vl vl' m m' _ _ h h' ↦ ?_⟩⟩
    · exact ⟨n, hlatency vl, hpos, fun t ht ↦ absurd ht (hforce t)⟩
    · rw [← Except.ok.inj ((hlatency vl).symm.trans h),
        ← Except.ok.inj ((hlatency vl').symm.trans h')]

/-- What is promised for a timing file. -/
structure Dependable (arch : ArchSem) (names : List String) (path : String) (file : List Char)
    (start : InstructionLatencyConfig) : Prop where
  unchanged : ∀ contents e config,
    loadInstructionTiming names path contents start = (some e, config) → config = start
  timed : ∀ config, loadInstructionTiming names path (some file) start = (none, config) →
    ∀ raw inst, arch.decode raw = some inst → Timed arch config start (entries file) inst

/-- A table that is accepted never stops a decodable instruction, is exact and monotone, exactly
when every timing that is in force for one fits its vector lengths. -/
theorem dependable_iff (arch : ArchSem) (names : List String) (path : String) (file : List Char)
    (hstart : Positive start) :
    Dependable arch names path file start ↔
      ∀ config, loadInstructionTiming names path (some file) start = (none, config) →
        ∀ raw inst, arch.decode raw = some inst →
          ∀ t, InForce arch start (entries file) inst t → Fits t := by
  -- Accepted, the file's entries go over the configuration; refused, nothing changes.
  have hload : ∀ config, loadInstructionTiming names path (some file) start = (none, config) →
      ((entries file).map Prod.fst).Nodup ∧ config = (entries file).foldl insert start := by
    intro config h
    rw [loadInstructionTiming] at h
    cases hlines : loadLines names ((fileLines file).zipIdx 1) start [] with
    | error e =>
      rw [hlines] at h
      cases (Prod.mk.inj h).1
    | ok candidate =>
      rw [hlines] at h
      obtain ⟨hnodup, -, hcandidate⟩ := loadLines_eq_ok hlines
      rw [List.zipIdx_map_fst] at hnodup hcandidate
      exact ⟨hnodup, (Prod.mk.inj h).2.symm.trans hcandidate⟩
  have hunchanged : ∀ contents e config,
      loadInstructionTiming names path contents start = (some e, config) → config = start := by
    intro contents e config h
    cases contents with
    | none => exact (Prod.mk.inj h).2.symm
    | some file =>
      rw [loadInstructionTiming] at h
      cases hlines : loadLines names ((fileLines file).zipIdx 1) start [] with
      | error e' =>
        rw [hlines] at h
        exact (Prod.mk.inj h).2.symm
      | ok candidate =>
        rw [hlines] at h
        cases (Prod.mk.inj h).1
  constructor
  · intro h config hconfig raw inst hdecode
    obtain ⟨hnodup, rfl⟩ := hload config hconfig
    exact (timed_iff_fits hnodup hstart).mp (h.timed _ hconfig raw inst hdecode)
  · refine fun h ↦ ⟨hunchanged, fun config hconfig raw inst hdecode ↦ ?_⟩
    obtain ⟨hnodup, rfl⟩ := hload config hconfig
    exact (timed_iff_fits hnodup hstart).mpr (h _ hconfig raw inst hdecode)

/-! ## Two tables -/

/-- The library with its decoder and the one mnemonic that the tables below use. -/
def vaddArch : ArchSem :=
  { Rv64AtomicCore.decodingArch with
    mnemonic := fun name ↦ if name = .vaddVv then "vadd.vv" else "illegal" }

theorem positive_default : Positive {} := by
  constructor <;> decide

def vaddTable : List Char := "vadd.vv = \x7b base=2, lanes=8 \x7d\n".toList

theorem dependable_vadd : Dependable vaddArch ["vadd.vv"] "isa-timing.ini" vaddTable {} := by
  refine (dependable_iff vaddArch ["vadd.vv"] "isa-timing.ini" vaddTable positive_default).mpr
    fun config _ raw inst _ t ht ↦ ?_
  have hentries : entries vaddTable = [("vadd.vv", ⟨2, 8⟩)] := by rfl
  rw [hentries] at ht
  rcases ht with hown | ⟨-, -, -, rfl, hne⟩
  · have ht : t = ⟨2, 8⟩ := by
      by_cases hkey : timingKey vaddArch inst = "vadd.vv"
      · rw [hkey] at hown
        exact (Option.some.inj hown).symm
      · have hlookup : ([("vadd.vv", ⟨2, 8⟩)] : List (String × Timing)).lookup
            (timingKey vaddArch inst) = none := by
          rw [List.lookup_cons, beq_false_of_ne hkey, List.lookup_nil]
        rw [timingOf, show [("vadd.vv", (⟨2, 8⟩ : Timing))].filter
          (fun e ↦ !(e.1 == defaultKey)) = [("vadd.vv", ⟨2, 8⟩)] from rfl, hlookup] at hown
        cases hown
    rw [ht]
    constructor <;> decide
  · exact absurd rfl hne

def zeroTable : List Char := "vadd.vv = \x7b base=0, lanes=8 \x7d\n".toList

/-- `vadd.vv v1, v2, v3` takes no cycle at all when the vector length is 0, and the core stops. -/
theorem not_dependable_zero :
    ∃ config inst,
      loadInstructionTiming ["vadd.vv"] "isa-timing.ini" (some zeroTable) {} = (none, config) ∧
      vaddArch.decode 0x022180d7 = some inst ∧
      instructionLatency vaddArch inst config 0 = .error "invalid timing cycles" ∧
      ¬Dependable vaddArch ["vadd.vv"] "isa-timing.ini" zeroTable {} := by
  obtain ⟨inst, hdecode, hname⟩ : ∃ inst, vaddArch.decode 0x022180d7 = some inst ∧
      inst.instName = .vaddVv := ⟨_, rfl, rfl⟩
  have hload : loadInstructionTiming ["vadd.vv"] "isa-timing.ini" (some zeroTable) {} =
      (none, insert {} ("vadd.vv", ⟨0, 8⟩)) := by rfl
  have herror : instructionLatency vaddArch inst (insert {} ("vadd.vv", ⟨0, 8⟩)) 0 =
      .error "invalid timing cycles" := by
    have hkey : timingKey vaddArch inst = "vadd.vv" := by
      simp only [timingKey, hname]
      rfl
    rw [instructionLatency, hkey]
    rfl
  refine ⟨_, inst, hload, hdecode, herror, fun h ↦ ?_⟩
  obtain ⟨n, hn, -⟩ := (h.timed _ hload _ _ hdecode).runs 0 (Nat.zero_le _)
  cases herror.symm.trans hn

end TimingTable

end Manycore
