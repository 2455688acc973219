import SimbusNoc.Library.Ensures
import Mathlib.Algebra.Group.Nat.Defs
import Mathlib.Data.List.AList
import Mathlib.Logic.Function.Basic

/-!
# Shared vocabulary of the network

Identifiers, the `require` guard and the rounding helper of `simbus/common.h`, and the route table
of `simbus/businterface.h`.

## Numbers

Identifiers and counters are natural numbers. Where the source's width decides a result, the
wrap-around is written out: `alignUp` and the packet count of `send` are 32-bit, and so is the
transmission id. Ticks and statistics are 64-bit in the source and never come back to zero within
any run that one could wait for, so here they are unbounded.

## Errors and loops

A function that throws is one of `Except String`, with the text of the message, and `require` is
the only way in which the network throws by itself. Range-based loops over a container are folds
over its list of elements. The two rules for folds with exceptions say what a loop keeps and when
it returns, and all proofs about loops over nodes, ports and edges go through them.

## Route tables

A route table is a map of maps, as in the source, so that a missing source and a missing entry stay
different: a check that looks for the entry of a missing source reports another error.
-/

namespace Simbus

abbrev BusNodeT := ℕ
abbrev BusPortT := ℕ
abbrev ChannelT := ℕ
abbrev XmitIDT := ℕ

/-- A byte vector, `std::vector<uint8_t>`. -/
abbrev Bytes := List UInt8

/-- `require`: a failed check throws its message. -/
def require (condition : Bool) (message : String) : Except String Unit :=
  if condition then .ok () else .error message

@[simp] theorem require_true (message : String) : require true message = .ok () := rfl

@[simp] theorem require_false (message : String) : require false message = .error message := rfl

theorem require_eq_ok_iff {condition : Bool} {message : String} {u : Unit} :
    require condition message = .ok u ↔ condition = true := by
  cases condition <;> simp

theorem forM_eq_ok_iff {ε α : Type} {f : α → Except ε Unit} {l : List α} :
    l.forM f = .ok () ↔ ∀ a ∈ l, f a = .ok () := by
  induction l with
  | nil => simp [pure, Except.pure]
  | cons a l ih =>
    change (f a >>= fun _ ↦ l.forM f) = .ok () ↔ _
    rw [Except.bind_eq_ok_iff, List.forall_mem_cons]
    simp only [ih, exists_and_right]
    exact and_congr_left fun _ ↦ ⟨fun ⟨_, h⟩ ↦ h, fun h ↦ ⟨(), h⟩⟩

theorem foldlM_keeps {ε α β : Type} {f : β → α → Except ε β} (Keeps : β → Prop) {l : List α} :
    ∀ {b b' : β}, Keeps b → (∀ a ∈ l, ∀ b b', Keeps b → f b a = .ok b' → Keeps b') →
      l.foldlM f b = .ok b' → Keeps b' := by
  induction l with
  | nil =>
    intro b b' hb _ h
    exact Except.ok.inj h ▸ hb
  | cons a l ih =>
    intro b b' hb hstep h
    rw [List.foldlM_cons, Except.bind_eq_ok_iff] at h
    obtain ⟨b₁, hb₁, h⟩ := h
    exact ih (hstep a List.mem_cons_self b b₁ hb hb₁)
      (fun a' ha' ↦ hstep a' (List.mem_cons_of_mem a ha')) h

/-- A loop returns when every step does, from what the steps keep. -/
theorem exists_foldlM_eq_ok {ε α β : Type} {f : β → α → Except ε β} (Keeps : β → Prop)
    {l : List α} : ∀ {b : β}, Keeps b →
      (∀ a ∈ l, ∀ b, Keeps b → ∃ b', f b a = .ok b' ∧ Keeps b') →
      ∃ b', l.foldlM f b = .ok b' ∧ Keeps b' := by
  induction l with
  | nil => exact fun hb _ ↦ ⟨_, rfl, hb⟩
  | cons a l ih =>
    intro b hb hstep
    obtain ⟨b₁, hb₁, hkeeps⟩ := hstep a List.mem_cons_self b hb
    obtain ⟨b', hb', hkeeps'⟩ := ih hkeeps fun a' ha' ↦ hstep a' (List.mem_cons_of_mem a ha')
    refine ⟨b', ?_, hkeeps'⟩
    rw [List.foldlM_cons]
    exact Except.bind_eq_ok_iff.mpr ⟨b₁, hb₁, hb'⟩

/-- `align_up` in 32-bit arithmetic. The source throws for `align = 0`, which no channel width
is. -/
def alignUp (value align : ℕ) : ℕ :=
  ((value + align - 1) % 2 ^ 32 / align) * align % 2 ^ 32

/-! ## Route tables -/

/-- `route[src][dst]` is the next hop from `src` towards `dst`. -/
abbrev BusRouteTable := AList fun _ : BusNodeT ↦ AList fun _ : BusNodeT ↦ BusNodeT

namespace BusRouteTable

/-- The entry `route[src][dst]`, when both levels have it. -/
def find? (table : BusRouteTable) (src dst : BusNodeT) : Option BusNodeT :=
  (table.lookup src).bind fun row ↦ row.lookup dst

/-- Every `(src, dst, next)` of the table, in the order a loop over it meets them. -/
def toTriples (table : BusRouteTable) : List (BusNodeT × BusNodeT × BusNodeT) :=
  table.entries.flatMap fun row ↦ row.2.entries.map fun e ↦ (row.1, e.1, e.2)

theorem mem_toTriples {table : BusRouteTable} {src dst next : BusNodeT} :
    (src, dst, next) ∈ table.toTriples ↔ table.find? src dst = some next := by
  simp only [toTriples, find?, List.mem_flatMap, List.mem_map, Prod.mk.injEq,
    Option.bind_eq_some_iff]
  constructor
  · rintro ⟨⟨s, row⟩, hrow, ⟨d, n⟩, hentry, rfl, rfl, rfl⟩
    exact ⟨row, AList.mem_lookup_iff.mpr hrow, AList.mem_lookup_iff.mpr hentry⟩
  · rintro ⟨row, hrow, hentry⟩
    exact ⟨⟨src, row⟩, AList.mem_lookup_iff.mp hrow, ⟨dst, next⟩, AList.mem_lookup_iff.mp hentry,
      rfl, rfl, rfl⟩

end BusRouteTable

/-- `table[src][dst] = next`, which creates the row when it is missing. -/
def routeInsert (src dst next : BusNodeT) (table : BusRouteTable) : BusRouteTable :=
  table.insert src (((table.lookup src).getD ∅).insert dst next)

theorem find?_routeInsert (src dst next v d : BusNodeT) (table : BusRouteTable) :
    (routeInsert src dst next table).find? v d =
      if v = src ∧ d = dst then some next else table.find? v d := by
  by_cases hv : v = src
  · subst hv
    rw [routeInsert, BusRouteTable.find?, AList.lookup_insert, Option.bind_some]
    by_cases hd : d = dst
    · subst hd
      rw [AList.lookup_insert, if_pos ⟨rfl, rfl⟩]
    · rw [AList.lookup_insert_ne hd, if_neg fun h ↦ hd h.2, BusRouteTable.find?]
      cases table.lookup v <;> simp
  · rw [routeInsert, BusRouteTable.find?, AList.lookup_insert_ne hv, if_neg fun h ↦ hv h.1,
      BusRouteTable.find?]

end Simbus
