import Mathlib.Algebra.BigOperators.Group.Finset.Piecewise
import Mathlib.Data.List.Forall2
import Mathlib.Logic.Function.Basic

/-!
# Sequential objects and their clients

An object serves one operation at a time: `apply` gives the result and the next state. The history
of a list of operations is each operation with its result. Several clients share an object when
their operations, each client's in its own order, are interleaved into one list.

## Refinement

One object refines another when its states can be abstracted to those of the other so that each
operation returns the same on both and leads to states that correspond again. The operations for
which this holds may be restricted by a predicate, since an implementation need not agree with its
specification on operations that nobody issues. The histories are then equal (`history_map`). Where
the operations of the two objects are of different kinds, `forall₂_history` compares them place by
place.

## Clients

`Interleaves` says that a list has the operations of each client, in its order and each once, and
nothing else. It is a statement about lists for each client, so it does not say when an operation
was issued. Whoever has tagged the operations with their clients gets an interleaving from the
lists of each tag (`exists_interleaves`).
-/

namespace Sequential

universe u

variable {S O R : Type u} (apply : S → O → R × S)

/-! ## Histories

The states and the results of a list of operations on an object. A relation that all operations
keep holds at each place of two histories, which is how one object is shown to refine another.
-/

/-- The state after a list of operations. -/
def final (s : S) (l : List O) : S := l.foldl (fun s o ↦ (apply s o).2) s

/-- Each operation with its result. -/
def history : S → List O → List (O × R)
  | _, [] => []
  | s, o :: l => (o, (apply s o).1) :: history (apply s o).2 l

@[simp] theorem final_nil (s : S) : final apply s [] = s := rfl

@[simp] theorem history_nil (s : S) : history apply s [] = [] := rfl

@[simp] theorem final_cons (s : S) (o : O) (l : List O) :
    final apply s (o :: l) = final apply (apply s o).2 l := rfl

theorem final_append (s : S) (l l' : List O) :
    final apply s (l ++ l') = final apply (final apply s l) l' := List.foldl_append

theorem history_append (s : S) (l l' : List O) :
    history apply s (l ++ l') = history apply s l ++ history apply (final apply s l) l' := by
  induction l generalizing s with
  | nil => rfl
  | cons o l ih => rw [List.cons_append, history, ih, history, final_cons, List.cons_append]

theorem history_concat (s : S) (l : List O) (o : O) :
    history apply s (l ++ [o]) = history apply s l ++ [(o, (apply (final apply s l) o).1)] :=
  history_append apply s l [o]

theorem map_fst_history (s : S) (l : List O) : (history apply s l).map Prod.fst = l := by
  induction l generalizing s with
  | nil => rfl
  | cons o l ih => rw [history, List.map_cons, ih]

@[simp] theorem length_history (s : S) (l : List O) : (history apply s l).length = l.length := by
  rw [← List.length_map (f := Prod.fst), map_fst_history]

/-- Two lists of matching operations run in step: they reach the same state, and at each place the
two results are those of matching operations in one state. -/
theorem forall₂_history {O' R' : Type u} (apply' : S → O' → R' × S) {Match : O → O' → Prop}
    (hstep : ∀ s o o', Match o o' → (apply' s o').2 = (apply s o).2) {l : List O} {l' : List O'}
    (h : List.Forall₂ Match l l') : ∀ s, final apply' s l' = final apply s l ∧
      List.Forall₂ (fun x y ↦ Match x.1 y.1 ∧ ∃ t, x.2 = (apply t x.1).1 ∧ y.2 = (apply' t y.1).1)
        (history apply s l) (history apply' s l') := by
  induction h with
  | nil => exact fun s ↦ ⟨rfl, List.Forall₂.nil⟩
  | cons hmatch _ ih =>
    intro s
    rw [final_cons, final_cons, hstep s _ _ hmatch]
    obtain ⟨hfinal, hhistory⟩ := ih (apply s _).2
    refine ⟨hfinal, ?_⟩
    rw [history, history, hstep s _ _ hmatch]
    exact List.Forall₂.cons ⟨hmatch, s, rfl, rfl⟩ hhistory

/-- An object that refines another, by an abstraction of its states: as long as the operations are
ones that both carry out alike, they return the same, and their states still correspond. -/
theorem history_map {S' : Type u} (apply' : S' → O → R × S') (abs : S → S') {Op : O → Prop}
    (hstep : ∀ s o, Op o →
      (apply s o).1 = (apply' (abs s) o).1 ∧ abs (apply s o).2 = (apply' (abs s) o).2)
    {l : List O} (hl : ∀ o ∈ l, Op o) : ∀ s, history apply s l = history apply' (abs s) l ∧
      abs (final apply s l) = final apply' (abs s) l := by
  induction l with
  | nil => exact fun s ↦ ⟨rfl, rfl⟩
  | cons o l ih =>
    intro s
    obtain ⟨hresult, hstate⟩ := hstep s o (hl o List.mem_cons_self)
    obtain ⟨hhistory, hfinal⟩ := ih (fun o' ho' ↦ hl o' (List.mem_cons_of_mem o ho')) (apply s o).2
    rw [history, history, final_cons, final_cons, hresult, hhistory, hfinal, hstate]
    exact ⟨rfl, rfl⟩

/-! ## Clients -/

section Clients

variable {ι α β : Type u} [DecidableEq ι]

/-- What the list has of one client. -/
def ofClient (i : ι) (l : List (ι × α)) : List α :=
  l.filterMap fun x ↦ if x.1 = i then some x.2 else none

/-- Every client's operations, in its order and each once, and nothing else. -/
def Interleaves (clients : ι → List α) (l : List (ι × α)) : Prop :=
  ∀ i, ofClient i l = clients i

@[simp] theorem ofClient_nil (i : ι) : ofClient i ([] : List (ι × α)) = [] := rfl

theorem ofClient_cons (i j : ι) (a : α) (l : List (ι × α)) :
    ofClient i ((j, a) :: l) = if j = i then a :: ofClient i l else ofClient i l := by
  by_cases h : j = i <;> simp [ofClient, h]

theorem ofClient_append (i : ι) (l l' : List (ι × α)) :
    ofClient i (l ++ l') = ofClient i l ++ ofClient i l' := List.filterMap_append

theorem mem_ofClient {i : ι} {a : α} {l : List (ι × α)} : a ∈ ofClient i l ↔ (i, a) ∈ l := by
  rw [ofClient, List.mem_filterMap]
  constructor
  · rintro ⟨⟨j, b⟩, hmem, hx⟩
    dsimp only at hx
    split_ifs at hx with hj
    obtain rfl := Option.some.inj hx
    exact hj ▸ hmem
  · exact fun hmem ↦ ⟨(i, a), hmem, if_pos rfl⟩

theorem ofClient_map (tag : β → ι) (f : β → α) (i : ι) (l : List β) :
    ofClient i (l.map fun x ↦ (tag x, f x)) = (l.filter fun x ↦ decide (tag x = i)).map f := by
  induction l with
  | nil => rfl
  | cons x l ih =>
    rw [List.map_cons, ofClient_cons, ih]
    by_cases h : tag x = i
    · rw [if_pos h, List.filter_cons_of_pos (by simpa using h), List.map_cons]
    · rw [if_neg h, List.filter_cons_of_neg (by simpa using h)]

open Finset in
theorem Interleaves.length_eq {clients : ι → List α} {s : Finset ι} {l : List (ι × α)}
    (h : Interleaves clients l) (hs : ∀ x ∈ l, x.1 ∈ s) :
    l.length = ∑ i ∈ s, (clients i).length := by
  have hsum : l.length = ∑ i ∈ s, (ofClient i l).length := by
    clear h
    induction l with
    | nil => simp
    | cons x l ih =>
      obtain ⟨j, a⟩ := x
      have hj : j ∈ s := hs (j, a) List.mem_cons_self
      have hone : ∀ i, (ofClient i ((j, a) :: l)).length =
          (ofClient i l).length + if j = i then 1 else 0 := by
        intro i
        rw [ofClient_cons]
        split_ifs <;> rfl
      simp only [hone]
      rw [sum_add_distrib, sum_ite_eq, if_pos hj, List.length_cons,
        ih fun x hx ↦ hs x (List.mem_cons_of_mem _ hx)]
  rw [hsum]
  exact sum_congr rfl fun i _ ↦ by rw [h i]

/-- A list of tagged operations that agrees, client by client, with the clients' own lists is an
interleaving of these. -/
theorem exists_interleaves {tag : β → ι} {Match : β → α → Prop} (l : List β) :
    ∀ clients : ι → List α,
      (∀ i, List.Forall₂ Match (l.filter fun x ↦ decide (tag x = i)) (clients i)) →
      ∃ l' : List (ι × α), Interleaves clients l' ∧
        List.Forall₂ (fun x y ↦ tag x = y.1 ∧ Match x y.2) l l' := by
  induction l with
  | nil =>
    intro clients h
    exact ⟨[], fun i ↦ (List.forall₂_nil_left_iff.mp (h i)).symm, List.Forall₂.nil⟩
  | cons x l ih =>
    intro clients h
    have hx := h (tag x)
    rw [List.filter_cons_of_pos (by simp), List.forall₂_cons_left_iff] at hx
    obtain ⟨a, rest, hmatch, hrest, hclient⟩ := hx
    obtain ⟨l', hinter, hforall⟩ := ih (Function.update clients (tag x) rest) fun i ↦ by
      by_cases hi : i = tag x
      · subst hi
        rwa [Function.update_self]
      · have hi' := h i
        rwa [List.filter_cons_of_neg (by simpa using Ne.symm hi),
          ← Function.update_of_ne hi rest clients] at hi'
    refine ⟨(tag x, a) :: l', fun i ↦ ?_, List.Forall₂.cons ⟨rfl, hmatch⟩ hforall⟩
    rw [ofClient_cons, hinter i]
    by_cases hi : tag x = i
    · subst hi
      rw [if_pos rfl, Function.update_self, hclient]
    · rw [if_neg hi, Function.update_of_ne (Ne.symm hi)]

end Clients

end Sequential
