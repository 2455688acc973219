import Mathlib.Data.Finset.Insert
import Mathlib.Data.Fintype.Basic
import SimbusNoc.Library.Sequential

/-!
# Threads that share an object

A thread is a relation of steps, and a step is silent or does one action on an object that the
threads share. Threads run one step at a time, in any order. When each thread by itself has a run
whose actions are its own in some list, and the object allows this list, all of them together have
a run that does these actions in this order: a list of actions decides whether there is a run,
whatever the silent steps are.

## How the run is put together

`Path` is a run of one thread by itself, which lists its actions, and `Run` one of all threads with
their object. The proof goes through the list of actions from its end. The last action belongs to
one thread, whose own run ends with it and with silent steps (`Path.last_action`). What comes
before it is a run by induction, and then this thread takes its last action and its last silent
steps. The result and the next state of the object are given by the list, since the object allows
it, so nothing is left to choose.

This is the direction from a given order of actions to a run. It serves to show that what a machine
with caches, queues or networks has done is something that threads could have done which take turns
at a plain object.
-/

namespace Threads

open Sequential

universe u

variable {ι σ μ α : Type u}

/-! ## One thread

A run of a thread by itself has the list of its actions as a label. Steps without an action are
silent.
-/

section Path

variable (step : σ → Option α → σ → Prop)

/-- The runs of one thread, with its actions. -/
inductive Path : σ → List α → σ → Prop
  | refl (s : σ) : Path s [] s
  | silent {s s' s'' : σ} {l : List α} (h : Path s l s') (hstep : step s' none s'') : Path s l s''
  | act {s s' s'' : σ} {l : List α} {a : α} (h : Path s l s') (hstep : step s' (some a) s'') :
      Path s (l ++ [a]) s''

variable {step} {s s' s'' : σ} {l l' : List α} {a : α}

/-- The last action of a run, with silent steps after it. -/
theorem Path.last_action (h : Path step s (l ++ [a]) s'') :
    ∃ s₁ s₂, Path step s l s₁ ∧ step s₁ (some a) s₂ ∧ Path step s₂ [] s'' := by
  generalize hl : l ++ [a] = l' at h
  induction h with
  | refl => simp at hl
  | silent _ hstep ih =>
    obtain ⟨s₁, s₂, hbefore, haction, hafter⟩ := ih hl
    exact ⟨s₁, s₂, hbefore, haction, hafter.silent hstep⟩
  | act h hstep _ =>
    obtain ⟨rfl, ha⟩ := List.append_inj' hl rfl
    obtain rfl := List.singleton_inj.mp ha
    exact ⟨_, _, h, hstep, .refl _⟩

end Path

/-! ## The object -/

section Object

variable (allows : μ → α → μ → Prop)

/-- The object allows the actions, one after another. -/
def Accepts : μ → List α → μ → Prop
  | m, [], m' => m' = m
  | m, a :: l, m'' => ∃ m', allows m a m' ∧ Accepts m' l m''

variable {allows}

theorem accepts_append {l l' : List α} {m m'' : μ} :
    Accepts allows m (l ++ l') m'' ↔ ∃ m', Accepts allows m l m' ∧ Accepts allows m' l' m'' := by
  induction l generalizing m with
  | nil => exact ⟨fun h ↦ ⟨m, rfl, h⟩, fun ⟨m', hm', h⟩ ↦ hm' ▸ h⟩
  | cons a l ih =>
    constructor
    · rintro ⟨m₁, ha, hrest⟩
      obtain ⟨m', hl, hl'⟩ := ih.mp hrest
      exact ⟨m', ⟨m₁, ha, hl⟩, hl'⟩
    · rintro ⟨m', ⟨m₁, ha, hl⟩, hl'⟩
      exact ⟨m₁, ha, ih.mpr ⟨m', hl, hl'⟩⟩

theorem accepts_concat {l : List α} {a : α} {m m'' : μ} :
    Accepts allows m (l ++ [a]) m'' ↔ ∃ m', Accepts allows m l m' ∧ allows m' a m'' := by
  rw [accepts_append]
  refine exists_congr fun m' ↦ and_congr_right fun _ ↦ ?_
  exact ⟨fun ⟨m₁, ha, hm₁⟩ ↦ hm₁ ▸ ha, fun ha ↦ ⟨m'', ha, rfl⟩⟩

end Object

/-! ## All threads

A run of all threads is labelled with the threads' actions in their order, and the object must
allow them in this order. Since silent steps of one thread say nothing about the object, they can
be taken whenever they are needed, so the runs of the threads by themselves can be interleaved
along any list of actions that the object accepts.
-/

section Runs

variable [DecidableEq ι] (step : ι → σ → Option α → σ → Prop) (allows : μ → α → μ → Prop)

/-- The runs of all threads with their object. -/
inductive Run : (ι → σ) × μ → List (ι × α) → (ι → σ) × μ → Prop
  | refl (S : ι → σ) (m : μ) : Run (S, m) [] (S, m)
  | silent {S S' : ι → σ} {m m' : μ} {l : List (ι × α)} {i : ι} {s : σ}
      (h : Run (S, m) l (S', m')) (hstep : step i (S' i) none s) :
      Run (S, m) l (Function.update S' i s, m')
  | act {S S' : ι → σ} {m m' m'' : μ} {l : List (ι × α)} {i : ι} {a : α} {s : σ}
      (h : Run (S, m) l (S', m')) (hstep : step i (S' i) (some a) s) (hallows : allows m' a m'') :
      Run (S, m) (l ++ [(i, a)]) (Function.update S' i s, m'')

variable {step allows} {S S' : ι → σ} {m m' : μ} {l : List (ι × α)} {i : ι} {s : σ}

/-- What every step of a thread keeps for itself holds of all threads in a run. -/
theorem Run.keeps {P : ι → σ → Prop} (h : Run step allows (S, m) l (S', m'))
    (hfirst : ∀ i, P i (S i))
    (hstep : ∀ i s a s', P i s → step i s a s' → P i s') : ∀ i, P i (S' i) := by
  have hupdate : ∀ {T : ι → σ} {i : ι} {s : σ}, (∀ j, P j (T j)) → P i s →
      ∀ j, P j (Function.update T i s j) := by
    intro T i s hT hs j
    by_cases hji : j = i
    · subst hji
      rwa [Function.update_self]
    · rw [Function.update_of_ne hji]
      exact hT j
  generalize hstart : (S, m) = start at h
  generalize hend : (S', m') = last at h
  induction h generalizing S' m' with
  | refl T m =>
    obtain rfl := (Prod.mk.inj hend).1
    obtain rfl := (Prod.mk.inj hstart).1
    exact hfirst
  | silent _ hs ih =>
    obtain rfl := (Prod.mk.inj hend).1
    have hbefore := ih hstart rfl
    exact hupdate hbefore (hstep _ _ _ _ (hbefore _) hs)
  | act _ hs _ ih =>
    obtain rfl := (Prod.mk.inj hend).1
    have hbefore := ih hstart rfl
    exact hupdate hbefore (hstep _ _ _ _ (hbefore _) hs)

theorem Run.silentPath (h : Run step allows (S, m) l (S', m'))
    (hpath : Path (step i) (S' i) [] s) :
    Run step allows (S, m) l (Function.update S' i s, m') := by
  generalize hstart : S' i = s₀ at hpath
  generalize hnil : ([] : List α) = l' at hpath
  induction hpath with
  | refl =>
    rw [← hstart, Function.update_eq_self]
    exact h
  | @silent s₁ s₂ l' _ hstep ih =>
    have hrun := ih hnil
    have hlast : step i (Function.update S' i s₁ i) none s₂ := by rwa [Function.update_self]
    have := hrun.silent hlast
    rwa [Function.update_idem] at this
  | act => simp at hnil

theorem Run.silentPaths (h : Run step allows (S, m) l (S', m')) {S'' : ι → σ} (T : Finset ι)
    (hpaths : ∀ i ∈ T, Path (step i) (S' i) [] (S'' i)) :
    Run step allows (S, m) l (fun i ↦ if i ∈ T then S'' i else S' i, m') := by
  induction T using Finset.induction with
  | empty => simpa using h
  | insert j T hj ih =>
    have hrun := ih fun i hi ↦ hpaths i (Finset.mem_insert_of_mem hi)
    have hpath : Path (step j) ((fun i ↦ if i ∈ T then S'' i else S' i) j) [] (S'' j) := by
      dsimp only
      rw [if_neg hj]
      exact hpaths j (Finset.mem_insert_self j T)
    have hall := hrun.silentPath hpath
    have heq : Function.update (fun i ↦ if i ∈ T then S'' i else S' i) j (S'' j) =
        fun i ↦ if i ∈ insert j T then S'' i else S' i := by
      funext i
      by_cases hij : i = j
      · subst hij
        rw [Function.update_self, if_pos (Finset.mem_insert_self i T)]
      · rw [Function.update_of_ne hij]
        simp [Finset.mem_insert, hij]
    rwa [heq] at hall

/-- Runs of the threads by themselves make a run of all of them, when the object allows their
actions in this order. -/
theorem run_of_paths [Fintype ι] (haccepts : Accepts allows m (l.map Prod.snd) m')
    (hpaths : ∀ i, Path (step i) (S i) (ofClient i l) (S' i)) :
    Run step allows (S, m) l (S', m') := by
  induction l using List.reverseRecOn generalizing S' m' with
  | nil =>
    obtain rfl := haccepts
    have hrefl : Run step allows (S, m') [] (S, m') := .refl S m'
    simpa using hrefl.silentPaths Finset.univ fun i _ ↦ hpaths i
  | append_singleton l x ih =>
    obtain ⟨j, a⟩ := x
    rw [List.map_append, List.map_singleton, accepts_concat] at haccepts
    obtain ⟨m₁, haccepts, hallows⟩ := haccepts
    have hlast := hpaths j
    rw [ofClient_append, ofClient_cons, if_pos rfl, ofClient_nil] at hlast
    obtain ⟨s₁, s₂, hbefore, haction, hafter⟩ := hlast.last_action
    -- thread `j` stops before its last action, the others have done all of theirs
    have hrun : Run step allows (S, m) l (Function.update S' j s₁, m₁) := by
      refine ih haccepts fun i ↦ ?_
      by_cases hij : i = j
      · subst hij
        rwa [Function.update_self]
      · have hpath := hpaths i
        rw [ofClient_append, ofClient_cons, if_neg (Ne.symm hij), ofClient_nil,
          List.append_nil] at hpath
        rwa [Function.update_of_ne hij]
    have hact : step j (Function.update S' j s₁ j) (some a) s₂ := by rwa [Function.update_self]
    have hrun' := hrun.act hact hallows
    rw [Function.update_idem] at hrun'
    have hafter' : Path (step j) (Function.update S' j s₂ j) [] (S' j) := by
      rwa [Function.update_self]
    have hall := hrun'.silentPath hafter'
    rwa [Function.update_idem, Function.update_eq_self] at hall

end Runs

end Threads
