import Mathlib.Data.Setoid.Basic
import SimbusNoc.Library.Threads

/-!
# Threads that do not race

Threads share an object, and each of them keeps to a part of it that the others leave as it is. If
its part determines the steps of a thread, the thread cannot tell how the others run: it does the
same actions in all runs in which it ends, and ends in the same state. One run in which all threads
keep to their parts and end is enough to know that.

## How the proof goes

The run of all threads, restricted to one of them, is a run of this thread with an object of its
own (`Parts.alone`). Since its steps are determined there, what it has done is always a beginning
of that run: `Ahead` is what is left of it. A second run of all threads, which may take the threads
in any other order, starts with the same `Ahead` for each thread, and every step of it uses up one
step of what is left (`Run.ahead`). That the threads keep to their parts is asked of the first run
only. For the second it follows, because it never leaves what the first has shown.
-/

namespace Threads

open Sequential

universe u

variable {ι σ μ α : Type u}

/-! ## Parts of an object -/

/-- Each thread has a part of the object, and the actions that keep to it do not change the parts of
other threads. -/
structure Parts (allows : μ → α → μ → Prop) (part : ι → Setoid μ) (keeps : ι → α → Prop) :
    Prop where
  /-- An action is possible on all objects with the same part. -/
  possible : ∀ {i : ι} {a : α} {m m' n : μ}, keeps i a → part i m n → allows m a m' →
    ∃ n', allows n a n'
  same : ∀ {i : ι} {a : α} {m m' n n' : μ}, keeps i a → part i m n → allows m a m' →
    allows n a n' → part i m' n'
  other : ∀ {i j : ι} {a : α} {m m' : μ}, keeps j a → j ≠ i → allows m a m' → part i m' m

/-- The part of a thread determines its next step. -/
structure Determined (step : ι → σ → Option α → σ → Prop) (allows : μ → α → μ → Prop)
    (part : ι → Setoid μ) (keeps : ι → α → Prop) : Prop where
  silent : ∀ {i : ι} {s s' s'' : σ}, step i s none s' → step i s none s'' → s' = s''
  exclusive : ∀ {i : ι} {s s' s'' : σ} {a : α}, step i s none s' → ¬step i s (some a) s''
  act : ∀ {i : ι} {s s' s'' : σ} {a b : α} {m m' n n' : μ}, keeps i a → part i m n →
    allows m a m' → allows n b n' → step i s (some a) s' → step i s (some b) s'' → a = b ∧ s' = s''

/-- The thread has no step to take. -/
def Ended (step : σ → Option α → σ → Prop) (s : σ) : Prop := ∀ o s', ¬step s o s'

theorem Path.head_cases {step : σ → Option α → σ → Prop} {s t : σ} {l : List α}
    (h : Path step s l t) : (s = t ∧ l = []) ∨ (∃ s', step s none s' ∧ Path step s' l t) ∨
      ∃ a l' s', l = a :: l' ∧ step s (some a) s' ∧ Path step s' l' t := by
  induction h with
  | refl => exact .inl ⟨rfl, rfl⟩
  | silent _ hstep ih =>
    rcases ih with ⟨rfl, rfl⟩ | ⟨s', hfirst, hrest⟩ | ⟨a, l', s', rfl, hfirst, hrest⟩
    · exact .inr (.inl ⟨_, hstep, .refl _⟩)
    · exact .inr (.inl ⟨s', hfirst, hrest.silent hstep⟩)
    · exact .inr (.inr ⟨a, l', s', rfl, hfirst, hrest.silent hstep⟩)
  | act _ hstep ih =>
    rcases ih with ⟨rfl, rfl⟩ | ⟨s', hfirst, hrest⟩ | ⟨a, l', s', rfl, hfirst, hrest⟩
    · exact .inr (.inr ⟨_, [], _, rfl, hstep, .refl _⟩)
    · exact .inr (.inl ⟨s', hfirst, hrest.act hstep⟩)
    · exact .inr (.inr ⟨a, _, s', rfl, hfirst, hrest.act hstep⟩)

theorem Path.eq_of_ended {step : σ → Option α → σ → Prop} {s t : σ} {l : List α}
    (h : Path step s l t) (hs : Ended step s) : s = t ∧ l = [] := by
  rcases h.head_cases with hnil | ⟨s', hfirst, -⟩ | ⟨a, l', s', -, hfirst, -⟩
  · exact hnil
  · exact absurd hfirst (hs _ _)
  · exact absurd hfirst (hs _ _)

variable [DecidableEq ι] {step : ι → σ → Option α → σ → Prop} {allows : μ → α → μ → Prop}
  {part : ι → Setoid μ} {keeps : ι → α → Prop} {S S' T T' : ι → σ} {m m' m₁ m₂ : μ}
  {k l : List (ι × α)}

/-- A thread does its actions on an object of its own as it does them on the shared one. -/
theorem Parts.alone (hparts : Parts allows part keeps)
    (haccepts : Accepts allows m (l.map Prod.snd) m') (hkeeps : ∀ x ∈ l, keeps x.1 x.2) (i : ι) :
    ∃ n, Accepts allows m (ofClient i l) n ∧ part i m' n := by
  induction l using List.reverseRecOn generalizing m' with
  | nil =>
    obtain rfl := haccepts
    exact ⟨m', rfl, (part i).refl m'⟩
  | append_singleton l x ih =>
    obtain ⟨j, a⟩ := x
    rw [List.map_append, List.map_singleton, accepts_concat] at haccepts
    obtain ⟨m₁, haccepts, hallows⟩ := haccepts
    obtain ⟨n, hn, hpart⟩ := ih haccepts fun x hx ↦ hkeeps x (List.mem_append_left _ hx)
    have hkeep : keeps j a := hkeeps (j, a) (by simp)
    rw [ofClient_append, ofClient_cons, ofClient_nil]
    by_cases hj : j = i
    · subst hj
      obtain ⟨n', hn'⟩ := hparts.possible hkeep hpart hallows
      rw [if_pos rfl]
      exact ⟨n', accepts_concat.mpr ⟨n, hn, hn'⟩, hparts.same hkeep hpart hallows hn'⟩
    · rw [if_neg hj, List.append_nil]
      exact ⟨n, hn, (part i).trans (hparts.other hkeep hj hallows) hpart⟩

/-- What is left of the run of a thread that has an object of its own. -/
def Ahead (step : ι → σ → Option α → σ → Prop) (allows : μ → α → μ → Prop) (part : ι → Setoid μ)
    (i : ι) (s : σ) (m : μ) (rest : List α) (t : σ) (n : μ) : Prop :=
  Path (step i) s rest t ∧ ∃ n₀, part i m n₀ ∧ Accepts allows n₀ rest n

/-- No run of all threads leaves the runs that the threads have alone and in which they end. -/
theorem Run.ahead (hparts : Parts allows part keeps)
    (hdetermined : Determined step allows part keeps)
    {n : ι → μ} (hended : ∀ i, Ended (step i) (T i)) (hkeeps : ∀ x ∈ k, keeps x.1 x.2)
    (hpaths : ∀ i, Path (step i) (S i) (ofClient i k) (T i))
    (haccepts : ∀ i, Accepts allows m (ofClient i k) (n i))
    (hrun : Run step allows (S, m) l (S', m')) (i : ι) : ∃ rest,
      ofClient i k = ofClient i l ++ rest ∧
      Ahead step allows part i (S' i) m' rest (T i) (n i) := by
  generalize hstart : (S, m) = start at hrun
  generalize hend : (S', m') = last at hrun
  induction hrun generalizing S' m' i with
  | refl =>
    obtain ⟨rfl, rfl⟩ := Prod.mk.inj (hstart.trans hend.symm)
    exact ⟨ofClient i k, rfl, hpaths i, m, (part i).refl m, haccepts i⟩
  | @silent S₀ S₁ m₀ m₁ l j s' hrun hstep ih =>
    obtain ⟨rfl, rfl⟩ := Prod.mk.inj hend
    obtain ⟨rest, hrest, hpath, hobject⟩ := ih i hstart rfl
    refine ⟨rest, hrest, ?_, hobject⟩
    by_cases hij : i = j
    · subst hij
      rw [Function.update_self]
      rcases hpath.head_cases with ⟨hsame, -⟩ | ⟨s'', hfirst, hpath'⟩ | ⟨a, l', s'', -, hfirst, -⟩
      · exact absurd (hsame ▸ hstep) (hended i _ _)
      · rwa [hdetermined.silent hstep hfirst]
      · exact absurd hfirst (hdetermined.exclusive hstep)
    · rwa [Function.update_of_ne hij]
  | @act S₀ S₁ m₀ m₁ m₂ l j b s' hrun hstep hallows ih =>
    obtain ⟨rfl, rfl⟩ := Prod.mk.inj hend
    obtain ⟨rest, hrest, hpath, n₀, hpart, hobject⟩ := ih j hstart rfl
    -- the next action of thread `j` alone is this one
    rcases hpath.head_cases with ⟨hsame, -⟩ | ⟨s'', hfirst, -⟩ | ⟨a, l', s'', rfl, hfirst, hpath'⟩
    · exact absurd (hsame ▸ hstep) (hended j _ _)
    · exact absurd hstep (hdetermined.exclusive hfirst)
    obtain ⟨n₁, hn₁, hobject'⟩ := hobject
    have hkeep : keeps j a := hkeeps (j, a) (mem_ofClient.mp (by simp [hrest]))
    obtain ⟨rfl, rfl⟩ := hdetermined.act hkeep ((part j).symm hpart) hn₁ hallows hfirst hstep
    rw [ofClient_append, ofClient_cons, ofClient_nil]
    by_cases hij : j = i
    · subst hij
      rw [if_pos rfl, Function.update_self]
      refine ⟨l', by rw [hrest, List.append_assoc]; rfl, hpath', n₁, ?_, hobject'⟩
      exact hparts.same hkeep hpart hallows hn₁
    · obtain ⟨rest', hrest', hpath'', n₂, hpart', hobject''⟩ := ih i hstart rfl
      rw [if_neg hij, List.append_nil, Function.update_of_ne (Ne.symm hij)]
      exact ⟨rest', hrest', hpath'', n₂, (part i).trans (hparts.other hkeep hij hallows) hpart',
        hobject''⟩

/-- Two runs in which all threads end, end in the same states of the threads and of their parts, and
each thread has done the same in both. -/
theorem Parts.ends_alike [Fintype ι] (hparts : Parts allows part keeps)
    (hdetermined : Determined step allows part keeps)
    (haccepts : Accepts allows m (k.map Prod.snd) m₁)
    (hpaths : ∀ i, Path (step i) (S i) (ofClient i k) (T i))
    (hended : ∀ i, Ended (step i) (T i)) (hkeeps : ∀ x ∈ k, keeps x.1 x.2)
    (haccepts' : Accepts allows m (l.map Prod.snd) m₂)
    (hpaths' : ∀ i, Path (step i) (S i) (ofClient i l) (T' i))
    (hended' : ∀ i, Ended (step i) (T' i)) (i : ι) :
    T i = T' i ∧ ofClient i k = ofClient i l ∧ part i m₁ m₂ := by
  choose n hn hpart using hparts.alone haccepts hkeeps
  obtain ⟨rest, hrest, hpath, n₀, hpart', hobject⟩ :=
    Run.ahead hparts hdetermined hended hkeeps hpaths
    hn (run_of_paths haccepts' hpaths') i
  obtain ⟨hsame, rfl⟩ := hpath.eq_of_ended (hended' i)
  obtain rfl : n i = n₀ := hobject
  exact ⟨hsame.symm, by rw [hrest, List.append_nil],
    (part i).trans (hpart i) ((part i).symm hpart')⟩

end Threads
