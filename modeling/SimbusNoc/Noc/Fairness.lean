import Mathlib.Data.List.GetD
import SimbusNoc.Noc.Gridlock
import SimbusNoc.Noc.Reliability

/-!
# Fairness of a router

A router admits at most one packet in each tick: from the first incoming edge, counted from its
edge pointer, that holds one, and if no edge does, from the first local port, counted from its port
pointer. A pointer moves past sources that offer nothing, and past a source that has been served,
and it stays at one whose packet is refused. So it never moves past a source that waits, and until
it gets there no other source is served twice.

## A tick as one turn of the router

Seen from one router, a tick is this: other routers have their turns and change nothing in front of
it, then it has its own turn, and afterwards the remaining routers and the edges may put packets in
front of it but take none away and leave its pointers alone (`exists_turn`). That other routers
change nothing in front of it is `SameDoors`: a register or a queue has one router that it leads
to.

## Runs

`tick_edge` and `tick_port` say how far the pointers can move in one tick while a source waits, and
`admissions_edge` and `admissions_port` put the ticks of a run together, as a sequence of turns on
a circle. Calls other than ticks add to queues only. The theorem is about the sources from which
packets are admitted in any sequence of calls during which a source waits. Edges come before ports
in every tick, so a port may wait for ever behind edges, and nothing is claimed about that.
-/

namespace Simbus

open RoundRobin

namespace Bus

/-! ## Sources and admissions

An edge and a port in front of a router are both sources from which it takes packets. `admission`
reads off two states which source a turn has taken from.
-/

/-- Where a router takes packets from. -/
inductive Source
  | edge (e : EdgeId)
  | port (p : BusPortT)
  deriving DecidableEq

namespace Source

/-- The stage of a source for each channel. -/
def stage : Source → ChannelT → Stage
  | edge e, c => .output e c
  | port p, c => .queue p c

def isPort : Source → Bool
  | edge _ => false
  | port _ => true

end Source

variable (b : Bus)

/-- A packet waits at the source. -/
def Offers (s : BusState) (src : Source) : Prop := ∃ c < b.chaCnt, s.contents (src.stage c) ≠ []

/-- The source the turn of node `v` takes a packet from, when the turn begins in `s`. -/
def admission (v : BusNodeT) (s : BusState) : Option Source :=
  match (b.findCandidate v s).2 with
  | .none => none
  | .edgeOutput e _ p => if b.canAcceptCandidate v (s.nodes v) p then some (.edge e) else none
  | .portSend q _ p => if b.canAcceptCandidate v (s.nodes v) p then some (.port q) else none

/-- The same for a tick that begins in `s`: the nodes before `v` have their turns first. -/
def tickAdmission (v : BusNodeT) (s : BusState) : Option Source :=
  match (b.nodeIds.takeWhile (· ≠ v)).foldlM (fun s u ↦ b.processNode u s) s with
  | .ok s => b.admission v s
  | .error _ => none

/-- The sources node `v` takes packets from in a sequence of calls, in order. -/
def admissions (v : BusNodeT) : BusState → List Call → List Source
  | _, [] => []
  | s, .applyNextTick :: rest =>
    (b.tickAdmission v s).toList ++ admissions v (b.perform s .applyNextTick).2 rest
  | s, call :: rest => admissions v (b.perform s call).2 rest

variable {b} {v u : BusNodeT} {s s' : BusState} {src : Source}

/-! ## The scan -/

/-- A scan stops at the first element that offers something, so not after one that does. -/
theorem scan_nearest {α β : Type} {offer : α → Option β} {xs : List α} {i k ptr : ℕ} {x : α} {y : β}
    (hptr : ptr < xs.length) (hx : xs[i]? = some x) (hoffer : offer x = some y)
    (hk : RoundRobin.dist xs.length ptr i < k) :
    ∃ j z w, scan offer xs k ptr = (j, some (z, w)) ∧ xs[j]? = some z ∧
      RoundRobin.dist xs.length ptr j ≤ RoundRobin.dist xs.length ptr i := by
  have hi : i < xs.length := (List.getElem?_eq_some_iff.mp hx).1
  induction k generalizing ptr with
  | zero => exact absurd hk (Nat.not_lt_zero _)
  | succ k ih =>
    have hself := RoundRobin.dist_self xs.length ptr
    rw [scan, List.getElem?_eq_getElem hptr]
    dsimp only
    split
    · refine ⟨ptr, _, _, rfl, List.getElem?_eq_getElem hptr, ?_⟩
      rw [hself]
      exact Nat.zero_le _
    · rename_i hnone
      have hne : ptr ≠ i := by
        rintro rfl
        obtain rfl := Option.some.inj ((List.getElem?_eq_getElem hptr).symm.trans hx)
        rw [hnone] at hoffer
        cases hoffer
      have hpos : RoundRobin.dist xs.length ptr ptr < RoundRobin.dist xs.length ptr i := by
        rw [hself]
        refine Nat.pos_of_ne_zero fun hzero ↦ hne (RoundRobin.dist_injective hptr hptr hi ?_)
        rw [hself, hzero]
      have hnext : advance xs.length ptr < xs.length := advance_lt (Nat.zero_lt_of_lt hi) ptr
      have hnear := RoundRobin.dist_advance hptr hptr hi hpos
      obtain ⟨j, z, w, hscan, hj, hle⟩ := ih hnext (by omega)
      refine ⟨j, z, w, hscan, hj, ?_⟩
      have hjlt : j < xs.length := (List.getElem?_eq_some_iff.mp hj).1
      rcases Nat.eq_zero_or_pos (RoundRobin.dist xs.length ptr j) with hzero | hjpos
      · rw [hzero]
        exact Nat.zero_le _
      · have hjnear := RoundRobin.dist_advance hptr hptr hjlt (by rwa [hself])
        omega

/-! ## What a turn takes

The scans go round from the pointer, over the edges first. So the candidate is the nearest edge
that offers something, and a port only when no edge does.
-/

theorem firstOutput_of_offers {e : EdgeId} (h : b.Offers s (.edge e)) :
    ∃ y, b.firstOutput s e = some y := by
  obtain ⟨c, hc, hne⟩ := h
  rcases hfirst : b.firstOutput s e with _ | y
  · rw [firstOutput, List.findSome?_eq_none_iff] at hfirst
    have hnone := Option.map_eq_none_iff.mp (hfirst c (List.mem_range.mpr hc))
    exact absurd (by simp [Source.stage, BusState.contents, hnone]) hne
  · exact ⟨y, rfl⟩

theorem firstQueued_of_offers {p : BusPortT} (h : b.Offers s (.port p)) :
    ∃ y, b.firstQueued s p = some y := by
  obtain ⟨c, hc, hne⟩ := h
  rcases hfirst : b.firstQueued s p with _ | y
  · rw [firstQueued, List.findSome?_eq_none_iff] at hfirst
    have hnone := Option.map_eq_none_iff.mp (hfirst c (List.mem_range.mpr hc))
    exact absurd (List.head?_eq_none_iff.mp hnone) hne
  · exact ⟨y, rfl⟩

theorem findCandidate_nearest_edge (hptr : Within (s.nodes v).rxPtr (b.rxs v).length) {i : ℕ}
    {e : EdgeId} (he : (b.rxs v)[i]? = some e) (hoffer : b.Offers s (.edge e)) :
    ∃ j f c p, (b.rxs v)[j]? = some f ∧
      RoundRobin.dist (b.rxs v).length (s.nodes v).rxPtr j
        ≤ RoundRobin.dist (b.rxs v).length (s.nodes v).rxPtr i ∧
      b.findCandidate v s = (s.setNode v { s.nodes v with rxPtr := j }, .edgeOutput f c p) := by
  have hi : i < (b.rxs v).length := (List.getElem?_eq_some_iff.mp he).1
  have hlt : (s.nodes v).rxPtr < (b.rxs v).length :=
    hptr.elim id fun h ↦ h ▸ Nat.zero_lt_of_lt hi
  obtain ⟨y, hy⟩ := firstOutput_of_offers hoffer
  obtain ⟨j, f, ⟨c, p⟩, hscan, hj, hle⟩ := scan_nearest hlt he hy (RoundRobin.dist_lt hlt hi)
  exact ⟨j, f, c, p, hj, hle, by rw [findCandidate, hscan]⟩

theorem findCandidate_nearest_port (hptr : Within (s.nodes v).sdPtr (b.nodePorts v).length)
    {i : ℕ} {q : BusPortT} (hq : (b.nodePorts v)[i]? = some q) (hoffer : b.Offers s (.port q)) :
    (∃ r f c p, b.findCandidate v s =
      (s.setNode v { s.nodes v with rxPtr := r }, .edgeOutput f c p)) ∨
    ∃ r j q' c p, (b.nodePorts v)[j]? = some q' ∧
      RoundRobin.dist (b.nodePorts v).length (s.nodes v).sdPtr j
        ≤ RoundRobin.dist (b.nodePorts v).length (s.nodes v).sdPtr i ∧
      b.findCandidate v s =
        (s.setNode v { s.nodes v with rxPtr := r, sdPtr := j }, .portSend q' c p) := by
  have hi : i < (b.nodePorts v).length := (List.getElem?_eq_some_iff.mp hq).1
  have hlt : (s.nodes v).sdPtr < (b.nodePorts v).length :=
    hptr.elim id fun h ↦ h ▸ Nat.zero_lt_of_lt hi
  obtain ⟨y, hy⟩ := firstQueued_of_offers hoffer
  obtain ⟨j, q', ⟨c, p⟩, hscan, hj, hle⟩ := scan_nearest hlt hq hy (RoundRobin.dist_lt hlt hi)
  rcases hrx : scan (b.firstOutput s) (b.rxs v) (b.rxs v).length (s.nodes v).rxPtr with
    ⟨r, _ | ⟨f, c', p'⟩⟩
  · exact .inr ⟨r, j, q', c, p, hj, hle, by rw [findCandidate, hrx]; dsimp only; rw [hscan]⟩
  · exact .inl ⟨r, f, c', p', by rw [findCandidate, hrx]⟩

/-! ## What a turn leaves behind

A turn that serves its candidate moves the pointer behind it and takes the first packet of the
source; one that refuses it moves the pointer on to it. Nothing else in the turn touches the
sources.
-/

/-- The source of a candidate. -/
def Candidate.source? : Candidate → Option Source
  | .none => Option.none
  | .edgeOutput e _ _ => some (.edge e)
  | .portSend q _ _ => some (.port q)

theorem admission_of_accepted {p : MsgPack} (hpack : (b.findCandidate v s).2.pack? = some p)
    (haccept : b.canAcceptCandidate v (s.nodes v) p = true) :
    b.admission v s = (b.findCandidate v s).2.source? := by
  rw [admission]
  revert hpack
  rcases (b.findCandidate v s).2 with _ | ⟨e, c, q⟩ | ⟨port, c, q⟩
  · exact fun _ ↦ rfl
  all_goals
    intro hpack
    obtain rfl := Option.some.inj hpack
    dsimp only
    rw [if_pos haccept]
    rfl

theorem admission_of_refused {p : MsgPack} (hpack : (b.findCandidate v s).2.pack? = some p)
    (hrefuse : b.canAcceptCandidate v (s.nodes v) p = false) : b.admission v s = none := by
  rw [admission]
  revert hpack
  rcases (b.findCandidate v s).2 with _ | ⟨e, c, q⟩ | ⟨port, c, q⟩
  · exact fun _ ↦ rfl
  all_goals
    intro hpack
    obtain rfl := Option.some.inj hpack
    dsimp only
    rw [if_neg (Bool.not_eq_true _ ▸ hrefuse)]

theorem stage_injective {src src' : Source} {c c' : ChannelT}
    (h : src.stage c = src'.stage c') : src = src' := by
  rcases src with e | p
  all_goals
    rcases src' with e' | p'
    · cases h
      try rfl
    · cases h
      try rfl

theorem stage_ne_pipe (src : Source) (c : ChannelT) : src.stage c ≠ .pipe v := by
  rcases src with e | p
  · exact Stage.noConfusion
  · exact Stage.noConfusion

/-- The first half of a turn takes from the source it admits and from no other. -/
theorem admitPhase_stage {busy : Bool} (h : b.admitPhase v s = .ok (s', busy))
    (hsrc : b.admission v s ≠ some src) (c : ChannelT) :
    s'.contents (src.stage c) = s.contents (src.stage c) := by
  rcases admitPhase_cases h with ⟨-, rfl⟩ | ⟨p, hpack, ⟨-, rfl⟩ | ⟨haccept, s₁, hdet, htake⟩⟩
  · rw [findCandidate_contents]
  · rw [contents_countBlocked, findCandidate_contents]
  · obtain ⟨y, hy, -, hdetached⟩ := exists_detached hpack hdet
    have hne : src.stage c ≠ y := by
      rintro rfl
      rw [admission_of_accepted hpack haccept] at hsrc
      rcases hcand : (b.findCandidate v s).2 with _ | ⟨e, d, q⟩ | ⟨port, d, q⟩
      · rw [hcand] at hy
        cases hy
      · rw [hcand] at hy hsrc
        exact hsrc (congrArg some (stage_injective (Option.some.inj hy)))
      · rw [hcand] at hy hsrc
        exact hsrc (congrArg some (stage_injective (Option.some.inj hy)))
    rw [admitCandidate_contents htake (stage_ne_pipe src c), hdetached.others _ hne,
      findCandidate_contents]

theorem pipelinePhase_stage {busy busy' : Bool} (h : b.pipelinePhase v s busy = .ok (s', busy'))
    (src : Source) (c : ChannelT) : s'.contents (src.stage c) = s.contents (src.stage c) := by
  obtain ⟨⟨kept, st⟩, hloop, h⟩ := Except.bind_eq_ok_iff.mp h
  obtain ⟨rfl, -⟩ := Prod.mk.inj (Except.ok.inj h)
  rw [BusState.contents_setNode _ _ _ (stage_ne_pipe src c)]
  rcases src with e | p
  · exact congrArg (fun output ↦ (output c).toList) ((pipelineRuns_of_eq_ok hloop).output e)
  · rfl

/-- The second half of a turn and the counters change neither the sources nor the pointers. -/
theorem processNode_cases (h : b.processNode v s = .ok s') :
    ∃ s₁ busy, b.admitPhase v s = .ok (s₁, busy) ∧ SamePointers s₁ s' ∧
      ∀ src c, s'.contents (Source.stage src c) = s₁.contents (src.stage c) := by
  obtain ⟨⟨s₁, busy₁⟩, hs₁, h⟩ := Except.bind_eq_ok_iff.mp h
  obtain ⟨⟨s₂, busy₂⟩, hs₂, h⟩ := Except.bind_eq_ok_iff.mp h
  obtain rfl := Except.ok.inj h
  refine ⟨s₁, busy₁, hs₁, ?_, fun src c ↦ ?_⟩
  · exact ((pipelinePhase_samePointers hs₂).trans (updateCongestionState_samePointers v s₂)).trans
      (countCycles_samePointers v busy₂ _)
  · rw [contents_countCycles, contents_updateCongestionState, pipelinePhase_stage hs₂]

theorem processNode_stage (h : b.processNode v s = .ok s') (hsrc : b.admission v s ≠ some src)
    (c : ChannelT) : s'.contents (src.stage c) = s.contents (src.stage c) := by
  obtain ⟨s₁, busy, hs₁, -, hstage⟩ := processNode_cases h
  rw [hstage, admitPhase_stage hs₁ hsrc]

/-- The source a turn admits from loses its first packet. -/
theorem processNode_takes (h : b.processNode v s = .ok s') (hsrc : b.admission v s = some src) :
    ∃ c p, s.contents (src.stage c) = p :: s'.contents (src.stage c) := by
  obtain ⟨s₁, busy, hs₁, -, hstage⟩ := processNode_cases h
  rcases admitPhase_cases hs₁ with ⟨hnone, -⟩ |
    ⟨p, hpack, ⟨hrefuse, -⟩ | ⟨haccept, s₂, hdet, htake⟩⟩
  · rw [admission, hnone] at hsrc
    cases hsrc
  · rw [admission_of_refused hpack hrefuse] at hsrc
    cases hsrc
  · obtain ⟨y, hy, hpipe, hdetached⟩ := exists_detached hpack hdet
    rw [admission_of_accepted hpack haccept] at hsrc
    obtain ⟨c, rfl⟩ : ∃ c, y = src.stage c := by
      rcases hcand : (b.findCandidate v s).2 with _ | ⟨e, c, q⟩ | ⟨port, c, q⟩
      · rw [hcand] at hy
        cases hy
      all_goals
        rw [hcand] at hy hsrc
        rw [← Option.some.inj hsrc, ← Option.some.inj hy]
        exact ⟨c, rfl⟩
    refine ⟨c, p, ?_⟩
    rw [hstage, admitCandidate_contents htake (stage_ne_pipe src c), ← hdetached.front,
      findCandidate_contents]

/-- A turn that finds an edge: either it serves it and its pointer moves past it, or it refuses its
packet and stays there. The port pointer does not move. -/
theorem admitPhase_edge {busy : Bool} {j : ℕ} {f : EdgeId} {c : ChannelT} {p : MsgPack}
    (h : b.admitPhase v s = .ok (s', busy))
    (hfind : b.findCandidate v s
      = (s.setNode v { s.nodes v with rxPtr := j }, .edgeOutput f c p)) :
    ((b.admission v s = none ∧ (s'.nodes v).rxPtr = j) ∨
      (b.admission v s = some (.edge f) ∧ (s'.nodes v).rxPtr = advance (b.rxs v).length j)) ∧
    (s'.nodes v).sdPtr = (s.nodes v).sdPtr := by
  rcases admitPhase_cases h with ⟨hnone, -⟩ |
    ⟨q, hpack, ⟨hrefuse, rfl⟩ | ⟨haccept, s₁, hdet, htake⟩⟩
  · rw [hfind] at hnone
    cases hnone
  · refine ⟨.inl ⟨admission_of_refused hpack hrefuse, ?_⟩, ?_⟩
    · rw [countBlocked, BusState.nodes_setNode_self, hfind, BusState.nodes_setNode_self]
    · rw [countBlocked, BusState.nodes_setNode_self, hfind, BusState.nodes_setNode_self]
  · have hadmission := admission_of_accepted hpack haccept
    rw [hfind] at hdet hadmission
    obtain ⟨_, -, hdet⟩ := Except.bind_eq_ok_iff.mp hdet
    obtain rfl := Except.ok.inj hdet
    obtain ⟨hrx, hsd⟩ := admitCandidate_samePointers htake v
    rw [BusState.nodes_setNode_self, BusState.nodes_setNode_self] at hrx hsd
    exact ⟨.inr ⟨hadmission, hrx⟩, hsd⟩

theorem admitPhase_port {busy : Bool} {r j : ℕ} {q : BusPortT} {c : ChannelT} {p : MsgPack}
    (h : b.admitPhase v s = .ok (s', busy))
    (hfind : b.findCandidate v s
      = (s.setNode v { s.nodes v with rxPtr := r, sdPtr := j }, .portSend q c p)) :
    (b.admission v s = none ∧ (s'.nodes v).sdPtr = j) ∨
      (b.admission v s = some (.port q) ∧
        (s'.nodes v).sdPtr = advance (b.nodePorts v).length j) := by
  rcases admitPhase_cases h with ⟨hnone, -⟩ |
    ⟨q, hpack, ⟨hrefuse, rfl⟩ | ⟨haccept, s₁, hdet, htake⟩⟩
  · rw [hfind] at hnone
    cases hnone
  · refine .inl ⟨admission_of_refused hpack hrefuse, ?_⟩
    rw [countBlocked, BusState.nodes_setNode_self, hfind, BusState.nodes_setNode_self]
  · have hadmission := admission_of_accepted hpack haccept
    rw [hfind] at hdet hadmission
    obtain ⟨_, -, hdet⟩ := Except.bind_eq_ok_iff.mp hdet
    obtain rfl := Except.ok.inj hdet
    obtain ⟨-, hsd⟩ := admitCandidate_samePointers htake v
    rw [BusState.nodes_setNode_self, BusState.nodes_setNode_self] at hsd
    exact .inr ⟨hadmission, hsd⟩

/-! ## The turns of the other nodes

A source is in front of one router, so the turns of the others may add to it and do not take from
it.
-/

/-- The source is in front of node `v`. -/
def Source.At (b : Bus) (v : BusNodeT) : Source → Prop
  | edge e => e.2 = v
  | port p => b.home p = v

/-- Node `v` and the sources in front of it are the same in `s'` as in `s`. -/
structure SameDoors (b : Bus) (v : BusNodeT) (s s' : BusState) : Prop where
  node : s'.nodes v = s.nodes v
  stage : ∀ src, Source.At b v src → ∀ c, s'.contents (src.stage c) = s.contents (src.stage c)

theorem SameDoors.refl (b : Bus) (v : BusNodeT) (s : BusState) : SameDoors b v s s :=
  ⟨rfl, fun _ _ _ ↦ rfl⟩

theorem SameDoors.trans {s'' : BusState} (h : SameDoors b v s s') (h' : SameDoors b v s' s'') :
    SameDoors b v s s'' :=
  ⟨h'.node.trans h.node, fun src hsrc c ↦ (h'.stage src hsrc c).trans (h.stage src hsrc c)⟩

/-- A router takes packets only from what is in front of it. -/
theorem at_of_admission (hb : b.WellFormed) (h : b.admission v s = some src) :
    Source.At b v src := by
  obtain ⟨-, -, -, hoffer⟩ := findCandidate_spec b v s
  rw [admission] at h
  revert hoffer h
  rcases (b.findCandidate v s).2 with _ | ⟨e, c, p⟩ | ⟨q, c, p⟩
  · intro h _
    cases h
  · rintro h ⟨he, -⟩
    dsimp only at h
    by_cases haccept : b.canAcceptCandidate v (s.nodes v) p = true
    · rw [if_pos haccept] at h
      rw [← Option.some.inj h]
      exact beq_iff_eq.mp (List.mem_filter.mp he).2
    · rw [if_neg haccept] at h
      cases h
  · rintro h ⟨hq, -⟩
    dsimp only at h
    by_cases haccept : b.canAcceptCandidate v (s.nodes v) p = true
    · rw [if_pos haccept] at h
      rw [← Option.some.inj h]
      exact ((hb.mem_ports v q).mp hq).2
    · rw [if_neg haccept] at h
      cases h

theorem Source.At.unique (h : Source.At b v src) (h' : Source.At b u src) : v = u := by
  rcases src with e | p
  · exact h.symm.trans h'
  · exact h.symm.trans h'

theorem processNode_sameDoors (hb : b.WellFormed) (hne : v ≠ u)
    (h : b.processNode u s = .ok s') : SameDoors b v s s' := by
  refine ⟨processNode_nodes_ne hne h, fun src hsrc c ↦ processNode_stage h (fun hadm ↦ ?_) c⟩
  exact hne (hsrc.unique (at_of_admission hb hadm))

theorem foldlM_sameDoors (hb : b.WellFormed) {nodes : List BusNodeT} (hnot : v ∉ nodes)
    (h : nodes.foldlM (fun s u ↦ b.processNode u s) s = .ok s') : SameDoors b v s s' := by
  refine foldlM_keeps (SameDoors b v s) (.refl b v s) (fun u hu t t' ht hstep ↦ ?_) h
  exact ht.trans (processNode_sameDoors hb (fun heq ↦ hnot (heq ▸ hu)) hstep)

/-! ## The edges -/

theorem edgeLoop_output {c : ChannelT} (channels : List ChannelT) :
    ∀ {total : ℕ} {edge : EdgeInChannel}, edge.output c ≠ none →
      (b.edgeLoop channels total edge).output c ≠ none := by
  induction channels with
  | nil => exact id
  | cons d rest ih =>
    intro total edge h
    rw [edgeLoop]
    split_ifs
    · exact h
    · split
      · rename_i p _ hout
        split_ifs
        · exact ih h
        · refine ih ?_
          have hc : c ≠ d := by
            rintro rfl
            exact h hout
          change Function.update edge.output d (some p) c ≠ none
          rwa [Function.update_of_ne hc]
      · exact ih h

theorem processEdge_offers (e : EdgeId) (h : b.Offers s src) :
    b.Offers (b.processEdge s e) src := by
  obtain ⟨c, hc, hne⟩ := h
  refine ⟨c, hc, ?_⟩
  rcases src with f | p
  · have hout : (s.edges f).output c ≠ none := fun hnone ↦ hne (by
      rw [Source.stage, BusState.contents, hnone, Option.toList_none])
    have hkeep : ((b.processEdge s e).edges f).output c ≠ none := by
      by_cases hf : f = e
      · rw [hf, processEdge, BusState.edges_setEdge_self]
        exact edgeLoop_output _ (hf ▸ hout)
      · rw [processEdge, BusState.edges_setEdge_ne _ _ _ hf]
        exact hout
    exact fun hnil ↦ hkeep (Option.toList_eq_nil_iff.mp hnil)
  · exact hne

theorem foldl_processEdge_offers (edges : List EdgeId) (h : b.Offers s src) :
    b.Offers (edges.foldl b.processEdge s) src :=
  List.foldlRecOn (motive := fun t ↦ b.Offers t src) edges b.processEdge h
    fun _ ht e _ ↦ processEdge_offers e ht

/-! ## The tick

A tick, for router `v` and a source that waits in front of it: the pointer comes nearer to the
source, and if a packet is taken, it is from a source that lies before.
-/

theorem Offers.congr (h : b.Offers s src)
    (hstage : ∀ c, s'.contents (src.stage c) = s.contents (src.stage c)) : b.Offers s' src := by
  obtain ⟨c, hc, hne⟩ := h
  exact ⟨c, hc, by rwa [hstage]⟩

theorem foldl_samePointers {α : Type} {f : BusState → α → BusState}
    (hf : ∀ s a, SamePointers s (f s a)) (l : List α) (s : BusState) :
    SamePointers s (l.foldl f s) :=
  List.foldlRecOn (motive := SamePointers s) l f (fun _ ↦ ⟨rfl, rfl⟩)
    fun t ht a _ ↦ ht.trans (hf t a)

/-- A tick, seen from node `v`: the nodes before it leave it alone, then it has its turn, and what
comes after leaves its pointers alone and takes nothing from its sources. -/
theorem exists_turn (hb : b.WellFormed) (hv : v ∈ b.nodeIds) (h : b.applyNextTick s = .ok s') :
    ∃ s₀ s₁, b.tickAdmission v s = b.admission v s₀ ∧ SameDoors b v s s₀ ∧
      b.processNode v s₀ = .ok s₁ ∧ (s'.nodes v).rxPtr = (s₁.nodes v).rxPtr ∧
      (s'.nodes v).sdPtr = (s₁.nodes v).sdPtr ∧
      ∀ src, Source.At b v src → b.Offers s₁ src → b.Offers s' src := by
  obtain ⟨pre, post, hsplit⟩ := List.append_of_mem hv
  have hnodup := hb.nodes_nodup
  rw [hsplit] at hnodup
  have hpre : v ∉ pre := fun hmem ↦
    (List.nodup_append.mp hnodup).2.2 v hmem v List.mem_cons_self rfl
  have hpost : v ∉ post := (List.nodup_cons.mp (List.nodup_append.mp hnodup).2.1).1
  have htake : b.nodeIds.takeWhile (· ≠ v) = pre := by
    rw [hsplit, List.takeWhile_append_of_pos, List.takeWhile_cons_of_neg, List.append_nil]
    · simp
    · exact fun u hu ↦ decide_eq_true fun heq ↦ hpre (heq ▸ hu)
  obtain ⟨s₂, hs₂, h⟩ := Except.bind_eq_ok_iff.mp h
  rw [hsplit, List.foldlM_append] at hs₂
  obtain ⟨s₀, hs₀, hs₂⟩ := Except.bind_eq_ok_iff.mp hs₂
  rw [List.foldlM_cons] at hs₂
  obtain ⟨s₁, hs₁, hs₂⟩ := Except.bind_eq_ok_iff.mp hs₂
  have hrest := foldlM_sameDoors hb hpost hs₂
  obtain rfl := Except.ok.inj h
  have hpointers : SamePointers s₂
      (b.refreshAllCongestionStates (b.edgeIds.foldl b.processEdge s₂)) :=
    (foldl_samePointers processEdge_samePointers b.edgeIds s₂).trans
      (foldl_samePointers (fun t u ↦ updateCongestionState_samePointers u t) b.nodeIds _)
  refine ⟨s₀, s₁, by rw [tickAdmission, htake, hs₀], foldlM_sameDoors hb hpre hs₀, hs₁, ?_, ?_,
    fun src hsrc hoffer ↦ ?_⟩
  · rw [← hrest.node]
    exact (hpointers v).1
  · rw [← hrest.node]
    exact (hpointers v).2
  · have hedges := foldl_processEdge_offers b.edgeIds (hoffer.congr (hrest.stage src hsrc))
    refine hedges.congr fun c ↦ ?_
    exact congrFun (contents_refreshAllCongestionStates _) (src.stage c)

/-- While an edge waits, a tick moves the edge pointer on to an edge not farther than the one that
waits, and takes a packet from this edge or from nowhere. -/
theorem tick_edge (hb : b.WellFormed) (hv : v ∈ b.nodeIds) (hptr : b.Pointed s)
    (h : b.applyNextTick s = .ok s') {i : ℕ} {e : EdgeId} (he : (b.rxs v)[i]? = some e)
    (hoffer : b.Offers s (.edge e)) :
    ∃ j f, (b.rxs v)[j]? = some f ∧
      RoundRobin.dist (b.rxs v).length (s.nodes v).rxPtr j
        ≤ RoundRobin.dist (b.rxs v).length (s.nodes v).rxPtr i ∧
      ((b.tickAdmission v s = none ∧ (s'.nodes v).rxPtr = j) ∨
        (b.tickAdmission v s = some (.edge f) ∧
          (s'.nodes v).rxPtr = advance (b.rxs v).length j)) ∧
      (b.tickAdmission v s ≠ some (.edge e) → b.Offers s' (.edge e)) := by
  obtain ⟨s₀, s₁, hadm, hdoors, hturn, hrx, -, hkeep⟩ := exists_turn hb hv h
  have hat : Source.At b v (.edge e) :=
    beq_iff_eq.mp (List.mem_filter.mp (List.mem_of_getElem? he)).2
  have hoffer₀ : b.Offers s₀ (.edge e) := hoffer.congr (hdoors.stage _ hat)
  obtain ⟨j, f, c, p, hj, hle, hfind⟩ :=
    findCandidate_nearest_edge (hdoors.node ▸ (hptr v).1) he hoffer₀
  obtain ⟨t, busy, ht, hpointers, -⟩ := processNode_cases hturn
  refine ⟨j, f, hj, by rwa [hdoors.node] at hle, ?_, fun hne ↦ ?_⟩
  · rw [hadm, hrx, (hpointers v).1]
    exact (admitPhase_edge ht hfind).1
  · rw [hadm] at hne
    exact hkeep _ hat (hoffer₀.congr (processNode_stage hturn hne))

theorem tick_port (hb : b.WellFormed) (hv : v ∈ b.nodeIds) (hptr : b.Pointed s)
    (h : b.applyNextTick s = .ok s') {i : ℕ} {q : BusPortT} (hq : (b.nodePorts v)[i]? = some q)
    (hoffer : b.Offers s (.port q)) :
    ∃ j q', (b.nodePorts v)[j]? = some q' ∧
      RoundRobin.dist (b.nodePorts v).length (s.nodes v).sdPtr j
        ≤ RoundRobin.dist (b.nodePorts v).length (s.nodes v).sdPtr i ∧
      (((b.tickAdmission v s).toList.filter Source.isPort = [] ∧ (s'.nodes v).sdPtr = j) ∨
        (b.tickAdmission v s = some (.port q') ∧
          (s'.nodes v).sdPtr = advance (b.nodePorts v).length j)) ∧
      (b.tickAdmission v s ≠ some (.port q) → b.Offers s' (.port q)) := by
  -- What the tick does to the port is what the turn of its node does.
  obtain ⟨s₀, s₁, hadm, hdoors, hturn, -, hsd, hkeep⟩ := exists_turn hb hv h
  have hat : Source.At b v (.port q) := ((hb.mem_ports v q).mp (List.mem_of_getElem? hq)).2
  have hoffer₀ : b.Offers s₀ (.port q) := hoffer.congr (hdoors.stage _ hat)
  obtain ⟨t, busy, ht, hpointers, -⟩ := processNode_cases hturn
  have hstay : b.tickAdmission v s ≠ some (.port q) → b.Offers s' (.port q) := by
    intro hne
    rw [hadm] at hne
    exact hkeep _ hat (hoffer₀.congr (processNode_stage hturn hne))
  rw [hadm] at hstay ⊢
  rw [hsd, (hpointers v).2]
  rcases findCandidate_nearest_port (hdoors.node ▸ (hptr v).2) hq hoffer₀ with
    ⟨r, f, c, p, hfind⟩ | ⟨r, j, q', c, p, hj, hle, hfind⟩
  · -- An edge comes first, and the port pointer stays where it is.
    have hi : i < (b.nodePorts v).length := (List.getElem?_eq_some_iff.mp hq).1
    have hlt : (s.nodes v).sdPtr < (b.nodePorts v).length :=
      (hptr v).2.elim id fun h ↦ h ▸ Nat.zero_lt_of_lt hi
    obtain ⟨hcases, hsame⟩ := admitPhase_edge ht hfind
    refine ⟨(s.nodes v).sdPtr, _, List.getElem?_eq_getElem hlt, ?_, .inl ⟨?_, ?_⟩, hstay⟩
    · rw [RoundRobin.dist_self]
      exact Nat.zero_le _
    · rcases hcases with ⟨hnone, -⟩ | ⟨hedge, -⟩
      · rw [hnone]
        rfl
      · rw [hedge]
        rfl
    · rw [hsame, hdoors.node]
  · refine ⟨j, q', hj, by rwa [hdoors.node] at hle, ?_, hstay⟩
    refine (admitPhase_port ht hfind).imp_left fun ⟨hnone, hptr⟩ ↦ ⟨?_, hptr⟩
    rw [hnone]
    rfl

/-! ## Runs

While the source waits, the admissions of a run are a sequence of turns in the sense of the
library. Calls between the ticks add packets and take none.
-/

private theorem enqueue_offers {port dst : BusPortT} {c : ChannelT} {packs : List MsgPack}
    (hpacks : ∀ p ∈ packs, p.flow = ⟨port, dst, c⟩) (h : b.Offers s src) :
    b.Offers (enqueue (b.reserve s dst c) port c packs) src := by
  have hpush := push_enqueue (b := b) (s := s) ⟨port, dst, c⟩ hpacks
  obtain ⟨d, hd, hne⟩ := h
  refine ⟨d, hd, fun hnil ↦ hne ?_⟩
  by_cases hy : src.stage d = .queue port c
  · rw [hy] at hnil ⊢
    rw [hpush.target] at hnil
    exact (List.append_eq_nil_iff.mp hnil).1
  · exact (hpush.others _ hy).symm.trans hnil

/-- A call that is no tick leaves the pointers alone and takes nothing from the sources. -/
theorem perform_waits {call : Call} (hcall : call ≠ .applyNextTick) :
    SamePointers s (b.perform s call).2 ∧
      ∀ src, b.Offers s src → b.Offers (b.perform s call).2 src := by
  rcases call with ⟨port, dst, c, data⟩ | ⟨d, c⟩ | _ | _
  · rw [Bus.perform]
    split
    · rename_i accepted s' hsend
      obtain ⟨-, -, -, ⟨-, stats, rfl⟩ | ⟨-, -, -, -, rfl⟩⟩ := send_eq_ok hsend
      · exact ⟨fun _ ↦ ⟨rfl, rfl⟩, fun src h ↦ h.congr fun c ↦ by rcases src with e | p <;> rfl⟩
      · refine ⟨fun u ↦ ?_, fun src h ↦ enqueue_offers (fun p hp ↦ ?_) h⟩
        · change ((b.reserve s dst c).nodes u).rxPtr = _ ∧ ((b.reserve s dst c).nodes u).sdPtr = _
          rw [nodes_reserve]
          exact ⟨rfl, rfl⟩
        · obtain ⟨i, -, rfl⟩ := List.mem_map.mp hp
          rfl
    · exact ⟨fun _ ↦ ⟨rfl, rfl⟩, fun _ ↦ id⟩
  · have hkeeps := recv_keeps (b := b) s d c
    refine ⟨fun u ↦ ?_, fun src h ↦ h.congr fun c' ↦ ?_⟩
    · rw [Bus.perform, hkeeps.nodes]
      exact ⟨rfl, rfl⟩
    · exact congrFun hkeeps.contents_eq _
  · exact absurd rfl hcall
  · refine ⟨fun u ↦ ?_, fun src h ↦ h.congr fun c ↦ ?_⟩
    · change ((b.clearStatistics s).nodes u).rxPtr = _ ∧ ((b.clearStatistics s).nodes u).sdPtr = _
      unfold Bus.clearStatistics
      dsimp only
      split_ifs <;> exact ⟨rfl, rfl⟩
    · exact congrFun (contents_clearStatistics s) _

theorem admissions_of_ne {call : Call} (hcall : call ≠ .applyNextTick) (rest : List Call) :
    b.admissions v s (call :: rest) = b.admissions v (b.perform s call).2 rest := by
  rcases call with ⟨port, dst, c, data⟩ | ⟨d, c⟩ | _ | _
  · rfl
  · rfl
  · exact absurd rfl hcall
  · rfl

/-- While an edge waits, the admissions go through the edges in turn. -/
theorem admissions_edge (hb : b.WellFormed) (hv : v ∈ b.nodeIds) {i : ℕ} {e : EdgeId}
    (he : (b.rxs v)[i]? = some e) (calls : List Call) :
    ∀ {s : BusState}, b.Placed s → b.Pointed s → b.Offers s (.edge e) →
      .edge e ∉ b.admissions v s calls →
      ∃ served, b.admissions v s calls = served.map (fun j ↦ .edge ((b.rxs v).getD j (0, 0))) ∧
        Turns (b.rxs v).length i (s.nodes v).rxPtr served := by
  induction calls with
  | nil => exact fun _ _ _ _ ↦ ⟨[], rfl, .nil⟩
  | cons call rest ih =>
    intro s hs hptr hoffer hnot
    have hs' := hs.perform hb call
    have hptr' := hptr.perform call
    by_cases hcall : call = .applyNextTick
    · subst hcall
      obtain ⟨s₁, s', htick, -, -, -⟩ := contents_applyNextTick hb hs
      have hperform : (b.perform s .applyNextTick).2 = s' := by rw [Bus.perform, htick]
      obtain ⟨j, f, hj, hle, hcases, hkeep⟩ := tick_edge hb hv hptr htick he hoffer
      obtain ⟨hjlt, hjf⟩ := List.getElem?_eq_some_iff.mp hj
      have hget : (b.rxs v).getD j (0, 0) = f := by rw [List.getD_eq_getElem _ _ hjlt, hjf]
      rw [admissions, hperform, List.mem_append, not_or] at hnot
      rw [hperform] at hs' hptr'
      have hne : b.tickAdmission v s ≠ some (.edge e) := fun heq ↦
        hnot.1 (by rw [heq]; exact List.mem_singleton.mpr rfl)
      obtain ⟨served, hserved, hturns⟩ := ih hs' hptr' (hkeep hne) hnot.2
      rw [admissions, hperform, hserved]
      rcases hcases with ⟨hnone, hrx⟩ | ⟨hsome, hrx⟩
      · rw [hrx] at hturns
        exact ⟨served, by rw [hnone]; rfl, .wait hjlt hle hturns⟩
      · rw [hrx] at hturns
        have hji : j ≠ i := by
          rintro rfl
          rw [hsome, Option.some.inj (hj.symm.trans he)] at hne
          exact hne rfl
        exact ⟨j :: served, by rw [hsome, List.map_cons, hget]; rfl, .serve hjlt hji hle hturns⟩
    · obtain ⟨hsame, hkeep⟩ := perform_waits (b := b) (s := s) hcall
      rw [admissions_of_ne hcall] at hnot ⊢
      rw [← (hsame v).1]
      exact ih hs' hptr' (hkeep _ hoffer) hnot

theorem admissions_port (hb : b.WellFormed) (hv : v ∈ b.nodeIds) {i : ℕ} {q : BusPortT}
    (hq : (b.nodePorts v)[i]? = some q) (calls : List Call) :
    ∀ {s : BusState}, b.Placed s → b.Pointed s → b.Offers s (.port q) →
      .port q ∉ b.admissions v s calls →
      ∃ served, (b.admissions v s calls).filter Source.isPort
          = served.map (fun j ↦ .port ((b.nodePorts v).getD j 0)) ∧
        Turns (b.nodePorts v).length i (s.nodes v).sdPtr served := by
  -- Over the calls: a tick is a turn of the scan or a wait, and no other call takes a packet.
  induction calls with
  | nil => exact fun _ _ _ _ ↦ ⟨[], rfl, .nil⟩
  | cons call rest ih =>
    intro s hs hptr hoffer hnot
    have hs' := hs.perform hb call
    have hptr' := hptr.perform call
    by_cases hcall : call = .applyNextTick
    · subst hcall
      obtain ⟨s₁, s', htick, -, -, -⟩ := contents_applyNextTick hb hs
      have hperform : (b.perform s .applyNextTick).2 = s' := by rw [Bus.perform, htick]
      obtain ⟨j, r, hj, hle, hcases, hkeep⟩ := tick_port hb hv hptr htick hq hoffer
      obtain ⟨hjlt, hjr⟩ := List.getElem?_eq_some_iff.mp hj
      have hget : (b.nodePorts v).getD j 0 = r := by rw [List.getD_eq_getElem _ _ hjlt, hjr]
      rw [admissions, hperform, List.mem_append, not_or] at hnot
      rw [hperform] at hs' hptr'
      have hne : b.tickAdmission v s ≠ some (.port q) := fun heq ↦
        hnot.1 (by rw [heq]; exact List.mem_singleton.mpr rfl)
      obtain ⟨served, hserved, hturns⟩ := ih hs' hptr' (hkeep hne) hnot.2
      rw [admissions, hperform, List.filter_append, hserved]
      rcases hcases with ⟨hnone, hsd⟩ | ⟨hsome, hsd⟩
      · rw [hsd] at hturns
        exact ⟨served, by rw [hnone]; rfl, .wait hjlt hle hturns⟩
      · rw [hsd] at hturns
        have hji : j ≠ i := by
          rintro rfl
          rw [hsome, Option.some.inj (hj.symm.trans hq)] at hne
          exact hne rfl
        exact ⟨j :: served, by rw [hsome, List.map_cons, hget]; rfl, .serve hjlt hji hle hturns⟩
    · obtain ⟨hsame, hkeep⟩ := perform_waits (b := b) (s := s) hcall
      rw [admissions_of_ne hcall] at hnot ⊢
      rw [← (hsame v).2]
      exact ih hs' hptr' (hkeep _ hoffer) hnot

/-! ## No source is served twice -/

private theorem nodup_map_getD {α : Type} {xs : List α} (hxs : xs.Nodup) (x : α) {i ptr : ℕ}
    {served : List ℕ} (hturns : Turns xs.length i ptr served) (hptr : Within ptr xs.length)
    (hi : i < xs.length) {f : α → Source} (hf : Function.Injective f) :
    (served.map fun j ↦ f (xs.getD j x)).Nodup := by
  have hlt : ptr < xs.length := hptr.elim id fun h ↦ h ▸ Nat.zero_lt_of_lt hi
  refine (hturns.nodup hlt hi).map_on fun j hj k hk heq ↦ ?_
  have hjlt := hturns.lt hlt hi hj
  have hklt := hturns.lt hlt hi hk
  have hget := hf heq
  rw [List.getD_eq_getElem _ _ hjlt, List.getD_eq_getElem _ _ hklt] at hget
  exact hxs.getElem_inj_iff.mp hget

section

variable {ord : HashOrder} {portIds : List BusPortT} {portToNode : List BusNodeT}
  {widths : List ℕ} {route : BusRouteTable} {config : NocConfig}

/-- A router is fair: as long as an edge waits, every other edge is served at most once and no port
is served, and as long as a port waits, every other port is served at most once. -/
theorem router_fair (hbus : construct ord portIds portToNode widths route config = .ok b)
    (hv : v ∈ b.nodeIds) (calls more : List Call) :
    (∀ e ∈ b.rxs v, b.Offers (b.run {} calls).2 (.edge e) →
      .edge e ∉ b.admissions v (b.run {} calls).2 more →
      (∀ f, (b.admissions v (b.run {} calls).2 more).count (.edge f) ≤ 1) ∧
        ∀ p, .port p ∉ b.admissions v (b.run {} calls).2 more) ∧
    (∀ p ∈ b.nodePorts v, b.Offers (b.run {} calls).2 (.port p) →
      .port p ∉ b.admissions v (b.run {} calls).2 more →
      ∀ q, (b.admissions v (b.run {} calls).2 more).count (.port q) ≤ 1) := by
  have hb := construct_wellFormed hbus
  have hplaced := placed_run hb calls
  have hpointed := pointed_run (b := b) calls
  constructor
  · intro e he hoffer hnot
    obtain ⟨i, hi⟩ := List.getElem?_of_mem he
    obtain ⟨served, hserved, hturns⟩ := admissions_edge hb hv hi more hplaced hpointed hoffer hnot
    have hnodup : (b.admissions v (b.run {} calls).2 more).Nodup := by
      rw [hserved]
      exact nodup_map_getD (hb.edges_nodup.filter _) _ hturns (hpointed v).1
        (List.getElem?_eq_some_iff.mp hi).1 fun _ _ h ↦ Source.edge.inj h
    refine ⟨fun f ↦ List.nodup_iff_count_le_one.mp hnodup _, fun p hp ↦ ?_⟩
    rw [hserved] at hp
    obtain ⟨j, -, hj⟩ := List.mem_map.mp hp
    cases hj
  · intro p hp hoffer hnot q
    obtain ⟨i, hi⟩ := List.getElem?_of_mem hp
    obtain ⟨served, hserved, hturns⟩ := admissions_port hb hv hi more hplaced hpointed hoffer hnot
    have hnodup : ((b.admissions v (b.run {} calls).2 more).filter Source.isPort).Nodup := by
      rw [hserved]
      exact nodup_map_getD (hb.ports_nodup v) _ hturns (hpointed v).2
        (List.getElem?_eq_some_iff.mp hi).1 fun _ _ h ↦ Source.port.inj h
    rw [← List.count_filter (p := Source.isPort) rfl]
    exact List.nodup_iff_count_le_one.mp hnodup _

end

/-- Two packets are on their way to node 1 when its own port sends. -/
def crossingCalls : List Call :=
  .send 0 1 0 [1, 2, 3, 4, 5] :: List.replicate 4 .applyNextTick ++ [.send 1 0 0 [6]]

theorem router_fair_crossing :
    pairBus.Offers (pairBus.run {} crossingCalls).2 (.port 1) ∧
      pairBus.admissions 1 (pairBus.run {} crossingCalls).2 [.applyNextTick, .applyNextTick]
        = [.edge (0, 1), .edge (0, 1)] ∧
      ∀ q, (pairBus.admissions 1 (pairBus.run {} crossingCalls).2
        [.applyNextTick, .applyNextTick]).count (.port q) ≤ 1 := by
  have hoffer : pairBus.Offers (pairBus.run {} crossingCalls).2 (.port 1) :=
    ⟨0, by decide, by decide +kernel⟩
  have hedges : pairBus.admissions 1 (pairBus.run {} crossingCalls).2
      [.applyNextTick, .applyNextTick] = [.edge (0, 1), .edge (0, 1)] := by decide +kernel
  refine ⟨hoffer, hedges, ?_⟩
  refine (router_fair construct_pairBus (v := 1) (by decide) crossingCalls
    [.applyNextTick, .applyNextTick]).2 1 (by decide) hoffer ?_
  rw [hedges]
  decide

end Bus

end Simbus
