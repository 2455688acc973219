import SimbusNoc.Noc.Runs
import SimbusNoc.Library.RoundRobin

/-!
# Every state that calls can reach

Two invariants that ask nothing of the calls: messages may be of any size and number, and ports and
channels may be unknown. Every packet stands on its way, so that a tick never throws, and the two
round-robin pointers of a router stay within their lists, so that a scan meets every element.

Neither speaks of messages. A message that is too large is cut into packets in a way that its
receiver cannot undo, but each of its packets is a packet like others: it has a flow between known
ports, and it stands on the way of that flow. So results about progress and fairness hold for all
runs, also for those for which nothing can be said about what is delivered.

The last part takes the first half of `process_node` apart. It finds no packet, refuses the one it
finds, or admits it (`admitPhase_cases`). Everything later that asks what a router does in its turn
starts from these three cases.
-/

namespace Simbus

namespace Bus

variable {b : Bus} {s s' : BusState}

/-! ## Packets on their way -/

theorem Placed.init (b : Bus) : b.Placed {} := (Inv.init b False).placed

theorem Placed.congr (h : b.Placed s) (hcontents : s'.contents = s.contents)
    (hnodes : s'.nodes = s.nodes) : b.Placed s' :=
  ⟨hcontents ▸ h.located, hcontents ▸ h.packs, hnodes ▸ h.routers⟩

theorem RecvKeeps.contents_eq (h : RecvKeeps s s') : s'.contents = s.contents := by
  funext y
  cases y <;> simp [BusState.contents, h.nodes, h.edges, h.sendBuf]

theorem contents_applyNextTick (hb : b.WellFormed) (h : b.Placed s) :
    ∃ s₁ s', b.applyNextTick s = .ok s' ∧ Evolves b s s₁ ∧ s'.contents = s₁.contents ∧
      s'.nodes = s₁.nodes := by
  obtain ⟨s₁, s', hs', hev, rfl⟩ := applyNextTick_spec hb h
  exact ⟨s₁, _, hs', hev, funext fun y ↦ by cases y <;> rfl, rfl⟩

theorem Placed.perform (hb : b.WellFormed) (h : b.Placed s) (call : Call) :
    b.Placed (b.perform s call).2 := by
  cases call with
  | send port dst c data =>
    rw [Bus.perform]
    split
    · rename_i accepted s' hsend
      obtain ⟨hport, hdst, hc, ⟨-, stats, rfl⟩ | ⟨-, -, -, -, rfl⟩⟩ := send_eq_ok hsend
      · exact h.congr (funext fun y ↦ by cases y <;> rfl) rfl
      · refine h.enqueue (f := ⟨port, dst, c⟩) ⟨hport, hdst⟩ hc fun p hp ↦ ?_
        obtain ⟨i, -, rfl⟩ := List.mem_map.mp hp
        exact ⟨rfl, rfl⟩
    · exact h
  | recv d c =>
    have hkeeps := recv_keeps (b := b) s d c
    exact h.congr hkeeps.contents_eq hkeeps.nodes
  | applyNextTick =>
    obtain ⟨s₁, s', hs', hev, hcontents, hnodes⟩ := contents_applyNextTick hb h
    rw [Bus.perform, hs']
    exact hev.placed.congr hcontents hnodes
  | clearStatistics => exact h.clearStatistics.placed

theorem run_keeps {P : BusState → Prop} (hstep : ∀ s call, P s → P (b.perform s call).2)
    (calls : List Call) (h : P s) : P (b.run s calls).2 := by
  induction calls generalizing s with
  | nil => exact h
  | cons call rest ih => exact ih (hstep s call h)

theorem placed_run (hb : b.WellFormed) (calls : List Call) : b.Placed (b.run {} calls).2 :=
  run_keeps (fun _ call h ↦ h.perform hb call) calls (.init b)

/-! ## Pointers within their lists

The pointers of a node are reduced modulo the lengths of its lists whenever they move.
-/

/-- A position in a list, which is 0 when the list is empty. -/
def Within (ptr n : ℕ) : Prop := ptr < n ∨ ptr = 0

theorem Within.mod {n : ℕ} (ptr : ℕ) (hn : 0 < n) : Within (ptr % n) n :=
  .inl (Nat.mod_lt ptr hn)

/-- The two pointers of every router are within their lists. -/
def Pointed (b : Bus) (s : BusState) : Prop :=
  ∀ v, Within (s.nodes v).rxPtr (b.rxs v).length ∧ Within (s.nodes v).sdPtr (b.nodePorts v).length

/-- `s'` has the pointers of `s`. -/
def SamePointers (s s' : BusState) : Prop :=
  ∀ v, (s'.nodes v).rxPtr = (s.nodes v).rxPtr ∧ (s'.nodes v).sdPtr = (s.nodes v).sdPtr

theorem SamePointers.pointed (h : SamePointers s s') (hs : b.Pointed s) : b.Pointed s' :=
  fun v ↦ (h v).1 ▸ (h v).2 ▸ hs v

theorem SamePointers.trans {s'' : BusState} (h : SamePointers s s') (h' : SamePointers s' s'') :
    SamePointers s s'' :=
  fun v ↦ ⟨(h' v).1.trans (h v).1, (h' v).2.trans (h v).2⟩

theorem SamePointers.setNode {v : BusNodeT} {n : NodeStruct} (hrx : n.rxPtr = (s.nodes v).rxPtr)
    (hsd : n.sdPtr = (s.nodes v).sdPtr) : SamePointers s (s.setNode v n) := by
  intro u
  by_cases hu : u = v
  · rw [hu, s.nodes_setNode_self]
    exact ⟨hrx, hsd⟩
  · rw [s.nodes_setNode_ne v n hu]
    exact ⟨rfl, rfl⟩

theorem Pointed.setNode (hs : b.Pointed s) {v : BusNodeT} {n : NodeStruct}
    (hrx : Within n.rxPtr (b.rxs v).length) (hsd : Within n.sdPtr (b.nodePorts v).length) :
    b.Pointed (s.setNode v n) := by
  intro u
  by_cases hu : u = v
  · rw [hu, s.nodes_setNode_self]
    exact ⟨hrx, hsd⟩
  · rw [s.nodes_setNode_ne v n hu]
    exact hs u

theorem within_scan {α β : Type} {offer : α → Option β} {xs : List α} :
    ∀ {n ptr q : ℕ} {r : Option (α × β)}, Within ptr xs.length →
      scan offer xs n ptr = (q, r) → Within q xs.length := by
  intro n
  induction n with
  | zero =>
    intro ptr q r hptr h
    obtain ⟨rfl, -⟩ := Prod.mk.inj h
    exact hptr
  | succ n ih =>
    intro ptr q r hptr h
    rw [scan] at h
    split at h
    · obtain ⟨rfl, -⟩ := Prod.mk.inj h
      exact hptr
    · rename_i x hx
      split at h
      · obtain ⟨rfl, -⟩ := Prod.mk.inj h
        exact hptr
      · have hpos : 0 < xs.length := Nat.zero_lt_of_lt (List.getElem?_eq_some_iff.mp hx).1
        exact ih (.mod _ hpos) h

theorem Pointed.findCandidate (hs : b.Pointed s) (v : BusNodeT) :
    b.Pointed (b.findCandidate v s).1 := by
  obtain ⟨hrx, hsd⟩ := hs v
  unfold Bus.findCandidate
  dsimp only
  split
  · rename_i ptr e c p hscan
    exact hs.setNode (within_scan hrx hscan) hsd
  · rename_i ptr hscan
    split
    · rename_i q port c p hscan'
      exact hs.setNode (within_scan hrx hscan) (within_scan hsd hscan')
    · rename_i q hscan'
      exact hs.setNode (within_scan hrx hscan) (within_scan hsd hscan')

theorem Pointed.detachCandidate (hs : b.Pointed s) {v : BusNodeT} {cand : Candidate}
    {s₀ : BusState} (hoffer : cand.Offered b v s₀) (h : b.detachCandidate v s cand = .ok s') :
    b.Pointed s' := by
  cases cand with
  | none => exact Except.ok.inj h ▸ hs
  | edgeOutput e c p =>
    obtain ⟨_, -, h⟩ := Except.bind_eq_ok_iff.mp h
    obtain rfl := Except.ok.inj h
    exact Pointed.setNode (s := s.setEdge _ _) hs (.mod _ (List.length_pos_of_mem hoffer.1))
      (hs v).2
  | portSend q c p =>
    obtain ⟨_, -, h⟩ := Except.bind_eq_ok_iff.mp h
    obtain rfl := Except.ok.inj h
    exact Pointed.setNode (s := s.setPort _ _) hs (hs v).1
      (.mod _ (List.length_pos_of_mem hoffer.1))

theorem deliverToLocalPort_samePointers {v : BusNodeT} {p : MsgPack}
    (h : b.deliverToLocalPort v s p = .ok s') : SamePointers s s' := by
  obtain ⟨_, -, h⟩ := Except.bind_eq_ok_iff.mp h
  dsimp only at h
  split_ifs at h
  · exact Except.ok.inj h ▸ fun _ ↦ ⟨rfl, rfl⟩
  · exact Except.ok.inj h ▸ SamePointers.setNode (s := s.setPort _ _) rfl rfl
  · exact Except.ok.inj h ▸ .setNode rfl rfl

theorem admitCandidate_samePointers {v : BusNodeT} {p : MsgPack}
    (h : b.admitCandidate v s p = .ok s') : SamePointers s s' := by
  unfold admitCandidate at h
  by_cases htgt : p.tgt = v
  · rw [if_pos htgt] at h
    obtain ⟨s₁, hs₁, h⟩ := Except.bind_eq_ok_iff.mp h
    exact (deliverToLocalPort_samePointers hs₁).trans (Except.ok.inj h ▸ .setNode rfl rfl)
  · rw [if_neg htgt] at h
    exact Except.ok.inj h ▸ .setNode rfl rfl

/-! ## The first half of `process_node`, case by case -/

/-- The packet a candidate is about. -/
def Candidate.pack? : Candidate → Option MsgPack
  | .none => Option.none
  | .edgeOutput _ _ p => some p
  | .portSend _ _ p => some p

theorem findCandidate_contents (b : Bus) (v : BusNodeT) (s : BusState) :
    (b.findCandidate v s).1.contents = s.contents := by
  obtain ⟨r, q, hs₁, -⟩ := findCandidate_spec b v s
  rw [hs₁]
  funext y
  by_cases hy : y = .pipe v
  · subst hy
    simp [BusState.contents]
  · exact s.contents_setNode v _ hy

theorem canAcceptCandidate_findCandidate (v : BusNodeT) (s : BusState) (p : MsgPack) :
    b.canAcceptCandidate v ((b.findCandidate v s).1.nodes v) p =
      b.canAcceptCandidate v (s.nodes v) p := by
  obtain ⟨r, q, hs₁, -⟩ := findCandidate_spec b v s
  rw [hs₁, s.nodes_setNode_self]
  rfl

/-- The count of a refused candidate. -/
def countBlocked (v : BusNodeT) (s : BusState) : BusState :=
  s.setNode v { s.nodes v with blockedCycles := (s.nodes v).blockedCycles + 1 }

theorem countBlocked_samePointers (v : BusNodeT) (s : BusState) :
    SamePointers s (countBlocked v s) := .setNode rfl rfl

theorem contents_countBlocked (v : BusNodeT) (s : BusState) :
    (countBlocked v s).contents = s.contents := by
  funext y
  by_cases hy : y = .pipe v
  · subst hy
    simp [countBlocked, BusState.contents]
  · exact s.contents_setNode v _ hy

/-- What the first half of `process_node` does: it finds no packet, refuses the one it finds, or
admits it. -/
theorem admitPhase_cases {v : BusNodeT} {busy : Bool} (h : b.admitPhase v s = .ok (s', busy)) :
    ((b.findCandidate v s).2 = .none ∧ s' = (b.findCandidate v s).1) ∨
      ∃ p, (b.findCandidate v s).2.pack? = some p ∧
        ((b.canAcceptCandidate v (s.nodes v) p = false ∧
        s' = countBlocked v (b.findCandidate v s).1) ∨
          (b.canAcceptCandidate v (s.nodes v) p = true ∧ ∃ s₁,
            b.detachCandidate v (b.findCandidate v s).1 (b.findCandidate v s).2 = .ok s₁ ∧
            b.admitCandidate v s₁ p = .ok s')) := by
  have haccept := canAcceptCandidate_findCandidate (b := b) v s
  rcases hfind : b.findCandidate v s with ⟨s₀, cand⟩
  rw [hfind] at haccept
  -- The two kinds of packet are treated alike.
  have htake : ∀ p, cand.pack? = some p →
      (if b.canAcceptCandidate v (s₀.nodes v) p then do
          let s ← b.detachCandidate v s₀ cand
          let s ← b.admitCandidate v s p
          return (s, true)
        else
          .ok (countBlocked v s₀, true) :
        Except String (BusState × Bool)) = .ok (s', busy) →
      (b.canAcceptCandidate v (s.nodes v) p = false ∧ s' = countBlocked v s₀) ∨
        (b.canAcceptCandidate v (s.nodes v) p = true ∧ ∃ s₁,
          b.detachCandidate v s₀ cand = .ok s₁ ∧ b.admitCandidate v s₁ p = .ok s') := by
    intro p _ h
    rw [haccept p] at h
    by_cases hacc : b.canAcceptCandidate v (s.nodes v) p = true
    · rw [if_pos hacc] at h
      obtain ⟨s₁, hs₁, h⟩ := Except.bind_eq_ok_iff.mp h
      obtain ⟨s₂, hs₂, h⟩ := Except.bind_eq_ok_iff.mp h
      obtain ⟨rfl, -⟩ := Prod.mk.inj (Except.ok.inj h)
      exact .inr ⟨hacc, s₁, hs₁, hs₂⟩
    · rw [if_neg hacc] at h
      obtain ⟨rfl, -⟩ := Prod.mk.inj (Except.ok.inj h)
      exact .inl ⟨Bool.not_eq_true _ ▸ hacc, rfl⟩
  unfold Bus.admitPhase at h
  rw [hfind] at h
  cases cand with
  | none =>
    obtain ⟨rfl, -⟩ := Prod.mk.inj (Except.ok.inj h)
    exact .inl ⟨rfl, rfl⟩
  | edgeOutput e c p => exact .inr ⟨p, rfl, htake p rfl h⟩
  | portSend q c p => exact .inr ⟨p, rfl, htake p rfl h⟩

theorem Pointed.admitPhase (hs : b.Pointed s) {v : BusNodeT} {busy : Bool}
    (h : b.admitPhase v s = .ok (s', busy)) : b.Pointed s' := by
  obtain ⟨-, -, -, hoffer⟩ := findCandidate_spec b v s
  rcases admitPhase_cases h with ⟨-, rfl⟩ | ⟨p, -, ⟨-, rfl⟩ | ⟨-, s₁, hdet, htake⟩⟩
  · exact hs.findCandidate v
  · exact (countBlocked_samePointers v _).pointed (hs.findCandidate v)
  · exact (admitCandidate_samePointers htake).pointed
      ((hs.findCandidate v).detachCandidate hoffer hdet)

/-! ## The whole tick -/

theorem pipelinePhase_samePointers {v : BusNodeT} {busy busy' : Bool}
    (h : b.pipelinePhase v s busy = .ok (s', busy')) : SamePointers s s' := by
  obtain ⟨⟨kept, st⟩, -, h⟩ := Except.bind_eq_ok_iff.mp h
  obtain ⟨rfl, -⟩ := Prod.mk.inj (Except.ok.inj h)
  exact SamePointers.setNode (s := { s with edges := st.edges }) rfl rfl

theorem updateCongestionState_samePointers (v : BusNodeT) (s : BusState) :
    SamePointers s (b.updateCongestionState v s) := .setNode rfl rfl

theorem countCycles_samePointers (v : BusNodeT) (busy : Bool) (s : BusState) :
    SamePointers s (countCycles v busy s) := .setNode rfl rfl

theorem processEdge_samePointers (s : BusState) (e : EdgeId) :
    SamePointers s (b.processEdge s e) := fun _ ↦ ⟨rfl, rfl⟩

theorem Pointed.processNode (hs : b.Pointed s) {v : BusNodeT} (h : b.processNode v s = .ok s') :
    b.Pointed s' := by
  obtain ⟨⟨s₁, busy₁⟩, hs₁, h⟩ := Except.bind_eq_ok_iff.mp h
  obtain ⟨⟨s₂, busy₂⟩, hs₂, h⟩ := Except.bind_eq_ok_iff.mp h
  obtain rfl := Except.ok.inj h
  have hsame : SamePointers s₂ (countCycles v busy₂ (b.updateCongestionState v s₂)) :=
    (updateCongestionState_samePointers v s₂).trans (countCycles_samePointers v busy₂ _)
  exact ((pipelinePhase_samePointers hs₂).trans hsame).pointed (hs.admitPhase hs₁)

theorem Pointed.foldl {α : Type} {f : BusState → α → BusState}
    (hf : ∀ s a, SamePointers s (f s a)) (l : List α) (hs : b.Pointed s) :
    b.Pointed (l.foldl f s) := by
  induction l generalizing s with
  | nil => exact hs
  | cons a l ih => exact ih ((hf s a).pointed hs)

theorem Pointed.applyNextTick (hs : b.Pointed s) (h : b.applyNextTick s = .ok s') :
    b.Pointed s' := by
  obtain ⟨s₁, hs₁, h⟩ := Except.bind_eq_ok_iff.mp h
  obtain rfl := Except.ok.inj h
  have hnodes : b.Pointed s₁ := foldlM_keeps b.Pointed hs
    (fun v _ s s' hs h ↦ hs.processNode h) hs₁
  have hedges : b.Pointed (b.edgeIds.foldl b.processEdge s₁) :=
    hnodes.foldl processEdge_samePointers b.edgeIds
  exact hedges.foldl (fun s v ↦ updateCongestionState_samePointers v s) b.nodeIds

theorem Pointed.perform (hs : b.Pointed s) (call : Call) : b.Pointed (b.perform s call).2 := by
  cases call with
  | send port dst c data =>
    rw [Bus.perform]
    split
    · rename_i accepted s' hsend
      obtain ⟨-, -, -, ⟨-, stats, rfl⟩ | ⟨-, -, -, -, rfl⟩⟩ := send_eq_ok hsend
      · exact hs
      · intro v
        change Within ((b.reserve s dst c).nodes v).rxPtr _ ∧
          Within ((b.reserve s dst c).nodes v).sdPtr _
        rw [nodes_reserve]
        exact hs v
    · exact hs
  | recv d c =>
    have hkeeps := recv_keeps (b := b) s d c
    intro v
    rw [Bus.perform, hkeeps.nodes]
    exact hs v
  | applyNextTick =>
    rw [Bus.perform]
    split
    · rename_i s' hs'
      exact hs.applyNextTick hs'
    · exact hs
  | clearStatistics =>
    intro v
    have hsame : ((b.clearStatistics s).nodes v).rxPtr = (s.nodes v).rxPtr ∧
        ((b.clearStatistics s).nodes v).sdPtr = (s.nodes v).sdPtr := by
      unfold Bus.clearStatistics
      dsimp only
      split_ifs <;> exact ⟨rfl, rfl⟩
    rw [Bus.perform, hsame.1, hsame.2]
    exact hs v

theorem pointed_run (calls : List Call) : b.Pointed (b.run {} calls).2 :=
  run_keeps (fun _ call h ↦ h.perform call) calls fun _ ↦ ⟨.inr rfl, .inr rfl⟩

end Bus

end Simbus
