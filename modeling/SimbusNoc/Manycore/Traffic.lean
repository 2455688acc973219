import SimbusNoc.Manycore.Channel
import SimbusNoc.Manycore.Codec

/-!
# Requests and responses on a bus

What a reliable bus carries between the harts and the memory controller: requests from the ports of
the harts to the memory port on channel 0, and responses back on channel 1. The laws of a reliable
bus become laws about lists of requests and of responses.

`Spells` relates letters, which are bytes with addresses, to requests and responses. Since the wire
format has round trips, whoever receives a letter decodes what was encoded. So from here on no
proof about a system looks at bytes on the bus. There are two lists, since requests and responses
use different channels, and a bus that keeps no order between channels keeps none between the
lists.
-/

namespace Manycore

open Simbus

/-- The requests and the responses on their way, oldest first. -/
structure Traffic where
  requests : List MemoryRequest := []
  responses : List MemoryResponse := []

namespace Traffic

def addRequest (t : Traffic) (q : MemoryRequest) : Traffic :=
  { t with requests := t.requests ++ [q] }

def addResponse (t : Traffic) (r : MemoryResponse) : Traffic :=
  { t with responses := t.responses ++ [r] }

end Traffic

/-- The letter of a request. The memory's port follows those of the `n` harts. -/
def requestLetter (n : ℕ) (q : MemoryRequest) : Letter :=
  ⟨q.hartId.toNat, n, requestChannel, q.wire⟩

def responseLetter (n : ℕ) (r : MemoryResponse) : Letter :=
  ⟨n, r.hartId.toNat, responseChannel, encodeResponse r⟩

/-- A response that its size field can describe. -/
def MemoryResponse.Short (r : MemoryResponse) : Prop := r.data.length < 2 ^ 16

/-- The letters that harts and controller send. -/
inductive Allowed (n : ℕ) : Letter → Prop
  | request {q : MemoryRequest} : q.Valid → q.hartId.toNat < n → Allowed n (requestLetter n q)
  | response {r : MemoryResponse} : r.Short → r.hartId.toNat < n → Allowed n (responseLetter n r)

theorem Allowed.length_le {n : ℕ} {l : Letter} (h : Allowed n l) : l.data.length ≤ 2 ^ 31 := by
  cases h with
  | request hvalid _ =>
    have := hvalid.length_data_le
    rw [requestLetter, length_wire]
    omega
  | @response r hshort _ =>
    rw [MemoryResponse.Short] at hshort
    rw [responseLetter, length_encodeResponse]
    omega

/-- The letters on a bus are these requests and responses. -/
structure Spells (n : ℕ) (t : Traffic) (letters : List Letter) : Prop where
  requests : letters.filter (fun l ↦ l.cha == requestChannel) = t.requests.map (requestLetter n)
  responses : letters.filter (fun l ↦ l.cha == responseChannel) = t.responses.map (responseLetter n)
  channels : ∀ l ∈ letters, l.cha = requestChannel ∨ l.cha = responseChannel
  valid : ∀ q ∈ t.requests, q.Valid ∧ q.hartId.toNat < n
  short : ∀ r ∈ t.responses, r.Short ∧ r.hartId.toNat < n

theorem Spells.nil (n : ℕ) : Spells n {} [] where
  requests := rfl
  responses := rfl
  channels := by simp
  valid := by simp
  short := by simp

theorem Spells.eq_nil {n : ℕ} {letters : List Letter} (h : Spells n {} letters) :
    letters = [] := by
  refine List.eq_nil_iff_forall_not_mem.mpr fun l hl ↦ ?_
  rcases h.channels l hl with hc | hc
  · have hmem : l ∈ letters.filter fun l ↦ l.cha == requestChannel :=
      List.mem_filter.mpr ⟨hl, by rw [hc, beq_self_eq_true]⟩
    rw [h.requests] at hmem
    cases hmem
  · have hmem : l ∈ letters.filter fun l ↦ l.cha == responseChannel :=
      List.mem_filter.mpr ⟨hl, by rw [hc, beq_self_eq_true]⟩
    rw [h.responses] at hmem
    cases hmem

/-- The bus carries this traffic. -/
def Carried {σ : Type} (Holds : List Letter → σ → Prop) (n : ℕ) (t : Traffic) (s : σ) : Prop :=
  ∃ letters, Holds letters s ∧ Spells n t letters

section Laws

variable {σ : Type} {bus : BusInterfaceV2 σ} {n : ℕ} {Live : σ → Prop} {Fifo : Prop}
  {Holds : List Letter → σ → Prop} (hbus : Reliable bus (Allowed n) Live Fifo Holds)
  {t : Traffic} {s s' : σ}
include hbus

namespace Carried

theorem tick (h : Carried Holds n t s) (htick : bus.applyNextTick s = .ok s') (hlive : Live s') :
    Carried Holds n t s' := by
  obtain ⟨letters, hholds, hspells⟩ := h
  exact ⟨letters, hbus.tick hholds htick hlive, hspells⟩

theorem recv_none (h : Carried Holds n t s) {d : BusPortT} {c : ChannelT}
    (hrecv : bus.recv s d c = .ok (none, s')) (hlive : Live s') : Carried Holds n t s' := by
  obtain ⟨letters, hholds, hspells⟩ := h
  exact ⟨letters, hbus.recv_none hholds hrecv hlive, hspells⟩

theorem sendRequest (h : Carried Holds n t s) {q : MemoryRequest} {accepted : Bool} {i : ℕ}
    (hvalid : q.Valid) (hi : q.hartId.toNat = i) (hn : i < n)
    (hsend : bus.send s i n requestChannel q.wire = .ok (accepted, s')) (hlive : Live s') :
    Carried Holds n (if accepted then t.addRequest q else t) s' := by
  obtain ⟨letters, hholds, hspells⟩ := h
  subst hi
  refine ⟨_, hbus.send (requestLetter n q) hholds (.request hvalid hn) hsend hlive, ?_⟩
  cases accepted with
  | false => exact hspells
  | true =>
    refine ⟨?_, ?_, ?_, ?_, hspells.short⟩
    · rw [if_pos rfl, List.filter_append, hspells.requests]
      simp [Traffic.addRequest, requestLetter]
    · rw [if_pos rfl, List.filter_append, hspells.responses]
      simp [Traffic.addRequest, requestLetter, requestChannel, responseChannel]
    · intro l hl
      rcases List.mem_append.mp hl with hl | hl
      · exact hspells.channels l hl
      · exact .inl (List.mem_singleton.mp hl ▸ rfl)
    · intro q' hq'
      rcases List.mem_append.mp hq' with hq' | hq'
      · exact hspells.valid q' hq'
      · rw [List.mem_singleton.mp hq']
        exact ⟨hvalid, hn⟩

theorem sendResponse (h : Carried Holds n t s) {r : MemoryResponse} {accepted : Bool}
    (hshort : r.Short) (hn : r.hartId.toNat < n)
    (hsend : bus.send s n r.hartId.toNat responseChannel (encodeResponse r) = .ok (accepted, s'))
    (hlive : Live s') :
    Carried Holds n (if accepted then t.addResponse r else t) s' := by
  obtain ⟨letters, hholds, hspells⟩ := h
  refine ⟨_, hbus.send (responseLetter n r) hholds (.response hshort hn) hsend hlive, ?_⟩
  cases accepted with
  | false => exact hspells
  | true =>
    refine ⟨?_, ?_, ?_, hspells.valid, ?_⟩
    · rw [if_pos rfl, List.filter_append, hspells.requests]
      simp [Traffic.addResponse, responseLetter, requestChannel, responseChannel]
    · rw [if_pos rfl, List.filter_append, hspells.responses]
      simp [Traffic.addResponse, responseLetter]
    · intro l hl
      rcases List.mem_append.mp hl with hl | hl
      · exact hspells.channels l hl
      · exact .inr (List.mem_singleton.mp hl ▸ rfl)
    · intro r' hr'
      rcases List.mem_append.mp hr' with hr' | hr'
      · exact hspells.short r' hr'
      · rw [List.mem_singleton.mp hr']
        exact ⟨hshort, hn⟩

omit hbus in
/-- Taking a letter of one channel out of the list takes its message out of the traffic of that
channel. -/
private theorem split_filter {α : Type} {f : α → Letter} {l : List α} {front back : List Letter}
    {x : Letter} {keep : Letter → Bool} (hkeep : keep x = true)
    (h : (front ++ x :: back).filter keep = l.map f) :
    ∃ before a after, l = before ++ a :: after ∧ f a = x ∧
      (∀ a' ∈ before, f a' ∈ front) ∧ (front ++ back).filter keep = (before ++ after).map f := by
  rw [List.filter_append, List.filter_cons_of_pos hkeep, eq_comm, List.map_eq_append_iff] at h
  obtain ⟨before, rest, rfl, hbefore, hrest⟩ := h
  obtain ⟨a, after, rfl, ha, hafter⟩ := List.map_eq_cons_iff.mp hrest
  refine ⟨before, a, after, rfl, ha, fun a' ha' ↦ ?_, ?_⟩
  · have hmem := List.mem_map_of_mem (f := f) ha'
    rw [hbefore] at hmem
    exact (List.mem_filter.mp hmem).1
  · rw [List.filter_append, List.map_append, hbefore, hafter]

omit hbus in
private theorem mem_middle {α : Type} {a x : α} {l l' : List α} (h : a ∈ l ++ l') :
    a ∈ l ++ x :: l' :=
  List.mem_append.mpr ((List.mem_append.mp h).imp_right (List.mem_cons_of_mem _))

theorem recvRequest (h : Carried Holds n t s) {data : Bytes}
    (hrecv : bus.recv s n requestChannel = .ok (some data, s')) (hlive : Live s') :
    ∃ before q after, t.requests = before ++ q :: after ∧ data = q.wire ∧
      q.Valid ∧ q.hartId.toNat < n ∧
      Carried Holds n { t with requests := before ++ after } s' ∧
      (Fifo → ∀ q' ∈ before, q'.hartId ≠ q.hartId) := by
  obtain ⟨letters, hholds, hspells⟩ := h
  obtain ⟨front, l, back, rfl, -, hc, rfl, hholds', hfifo⟩ := hbus.recv_some hholds hrecv hlive
  have hkeep : (l.cha == requestChannel) = true := by rw [hc, beq_self_eq_true]
  have hskip : ¬(l.cha == responseChannel) = true := by
    rw [hc]
    decide
  obtain ⟨before, q, after, hsplit, rfl, hfront, hrest⟩ := split_filter hkeep hspells.requests
  obtain ⟨hvalid, hn⟩ := hspells.valid q (by simp [hsplit])
  refine ⟨before, q, after, hsplit, rfl, hvalid, hn, ⟨front ++ back, hholds', ?_⟩, ?_⟩
  · refine ⟨hrest, ?_, fun l hl ↦ hspells.channels l (mem_middle hl), fun q' hq' ↦ ?_,
      hspells.short⟩
    · have hresponses := hspells.responses
      rwa [List.filter_append, List.filter_cons, if_neg hskip, ← List.filter_append] at hresponses
    · exact hspells.valid q' (hsplit ▸ mem_middle hq')
  · intro hF q' hq' heq
    exact hfifo hF _ (hfront q' hq') ⟨congrArg UInt32.toNat heq, rfl, rfl⟩

theorem recvResponse (h : Carried Holds n t s) {i : ℕ} {data : Bytes}
    (hrecv : bus.recv s i responseChannel = .ok (some data, s')) (hlive : Live s') :
    ∃ before r after, t.responses = before ++ r :: after ∧ data = encodeResponse r ∧
      r.Short ∧ r.hartId.toNat = i ∧
      Carried Holds n { t with responses := before ++ after } s' ∧
      (Fifo → ∀ r' ∈ before, r'.hartId ≠ r.hartId) := by
  obtain ⟨letters, hholds, hspells⟩ := h
  obtain ⟨front, l, back, rfl, hd, hc, rfl, hholds', hfifo⟩ := hbus.recv_some hholds hrecv hlive
  have hkeep : (l.cha == responseChannel) = true := by rw [hc, beq_self_eq_true]
  have hskip : ¬(l.cha == requestChannel) = true := by
    rw [hc]
    decide
  obtain ⟨before, r, after, hsplit, rfl, hfront, hrest⟩ := split_filter hkeep hspells.responses
  obtain ⟨hshort, -⟩ := hspells.short r (by simp [hsplit])
  refine ⟨before, r, after, hsplit, rfl, hshort, hd, ⟨front ++ back, hholds', ?_⟩, ?_⟩
  · refine ⟨?_, hrest, fun l hl ↦ hspells.channels l (mem_middle hl), hspells.valid,
      fun r' hr' ↦ ?_⟩
    · have hrequests := hspells.requests
      rwa [List.filter_append, List.filter_cons, if_neg hskip, ← List.filter_append] at hrequests
    · exact hspells.short r' (hsplit ▸ mem_middle hr')
  · intro hF r' hr' heq
    exact hfifo hF _ (hfront r' hr') ⟨rfl, congrArg UInt32.toNat heq, rfl⟩

end Carried

end Laws

end Manycore
