import SimbusNoc.Manycore.HartTurn

/-!
# The account of a hart

The core and the adapter of a hart share a port, and each takes what it finds there. The account of
a hart ties what the two are waiting for to the requests that are not served yet and to the
responses on their way. Each response answers a request that the hart waits for, so whoever takes
it has asked for it.

## The invariant

`outstanding` is what the hart waits for: the request of the core in `memoryWait`, and what the
adapter has sent and not finished. `Account` says that this is, up to order, what is in front of
the controller and what the responses on their way answer; that the requests of the adapter satisfy
`Store`, the invariant that was proved of an adapter alone; and what the part of the controller's
log that belongs to the hart consists of. A core does not send while its adapter has requests
outstanding, so of the two only one waits at a time, and this is why a response is never taken by
the wrong one.

## The events

Each lemma is about one thing that a party does: memory serves requests, the core works, sends or
takes, the adapter sends or finishes. Nothing here mentions a bus. `Settled` is where an account
ends when nothing is outstanding any more.
-/

namespace Manycore

open Simbus MmioBusAdapter

/-! ## What a write to the adapter changes -/

/-- A write to a register may add commands and take results away. -/
structure MmioBusAdapter.Wrote (hart : UInt32) (a a' : MmioBusAdapter) : Prop where
  commands : ∃ commands : List MmioCommand, a'.issued = a.issued ++ commands ∧
    a'.requests = a.requests ++ commands.map fun c ↦
    { request := c.request hart, created := a.clock }
  finished : a'.finished = a.finished
  completed : a'.stats.completed = a.stats.completed
  results : ∀ result ∈ a'.results, result ∈ a.results

namespace MmioBusAdapter

variable {hart : UInt32} {a a' : MmioBusAdapter}

theorem requests_of_idle (h : a.busy = false) : a.requests = [] := by
  rw [busy, Bool.not_eq_false'] at h
  exact List.isEmpty_iff.mp h

/-- An adapter with nothing to do only counts the tick. -/
theorem tryTick_of_idle {σ : Type} (bus : IBus σ) (port memoryPort : BusPortT) (s : σ)
    (h : a.requests = []) :
    tryTick bus hart port memoryPort a s = (none, { a with clock := a.clock + 1 }, s) := by
  simp [tryTick, sendUnsent, unsent, receive, busy, h, pure, Except.pure]

/-- The parts of an adapter that `Wrote` reads are the same. -/
theorem Wrote.of_same (hissued : a'.issued = a.issued) (hrequests : a'.requests = a.requests)
    (hfinished : a'.finished = a.finished) (hcompleted : a'.stats.completed = a.stats.completed)
    (hresults : ∀ result ∈ a'.results, result ∈ a.results) : Wrote hart a a' where
  commands := ⟨[], by rw [hissued, List.append_nil],
    by rw [hrequests]; exact (List.append_nil _).symm⟩
  finished := hfinished
  completed := hcompleted
  results := hresults

theorem wrote_pop (value : UInt64) : Wrote hart a (a.pop value) := by
  rw [pop]
  cases hresults : a.results with
  | nil => exact .of_same rfl rfl rfl rfl fun _ h ↦ h
  | cons result rest =>
    dsimp only
    by_cases hvalue : value = 1
    · rw [if_pos hvalue]
      refine .of_same rfl rfl rfl rfl fun x hx ↦ ?_
      rw [hresults]
      exact List.mem_cons_of_mem result hx
    · rw [if_neg hvalue]
      exact .of_same rfl rfl rfl rfl fun _ h ↦ h

theorem wrote_command (value : UInt64) : Wrote hart a (command hart a value) := by
  rw [command]
  dsimp only
  split_ifs
  · exact .of_same rfl rfl rfl rfl fun _ h ↦ h
  · exact .of_same rfl rfl rfl rfl fun _ h ↦ h
  · exact .of_same rfl rfl rfl rfl fun _ h ↦ h
  · exact ⟨⟨[_], rfl, rfl⟩, rfl, rfl, fun _ h ↦ h⟩

theorem wrote_of_write {address : UInt64} {size : UInt16} {value : UInt64}
    (h : write hart a address size value = .ok a') : Wrote hart a a' := by
  obtain ⟨reg, -, h⟩ := Except.bind_eq_ok_iff.mp h
  dsimp only at h
  by_cases hpop : reg = 0x48
  · rw [if_pos hpop] at h
    exact Except.ok.inj h ▸ wrote_pop value
  rw [if_neg hpop] at h
  by_cases hhigh : 0x28 < reg
  · rw [if_pos hhigh] at h
    cases h
  rw [if_neg hhigh] at h
  split_ifs at h
  -- all registers but the command register
  iterate 6 exact Except.ok.inj h ▸ .of_same rfl rfl rfl rfl fun _ h ↦ h
  exact Except.ok.inj h ▸ wrote_command value

theorem Store.perm {memoryPort : BusPortT} {depth : UInt32} {owed owed' : List MemoryRequest}
    {x : Exchange} (h : Store hart memoryPort depth owed a x) (hperm : owed'.Perm owed) :
    Store hart memoryPort depth owed' a x := by
  obtain ⟨out, waiting, hrequests, hout, hwaiting, howed, hsent⟩ := h.order
  exact { h with order := ⟨out, waiting, hrequests, hout, hwaiting, hperm.trans howed, hsent⟩ }

end MmioBusAdapter

/-! ## The account -/

namespace HartView

/-- The requests of the adapter that the bus has not taken. -/
def unsent (v : HartView) : List MemoryRequest :=
  (v.mmio.requests.filter fun e ↦ !e.sent).map MmioEntry.request

/-- What the hart waits for: the request of the core in `memoryWait`, and what the adapter has sent
and not finished. -/
def outstanding (v : HartView) : List MemoryRequest :=
  (if v.state = .memoryWait then v.request.toList else []) ++
    (v.mmio.requests.filter MmioEntry.sent).map MmioEntry.request

/-- The account of a hart, with its part of the controller's log, its requests that are not served
and the responses on their way to it. -/
structure Account (Fifo : Prop) (hart : UInt32) (memoryPort : BusPortT) (depth : UInt32)
    (log : List (MemoryRequest × MemoryResponse)) (pending : List MemoryRequest)
    (answers : List MemoryResponse) (v : HartView) : Prop where
  running : v.state ≠ .faulted
  /-- The core sends only when the adapter has nothing to do. -/
  idle : v.state = .memoryWait → v.mmio.requests = []
  store : ∃ owed x, Store hart memoryPort depth owed v.mmio x
  /-- What the controller has answered was taken by the core or by the adapter, or is on its way. -/
  answered : ∃ taken coming mine : List (MemoryRequest × MemoryResponse),
    log.Perm (taken ++ coming) ∧ (Fifo → log = taken ++ coming) ∧
    coming.map Prod.snd = answers ∧
    (coming.map Prod.fst ++ pending).Perm v.outstanding ∧
    taken.Perm (v.answered ++ mine) ∧ mine.map Prod.fst = v.mmio.finished
  transactions : v.transactions.Perm (log.map Prod.fst ++ (pending ++ v.unsent))
  order : Fifo → v.transactions = log.map Prod.fst ++ (pending ++ v.unsent)
  count : v.transactions.length = v.sent + v.mmio.issued.length
  answers_log : ∀ x ∈ log, Answers x.1 x.2
  /-- No response to the adapter was an error. -/
  completed : v.mmio.stats.completed = v.mmio.finished.length
  results : ∀ result ∈ v.mmio.results, result.error = false

/-- Everything that the hart has asked of memory is done. -/
structure Settled (hart : UInt32) (log : List (MemoryRequest × MemoryResponse)) (v : HartView) :
    Prop where
  /-- It was the core's own requests and the commands of the adapter. -/
  asked : v.transactions.Perm (v.answered.map Prod.fst ++ v.mmio.commanded hart)
  served : v.transactions.Perm (log.map Prod.fst)
  answered : ∀ x ∈ v.answered, x ∈ log
  finished : v.mmio.finished.Perm (v.mmio.commanded hart)
  commands : v.mmio.stats.commands = v.mmio.issued.length
  completed : v.mmio.stats.completed = v.mmio.issued.length
  sent : v.sent = v.answered.length

variable {Fifo : Prop} {hart : UInt32} {memoryPort : BusPortT} {depth : UInt32}
  {log : List (MemoryRequest × MemoryResponse)} {pending : List MemoryRequest}
  {answers : List MemoryResponse} {v v' : HartView}

/-! ## The requests of the adapter -/

/-- The sent requests of the adapter are the ones that the bus owes. -/
theorem sent_perm {owed : List MemoryRequest} {x : Exchange} {a : MmioBusAdapter}
    (h : Store hart memoryPort depth owed a x) :
    owed.Perm ((a.requests.filter MmioEntry.sent).map MmioEntry.request) := by
  obtain ⟨out, waiting, hrequests, hout, hwaiting, howed, -⟩ := h.order
  have hsent : a.requests.filter MmioEntry.sent = out := by
    rw [hrequests, List.filter_append, List.filter_eq_self.mpr hout,
      List.filter_eq_nil_iff.mpr fun e he ↦ by simp [hwaiting e he], List.append_nil]
  rwa [hsent]

theorem outstanding_of_ne (h : v.state ≠ .memoryWait) :
    v.outstanding = (v.mmio.requests.filter MmioEntry.sent).map MmioEntry.request := by
  rw [outstanding, if_neg h, List.nil_append]

theorem unsent_of_eq_nil (h : v.mmio.requests = []) : v.unsent = [] := by
  rw [unsent, h]
  rfl

theorem outstanding_of_eq_nil (h : v.mmio.requests = []) (hstate : v.state = .memoryWait) :
    v.outstanding = v.request.toList := by
  rw [outstanding, h, if_pos hstate]
  exact List.append_nil _

/-- The requests that the bus has not taken, without the one that it takes now. -/
theorem filter_markSent {l : List MmioEntry} {e : MmioEntry}
    (he : l.find? (fun e ↦ !e.sent) = some e) : l.filter (fun e ↦ !e.sent) =
      e :: (MmioBusAdapter.markSent l).filter fun e ↦ !e.sent := by
  induction l with
  | nil => cases he
  | cons e' rest ih =>
    cases hsent : e'.sent with
    | true =>
      rw [List.find?_cons_of_neg (by simp [hsent])] at he
      rw [MmioBusAdapter.markSent, if_pos hsent, List.filter_cons_of_neg (by simp [hsent]),
        List.filter_cons_of_neg (by simp [hsent]), ih he]
    | false =>
      rw [List.find?_cons_of_pos (by simp [hsent])] at he
      obtain rfl := Option.some.inj he
      rw [MmioBusAdapter.markSent, if_neg (by simp [hsent]),
        List.filter_cons_of_pos (by simp [hsent]), List.filter_cons_of_neg (by simp)]

/-- A response answers a request that has been sent. -/
theorem filter_eraseP_answeredBy (id : UInt32) (l : List MmioEntry) :
    (l.eraseP (answeredBy id)).filter (fun e ↦ !e.sent) = l.filter fun e ↦ !e.sent := by
  induction l with
  | nil => rfl
  | cons e l ih =>
    by_cases hid : answeredBy id e = true
    · have hsent : e.sent = true := by
        rw [answeredBy, Bool.and_eq_true] at hid
        exact hid.1
      rw [List.eraseP_cons_of_pos hid, List.filter_cons_of_neg (by simp [hsent])]
    · rw [List.eraseP_cons_of_neg hid, List.filter_cons, List.filter_cons, ih]

namespace Account

variable (h : Account Fifo hart memoryPort depth log pending answers v)
include h

/-! ## The other parties -/

theorem serve {new : List (MemoryRequest × MemoryResponse)} {pending' : List MemoryRequest}
    (hnew : ∀ x ∈ new, Answers x.1 x.2)
    (hperm : pending.Perm (new.map Prod.fst ++ pending'))
    (horder : Fifo → pending = new.map Prod.fst ++ pending') :
    Account Fifo hart memoryPort depth (log ++ new) pending' (answers ++ new.map Prod.snd) v := by
  obtain ⟨taken, coming, mine, hlog, hlogs, hcoming, hout, htaken, hmine⟩ := h.answered
  refine { h with answered := ⟨taken, coming ++ new, mine, ?_, ?_, ?_, ?_, htaken, hmine⟩
                  transactions := ?_, order := ?_, answers_log := ?_ }
  · rw [← List.append_assoc]
    exact hlog.append_right new
  · exact fun hF ↦ by rw [hlogs hF, List.append_assoc]
  · rw [List.map_append, hcoming]
  · rw [List.map_append, List.append_assoc]
    exact (hperm.symm.append_left _).trans hout
  · refine h.transactions.trans ?_
    rw [List.map_append, List.append_assoc, ← List.append_assoc (new.map Prod.fst)]
    exact (hperm.append_right _).append_left _
  · intro hF
    rw [h.order hF, horder hF, List.map_append, List.append_assoc, List.append_assoc]
  · intro x hx
    exact (List.mem_append.mp hx).elim (h.answers_log x) (hnew x)

/-! ## The core

A core works, which may add commands to its adapter, sends its request when the adapter has nothing
to do, and takes the response to it.
-/

theorem works (hworks : Works hart v v') (hstate : v.state ≠ .memoryWait) :
    Account Fifo hart memoryPort depth log pending answers v' := by
  -- what the core commands comes after everything else
  have hwrote : Wrote hart v.mmio v'.mmio ∧
      ∃ owed x, Store hart memoryPort depth owed v.mmio x ∧
        Store hart memoryPort depth owed v'.mmio x := by
    obtain ⟨owed, x, hstore⟩ := h.store
    rcases hworks.mmio with hsame | ⟨address, size, value, hwrite⟩
    · rw [hsame]
      exact ⟨.of_same rfl rfl rfl rfl fun _ h ↦ h, owed, x, hstore, hstore⟩
    · exact ⟨wrote_of_write hwrite, owed, x, hstore, hstore.write hwrite⟩
  obtain ⟨hwrote, owed, x, hstore, hstore'⟩ := hwrote
  obtain ⟨commands, hissued, hrequests⟩ := hwrote.commands
  have htransactions : v'.transactions = v.transactions ++
      commands.map (MmioCommand.request hart) := by
    rw [hworks.transactions, hissued, List.drop_left' rfl]
  have hnew : ∀ e ∈ commands.map fun c ↦
      ({ request := c.request hart, created := v.mmio.clock } : MmioEntry), e.sent = false := by
    intro e he
    obtain ⟨c, -, rfl⟩ := List.mem_map.mp he
    rfl
  have hunsent : v'.unsent = v.unsent ++ commands.map (MmioCommand.request hart) := by
    have hall := List.filter_eq_self.mpr fun e he ↦ congrArg not (hnew e he)
    rw [unsent, unsent, hrequests, List.filter_append, hall, List.map_append, List.map_map]
    rfl
  have hsent : v'.mmio.requests.filter MmioEntry.sent = v.mmio.requests.filter MmioEntry.sent := by
    have hnone := List.filter_eq_nil_iff.mpr fun e he ↦ Bool.eq_false_iff.mp (hnew e he)
    rw [hrequests, List.filter_append, hnone, List.append_nil]
  obtain ⟨taken, coming, mine, hlog, hlogs, hcoming, hout, htaken, hmine⟩ := h.answered
  refine
    { running := hworks.state.2
      idle := fun hwait ↦ absurd hwait hworks.state.1
      store := ⟨owed, x, hstore'⟩
      answered := ⟨taken, coming, mine, hlog, hlogs, hcoming, ?_, ?_, ?_⟩
      transactions := ?_, order := ?_, count := ?_, answers_log := h.answers_log
      completed := by rw [hwrote.completed, hwrote.finished, h.completed]
      results := fun result hresult ↦ h.results result (hwrote.results result hresult) }
  · rw [outstanding_of_ne hworks.state.1, hsent, ← outstanding_of_ne hstate]
    exact hout
  · rw [hworks.answered]
    exact htaken
  · rw [hwrote.finished]
    exact hmine
  · rw [htransactions, hunsent, ← List.append_assoc pending, ← List.append_assoc]
    exact h.transactions.append_right _
  · intro hF
    rw [htransactions, hunsent, h.order hF]
    simp only [List.append_assoc]
  · rw [htransactions, List.length_append, h.count, hworks.sent, hissued, List.length_append,
      List.length_map, Nat.add_assoc]

theorem send {q : MemoryRequest} (hstate : v.state ≠ .memoryWait) (hidle : v.mmio.requests = [])
    (hrequest : v.request = some q) :
    Account Fifo hart memoryPort depth log (pending ++ [q]) answers { v with
      state := .memoryWait, transactions := v.transactions ++ [q], sent := v.sent + 1 } := by
  have hnone : v.outstanding = [] := by
    rw [outstanding_of_ne hstate, hidle]
    rfl
  have hunsent : v.unsent = [] := unsent_of_eq_nil hidle
  obtain ⟨taken, coming, mine, hlog, hlogs, hcoming, hout, htaken, hmine⟩ := h.answered
  refine { h with running := Rv64CoreState.noConfusion
                  idle := fun _ ↦ hidle
                  answered := ⟨taken, coming, mine, hlog, hlogs, hcoming, ?_, htaken, hmine⟩
                  transactions := ?_, order := ?_, count := ?_ }
  · rw [hnone] at hout
    rw [← List.append_assoc, hout.eq_nil, List.nil_append, outstanding, hrequest, hidle]
    exact List.Perm.refl _
  · have hperm := h.transactions.append_right [q]
    rw [hunsent, List.append_nil, List.append_assoc] at hperm
    change (v.transactions ++ [q]).Perm (_ ++ (_ ++ v.unsent))
    rwa [hunsent, List.append_nil]
  · intro hF
    change v.transactions ++ [q] = _ ++ (_ ++ v.unsent)
    rw [h.order hF, hunsent, List.append_nil, List.append_nil, List.append_assoc]
  · change (v.transactions ++ [q]).length = v.sent + 1 + v.mmio.issued.length
    rw [List.length_append, List.length_singleton, h.count]
    omega

/-! ## The adapter

The adapter sends the oldest request that it has not sent, and finishes the one that a response
answers. `Store` says what these do to the adapter itself; here they are events of the account.
-/

theorem still {a : MmioBusAdapter} (hsame : SameStore v.mmio a)
    (hdone : isDone a.status = true → isDone v.mmio.status = true)
    (hcompleted : a.stats.completed = v.mmio.stats.completed) :
    Account Fifo hart memoryPort depth log pending answers { v with mmio := a } := by
  have hunsent : HartView.unsent { v with mmio := a } = v.unsent := by
    rw [unsent, unsent, hsame.requests]
  have houtstanding : HartView.outstanding { v with mmio := a } = v.outstanding := by
    rw [outstanding, outstanding, hsame.requests]
  obtain ⟨owed, x, hstore⟩ := h.store
  exact
    { running := h.running
      idle := fun hwait ↦ hsame.requests.trans (h.idle hwait)
      store := ⟨owed, x, hstore.congr hsame hdone⟩
      answered := by
        rw [houtstanding, hsame.finished]
        exact h.answered
      transactions := by
        rw [hunsent]
        exact h.transactions
      order := by
        rw [hunsent]
        exact h.order
      count := by
        rw [hsame.issued]
        exact h.count
      answers_log := h.answers_log
      completed := by
        rw [hcompleted, hsame.finished]
        exact h.completed
      results := by
        rw [hsame.results]
        exact h.results }

theorem markSent {e : MmioEntry} (he : v.mmio.unsent = some e) :
    Account Fifo hart memoryPort depth log (pending ++ [e.request]) answers
      { v with mmio := { v.mmio with requests := MmioBusAdapter.markSent v.mmio.requests } } := by
  set v' : HartView :=
    { v with mmio := { v.mmio with requests := MmioBusAdapter.markSent v.mmio.requests } }
  have hstate : v.state ≠ .memoryWait := by
    intro hwait
    rw [MmioBusAdapter.unsent, h.idle hwait] at he
    cases he
  obtain ⟨owed, x, hstore⟩ := h.store
  obtain ⟨-, hstore'⟩ := hstore.markSent he
  have hunsent : v.unsent = e.request :: v'.unsent :=
    congrArg (List.map MmioEntry.request) (filter_markSent he)
  have houtstanding : (v.outstanding ++ [e.request]).Perm v'.outstanding := by
    rw [outstanding_of_ne hstate, outstanding_of_ne (v := v') hstate]
    exact ((sent_perm hstore).symm.append_right _).trans (sent_perm hstore')
  obtain ⟨taken, coming, mine, hlog, hlogs, hcoming, hout, htaken, hmine⟩ := h.answered
  refine { h with idle := fun hwait ↦ absurd hwait hstate
                  store := ⟨_, _, hstore'⟩
                  answered := ⟨taken, coming, mine, hlog, hlogs, hcoming, ?_, htaken, hmine⟩
                  transactions := ?_, order := ?_ }
  · rw [← List.append_assoc]
    exact (hout.append_right _).trans houtstanding
  · rw [List.append_assoc, List.singleton_append, ← hunsent]
    exact h.transactions
  · rw [List.append_assoc, List.singleton_append, ← hunsent]
    exact h.order

/-- The response that arrives is among those that are coming, and answers its request. -/
theorem find_coming {front back : List MemoryResponse} {r : MemoryResponse}
    (hanswers : answers = front ++ r :: back) :
    ∃ (taken before after mine : List (MemoryRequest × MemoryResponse)) (q : MemoryRequest),
      log.Perm (taken ++ (before ++ (q, r) :: after)) ∧
      (Fifo → log = taken ++ (before ++ (q, r) :: after)) ∧
      before.map Prod.snd = front ∧ after.map Prod.snd = back ∧
      (before.map Prod.fst ++ q :: (after.map Prod.fst ++ pending)).Perm v.outstanding ∧
      taken.Perm (v.answered ++ mine) ∧ mine.map Prod.fst = v.mmio.finished ∧ Answers q r := by
  obtain ⟨taken, coming, mine, hlog, hlogs, hcoming, hout, htaken, hmine⟩ := h.answered
  obtain ⟨before, rest, rfl, hbefore, hrest⟩ := List.map_eq_append_iff.mp (hcoming.trans hanswers)
  obtain ⟨⟨q, r'⟩, after, rfl, rfl, hafter⟩ := List.map_eq_cons_iff.mp hrest
  refine ⟨taken, before, after, mine, q, hlog, hlogs, hbefore, hafter, ?_, htaken, hmine, ?_⟩
  · rwa [List.map_append, List.map_cons, List.append_assoc, List.cons_append] at hout
  · exact h.answers_log (q, r') (hlog.mem_iff.mpr (by simp))

theorem complete {front back : List MemoryResponse} {r : MemoryResponse}
    (hstate : v.state ≠ .memoryWait) (hanswers : answers = front ++ r :: back)
    (hfront : Fifo → front = []) :
    ∃ e, v.mmio.requests.find? (answeredBy r.transactionId) = some e ∧ r.hartId = hart ∧
      Account Fifo hart memoryPort depth log pending (front ++ back)
        { v with mmio := v.mmio.complete e r } := by
  obtain ⟨taken, before, after, mine, q, hlog, hlogs, rfl, rfl, hout, htaken, hmine, hanswer⟩ :=
    h.find_coming hanswers
  obtain ⟨owed, x, hstore⟩ := h.store
  rw [outstanding_of_ne hstate] at hout
  -- what is coming or pending is owed, in some order
  have howed := hstore.perm (hout.trans (sent_perm hstore).symm)
  obtain ⟨e, hfind, hhart, hstore'⟩ :=
    howed.complete rfl hanswer.hartId hanswer.transactionId
  obtain rfl : e.request = q := by
    have hq : q ∈ (v.mmio.requests.filter MmioEntry.sent).map MmioEntry.request :=
      hout.subset (by simp)
    obtain ⟨e', he', rfl⟩ := List.mem_map.mp hq
    obtain ⟨he', -⟩ := List.mem_filter.mp he'
    have hid := List.find?_some hfind
    rw [answeredBy, Bool.and_eq_true, beq_iff_eq] at hid
    rw [List.inj_on_of_nodup_map hstore.nodup (List.mem_of_find?_eq_some hfind) he'
      (hid.2.trans hanswer.transactionId)]
  have hvalid : e.request.Valid := by
    refine (hstore.valid _ (hstore.accounts.subset (List.mem_append_right _ ?_))).1
    exact List.mem_map_of_mem (List.mem_of_find?_eq_some hfind)
  have hok : failed e r = false := by
    rw [failed, hanswer.status hvalid, hanswer.length hvalid]
    simp
  have hunsent : HartView.unsent { v with mmio := v.mmio.complete e r } = v.unsent := by
    rw [unsent, unsent, requests_complete, filter_eraseP_answeredBy]
  have hfinished : (v.mmio.complete e r).finished = v.mmio.finished ++ [e.request] :=
    congrArg (· ++ [e.request]) (takeData_same v.mmio e r).finished
  refine ⟨e, hfind, hhart,
    { h with idle := fun hwait ↦ absurd hwait hstate
             store := ⟨_, _, hstore'⟩
             answered := ⟨taken ++ [(e.request, r)], before ++ after, mine ++ [(e.request, r)],
               ?_, fun hF ↦ ?_, List.map_append, ?_, ?_, ?_⟩
             transactions := ?_, order := ?_, count := ?_, completed := ?_, results := ?_ }⟩
  · rw [List.append_assoc]
    exact hlog.trans (List.perm_middle.append_left taken)
  · obtain rfl : before = [] := List.map_eq_nil_iff.mp (hfront hF)
    rw [hlogs hF, List.append_assoc]
    rfl
  · rw [outstanding_of_ne (v := { v with mmio := v.mmio.complete e r }) hstate, List.map_append,
      List.append_assoc]
    exact sent_perm hstore'
  · rw [← List.append_assoc]
    exact htaken.append_right _
  · rw [List.map_append, hmine, hfinished]
    rfl
  · rw [hunsent]
    exact h.transactions
  · rw [hunsent]
    exact h.order
  · rw [show (v.mmio.complete e r).issued = v.mmio.issued from (takeData_same v.mmio e r).issued]
    exact h.count
  · rw [hfinished, List.length_append, List.length_singleton, ← h.completed,
      MmioBusAdapter.complete, takeData, hok]
    rfl
  · intro result hresult
    rw [MmioBusAdapter.complete] at hresult
    dsimp only at hresult
    rw [(takeData_same v.mmio e r).results, hok] at hresult
    split_ifs at hresult
    · rcases List.mem_append.mp hresult with hresult | hresult
      · exact h.results result hresult
      · rw [List.mem_singleton.mp hresult]
    · exact h.results result hresult

/-- A core that waits has sent its request, nothing else of the hart is under way, and a response
answers this request. -/
theorem awaited {r : MemoryResponse} (hstate : v.state = .memoryWait) (hr : r ∈ answers) :
    ∃ q, v.request = some q ∧ Answers q r ∧ answers = [r] ∧ pending = [] := by
  obtain ⟨front, back, hanswers⟩ := List.append_of_mem hr
  obtain ⟨-, before, after, -, q, -, -, rfl, rfl, hout, -, -, hanswer⟩ := h.find_coming hanswers
  rw [outstanding_of_eq_nil (h.idle hstate) hstate] at hout
  have hlength := hout.length_eq
  cases hrequest : v.request with
  | none =>
    rw [hrequest] at hlength
    simp at hlength
  | some q' =>
    rw [hrequest, Option.toList_some] at hout hlength
    simp only [List.length_append, List.length_cons, List.length_map, List.length_nil] at hlength
    obtain rfl : before = [] := List.eq_nil_of_length_eq_zero (by omega)
    obtain rfl : after = [] := List.eq_nil_of_length_eq_zero (by omega)
    obtain rfl : pending = [] := List.eq_nil_of_length_eq_zero (by omega)
    obtain rfl : q = q' := by simpa using hout
    exact ⟨q, rfl, hanswer, hanswers, rfl⟩

theorem take {r : MemoryResponse} {q : MemoryRequest} (hstate : v.state = .memoryWait)
    (hr : r ∈ answers) (hrequest : v.request = some q)
    (hstate' : v'.state ≠ .memoryWait ∧ v'.state ≠ .faulted) (hmmio : v'.mmio = v.mmio)
    (htransactions : v'.transactions = v.transactions)
    (hsent : v'.sent = v.sent) (hanswered : v'.answered = v.answered ++ [(q, r)]) :
    Account Fifo hart memoryPort depth log pending [] v' := by
  obtain ⟨q', hrequest', -, hone, rfl⟩ := h.awaited hstate hr
  obtain rfl : q = q' := Option.some.inj (hrequest.symm.trans hrequest')
  have hidle := h.idle hstate
  obtain ⟨taken, before, after, mine, q', hlog, hlogs, hbefore, hafter, hout, htaken, hmine, -⟩ :=
    h.find_coming (show answers = [] ++ r :: [] from hone)
  obtain rfl : before = [] := List.map_eq_nil_iff.mp hbefore
  obtain rfl : after = [] := List.map_eq_nil_iff.mp hafter
  obtain rfl : q' = q := by
    rw [outstanding_of_eq_nil hidle hstate, hrequest] at hout
    simpa using hout
  have hunsent : v'.unsent = v.unsent := by rw [unsent, unsent, hmmio]
  -- The response is the only one that was coming, so nothing is outstanding after it.
  have hnone : v'.outstanding = [] := by
    rw [outstanding_of_ne hstate'.1, hmmio, hidle]
    rfl
  exact
    { running := hstate'.2
      idle := fun hwait ↦ absurd hwait hstate'.1
      store := hmmio ▸ h.store
      answered := ⟨taken ++ [(q', r)], [], mine, by simpa using hlog,
        fun hF ↦ by simpa using hlogs hF, rfl, by rw [hnone]; exact .nil, by
          rw [hanswered, List.append_assoc]
          exact (htaken.append_right _).trans
            (by rw [List.append_assoc]; exact List.perm_append_comm.append_left _),
        by rw [hmmio, hmine]⟩
      transactions := by
        rw [htransactions, hunsent]
        exact h.transactions
      order := by
        rw [htransactions, hunsent]
        exact h.order
      count := by
        rw [htransactions, hsent, hmmio]
        exact h.count
      answers_log := h.answers_log
      completed := by
        rw [hmmio]
        exact h.completed
      results := by
        rw [hmmio]
        exact h.results }

/-! ## The end -/

/-- A hart that waits for nothing and whose adapter has nothing to do has its account settled. -/
theorem settled (hstate : v.state ≠ .memoryWait) (hidle : v.mmio.requests = []) :
    pending = [] ∧ answers = [] ∧ v.Settled hart log := by
  obtain ⟨taken, coming, mine, hlog, -, hcoming, hout, htaken, hmine⟩ := h.answered
  have hnone : v.outstanding = [] := by
    rw [outstanding_of_ne hstate, hidle]
    rfl
  rw [hnone] at hout
  obtain ⟨hmapped, rfl⟩ := List.append_eq_nil_iff.mp hout.eq_nil
  obtain rfl := List.map_eq_nil_iff.mp hmapped
  rw [List.append_nil] at hlog
  have hserved : v.transactions.Perm (log.map Prod.fst) := by
    have htransactions := h.transactions
    rwa [unsent_of_eq_nil hidle, List.append_nil, List.append_nil] at htransactions
  obtain ⟨owed, x, hstore⟩ := h.store
  have hfinished : v.mmio.finished.Perm (v.mmio.commanded hart) := by
    have haccounts := hstore.accounts
    rwa [hidle, List.map_nil, List.append_nil] at haccounts
  have hlength : v.mmio.finished.length = v.mmio.issued.length := by
    rw [hfinished.length_eq, commanded, List.length_map]
  have hperm : log.Perm (v.answered ++ mine) := hlog.trans htaken
  have hasked : v.transactions.Perm (v.answered.map Prod.fst ++ v.mmio.commanded hart) := by
    refine (hserved.trans (hperm.map Prod.fst)).trans ?_
    rw [List.map_append, hmine]
    exact hfinished.append_left _
  refine ⟨rfl, hcoming.symm, hasked, hserved, fun x hx ↦ ?_, hfinished, hstore.commands, ?_, ?_⟩
  · exact hperm.mem_iff.mpr (List.mem_append_left _ hx)
  · exact h.completed.trans hlength
  · have hcount := hasked.length_eq
    rw [h.count, List.length_append, List.length_map, commanded, List.length_map] at hcount
    omega

end Account

end HartView

end Manycore
