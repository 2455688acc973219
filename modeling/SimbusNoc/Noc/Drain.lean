import SimbusNoc.Noc.Gridlock
import SimbusNoc.Noc.Reliability
import Mathlib.Data.Prod.Lex

/-!
# The uncongested network drains

Without congestion control no router ever refuses a packet, so that every tick moves a packet or
ages one as long as there is any. The packets' moves left and then the ages left go down with every
tick, and in the end nothing is on its way.

What has been accepted and not been received is then whole in the receive buffers, in every run in
which the sizes of the messages survive the 32-bit arithmetic of `send` and no transmission id is
given to a message while the order buffer may need it for another.

## What is left

When nothing is on its way, every live message has arrived with all its packets
(`Inv.arrived_of_not_loaded`), so no order list holds anything and each receive buffer is the
packets of the live messages for it, one message after the other. `Drained` says this of a state in
terms of what has been accepted and returned, and its `Whole` in terms of what `recv` makes of it:
it takes the packets of the message and returns its bytes.

## Where it fails

A message of `2 ^ 32` bytes is accepted and gone, since its size is cast to 32 bits and it is cut
into no packets. No number of ticks brings it anywhere.
-/

namespace Simbus

namespace Bus

/-! ## Nothing on its way -/

/-- `packs` are the packets of one message, in order: `recv` takes them all and returns `data`. -/
structure Whole (packs : List MsgPack) (src : BusPortT) (data : Bytes) : Prop where
  nonempty : packs ≠ []
  count : ∀ p ∈ packs, p.pacCnt = packs.length
  indices : packs.map MsgPack.pacIdx = List.range packs.length
  source : ∀ p ∈ packs, p.src = src
  data : ∀ p ∈ packs, resize (packs.flatMap MsgPack.data) p.len = data

/-- The packets of a message with its source and its bytes. -/
structure Parcel where
  src : BusPortT
  data : Bytes
  packs : List MsgPack
  whole : Whole packs src data

/-- No packet is on its way or waits for others of its message. Each receive buffer holds, message
by message, what has been accepted for it and not been received. -/
structure Drained (events : List Event) (s : BusState) : Prop where
  sendBuf : ∀ p c, (s.ports p).sendBuf c = []
  pipeline : ∀ v, (s.nodes v).pipeline = []
  input : ∀ e c, (s.edges e).input c = none
  output : ∀ e c, (s.edges e).output c = none
  orderBuf : ∀ v, (s.nodes v).orderBuf = []
  received : ∀ d c, ∃ parcels : List Parcel,
    (s.ports d).recvBuf c = parcels.flatMap Parcel.packs ∧
      ∀ src, accepted ⟨src, d, c⟩ events = returned ⟨src, d, c⟩ events ++
        (parcels.filter fun q ↦ decide (q.src = src)).map Parcel.data

variable {b : Bus} {g : Ledger} {s s' : BusState}

/-! ## Every tick makes progress

Without gridlock a tick either moves a packet to its next stage, which lowers the moves left, or
ages a packet in a pipeline. The lexicographic order of the two falls with each tick.
-/

theorem progresses_of_loaded (hb : b.WellFormed) (hfree : b.config.congestion.enabled = false)
    (hs : b.Placed s) (hptr : b.Pointed s) (hloaded : Loaded s) : b.Progresses s := by
  by_contra hstop
  obtain ⟨v, -, hen, -⟩ := (exists_gridlock hb hs hptr hloaded hstop).nonempty
  exact Bool.noConfusion (hen.symm.trans hfree)

/-- The ticks that the packets of the pipelines still have to stay. -/
def ageLeft (b : Bus) (s : BusState) : ℕ := (b.transit s).2.flatten.sum

private theorem sum_map_pred_lt {l : List ℕ} (h : ∃ n ∈ l, n ≠ 0) :
    (l.map fun n ↦ n - 1).sum < l.sum := by
  induction l with
  | nil => simp at h
  | cons n l ih =>
    rw [List.map_cons, List.sum_cons, List.sum_cons]
    by_cases hrest : ∃ n ∈ l, n ≠ 0
    · have := ih hrest
      omega
    · -- nothing but `n` is left to go down
      have hle : (l.map fun n ↦ n - 1).sum ≤ (l.map id).sum :=
        List.sum_le_sum fun n _ ↦ Nat.sub_le n 1
      rw [List.map_id] at hle
      obtain ⟨m, hm, hne⟩ := h
      rcases List.mem_cons.mp hm with rfl | hm
      · omega
      · exact absurd ⟨m, hm, hne⟩ hrest

theorem ages_of_idles (hidles : ∀ v ∈ b.nodeIds, b.Idles v s s') :
    (b.transit s').2 = (b.transit s).2.map fun l ↦ l.map fun n ↦ n - 1 := by
  rw [transit, transit, List.map_map]
  refine List.map_inj_left.mpr fun v hv ↦ ?_
  rw [(hidles v hv).aged, Function.comp_apply, List.map_map, List.map_map]
  rfl

/-- A tick that makes progress leaves less to do: fewer moves, or the same moves and less to wait
for. -/
theorem Progresses.measure_lt (hb : b.WellFormed) (hs : b.Placed s) (h : b.Progresses s) :
    ∃ s', b.applyNextTick s = .ok s' ∧
      toLex (b.work s', b.ageLeft s') < toLex (b.work s, b.ageLeft s) := by
  obtain ⟨s', hs', hmoves⟩ := h
  obtain ⟨s₁, s₂, hs₂, hev, hcontents, -⟩ := contents_applyNextTick hb hs
  obtain rfl := Except.ok.inj (hs'.symm.trans hs₂)
  refine ⟨s', hs', Prod.Lex.toLex_lt_toLex.mpr ?_⟩
  have hwork : b.work s' = b.work s₁ := by rw [work, work, hcontents]
  rcases hev.work with heq | hlt
  · refine .inr ⟨by rw [hwork, work, work, heq], ?_⟩
    have hsame : s'.contents = s.contents := hcontents.trans heq
    have hages := ages_of_idles (applyNextTick_idles hb hs hs' hsame).1
    have hpositive : ∃ n ∈ (b.transit s).2.flatten, n ≠ 0 := by
      -- were all packets due, nothing would have changed
      by_contra hdue
      push Not at hdue
      refine hmoves (Prod.ext ?_ ?_)
      · rw [transit, transit, hsame]
      · rw [hages]
        refine (List.map_congr_left fun l hl ↦ ?_).trans (List.map_id _)
        refine (List.map_congr_left fun n hn ↦ ?_).trans (List.map_id _)
        rw [hdue n (List.mem_flatten_of_mem hl hn)]
        rfl
    change (b.transit s').2.flatten.sum < (b.transit s).2.flatten.sum
    rw [hages, ← List.map_flatten]
    exact sum_map_pred_lt hpositive
  · exact .inl (hwork ▸ hlt)

/-- From a state in which every packet is on its way, some number of ticks leaves none. -/
theorem exists_not_loaded (hb : b.WellFormed) (hfree : b.config.congestion.enabled = false)
    (hs : b.Placed s) (hptr : b.Pointed s) :
    ∃ n, ¬Loaded (b.run s (List.replicate n .applyNextTick)).2 := by
  induction hm : toLex (b.work s, b.ageLeft s) using WellFoundedLT.induction generalizing s with
  | ind m ih =>
    by_cases hloaded : Loaded s
    · obtain ⟨s', hs', hlt⟩ :=
        (progresses_of_loaded hb hfree hs hptr hloaded).measure_lt hb hs
      have hperform : b.perform s .applyNextTick = (.ticked, s') := by rw [perform, hs']
      have hplaced := hs.perform hb .applyNextTick
      have hpointed := hptr.perform .applyNextTick
      rw [hperform] at hplaced hpointed
      obtain ⟨n, hn⟩ := ih _ (hm ▸ hlt) hplaced hpointed rfl
      refine ⟨n + 1, ?_⟩
      rw [List.replicate_succ, run, hperform]
      exact hn
    · exact ⟨0, hloaded⟩

/-! ## What is left when nothing is on its way

The ledger has nothing in transit, so all live messages have arrived: they lie whole in the receive
buffers, and the order lists are empty.
-/

namespace Inv

theorem arrived_of_not_loaded (h : b.Inv False g s) (hloaded : ¬Loaded s) {m : Message}
    (hm : m ∈ g.live) : g.arrived m.serial = b.count m := by
  refine (h.carries.arrived_le m hm).antisymm (Nat.not_lt.mp fun hlt ↦ ?_)
  have hmem : b.pack m (g.arrived m.serial) ∈ (s.view b).travel m.flow := by
    rw [h.carries.travel]
    refine List.mem_flatMap.mpr ⟨m, by simp [hm], ?_⟩
    rw [packetsOf_drop hlt]
    exact List.mem_cons_self
  obtain ⟨-, y, -, hy⟩ := Stages.mem_along.mp hmem
  exact hloaded ⟨y, List.ne_nil_of_mem hy⟩

theorem orderBuf_of_not_loaded (h : b.Inv False g s) (hloaded : ¬Loaded s) (v : BusNodeT) :
    (s.nodes v).orderBuf = [] := by
  refine List.eq_nil_iff_forall_not_mem.mpr fun e he ↦ ?_
  have hlist := orderList_of_mem (h.placed.routers v).keys he
  rcases h.carries.order v e.1 with hnil | ⟨m, hm, -, -, -, hlt, -⟩ | ⟨hK, -⟩
  · exact (h.placed.routers v).filled e he (hlist.symm.trans hnil)
  · exact absurd (h.arrived_of_not_loaded hloaded hm) hlt.ne
  · exact hK

theorem whole_packetsOf (hb : b.WellFormed) {m : Message} (hm : b.Sized m) :
    Whole (b.packetsOf m) m.src m.data where
  nonempty := List.ne_nil_of_length_pos (by
    rw [length_packetsOf]
    exact hm.count_pos hb)
  count := fun p hp ↦ by
    obtain ⟨i, -, rfl⟩ := mem_packetsOf.mp hp
    rw [hm.pack_pacCnt, length_packetsOf]
  indices := by
    rw [length_packetsOf, packetsOf, List.map_map]
    refine (List.map_congr_left fun i hi ↦ ?_).trans (List.map_id _)
    exact hm.pack_pacIdx (List.mem_range.mp hi)
  source := fun p hp ↦ by
    obtain ⟨i, -, rfl⟩ := mem_packetsOf.mp hp
    rfl
  data := fun p hp ↦ by
    obtain ⟨i, -, rfl⟩ := mem_packetsOf.mp hp
    exact resize_packetsOf hb hm i

theorem exists_parcels_of_sized (hb : b.WellFormed) {l : List Message}
    (h : ∀ m ∈ l, b.Sized m) : ∃ parcels : List Parcel,
      l.flatMap b.packetsOf = parcels.flatMap Parcel.packs ∧
        ∀ src, (l.filter fun m ↦ decide (m.src = src)).map Message.data =
          (parcels.filter fun q ↦ decide (q.src = src)).map Parcel.data := by
  induction l with
  | nil => exact ⟨[], rfl, fun _ ↦ rfl⟩
  | cons m l ih =>
    obtain ⟨parcels, hpacks, hdata⟩ := ih fun m hm ↦ h m (List.mem_cons_of_mem _ hm)
    refine ⟨⟨m.src, m.data, b.packetsOf m, whole_packetsOf hb (h m List.mem_cons_self)⟩ :: parcels,
      ?_, fun src ↦ ?_⟩
    · rw [List.flatMap_cons, List.flatMap_cons, hpacks]
    · by_cases hsrc : m.src = src
      · rw [List.filter_cons_of_pos (by simpa using hsrc),
          List.filter_cons_of_pos (by simpa using hsrc), List.map_cons, List.map_cons, hdata]
      · rw [List.filter_cons_of_neg (by simpa using hsrc),
          List.filter_cons_of_neg (by simpa using hsrc), hdata]

/-- When nothing is on its way, the receive buffers hold the live messages. -/
theorem exists_parcels (hb : b.WellFormed) (h : b.Inv False g s) (hloaded : ¬Loaded s)
    (d : BusPortT) (c : ChannelT) : ∃ parcels : List Parcel,
      (s.ports d).recvBuf c = parcels.flatMap Parcel.packs ∧
        ∀ src, g.pending ⟨src, d, c⟩ =
          (parcels.filter fun q ↦ decide (q.src = src)).map Parcel.data := by
  obtain ⟨parcels, hpacks, hdata⟩ := exists_parcels_of_sized hb fun m hm ↦
    h.carries.sized m (h.carries.delivered_live d c m hm).1
  refine ⟨parcels, ?_, fun src ↦ ?_⟩
  · have hbuf := h.carries.recvBuf d c
    rw [(h.carries.jam d c).resolve_right fun h ↦ h.1, List.append_nil] at hbuf
    exact hbuf.trans hpacks
  · obtain ⟨rest, hrest, hall⟩ := h.carries.ordered id ⟨src, d, c⟩
    -- a live message that is not in the receive buffer would still be on its way
    have hnil : rest = [] := by
      refine List.eq_nil_iff_forall_not_mem.mpr fun m hm ↦ (hall m hm).ne ?_
      have hmem : m ∈ g.live.filter fun m ↦ decide (m.flow = ⟨src, d, c⟩) := by
        rw [hrest]
        exact List.mem_append_right _ hm
      exact h.arrived_of_not_loaded hloaded (List.mem_filter.mp hmem).1
    rw [Ledger.pending, hrest, hnil, List.append_nil]
    exact hdata src

theorem drained (hb : b.WellFormed) (h : b.Inv False g s) (hloaded : ¬Loaded s)
    {events : List Event} (hflows : ∀ f, accepted f events = returned f events ++ g.pending f) :
    Drained events s := by
  have hempty : ∀ y, s.contents y = [] := fun y ↦ by
    by_contra hne
    exact hloaded ⟨y, hne⟩
  refine ⟨fun p c ↦ hempty (.queue p c), fun v ↦ List.map_eq_nil_iff.mp (hempty (.pipe v)),
    fun e c ↦ Option.toList_eq_nil_iff.mp (hempty (.input e c)),
    fun e c ↦ Option.toList_eq_nil_iff.mp (hempty (.output e c)),
    h.orderBuf_of_not_loaded hloaded, fun d c ↦ ?_⟩
  obtain ⟨parcels, hbuf, hdata⟩ := h.exists_parcels hb hloaded d c
  exact ⟨parcels, hbuf, fun src ↦ by rw [hflows, hdata]⟩

end Inv

/-! ## Whole runs -/

/-- A call that names a port or a channel that the bus does not have changes nothing. -/
theorem perform_of_not_known {call : Call} (h : ¬∃ bound, call.Known b bound) :
    (b.perform s call).2 = s ∧ ∀ f, acceptedBy f (call, (b.perform s call).1) = none ∧
      returnedBy f (call, (b.perform s call).1) = none := by
  cases call with
  | send port dst c data =>
    cases hsend : b.send s port dst c data with
    | error e =>
      rw [perform, hsend]
      exact ⟨rfl, fun _ ↦ ⟨rfl, rfl⟩⟩
    | ok result =>
      obtain ⟨hport, hdst, hc, -⟩ := send_eq_ok hsend
      exact absurd ⟨data.length + 1, hport, hdst, hc, Nat.lt_succ_self _⟩ h
  | recv d c =>
    have hthrown : ∃ e, b.recv s d c = (.thrown e, s) := by
      rw [recv]
      cases hport : b.validatePort d with
      | error e => exact ⟨e, rfl⟩
      | ok u =>
        cases hchannel : b.validateChannel c with
        | error e => exact ⟨e, rfl⟩
        | ok u =>
          exact absurd ⟨0, validatePort_eq_ok.mp hport, validateChannel_eq_ok.mp hchannel⟩ h
    obtain ⟨e, hrecv⟩ := hthrown
    rw [perform, hrecv]
    exact ⟨rfl, fun _ ↦ ⟨rfl, rfl⟩⟩
  | applyNextTick | clearStatistics => exact absurd ⟨0, trivial⟩ h

/-- What a run accepts is what it returns, followed by what is still live. -/
theorem Inv.run_pending (hb : b.WellFormed) (calls : List Call) (h : b.Inv False g s)
    (hdistinct : g.Distinct b) (hfits : ∀ call ∈ calls, call.Fits b)
    (hids : RunAll b (IdFree b) s calls) :
    ∃ g', b.Inv False g' (b.run s calls).2 ∧
      ∀ f, g.pending f ++ accepted f (b.run s calls).1 =
        returned f (b.run s calls).1 ++ g'.pending f := by
  induction calls generalizing s g with
  | nil => exact ⟨g, h, fun f ↦ List.append_nil _⟩
  | cons call rest ih =>
    have hrest : ∀ call ∈ rest, call.Fits b := fun c hc ↦ hfits c (List.mem_cons_of_mem _ hc)
    obtain ⟨g₁, hinv, hdistinct₁, hflows⟩ : ∃ g₁, b.Inv False g₁ (b.perform s call).2 ∧
        g₁.Distinct b ∧ ∀ f, g.pending f ++
          (acceptedBy f (call, (b.perform s call).1)).toList =
            (returnedBy f (call, (b.perform s call).1)).toList ++ g₁.pending f := by
      by_cases hknown : ∃ bound, call.Known b bound
      · obtain ⟨bound, hknown⟩ := hknown
        obtain ⟨g₁, hinv, hdistinct₁, hacc⟩ := h.distinct_perform hb hdistinct hknown
          (hfits call List.mem_cons_self) hids.1
        exact ⟨g₁, hinv, hdistinct₁, hacc.flows⟩
      · obtain ⟨hsame, hnone⟩ := perform_of_not_known (s := s) hknown
        refine ⟨g, hsame.symm ▸ h, hdistinct, fun f ↦ ?_⟩
        rw [(hnone f).1, (hnone f).2]
        exact List.append_nil _
    obtain ⟨g₂, hinv₂, hflows₂⟩ := ih hinv hdistinct₁ hrest hids.2
    refine ⟨g₂, hinv₂, fun f ↦ ?_⟩
    have h₂ := hflows₂ f
    simp only [Bus.run, Bus.accepted, returned, filterMap_cons_toList] at h₂ ⊢
    rw [← List.append_assoc, hflows f, List.append_assoc, h₂, List.append_assoc]

/-! ## Ticks at the end of a run -/

theorem runAll_append_ticks {calls : List Call} (h : RunAll b (IdFree b) s calls) (n : ℕ) :
    RunAll b (IdFree b) s (calls ++ List.replicate n .applyNextTick) := by
  induction calls generalizing s with
  | nil =>
    rw [List.nil_append]
    induction n generalizing s with
    | zero => trivial
    | succ n ih => exact ⟨trivial, ih (s := (b.perform s .applyNextTick).2) h⟩
  | cons call calls ih => exact ⟨h.1, ih h.2⟩

end Bus

open Bus

variable {ord : HashOrder} {portIds : List BusPortT} {portToNode : List BusNodeT}
  {widths : List ℕ} {route : BusRouteTable} {config : NocConfig} {b : Bus} {calls : List Call}

/-- Without congestion control, some number of ticks after any run clears the network, and leaves
what has been accepted and not been received whole in the receive buffers. -/
theorem exists_drained (h : construct ord portIds portToNode widths route config = .ok b)
    (hfree : config.congestion.enabled = false) (hfits : ∀ call ∈ calls, call.Fits b)
    (hids : RunAll b (IdFree b) {} calls) :
    ∃ n, Drained (b.run {} (calls ++ List.replicate n .applyNextTick)).1
      (b.run {} (calls ++ List.replicate n .applyNextTick)).2 := by
  have hb := construct_wellFormed h
  obtain ⟨-, -, -, -, -, -, hconfig⟩ := construct_eq_ok h
  obtain ⟨n, hn⟩ := exists_not_loaded hb (hconfig ▸ hfree) (placed_run hb calls) (pointed_run calls)
  rw [← run_append] at hn
  have hall : ∀ call ∈ calls ++ List.replicate n .applyNextTick, call.Fits b := by
    intro call hcall
    rcases List.mem_append.mp hcall with hcall | hcall
    · exact hfits call hcall
    · rw [List.eq_of_mem_replicate hcall]
      trivial
  obtain ⟨g, hinv, hflows⟩ := (Inv.init b False).run_pending hb _ (by simp [Ledger.Distinct]) hall
    (runAll_append_ticks hids n)
  exact ⟨n, hinv.drained hb hn hflows⟩

/-! ## A bus without congestion control -/

def openConfig : NocConfig := { congestion := { enabled := false } }

/-- Two ports on two joined nodes, and one channel of four bytes. -/
def openBus : Bus where
  chaCnt := 1
  linkWidthByte := 64
  routeLatency := 3
  chaWidths := [4]
  port2node := [(0, 0), (1, 1)]
  route := pairRoute
  config := openConfig
  nodeIds := [0, 1]
  nodePorts := fun v ↦
    (([(0, 0), (1, 1)] : List (BusPortT × BusNodeT)).filter fun pn ↦ pn.2 == v).map Prod.fst
  edgeIds := [(0, 1), (1, 0)]

theorem construct_openBus :
    construct .insertion [0, 1] [0, 1] [4] pairRoute openConfig = .ok openBus := rfl

theorem not_inNetwork_init (p : MsgPack) : ¬InNetwork {} p := by
  rintro (⟨y, hy⟩ | ⟨v, e, he, -⟩ | ⟨d, c, h⟩)
  · cases y <;> exact List.not_mem_nil hy
  · exact List.not_mem_nil he
  · exact List.not_mem_nil h

theorem exists_drained_open :
    ∃ n, Drained (openBus.run {} ([.send 0 1 0 [1, 2, 3, 4, 5]] ++
        List.replicate n .applyNextTick)).1
      (openBus.run {} ([.send 0 1 0 [1, 2, 3, 4, 5]] ++ List.replicate n .applyNextTick)).2 :=
  exists_drained construct_openBus rfl
    (fun call hcall ↦ by
      obtain rfl := List.mem_singleton.mp hcall
      change ([1, 2, 3, 4, 5] : Bytes).length ≤ _
      decide)
    ⟨fun _ p hp ↦ absurd hp (not_inNetwork_init p), trivial⟩

theorem returned_ticks (f : Flow) (n : ℕ) (s : BusState) :
    returned f (b.run s (List.replicate n .applyNextTick)).1 = [] := by
  induction n generalizing s with
  | zero => rfl
  | succ n ih => exact ih _

theorem tick_of_not_loaded {s : BusState} (hb : b.WellFormed) (hs : b.Placed s)
    (hloaded : ¬Loaded s) : ¬Loaded (b.perform s .applyNextTick).2 ∧
      ∀ d c, ((b.perform s .applyNextTick).2.ports d).recvBuf c = (s.ports d).recvBuf c := by
  have htravel : ∀ f, (s.view b).travel f = [] := fun f ↦
    List.eq_nil_iff_forall_not_mem.mpr fun p hp ↦ by
      obtain ⟨-, y, -, hy⟩ := Stages.mem_along.mp hp
      exact hloaded ⟨y, List.ne_nil_of_mem hy⟩
  obtain ⟨s₁, s', hs', hev, rfl⟩ := applyNextTick_spec hb hs
  have hview : s₁.view b = s.view b := by
    refine (Relation.ReflTransGen.cases_head hev.arrivals).elim Eq.symm fun h ↦ ?_
    obtain ⟨_, ⟨p, t, hp, -⟩, -⟩ := h
    exact absurd (hp.symm.trans (htravel _)) (List.cons_ne_nil p t)
  rw [perform, hs']
  refine ⟨?_, fun d c ↦ congrFun (congrFun (congrArg View.recvBuf hview) d) c⟩
  rintro ⟨y, hy⟩
  have hy : s₁.contents y ≠ [] := by cases y <;> exact hy
  obtain ⟨p, hp⟩ := List.exists_mem_of_ne_nil _ hy
  have hmem : p ∈ (s₁.view b).travel p.flow :=
    Stages.mem_along.mpr ⟨by simp, y, hev.placed.located y p hp, hp⟩
  rw [hview, htravel] at hmem
  exact List.not_mem_nil hmem

theorem recvBuf_ticks (hb : b.WellFormed) (n : ℕ) :
    ∀ {s : BusState}, b.Placed s → ¬Loaded s → ∀ d c,
      ((b.run s (List.replicate n .applyNextTick)).2.ports d).recvBuf c =
        (s.ports d).recvBuf c := by
  induction n with
  | zero => exact fun _ _ _ _ ↦ rfl
  | succ n ih =>
    intro s hs hloaded d c
    obtain ⟨hloaded', hbuf⟩ := tick_of_not_loaded hb hs hloaded
    exact (ih (hs.perform hb .applyNextTick) hloaded' d c).trans (hbuf d c)

/-- A message of `2 ^ 32` bytes is accepted and gone: its size is cast to 32 bits, so that it is cut
into no packets. -/
theorem perform_oversized {data : Bytes} (hdata : data.length = 2 ^ 32) :
    ∃ s, openBus.perform {} (.send 0 1 0 data) = (.sent true, s) ∧ ¬Loaded s ∧
      (s.ports 1).recvBuf 0 = [] := by
  have hcnt : openBus.pacCnt data.length 0 = 0 := by
    rw [hdata]
    decide
  have hsend : openBus.send {} 0 1 0 data = .ok (true, enqueue {} 0 0 []) := by
    have hpackets : openBus.packets {} 0 1 0 data = [] := by
      rw [packets, hcnt]
      rfl
    rw [send, hcnt, hpackets]
    rfl
  refine ⟨enqueue {} 0 0 [], by rw [perform, hsend], ?_, rfl⟩
  rintro ⟨y, hy⟩
  refine hy ?_
  cases y with
  | queue p c =>
    have hports : (enqueue {} 0 0 []).ports = ({} : BusState).ports := by
      simp [enqueue, BusState.setPort]
    rw [BusState.contents, hports]
  | pipe | input | output => rfl

/-- An accepted message that no number of ticks brings to its destination. -/
theorem not_drained_oversized :
    construct .insertion [0, 1] [0, 1] [4] pairRoute openConfig = .ok openBus ∧
      openConfig.congestion.enabled = false ∧
      ¬∃ n, Drained (openBus.run {} ([.send 0 1 0 (List.replicate (2 ^ 32) 0)] ++
          List.replicate n .applyNextTick)).1
        (openBus.run {} ([.send 0 1 0 (List.replicate (2 ^ 32) 0)] ++
          List.replicate n .applyNextTick)).2 := by
  refine ⟨construct_openBus, rfl, ?_⟩
  rintro ⟨n, hn⟩
  have hb := construct_wellFormed construct_openBus
  generalize hdata : List.replicate (2 ^ 32) (0 : UInt8) = data at hn
  have hlength : data.length = 2 ^ 32 := by rw [← hdata, List.length_replicate]
  obtain ⟨s, hsent, hloaded, hbuf⟩ := perform_oversized hlength
  have hplaced := (Placed.init openBus).perform hb (.send 0 1 0 data)
  rw [hsent] at hplaced
  obtain ⟨parcels, hparcels, haccepted⟩ := hn.received 1 0
  rw [List.singleton_append, run, hsent] at hparcels haccepted
  dsimp only at hparcels haccepted
  rw [recvBuf_ticks hb n hplaced hloaded, hbuf] at hparcels
  -- an empty buffer holds no parcel
  have hnone : parcels = [] := by
    cases parcels with
    | nil => rfl
    | cons q parcels =>
      rw [List.flatMap_cons] at hparcels
      exact absurd (List.append_eq_nil_iff.mp hparcels.symm).1 q.whole.nonempty
  have hall := haccepted 0
  rw [hnone, accepted, returned, filterMap_cons_toList, filterMap_cons_toList] at hall
  have hticks := returned_ticks (b := openBus) ⟨0, 1, 0⟩ n s
  rw [returned] at hticks
  rw [hticks] at hall
  exact List.cons_ne_nil _ _ hall

end Simbus
