import SimbusNoc.Noc.Tick

/-!
# What the constructor guarantees

Every check of the constructor, and every fact of the topology it builds, that the calls rely on.

`Bus.WellFormed` collects them in the form in which they are used: widths are positive and not too
large, the watermarks are in order, each port is listed at one node, edges are where the table has
hops, and the table leads from every node to every other. Nothing else about the arguments of the
constructor is used anywhere. In particular no result assumes a topology, a number of ports or of
channels, or a value of a parameter, unless it says so.

The proof takes the checks one by one in the order of the source, each as an equivalence between
the check that returns and what it has found, so that a check that is changed is one lemma to
change.
-/

namespace Simbus

/-- The facts of a bus that the constructor has accepted. -/
structure Bus.WellFormed (b : Bus) : Prop where
  channels : b.chaCnt = b.chaWidths.length
  channels_pos : 0 < b.chaCnt
  widths : ∀ w ∈ b.chaWidths, 0 < w ∧ w ≤ 65536
  link_pos : 0 < b.linkWidthByte
  size_pos : b.config.receiveMessageSlots = 0 ∨ 0 < b.config.maxMessageBytes
  limits : b.config.congestion.enabled →
    0 < b.config.congestion.nodeBufferLimit ∧
      b.config.congestion.highWatermark ≤ b.config.congestion.nodeBufferLimit ∧
      b.config.congestion.lowWatermark ≤ b.config.congestion.highWatermark
  portIds_nodup : (b.port2node.map Prod.fst).Nodup
  nodes_nodup : b.nodeIds.Nodup
  home_mem : ∀ p, b.knownPort p = true → b.home p ∈ b.nodeIds
  ports_nodup : ∀ v, (b.nodePorts v).Nodup
  mem_ports : ∀ v p, p ∈ b.nodePorts v ↔ b.knownPort p = true ∧ b.home p = v
  routed : ∀ v ∈ b.nodeIds, ∀ d ∈ b.nodeIds,
    ∃ l, RouteTo b.route d v l ∧ l.length ≤ b.nodeIds.length + 1 ∧ ∀ u ∈ l, u ∈ b.nodeIds
  edges_nodup : b.edgeIds.Nodup
  edge_mem : ∀ v d w, b.route.find? v d = some w → v ≠ d → w ≠ v → (v, w) ∈ b.edgeIds
  edge_nodes : ∀ e ∈ b.edgeIds, e.1 ∈ b.nodeIds ∧ e.2 ∈ b.nodeIds

/-! ## The checks, one by one -/

theorem validateConfig_eq_ok {widths : List ℕ} {config : NocConfig}
    (h : validateConfig widths config = .ok ()) :
    0 < widths.length ∧ (∀ w ∈ widths, 0 < w ∧ w ≤ 65536) ∧ 0 < config.linkWidthByte ∧
      (config.receiveMessageSlots = 0 ∨ 0 < config.maxMessageBytes) ∧
      (config.congestion.enabled → 0 < config.congestion.nodeBufferLimit ∧
        config.congestion.highWatermark ≤ config.congestion.nodeBufferLimit ∧
        config.congestion.lowWatermark ≤ config.congestion.highWatermark) := by
  simp only [validateConfig, Except.bind_eq_ok_iff, require_eq_ok_iff, decide_eq_true_eq,
    Bool.or_eq_true, beq_iff_eq] at h
  obtain ⟨_, hlen, _, hlink, _, hsize, _, hwidths, hcongestion⟩ := h
  refine ⟨hlen, fun w hw ↦ ?_, hlink, hsize, fun hen ↦ ?_⟩
  · obtain ⟨c, hc⟩ := List.mem_iff_getElem?.mp hw
    have hmem : (w, c) ∈ widths.zipIdx := List.mk_mem_zipIdx_iff_getElem?.mpr hc
    have hok := forM_eq_ok_iff.mp hwidths (w, c) hmem
    simpa [Except.bind_eq_ok_iff, require_eq_ok_iff] using hok
  · rw [if_pos hen] at hcongestion
    simpa [Except.bind_eq_ok_iff, require_eq_ok_iff] using hcongestion

theorem uniquePorts_eq_ok {seen ports : List BusPortT} (h : uniquePorts seen ports = .ok ()) :
    ports.Nodup ∧ ∀ p ∈ ports, p ∉ seen := by
  induction ports generalizing seen with
  | nil => simp
  | cons p rest ih =>
    simp only [uniquePorts, Except.bind_eq_ok_iff, require_eq_ok_iff, Bool.not_eq_true',
      List.contains_eq_mem, decide_eq_false_iff_not, exists_const] at h
    obtain ⟨hp, hrest⟩ := h
    obtain ⟨hnodup, hseen⟩ := ih hrest
    refine ⟨List.nodup_cons.mpr ⟨fun hc ↦ hseen p hc List.mem_cons_self, hnodup⟩, fun q hq ↦ ?_⟩
    rcases List.mem_cons.mp hq with rfl | hq
    · exact hp
    · exact fun hc ↦ hseen q hq (List.mem_cons_of_mem p hc)

theorem mem_edgeEntries {route : BusRouteTable} {e : EdgeId} :
    e ∈ edgeEntries route ↔ ∃ d, route.find? e.1 d = some e.2 ∧ e.1 ≠ d ∧ e.2 ≠ e.1 := by
  obtain ⟨v, w⟩ := e
  simp only [edgeEntries, List.mem_map, List.mem_filter, Prod.exists, Prod.mk.injEq,
    BusRouteTable.mem_toTriples]
  constructor
  · rintro ⟨_, d, _, ⟨hfind, hcond⟩, rfl, rfl⟩
    exact ⟨d, hfind, by simpa using hcond⟩
  · rintro ⟨d, hfind, hvd, hwv⟩
    exact ⟨v, d, w, ⟨hfind, by simpa using ⟨hvd, hwv⟩⟩, rfl, rfl⟩

theorem mem_allEdges {route : BusRouteTable} {e : EdgeId} :
    e ∈ allEdges route ↔ e ∈ edgeEntries route ∨ (e.2, e.1) ∈ edgeEntries route := by
  obtain ⟨v, w⟩ := e
  simp only [allEdges, List.mem_insertionSort, List.mem_dedup, List.mem_flatMap, Prod.exists,
    List.mem_cons, Prod.mk.injEq, List.not_mem_nil, or_false]
  constructor
  · rintro ⟨x, y, hxy, ⟨rfl, rfl⟩ | ⟨rfl, rfl⟩⟩
    · exact .inl hxy
    · exact .inr hxy
  · rintro (h | h)
    · exact ⟨v, w, h, .inl ⟨rfl, rfl⟩⟩
    · exact ⟨w, v, h, .inr ⟨rfl, rfl⟩⟩

theorem nodup_allEdges (route : BusRouteTable) : (allEdges route).Nodup :=
  (List.perm_insertionSort _ _).nodup_iff.mpr (List.nodup_dedup _)

/-! ## The port map

Ports and nodes are looked up in the association lists of the configuration. The checks of the
constructor make the two maps inverse to each other.
-/

private theorem lookup_eq_some_iff {l : List (BusPortT × BusNodeT)} (hl : (l.map Prod.fst).Nodup)
    {p : BusPortT} {v : BusNodeT} : l.lookup p = some v ↔ (p, v) ∈ l := by
  induction l with
  | nil => simp
  | cons a l ih =>
    obtain ⟨q, w⟩ := a
    simp only [List.map_cons, List.nodup_cons, List.mem_map, Prod.exists, exists_and_right,
      exists_eq_right, not_exists] at hl
    by_cases hqp : p = q
    · subst hqp
      have := hl.1 v
      simp only [List.lookup_cons_self, Option.some.injEq, List.mem_cons, Prod.mk.injEq, true_and,
        this, or_false]
      exact eq_comm
    · have hbeq : (p == q) = false := by simpa using hqp
      simp [List.lookup_cons, hbeq, hqp, ih hl.2]

/-- The node list of a validated port map: the ports of a node are the ones at home there. -/
private theorem mem_filter_home {l : List (BusPortT × BusNodeT)} (hl : (l.map Prod.fst).Nodup)
    {p : BusPortT} {v : BusNodeT} :
    p ∈ (l.filter fun pn ↦ pn.2 == v).map Prod.fst ↔
      (l.map Prod.fst).contains p = true ∧ (l.lookup p).getD 0 = v := by
  simp only [List.mem_map, List.mem_filter, beq_iff_eq, Prod.exists, exists_and_right,
    exists_eq_right, List.contains_eq_mem, decide_eq_true_eq]
  constructor
  · intro hmem
    exact ⟨⟨v, hmem⟩, by rw [(lookup_eq_some_iff hl).mpr hmem, Option.getD_some]⟩
  · rintro ⟨⟨w, hmem⟩, hw⟩
    rw [(lookup_eq_some_iff hl).mpr hmem, Option.getD_some] at hw
    exact hw ▸ hmem

/-! ## The constructor -/

theorem construct_eq_ok {ord : HashOrder} {portIds : List BusPortT}
    {portToNode : List BusNodeT} {widths : List ℕ} {route : BusRouteTable} {config : NocConfig}
    {b : Bus} (h : construct ord portIds portToNode widths route config = .ok b) :
    b.chaCnt = widths.length ∧ b.chaWidths = widths ∧ b.linkWidthByte = config.linkWidthByte ∧
      b.routeLatency = config.routeLatency ∧ b.port2node = portIds.zip portToNode ∧
      b.route = route ∧ b.config = config := by
  simp only [construct, Except.bind_eq_ok_iff] at h
  obtain ⟨_, -, _, -, _, -, _, -, _, -, _, -, hb⟩ := h
  obtain rfl := Except.ok.inj hb
  exact ⟨rfl, rfl, rfl, rfl, rfl, rfl, rfl⟩

theorem construct_wellFormed {ord : HashOrder} {portIds : List BusPortT}
    {portToNode : List BusNodeT} {widths : List ℕ} {route : BusRouteTable} {config : NocConfig}
    {b : Bus} (h : construct ord portIds portToNode widths route config = .ok b) :
    b.WellFormed := by
  simp only [construct, Except.bind_eq_ok_iff, require_eq_ok_iff, beq_iff_eq] at h
  obtain ⟨_, hconfig, _, hlen, _, -, _, hunique, _, hroute, _, hedges, hb⟩ := h
  obtain ⟨hcha, hwidths, hlink, hsize, hlimits⟩ := validateConfig_eq_ok hconfig
  obtain ⟨hnodup, -⟩ := uniquePorts_eq_ok hunique
  set nodes := portToNode.dedup.insertionSort (· ≤ ·) with hnodes
  have hfst : (portIds.zip portToNode).map Prod.fst = portIds :=
    List.map_fst_zip (by omega)
  have hnd : ((portIds.zip portToNode).map Prod.fst).Nodup := by rw [hfst]; exact hnodup
  -- The nodes are those of the port map, sorted and then listed in the order of the hash table.
  have hmem : ∀ v, v ∈ ord.nodes nodes ↔ v ∈ portToNode := by
    intro v
    rw [(ord.nodes_perm nodes).mem_iff, hnodes, List.mem_insertionSort, List.mem_dedup]
  obtain rfl := (Except.ok.inj hb).symm
  refine {
    channels := rfl
    channels_pos := hcha
    widths := hwidths
    link_pos := hlink
    size_pos := hsize
    limits := hlimits
    portIds_nodup := hnd
    nodes_nodup := (ord.nodes_perm nodes).nodup_iff.mpr
      ((List.perm_insertionSort _ _).nodup_iff.mpr (List.nodup_dedup _))
    home_mem := fun p hp ↦ ?_
    ports_nodup := fun v ↦ (ord.ports_perm _).nodup_iff.mpr
      (List.Nodup.sublist (List.filter_sublist.map _) hnd)
    mem_ports := fun v p ↦ by
      rw [(ord.ports_perm _).mem_iff]
      exact mem_filter_home hnd
    routed := fun v hv d hd ↦ ?_
    edges_nodup := nodup_allEdges route
    edge_mem := fun v d w hw hvd hwv ↦
      mem_allEdges.mpr (.inl (mem_edgeEntries.mpr ⟨d, hw, hvd, hwv⟩))
    edge_nodes := fun e he ↦ ?_ }
  · rw [hmem]
    obtain ⟨v, hpv⟩ : ∃ v, (p, v) ∈ portIds.zip portToNode := by
      simpa [Bus.knownPort] using hp
    rw [Bus.home, (lookup_eq_some_iff hnd).mpr hpv, Option.getD_some]
    exact (List.of_mem_zip hpv).2
  · have hperm : ∀ u, u ∈ ord.nodes nodes ↔ u ∈ nodes := fun u ↦ (ord.nodes_perm nodes).mem_iff
    obtain ⟨l, hl, hlen, hout⟩ :=
      routeTo_of_assertRouteTableValid hroute ((hperm v).mp hv) ((hperm d).mp hd)
    refine ⟨l, hl, ?_, fun u hu ↦ (hperm u).mpr (hout u hu)⟩
    rwa [(ord.nodes_perm nodes).length_eq]
  · have hnode : ∀ f ∈ edgeEntries route, f.1 ∈ ord.nodes nodes ∧ f.2 ∈ ord.nodes nodes := by
      intro f hf
      have hok := forM_eq_ok_iff.mp hedges f hf
      simpa [Except.bind_eq_ok_iff, require_eq_ok_iff, (ord.nodes_perm nodes).mem_iff] using hok
    rcases mem_allEdges.mp he with he | he
    · exact hnode e he
    · exact (hnode _ he).symm

end Simbus
