import DotRunner.Engine.Transitions
import DotRunner.Lint.Rules

/-!
# Reachability

The nodes the linter reports as unreachable against the nodes a run may come to.  The
search of the rule stops at the retry targets; a run goes on from them.
-/

namespace DotRunner

open Py

section Graphs

variable [Runtime]

/-- Where a run may come: over edges, by a jump to a retry target of a node it visits or
of the graph, and from a parallel node to the fan-in. -/
inductive MayVisit (g : Graph) : String → Prop
  | start {n : Node} (h : findStartNode g = .ok n) : MayVisit g n.id
  | edge {a b : String} (ha : MayVisit g a) (hb : b ∈ linked g a) : MayVisit g b
  | nodeRetry {n : Node} {name t : String} (ha : MayVisit g n.id) (hn : g.node? n.id = some n)
      (hname : name ∈ retryTargetNames) (ht : namedTarget g (n.attr name) = some t) : MayVisit g t
  | graphRetry {a name t : String} (ha : MayVisit g a) (hname : name ∈ retryTargetNames)
      (ht : namedTarget g (g.attr name) = some t) : MayVisit g t
  | fanIn {n : Node} {ord : SetOrder} {roots : List String} {t : String} (ha : MayVisit g n.id)
      (hn : g.node? n.id = some n) (hr : Walk.branchRoots g n = some roots)
      (hf : g.findFanInNode ord roots = some t) (ht : g.hasNode t = true) : MayVisit g t

/-- What the rule does not report: what the first start node reaches over edges, and
every node that some retry attribute names. -/
def Accounted (g : Graph) (id : String) : Prop :=
  (∃ start rest, g.startNodes = start :: rest ∧ Search.Reach (linked g) start.id id) ∨
    id ∈ namedTargets g

/-- Where a run starts, what follows a retry target it comes to, and the fan-ins it jumps
to are accounted for. -/
structure JumpsAccounted (g : Graph) : Prop where
  start : ∀ n, findStartNode g = .ok n → Accounted g n.id
  onward : ∀ t ∈ namedTargets g, MayVisit g t → ∀ b ∈ linked g t, Accounted g b
  fanIn : ∀ n ord roots t, MayVisit g n.id → g.node? n.id = some n →
    Walk.branchRoots g n = some roots → g.findFanInNode ord roots = some t →
    g.hasNode t = true → Accounted g t

omit [Runtime] in
theorem hasNode_of_linked {g : Graph} {a b : String} (h : b ∈ linked g a) : g.hasNode b = true :=
  (List.mem_filter.mp h).2

omit [Runtime] in
theorem namedTarget_eq_some {g : Graph} {v : Value} {t : String} (h : namedTarget g v = some t) :
    v = .str t ∧ g.hasNode t = true := by
  cases v with
  | str s =>
    rw [namedTarget] at h
    split at h
    · rename_i hs
      obtain rfl := Option.some.inj h
      exact ⟨rfl, (Bool.and_eq_true _ _ ▸ hs).2⟩
    · cases h
  | _ => cases h

omit [Runtime] in
/-- The search visits what the start reaches. -/
theorem mem_bfsVisited {g : Graph} {start : String} (hs : g.hasNode start = true) (id : String) :
    id ∈ bfsVisited g start ↔ Search.Reach (linked g) start id := by
  have hclosed : ∀ a ∈ g.nodes.keys, ∀ b ∈ linked g a, b ∈ g.nodes.keys := fun a _ b hb =>
    mem_keys_iff_hasNode.mpr (hasNode_of_linked hb)
  refine Search.mem_collect hclosed (mem_keys_iff_hasNode.mpr hs) ?_ id
  simp [Search.cost]

omit [Runtime] in
theorem mem_namedTargets_node {g : Graph} {n : Node} {name t : String} (hn : g.node? n.id = some n)
    (hname : name ∈ retryTargetNames) (ht : namedTarget g (n.attr name) = some t) :
    t ∈ namedTargets g := by
  have hvalue : n ∈ g.nodes.values :=
    List.mem_map.mpr ⟨(n.id, n), (Dict.get?_eq_some_iff _).mp hn, rfl⟩
  refine List.mem_append_left _ (List.mem_filterMap.mpr ⟨n.attr name, ?_, ht⟩)
  refine List.mem_flatMap.mpr ⟨n, hvalue, ?_⟩
  simp only [retryTargetNames, List.mem_cons, List.not_mem_nil, or_false] at hname
  rcases hname with rfl | rfl <;> simp

omit [Runtime] in
theorem mem_namedTargets_graph {g : Graph} {name t : String} (hname : name ∈ retryTargetNames)
    (ht : namedTarget g (g.attr name) = some t) : t ∈ namedTargets g := by
  refine List.mem_append_right _ (List.mem_filterMap.mpr ⟨g.attr name, ?_, ht⟩)
  simp only [retryTargetNames, List.mem_cons, List.not_mem_nil, or_false] at hname
  rcases hname with rfl | rfl <;> simp

theorem start_mem {g : Graph} {n : Node} (h : n ∈ g.startNodes) : g.hasNode n.id = true := by
  obtain ⟨p, hp, rfl⟩ := List.mem_map.mp (List.mem_of_mem_filter h)
  have hget : g.node? p.2.id = some p.2 :=
    (Dict.get?_eq_some_iff g.nodes).mpr ((g.keyed p hp).symm ▸ hp)
  rw [Graph.hasNode, hget]
  rfl

/-- The engine's start node is one of those the linter finds. -/
theorem mem_startNodes {g : Graph} {n : Node} (h : findStartNode g = .ok n) : n ∈ g.startNodes := by
  have hmem := mem_values_of_findStartNode h
  unfold findStartNode at h
  split at h
  · rename_i m hm
    obtain rfl : m = n := Except.ok.inj h
    simp only [Option.or_eq_some_iff] at hm
    refine List.mem_filter.mpr ⟨hmem, ?_⟩
    rcases hm with (hm | ⟨-, hm⟩) | ⟨-, hm⟩
    · simp [Node.isStartNode, List.find?_some hm]
    · simp [Node.isStartNode, List.find?_some hm]
    · simp [Node.isStartNode, List.find?_some hm]
  · cases h

theorem MayVisit.hasNode {g : Graph} {id : String} (h : MayVisit g id) : g.hasNode id = true := by
  cases h with
  | start h => exact start_mem (mem_startNodes h)
  | edge _ hb => exact hasNode_of_linked hb
  | nodeRetry _ _ _ ht => exact (namedTarget_eq_some ht).2
  | graphRetry _ _ ht => exact (namedTarget_eq_some ht).2
  | fanIn _ _ _ _ ht => exact ht

theorem MayVisit.started {g : Graph} {id : String} (h : MayVisit g id) :
    ∃ n, findStartNode g = .ok n := by
  induction h with
  | start h => exact ⟨_, h⟩
  | edge _ _ ih => exact ih
  | nodeRetry _ _ _ _ ih => exact ih
  | graphRetry _ _ _ ih => exact ih
  | fanIn _ _ _ _ _ ih => exact ih

theorem mem_unreachable {g : Graph} {id : String} :
    id ∈ unreachable g ↔ (∃ start rest, g.startNodes = start :: rest) ∧ g.hasNode id = true ∧
      ¬ Accounted g id := by
  unfold unreachable Accounted
  cases hs : g.startNodes with
  | nil => simp
  | cons start rest =>
    have hstart : g.hasNode start.id = true := start_mem (hs ▸ List.mem_cons_self)
    rw [(List.perm_insertionSort _ _).mem_iff, List.mem_filter, mem_keys_iff_hasNode]
    simp [mem_bfsVisited hstart]

/-- Under the condition a run comes to what is accounted for only. -/
theorem MayVisit.accounted {g : Graph} {id : String} (hg : JumpsAccounted g) (h : MayVisit g id) :
    Accounted g id := by
  induction h with
  | start h => exact hg.start _ h
  | @edge a b ha hb ih =>
    rcases ih with ⟨start, rest, hstart, hreach⟩ | hnamed
    · exact .inl ⟨start, rest, hstart, hreach.tail hb⟩
    · exact hg.onward a hnamed ha b hb
  | nodeRetry _ hn hname ht _ => exact .inr (mem_namedTargets_node hn hname ht)
  | graphRetry _ hname ht _ => exact .inr (mem_namedTargets_graph hname ht)
  | fanIn ha hn hr hf ht _ => exact hg.fanIn _ _ _ _ ha hn hr hf ht

/-- No reported node is one a run may come to exactly when the jumps are accounted for. -/
theorem unreachable_sound_iff (g : Graph) :
    (∀ id ∈ unreachable g, ¬ MayVisit g id) ↔ JumpsAccounted g := by
  constructor
  · intro hsound
    have hall : ∀ id, MayVisit g id → Accounted g id := by
      intro id hid
      obtain ⟨n, hn⟩ := hid.started
      by_contra hnot
      obtain ⟨start, rest, hs⟩ := List.exists_cons_of_ne_nil (List.ne_nil_of_mem (mem_startNodes hn))
      exact hsound id (mem_unreachable.mpr ⟨⟨start, rest, hs⟩, hid.hasNode, hnot⟩) hid
    exact ⟨fun n hn => hall _ (.start hn), fun t _ hvisit b hb => hall _ (.edge hvisit hb),
      fun n ord roots t ha hn hr hf ht => hall _ (.fanIn ha hn hr hf ht)⟩
  · intro hg id hid hvisit
    exact (mem_unreachable.mp hid).2.2 (hvisit.accounted hg)

end Graphs

/-! ## Runs -/

section Runs

variable [Runtime]

/-- A walk that has come to nodes a run may come to only. -/
structure Explored (g : Graph) (w : Walk) : Prop where
  coherent : Coherent g w
  current : MayVisit g w.currentNode.id
  completed : ∀ id ∈ w.engine.completedNodes, MayVisit g id

/-- The document of a snapshot of such a walk. -/
def ExploredDoc (g : Graph) (doc : Value) : Prop :=
  ∃ w node timestamp, Snapshot g w node ∧ MayVisit g node.id ∧
    (∀ id ∈ w.engine.completedNodes, MayVisit g id) ∧
    doc = saveCheckpoint (checkpointOf g w node.id timestamp)

omit [Runtime] in
theorem mem_linked {g : Graph} {nodeId : String} {e : Edge} {n : Node}
    (he : e ∈ g.outgoingEdges nodeId) (hn : g.node? e.toNode = some n) : n.id ∈ linked g nodeId := by
  rw [g.id_of_node? hn]
  refine List.mem_filter.mpr ⟨List.mem_map_of_mem he, ?_⟩
  rw [Graph.hasNode, hn]
  rfl

omit [Runtime] in
theorem namedTarget_of_nodeOfValue {g : Graph} {v : Value} {n : Node} (ht : v.truthy = true)
    (h : g.nodeOfValue? v = some n) : namedTarget g v = some n.id := by
  cases v with
  | str s =>
    have hn : g.node? s = some n := h
    have hne : (s != "") = true := ht
    rw [namedTarget, hne, Graph.hasNode, hn, g.id_of_node? hn]
    rfl
  | _ => cases h

/-- A jump after a failure is to a target the node names. -/
theorem MayVisit.failureTarget {g : Graph} {node n : Node} (h : MayVisit g node.id)
    (hn : g.node? node.id = some node) (ht : resolveFailureRetryTarget g node = some n) :
    MayVisit g n.id := by
  unfold resolveFailureRetryTarget at ht
  dsimp only at ht
  split at ht
  · rename_i htruthy
    have hnamed := namedTarget_of_nodeOfValue htruthy ht
    unfold Value.orElse at hnamed
    split_ifs at hnamed
    · exact .nodeRetry h hn (by decide) hnamed
    · exact .nodeRetry h hn (by decide) hnamed
  · cases ht

/-- A goal gate sends the run to a target that it or the graph names. -/
theorem MayVisit.gateTarget {g : Graph} {gate n : Node} (h : MayVisit g gate.id)
    (hg : g.node? gate.id = some gate) (htruthy : (gateRetryTarget g gate).truthy = true)
    (ht : g.nodeOfValue? (gateRetryTarget g gate) = some n) : MayVisit g n.id := by
  have hnamed := namedTarget_of_nodeOfValue htruthy ht
  unfold gateRetryTarget Value.orElse at hnamed
  split_ifs at hnamed
  · exact .nodeRetry h hg (by decide) hnamed
  · exact .nodeRetry h hg (by decide) hnamed
  · exact .graphRetry h (by decide) hnamed
  · exact .graphRetry h (by decide) hnamed

/-- A reason for leaving a node leads where a run may come. -/
theorem EdgeReason.mayVisit {g : Graph} {ord : SetOrder} {w : Walk} {r : IterEnd} {o : Outcome}
    {n : Node} (hw : Explored g w) (h : EdgeReason g ord w r o n) : MayVisit g n.id := by
  cases h with
  | selected he hn => exact .edge hw.current (mem_linked (selectEdge_mem he) hn)
  | unconditional _ he hn => exact .edge hw.current (mem_linked (bestUnconditional_mem he) hn)
  | fanIn hr hf hn =>
    exact .fanIn hw.current hw.coherent.current hr hf (by rw [Graph.hasNode, hn]; rfl)
  | retry _ hn => exact hw.current.failureTarget hw.coherent.current hn

/-- An iteration that does not leave a stray exit goes on where a run may come. -/
theorem IterCase.mayVisit {p : PipelineEngine} {tick : Tick} {w w' : Walk} {r : IterEnd} {m : Move}
    (h : IterCase p tick w r) (hw : Explored p.graph w)
    (hstray : guardLoop p tick w.counted = none → ¬ StrayExit p.graph w)
    (hn : r.next = .goto m w') : MayVisit p.graph w'.currentNode.id := by
  by_cases hx : w.currentNode.isExitNode = true
  · cases h with
    | guarded hg ho => cases hn
    | exit hg _ =>
      rcases leaveExit_cases hn hx with ⟨gateId, o, gate, hmem, hgate, htruthy, htarget⟩ | hst
      · have hkey : gateId ∈ w.engine.nodeOutcomes.keys :=
          List.mem_map.mpr ⟨(gateId, o), List.mem_of_mem_filter hmem, rfl⟩
        have hid : gate.id = gateId := p.graph.id_of_node? hgate
        have hvisit := hw.completed gateId ((hw.coherent.keys gateId).mp hkey)
        rw [← hid] at hvisit
        exact hvisit.gateTarget (node?_id hgate) htruthy htarget
      · exact absurd hst (hstray hg)
    | hop _ hno => exact absurd hx (by rw [hno]; decide)
    | skip _ hno => exact absurd hx (by rw [hno]; decide)
    | execute _ hno => exact absurd hx (by rw [hno]; decide)
    | abort _ hno => exact absurd hx (by rw [hno]; decide)
  · rcases h.justified hn with hj | hst
    · rw [Justified, if_neg hx] at hj
      obtain ⟨o, -, hreason⟩ := hj
      exact hreason.mayVisit hw
    · exact absurd hst.1 hx

/-- An iteration adds the current node to the completed ones, or forgets them. -/
theorem IterCase.completed {p : PipelineEngine} {tick : Tick} {w : Walk} {r : IterEnd}
    (h : IterCase p tick w r) :
    (∀ s, r.saved = some s → ∀ id ∈ s.walk.engine.completedNodes,
      id ∈ w.engine.completedNodes ∨ id = w.currentNode.id) ∧
    ∀ m w', r.next = .goto m w' → ∀ id ∈ w'.engine.completedNodes,
      id ∈ w.engine.completedNodes ∨ id = w.currentNode.id := by
  have hmoved : ∀ {w₁ w' : Walk} {m : Move}, Moved p.graph w₁ m w' →
      (∀ id ∈ w₁.engine.completedNodes, id ∈ w.engine.completedNodes ∨ id = w.currentNode.id) →
      ∀ id ∈ w'.engine.completedNodes, id ∈ w.engine.completedNodes ∨ id = w.currentNode.id := by
    intro w₁ w' m hm hall id hid
    rcases hm.records with ⟨hc, -, -⟩ | ⟨hc, -, -⟩
    · rw [hc] at hid
      exact hall id hid
    · rw [hc] at hid
      exact absurd hid List.not_mem_nil
  have hadded : ∀ id ∈ w.engine.completedNodes ++ [w.currentNode.id],
      id ∈ w.engine.completedNodes ∨ id = w.currentNode.id := by
    intro id hid
    simpa using hid
  cases h with
  | guarded hg ho => exact ⟨fun _ h => (nomatch h), fun _ _ h => (nomatch h)⟩
  | exit hg hx =>
    refine ⟨fun s hs id hid => ?_, fun m w' hn => hmoved (leaveExit_moved hn) fun id hid => .inl hid⟩
    cases hs
    exact .inl hid
  | hop hg hx ho =>
    exact ⟨fun _ h => (nomatch h), fun m w' hn => hmoved (route_moved hn) fun id hid => .inl hid⟩
  | skip hg hx ho hk =>
    refine ⟨fun s hs => ?_, fun m w' hn => hmoved (routeSkipped_moved hn) hadded⟩
    cases hs
    exact hadded
  | @execute context armed o hg hx ho hk hsw ha =>
    have hexec : ∀ id ∈ (w.executed p.graph context armed o).engine.completedNodes,
        id ∈ w.engine.completedNodes ∨ id = w.currentNode.id := by
      rw [(executed_records w p.graph context armed o).1]
      exact hadded
    refine ⟨fun s hs => ?_, fun m w' hn => hmoved (route_moved hn) hexec⟩
    cases hs
    exact hexec
  | abort hg hx ho hk hu hs => exact ⟨fun _ h => (nomatch h), fun _ _ h => (nomatch h)⟩

variable [JsonReader]

/-- An event that is no jump from a stray exit. -/
def NotStray (p : PipelineEngine) : Event → Prop
  | .iterated w tick => guardLoop p tick w.counted = none → ¬ StrayExit p.graph w
  | .resumed _ => True

theorem explored_guarded (p : PipelineEngine) :
    Recovery.Guarded (engineSystem p) (NotStray p) (Explored p.graph) (ExploredDoc p.graph) where
  fresh := by
    rintro w ⟨goal, c, h⟩
    obtain ⟨n, hn, rfl⟩ := start_ok h
    exact ⟨coherent_start h, .start hn, fun id hid => absurd hid List.not_mem_nil⟩
  next := by
    rintro w e d w' hw ⟨tick, rfl, hd, hs⟩ hgood
    obtain ⟨m, hm⟩ := Next.walk?_eq_some hs.symm
    have hcase := iterate_case p tick w
    refine ⟨(hcase.coherent hw.coherent).2 m w' hm, hcase.mayVisit hw hgood hm, fun id hid => ?_⟩
    rcases hcase.completed.2 m w' hm id hid with hold | rfl
    · exact hw.completed id hold
    · exact hw.current
  write := by
    rintro w e d s hw ⟨tick, rfl, hd, hs⟩ -
    obtain ⟨saved, hsaved, rfl⟩ := Option.map_eq_some_iff.mp hd.symm
    have hcase := iterate_case p tick w
    obtain ⟨hsnap, hcp⟩ := (hcase.coherent hw.coherent).1 saved hsaved
    refine ⟨saved.walk, w.currentNode, tick.timestamp, hsnap, hw.current, fun id hid => ?_,
      congrArg saveCheckpoint hcp⟩
    rcases hcase.completed.1 saved hsaved id hid with hold | rfl
    · exact hw.completed id hold
    · exact hw.current
  restart := by
    rintro d e w ⟨w₁, node, timestamp, hsnap, hnode, hcompleted, rfl⟩ hr -
    obtain ⟨-, r, rfl⟩ := resumes_of_snapshot hsnap hr
    exact ⟨hsnap.coherent_restored r, hnode, hcompleted⟩

/-- A run that leaves no stray exit, killed and resumed however often, comes only where it
may. -/
theorem Runs.mayVisit {p : PipelineEngine} {h : List Event} {docs : List Value} {w : Walk}
    (run : Runs p h docs (some w)) (hstray : ∀ e ∈ h, NotStray p e) :
    MayVisit p.graph w.currentNode.id :=
  (((explored_guarded p).run run hstray).2 w rfl).current

/-- The reported nodes are out of reach exactly when the jumps are accounted for; then no
run that leaves no stray exit comes to one. -/
theorem reachability_errors_iff (g : Graph) :
    ((∀ d ∈ checkReachability g, ¬ MayVisit g d.nodeId) ↔ JumpsAccounted g) ∧
      (JumpsAccounted g → ∀ p : PipelineEngine, p.graph = g → ∀ h docs w,
        Runs p h docs (some w) → (∀ e ∈ h, NotStray p e) →
        ∀ d ∈ checkReachability g, w.currentNode.id ≠ d.nodeId) := by
  have hreport : (∀ d ∈ checkReachability g, ¬ MayVisit g d.nodeId) ↔
      ∀ id ∈ unreachable g, ¬ MayVisit g id := by
    rw [checkReachability, List.forall_mem_map]
  refine ⟨hreport.trans (unreachable_sound_iff g), ?_⟩
  rintro hg p rfl h docs w hrun hstray d hd heq
  have hvisit := hrun.mayVisit hstray
  rw [heq] at hvisit
  exact hreport.mpr ((unreachable_sound_iff p.graph).mpr hg) d hd hvisit

end Runs

section Demo

open Py.Ascii

/-- A node that retries by way of a repair, which is followed by a report. -/
def repairGraph : Graph := Graph.ofNodes
  [{ id := "start", shape := "Mdiamond" }, { id := "work", retryTarget := .str "repair" },
    { id := "repair" }, { id := "report" }, { id := "done", shape := "Msquare" }]
  [{ fromNode := "start", toNode := "work" },
    { fromNode := "work", toNode := "done", condition := "outcome=success" },
    { fromNode := "repair", toNode := "report" }, { fromNode := "report", toNode := "done" }]

/-- What follows a retry target is reported, and a run may come to it. -/
theorem repair_reported : ¬ ∀ g : Graph, ∀ d ∈ checkReachability g, ¬ MayVisit g d.nodeId := by
  intro hall
  have hreported : (checkReachability repairGraph).map Diagnostic.nodeId = ["report"] := by
    decide +kernel
  obtain ⟨d, hd, hid⟩ := List.mem_map.mp (hreported ▸ List.mem_cons_self)
  obtain ⟨start, hstart, hsid⟩ : ∃ n, findStartNode repairGraph = .ok n ∧ n.id = "start" :=
    ⟨_, rfl, rfl⟩
  obtain ⟨work, hwork, htarget⟩ : ∃ n, repairGraph.node? "work" = some n ∧
      namedTarget repairGraph (n.attr "retry_target") = some "repair" := ⟨_, rfl, by decide +kernel⟩
  have hwid : work.id = "work" := repairGraph.id_of_node? hwork
  have hvisit : MayVisit repairGraph "work" := by
    have hfirst : MayVisit repairGraph "start" := hsid ▸ .start hstart
    exact .edge hfirst (by decide +kernel)
  have hrepair : MayVisit repairGraph "repair" :=
    .nodeRetry (n := work) (hwid ▸ hvisit) (hwid ▸ hwork) (by decide) htarget
  exact hall repairGraph d hd (hid ▸ .edge hrepair (by decide +kernel))

end Demo

end DotRunner
