import DotRunner.Lint.DeadEdges
import DotRunner.PathSearch
import Mathlib.Data.List.ProdSigma

/-!
# Failures routed to the exit

The rule that reports a failure that leaves through the success door: an edge on a failure
to an exit node, or to the beginning of a path of plain edges to one on which nothing gates
the flow again and some node is not marked to run on failures.
-/

namespace DotRunner

open Py

/-- An edge without a condition. -/
def Edge.plain (e : Edge) : Bool := stripText e.condition == ""

def isHumanGate (n : Node) : Bool := n.shape == "hexagon" || n.type == "wait.human"

/-- `_condition_matches_fail`, of an edge that has a condition. -/
def Edge.onFailure (e : Edge) : Bool := !e.plain && e.dead

variable [Runtime]

namespace Graph

/-- `_node_runs_on` -/
def nodeRunsOn (g : Graph) (id : String) : String :=
  match g.node? id with
  | none => "success"
  | some n =>
    let raw := n.attrD "runs_on" (.str "success")
    let val := if raw.truthy then stripLower raw.toStr else "success"
    if val = "always" ∨ val = "failure" then val else "success"

/-- Does the node say nothing of failures? -/
def unmarked (g : Graph) (id : String) : Bool := nodeRunsOn g id == "success"

omit [Runtime] in
/-- `_node_regates` -/
def nodeRegates (g : Graph) (id : String) : Bool :=
  (g.node? id).any isHumanGate ||
    ((g.outgoingEdges id).any (fun e => !e.plain) && !(g.outgoingEdges id).any Edge.plain)

def exitIds (g : Graph) : List String := g.exitNodes.map Node.id

/-- What the loop does with an edge out of a node, behind nodes of which one is unmarked. -/
def failureMove (g : Graph) (hasUnmarked : Bool) (e : Edge) : Option (PathSearch.Move (String × Bool) String) :=
  if !e.plain then none
  else if e.toNode ∈ exitIds g then if hasUnmarked then some (.out e.toNode) else none
  else if !g.hasNode e.toNode then none
  else some (.on (e.toNode, hasUnmarked || unmarked g e.toNode) e.toNode)

/-- The states are nodes, each with whether the path to it has an unmarked node. -/
def failureMoves (g : Graph) (s : String × Bool) : List (PathSearch.Move (String × Bool) String) :=
  if nodeRegates g s.1 then [] else (g.outgoingEdges s.1).filterMap (failureMove g s.2)

/-- `_unmarked_passthrough_path_to_exit` -/
def unmarkedPassthroughPathToExit (g : Graph) (startId : String) : Option (List String) :=
  if g.hasNode startId then
    let start := (startId, unmarked g startId)
    PathSearch.search (failureMoves g) (2 * g.nodes.keys.length) [(start, [startId])] [start]
  else none

omit [Runtime] in
def failureToExit (node : Node) (e : Edge) : Diagnostic where
  rule := "fail_routed_to_exit"
  severity := .warning
  message := "Node '" ++ node.id ++ "' routes a failure outcome directly into the terminal success " ++
    "node: edge to '" ++ e.toNode ++ "' with condition '" ++ stripText e.condition ++
    "'. The failure leaves through the pipeline's success door — no corrective loop, no retry, " ++
    "no distinct failure terminal."
  nodeId := node.id
  edge := some (e.fromNode, e.toNode)
  fix := "Route the failure to a corrective target instead (e.g. '" ++ node.id ++
    "' -> fix [condition=\"outcome=fail\"] with a back-edge to retry), or — if finishing after a " ++
    "handled failure is deliberate — route it through a recorder/cleanup node marked " ++
    "runs_on=\"always\" or runs_on=\"failure\" so the intent is declared. See " ++
    "DOT-AUTHORING-GUIDE.md (TOPO-006)."

omit [Runtime] in
def failureToPath (node : Node) (e : Edge) (path : List String) : Diagnostic where
  rule := "fail_routed_to_exit"
  severity := .warning
  message := "Node '" ++ node.id ++ "' routes a failure outcome into the terminal success node via " ++
    "an unmarked pass-through path: edge to '" ++ e.toNode ++ "' with condition '" ++
    stripText e.condition ++ "', then " ++ Text.join " -> " path ++ " — every hop is " ++
    "unconditional, no node re-gates the flow, and at least one intermediary lacks " ++
    "runs_on=\"always\"/\"failure\". A failed gate followed by one succeeding step exits the " ++
    "pipeline green (status success, exit code 0) — the silent-success exit incident class."
  nodeId := node.id
  edge := some (e.fromNode, e.toNode)
  fix := "Either route the failure to a corrective target with a back-edge to retry; make EVERY " ++
    "outgoing edge of an intermediary condition-bearing (remove or condition its plain escape) so " ++
    "the flow is re-gated — a node with any plain outgoing edge does not re-gate; or — if this " ++
    "handled-failure termination is deliberate — mark every intermediary on the path (" ++
    Text.join " -> " path ++ ") with runs_on=\"always\" or runs_on=\"failure\" (the engine's " ++
    "failure-routing opt-in) so the intent is declared. See DOT-AUTHORING-GUIDE.md (TOPO-006)."

/-- What the rule says of one edge. -/
def failureRoute (g : Graph) (node : Node) (e : Edge) : List Diagnostic :=
  if !e.onFailure then []
  else if e.toNode ∈ exitIds g then [failureToExit node e]
  else ((unmarkedPassthroughPathToExit g e.toNode).map (failureToPath node e)).toList

/-- `_check_fail_routed_to_exit`: without an exit node nothing leads to one. -/
def checkFailRoutedToExit (g : Graph) : List Diagnostic :=
  if (exitIds g).isEmpty then []
  else (g.nodes.values.filter fun n => !n.isExitNode).flatMap fun node =>
    (g.outgoingEdges node.id).flatMap (failureRoute g node)

/-! ## Silent paths -/

omit [Runtime] in
/-- A plain edge leads from one to the other. -/
def PlainHop (g : Graph) (a b : String) : Prop :=
  ∃ e ∈ g.outgoingEdges a, e.plain = true ∧ e.toNode = b

/-- Behind this node the flow goes on by itself: a node that is no exit and gates nothing. -/
structure PassesThrough (g : Graph) (id : String) : Prop where
  node : g.hasNode id = true
  inner : id ∉ exitIds g
  open_ : nodeRegates g id = false

/-- A way to an exit node over nodes that pass everything through, one of them unmarked. -/
structure SilentPath (g : Graph) (ids : List String) (exit : String) : Prop where
  hops : (ids ++ [exit]).IsChain (PlainHop g)
  ends : exit ∈ exitIds g
  through : ∀ id ∈ ids, PassesThrough g id
  unmarked : ∃ id ∈ ids, unmarked g id = true

theorem mem_failureMoves {g : Graph} {s : String × Bool} {move : PathSearch.Move (String × Bool) String} :
    move ∈ failureMoves g s ↔ nodeRegates g s.1 = false ∧
      ∃ b, PlainHop g s.1 b ∧
        ((b ∈ exitIds g ∧ s.2 = true ∧ move = .out b) ∨
          (b ∉ exitIds g ∧ g.hasNode b = true ∧ move = .on (b, s.2 || unmarked g b) b)) := by
  unfold failureMoves
  by_cases hgate : nodeRegates g s.1 = true
  · rw [if_pos hgate, hgate]
    simp
  · rw [if_neg hgate, List.mem_filterMap]
    rw [Bool.not_eq_true] at hgate
    constructor
    · rintro ⟨e, he, hmove⟩
      unfold failureMove at hmove
      by_cases hplain : e.plain = true
      · rw [if_neg (by rw [hplain]; decide)] at hmove
        refine ⟨hgate, e.toNode, ⟨e, he, hplain, rfl⟩, ?_⟩
        split at hmove
        · rename_i hexit
          split at hmove
          · rename_i hflag
            exact .inl ⟨hexit, hflag, (Option.some.inj hmove).symm⟩
          · cases hmove
        · rename_i hexit
          split at hmove
          · cases hmove
          · rename_i hnode
            exact .inr ⟨hexit, by simpa using hnode, (Option.some.inj hmove).symm⟩
      · rw [if_pos (by simpa using hplain)] at hmove
        cases hmove
    · rintro ⟨-, b, ⟨e, he, hplain, rfl⟩, hmove⟩
      refine ⟨e, he, ?_⟩
      unfold failureMove
      rw [if_neg (by rw [hplain]; decide)]
      rcases hmove with ⟨hexit, hflag, rfl⟩ | ⟨hexit, hnode, rfl⟩
      · rw [if_pos hexit, if_pos hflag]
      · rw [if_neg hexit, if_neg (by rw [hnode]; decide)]

theorem silent_of_leads {g : Graph} {s : String × Bool} {rest : List String}
    (h : PathSearch.Leads (failureMoves g) s rest) (hnode : g.hasNode s.1 = true)
    (hinner : s.1 ∉ exitIds g) : ∃ ids exit, rest = ids ++ [exit] ∧
      (s.1 :: ids ++ [exit]).IsChain (PlainHop g) ∧ exit ∈ exitIds g ∧
      (∀ id ∈ s.1 :: ids, PassesThrough g id) ∧ (s.2 = true ∨ ∃ id ∈ ids, unmarked g id = true) := by
  induction h with
  | @out s label hout =>
    obtain ⟨hgate, b, hhop, ⟨hexit, hflag, hmove⟩ | ⟨-, -, hmove⟩⟩ := mem_failureMoves.mp hout
    · obtain rfl : label = b := by injection hmove
      refine ⟨[], label, rfl, .cons_cons hhop (.singleton _), hexit, fun id hid => ?_, .inl hflag⟩
      rw [List.mem_singleton.mp hid]
      exact ⟨hnode, hinner, hgate⟩
    · cases hmove
  | @on s s' label path hon _ ih =>
    obtain ⟨hgate, b, hhop, ⟨-, -, hmove⟩ | ⟨hinner', hnode', hmove⟩⟩ := mem_failureMoves.mp hon
    · cases hmove
    · injection hmove with hstate hlabel
      subst hstate hlabel
      obtain ⟨ids, exit, rfl, hchain, hexit, hthrough, hmarked⟩ := ih hnode' hinner'
      refine ⟨label :: ids, exit, rfl, .cons_cons hhop hchain, hexit, fun id hid => ?_, ?_⟩
      · rcases List.mem_cons.mp hid with rfl | hid
        · exact ⟨hnode, hinner, hgate⟩
        · exact hthrough id hid
      · rcases hmarked with hflag | ⟨id, hid, hunmarked⟩
        · rcases Bool.or_eq_true_iff.mp hflag with hflag | hlabel
          · exact .inl hflag
          · exact .inr ⟨label, List.mem_cons_self, hlabel⟩
        · exact .inr ⟨id, List.mem_cons_of_mem _ hid, hunmarked⟩

theorem leads_of_silent {g : Graph} {id exit : String} {ids : List String} {flag : Bool}
    (hchain : (id :: ids ++ [exit]).IsChain (PlainHop g)) (hexit : exit ∈ exitIds g)
    (hthrough : ∀ i ∈ id :: ids, PassesThrough g i)
    (hmarked : flag = true ∨ ∃ i ∈ ids, unmarked g i = true) :
    PathSearch.Leads (failureMoves g) (id, flag) (ids ++ [exit]) := by
  have hgate := (hthrough id List.mem_cons_self).open_
  induction ids generalizing id flag with
  | nil =>
    have hflag : flag = true := by
      rcases hmarked with hflag | ⟨i, hi, -⟩
      · exact hflag
      · cases hi
    obtain ⟨hhop, -⟩ := List.isChain_cons_cons.mp hchain
    exact .out (mem_failureMoves.mpr ⟨hgate, exit, hhop, .inl ⟨hexit, hflag, rfl⟩⟩)
  | cons b ids ih =>
    obtain ⟨hhop, hlater⟩ := List.isChain_cons_cons.mp hchain
    have hb := hthrough b (List.mem_cons_of_mem _ List.mem_cons_self)
    refine .on (mem_failureMoves.mpr ⟨hgate, b, hhop, .inr ⟨hb.inner, hb.node, rfl⟩⟩)
      (ih hlater (fun i hi => hthrough i (List.mem_cons_of_mem _ hi)) ?_ hb.open_)
    rcases hmarked with hflag | ⟨i, hi, hunmarked⟩
    · exact .inl (by rw [hflag, Bool.true_or])
    · rcases List.mem_cons.mp hi with rfl | hi
      · exact .inl (by rw [hunmarked, Bool.or_true])
      · exact .inr ⟨i, hi, hunmarked⟩

/-- The path that is found is silent. -/
theorem passthroughPath_sound {g : Graph} {startId : String} {path : List String}
    (hinner : startId ∉ exitIds g) (h : unmarkedPassthroughPathToExit g startId = some path) :
    ∃ ids exit, path = startId :: ids ++ [exit] ∧ SilentPath g (startId :: ids) exit := by
  unfold unmarkedPassthroughPathToExit at h
  split at h
  · rename_i hnode
    obtain ⟨entry, hentry, rest, hleads, rfl⟩ := PathSearch.search_sound h
    obtain rfl := List.mem_singleton.mp hentry
    obtain ⟨ids, exit, rfl, hchain, hexit, hthrough, hmarked⟩ := silent_of_leads hleads hnode hinner
    refine ⟨ids, exit, rfl, hchain, hexit, hthrough, ?_⟩
    rcases hmarked with hstart | ⟨id, hid, hunmarked⟩
    · exact ⟨startId, List.mem_cons_self, hstart⟩
    · exact ⟨id, List.mem_cons_of_mem _ hid, hunmarked⟩
  · cases h

/-- Where there is a silent path, one is found. -/
theorem passthroughPath_complete {g : Graph} {startId exit : String} {ids : List String}
    (h : SilentPath g (startId :: ids) exit) :
    (unmarkedPassthroughPathToExit g startId).isSome = true := by
  have hnode := (h.through startId List.mem_cons_self).node
  have hmarked : unmarked g startId = true ∨ ∃ i ∈ ids, unmarked g i = true := by
    obtain ⟨id, hid, hunmarked⟩ := h.unmarked
    rcases List.mem_cons.mp hid with rfl | hid
    · exact .inl hunmarked
    · exact .inr ⟨id, hid, hunmarked⟩
  have hkeys : ∀ {id}, g.hasNode id = true → ∀ flag, (id, flag) ∈ g.nodes.keys ×ˢ [false, true] :=
    fun hid flag => List.mem_product.mpr ⟨mem_keys_iff_hasNode.mpr hid, by cases flag <;> decide⟩
  unfold unmarkedPassthroughPathToExit
  rw [if_pos hnode]
  refine (PathSearch.search_isSome (fun s hs s' label hon => ?_) (hkeys hnode _) ?_ _).mpr
    ⟨ids ++ [exit], leads_of_silent h.hops h.ends h.through hmarked⟩
  · obtain ⟨-, b, -, ⟨-, -, hmove⟩ | ⟨-, hb, hmove⟩⟩ := mem_failureMoves.mp hon
    · cases hmove
    · injection hmove with hstate
      subst hstate
      exact hkeys hb _
  · rw [List.length_product]
    simp only [List.length_cons, List.length_nil]
    omega

/-! ## The rule -/

/-- What the rule is to report: of an edge on a failure, that it leads to an exit node, or
that a silent path begins where it leads. -/
inductive FailureLeaves (g : Graph) (node : Node) (e : Edge) : Diagnostic → Prop
  | toExit (h : e.toNode ∈ exitIds g) : FailureLeaves g node e (failureToExit node e)
  | silently {ids : List String} {exit : String} (hinner : e.toNode ∉ exitIds g)
    (h : SilentPath g (e.toNode :: ids) exit) :
    FailureLeaves g node e (failureToPath node e (e.toNode :: ids ++ [exit]))

structure FailureRoutesExact (g : Graph) : Prop where
  sound : ∀ d ∈ checkFailRoutedToExit g, ∃ node ∈ g.nodes.values, node.isExitNode = false ∧
    ∃ e ∈ g.outgoingEdges node.id, e.onFailure = true ∧ FailureLeaves g node e d
  complete : ∀ node ∈ g.nodes.values, node.isExitNode = false → ∀ e ∈ g.outgoingEdges node.id,
    e.onFailure = true → (∃ d, FailureLeaves g node e d) →
      ∃ d ∈ checkFailRoutedToExit g, FailureLeaves g node e d

theorem mem_failureRoute {g : Graph} {node : Node} {e : Edge} {d : Diagnostic}
    (h : d ∈ failureRoute g node e) : e.onFailure = true ∧ FailureLeaves g node e d := by
  unfold failureRoute at h
  split at h
  · cases h
  · rename_i hfailure
    refine ⟨by simpa using hfailure, ?_⟩
    split at h
    · rename_i hexit
      rw [List.mem_singleton.mp h]
      exact .toExit hexit
    · rename_i hinner
      obtain ⟨path, hpath, rfl⟩ := Option.map_eq_some_iff.mp (Option.mem_toList.mp h)
      obtain ⟨ids, exit, rfl, hsilent⟩ := passthroughPath_sound hinner hpath
      exact .silently hinner hsilent

theorem failureRoute_of_leaves {g : Graph} {node : Node} {e : Edge} {d : Diagnostic}
    (hfailure : e.onFailure = true) (h : FailureLeaves g node e d) : failureRoute g node e ≠ [] := by
  unfold failureRoute
  rw [if_neg (by rw [hfailure]; decide)]
  cases h with
  | toExit hexit =>
    rw [if_pos hexit]
    exact List.cons_ne_nil _ _
  | silently hinner hsilent =>
    rw [if_neg hinner]
    obtain ⟨path, hpath⟩ := Option.isSome_iff_exists.mp (passthroughPath_complete hsilent)
    rw [hpath]
    exact List.cons_ne_nil _ _

/-- The rule reports an edge on a failure exactly where the failure leaves unnoticed. -/
theorem failRoutedToExit_exact (g : Graph) : FailureRoutesExact g := by
  have hexits : ∀ {node e d}, FailureLeaves g node e d → (exitIds g).isEmpty = false := by
    intro node e d h
    have hmem : ∃ id, id ∈ exitIds g := by
      cases h with
      | toExit hexit => exact ⟨_, hexit⟩
      | silently _ hsilent => exact ⟨_, hsilent.ends⟩
    obtain ⟨id, hid⟩ := hmem
    rw [List.isEmpty_eq_false_iff]
    exact List.ne_nil_of_mem hid
  constructor
  case sound =>
    intro d hd
    unfold checkFailRoutedToExit at hd
    split at hd
    · cases hd
    · obtain ⟨node, hnode, hd⟩ := List.mem_flatMap.mp hd
      obtain ⟨e, he, hd⟩ := List.mem_flatMap.mp hd
      obtain ⟨hvalue, hexit⟩ := List.mem_filter.mp hnode
      obtain ⟨hfailure, hleaves⟩ := mem_failureRoute hd
      exact ⟨node, hvalue, by simpa using hexit, e, he, hfailure, hleaves⟩
  case complete =>
    rintro node hnode hexit e he hfailure ⟨d, hleaves⟩
    obtain ⟨d', hd'⟩ := List.exists_mem_of_ne_nil _ (failureRoute_of_leaves hfailure hleaves)
    refine ⟨d', ?_, (mem_failureRoute hd').2⟩
    unfold checkFailRoutedToExit
    rw [hexits hleaves, if_neg Bool.false_ne_true]
    exact List.mem_flatMap.mpr ⟨node, List.mem_filter.mpr ⟨hnode, by rw [hexit]; rfl⟩,
      List.mem_flatMap.mpr ⟨e, he, hd'⟩⟩

end Graph

end DotRunner
