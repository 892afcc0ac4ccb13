import DotRunner.Engine.Run

/-!
# What an iteration can do

The cases of one iteration and of one move, stated once; every invariant of the
walk is proved from these.
-/

namespace DotRunner

open Py

variable [Runtime]

/-! ## Moves -/

/-- The moves of a walk and what each of them changes. -/
inductive Moved (g : Graph) (w : Walk) : Move → Walk → Prop
  | edge {e : Edge} {n : Node} (hn : g.node? e.toNode = some n) (hr : e.restarts = false) :
      Moved g w (.edge e) { w with currentNode := n }
  | restart {e : Edge} {n : Node} (hn : g.node? e.toNode = some n) (hr : e.restarts = true) :
      Moved g w (.edge e) { w.restartLoop with currentNode := n }
  | fanIn {n : Node} (hn : g.node? n.id = some n) : Moved g w (.fanIn n) { w with currentNode := n }
  | failureRetry {n : Node} (hn : g.node? n.id = some n)
      (hb : w.failureRoutingRetries < maxGoalGateRetries) :
      Moved g w (.failureRetry n)
        { w with
          engine := w.engine.clearRun
          currentNode := n
          failureRoutingRetries := w.failureRoutingRetries + 1 }
  | skipEdge {e : Edge} {n : Node} (hn : g.node? e.toNode = some n) :
      Moved g w (.skipEdge e) { w with currentNode := n }
  | skipRetry {n : Node} (hn : g.node? n.id = some n)
      (hb : w.failureRoutingRetries < maxGoalGateRetries) :
      Moved g w (.skipRetry n)
        { w with
          currentNode := n
          failureRoutingRetries := w.failureRoutingRetries + 1 }
  | gateRetry {n : Node} (hn : g.node? n.id = some n)
      (hb : w.goalGateRetries < maxGoalGateRetries) :
      Moved g w (.gateRetry n)
        { w with
          engine := w.engine.clearRun
          currentNode := n
          goalGateRetries := w.goalGateRetries + 1 }

omit [Runtime] in
theorem node?_id {g : Graph} {id : String} {n : Node} (h : g.node? id = some n) :
    g.node? n.id = some n := by
  rw [g.id_of_node? h]
  exact h

omit [Runtime] in
theorem node?_of_nodeOfValue? {g : Graph} {v : Value} {n : Node} (h : g.nodeOfValue? v = some n) :
    g.node? n.id = some n := by
  cases v with
  | str s => exact node?_id h
  | _ => cases h

omit [Runtime] in
theorem node?_of_resolveFailureRetryTarget {g : Graph} {node n : Node}
    (h : resolveFailureRetryTarget g node = some n) : g.node? n.id = some n := by
  unfold resolveFailureRetryTarget at h
  dsimp only at h
  split at h
  · exact node?_of_nodeOfValue? h
  · cases h

omit [Runtime] in
theorem jump_goto {w w' : Walk} {g : Graph} {nodeId : String} {m m' : Move}
    (h : w.jump g nodeId m = .goto m' w') :
    ∃ n, g.node? nodeId = some n ∧ m' = m ∧ w' = { w with currentNode := n } := by
  unfold Walk.jump at h
  split at h
  · rename_i n hn
    cases h
    exact ⟨n, hn, rfl, rfl⟩
  · cases h

theorem follow_moved {w w' : Walk} {g : Graph} {e : Edge} {m : Move}
    (h : w.follow g e = .goto m w') : m = .edge e ∧ Moved g w m w' := by
  unfold Walk.follow at h
  by_cases hr : e.restarts = true
  · rw [if_pos hr] at h
    obtain ⟨n, hn, rfl, rfl⟩ := jump_goto h
    exact ⟨rfl, .restart hn hr⟩
  · rw [if_neg hr] at h
    obtain ⟨n, hn, rfl, rfl⟩ := jump_goto h
    exact ⟨rfl, .edge hn (by simpa using hr)⟩

theorem failureRoute_moved {w w' : Walk} {g : Graph} {o : Outcome} {m : Move}
    (h : w.failureRoute g o = .goto m w') :
    ∃ n, resolveFailureRetryTarget g w.currentNode = some n ∧ m = .failureRetry n ∧
      Moved g w m w' := by
  unfold Walk.failureRoute at h
  dsimp only at h
  split at h
  · rename_i n hn
    split at h
    · rename_i hb
      cases h
      exact ⟨n, hn, rfl, .failureRetry (node?_of_resolveFailureRetryTarget hn) hb⟩
    · cases h
  · cases h

theorem selectAndGo_moved {w w' : Walk} {g : Graph} {o : Outcome} {m : Move}
    (h : w.selectAndGo g o = .goto m w') : Moved g w m w' := by
  unfold Walk.selectAndGo at h
  split at h
  · exact (follow_moved h).2
  · obtain ⟨n, -, -, hm⟩ := failureRoute_moved h
    exact hm

theorem route_moved {w w' : Walk} {g : Graph} {ord : SetOrder} {o : Outcome} {m : Move}
    (h : w.route g ord o = .goto m w') : Moved g w m w' := by
  unfold Walk.route at h
  split at h
  · split at h
    · cases h
    · split at h
      · rename_i n hn
        obtain ⟨n', hn', rfl, rfl⟩ := jump_goto h
        have hsame : n' = n := Option.some.inj (hn'.symm.trans hn)
        subst hsame
        exact .fanIn (node?_id hn)
      · cases h
  · exact selectAndGo_moved h

theorem routeSkipped_moved {w w' : Walk} {g : Graph} {o : Outcome} {m : Move}
    (h : w.routeSkipped g o = .goto m w') : Moved g w m w' := by
  unfold Walk.routeSkipped at h
  dsimp only at h
  split at h
  · obtain ⟨n, hn, rfl, rfl⟩ := jump_goto h
    exact .skipEdge hn
  · split at h
    · rename_i n hn
      split at h
      · rename_i hb
        cases h
        exact .skipRetry (node?_of_resolveFailureRetryTarget hn) hb
      · cases h
    · cases h

theorem leaveExit_moved {w w' : Walk} {g : Graph} {m : Move}
    (h : w.leaveExit g = .goto m w') : Moved g w m w' := by
  unfold Walk.leaveExit at h
  dsimp only at h
  split at h
  · rename_i hcond
    split at h
    · cases h
    · split at h
      · rename_i target htarget
        cases h
        obtain ⟨id, -, hid⟩ := Option.bind_eq_some_iff.mp htarget
        exact .gateRetry (node?_id hid) hcond.2
      · cases h
  · cases h

/-! ## Ends -/

/-- Halts that end a run without success. -/
def Halt.Unsuccessful : Halt → Prop
  | .returned o => o.status = .fail
  | .raised _ => True

omit [Runtime] in
theorem jump_halt {w : Walk} {g : Graph} {nodeId : String} {m : Move} {h : Halt} {s : EngineState}
    (hj : w.jump g nodeId m = .halt h s) : s = w.engine ∧ h.Unsuccessful := by
  unfold Walk.jump at hj
  split at hj
  · cases hj
  · cases hj
    exact ⟨rfl, trivial⟩

theorem failureRoute_halt {w : Walk} {g : Graph} {o : Outcome} {h : Halt} {s : EngineState}
    (hf : w.failureRoute g o = .halt h s) : s = w.engine ∧ h.Unsuccessful := by
  unfold Walk.failureRoute at hf
  dsimp only at hf
  split at hf
  · split at hf
    · cases hf
    · cases hf
      exact ⟨rfl, rfl⟩
  · cases hf
    exact ⟨rfl, rfl⟩

/-- A run that ends while routing fails; a `loop_restart` edge to nowhere has
reset it first. -/
theorem route_halt {w : Walk} {g : Graph} {ord : SetOrder} {o : Outcome} {h : Halt}
    {s : EngineState} (hr : w.route g ord o = .halt h s) :
    (s = w.engine ∨ s = w.restartLoop.engine) ∧ h.Unsuccessful := by
  unfold Walk.route at hr
  split at hr
  · split at hr
    · cases hr
      exact ⟨.inl rfl, rfl⟩
    · split at hr
      · exact ⟨.inl (jump_halt hr).1, (jump_halt hr).2⟩
      · cases hr
        exact ⟨.inl rfl, trivial⟩
  · unfold Walk.selectAndGo at hr
    split at hr
    · rename_i e _
      unfold Walk.follow at hr
      by_cases he : e.restarts = true
      · rw [if_pos he] at hr
        exact ⟨.inr (jump_halt hr).1, (jump_halt hr).2⟩
      · rw [if_neg he] at hr
        exact ⟨.inl (jump_halt hr).1, (jump_halt hr).2⟩
    · exact ⟨.inl (failureRoute_halt hr).1, (failureRoute_halt hr).2⟩

theorem routeSkipped_halt {w : Walk} {g : Graph} {o : Outcome} {h : Halt} {s : EngineState}
    (hr : w.routeSkipped g o = .halt h s) : s = w.engine ∧ h.Unsuccessful := by
  unfold Walk.routeSkipped at hr
  dsimp only at hr
  split at hr
  · exact jump_halt hr
  · split at hr
    · split at hr
      · cases hr
      · cases hr
        exact ⟨rfl, rfl⟩
    · cases hr
      exact ⟨rfl, rfl⟩

/-- An exit ends the run with what the goal gates say. -/
theorem leaveExit_halt {w : Walk} {g : Graph} {h : Halt} {s : EngineState}
    (hr : w.leaveExit g = .halt h s) : h = .returned (checkGoalGates g w.engine) ∧ s = w.engine := by
  unfold Walk.leaveExit at hr
  dsimp only at hr
  split at hr
  · split at hr
    · cases hr
      exact ⟨rfl, rfl⟩
    · split at hr
      · cases hr
      · cases hr
        exact ⟨rfl, rfl⟩
  · cases hr
    exact ⟨rfl, rfl⟩

/-! ## What a move changes -/

/-- A walk always moves to a node of the graph. -/
theorem Moved.node? {g : Graph} {w w' : Walk} {m : Move} (h : Moved g w m w') :
    g.node? w'.currentNode.id = some w'.currentNode := by
  cases h with
  | edge hn hr => exact node?_id hn
  | restart hn hr => exact node?_id hn
  | fanIn hn => exact hn
  | failureRetry hn hb => exact hn
  | skipEdge hn => exact node?_id hn
  | skipRetry hn hb => exact hn
  | gateRetry hn hb => exact hn

theorem Moved.steps {g : Graph} {w w' : Walk} {m : Move} (h : Moved g w m w') :
    w'.steps = w.steps := by
  cases h <;> rfl

theorem Moved.resumeOutcome {g : Graph} {w w' : Walk} {m : Move} (h : Moved g w m w') :
    w'.resumeOutcome = w.resumeOutcome := by
  cases h <;> rfl

theorem Moved.counts {g : Graph} {w w' : Walk} {m : Move} (h : Moved g w m w') :
    w'.engine.nodeExecutionCounts = w.engine.nodeExecutionCounts := by
  cases h <;> rfl

/-- A move keeps the records of the run or resets all of them. -/
theorem Moved.records {g : Graph} {w w' : Walk} {m : Move} (h : Moved g w m w') :
    (w'.engine.completedNodes = w.engine.completedNodes ∧
      w'.engine.nodeOutcomes = w.engine.nodeOutcomes ∧
      w'.engine.failedOutputs = w.engine.failedOutputs) ∨
    (w'.engine.completedNodes = [] ∧ w'.engine.nodeOutcomes = Dict.empty ∧
      w'.engine.failedOutputs = Dict.empty) := by
  cases h with
  | edge hn hr => exact .inl ⟨rfl, rfl, rfl⟩
  | restart hn hr => exact .inr ⟨rfl, rfl, rfl⟩
  | fanIn hn => exact .inl ⟨rfl, rfl, rfl⟩
  | failureRetry hn hb => exact .inr ⟨rfl, rfl, rfl⟩
  | skipEdge hn => exact .inl ⟨rfl, rfl, rfl⟩
  | skipRetry hn hb => exact .inl ⟨rfl, rfl, rfl⟩
  | gateRetry hn hb => exact .inr ⟨rfl, rfl, rfl⟩

/-! ## Iterations -/

/-- The walk an iteration works on: its step is counted before anything else. -/
def Walk.counted (w : Walk) : Walk := { w with steps := w.steps + 1 }

/-- The engine while a node executes: the visit counted, the context and the
fidelity arm in the hands of the handler. -/
def executing (w : Walk) (context : PipelineContext) (armed : Bool) : EngineState :=
  { countExecution w.currentNode w.engine with context := context, resumeFidelityArmed := armed }

/-- The walk a checkpoint is taken of after the current node was executed. -/
def Walk.executed (w : Walk) (g : Graph) (context : PipelineContext) (armed : Bool)
    (o : Outcome) : Walk :=
  { w.counted with engine := completeNode g (executing w context armed) w.currentNode o }

/-- The walk a checkpoint is taken of after the current node was skipped. -/
def Walk.skipped (w : Walk) (g : Graph) (o : Outcome) : Walk :=
  { w.counted with
    engine := (w.engine.recordCompletion w.currentNode.id o).markFailed g w.currentNode.id }

/-- What a run that a node execution ends leaves of the records: all of them, the
faulting node's failure without its completion, or a completion whose status
file could not be written. -/
inductive Aborted (w : Walk) : Halt → EngineState → Prop
  | kept {h : Halt} {s : EngineState} (hc : s.completedNodes = w.engine.completedNodes)
      (ho : s.nodeOutcomes = w.engine.nodeOutcomes) : Aborted w h s
  | childDot {text : String} {s : EngineState} (hc : s.completedNodes = w.engine.completedNodes)
      (ho : s.nodeOutcomes = w.engine.nodeOutcomes.set w.currentNode.id (childDotOutcome text)) :
      Aborted w (.returned (childDotOutcome text)) s
  | unwritable {h : Halt} {s : EngineState} {o : Outcome}
      (hc : s.completedNodes = w.engine.completedNodes ++ [w.currentNode.id])
      (ho : s.nodeOutcomes = w.engine.nodeOutcomes.set w.currentNode.id o) : Aborted w h s

/-- The cases of an iteration. -/
inductive IterCase (p : PipelineEngine) (tick : Tick) (w : Walk) : IterEnd → Prop
  /-- a guard ends the run -/
  | guarded {o : Outcome} (hg : guardLoop p tick w.counted = some o) (ho : o.status = .fail) :
      IterCase p tick w ⟨none, none, .halt (.returned o) w.engine⟩
  | exit (hg : guardLoop p tick w.counted = none) (hx : w.currentNode.isExitNode = true) :
      IterCase p tick w ⟨none,
        some ⟨w.counted, checkpointOf p.graph w.counted w.currentNode.id tick.timestamp⟩,
        (w.counted.withCheckpoint (checkpointOf p.graph w.counted w.currentNode.id
          tick.timestamp)).leaveExit p.graph⟩
  /-- the hop a resume begins with -/
  | hop {o : Outcome} (hg : guardLoop p tick w.counted = none)
      (hx : w.currentNode.isExitNode = false) (ho : w.resumeOutcome = some o) :
      IterCase p tick w ⟨none, none,
        { w.counted with resumeOutcome := none }.route p.graph tick.ord o⟩
  | skip {keys : List String} (hg : guardLoop p tick w.counted = none)
      (hx : w.currentNode.isExitNode = false) (ho : w.resumeOutcome = none)
      (hk : checkNodeSkip tick.ord w.currentNode w.engine.failedOutputs = some keys) :
      IterCase p tick w ⟨some ⟨w.currentNode.id, skipOutcome w.currentNode keys, some keys⟩,
        some ⟨w.skipped p.graph (skipOutcome w.currentNode keys),
          checkpointOf p.graph (w.skipped p.graph (skipOutcome w.currentNode keys))
            w.currentNode.id tick.timestamp⟩,
        ((w.skipped p.graph (skipOutcome w.currentNode keys)).withCheckpoint
          (checkpointOf p.graph (w.skipped p.graph (skipOutcome w.currentNode keys))
            w.currentNode.id tick.timestamp)).routeSkipped p.graph
          (skipOutcome w.currentNode keys)⟩
  | execute {context : PipelineContext} {armed : Bool} {o : Outcome}
      (hg : guardLoop p tick w.counted = none)
      (hx : w.currentNode.isExitNode = false) (ho : w.resumeOutcome = none)
      (hk : checkNodeSkip tick.ord w.currentNode w.engine.failedOutputs = none)
      (hw : o.statusWritable = true) (ha : o.CountsAttempts) :
      IterCase p tick w ⟨some ⟨w.currentNode.id, o, none⟩,
        some ⟨w.executed p.graph context armed o,
          checkpointOf p.graph (w.executed p.graph context armed o) w.currentNode.id
            tick.timestamp⟩,
        ((w.executed p.graph context armed o).withCheckpoint
          (checkpointOf p.graph (w.executed p.graph context armed o) w.currentNode.id
            tick.timestamp)).route p.graph tick.ord o⟩
  /-- an execution the run does not survive -/
  | abort {h : Halt} {s : EngineState} (hg : guardLoop p tick w.counted = none)
      (hx : w.currentNode.isExitNode = false) (ho : w.resumeOutcome = none)
      (hk : checkNodeSkip tick.ord w.currentNode w.engine.failedOutputs = none)
      (hu : h.Unsuccessful) (hs : Aborted w h s) : IterCase p tick w ⟨none, none, .halt h s⟩

omit [Runtime] in
theorem guardLoop_fail {p : PipelineEngine} {tick : Tick} {w : Walk} {o : Outcome}
    (h : guardLoop p tick w = some o) : o.status = .fail := by
  unfold guardLoop at h
  split at h
  · cases h
    rfl
  · split at h
    · cases h
      rfl
    · split at h
      · cases h
        rfl
      · cases h

omit [Runtime] in
/-- Past its head an iteration has room for one more step. -/
theorem steps_le_of_guardLoop {p : PipelineEngine} {tick : Tick} {w : Walk}
    (h : guardLoop p tick w = none) : w.steps ≤ maxSteps p.graph := by
  unfold guardLoop at h
  split at h
  · cases h
  · rename_i hle
    omega

omit [Runtime] in
theorem degrade_eq (g : Graph) (w : Walk) : ∃ context armed,
    applyResumeFidelityDegrade g w.currentNode (countExecution w.currentNode w.engine) =
      executing w context armed := by
  unfold applyResumeFidelityDegrade
  split
  · split
    · exact ⟨_, false, rfl⟩
    · exact ⟨w.engine.context, false, rfl⟩
  · exact ⟨w.engine.context, w.engine.resumeFidelityArmed, rfl⟩

omit [Runtime] in
theorem countsAttempts_of_none {o : Outcome} (h : o.attemptCount = none) : o.CountsAttempts := by
  intro n hn
  rw [h] at hn
  cases hn

theorem countsAttempts_autoStatus {node : Node} {o : Outcome} (h : o.CountsAttempts) :
    (autoStatus node o).CountsAttempts := by
  unfold autoStatus
  split
  · exact h
  · exact h

variable [JsonReader]

/-- An outcome a node execution ends with counts its attempts from one, or was
made outside the ladder and counts none. -/
theorem awaitNode_countsAttempts {p : PipelineEngine} {node : Node} {policy : RetryPolicy}
    {timeout : Option PyFloat} {run : NodeRun} {context : PipelineContext} {o : Outcome}
    (hpos : 1 ≤ policy.maxAttempts)
    (h : (awaitNode p node policy timeout run context).1 = .outcome o) : o.CountsAttempts := by
  have hladder : ∀ r : LadderEnd, r.nodeEnd = .outcome o → r = .outcome o := by
    intro r hr
    cases r <;> cases hr
    rfl
  have hfinished : ∀ hr : ((executeWithRetry (m := Id) run.perform node context p.logsRoot policy
      run.ladderWall run.disk).result).nodeEnd = .outcome o, o.CountsAttempts := fun hr =>
    runAttempts_countsAttempts hpos policy.maxAttempts 1 none context run.disk (Nat.le_refl 1)
      (hladder _ hr)
  unfold awaitNode awaitNodeIn at h
  dsimp only at h
  split at h
  · split at h
    · exact hfinished h
    · cases h
    · cases h
      exact countsAttempts_of_none rfl
  · exact hfinished h

omit [JsonReader] in
theorem one_le_maxAttempts {node : Node} {g : Graph} {policy : RetryPolicy}
    (h : RetryPolicy.fromNode node g = .ok policy) : 1 ≤ policy.maxAttempts := by
  unfold RetryPolicy.fromNode at h
  simp only [bind, Except.bind, pure, Except.pure] at h
  split at h
  · cases h
  · cases h
    exact Nat.le_add_left 1 _

omit [JsonReader] in
theorem finishNode_case {p : PipelineEngine} {tick : Tick} {w : Walk}
    {context : PipelineContext} {armed : Bool} (ended : NodeEnd × PipelineContext)
    (hended : ∀ o, ended.1 = .outcome o → o.CountsAttempts)
    (hg : guardLoop p tick w.counted = none) (hx : w.currentNode.isExitNode = false)
    (ho : w.resumeOutcome = none)
    (hk : checkNodeSkip tick.ord w.currentNode w.engine.failedOutputs = none) :
    IterCase p tick w
      (finishNode p tick { w.counted with engine := executing w context armed } ended) := by
  unfold finishNode
  dsimp only
  split
  · exact .abort hg hx ho hk trivial (.kept rfl rfl)
  · exact .abort hg hx ho hk rfl (.childDot rfl rfl)
  · exact .abort hg hx ho hk rfl (.kept rfl rfl)
  · rename_i handled hhandled
    split
    · exact .abort hg hx ho hk rfl (.kept rfl rfl)
    · split
      · exact .abort hg hx ho hk trivial (.kept rfl rfl)
      · rename_i violation hv
        split
        · exact .abort hg hx ho hk trivial (.unwritable rfl rfl)
        · rename_i hw
          have ha : (violation.getD (autoStatus w.currentNode handled)).CountsAttempts := by
            cases violation with
            | none => exact countsAttempts_autoStatus (hended handled hhandled)
            | some o => exact countsAttempts_of_none (checkMustWrite_some hv).2.2
          have hwritable : (violation.getD (autoStatus w.counted.currentNode handled)).statusWritable =
              true := by simpa using hw
          have hcase : IterCase p tick w _ :=
            @IterCase.execute _ p tick w (ended.2.pop resumeFidelityCapKey) armed _ hg hx ho hk
              hwritable ha
          exact hcase

theorem executeNode_case {p : PipelineEngine} {tick : Tick} {w : Walk}
    (hg : guardLoop p tick w.counted = none) (hx : w.currentNode.isExitNode = false)
    (ho : w.resumeOutcome = none)
    (hk : checkNodeSkip tick.ord w.currentNode w.engine.failedOutputs = none) :
    IterCase p tick w (executeNode p tick w.counted) := by
  obtain ⟨context, armed, hs⟩ := degrade_eq p.graph w
  have hsame : applyResumeFidelityDegrade p.graph w.counted.currentNode
      (countExecution w.counted.currentNode w.counted.engine) = executing w context armed := hs
  unfold executeNode executeNodeIn
  split
  · exact .abort hg hx ho hk trivial (.kept rfl rfl)
  · simp only [hsame]
    split
    · exact .abort hg hx ho hk trivial (.kept rfl rfl)
    · exact .abort hg hx ho hk trivial (.kept rfl rfl)
    · rename_i policy timeout hpolicy _
      refine finishNode_case _ (fun o h => ?_) hg hx ho hk
      exact awaitNode_countsAttempts (one_le_maxAttempts hpolicy) h

theorem iterate_guarded {p : PipelineEngine} {tick : Tick} {w : Walk} {o : Outcome}
    (h : guardLoop p tick w.counted = some o) :
    iterate p tick w = ⟨none, none, .halt (.returned o) w.engine⟩ := by
  rw [Walk.counted] at h
  rw [iterate_eq, h]

theorem iterate_unguarded {p : PipelineEngine} {tick : Tick} {w : Walk}
    (h : guardLoop p tick w.counted = none) : iterate p tick w = visit p tick w.counted := by
  rw [Walk.counted] at h ⊢
  rw [iterate_eq, h]

/-- Every iteration is one of the cases. -/
theorem iterate_case (p : PipelineEngine) (tick : Tick) (w : Walk) :
    IterCase p tick w (iterate p tick w) := by
  cases hg : guardLoop p tick w.counted with
  | some o =>
    rw [iterate_guarded hg]
    exact .guarded hg (guardLoop_fail hg)
  | none =>
    rw [iterate_unguarded hg, visit_eq]
    split
    · rename_i hx
      exact .exit hg hx
    · rename_i hx
      have hx' : w.currentNode.isExitNode = false := eq_false_of_ne_true hx
      split
      · rename_i o ho
        exact .hop hg hx' ho
      · rename_i ho
        split
        · rename_i keys hk
          exact .skip hg hx' ho hk
        · rename_i hk
          exact executeNode_case hg hx' ho hk

theorem iterate_exit {p : PipelineEngine} {tick : Tick} {w : Walk}
    (hg : guardLoop p tick w.counted = none) (hx : w.currentNode.isExitNode = true) :
    (iterate p tick w).next = (w.counted.withCheckpoint
      (checkpointOf p.graph w.counted w.currentNode.id tick.timestamp)).leaveExit p.graph := by
  rw [iterate_unguarded hg]
  have hx' : w.counted.currentNode.isExitNode = true := hx
  simp only [visit_eq, hx', if_true]
  rfl

omit [JsonReader] in
/-- A walk that goes on has taken one more step, and not too many. -/
theorem IterCase.steps {p : PipelineEngine} {tick : Tick} {w : Walk} {r : IterEnd}
    (h : IterCase p tick w r) {m : Move} {w' : Walk} (hn : r.next = .goto m w') :
    w'.steps = w.steps + 1 ∧ w.steps + 1 ≤ maxSteps p.graph := by
  cases h with
  | guarded hg ho => cases hn
  | exit hg hx => exact ⟨(leaveExit_moved hn).steps, steps_le_of_guardLoop hg⟩
  | hop hg hx ho => exact ⟨(route_moved hn).steps, steps_le_of_guardLoop hg⟩
  | skip hg hx ho hk => exact ⟨(routeSkipped_moved hn).steps, steps_le_of_guardLoop hg⟩
  | execute hg hx ho hk hw ha => exact ⟨(route_moved hn).steps, steps_le_of_guardLoop hg⟩
  | abort hg hx ho hk hu hs => cases hn

omit [JsonReader] in
/-- However an iteration moves on, it is by one of the moves. -/
theorem IterCase.moved {p : PipelineEngine} {tick : Tick} {w : Walk} {r : IterEnd}
    (h : IterCase p tick w r) {m : Move} {w' : Walk} (hn : r.next = .goto m w') :
    ∃ w₁, Moved p.graph w₁ m w' := by
  cases h with
  | guarded hg ho => cases hn
  | exit hg hx => exact ⟨_, leaveExit_moved hn⟩
  | hop hg hx ho => exact ⟨_, route_moved hn⟩
  | skip hg hx ho hk => exact ⟨_, routeSkipped_moved hn⟩
  | execute hg hx ho hk hw ha => exact ⟨_, route_moved hn⟩
  | abort hg hx ho hk hu hs => cases hn

end DotRunner
