import DotRunner.Engine.SkipSoundness

/-!
# The artifact contract of the main loop

A success the main loop records for a node with `must_write` is one whose
artifact passed the check, whatever became of the outcome before.
-/

namespace DotRunner

open Py

variable [Runtime]

/-- What the node owes, if anything, has been written since the start. -/
def Delivered (node : Node) (startWall : Int) (context : PipelineContext) (disk : Disk) : Prop :=
  (node.attr "must_write").truthy = true → ArtifactFresh node startWall context disk

omit [Runtime] in
theorem not_failing_of_isSuccess {o : Outcome} (h : o.isSuccess = true) :
    o.status.failing = false := by
  rcases o.isSuccess_iff.mp h with hs | hs <;> rw [hs] <;> rfl

/-- A check that replaces every violation lets no success pass undelivered. -/
theorem delivered_of_check {node : Node} {promoted : Outcome} {violation : Option Outcome}
    {startWall : Int} {context : PipelineContext} {disk : Disk}
    (h : checkMustWrite node promoted startWall context disk = .ok violation)
    (hsuccess : (violation.getD promoted).isSuccess = true) :
    Delivered node startWall context disk := by
  intro hdeclared
  cases violation with
  | none => exact checkMustWrite_none h hdeclared (not_failing_of_isSuccess hsuccess)
  | some o =>
    rw [Option.getD_some, Outcome.not_isSuccess_of_fail (checkMustWrite_some h).1] at hsuccess
    cases hsuccess

/-- What the run has recorded of `o` for a node. -/
def EngineState.Recorded (s : EngineState) (id : String) (o : Outcome) : Prop :=
  s.nodeOutcomes.get? id = some o

theorem Moved.recorded {g : Graph} {w w' : Walk} {m : Move} (h : Moved g w m w') {id : String}
    {o : Outcome} (ho : w'.engine.Recorded id o) : w.engine.Recorded id o := by
  rcases h.records with ⟨-, hn, -⟩ | ⟨-, hn, -⟩
  · rw [EngineState.Recorded, hn] at ho
    exact ho
  · rw [EngineState.Recorded, hn] at ho
    cases ho

/-- Routing records nothing. -/
theorem route_recorded {w : Walk} {g : Graph} {ord : SetOrder} {routed : Outcome} {id : String}
    {o : Outcome} (h : (w.route g ord routed).engine.Recorded id o) : w.engine.Recorded id o := by
  cases hr : w.route g ord routed with
  | goto m w' =>
    rw [hr] at h
    exact (route_moved hr).recorded h
  | halt e s =>
    rw [hr] at h
    rcases (route_halt hr).1 with rfl | rfl
    · exact h
    · cases h

theorem routeSkipped_recorded {w : Walk} {g : Graph} {routed : Outcome} {id : String}
    {o : Outcome} (h : (w.routeSkipped g routed).engine.Recorded id o) : w.engine.Recorded id o := by
  cases hr : w.routeSkipped g routed with
  | goto m w' =>
    rw [hr] at h
    exact (routeSkipped_moved hr).recorded h
  | halt e s =>
    rw [hr] at h
    rw [← (routeSkipped_halt hr).1]
    exact h

theorem leaveExit_recorded {w : Walk} {g : Graph} {id : String} {o : Outcome}
    (h : (w.leaveExit g).engine.Recorded id o) : w.engine.Recorded id o := by
  cases hr : w.leaveExit g with
  | goto m w' =>
    rw [hr] at h
    exact (leaveExit_moved hr).recorded h
  | halt e s =>
    rw [hr] at h
    rw [← (leaveExit_halt hr).2]
    exact h

omit [Runtime] in
theorem recorded_set {s : EngineState} {d : Dict String Outcome} {node id : String} {o o' : Outcome}
    (hs : s.nodeOutcomes = d.set node o) (h : s.Recorded id o') :
    (node = id ∧ o = o') ∨ d.get? id = some o' := by
  rw [EngineState.Recorded, hs, Dict.get?_set] at h
  by_cases hid : node = id
  · rw [if_pos hid] at h
    exact .inl ⟨hid, Option.some.inj h⟩
  · rw [if_neg hid] at h
    exact .inr h

/-! ## One iteration -/

variable [JsonReader]

/-- The context the backstop resolves the artifact in: as the handler left it,
without the one-hop cap. -/
def contextAfterHandler (p : PipelineEngine) (tick : Tick) (w : Walk) : PipelineContext :=
  match RetryPolicy.fromNode w.currentNode p.graph, nodeTimeout w.currentNode with
  | .ok policy, .ok timeout =>
    (awaitNode p w.currentNode policy timeout tick.run (applyResumeFidelityDegrade p.graph
      w.currentNode (countExecution w.currentNode w.engine)).context).2.pop resumeFidelityCapKey
  | _, _ => w.engine.context

/-- The current node delivered in this iteration. -/
def DeliveredAt (p : PipelineEngine) (tick : Tick) (w : Walk) : Prop :=
  Delivered w.currentNode tick.run.startWall (contextAfterHandler p tick w) tick.run.diskAfter

omit [JsonReader] in
/-- What the end of a node execution adds to the records: nothing, or an outcome
of the current node, a success only where it delivered. -/
theorem finishNode_recorded {p : PipelineEngine} {tick : Tick} {w : Walk}
    {ended : NodeEnd × PipelineContext} {id : String} {o : Outcome}
    (h : (finishNode p tick w ended).next.engine.Recorded id o) (ho : o.isSuccess = true) :
    w.engine.Recorded id o ∨ w.currentNode.id = id ∧
      Delivered w.currentNode tick.run.startWall (ended.2.pop resumeFidelityCapKey)
        tick.run.diskAfter := by
  unfold finishNode at h
  dsimp only at h
  split at h
  · exact .inl h
  · rename_i text hchild
    rcases recorded_set rfl h with ⟨-, rfl⟩ | hbefore
    · cases ho
    · exact .inl hbefore
  · exact .inl h
  · rename_i handled _
    split at h
    · exact .inl h
    · split at h
      · exact .inl h
      · rename_i violation hcheck
        have hset : ∀ s : EngineState, s.nodeOutcomes = w.engine.nodeOutcomes.set w.currentNode.id
            (violation.getD (autoStatus w.currentNode handled)) → s.Recorded id o →
            w.engine.Recorded id o ∨ w.currentNode.id = id ∧
              Delivered w.currentNode tick.run.startWall (ended.2.pop resumeFidelityCapKey)
                tick.run.diskAfter := by
          intro s hs hr
          rcases recorded_set hs hr with ⟨hid, heq⟩ | hbefore
          · exact .inr ⟨hid, delivered_of_check hcheck (by rw [heq]; exact ho)⟩
          · exact .inl hbefore
        split at h
        · exact hset _ rfl h
        · refine hset _ ?_ (route_recorded h)
          unfold Walk.withCheckpoint completeNode
          dsimp only
          split <;> rfl

omit [JsonReader] in
/-- A completion is the current node's, and a success only where it delivered. -/
theorem finishNode_completion {p : PipelineEngine} {tick : Tick} {w : Walk}
    {ended : NodeEnd × PipelineContext} {c : Completion}
    (h : (finishNode p tick w ended).completion = some c) :
    c.nodeId = w.currentNode.id ∧ (c.outcome.isSuccess = true →
      Delivered w.currentNode tick.run.startWall (ended.2.pop resumeFidelityCapKey)
        tick.run.diskAfter) := by
  unfold finishNode at h
  dsimp only at h
  split at h
  · cases h
  · cases h
  · cases h
  · split at h
    · cases h
    · split at h
      · cases h
      · rename_i violation hcheck
        split at h
        · cases h
        · cases h
          exact ⟨rfl, fun ho => delivered_of_check hcheck ho⟩

/-- The execution of a node, or what kept it from being executed. -/
theorem executeNode_cases (p : PipelineEngine) (tick : Tick) (w : Walk) :
    (∃ ended s, s.nodeOutcomes = w.engine.nodeOutcomes ∧
      ended.2.pop resumeFidelityCapKey = contextAfterHandler p tick w ∧
      executeNode p tick w = finishNode p tick { w with engine := s } ended) ∨
    ∃ e s, s.nodeOutcomes = w.engine.nodeOutcomes ∧
      executeNode p tick w = ⟨none, none, .halt (.raised e) s⟩ := by
  obtain ⟨context, armed, hdegrade⟩ := degrade_eq p.graph w
  unfold executeNode executeNodeIn
  split
  · exact .inr ⟨_, w.engine, rfl, rfl⟩
  · dsimp only
    rw [hdegrade]
    split
    · exact .inr ⟨_, executing w context armed, rfl, rfl⟩
    · exact .inr ⟨_, executing w context armed, rfl, rfl⟩
    · rename_i policy timeout hpolicy htimeout
      refine .inl ⟨awaitNode p w.currentNode policy timeout tick.run
        (executing w context armed).context, executing w context armed, rfl, ?_, rfl⟩
      rw [contextAfterHandler, hpolicy, htimeout, hdegrade]

omit [JsonReader] in
theorem skipOutcome_not_isSuccess (node : Node) (keys : List String) :
    (skipOutcome node keys).isSuccess = false := rfl

/-- What an iteration adds to the records. -/
theorem iterate_recorded {p : PipelineEngine} {tick : Tick} {w : Walk} {id : String} {o : Outcome}
    (h : (iterate p tick w).next.engine.Recorded id o) (ho : o.isSuccess = true) :
    w.engine.Recorded id o ∨ w.currentNode.id = id ∧ DeliveredAt p tick w := by
  rw [iterate_eq] at h
  split at h
  · exact .inl h
  · rw [visit_eq] at h
    split at h
    · have hexit := leaveExit_recorded h
      exact .inl hexit
    · split at h
      · have hhop := route_recorded h
        exact .inl hhop
      · split at h
        · rename_i keys _
          have hskip := routeSkipped_recorded h
          rcases recorded_set (d := w.engine.nodeOutcomes) rfl hskip with ⟨-, heq⟩ | hbefore
          · rw [← heq, skipOutcome_not_isSuccess] at ho
            cases ho
          · exact .inl hbefore
        · rcases executeNode_cases p tick { w with steps := w.steps + 1 } with
            ⟨ended, s, hs, hcontext, heq⟩ | ⟨e, s, hs, heq⟩
          · rw [heq] at h
            have hframe : s.Recorded id o → w.engine.Recorded id o := by
              intro hr
              rw [EngineState.Recorded, hs] at hr
              exact hr
            rcases finishNode_recorded h ho with hbefore | ⟨hid, hdone⟩
            · exact .inl (hframe hbefore)
            · rw [hcontext] at hdone
              exact .inr ⟨hid, hdone⟩
          · rw [heq] at h
            have hrec : s.nodeOutcomes.get? id = some o := h
            rw [hs] at hrec
            exact .inl hrec

/-- A success is recorded by an iteration that delivered. -/
theorem iterate_completion {p : PipelineEngine} {tick : Tick} {w : Walk} {c : Completion}
    (h : (iterate p tick w).completion = some c) :
    c.nodeId = w.currentNode.id ∧ (c.outcome.isSuccess = true → DeliveredAt p tick w) := by
  rw [iterate_eq] at h
  split at h
  · cases h
  · rw [visit_eq] at h
    split at h
    · cases h
    · split at h
      · cases h
      · split at h
        · cases h
          exact ⟨rfl, fun ho => by rw [skipOutcome_not_isSuccess] at ho; cases ho⟩
        · rcases executeNode_cases p tick { w with steps := w.steps + 1 } with
            ⟨ended, s, hs, hcontext, heq⟩ | ⟨e, s, hs, heq⟩
          · rw [heq] at h
            obtain ⟨hid, hdone⟩ := finishNode_completion h
            rw [hcontext] at hdone
            exact ⟨hid, hdone⟩
          · rw [heq] at h
            cases h

/-! ## Whole runs -/

/-- The recorded outcome is that of the node's latest completion, and the
iteration that completed it delivered. -/
def DeliveredIn (p : PipelineEngine) (h : List Event) (id : String) (o : Outcome) : Prop :=
  ∃ c, latest (ledger p h).current id = some c ∧ c.status = o.status ∧
    ∃ w tick missing, .iterated w tick ∈ h ∧ (iterate p tick w).completion = some ⟨id, c, missing⟩ ∧
      w.currentNode.id = id ∧ DeliveredAt p tick w

theorem mem_completionsOf {p : PipelineEngine} {h : List Event} {c : Completion}
    (hc : c ∈ completionsOf p h) :
    ∃ w tick, .iterated w tick ∈ h ∧ (iterate p tick w).completion = some c := by
  obtain ⟨e, he, hmem⟩ := List.mem_flatMap.mp hc
  cases e with
  | iterated w tick => exact ⟨w, tick, he, Option.mem_toList.mp hmem⟩
  | resumed w => cases hmem

omit [Runtime] [JsonReader] in
theorem mem_of_latest {l : List Completion} {id : String} {o : Outcome}
    (h : latest l id = some o) : ∃ missing, ⟨id, o, missing⟩ ∈ l := by
  obtain ⟨c, hc, ho⟩ := Option.map_eq_some_iff.mp h
  have hid : c.nodeId = id := by simpa using List.find?_some hc
  have hmem : c ∈ l := List.mem_reverse.mp (List.mem_of_find?_eq_some hc)
  obtain ⟨nodeId, outcome, missing⟩ := c
  cases hid
  cases ho
  exact ⟨missing, hmem⟩

/-- In every run, whatever crashes and resumes it has been through, a recorded
success was delivered. -/
theorem Runs.delivered {p : PipelineEngine} {h : List Event} {docs : List Value} {w : Walk}
    (run : Runs p h docs (some w)) {id : String} {o : Outcome} (hr : w.engine.Recorded id o)
    (ho : o.isSuccess = true) : DeliveredIn p h id o := by
  have hverdict := run.describes.verdicts id
  rw [show w.engine.nodeOutcomes.get? id = some o from hr, Option.map_some, eq_comm,
    Option.map_eq_some_iff] at hverdict
  obtain ⟨c, hlatest, hsame⟩ := hverdict
  have hstatus : c.status = o.status := (Prod.mk.inj hsame).1
  obtain ⟨missing, hmem⟩ := mem_of_latest hlatest
  obtain ⟨w', tick, he, hcompletion⟩ := mem_completionsOf ((ledger_suffix p h).1.subset hmem)
  obtain ⟨hid, hdone⟩ := iterate_completion hcompletion
  have hsuccess : c.isSuccess = true := by
    rw [c.isSuccess_iff, hstatus]
    exact o.isSuccess_iff.mp ho
  exact ⟨c, hlatest, hstatus, w', tick, missing, he, hcompletion, hid.symm, hdone hsuccess⟩

end DotRunner
