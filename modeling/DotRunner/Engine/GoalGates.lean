import DotRunner.Engine.Ledger
import DotRunner.Engine.Positions
import DotRunner.Nested.Refinement

/-!
# Goal gates

What a successful end of a run says about the gates on the way: every one of
them that was completed since the last reset ended well, and said so itself.
-/

namespace DotRunner

open Py

theorem gateSatisfied_of_verdict {o o' : Outcome} (h : o.verdict = o'.verdict) :
    gateSatisfied o = gateSatisfied o' := by
  rw [Outcome.verdict, Outcome.verdict, Prod.mk.injEq] at h
  rw [gateSatisfied, gateSatisfied, Outcome.isSuccess, Outcome.isSuccess, h.1, h.2]

theorem latest_isSome_of_mem {l : List Completion} {c : Completion} (h : c ∈ l) :
    ∃ o, latest l c.nodeId = some o := by
  have hfound : (l.reverse.find? fun c' => c'.nodeId == c.nodeId).isSome := by
    rw [List.find?_isSome]
    exact ⟨c, List.mem_reverse.mpr h, by simp⟩
  obtain ⟨c', hc'⟩ := Option.isSome_iff_exists.mp hfound
  exact ⟨c'.outcome, by rw [latest, hc']; rfl⟩

theorem Halt.Unsuccessful.not_isSuccess {o : Outcome} (h : (Halt.returned o).Unsuccessful) :
    o.isSuccess = false :=
  Outcome.not_isSuccess_of_fail h

section Results

variable [Runtime]

/-- With no gate left unsatisfied every recorded gate is satisfied. -/
theorem gateSatisfied_of_recorded {g : Graph} {outcomes : Dict String Outcome}
    (h : unsatisfiedGates g outcomes = []) {id : String} {o : Outcome}
    (ho : outcomes.get? id = some o) (hg : isGoalGate g id = true) : gateSatisfied o = true := by
  have hmem : (id, o) ∈ outcomes.entries := (Dict.get?_eq_some_iff _).mp ho
  have hnot : (id, o) ∉ unsatisfiedGates g outcomes := by
    rw [h]
    exact List.not_mem_nil
  rw [unsatisfiedGates, List.mem_filter] at hnot
  cases hs : gateSatisfied o with
  | true => rfl
  | false => exact absurd ⟨hmem, by simp [hg, hs]⟩ hnot

/-- The gates answer with a success only if none is unsatisfied. -/
theorem checkGoalGates_isSuccess {g : Graph} {s : EngineState}
    (h : (checkGoalGates g s).isSuccess = true) : unsatisfiedGates g s.nodeOutcomes = [] := by
  cases hu : unsatisfiedGates g s.nodeOutcomes with
  | nil => rfl
  | cons p rest =>
    have hfail : (checkGoalGates g s).status = .fail := by
      simp only [checkGoalGates, hu]
    rw [Outcome.not_isSuccess_of_fail hfail] at h
    cases h

/-- A run is successful at an exit only, and with every gate satisfied. -/
theorem IterCase.success {p : PipelineEngine} {tick : Tick} {w : Walk} {r : IterEnd}
    (h : IterCase p tick w r) {o : Outcome} {s : EngineState}
    (hr : r.next = .halt (.returned o) s) (ho : o.isSuccess = true) :
    w.currentNode.isExitNode = true ∧ unsatisfiedGates p.graph w.engine.nodeOutcomes = [] := by
  have hfailed : (Halt.returned o).Unsuccessful → False := by
    intro hu
    rw [hu.not_isSuccess] at ho
    cases ho
  cases h with
  | guarded hg hfail =>
    cases hr
    exact (hfailed hfail).elim
  | exit hg hx =>
    obtain ⟨heq, -⟩ := leaveExit_halt hr
    cases heq
    exact ⟨hx, checkGoalGates_isSuccess ho⟩
  | hop hg hx hres => exact (hfailed (route_halt hr).2).elim
  | skip hg hx hres hk => exact (hfailed (routeSkipped_halt hr).2).elim
  | execute hg hx hres hk hsw ha => exact (hfailed (route_halt hr).2).elim
  | abort hg hx hres hk hu hs =>
    cases hr
    exact (hfailed hu).elim

variable [JsonReader]

/-- Goal-gate safety.  Where a run, killed and resumed however often, returns a
success, it stands at an exit, and every goal gate whose completion was recorded
since the last reset has a latest outcome that succeeded and was asserted. -/
theorem goal_gate_safety {p : PipelineEngine} {h : List Event} {docs : List Value} {w : Walk}
    (run : Runs p h docs (some w)) {tick : Tick} {o : Outcome} {s : EngineState}
    (hr : (iterate p tick w).next = .halt (.returned o) s) (ho : o.isSuccess = true) :
    w.currentNode.isExitNode = true ∧
      ∀ c ∈ (ledger p h).current, isGoalGate p.graph c.nodeId = true →
        ∃ o', latest (ledger p h).current c.nodeId = some o' ∧
          o'.isSuccess = true ∧ o'.isExplicit = true := by
  obtain ⟨hexit, hgates⟩ := (iterate_case p tick w).success hr ho
  refine ⟨hexit, fun c hc hgate => ?_⟩
  obtain ⟨o', ho'⟩ := latest_isSome_of_mem hc
  have hverdict := run.describes.verdicts c.nodeId
  rw [ho', Option.map_some, Option.map_eq_some_iff] at hverdict
  obtain ⟨recorded, hrec, hsame⟩ := hverdict
  have hsat : gateSatisfied o' = true := by
    rw [← gateSatisfied_of_verdict hsame]
    exact gateSatisfied_of_recorded hgates hrec hgate
  rw [gateSatisfied, Bool.and_eq_true] at hsat
  exact ⟨o', ho', hsat⟩

end Results

section Demo

open Py.Ascii

/-- A start, a goal gate and an exit. -/
def gatePipeline : PipelineEngine where
  graph := Graph.ofNodes
    [{ id := "begin", shape := "Mdiamond" }, { id := "gate", goalGate := .bool true },
      { id := "done", shape := "Msquare" }]
    [{ fromNode := "begin", toNode := "gate" }, { fromNode := "gate", toNode := "done" }]
  logsRoot := "/logs"
  handlerRegistry := ⟨standardHandlers⟩

def gateStart : Walk where
  engine := { context := initializeContext gatePipeline.graph none 0 {} }
  currentNode := { id := "begin", shape := "Mdiamond" }

/-- A success the handler asserts. -/
def asserts : Tick := Tick.ending (.returned { status := .success, isExplicit := true })

def returnedStatus : Next → Option StageStatus
  | .halt (.returned o) _ => some o.status
  | _ => none

theorem gateStart_runs : Runs gatePipeline [] [] (some gateStart) :=
  Recovery.Run.fresh ⟨none, {}, rfl⟩

theorem goal_gate_safety_gate : ∃ h docs w s o, Runs gatePipeline h docs (some w) ∧
    (iterate gatePipeline succeeds w).next = .halt (.returned o) s ∧
    w.currentNode.isExitNode = true ∧ ∃ c ∈ (ledger gatePipeline h).current, c.nodeId = "gate" ∧
      ∃ o', latest (ledger gatePipeline h).current "gate" = some o' ∧ o'.isExplicit = true := by
  obtain ⟨w, hw⟩ : ∃ w, walkAfter gatePipeline [succeeds, asserts] gateStart = some w :=
    Option.isSome_iff_exists.mp (by decide +kernel)
  have hended : (walkAfter gatePipeline [succeeds, asserts] gateStart).map (fun w =>
      returnedStatus (iterate gatePipeline succeeds w).next) = some (some .success) := by decide +kernel
  have hentered : ((ledger gatePipeline (eventsAfter gatePipeline [succeeds, asserts]
      gateStart)).current.map Completion.nodeId) = ["begin", "gate"] := by decide +kernel
  rw [hw, Option.map_some, Option.some.injEq] at hended
  obtain ⟨docs, run⟩ := gateStart_runs.after hw
  rw [List.nil_append] at run
  obtain ⟨c, hc, hid⟩ : ∃ c ∈ (ledger gatePipeline (eventsAfter gatePipeline [succeeds, asserts]
      gateStart)).current, c.nodeId = "gate" := by
    rw [← List.mem_map, hentered]
    decide
  cases hn : (iterate gatePipeline succeeds w).next with
  | goto m w' =>
    rw [hn] at hended
    cases hended
  | halt hlt s =>
    cases hlt with
    | raised e =>
      rw [hn] at hended
      cases hended
    | returned o =>
      rw [hn, returnedStatus, Option.some.injEq] at hended
      have hsuccess : o.isSuccess = true := (Outcome.isSuccess_iff o).mpr (.inl hended)
      obtain ⟨hexit, hgates⟩ := goal_gate_safety run hn hsuccess
      obtain ⟨o', ho', -, hexplicit⟩ := hgates c hc (by rw [hid]; decide)
      rw [hid] at ho'
      exact ⟨_, docs, w, s, o, run, hn, hexit, c, hc, hid, o', ho', hexplicit⟩

def gateFails : World := World.calm fun node =>
  .returned { status := if node.id = "gate" then .fail else .success }

/-- The status of a run that returned, what it executed and whether it recorded
`id`. -/
def summary (id : String) : Option (Approx.Finish RunEnd × List Mark) →
    Option (StageStatus × List String × Bool)
  | some (.done ⟨.ok o, s⟩, l) => some (o.status, executedIds l, s.nodeOutcomes.contains id)
  | _ => none

/-- The branch of a gate executes it, it fails, and the run succeeds: nothing of
it is recorded. -/
theorem branch_gate_unchecked :
    summary "gate" (runEngine gateFails (runners gateFails 2) forkPipeline [] none {}) =
        some (.success, ["begin", "fork", "gate", "other", "join"], false) ∧
      isGoalGate forkPipeline.graph "gate" = true ∧
      ∀ place node context, node.id = "gate" →
        gateFails.leaf place node context = .done (.returned { status := .fail }, context) := by
  refine ⟨by decide +kernel, by decide, fun place node context hid => ?_⟩
  simp only [gateFails, World.calm, hid, if_true]

end Demo

end DotRunner
