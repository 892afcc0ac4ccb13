import DotRunner.Dot.Parameters
import DotRunner.Dot.Transforms
import DotRunner.Engine.Accepted

/-!
# The graph a resume runs

`run_pipeline` parses and transforms its source with the parameters of the caller.
`resume_pipeline` parses and transforms the source in the checkpoint again, before
the context is restored and without those parameters.
-/

namespace DotRunner
namespace Runner

open Py Dot

section Resume

variable [Runtime]

/-! ## Starting -/

omit [Runtime] in
def reservedContextKeys : List String := ["context.target_dir", "graph.params_values"]

omit [Runtime] in
/-- The parameters as context values. -/
def stringified (params : Dict String String) : Record := params.mapVals fun _ s => .str s

def seedContext (params : Dict String String) (cwd : String) : Except PyExc Record :=
  match params.keys.find? reservedContextKeys.contains with
  | some key =>
    .error (.valueError ("--param key " ++ Value.reprStr key ++ " collides with reserved context key"))
  | none => .ok (((Dict.ofList (stringified params).entries).set "context.target_dir" (.str cwd)).set
      "graph.params_values" (.dict (stringified params).entries))

omit [Runtime] in
/-- What the transforms read; the parameters are seeded as a mapping. -/
def bindings (context : Record) : Bindings where
  goal := context.getD "graph.goal" .none
  params := match context.getD "graph.params_values" .none with
    | .dict kvs => Dict.ofList kvs
    | _ => Dict.empty

/-- The first part of `drive_engine`, up to the graph that is run. -/
def prepareGraph (dotSource : String) (params : Dict String String) (cwd : String)
    (transform : Bool) : Except PyExc ParsedGraph := do
  let graph ← parseDot dotSource params
  let context ← seedContext params cwd
  if transform then applyTransforms graph (bindings context) else return graph

omit [Runtime] in
/-- What the transforms read when some parameters are given. -/
def given (params : Dict String String) : Bindings where
  goal := ((params.get? "graph.goal").map Value.str).getD .none
  params := stringified params

/-! ## What is seeded -/

theorem bindings_seedContext {params : Dict String String} {cwd : String} {context : Record}
    (h : seedContext params cwd = .ok context) : bindings context = given params := by
  rw [seedContext] at h
  split at h
  · cases h
  · rw [Dict.ofList_entries] at h
    rw [← Except.ok.inj h, bindings, given, Bindings.mk.injEq]
    constructor
    · simp [Dict.getD, stringified]
    · simp [Dict.getD]

theorem seedContext_empty (cwd : String) : ∃ context, seedContext Dict.empty cwd = .ok context :=
  ⟨_, rfl⟩

theorem prepareGraph_of_parse {dotSource : String} {params : Dict String String} {cwd : String}
    {g : ParsedGraph} {context : Record} (hparse : parseDot dotSource params = .ok g)
    (hseed : seedContext params cwd = .ok context) (transform : Bool) :
    prepareGraph dotSource params cwd transform =
      if transform then applyTransforms g (given params) else .ok g := by
  rw [← bindings_seedContext hseed, prepareGraph, hparse]
  show (seedContext params cwd >>= _) = _
  rw [hseed]
  rfl

theorem parse_of_prepareGraph {dotSource : String} {params : Dict String String} {cwd : String}
    {transform : Bool} {executed : ParsedGraph}
    (h : prepareGraph dotSource params cwd transform = .ok executed) :
    ∃ g context, parseDot dotSource params = .ok g ∧ seedContext params cwd = .ok context := by
  rw [prepareGraph] at h
  cases hparse : parseDot dotSource params with
  | error e =>
    rw [hparse] at h
    cases h
  | ok g =>
    cases hseed : seedContext params cwd with
    | error e =>
      rw [hparse, hseed] at h
      cases h
    | ok context => exact ⟨g, context, rfl, rfl⟩

theorem samePrompt_iff {goal : Value} {b b' : Bindings} {v : Value} :
    SamePrompt goal b b' v ↔ ∀ prompt, v = .str prompt → fillIn goal b prompt = fillIn goal b' prompt := by
  cases v with
  | str s => simp [SamePrompt, expandPrompt]
  | _ => exact iff_of_true rfl nofun

/-! ## The source -/

theorem dotSource_parseDot {source : String} {params : Dict String String} {g : ParsedGraph}
    (h : parseDot source params = .ok g) : g.dotSource = source := by
  rw [parseDot_eq_runAll] at h
  cases hread : sourceStatements source with
  | error e =>
    rw [hread] at h
    cases h
  | ok s =>
    rw [hread] at h
    have hrun : ((Machine.start params).runAll s.2).map (fun m => m.ctx.graph s.1 source) = .ok g := h
    cases hend : (Machine.start params).runAll s.2 with
    | error e =>
      rw [hend] at hrun
      cases hrun
    | ok m =>
      rw [hend] at hrun
      rw [← Except.ok.inj hrun]
      rfl

theorem dotSource_applyTransforms {g g' : ParsedGraph} {b : Bindings}
    (h : applyTransforms g b = .ok g') : g'.dotSource = g.dotSource := by
  rw [applyTransforms, expandVariables] at h
  cases hnodes : g.nodes.traverse (expandNode g.goal b) with
  | error e =>
    rw [hnodes] at h
    cases h
  | ok nodes =>
    rw [hnodes] at h
    have h : (if g.modelStylesheet.truthy then
        applyStylesheet { g with nodes := nodes } (parseStylesheet g.modelStylesheet.toStr)
      else .ok { g with nodes := nodes }) = .ok g' := h
    split at h
    · rw [applyStylesheet] at h
      split at h
      · rw [← Except.ok.inj h]
      · cases hstyled : nodes.traverse (styleNode (parseStylesheet g.modelStylesheet.toStr)) with
        | error e =>
          rw [hstyled] at h
          cases h
        | ok styled =>
          rw [hstyled] at h
          rw [← Except.ok.inj h]
    · rw [← Except.ok.inj h]

theorem dotSource_prepareGraph {dotSource : String} {params : Dict String String} {cwd : String}
    {transform : Bool} {executed : ParsedGraph}
    (h : prepareGraph dotSource params cwd transform = .ok executed) :
    executed.dotSource = dotSource := by
  obtain ⟨g, context, hparse, hseed⟩ := parse_of_prepareGraph h
  rw [prepareGraph_of_parse hparse hseed] at h
  rw [← dotSource_parseDot hparse]
  split at h
  · exact dotSource_applyTransforms h
  · rw [← Except.ok.inj h]

theorem parseDot_empty (params : Dict String String) : ∃ e, parseDot "" params = .error e := by
  have hprefix : Text.dropPrefix? "digraph".toList [] = none := by decide +kernel
  have hnamed : namedDigraph [] = none := by
    rw [namedDigraph, List.dropWhile_nil, hprefix]
    rfl
  have hunnamed : unnamedDigraph [] = none := by
    rw [unnamedDigraph, List.dropWhile_nil, hprefix]
    rfl
  have hrefused : ∃ e, digraphOf [] = .error e := by
    simp only [digraphOf, hnamed, hunnamed]
    split_ifs <;> exact ⟨_, rfl⟩
  obtain ⟨e, he⟩ := hrefused
  refine ⟨e, ?_⟩
  rw [parseDot, String.toList_empty]
  show (digraphOf [] >>= _) = _
  rw [he]
  rfl

/-! ## Interrupted runs -/

/-- A run of `run_pipeline`, and a checkpoint of it in flight. -/
structure InterruptedRun where
  dotSource : String
  params : Dict String String
  cwd : String
  transform : Bool
  /-- the graph that is run -/
  executed : ParsedGraph
  started : prepareGraph dotSource params cwd transform = .ok executed
  /-- the same graph, as the engine reads it -/
  graph : Graph
  reads : graph.dotSource = executed.dotSource
  checkpoint : Checkpoint
  taken : Taken graph checkpoint

namespace InterruptedRun

variable (r : InterruptedRun)

/-- Without parameters and a source of its own, a resume runs the same graph again. -/
def ResumesFaithfully : Prop :=
  ∀ path cwd, ∃ cp,
    loadCheckpointForResume path (some (.value (saveCheckpoint r.checkpoint))) none = .ok cp ∧
    fingerprintDotSource cp.graphDotSource = cp.graphFingerprint ∧
    prepareGraph cp.graphDotSource Dict.empty cwd r.transform = .ok r.executed

/-- The graph does not depend on the parameters: none of them gives the duration, and the
prompts are filled in as they are without them. -/
structure SelfContained : Prop where
  durations : DurationsFixed r.dotSource
  prompts : r.transform = true → ∀ g, parseDot r.dotSource r.params = .ok g →
    ∀ node ∈ g.nodes.values, ∀ prompt, node.prompt = .str prompt →
      fillIn g.goal (given r.params) prompt = fillIn g.goal (given Dict.empty) prompt

theorem dotSource_ne_empty : r.dotSource ≠ "" := by
  intro hempty
  obtain ⟨g, -, hparse, -⟩ := parse_of_prepareGraph r.started
  obtain ⟨e, he⟩ := parseDot_empty r.params
  rw [hempty, he] at hparse
  cases hparse

/-- The ladder accepts the checkpoint, which names the source and its fingerprint. -/
theorem loads (path : String) :
    loadCheckpointForResume path (some (.value (saveCheckpoint r.checkpoint))) none =
        .ok r.checkpoint.viaJson ∧
      r.checkpoint.viaJson.graphDotSource = r.dotSource ∧
      r.checkpoint.viaJson.graphFingerprint = fingerprintDotSource r.dotSource := by
  have hsource : r.graph.dotSource = r.dotSource :=
    r.reads.trans (dotSource_prepareGraph r.started)
  refine ⟨r.taken.accepted ?_ path, r.taken.graphDotSource.trans hsource, ?_⟩
  · rw [hsource]
    exact r.dotSource_ne_empty
  · rw [r.taken.graphFingerprint, hsource]

/-! ## The same graph -/

/-- A resume runs the graph of the run exactly if that graph does not depend on the
parameters. -/
theorem resumes_faithfully_iff : r.ResumesFaithfully ↔ r.SelfContained := by
  have hstarted := r.started
  obtain ⟨g, context, hparse, hseed⟩ := parse_of_prepareGraph hstarted
  rw [prepareGraph_of_parse hparse hseed] at hstarted
  have hprompts : parseDot r.dotSource Dict.empty = .ok g → ∀ cwd,
      (prepareGraph r.dotSource Dict.empty cwd r.transform = .ok r.executed ↔
        (r.transform = true → ∀ node ∈ g.nodes.values,
          SamePrompt g.goal (given r.params) (given Dict.empty) node.prompt)) := by
    intro hbare cwd
    obtain ⟨context', hseed'⟩ := seedContext_empty cwd
    rw [prepareGraph_of_parse hbare hseed']
    cases htransform : r.transform with
    | false =>
      rw [htransform] at hstarted
      exact iff_of_true hstarted nofun
    | true =>
      rw [htransform] at hstarted
      have hiff : applyTransforms g (given Dict.empty) = .ok r.executed ↔ _ :=
        applyTransforms_eq_iff hstarted
      exact hiff.trans ⟨fun h _ => h, fun h => h rfl⟩
  constructor
  · intro h
    obtain ⟨cp, hload, -, hprepared⟩ := h "" r.cwd
    obtain ⟨hloads, hsource, -⟩ := r.loads ""
    obtain rfl := Except.ok.inj (hloads.symm.trans hload)
    rw [hsource] at hprepared
    obtain ⟨g', -, hbare, -⟩ := parse_of_prepareGraph hprepared
    have hfixed : DurationsFixed r.dotSource := durationsFixed_of_parseDot hbare
    have hbare : parseDot r.dotSource Dict.empty = .ok g := parseDot_empty_of_fixed hparse hfixed
    refine ⟨hfixed, fun htransform g' hparse' node hnode => ?_⟩
    obtain rfl := Except.ok.inj (hparse.symm.trans hparse')
    exact samePrompt_iff.mp ((hprompts hbare r.cwd).mp hprepared htransform node hnode)
  · rintro ⟨hfixed, hsame⟩ path cwd
    obtain ⟨hloads, hsource, hfingerprint⟩ := r.loads path
    have hbare : parseDot r.dotSource Dict.empty = .ok g := parseDot_empty_of_fixed hparse hfixed
    refine ⟨_, hloads, by rw [hsource, hfingerprint], ?_⟩
    rw [hsource]
    exact (hprompts hbare cwd).mpr fun htransform node hnode =>
      samePrompt_iff.mpr (hsame htransform g hparse node hnode)

end InterruptedRun

end Resume

section Demo

open Py.Ascii

/-- The duration is given by a parameter. -/
def timedSource : String :=
  "digraph g \x7b max_pipeline_duration=\"$limit\"; begin [shape=Mdiamond]; " ++
    "finish [shape=Msquare]; begin -> finish \x7d"

def limit : Dict String String := Dict.ofList [("limit", "60s")]

def timedGraph : Graph :=
  { Graph.ofNodes [{ id := "begin", shape := "Mdiamond" }, { id := "finish", shape := "Msquare" }]
      [{ fromNode := "begin", toNode := "finish" }] with
    dotSource := timedSource
    maxPipelineDuration := some 60000 }

def timedWalk : Walk where
  engine := { context := initializeContext timedGraph none 0 {} }
  currentNode := { id := "begin", shape := "Mdiamond" }

/-- The resume cannot parse the source that the run was started with. -/
theorem timed_run_unresumable : ∃ r : InterruptedRun, ¬r.ResumesFaithfully := by
  have hstarts : (prepareGraph timedSource limit "/work" true).isOk = true := by decide +kernel
  have hrefused : (prepareGraph timedSource Dict.empty "/work" true).isOk = false := by decide +kernel
  cases hstarted : prepareGraph timedSource limit "/work" true with
  | error e =>
    rw [hstarted] at hstarts
    cases hstarts
  | ok executed =>
    refine ⟨⟨timedSource, limit, "/work", true, executed, hstarted, timedGraph,
      (dotSource_prepareGraph hstarted).symm, checkpointOf timedGraph timedWalk "begin" "now",
      ⟨_, _, _, rfl⟩⟩, fun h => ?_⟩
    obtain ⟨cp, hload, -, hprepared⟩ := h "" "/work"
    obtain ⟨hloads, hsource, -⟩ := InterruptedRun.loads _ ""
    obtain rfl := Except.ok.inj (hloads.symm.trans hload)
    rw [hsource] at hprepared
    rw [hprepared] at hrefused
    cases hrefused

end Demo

end Runner
end DotRunner
