import DotRunner.Remote.Uri
import DotRunner.Runner.Resume

/-!
# Where a source is parsed

One source is parsed at several places: by the tool that looks for the providers it
needs, by the session that is mounted to run it, by the scan for the files that a remote
source refers to, and by the nodes it is a child of.  Each place comes by the parameters
in its own way, and the tool has none.
-/

namespace DotRunner
namespace Runner

open Py Dot

/-! ## The providers of a graph -/

def isProviderChar (c : Char) : Bool := c.isAlphanum || c == '_' || c == '-'

/-- `llm_provider\s*:\s*([a-zA-Z0-9_-]+)` -/
def scanProvider (l : List Char) : Option (List Char × List Char × List Char) := do
  let r ← Text.dropPrefix? "llm_provider".toList l
  match r.dropWhile Text.isSpace with
  | ':' :: value =>
    let value := value.dropWhile Text.isSpace
    let rest := value.dropWhile isProviderChar
    if (value.takeWhile isProviderChar).isEmpty then none
    else some (value.takeWhile isProviderChar, consumed l rest, rest)
  | _ => none

def providerRe : Pattern (List Char) where
  run := scanProvider
  splits := by
    intro l k t r h
    simp only [scanProvider, Option.bind_eq_bind, Option.bind_eq_some_iff] at h
    obtain ⟨behind, hprefix, h⟩ := h
    have hl := Text.dropPrefix?_eq_some_iff.mp hprefix
    split at h
    · rename_i value hcolon
      split at h
      · cases h
      · simp only [Option.some.injEq, Prod.mk.injEq] at h
        obtain ⟨-, rfl, hr⟩ := h
        have hvalue : value <:+ behind :=
          (List.suffix_cons ':' value).trans (suffix_of_dropWhile hcolon)
        have hrest : r <:+ behind :=
          ((suffix_of_dropWhile hr).trans (List.dropWhile_suffix _)).trans hvalue
        rw [hr]
        refine consumed_append (hrest.trans (hl ▸ List.suffix_append _ _)) fun heq => ?_
        have hlen := hrest.length_le
        have htoken : "llm_provider".toList.length = 12 := by decide +kernel
        rw [heq, hl, List.length_append] at hlen
        omega
    · cases h

/-- A shape that invokes no provider. -/
def isStructural : Value → Bool
  | .str shape => ["Mdiamond", "Msquare", "point"].contains shape
  | _ => false

section Sites

variable [Runtime]

/-- The providers of the rules of the stylesheet, then those of the nodes. -/
def requiredProviders (graph : ParsedGraph) : List Value :=
  (if graph.modelStylesheet.truthy then
    (providerRe.finditer graph.modelStylesheet.toStr.toList).1.map fun m =>
      .str (String.ofList m.kind)
  else []) ++
  (graph.nodes.values.filterMap fun node =>
    if isStructural node.shape then none
    else (node.attrs.get? "llm_provider").filter Value.truthy)

/-! ## The tool -/

/-- What the tool parses: it hands the parameters on to the session, not to this parse. -/
def providerScan (dotSource : String) : Except PyExc ParsedGraph := parseDot dotSource Dict.empty

/-- `PipelineRunTool._extract_required_providers`, with the engine installed -/
def extractRequiredProviders (dotSource : String) : Except PyExc (List Value) := do
  let graph ← providerScan dotSource
  return requiredProviders graph

/-- The first step of `PipelineRunTool.execute` behind the source: the providers or what it
ends with. -/
def providersOrRefusal (dotSource : String) : Except String (List Value) :=
  match extractRequiredProviders dotSource with
  | .ok required => .ok required
  | .error e => .error ("Failed to parse DOT source: " ++ excText e)

omit [Runtime] in
/-- The configuration of the session that runs the source. -/
structure OrchestratorConfig where
  dotSource : String
  params : Option (Dict String String) := none

omit [Runtime] in
def orchestratorConfig (dotSource : String) (params : Option (Dict String String)) :
    OrchestratorConfig where
  dotSource := dotSource
  params := params.filter fun p => !p.entries.isEmpty

/-! ## The session -/

/-- `load_remote_or_local_graph`, for the text of a source -/
def loadLocalGraph (source : String) (params : Option (Dict String String)) :
    Except PyExc ParsedGraph :=
  parseDot source (params.getD Dict.empty)

/-- The parse of `PipelineOrchestrator.execute` -/
def mountedGraph (config : OrchestratorConfig) : Except PyExc ParsedGraph :=
  loadLocalGraph config.dotSource (some (config.params.getD Dict.empty))

/-! ## Remote sources -/

omit [Runtime] in
/-- `RemoteFetchParseError` -/
structure RemoteFetchParseError where
  text : String

/-- The parse of `extract_dot_file_refs` -/
def referenceScan (text : String) (origin : Remote.Origin) (params : Option (Dict String String)) :
    Except RemoteFetchParseError ParsedGraph :=
  match parseDot text (params.getD Dict.empty) with
  | .ok graph => .ok graph
  | .error e => .error ⟨"Failed to parse DOT from " ++ origin.owner ++ "/" ++ origin.repo ++
      "@" ++ origin.ref ++ "#" ++ origin.path ++ ": " ++ excText e⟩

/-- `extract_dot_file_refs` -/
def extractDotFileRefs (text : String) (origin : Remote.Origin)
    (params : Option (Dict String String)) : Except RemoteFetchParseError (List Value) := do
  let graph ← referenceScan text origin params
  return graph.nodes.values.filterMap fun node =>
    (node.attrs.get? "dot_file").filter Value.truthy

/-! ## Children -/

omit [Runtime] in
/-- `context.get("graph.params_values") or {}`, a mapping of strings -/
def paramsOf (context : Record) : Dict String String :=
  match context.getD "graph.params_values" .none with
  | .dict kvs => Dict.ofList (kvs.filterMap fun kv => match kv.2 with
    | .str s => some (kv.1, s)
    | _ => none)
  | _ => Dict.empty

/-- What the parse of a child gives its node. -/
inductive ChildParse where
  | parsed (graph : ParsedGraph)
  | failed (o : Outcome)
  | raised (e : PyExc)

/-- A node fails where its child is refused. -/
def childParse (dotSource : String) (context : Record) : ChildParse :=
  match parseDot dotSource (paramsOf context) with
  | .ok graph => .parsed graph
  | .error (.valueError text) => .failed
      { status := .fail, failureReason := some ("Failed to parse child DOT: " ++ text) }
  | .error e => .raised e

/-- The parse of `PipelineHandler.execute` -/
def folderChild (dotSource : String) (context : Record) : ChildParse := childParse dotSource context

/-- The parse of a cycle of `ManagerLoopHandler` -/
def managerChild (dotSource : String) (childContext : Record) : ChildParse :=
  childParse dotSource childContext

/-! ## Every place -/

omit [Runtime] in
def Carries (context : Record) (params : Dict String String) : Prop :=
  context.get? "graph.params_values" = some (.dict (stringified params).entries)

/-- Every place reads the graph from the source, the parameters given in its own way. -/
structure ParsedEverywhere (source : String) (params : Dict String String) (g : ParsedGraph) :
    Prop where
  scanned : providerScan source = .ok g
  mounted : mountedGraph (orchestratorConfig source (some params)) = .ok g
  referenced : ∀ origin, referenceScan source origin (some params) = .ok g
  folder : ∀ context, Carries context params → folderChild source context = .parsed g
  manager : ∀ context, Carries context params → managerChild source context = .parsed g

/-- What is parsed with the parameters is parsed everywhere, and to the same graph. -/
def ParametersReach (source : String) (params : Dict String String) : Prop :=
  ∀ g, parseDot source params = .ok g → ParsedEverywhere source params g

/-- The context that a run is seeded with carries its parameters. -/
theorem carries_seedContext {params : Dict String String} {cwd : String} {context : Record}
    (h : seedContext params cwd = .ok context) : Carries context params := by
  rw [seedContext] at h
  split at h
  · cases h
  · rw [← Except.ok.inj h]
    exact Dict.get?_set_self _ _ _

omit [Runtime] in
theorem paramsOf_of_carries {context : Record} {params : Dict String String}
    (h : Carries context params) : paramsOf context = params := by
  have hentries : (stringified params).entries =
      params.entries.map fun kv => (kv.1, Value.str kv.2) := rfl
  rw [paramsOf, Dict.getD, h]
  show Dict.ofList ((stringified params).entries.filterMap _) = params
  rw [hentries, List.filterMap_map]
  show Dict.ofList (params.entries.filterMap some) = params
  rw [List.filterMap_some, Dict.ofList_entries]

omit [Runtime] in
theorem params_orchestratorConfig (source : String) (params : Dict String String) :
    (orchestratorConfig source (some params)).params.getD Dict.empty = params := by
  by_cases hempty : params.entries.isEmpty = true
  · have hnil : params = Dict.empty := Dict.ext (List.isEmpty_iff.mp hempty)
    rw [hnil]
    rfl
  · simp [orchestratorConfig, Option.filter, hempty]

theorem mountedGraph_eq (source : String) (params : Dict String String) :
    mountedGraph (orchestratorConfig source (some params)) = parseDot source params := by
  rw [mountedGraph, params_orchestratorConfig]
  rfl

theorem referenceScan_ok {source : String} {params : Dict String String} {g : ParsedGraph}
    (h : parseDot source params = .ok g) (origin : Remote.Origin) :
    referenceScan source origin (some params) = .ok g := by
  simp only [referenceScan, Option.getD_some, h]

theorem childParse_ok {source : String} {params : Dict String String} {g : ParsedGraph}
    (h : parseDot source params = .ok g) {context : Record} (hcarries : Carries context params) :
    childParse source context = .parsed g := by
  simp only [childParse, paramsOf_of_carries hcarries, h]

theorem providerScan_iff {source : String} {params : Dict String String} {g : ParsedGraph}
    (h : parseDot source params = .ok g) : providerScan source = .ok g ↔ DurationsFixed source :=
  ⟨durationsFixed_of_parseDot, parseDot_empty_of_fixed h⟩

/-- The tool refuses a source that has a parameter give the duration, whatever it is given. -/
theorem refused_of_named {source : String} (h : ¬DurationsFixed source) :
    ∃ e, providersOrRefusal source = .error ("Failed to parse DOT source: " ++ excText e) := by
  cases hscan : providerScan source with
  | ok g => exact absurd (durationsFixed_of_parseDot hscan) h
  | error e =>
    refine ⟨e, ?_⟩
    rw [providersOrRefusal, extractRequiredProviders, hscan]
    rfl

/-- The parameters reach every place where no statement of an accepted source has one of them
give the duration. -/
theorem parameters_reach_iff (source : String) (params : Dict String String) :
    ParametersReach source params ↔
      ((∃ g, parseDot source params = .ok g) → DurationsFixed source) := by
  constructor
  · intro h haccepted
    obtain ⟨g, hparse⟩ := haccepted
    exact (providerScan_iff hparse).mp (h g hparse).scanned
  · intro h g hparse
    have hfixed := h ⟨g, hparse⟩
    exact
      { scanned := (providerScan_iff hparse).mpr hfixed
        mounted := (mountedGraph_eq source params).trans hparse
        referenced := referenceScan_ok hparse
        folder := fun _ hcarries => childParse_ok hparse hcarries
        manager := fun _ hcarries => childParse_ok hparse hcarries }

end Sites

section Demo

open Py.Ascii

/-- The session would run the source, and the tool does not get it that far. -/
theorem timed_source_refused : ¬ParametersReach timedSource limit := by
  have haccepted : (parseDot timedSource limit).isOk = true := by decide +kernel
  have hrefused : (providerScan timedSource).isOk = false := by decide +kernel
  intro h
  cases hparse : parseDot timedSource limit with
  | error e =>
    rw [hparse] at haccepted
    cases haccepted
  | ok g =>
    rw [(h g hparse).scanned] at hrefused
    cases hrefused

end Demo

end Runner
end DotRunner
