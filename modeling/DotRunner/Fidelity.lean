import DotRunner.Handlers
import Mathlib.Data.List.Sort

/-!
# Fidelity

How much of what came before a node is shown to it.  In the mode `full` it is the exchanges
of its thread; in every other mode a preamble that is put together from the context and the
completed nodes.
-/

namespace DotRunner

open Py

/-- What a backend reads of the edge that leads to the node. -/
structure IncomingEdge where
  fidelity : Value
  threadId : Value

variable [Runtime]

/-- `resolve_fidelity`, with the incoming edge. -/
def resolveFidelityAlong (node : Node) (incomingEdge : Option IncomingEdge) (g : Graph) : String :=
  (incomingEdge.bind fun e => validFidelity e.fidelity).getD (resolveFidelity node g)

/-- `str(v)`, where there is a value that counts. -/
def truthyText (v : Value) : Option String := if v.truthy then some v.toStr else none

/-- `resolve_thread_key` -/
def resolveThreadKey (node : Node) (incomingEdge : Option IncomingEdge) (g : Graph)
    (previousNodeId : Option String) : String :=
  ((truthyText (node.attr "thread_id")).or
    ((incomingEdge.bind fun e => truthyText e.threadId).or
      (truthyText (g.attr "default_thread_id")))).getD
        ((orStr previousNodeId (some node.id)).getD "")

namespace PipelineContext

/-- `context.get_string(key, fallback)` -/
def getString (c : PipelineContext) (key fallback : String) : String :=
  match c.get key with
  | .none => fallback
  | v => v.toStr

omit [Runtime] in
/-- The values under `context.*`, in the order of their keys. -/
def contextValues (c : PipelineContext) : List (String × Value) :=
  (c.values.entries.insertionSort fun p q => p.1 ≤ q.1).filter fun p =>
    Text.startsWith p.1.toList "context.".toList

end PipelineContext

def goalLine (c : PipelineContext) : String := "Goal: " ++ c.getString "graph.goal" "No goal set"

/-- `_build_truncate_preamble` -/
def truncatePreamble (c : PipelineContext) : String :=
  goalLine c ++ "\nRun ID: " ++ c.getString "internal.run_id" "unknown"

def lastResponseLines (c : PipelineContext) : List String :=
  let lastResponse := c.get "last_response"
  if lastResponse.truthy then ["Last response:", "  " ++ lastResponse.toStr, ""] else []

/-- The values under `context.*` behind a heading, where there are any. -/
def contextLines (c : PipelineContext) (heading : String) : List String :=
  if c.contextValues.isEmpty then []
  else heading :: c.contextValues.map fun p => "  - " ++ p.1 ++ ": " ++ p.2.toStr

/-- Lines for every completed node behind a heading, where there are any. -/
def stageLines (completed : Dict String Outcome) (heading : String)
    (lines : String → Outcome → List String) : List String :=
  if completed.entries.isEmpty then []
  else heading :: completed.entries.flatMap (fun p => lines p.1 p.2) ++ [""]

omit [Runtime] in
/-- A line for a text that is not empty. -/
def textLine (before : String) (text : Option String) : List String :=
  if truthyStr text then [before ++ text.getD ""] else []

omit [Runtime] in
def compactStage (nodeId : String) (o : Outcome) : List String :=
  ["  - " ++ nodeId ++ ": " ++ o.status.value ++
    (if truthyStr o.notes then " - " ++ o.notes.getD "" else "")]

omit [Runtime] in
def mediumStage (nodeId : String) (o : Outcome) : List String :=
  ("  - " ++ nodeId ++ ": " ++ o.status.value) :: textLine "    Notes: " o.notes

def highStage (nodeId : String) (o : Outcome) : List String :=
  mediumStage nodeId o ++ (textLine "    Failure: " o.failureReason ++
    ((o.contextUpdates.map Dict.entries).getD []).map fun p =>
      "    Update: " ++ p.1 ++ " = " ++ p.2.toStr)

/-- `_build_compact_preamble` -/
def compactPreamble (c : PipelineContext) (completed : Dict String Outcome) : String :=
  Text.join "\n" ([goalLine c, ""] ++ stageLines completed "Completed stages:" compactStage ++
    lastResponseLines c ++ contextLines c "Context values:")

/-- `_build_summary_preamble` -/
def summaryPreamble (level : String) (c : PipelineContext) (completed : Dict String Outcome) :
    String :=
  let detail : List String :=
    if level = "low" then
      if completed.entries.isEmpty then []
      else
        ["Progress: " ++ toString (completed.values.countP Outcome.isSuccess) ++ "/" ++
          toString completed.size ++ " stages completed successfully.",
          "Stages: " ++ Text.join ", " completed.keys]
    else if level = "medium" then
      stageLines completed "Stage outcomes:" mediumStage ++ lastResponseLines c ++
        contextLines c "Active context:"
    else if level = "high" then
      stageLines completed "Detailed stage outcomes:" highStage ++ lastResponseLines c ++
        contextLines c "Full context state:"
    else []
  Text.join "\n" ([goalLine c, ""] ++ detail)

/-- `build_preamble` -/
def buildPreamble (fidelity : String) (c : PipelineContext) (completed : Dict String Outcome) :
    String :=
  if fidelity = "full" then ""
  else if fidelity = "truncate" then truncatePreamble c
  else if fidelity = "compact" then compactPreamble c completed
  else match Text.dropPrefix? "summary:".toList fidelity.toList with
    | some level => summaryPreamble (String.ofList level) c completed
    | none => compactPreamble c completed

/-! ## What a preamble reads -/

/-- The value of `f` depends on what the context has under these keys, and on nothing else of
it. -/
def ReadsOnly {α : Type} (keys : String → Prop) (f : PipelineContext → α) : Prop :=
  ∀ c d : PipelineContext, (∀ key, keys key → c.values.get? key = d.values.get? key) → f c = f d

omit [Runtime] in
theorem ReadsOnly.mono {α : Type} {keys keys' : String → Prop} {f : PipelineContext → α}
    (h : ReadsOnly keys f) (hkeys : ∀ key, keys key → keys' key) : ReadsOnly keys' f :=
  fun c d hsame => h c d fun key hkey => hsame key (hkeys key hkey)

/-- A key under `context.` -/
def isContextKey (key : String) : Prop := Text.startsWith key.toList "context.".toList = true

omit [Runtime] in
theorem readsOnly_get (key : String) : ReadsOnly (· = key) (PipelineContext.get · key) := by
  intro c d h
  show c.values.getD key .none = d.values.getD key .none
  rw [Dict.getD, Dict.getD, h key rfl]

theorem readsOnly_getString (key fallback : String) :
    ReadsOnly (· = key) (PipelineContext.getString · key fallback) := by
  intro c d h
  have hget : c.get key = d.get key := readsOnly_get key c d h
  show c.getString key fallback = d.getString key fallback
  unfold PipelineContext.getString
  rw [hget]

omit [Runtime] in
/-- The keys are in order. -/
theorem pairwise_contextValues (c : PipelineContext) :
    c.contextValues.Pairwise fun p q => p.1 ≤ q.1 := by
  have htotal : Std.Total fun p q : String × Value => p.1 ≤ q.1 := ⟨fun p q => String.le_total p.1 q.1⟩
  have htrans : IsTrans (String × Value) fun p q => p.1 ≤ q.1 := ⟨fun _ _ _ => String.le_trans⟩
  exact (List.pairwise_insertionSort _ _).filter _

omit [Runtime] in
theorem nodup_contextValues (c : PipelineContext) : c.contextValues.Nodup := by
  have hentries : c.values.entries.Nodup := .of_map Prod.fst c.values.nodup
  exact ((List.perm_insertionSort _ _).nodup_iff.mpr hentries).filter _

omit [Runtime] in
theorem mem_contextValues {c : PipelineContext} {p : String × Value} :
    p ∈ c.contextValues ↔ c.values.get? p.1 = some p.2 ∧ isContextKey p.1 := by
  rw [PipelineContext.contextValues, List.mem_filter, List.mem_insertionSort, isContextKey]
  exact and_congr_left' (Dict.get?_eq_some_iff c.values).symm

omit [Runtime] in
/-- The order in which the keys came into the context is not seen. -/
theorem readsOnly_contextValues : ReadsOnly isContextKey PipelineContext.contextValues := by
  intro c d h
  have hmem : ∀ p, p ∈ c.contextValues ↔ p ∈ d.contextValues := by
    intro p
    rw [mem_contextValues, mem_contextValues]
    exact and_congr_left fun hkey => by rw [h p.1 hkey]
  have hperm : c.contextValues.Perm d.contextValues :=
    (List.perm_ext_iff_of_nodup (nodup_contextValues c) (nodup_contextValues d)).mpr hmem
  refine hperm.eq_of_pairwise (fun p q hp hq hle hge => ?_) (pairwise_contextValues c)
    (pairwise_contextValues d)
  have hkey : p.1 = q.1 := String.le_antisymm hle hge
  have hvalue := (mem_contextValues.mp ((hmem p).mp hp)).1
  rw [hkey, (mem_contextValues.mp hq).1] at hvalue
  exact Prod.ext hkey (Option.some.inj hvalue).symm

theorem readsOnly_goalLine : ReadsOnly (· = "graph.goal") goalLine :=
  fun c d h => congrArg ("Goal: " ++ ·) (readsOnly_getString "graph.goal" "No goal set" c d h)

theorem readsOnly_lastResponseLines : ReadsOnly (· = "last_response") lastResponseLines := by
  intro c d h
  have hget : c.get "last_response" = d.get "last_response" := readsOnly_get "last_response" c d h
  rw [lastResponseLines, lastResponseLines, hget]

theorem readsOnly_contextLines (heading : String) : ReadsOnly isContextKey (contextLines · heading) := by
  intro c d h
  have hvalues := readsOnly_contextValues c d h
  show contextLines c heading = contextLines d heading
  rw [contextLines, contextLines, hvalues]

/-- The keys that the preamble of a mode shows. -/
def preambleReads (fidelity key : String) : Prop :=
  if fidelity = "full" then False
  else if fidelity = "truncate" then key = "graph.goal" ∨ key = "internal.run_id"
  else if fidelity = "summary:low" then key = "graph.goal"
  else key = "graph.goal" ∨ key = "last_response" ∨ isContextKey key

theorem readsOnly_summaryPreamble {level : String} {keys : String → Prop} (completed : Dict String Outcome)
    (hgoal : keys "graph.goal") (hrest : level ≠ "low" →
      keys "last_response" ∧ ∀ key, isContextKey key → keys key) :
    ReadsOnly keys (summaryPreamble level · completed) := by
  intro c d h
  have hline : goalLine c = goalLine d := readsOnly_goalLine c d fun key hkey => h key (hkey ▸ hgoal)
  show summaryPreamble level c completed = summaryPreamble level d completed
  unfold summaryPreamble
  by_cases hlow : level = "low"
  · rw [if_pos hlow, if_pos hlow, hline]
  · obtain ⟨hlast, hcontext⟩ := hrest hlow
    have hresponse : lastResponseLines c = lastResponseLines d :=
      readsOnly_lastResponseLines c d fun key hkey => h key (hkey ▸ hlast)
    have hvalues : ∀ heading, contextLines c heading = contextLines d heading := fun heading =>
      readsOnly_contextLines heading c d fun key hkey => h key (hcontext key hkey)
    rw [if_neg hlow, if_neg hlow, hline, hresponse, hvalues, hvalues]

theorem readsOnly_compactPreamble (completed : Dict String Outcome) :
    ReadsOnly (fun key => key = "graph.goal" ∨ key = "last_response" ∨ isContextKey key)
      (compactPreamble · completed) := by
  intro c d h
  have hline : goalLine c = goalLine d := readsOnly_goalLine c d fun key hkey => h key (.inl hkey)
  have hresponse : lastResponseLines c = lastResponseLines d :=
    readsOnly_lastResponseLines c d fun key hkey => h key (.inr (.inl hkey))
  have hvalues : contextLines c "Context values:" = contextLines d "Context values:" :=
    readsOnly_contextLines _ c d fun key hkey => h key (.inr (.inr hkey))
  show compactPreamble c completed = compactPreamble d completed
  rw [compactPreamble, compactPreamble, hline, hresponse, hvalues]

end DotRunner
