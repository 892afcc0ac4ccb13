import DotRunner.Dot.Scoping

/-!
# Parsing without the parameters

The parameters have a say in a parse only where a `max_pipeline_duration` is a bare
`$name`.  A source without such a duration is parsed to the same graph whatever the
parameters are; one with such a duration is not parsed at all when there are none.
-/

namespace DotRunner
namespace Dot

open Py

/-- The duration of the graph is given by a parameter. -/
def namesParam (p : String × Value) : Bool :=
  p.1 == "max_pipeline_duration" && match p.2 with
    | .str s => (paramName (Text.strip s.toList)).isSome
    | _ => false

variable [Runtime]

/-- The name of a source and its statements. -/
def sourceStatements (source : String) : Except PyExc (String × List Command) := do
  let (name, body) ← digraphOf (stripComments source.toList)
  let tokens ← tokenize body
  return (name, statements tokens)

/-- No statement of the source has a parameter give the duration. -/
def DurationsFixed (source : String) : Prop :=
  ∀ name cs, sourceStatements source = .ok (name, cs) → ∀ c ∈ cs, ∀ p ∈ c.graphWrites, ¬namesParam p

theorem parseDot_eq_runAll (source : String) (params : Dict String String) :
    parseDot source params = sourceStatements source >>= fun s =>
      ((Machine.start params).runAll s.2).map fun m => m.ctx.graph s.1 source := by
  unfold sourceStatements
  cases hgraph : digraphOf (stripComments source.toList) with
  | error e =>
    rw [parseDot, hgraph]
    rfl
  | ok named =>
    cases htokens : tokenize named.2 with
    | error e =>
      rw [parseDot, hgraph]
      show (parseBody named.2 _ >>= fun ctx => pure (ctx.graph named.1 source)) = _
      rw [parseBody, htokens]
      show _ = (tokenize named.2 >>= fun tokens => pure (named.1, statements tokens)) >>= _
      rw [htokens]
      rfl
    | ok tokens =>
      rw [(subgraphs_scoped_iff params hgraph htokens).1]
      show _ = (tokenize named.2 >>= fun tokens => pure (named.1, statements tokens)) >>= _
      rw [htokens]
      rfl

/-! ## Without the parameters -/

omit [Runtime] in
def ParseContext.bare (ctx : ParseContext) : ParseContext := { ctx with params := Dict.empty }

omit [Runtime] in
def Machine.bare (m : Machine) : Machine := { m with ctx := m.ctx.bare }

theorem resolveGraphDuration_eq {p : String × Value} (hkey : p.1 = "max_pipeline_duration")
    (h : ¬namesParam p) (params params' : Dict String String) :
    resolveGraphDuration params p.1 p.2 = resolveGraphDuration params' p.1 p.2 := by
  obtain ⟨key, v⟩ := p
  cases v with
  | str s =>
    have hnone : paramName (Text.strip s.toList) = none := by
      have hkey : key = "max_pipeline_duration" := hkey
      simpa [namesParam, hkey] using h
    simp only [resolveGraphDuration, hnone]
  | _ => rfl

theorem resolveGraphDuration_error {p : String × Value} (h : namesParam p) :
    ∃ e, resolveGraphDuration Dict.empty p.1 p.2 = .error e := by
  obtain ⟨key, v⟩ := p
  cases v with
  | str s =>
    obtain ⟨name, hname⟩ : ∃ name, paramName (Text.strip s.toList) = some name := by
      simp only [namesParam, Bool.and_eq_true] at h
      exact Option.isSome_iff_exists.mp h.2
    exact ⟨missingParam key name, by simp [resolveGraphDuration, hname]⟩
  | _ => simp [namesParam] at h

theorem setGraphAttr_bare {p : String × Value} (h : ¬namesParam p) (ctx : ParseContext) :
    ctx.bare.setGraphAttr p.1 p.2 = (ctx.setGraphAttr p.1 p.2).map ParseContext.bare := by
  unfold ParseContext.setGraphAttr
  split_ifs with hgoal hretry hsheet hduration
  · rfl
  · rfl
  · rfl
  · rw [resolveGraphDuration_eq hduration h ctx.bare.params ctx.params]
    cases resolveGraphDuration ctx.params p.1 p.2 <;> rfl
  · rfl

theorem setGraphAttrs_bare {attrs : List (String × Value)} (h : ∀ p ∈ attrs, ¬namesParam p)
    (ctx : ParseContext) :
    ctx.bare.setGraphAttrs attrs = (ctx.setGraphAttrs attrs).map ParseContext.bare := by
  induction attrs generalizing ctx with
  | nil => rfl
  | cons p rest ih =>
    rw [ParseContext.setGraphAttrs, ParseContext.setGraphAttrs,
      setGraphAttr_bare (h p List.mem_cons_self)]
    cases ctx.setGraphAttr p.1 p.2 with
    | error e => rfl
    | ok ctx' => exact ih (fun p hp => h p (List.mem_cons_of_mem _ hp)) ctx'

omit [Runtime] in
theorem ensureNode_bare (ctx : ParseContext) (id : String) :
    ctx.bare.ensureNode id = (ctx.ensureNode id).bare := by
  unfold ParseContext.ensureNode
  show (if ctx.hasNode id then _ else _) = _
  split <;> rfl

theorem addChain_bare (first : String) (attrs : Record) (ids : List String) (ctx : ParseContext) :
    ctx.bare.addChain first attrs ids = (ctx.addChain first attrs ids).map ParseContext.bare := by
  induction ids generalizing ctx first with
  | nil => rfl
  | cons id ids ih =>
    rw [ParseContext.addChain, ParseContext.addChain, ParseContext.addEdge, ParseContext.addEdge,
      ensureNode_bare, ensureNode_bare]
    show (newEdge first id (ctx.edgeDefaults.update attrs) >>= _) >>= _ = _
    cases newEdge first id (ctx.edgeDefaults.update attrs) with
    | error e => rfl
    | ok edge =>
      exact ih id { (ctx.ensureNode first).ensureNode id with
        edges := ((ctx.ensureNode first).ensureNode id).edges ++ [edge] }

theorem applyNode_bare (ctx : ParseContext) (id : String) (attrs : Record) :
    ctx.bare.applyNode id attrs = (ctx.applyNode id attrs).bare := by
  have hnodes : ctx.bare.nodes = ctx.nodes := rfl
  unfold ParseContext.applyNode
  rw [hnodes]
  cases ctx.nodes.get? id <;> rfl

theorem run_bare {c : Command} (h : ∀ p ∈ c.graphWrites, ¬namesParam p) (m : Machine) :
    m.bare.run c = (m.run c).map Machine.bare := by
  cases c with
  | graphAttrs attrs =>
    show (m.ctx.bare.setGraphAttrs attrs >>= _) = _
    have hattrs : ∀ p ∈ attrs, ¬namesParam p := h
    rw [setGraphAttrs_bare hattrs, Machine.run]
    cases m.ctx.setGraphAttrs attrs <;> rfl
  | graphAttr key v =>
    show (m.ctx.bare.setGraphAttr key v >>= _) = _
    rw [setGraphAttr_bare (h (key, v) List.mem_cons_self), Machine.run]
    cases m.ctx.setGraphAttr key v <;> rfl
  | chain first rest attrs =>
    show (m.ctx.bare.addChain first attrs rest >>= _) = _
    rw [addChain_bare, Machine.run]
    cases m.ctx.addChain first attrs rest <;> rfl
  | node id attrs =>
    show Except.ok { m.bare with ctx := m.ctx.bare.applyNode id attrs } = _
    rw [applyNode_bare]
    rfl
  | leave =>
    obtain ⟨ctx, frames⟩ := m
    cases frames <;> rfl
  | nodeDefaults attrs | edgeDefaults attrs | truncated | enter => rfl

theorem runAll_bare {cs : List Command} (h : ∀ c ∈ cs, ∀ p ∈ c.graphWrites, ¬namesParam p)
    (m : Machine) : m.bare.runAll cs = (m.runAll cs).map Machine.bare := by
  induction cs generalizing m with
  | nil => rfl
  | cons c cs ih =>
    rw [Machine.runAll, Machine.runAll, run_bare (h c List.mem_cons_self)]
    cases m.run c with
    | error e => rfl
    | ok m' => exact ih (fun c hc => h c (List.mem_cons_of_mem _ hc)) m'

/-! ## A duration given by a parameter -/

omit [Runtime] in
/-- What cannot end well after any first step ends badly. -/
theorem error_of_bind {α β : Type} {x : Except PyExc α} {f : α → Except PyExc β}
    (h : ∀ a, x = .ok a → ∃ e, f a = .error e) : ∃ e, (x >>= f) = .error e := by
  cases x with
  | error e => exact ⟨e, rfl⟩
  | ok a => exact h a rfl

theorem setGraphAttr_error {p : String × Value} (h : namesParam p) {ctx : ParseContext}
    (hctx : ctx.params = Dict.empty) : ∃ e, ctx.setGraphAttr p.1 p.2 = .error e := by
  have hkey : p.1 = "max_pipeline_duration" := by
    simp only [namesParam, Bool.and_eq_true, beq_iff_eq] at h
    exact h.1
  obtain ⟨e, he⟩ := resolveGraphDuration_error h
  rw [hkey] at he
  refine ⟨e, ?_⟩
  simp only [ParseContext.setGraphAttr, hkey, hctx, String.reduceEq, if_false, or_false, if_true, he]
  rfl

theorem setGraphAttrs_error {attrs : List (String × Value)} {p : String × Value} (hp : p ∈ attrs)
    (h : namesParam p) {ctx : ParseContext} (hctx : ctx.params = Dict.empty) :
    ∃ e, ctx.setGraphAttrs attrs = .error e := by
  induction attrs generalizing ctx with
  | nil => cases hp
  | cons q rest ih =>
    rw [ParseContext.setGraphAttrs]
    rcases List.mem_cons.mp hp with rfl | hp
    · obtain ⟨e, he⟩ := setGraphAttr_error h hctx
      rw [he]
      exact ⟨e, rfl⟩
    · exact error_of_bind fun ctx' hset => ih hp ((setGraphAttr_effect hset).params.trans hctx)

theorem run_error {c : Command} {p : String × Value} (hp : p ∈ c.graphWrites) (h : namesParam p)
    {m : Machine} (hm : m.ctx.params = Dict.empty) : ∃ e, m.run c = .error e := by
  cases c with
  | graphAttrs attrs =>
    have hp : p ∈ attrs := hp
    obtain ⟨e, he⟩ := setGraphAttrs_error hp h hm
    exact ⟨e, by rw [Machine.run, he]; rfl⟩
  | graphAttr key v =>
    obtain rfl := List.mem_singleton.mp hp
    obtain ⟨e, he⟩ := setGraphAttr_error h hm
    exact ⟨e, by rw [Machine.run, he]; rfl⟩
  | _ => cases hp

theorem runAll_error {cs : List Command} {c : Command} (hc : c ∈ cs) {p : String × Value}
    (hp : p ∈ c.graphWrites) (h : namesParam p) {m : Machine} (hm : m.ctx.params = Dict.empty) :
    ∃ e, m.runAll cs = .error e := by
  induction cs generalizing m with
  | nil => cases hc
  | cons c' cs ih =>
    rw [Machine.runAll]
    rcases List.mem_cons.mp hc with rfl | hc
    · obtain ⟨e, he⟩ := run_error hp h hm
      rw [he]
      exact ⟨e, rfl⟩
    · refine error_of_bind fun m' hrun => ih hc ?_
      obtain ⟨-, -, -, hparams⟩ := run_effect hrun
      exact hparams.trans hm

/-! ## Whole sources -/

/-- What a source is parsed to with some parameters it is parsed to without any, unless it has
a parameter give the duration. -/
theorem parseDot_empty_of_fixed {source : String} {params : Dict String String} {g : ParsedGraph}
    (hparse : parseDot source params = .ok g) (h : DurationsFixed source) :
    parseDot source Dict.empty = .ok g := by
  rw [parseDot_eq_runAll] at hparse ⊢
  cases hread : sourceStatements source with
  | error e =>
    rw [hread] at hparse
    cases hparse
  | ok s =>
    rw [hread] at hparse
    have hbare : (Machine.start Dict.empty).runAll s.2 =
        ((Machine.start params).runAll s.2).map Machine.bare :=
      runAll_bare (h s.1 s.2 hread) (Machine.start params)
    show ((Machine.start Dict.empty).runAll s.2).map _ = _
    have hrun : ((Machine.start params).runAll s.2).map (fun m => m.ctx.graph s.1 source) = .ok g := hparse
    rw [hbare, ← hrun]
    cases (Machine.start params).runAll s.2 <;> rfl

/-- A source that is parsed without parameters has none give the duration. -/
theorem durationsFixed_of_parseDot {source : String} {g : ParsedGraph}
    (hparse : parseDot source Dict.empty = .ok g) : DurationsFixed source := by
  intro name cs hread c hc p hp h
  rw [parseDot_eq_runAll, hread] at hparse
  obtain ⟨e, he⟩ := runAll_error hc hp h (m := Machine.start Dict.empty) rfl
  have hrun : ((Machine.start Dict.empty).runAll cs).map (fun m => m.ctx.graph name source) = .ok g := hparse
  rw [he] at hrun
  cases hrun

end Dot
end DotRunner
