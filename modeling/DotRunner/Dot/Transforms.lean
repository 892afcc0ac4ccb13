import DotRunner.Dot.Parser
import DotRunner.Py.Pointwise
import DotRunner.Stylesheet
import DotRunner.Substitution

/-!
# Transforms

What becomes of a parsed graph before it is run: the prompts are filled in, and the
stylesheet gives the nodes the properties they lack.
-/

namespace DotRunner
namespace Dot

open Py

variable [Runtime]

/-! ## Variables -/

/-- `re.sub` of `$key`, unless the token goes on. -/
def expandParam (params : Record) (text : List Char) (p : String × Value) : List Char :=
  replaceMatches ('$' :: p.1.toList) p.2.toStr.toList (hasDottedSibling params p.1.toList) 0 text

def expandParams (text : String) (params : Record) : String :=
  String.ofList (params.entries.foldl (expandParam params) text.toList)

omit [Runtime] in
/-- `text.replace(pat, value)` -/
def replaceAll (pat value text : String) : String :=
  value.intercalate ((Text.split pat.toList text.toList).map String.ofList)

def expandGoalVariable (text : String) (graphGoal contextGoal : Value) : String :=
  let goalValue := contextGoal.orElse graphGoal
  if goalValue.truthy then replaceAll "$goal" goalValue.toStr text else text

/-- What the transforms read of the context. -/
structure Bindings where
  /-- `graph.goal` -/
  goal : Value
  /-- `graph.params_values` -/
  params : Record

def fillIn (graphGoal : Value) (b : Bindings) (prompt : String) : String :=
  let prompt := if Text.occurs "$goal".toList prompt.toList then
    expandGoalVariable prompt graphGoal b.goal else prompt
  if b.params.entries ≠ [] ∧ '$' ∈ prompt.toList then expandParams prompt b.params else prompt

/-- The prompt filled in; `in` raises on what is not a text. -/
def expandPrompt (graphGoal : Value) (b : Bindings) : Value → Except PyExc Value
  | .str prompt => .ok (.str (fillIn graphGoal b prompt))
  | v => if v.truthy then
      .error (.typeError ("argument of type '" ++ v.typeName ++ "' is not iterable"))
    else .ok v

def expandNode (graphGoal : Value) (b : Bindings) (node : ParsedNode) : Except PyExc ParsedNode :=
  (expandPrompt graphGoal b node.prompt).map fun prompt => { node with prompt := prompt }

def expandVariables (g : ParsedGraph) (b : Bindings) : Except PyExc ParsedGraph :=
  (g.nodes.traverse (expandNode g.goal b)).map fun nodes => { g with nodes := nodes }

/-! ## The stylesheet -/

/-- The classes of a node, where its `class` is a text. -/
def nodeClasses (nodeClass : Value) : Except PyExc (List String) :=
  match nodeClass with
  | .str s => .ok (if s = "" then []
      else (Text.split [','] s.toList).map fun c => String.ofList (Text.strip c))
  | v => if v.truthy then
      .error (.attributeError ("'" ++ v.typeName ++ "' object has no attribute 'split'"))
    else .ok []

def selectorMatches (rule : StyleRule) (node : ParsedNode) : Except PyExc Bool :=
  match rule.selector.toList with
  | ['*'] => .ok true
  | '#' :: id => .ok (String.ofList id == node.id)
  | '.' :: name => (nodeClasses (node.attrs.getD "class" (.str ""))).map fun classes =>
      classes.contains (String.ofList name)
  | _ => .ok ((Value.str rule.selector).pyEq node.shape)

/-- A property, unless a more specific rule has set it. -/
def resolveProperty (specificity : Nat) (resolved : Dict String (Nat × String))
    (p : String × String) : Dict String (Nat × String) :=
  match resolved.get? p.1 with
  | none => resolved.set p.1 (specificity, p.2)
  | some prev => if specificity ≥ prev.1 then resolved.set p.1 (specificity, p.2) else resolved

def resolveProperties (node : ParsedNode) (resolved : Dict String (Nat × String)) :
    List StyleRule → Except PyExc (Dict String (Nat × String))
  | [] => .ok resolved
  | rule :: rules => do
    if ← selectorMatches rule node then
      resolveProperties node
        (rule.properties.entries.foldl (resolveProperty rule.specificity) resolved) rules
    else resolveProperties node resolved rules

/-- The properties the node lacks. -/
def styleNode (rules : List StyleRule) (node : ParsedNode) : Except PyExc ParsedNode :=
  (resolveProperties node Dict.empty rules).map fun resolved => { node with
    attrs := resolved.entries.foldl (fun attrs p =>
      if attrs.contains p.1 then attrs else attrs.set p.1 (.str p.2.2)) node.attrs }

def applyStylesheet (g : ParsedGraph) (rules : List StyleRule) : Except PyExc ParsedGraph :=
  if rules.isEmpty then .ok g
  else (g.nodes.traverse (styleNode rules)).map fun nodes => { g with nodes := nodes }

def applyTransforms (g : ParsedGraph) (b : Bindings) : Except PyExc ParsedGraph := do
  let g ← expandVariables g b
  if g.modelStylesheet.truthy then
    applyStylesheet g (parseStylesheet g.modelStylesheet.toStr)
  else return g

/-! ## The prompts decide -/

/-- The same prompt, filled in or raised over alike. -/
def SamePrompt (graphGoal : Value) (b b' : Bindings) (prompt : Value) : Prop :=
  expandPrompt graphGoal b prompt = expandPrompt graphGoal b' prompt

theorem prompt_of_expandNode {graphGoal : Value} {b : Bindings} {node node' : ParsedNode}
    (h : expandNode graphGoal b node = .ok node') :
    .ok node'.prompt = expandPrompt graphGoal b node.prompt := by
  rw [expandNode] at h
  cases hprompt : expandPrompt graphGoal b node.prompt with
  | error e =>
    rw [hprompt] at h
    cases h
  | ok prompt =>
    rw [hprompt] at h
    rw [← Except.ok.inj h]

omit [Runtime] in
theorem prompt_of_styleNode {rules : List StyleRule} {node node' : ParsedNode}
    (h : styleNode rules node = .ok node') : node'.prompt = node.prompt := by
  rw [styleNode] at h
  cases hresolved : resolveProperties node Dict.empty rules with
  | error e =>
    rw [hresolved] at h
    cases h
  | ok resolved =>
    rw [hresolved] at h
    rw [← Except.ok.inj h]

omit [Runtime] in
theorem prompts_of_applyStylesheet {g g' : ParsedGraph} {rules : List StyleRule}
    (h : applyStylesheet g rules = .ok g') :
    g'.nodes.values.map ParsedNode.prompt = g.nodes.values.map ParsedNode.prompt := by
  rw [applyStylesheet] at h
  split at h
  · rw [Except.ok.inj h]
  · cases hnodes : g.nodes.traverse (styleNode rules) with
    | error e =>
      rw [hnodes] at h
      cases h
    | ok nodes =>
      rw [hnodes] at h
      rw [← Except.ok.inj h]
      exact Dict.map_values_of_traverse (fun _ _ => prompt_of_styleNode) hnodes

/-- The prompts of the graph that is run are those of the source, filled in. -/
theorem prompts_of_applyTransforms {g g' : ParsedGraph} {b : Bindings}
    (h : applyTransforms g b = .ok g') :
    (g'.nodes.values.map fun node => .ok node.prompt) =
      g.nodes.values.map fun node => expandPrompt g.goal b node.prompt := by
  rw [applyTransforms, expandVariables] at h
  cases hnodes : g.nodes.traverse (expandNode g.goal b) with
  | error e =>
    rw [hnodes] at h
    cases h
  | ok nodes =>
    rw [hnodes] at h
    have hfilled : (nodes.values.map fun node => .ok node.prompt) =
        g.nodes.values.map fun node => expandPrompt g.goal b node.prompt :=
      Dict.map_values_of_traverse (fun _ _ => prompt_of_expandNode) hnodes
    rw [← hfilled]
    have hstyled : g'.nodes.values.map ParsedNode.prompt = nodes.values.map ParsedNode.prompt := by
      have h : (if g.modelStylesheet.truthy then
          applyStylesheet { g with nodes := nodes } (parseStylesheet g.modelStylesheet.toStr)
        else .ok { g with nodes := nodes }) = .ok g' := h
      split at h
      · exact prompts_of_applyStylesheet h
      · rw [← Except.ok.inj h]
    have hmap := congrArg (List.map (Except.ok (ε := PyExc))) hstyled
    rwa [List.map_map, List.map_map] at hmap

/-- Bindings that give one transformed graph give another just if they fill in all prompts
alike. -/
theorem applyTransforms_eq_iff {g g' : ParsedGraph} {b b' : Bindings}
    (h : applyTransforms g b = .ok g') :
    applyTransforms g b' = .ok g' ↔ ∀ node ∈ g.nodes.values, SamePrompt g.goal b b' node.prompt := by
  constructor
  · intro h'
    have hmaps := (prompts_of_applyTransforms h).symm.trans (prompts_of_applyTransforms h')
    exact List.map_inj_left.mp hmaps
  · intro hsame
    rw [← h, applyTransforms, applyTransforms, expandVariables, expandVariables]
    rw [Dict.traverse_congr fun node hnode => show expandNode g.goal b' node = expandNode g.goal b node by
      rw [expandNode, expandNode, hsame node hnode]]

end Dot
end DotRunner
