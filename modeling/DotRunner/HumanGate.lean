import DotRunner.EdgeSelection
import DotRunner.Py.Ascii

/-!
# The human gate

A gate offers one option for every label of its outgoing edges.  The answer is resolved to
a label, the label to the targets of its edges, and edge selection takes it from there.
-/

namespace DotRunner

open Py

inductive AnswerValue where
  | yes
  | no
  | skipped
  | timeout
deriving DecidableEq

structure GateOption where
  key : String
  label : String
deriving DecidableEq

/-- `str | AnswerValue` -/
inductive AnswerContent where
  | predefined (v : AnswerValue)
  | text (s : String)
deriving DecidableEq

structure Answer where
  value : AnswerContent := .text ""
  selectedOption : Option GateOption := none
  text : String := ""
deriving DecidableEq

/-! ## Accelerator keys -/

/-- `_BRACKET_KEY_RE` -/
def bracketAccelerator : List Char → Option (List Char)
  | '[' :: r => match r.dropWhile (· != ']') with
    | ']' :: c :: _ =>
      if r.takeWhile (· != ']') ≠ [] ∧ Text.isSpace c then some (r.takeWhile (· != ']')) else none
    | _ => none
  | _ => none

section Keys

variable [Runtime]

/-- `_NUMBER_KEY_RE` -/
def numberAccelerator (l : List Char) : Option (List Char) :=
  match l.dropWhile Text.isDecimal with
  | mark :: c :: _ =>
    if l.takeWhile Text.isDecimal ≠ [] ∧ (mark = '.' ∨ mark = ')') ∧ Text.isSpace c then
      some (l.takeWhile Text.isDecimal)
    else none
  | _ => none

/-- `_parse_accelerator_key`: a label without an accelerator is its own key. -/
def parseAcceleratorKey (label : String) : String :=
  match (bracketAccelerator label.toList).or (numberAccelerator label.toList) with
  | some key => String.ofList key
  | none => label

/-! ## Options -/

/-- `edge.label or edge.to_node` -/
def optionLabel (e : Edge) : String := if e.label = "" then e.toNode else e.label

def gateChoices (edges : List Edge) : List String :=
  edges.foldl (fun choices e =>
    if optionLabel e ∈ choices then choices else choices ++ [optionLabel e]) []

/-- `label_to_targets` -/
def labelToTargets (edges : List Edge) : Dict String (List String) :=
  edges.foldl (fun d e => d.set (optionLabel e) (d.getD (optionLabel e) [] ++ [e.toNode]))
    Dict.empty

/-- `key_to_label` -/
def keyToLabel (choices : List String) : Dict String String :=
  Dict.ofList (choices.map fun c => (parseAcceleratorKey c, c))

def toOption (label : String) : GateOption := ⟨parseAcceleratorKey label, label⟩

/-- The options of the question. -/
def gateOptions (edges : List Edge) : List GateOption := (gateChoices edges).map toOption

/-- `_resolve_selection` -/
def resolveSelection (answer : Answer) (choices : List String) (keyMap : Dict String String) :
    Option String :=
  let default := choices.head?
  match answer.value with
  | .predefined .skipped => default
  | .predefined .timeout => default
  | .predefined .yes => default
  | .predefined .no => (choices[1]?).or default
  | .text value =>
    let byOption := answer.selectedOption.bind fun option =>
      (keyMap.get? option.key).or (if option.key ∈ choices then some option.key else none)
    let byValue := (keyMap.get? value).or (if value ∈ choices then some value else none)
    (byOption.or byValue).or default

/-! ## The outcome -/

/-- The outcome of a selection. -/
def selectionOutcome (node : Node) (edges : List Edge) (selected : Option String) : Outcome :=
  let targetIds := match selected with
    | some label => if label = "" then [] else (labelToTargets edges).getD label []
    | none => []
  let option := (gateChoices edges).find? (· == selected.getD "")
  { status := .success
    isExplicit := true
    suggestedNextIds := if targetIds = [] then none else some (targetIds.map .str)
    contextUpdates := some (Dict.ofList [
      ("human.gate.selected", match option with
        | some label => .str (parseAcceleratorKey label)
        | none => optionText selected),
      ("human.gate.label", .str (option.getD node.label)),
      ("last_response", .str (String.ofList ((selected.getD "").toList.take 200))),
      ("last_stage", .str node.id)])
    notes := some ("Human gate '" ++ node.id ++ "': selected '" ++
      (selected.getD "None") ++ "'") }

/-- What `execute` makes of the answer of a gate with options. -/
def gateOutcome (node : Node) (edges : List Edge) (answer : Answer) : Outcome :=
  if answer.value = .predefined .skipped then
    { status := .fail
      isExplicit := true
      contextUpdates := some (Dict.ofList [
        ("human.gate.selected", .none), ("human.gate.label", .str node.label)])
      notes := some ("Human gate '" ++ node.id ++ "': interaction was skipped") }
  else
    selectionOutcome node edges
      (resolveSelection answer (gateChoices edges) (keyToLabel (gateChoices edges)))

/-- The edge the engine follows after the answer. -/
def followed (g : Graph) (node : Node) (context : PipelineContext) (answer : Answer) :
    Option Edge :=
  selectEdge node.id (gateOutcome node (g.outgoingEdges node.id) answer) context g

/-! ## Answers that point at an option -/

/-- The option chosen, its key typed (a number is the key of `1) …`), its label typed. -/
def answersFor (option : GateOption) : List Answer :=
  [{ value := .text option.key, selectedOption := some option }, { value := .text option.key },
    { value := .text option.label }]

/-- Every answer that points at an option leads over the edge the option was built from. -/
structure RoutesWhereTheyPoint (g : Graph) (node : Node) (context : PipelineContext) : Prop where
  follows : ∀ option ∈ gateOptions (g.outgoingEdges node.id), ∀ e ∈ g.outgoingEdges node.id,
    optionLabel e = option.label → ∀ answer ∈ answersFor option,
      followed g node context answer = some e
  choosable : ∀ option ∈ gateOptions (g.outgoingEdges node.id), ∃ answer,
    ∃ e ∈ g.outgoingEdges node.id, optionLabel e = option.label ∧
      followed g node context answer = some e

/-- No edge has a condition, each is the first to its target, and neither a key nor a label
of one is the key of another. -/
structure Distinguishable (edges : List Edge) : Prop where
  unconditional : ∀ e ∈ edges, e.unconditional = true
  first : ∀ e ∈ edges, optionLabel e ≠ "" →
    edges.find? (fun e' => e'.toNode == e.toNode) = some e
  unnamed : ∀ e ∈ edges, optionLabel e = "" → bestUnconditional edges = some e
  keys : ∀ e ∈ edges, ∀ e' ∈ edges,
    parseAcceleratorKey (optionLabel e) = parseAcceleratorKey (optionLabel e') → e = e'
  labels : ∀ e ∈ edges, ∀ e' ∈ edges,
    optionLabel e = parseAcceleratorKey (optionLabel e') → e = e'

/-- All there is is one edge, and its condition holds. -/
def OnlyEdgeHolds (edges : List Edge) (context : PipelineContext) : Prop :=
  ∃ e ∈ edges, (∀ e' ∈ edges, e' = e) ∧ e.unconditional = false ∧
    evaluateCondition e.condition { status := .success } context = true

omit [Runtime] in
theorem mem_gateChoices {edges : List Edge} {label : String} :
    label ∈ gateChoices edges ↔ ∃ e ∈ edges, optionLabel e = label := by
  have hrun : ∀ choices : List String, label ∈ edges.foldl (fun choices e =>
      if optionLabel e ∈ choices then choices else choices ++ [optionLabel e]) choices ↔
        label ∈ choices ∨ ∃ e ∈ edges, optionLabel e = label := by
    induction edges with
    | nil => simp
    | cons e edges ih =>
      intro choices
      rw [List.foldl_cons, ih]
      split
      · rename_i hmem
        constructor
        · rintro (h | ⟨e', he', h⟩)
          · exact .inl h
          · exact .inr ⟨e', List.mem_cons_of_mem e he', h⟩
        · rintro (h | ⟨e', he', h⟩)
          · exact .inl h
          · rcases List.mem_cons.mp he' with rfl | he'
            · exact .inl (h ▸ hmem)
            · exact .inr ⟨e', he', h⟩
      · simp only [List.mem_append, List.mem_cons, List.not_mem_nil, or_false, exists_eq_or_imp]
        constructor
        · rintro ((h | h) | h)
          · exact .inl h
          · exact .inr (.inl h.symm)
          · exact .inr (.inr h)
        · rintro (h | h | h)
          · exact .inl (.inl h)
          · exact .inl (.inr h.symm)
          · exact .inr h
  rw [gateChoices, hrun]
  simp

omit [Runtime] in
theorem getD_labelToTargets (edges : List Edge) (label : String) :
    (labelToTargets edges).getD label [] =
      (edges.filter fun e => optionLabel e == label).map Edge.toNode := by
  have hrun : ∀ d : Dict String (List String), (edges.foldl (fun d e =>
      d.set (optionLabel e) (d.getD (optionLabel e) [] ++ [e.toNode])) d).getD label [] =
        d.getD label [] ++ (edges.filter fun e => optionLabel e == label).map Edge.toNode := by
    induction edges with
    | nil => simp
    | cons e edges ih =>
      intro d
      rw [List.foldl_cons, ih, List.filter_cons]
      by_cases he : optionLabel e = label
      · rw [he, Dict.getD, Dict.get?_set_self, if_pos (beq_iff_eq.mpr rfl), List.map_cons]
        simp
      · rw [Dict.getD, Dict.get?_set_of_ne _ _ he, if_neg (fun h => he (beq_iff_eq.mp h))]
        rfl
  rw [labelToTargets, hrun]
  rfl

/-- A key leads to a label of that key. -/
theorem keyToLabel_some {choices : List String} {key label : String}
    (h : (keyToLabel choices).get? key = some label) :
    label ∈ choices ∧ parseAcceleratorKey label = key := by
  have hmem := Dict.mem_of_mem_ofList ((Dict.get?_eq_some_iff _).mp h)
  obtain ⟨c, hc, heq⟩ := List.mem_map.mp hmem
  obtain ⟨rfl, rfl⟩ := Prod.mk.inj heq
  exact ⟨hc, rfl⟩

theorem exists_keyToLabel {choices : List String} {label : String} (h : label ∈ choices) :
    ∃ label', (keyToLabel choices).get? (parseAcceleratorKey label) = some label' := by
  apply Dict.exists_get?_of_mem_keys
  refine (Dict.mem_keys_setAll _ _ _).mpr (.inr (List.mem_map.mpr ?_))
  exact ⟨_, List.mem_map.mpr ⟨label, h, rfl⟩, rfl⟩

/-! ## What an answer resolves to -/

section Answers

variable {choices : List String} {label : String}

/-- An answer that points at an option resolves to it, or to a label the option's key or
label is the key of. -/
theorem resolve_answersFor (h : label ∈ choices) {answer : Answer}
    (hanswer : answer ∈ answersFor (toOption label)) : ∃ label' ∈ choices,
      resolveSelection answer choices (keyToLabel choices) = some label' ∧
        (label' = label ∨ parseAcceleratorKey label' = parseAcceleratorKey label ∨
          parseAcceleratorKey label' = label) := by
  obtain ⟨label', hget⟩ := exists_keyToLabel h
  obtain ⟨hmem, hkey⟩ := keyToLabel_some hget
  simp only [answersFor, toOption, List.mem_cons, List.not_mem_nil, or_false] at hanswer
  rcases hanswer with rfl | rfl | rfl
  · refine ⟨label', hmem, ?_, .inr (.inl hkey)⟩
    simp only [resolveSelection, hget, Option.bind_some, Option.some_or]
  · refine ⟨label', hmem, ?_, .inr (.inl hkey)⟩
    simp only [resolveSelection, hget, Option.bind_none, Option.none_or, Option.some_or]
  · cases hlabel : (keyToLabel choices).get? label with
    | none =>
      refine ⟨label, h, ?_, .inl rfl⟩
      simp only [resolveSelection, hlabel, Option.bind_none, Option.none_or, if_pos h,
        Option.some_or]
    | some other =>
      obtain ⟨hother, hkey⟩ := keyToLabel_some hlabel
      refine ⟨other, hother, ?_, .inr (.inr hkey)⟩
      simp only [resolveSelection, hlabel, Option.bind_none, Option.none_or, Option.some_or]

omit [Runtime] in
theorem not_skipped_of_mem {option : GateOption} {answer : Answer}
    (h : answer ∈ answersFor option) : answer.value ≠ .predefined .skipped := by
  simp only [answersFor, List.mem_cons, List.not_mem_nil, or_false] at h
  rcases h with rfl | rfl | rfl <;> exact nofun

end Answers

/-! ## Which edge is followed -/

section Followed

variable {g : Graph} {node : Node} {context : PipelineContext}

/-- The edge followed once the label is known. -/
def followedBy (g : Graph) (node : Node) (context : PipelineContext) (label : String) :
    Option Edge :=
  selectEdge node.id (selectionOutcome node (g.outgoingEdges node.id) (some label)) context g

theorem followed_of_mem (context : PipelineContext) {label : String}
    (h : label ∈ gateChoices (g.outgoingEdges node.id)) {answer : Answer}
    (hanswer : answer ∈ answersFor (toOption label)) :
    ∃ label' ∈ gateChoices (g.outgoingEdges node.id),
      followed g node context answer = followedBy g node context label' ∧
        (label' = label ∨ parseAcceleratorKey label' = parseAcceleratorKey label ∨
          parseAcceleratorKey label' = label) := by
  obtain ⟨label', hmem, hresolve, hlabel⟩ := resolve_answersFor h hanswer
  refine ⟨label', hmem, ?_, hlabel⟩
  rw [followed, gateOutcome, if_neg (not_skipped_of_mem hanswer), hresolve]
  rfl

/-- The conditional edges that take every answer. -/
def matching (edges : List Edge) (context : PipelineContext) : List Edge :=
  edges.filter fun e =>
    !e.unconditional && evaluateCondition e.condition { status := .success } context

theorem conditionMatched_selection (edges : List Edge) (selected : Option String) :
    conditionMatched edges (selectionOutcome node edges selected) context =
      matching edges context := by
  apply List.filter_congr
  intro e _
  have heval : evaluateCondition e.condition (selectionOutcome node edges selected) context =
      evaluateCondition e.condition { status := .success } context :=
    evaluateCondition_congr e.condition rfl rfl fun _ _ => rfl
  rw [heval]

theorem followedBy_of_matching {b : Edge} (label : String)
    (h : bestByWeightThenLexical (matching (g.outgoingEdges node.id) context) = some b) :
    followedBy g node context label = some b := by
  rw [followedBy, selectEdge, conditionMatched_selection, h, Option.some_or]

/-- The targets that are suggested for a label. -/
def targetsOf (edges : List Edge) (label : String) : List String :=
  if label = "" then [] else (edges.filter fun e => optionLabel e == label).map Edge.toNode

/-- Where no conditional edge matches, the targets of the label decide, and then the weight. -/
theorem followedBy_of_unmatched (label : String)
    (h : matching (g.outgoingEdges node.id) context = []) :
    followedBy g node context label =
      ((targetsOf (g.outgoingEdges node.id) label).findSome? fun id =>
        (g.outgoingEdges node.id).find? fun e => e.unconditional && e.toNode == id).or
          (bestUnconditional (g.outgoingEdges node.id)) := by
  generalize hedges : g.outgoingEdges node.id = edges at h
  have hsuggestions : (selectionOutcome node edges (some label)).suggestions =
      (targetsOf edges label).map .str := by
    have hids : (match some label with
        | some label => if label = "" then [] else (labelToTargets edges).getD label []
        | none => []) = targetsOf edges label := by
      rw [targetsOf, ← getD_labelToTargets]
    show (if _ = [] then none else some _ : Option (List Value)).getD [] = _
    rw [hids]
    split
    · rename_i hnil
      rw [hnil]
      rfl
    · rfl
  have hsuggested : suggestedMatch edges (selectionOutcome node edges (some label)) =
      (targetsOf edges label).findSome? fun id =>
        edges.find? fun e => e.unconditional && e.toNode == id := by
    rw [suggestedMatch, hsuggestions, List.findSome?_map]
    rfl
  rw [followedBy, selectEdge, hedges, conditionMatched_selection, h, hsuggested]
  rfl

end Followed

/-! ## When the answers route where they point -/

section Routes

variable {g : Graph} {node : Node} {context : PipelineContext}

/-- Every answer for the option of an edge leads over the edge. -/
def FollowsEach (g : Graph) (node : Node) (context : PipelineContext) : Prop :=
  ∀ e ∈ g.outgoingEdges node.id, ∀ answer ∈ answersFor (toOption (optionLabel e)),
    followed g node context answer = some e

theorem followsEach_iff : RoutesWhereTheyPoint g node context ↔ FollowsEach g node context := by
  constructor
  · intro h e he answer hanswer
    have hoption : toOption (optionLabel e) ∈ gateOptions (g.outgoingEdges node.id) :=
      List.mem_map.mpr ⟨_, mem_gateChoices.mpr ⟨e, he, rfl⟩, rfl⟩
    exact h.follows _ hoption e he rfl answer hanswer
  · intro h
    constructor
    case follows =>
      intro option hoption e he hlabel answer hanswer
      obtain ⟨label, -, rfl⟩ := List.mem_map.mp hoption
      have heq : optionLabel e = label := hlabel
      exact h e he answer (heq ▸ hanswer)
    case choosable =>
      intro option hoption
      obtain ⟨label, hmem, rfl⟩ := List.mem_map.mp hoption
      obtain ⟨e, he, rfl⟩ := mem_gateChoices.mp hmem
      exact ⟨_, e, he, rfl, h e he _ List.mem_cons_self⟩

theorem unconditional_of_followedBy {label : String} {e : Edge}
    (hnone : matching (g.outgoingEdges node.id) context = [])
    (h : followedBy g node context label = some e) : e.unconditional = true := by
  rw [followedBy_of_unmatched label hnone, Option.or_eq_some_iff] at h
  rcases h with h | ⟨-, h⟩
  · obtain ⟨id, -, hfind⟩ := List.exists_of_findSome?_eq_some h
    have hfound := List.find?_some hfind
    exact (Bool.and_eq_true_iff.mp hfound).1
  · exact (List.mem_filter.mp (bestByWeightThenLexical_mem h)).2

/-- Where only the one edge has the label, the first edge to its target is followed. -/
theorem followedBy_target {e : Edge} (hnone : matching (g.outgoingEdges node.id) context = [])
    (hall : ∀ e' ∈ g.outgoingEdges node.id, e'.unconditional = true)
    (he : e ∈ g.outgoingEdges node.id) (hlabel : optionLabel e ≠ "")
    (hsame : ∀ e' ∈ g.outgoingEdges node.id, optionLabel e' = optionLabel e → e' = e) :
    followedBy g node context (optionLabel e) =
      (g.outgoingEdges node.id).find? fun e' => e'.toNode == e.toNode := by
  rw [followedBy_of_unmatched _ hnone]
  generalize g.outgoingEdges node.id = edges at hall he hsame
  have htargets : ∀ id ∈ targetsOf edges (optionLabel e), id = e.toNode := by
    intro id hid
    rw [targetsOf, if_neg hlabel] at hid
    obtain ⟨e', he', rfl⟩ := List.mem_map.mp hid
    obtain ⟨hmem, heq⟩ := List.mem_filter.mp he'
    rw [hsame e' hmem (beq_iff_eq.mp heq)]
  have hmem : e.toNode ∈ targetsOf edges (optionLabel e) := by
    rw [targetsOf, if_neg hlabel]
    exact List.mem_map.mpr ⟨e, List.mem_filter.mpr ⟨he, beq_iff_eq.mpr rfl⟩, rfl⟩
  have hplain : edges.find? (fun e' => e'.unconditional && e'.toNode == e.toNode) =
      edges.find? fun e' => e'.toNode == e.toNode := by
    rw [← List.head?_filter, ← List.head?_filter]
    exact congrArg List.head? (List.filter_congr fun e' he' => by rw [hall e' he', Bool.true_and])
  obtain ⟨first, hfirst⟩ : ∃ first,
      edges.find? (fun e' => e'.toNode == e.toNode) = some first :=
    Option.isSome_iff_exists.mp (List.find?_isSome.mpr ⟨e, he, beq_iff_eq.mpr rfl⟩)
  obtain ⟨id, rest, hids⟩ := List.exists_cons_of_ne_nil (List.ne_nil_of_mem hmem)
  rw [hids, List.findSome?_cons, htargets id (hids ▸ List.mem_cons_self), hplain, hfirst]
  rfl

theorem distinguishable_of_follows (h : FollowsEach g node context)
    (hnone : matching (g.outgoingEdges node.id) context = []) :
    Distinguishable (g.outgoingEdges node.id) := by
  -- The same answer does not lead over two edges.
  have hsame : ∀ e ∈ g.outgoingEdges node.id, ∀ e' ∈ g.outgoingEdges node.id, ∀ answer,
      answer ∈ answersFor (toOption (optionLabel e)) →
      answer ∈ answersFor (toOption (optionLabel e')) → e = e' := by
    intro e he e' he' answer hanswer hanswer'
    exact Option.some.inj ((h e he answer hanswer).symm.trans (h e' he' answer hanswer'))
  have hkeys : ∀ e ∈ g.outgoingEdges node.id, ∀ e' ∈ g.outgoingEdges node.id,
      parseAcceleratorKey (optionLabel e) = parseAcceleratorKey (optionLabel e') → e = e' := by
    intro e he e' he' hkey
    refine hsame e he e' he' { value := .text (parseAcceleratorKey (optionLabel e)) } ?_ ?_
    · simp [answersFor, toOption]
    · simp [answersFor, toOption, hkey]
  have hlabels : ∀ e ∈ g.outgoingEdges node.id, ∀ e' ∈ g.outgoingEdges node.id,
      optionLabel e = parseAcceleratorKey (optionLabel e') → e = e' := by
    intro e he e' he' heq
    refine hsame e he e' he' { value := .text (optionLabel e) } ?_ ?_
    · simp [answersFor, toOption]
    · simp [answersFor, toOption, heq]
  -- So the key of an option resolves to its own label.
  have hown : ∀ e ∈ g.outgoingEdges node.id,
      followedBy g node context (optionLabel e) = some e := by
    intro e he
    obtain ⟨label', hmem, hfollowed, hlabel⟩ :=
      followed_of_mem context (mem_gateChoices.mpr ⟨e, he, rfl⟩) List.mem_cons_self
    obtain ⟨e', he', rfl⟩ := mem_gateChoices.mp hmem
    have heq : e' = e := by
      rcases hlabel with hlabel | hlabel | hlabel
      · exact hkeys e' he' e he (congrArg parseAcceleratorKey hlabel)
      · exact hkeys e' he' e he hlabel
      · exact (hlabels e he e' he' hlabel.symm).symm
    rw [← heq, ← hfollowed, heq]
    exact h e he _ List.mem_cons_self
  have hall : ∀ e ∈ g.outgoingEdges node.id, e.unconditional = true := fun e he =>
    unconditional_of_followedBy hnone (hown e he)
  constructor
  case unconditional => exact hall
  case first =>
    intro e he hlabel
    rw [← followedBy_target hnone hall he hlabel fun e' he' heq =>
      hkeys e' he' e he (congrArg parseAcceleratorKey heq)]
    exact hown e he
  case unnamed =>
    intro e he hlabel
    have hfollowed := hown e he
    rw [followedBy_of_unmatched _ hnone, targetsOf, if_pos hlabel] at hfollowed
    exact hfollowed
  case keys => exact hkeys
  case labels => exact hlabels

theorem follows_of_distinguishable (h : Distinguishable (g.outgoingEdges node.id)) :
    FollowsEach g node context := by
  intro e he answer hanswer
  have hnone : matching (g.outgoingEdges node.id) context = [] := by
    refine List.filter_eq_nil_iff.mpr fun e he => ?_
    rw [h.unconditional e he]
    exact Bool.false_ne_true
  obtain ⟨label', hmem, hfollowed, hlabel⟩ :=
    followed_of_mem context (mem_gateChoices.mpr ⟨e, he, rfl⟩) hanswer
  obtain ⟨e', he', rfl⟩ := mem_gateChoices.mp hmem
  have heq : e' = e := by
    rcases hlabel with hlabel | hlabel | hlabel
    · exact h.keys e' he' e he (congrArg parseAcceleratorKey hlabel)
    · exact h.keys e' he' e he hlabel
    · exact (h.labels e he e' he' hlabel.symm).symm
  subst heq
  rw [hfollowed]
  by_cases hempty : optionLabel e' = ""
  · rw [followedBy_of_unmatched _ hnone, targetsOf, if_pos hempty]
    exact h.unnamed e' he hempty
  · rw [followedBy_target hnone h.unconditional he hempty fun e'' he'' hlabel =>
      h.keys e'' he'' e' he (congrArg parseAcceleratorKey hlabel)]
    exact h.first e' he hempty

theorem follows_of_onlyEdge (h : OnlyEdgeHolds (g.outgoingEdges node.id) context) :
    FollowsEach g node context := by
  obtain ⟨b, hb, hall, hconditional, hholds⟩ := h
  intro e he answer hanswer
  obtain rfl := hall e he
  obtain ⟨label', -, hfollowed, -⟩ :=
    followed_of_mem context (mem_gateChoices.mpr ⟨e, he, rfl⟩) hanswer
  have hmatching : e ∈ matching (g.outgoingEdges node.id) context :=
    List.mem_filter.mpr ⟨hb, by rw [hconditional, hholds]; rfl⟩
  cases hbest : bestByWeightThenLexical (matching (g.outgoingEdges node.id) context) with
  | none =>
    rw [bestByWeightThenLexical_eq_none.mp hbest] at hmatching
    exact absurd hmatching List.not_mem_nil
  | some b =>
    have hmem := List.mem_of_mem_filter (bestByWeightThenLexical_mem hbest)
    rw [hfollowed, followedBy_of_matching label' hbest, hall b hmem]

end Routes

end Keys

section Demo

open Py.Ascii

def yesGate : Node := { id := "gate", shape := "hexagon" }

def yesEdges : List Edge :=
  [{ fromNode := "gate", toNode := "ship", label := "[Y] Yes" },
    { fromNode := "gate", toNode := "wait", label := "[Y] Yes, later" }]

def yesGraph : Graph :=
  Graph.ofNodes [yesGate, { id := "ship" }, { id := "wait" }] yesEdges

end Demo

end DotRunner
