import DotRunner.Dot.WellFormed

/-!
# Attributes of nodes

What a statement, an edge and the end of a subgraph do to the attributes of a
node, fields and table alike.
-/

namespace DotRunner
namespace Dot

open Py

/-- What a node has of its own before anything is said of it. -/
def blankAttr (id key : String) : Option Value :=
  if key = "label" then some (.str id)
  else if key = "shape" then some (.str "box")
  else if key = "type" then some (.str "")
  else if key = "prompt" then some (.str "")
  else none

/-- The attributes of `id`, those of a blank node where it is not there yet. -/
def ParseContext.attr? (ctx : ParseContext) (id key : String) : Option Value :=
  match ctx.nodes.get? id with
  | some node => node.attr? key
  | none => blankAttr id key

/-- What a node that an edge mentions first takes from the defaults. -/
def implied (key : String) (defaults : Record) : Option Value :=
  if key = "label" then (defaults.get? key).filter Value.truthy else defaults.get? key

section Written

variable [Runtime]

/-- A label, a type or a prompt that is left out because it is empty, and the
default shape unless the statement has it. -/
def isBlank (key : String) (explicit : Record) (v : Value) : Bool :=
  if key = "label" ∨ key = "type" ∨ key = "prompt" then v.toStr == ""
  else key == "shape" && v.toStr == "box" && !explicit.contains "shape"

/-- A field holds the text of its value. -/
def shown (key : String) (v : Value) : Value := if key ∈ nodeFields then .str v.toStr else v

/-- What a node statement writes: `merged` are the defaults with the explicit
attributes over them. -/
def written (key : String) (merged explicit : Record) : Option Value :=
  ((merged.get? key).filter fun v => !isBlank key explicit v).map (shown key)

end Written

/-! ## Lookups -/

theorem get?_withoutFields (attrs : Record) {key : String} (h : key ∉ nodeFields) :
    (withoutFields attrs).get? key = attrs.get? key := by
  simp only [nodeFields, List.mem_cons, List.not_mem_nil, or_false, not_or] at h
  obtain ⟨hlabel, hshape, htype, hprompt⟩ := h
  unfold withoutFields
  rw [Dict.get?_erase, if_neg (Ne.symm hprompt), Dict.get?_erase, if_neg (Ne.symm htype),
    Dict.get?_erase, if_neg (Ne.symm hlabel), Dict.get?_erase, if_neg (Ne.symm hshape)]

theorem attr?_of_not_field (node : ParsedNode) {key : String} (h : key ∉ nodeFields) :
    node.attr? key = node.attrs.get? key := by
  simp only [nodeFields, List.mem_cons, List.not_mem_nil, or_false, not_or] at h
  obtain ⟨hlabel, hshape, htype, hprompt⟩ := h
  unfold ParsedNode.attr?
  rw [if_neg hlabel, if_neg hshape, if_neg htype, if_neg hprompt]

theorem blankAttr_of_not_field (id : String) {key : String} (h : key ∉ nodeFields) :
    blankAttr id key = none := by
  simp only [nodeFields, List.mem_cons, List.not_mem_nil, or_false, not_or] at h
  obtain ⟨hlabel, hshape, htype, hprompt⟩ := h
  unfold blankAttr
  rw [if_neg hlabel, if_neg hshape, if_neg htype, if_neg hprompt]

theorem attr?_set_of_ne (ctx : ParseContext) {id id' : String} (node : ParsedNode) (h : id' ≠ id)
    (key : String) :
    ParseContext.attr? { ctx with nodes := ctx.nodes.set id' node } id key = ctx.attr? id key := by
  unfold ParseContext.attr?
  rw [Dict.get?_set_of_ne _ _ h]

theorem attr?_set_self (ctx : ParseContext) (id : String) (node : ParsedNode) (key : String) :
    ParseContext.attr? { ctx with nodes := ctx.nodes.set id node } id key = node.attr? key := by
  unfold ParseContext.attr?
  rw [Dict.get?_set_self]

theorem attr?_congr {ctx ctx' : ParseContext} (h : ctx'.nodes = ctx.nodes) (id key : String) :
    ctx'.attr? id key = ctx.attr? id key := by
  unfold ParseContext.attr?
  rw [h]

theorem hasNode_iff (ctx : ParseContext) (id : String) :
    ctx.hasNode id = true ↔ id ∈ ctx.nodes.keys := ctx.nodes.contains_iff

theorem attr?_of_new {ctx : ParseContext} {id : String} (h : id ∉ ctx.nodes.keys) (key : String) :
    ctx.attr? id key = blankAttr id key := by
  unfold ParseContext.attr?
  rw [(ctx.nodes.get?_eq_none_iff).mpr h]

section Statements

variable [Runtime]

/-! ## A node statement -/

theorem written_of_none {key : String} {merged : Record} (h : merged.get? key = none)
    (explicit : Record) : written key merged explicit = none := by
  rw [written, h]
  rfl

theorem written_of_blank {key : String} {merged explicit : Record} {v : Value}
    (h : merged.get? key = some v) (hb : isBlank key explicit v = true) :
    written key merged explicit = none := by
  rw [written, h, Option.filter_some, hb]
  rfl

theorem written_of_some {key : String} {merged explicit : Record} {v : Value}
    (h : merged.get? key = some v) (hb : isBlank key explicit v = false) :
    written key merged explicit = some (shown key v) := by
  rw [written, h, Option.filter_some, hb]
  rfl

/-- A label, a type and a prompt are written where their text is not empty. -/
theorem written_text {key : String} (hkey : key = "label" ∨ key = "type" ∨ key = "prompt")
    (merged explicit : Record) : written key merged explicit =
      if (textOf merged key "").truthy then some (textOf merged key "") else none := by
  have hfield : key ∈ nodeFields := by
    rcases hkey with rfl | rfl | rfl <;> decide
  cases hget : merged.get? key with
  | none =>
    have htext : textOf merged key "" = .str "" := by
      rw [textOf, Dict.getD, hget]
      rfl
    rw [written_of_none hget, htext]
    rfl
  | some v =>
    have htext : textOf merged key "" = .str v.toStr := by
      rw [textOf, Dict.getD, hget]
      rfl
    have hblank : isBlank key explicit v = (v.toStr == "") := by rw [isBlank, if_pos hkey]
    rw [htext]
    by_cases hv : v.toStr = ""
    · rw [written_of_blank hget (by rw [hblank, hv]; rfl), hv]
      rfl
    · rw [written_of_some hget (by rw [hblank]; simpa using hv), shown, if_pos hfield]
      simp [Value.truthy, hv]

/-- The shape is written unless it is the default shape of no explicit value. -/
theorem written_shape {merged explicit : Record}
    (hsub : explicit.contains "shape" = true → merged.contains "shape" = true) :
    written "shape" merged explicit =
      if (textOf merged "shape" "box").toStr ≠ "box" ∨ explicit.contains "shape" then
        some (textOf merged "shape" "box") else none := by
  cases hget : merged.get? "shape" with
  | none =>
    have htext : textOf merged "shape" "box" = .str "box" := by
      rw [textOf, Dict.getD, hget]
      rfl
    have hexplicit : explicit.contains "shape" ≠ true := fun h => by
      have hmerged := hsub h
      rw [Dict.contains, hget] at hmerged
      cases hmerged
    rw [written_of_none hget, htext, if_neg]
    rintro (hbox | h)
    · exact hbox rfl
    · exact hexplicit h
  | some v =>
    have htext : textOf merged "shape" "box" = .str v.toStr := by
      rw [textOf, Dict.getD, hget]
      rfl
    have hblank : isBlank "shape" explicit v = (v.toStr == "box" && !explicit.contains "shape") := by
      simp [isBlank]
    rw [htext]
    by_cases hw : (Value.str v.toStr).toStr ≠ "box" ∨ explicit.contains "shape" = true
    · rw [if_pos hw, written_of_some hget]
      · rfl
      · rw [hblank]
        rcases hw with hbox | hc
        · have hne : v.toStr ≠ "box" := hbox
          simp [hne]
        · simp [hc]
    · rw [if_neg hw, written_of_blank hget]
      rw [not_or, not_not] at hw
      have hbox : v.toStr = "box" := hw.1
      rw [hblank, hbox]
      simpa using hw.2

theorem written_attr {key : String} (h : key ∉ nodeFields) (merged explicit : Record) :
    written key merged explicit = merged.get? key := by
  simp only [nodeFields, List.mem_cons, List.not_mem_nil, or_false, not_or] at h
  obtain ⟨hlabel, hshape, htype, hprompt⟩ := h
  have hblank : ∀ v, isBlank key explicit v = false := fun v => by
    simp [isBlank, hlabel, hshape, htype, hprompt]
  have hshown : shown key = id := by
    funext v
    simp [shown, nodeFields, hlabel, hshape, htype, hprompt]
  cases hget : merged.get? key with
  | none => exact written_of_none hget explicit
  | some v => rw [written_of_some hget (hblank v), hshown, id]

omit [Runtime] in
theorem contains_update_left {d explicit : Record} (h : explicit.contains "shape" = true) :
    (d.update explicit).contains "shape" = true := by
  rw [Dict.contains_iff] at h ⊢
  exact (d.mem_keys_update explicit _).mpr (.inr h)

omit [Runtime] in
theorem or_eq_ite {α : Type} (p : Prop) [Decidable p] (a b : α) :
    (if p then some a else none).or (some b) = some (if p then a else b) := by
  by_cases h : p
  · rw [if_pos h, if_pos h]
    rfl
  · rw [if_neg h, if_neg h]
    rfl

theorem text_or_empty (attrs : Record) (key : String) :
    (if (textOf attrs key "").truthy then textOf attrs key "" else .str "") = textOf attrs key "" := by
  by_cases h : (textOf attrs key "").truthy = true
  · rw [if_pos h]
  · rw [if_neg h]
    rw [textOf, Value.truthy, bne_iff_ne, not_not] at h
    exact congrArg Value.str h.symm

theorem shape_or_box (attrs : Record) (p : Prop) [Decidable p] :
    (if (textOf attrs "shape" "box").toStr ≠ "box" ∨ p then textOf attrs "shape" "box"
      else .str "box") = textOf attrs "shape" "box" := by
  by_cases h : (textOf attrs "shape" "box").toStr ≠ "box" ∨ p
  · rw [if_pos h]
  · rw [if_neg h]
    rw [not_or, not_not] at h
    exact congrArg Value.str h.1.symm

theorem attr?_newNode (id : String) (d explicit : Record) (key : String) :
    (newNode id (textOf (d.update explicit) "label" "") (textOf (d.update explicit) "shape" "box")
      (textOf (d.update explicit) "type" "") (textOf (d.update explicit) "prompt" "")
      (withoutFields (d.update explicit))).attr? key =
      (written key (d.update explicit) explicit).or (blankAttr id key) := by
  by_cases hfield : key ∈ nodeFields
  · simp only [nodeFields, List.mem_cons, List.not_mem_nil, or_false] at hfield
    rcases hfield with rfl | rfl | rfl | rfl
    · rw [written_text (.inl rfl)]
      exact (or_eq_ite _ _ _).symm
    · rw [written_shape contains_update_left]
      exact (congrArg some (shape_or_box _ _).symm).trans (or_eq_ite _ _ _).symm
    · rw [written_text (.inr (.inl rfl))]
      exact (congrArg some (text_or_empty _ _).symm).trans (or_eq_ite _ _ _).symm
    · rw [written_text (.inr (.inr rfl))]
      exact (congrArg some (text_or_empty _ _).symm).trans (or_eq_ite _ _ _).symm
  · rw [attr?_of_not_field _ hfield, blankAttr_of_not_field _ hfield, written_attr hfield,
      Option.or_none]
    exact get?_withoutFields _ hfield

omit [Runtime] in
/-- The defaults are in the table already when they are applied once more. -/
theorem defaults_again (attrs d explicit : Record) :
    (d.entries.filter fun p => !nodeFields.contains p.1 &&
      !(attrs.update (withoutFields (d.update explicit))).contains p.1) = [] := by
  refine List.filter_eq_nil_iff.mpr fun p hp h => ?_
  rw [Bool.and_eq_true, Bool.not_eq_true', Bool.not_eq_true'] at h
  obtain ⟨hfield, hcontains⟩ := h
  have hnot : p.1 ∉ nodeFields := fun hmem => by
    rw [List.contains_iff_mem.mpr hmem] at hfield
    cases hfield
  have hdefault : d.get? p.1 = some p.2 := (d.get?_eq_some_iff).mpr hp
  rw [Dict.contains, Dict.get?_update, get?_withoutFields _ hnot, Dict.get?_update, hdefault] at hcontains
  cases hx : explicit.get? p.1 with
  | none =>
    rw [hx] at hcontains
    cases hcontains
  | some v =>
    rw [hx] at hcontains
    cases hcontains

theorem attr?_updateNode (node : ParsedNode) (d explicit : Record) (key : String) :
    (updateNode node d explicit).attr? key =
      (written key (d.update explicit) explicit).or (node.attr? key) := by
  by_cases hfield : key ∈ nodeFields
  · simp only [nodeFields, List.mem_cons, List.not_mem_nil, or_false] at hfield
    rcases hfield with rfl | rfl | rfl | rfl
    · rw [written_text (.inl rfl)]
      exact (or_eq_ite _ _ _).symm
    · rw [written_shape contains_update_left]
      exact (or_eq_ite _ _ _).symm
    · rw [written_text (.inr (.inl rfl))]
      exact (or_eq_ite _ _ _).symm
    · rw [written_text (.inr (.inr rfl))]
      exact (or_eq_ite _ _ _).symm
  · rw [attr?_of_not_field _ hfield, attr?_of_not_field _ hfield, written_attr hfield]
    unfold updateNode
    dsimp only
    rw [defaults_again]
    show (node.attrs.update _).get? key = _
    rw [Dict.get?_update, get?_withoutFields _ hfield]

/-- What a node statement leaves of the attributes of its node. -/
theorem attr?_applyNode (ctx : ParseContext) (id : String) (explicit : Record) (key : String) :
    (ctx.applyNode id explicit).attr? id key =
      (written key (ctx.nodeDefaults.update explicit) explicit).or (ctx.attr? id key) := by
  unfold ParseContext.applyNode
  cases hget : ctx.nodes.get? id with
  | some node =>
    have hold : ctx.attr? id key = node.attr? key := by
      unfold ParseContext.attr?
      rw [hget]
    dsimp only
    rw [attr?_set_self, hold]
    exact attr?_updateNode node ctx.nodeDefaults explicit key
  | none =>
    have hold : ctx.attr? id key = blankAttr id key := by
      unfold ParseContext.attr?
      rw [hget]
    dsimp only
    rw [attr?_set_self, hold]
    exact attr?_newNode id ctx.nodeDefaults explicit key

theorem attr?_applyNode_of_ne (ctx : ParseContext) {id id' : String} (h : id ≠ id')
    (explicit : Record) (key : String) :
    (ctx.applyNode id explicit).attr? id' key = ctx.attr? id' key := by
  unfold ParseContext.applyNode
  cases ctx.nodes.get? id with
  | some node => exact attr?_set_of_ne _ _ h key
  | none => exact attr?_set_of_ne _ _ h key

/-! ## The ends of an edge -/

omit [Runtime] in
theorem attr?_ensureNode (ctx : ParseContext) (id id' key : String) :
    (ctx.ensureNode id).attr? id' key =
      if id' = id ∧ id ∉ ctx.nodes.keys then
        (implied key ctx.nodeDefaults).or (blankAttr id key) else ctx.attr? id' key := by
  unfold ParseContext.ensureNode
  by_cases hold : id ∈ ctx.nodes.keys
  · rw [if_pos ((hasNode_iff ctx id).mpr hold), if_neg fun h => h.2 hold]
  · rw [if_neg fun h => hold ((hasNode_iff ctx id).mp h)]
    by_cases hid : id' = id
    · subst hid
      rw [if_pos ⟨rfl, hold⟩, attr?_set_self]
      by_cases hfield : key ∈ nodeFields
      · simp only [nodeFields, List.mem_cons, List.not_mem_nil, or_false] at hfield
        rcases hfield with rfl | rfl | rfl | rfl
        · show some (if _ then _ else _) = _
          rw [Dict.getD, implied, if_pos rfl]
          cases ctx.nodeDefaults.get? "label" with
          | none => rfl
          | some v => cases hv : v.truthy <;> simp [hv, blankAttr, Option.filter_some]
        · show some (ctx.nodeDefaults.getD "shape" _) = (ctx.nodeDefaults.get? "shape").or _
          rw [Dict.getD]
          cases ctx.nodeDefaults.get? "shape" <;> rfl
        · show some (ctx.nodeDefaults.getD "type" _) = (ctx.nodeDefaults.get? "type").or _
          rw [Dict.getD]
          cases ctx.nodeDefaults.get? "type" <;> rfl
        · show some (ctx.nodeDefaults.getD "prompt" _) = (ctx.nodeDefaults.get? "prompt").or _
          rw [Dict.getD]
          cases ctx.nodeDefaults.get? "prompt" <;> rfl
      · rw [attr?_of_not_field _ hfield, blankAttr_of_not_field _ hfield, Option.or_none]
        have hlabel : key ≠ "label" := fun h => hfield (by rw [h]; decide)
        rw [implied, if_neg hlabel]
        exact get?_withoutFields _ hfield
    · rw [if_neg fun h => hid h.1]
      exact attr?_set_of_ne _ _ (Ne.symm hid) key

omit [Runtime] in
theorem nodeDefaults_ensureNode (ctx : ParseContext) (id : String) :
    (ctx.ensureNode id).nodeDefaults = ctx.nodeDefaults := by
  unfold ParseContext.ensureNode
  split <;> rfl

theorem attr?_addEdge {ctx ctx' : ParseContext} {fromId toId : String} {attrs : Record}
    (h : ctx.addEdge fromId toId attrs = .ok ctx') (id key : String) :
    ctx'.attr? id key = if id ∈ [fromId, toId] ∧ id ∉ ctx.nodes.keys then
      (implied key ctx.nodeDefaults).or (blankAttr id key) else ctx.attr? id key := by
  unfold ParseContext.addEdge at h
  cases he : newEdge fromId toId (ctx.edgeDefaults.update attrs) with
  | error x =>
    rw [he] at h
    cases h
  | ok e =>
    rw [he] at h
    cases h
    show ((ctx.ensureNode fromId).ensureNode toId).attr? id key = _
    rw [attr?_ensureNode, attr?_ensureNode, nodeDefaults_ensureNode]
    simp only [keys_ensureNode, List.mem_cons, List.not_mem_nil, or_false]
    by_cases hto : id = toId
    · subst hto
      by_cases hold : id ∈ ctx.nodes.keys
      · rw [if_neg fun h => h.2 (.inr hold), if_neg fun h => h.2 (h.1 ▸ hold),
          if_neg fun h => h.2 hold]
      · by_cases hfrom : id = fromId
        · subst hfrom
          rw [if_neg fun h => h.2 (.inl rfl), if_pos ⟨rfl, hold⟩, if_pos ⟨.inl rfl, hold⟩]
        · rw [if_pos ⟨rfl, fun h => h.elim hfrom hold⟩, if_pos ⟨.inr rfl, hold⟩]
    · rw [if_neg fun h => hto h.1]
      by_cases hfrom : id = fromId
      · subst hfrom
        by_cases hold : id ∈ ctx.nodes.keys
        · rw [if_neg fun h => h.2 hold, if_neg fun h => h.2 hold]
        · rw [if_pos ⟨rfl, hold⟩, if_pos ⟨.inl rfl, hold⟩]
      · rw [if_neg fun h => hfrom h.1, if_neg fun h => h.1.elim hfrom hto]

theorem nodeDefaults_addEdge {ctx ctx' : ParseContext} {fromId toId : String} {attrs : Record}
    (h : ctx.addEdge fromId toId attrs = .ok ctx') : ctx'.nodeDefaults = ctx.nodeDefaults := by
  unfold ParseContext.addEdge at h
  cases he : newEdge fromId toId (ctx.edgeDefaults.update attrs) with
  | error x =>
    rw [he] at h
    cases h
  | ok e =>
    rw [he] at h
    cases h
    exact (nodeDefaults_ensureNode _ _).trans (nodeDefaults_ensureNode _ _)

/-- The nodes that a chain is the first to mention take the defaults, and no other
node changes. -/
theorem attr?_addChain {ctx ctx' : ParseContext} {first : String} {attrs : Record}
    {rest : List String} (h : ctx.addChain first attrs rest = .ok ctx') (id key : String) :
    ctx'.attr? id key = if id ∈ (Command.chain first rest attrs).ids ∧ id ∉ ctx.nodes.keys then
      (implied key ctx.nodeDefaults).or (blankAttr id key) else ctx.attr? id key := by
  induction rest generalizing ctx first with
  | nil =>
    cases h
    rw [if_neg fun h => nomatch h.1]
  | cons toId rest ih =>
    unfold ParseContext.addChain at h
    cases he : ctx.addEdge first toId attrs with
    | error x =>
      rw [he] at h
      cases h
    | ok ctx₁ =>
      rw [he] at h
      have hrest := ih h
      have hkeys := (addEdge_effect he).keys id
      have hedge := attr?_addEdge he id key
      rw [nodeDefaults_addEdge he] at hrest
      by_cases hold : id ∈ ctx.nodes.keys
      · rw [if_neg fun h => h.2 hold]
        rw [if_neg fun h => h.2 hold] at hedge
        rw [if_neg fun h => h.2 (hkeys.mpr (.inl hold)), hedge] at hrest
        exact hrest
      · by_cases hend : id ∈ [first, toId]
        · have hmem : id ∈ (Command.chain first (toId :: rest) attrs).ids := by
            simp only [List.mem_cons, List.not_mem_nil, or_false] at hend
            rcases hend with rfl | rfl
            · exact List.mem_cons_self
            · exact List.mem_cons_of_mem _ List.mem_cons_self
          rw [if_pos ⟨hmem, hold⟩]
          rw [if_pos ⟨hend, hold⟩] at hedge
          rw [if_neg fun h => h.2 (hkeys.mpr (.inr hend)), hedge] at hrest
          exact hrest
        · rw [if_neg fun h => hend h.1] at hedge
          have hnew : id ∉ ctx₁.nodes.keys := fun hk => (hkeys.mp hk).elim hold hend
          have hiff : id ∈ (Command.chain toId rest attrs).ids ↔
              id ∈ (Command.chain first (toId :: rest) attrs).ids := by
            simp only [List.mem_cons, List.not_mem_nil, or_false, not_or] at hend
            cases rest <;> simp [Command.ids, hend.1, hend.2]
          simp only [hnew, hold, not_false_eq_true, and_true, hiff, hedge] at hrest ⊢
          exact hrest

/-! ## The end of a subgraph -/

/-- Does the end of a subgraph give `id` its class? -/
def ParseContext.Classed (ctx : ParseContext) (before : List String) (id : String) : Prop :=
  id ∈ ctx.nodes.keys ∧ id ∉ before ∧ ctx.subgraphClass ≠ "" ∧
    ((ctx.attr? id "class").getD .none).truthy = false

theorem attr?_closeSubgraph (ctx : ParseContext) (saved : Record) (before : List String)
    (id key : String) :
    (ctx.Classed before id ∧ key = "class" →
      (ctx.closeSubgraph saved before).attr? id key = some (.str ctx.subgraphClass)) ∧
    (¬ (ctx.Classed before id ∧ key = "class") →
      (ctx.closeSubgraph saved before).attr? id key = ctx.attr? id key) := by
  have hget : (ctx.closeSubgraph saved before).nodes.get? id =
      (classify ctx.subgraphClass before ctx.nodes).get? id := rfl
  by_cases hname : ctx.subgraphClass = ""
  · refine ⟨fun h => absurd hname h.1.2.2.1, fun _ => ?_⟩
    unfold ParseContext.attr?
    rw [hget, classify, if_pos hname]
  · rw [classify, if_neg hname, Dict.get?_mapVals] at hget
    cases hnode : ctx.nodes.get? id with
    | none =>
      refine ⟨fun h => absurd h.1.1 ((ctx.nodes.get?_eq_none_iff).mp hnode), fun _ => ?_⟩
      unfold ParseContext.attr?
      rw [hget, hnode]
      rfl
    | some node =>
      have hclass : ctx.attr? id "class" = node.attrs.get? "class" := by
        unfold ParseContext.attr?
        rw [hnode]
        exact attr?_of_not_field node (by decide)
      have hmem : id ∈ ctx.nodes.keys := Dict.mem_keys_of_get? _ hnode
      have hattr : ∀ k, (ctx.closeSubgraph saved before).attr? id k =
          (if before.contains id then node else withClass ctx.subgraphClass node).attr? k := by
        intro k
        unfold ParseContext.attr?
        rw [hget, hnode]
        rfl
      have hold : ∀ k, ctx.attr? id k = node.attr? k := by
        intro k
        unfold ParseContext.attr?
        rw [hnode]
      rw [hattr, hold]
      by_cases hbefore : id ∈ before
      · rw [if_pos (List.contains_iff_mem.mpr hbefore)]
        exact ⟨fun h => absurd hbefore h.1.2.1, fun _ => rfl⟩
      · rw [if_neg fun h => hbefore (List.contains_iff_mem.mp h), withClass]
        by_cases htruthy : (node.attrs.getD "class" .none).truthy = true
        · rw [if_pos htruthy]
          refine ⟨fun h => ?_, fun _ => rfl⟩
          have hfalse := h.1.2.2.2
          rw [hclass] at hfalse
          rw [Dict.getD, hfalse] at htruthy
          cases htruthy
        · rw [if_neg htruthy]
          have hclassed : ctx.Classed before id := by
            refine ⟨hmem, hbefore, hname, ?_⟩
            rw [hclass]
            exact Bool.eq_false_iff.mpr htruthy
          refine ⟨?_, fun h => ?_⟩
          · rintro ⟨-, rfl⟩
            rw [attr?_of_not_field _ (by decide)]
            exact Dict.get?_set_self _ _ _
          · have hkey : key ≠ "class" := fun hk => h ⟨hclassed, hk⟩
            unfold ParsedNode.attr?
            rw [show (ParsedNode.attrs _).get? key = _ from Dict.get?_set_of_ne _ _ (Ne.symm hkey)]

end Statements

end Dot
end DotRunner
