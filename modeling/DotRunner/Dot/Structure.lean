import DotRunner.Dot.QuotedValues

/-!
# Graphs of one structure

Sources that differ in quoted attribute values are accepted alike and parse to graphs
with the same nodes, edges and keys, where the parser reads the values that differ
for their text alone.
-/

namespace DotRunner
namespace Dot

open Py

/-- The same node but for the values of its attributes. -/
def NodeAlike (n n' : ParsedNode) : Prop := RecordAlike n.attrs n'.attrs

/-- The same edge but for the values of its attributes. -/
structure EdgeAlike (e e' : ParsedEdge) : Prop where
  fromNode : e'.fromNode = e.fromNode
  toNode : e'.toNode = e.toNode
  attrs : RecordAlike e.attrs e'.attrs

section Structure

variable [Runtime]

/-- The class a label gives. -/
def classOf (label : String) : String := if label = "" then "" else deriveClass label

/-- The same graph so far, but for the values of attributes. -/
structure ContextAlike (ctx ctx' : ParseContext) : Prop where
  nodes : Dict.Pointwise NodeAlike ctx.nodes ctx'.nodes
  edges : List.Forall₂ EdgeAlike ctx.edges ctx'.edges
  graphAttrs : Dict.Pointwise (fun _ _ => True) ctx.graphAttrs ctx'.graphAttrs
  graphFields : RecordAlike ctx.graphFields ctx'.graphFields
  nodeDefaults : RecordAlike ctx.nodeDefaults ctx'.nodeDefaults
  edgeDefaults : RecordAlike ctx.edgeDefaults ctx'.edgeDefaults
  params : ctx'.params = ctx.params
  /-- the weight in force is read in both or in neither -/
  weight : (edgeWeight ctx'.edgeDefaults).isOk = (edgeWeight ctx.edgeDefaults).isOk
  /-- a subgraph has a class in both or in neither -/
  label : ctx'.subgraphClass = "" ↔ ctx.subgraphClass = ""

/-- A graph attribute that is read alike: a duration that resolves in both or in
neither, a label that gives a class in both or in neither. -/
structure GraphTame (params : Dict String String) (key : String) (v v' : Value) : Prop where
  duration : key = "max_pipeline_duration" →
    (resolveGraphDuration params key v').isOk = (resolveGraphDuration params key v).isOk
  label : key = "label" → (classOf v'.toStr = "" ↔ classOf v.toStr = "")

/-- Two statements whose values are read alike where more than their text is read. -/
def CommandTame (params : Dict String String) : Command → Command → Prop
  | .graphAttrs l, .graphAttrs l' => List.Forall₂ (fun p p' => GraphTame params p.1 p.2 p'.2) l l'
  | .graphAttr key v, .graphAttr _ v' => GraphTame params key v v'
  | .edgeDefaults d, .edgeDefaults d' => (edgeWeight d').isOk = (edgeWeight d).isOk
  | .chain _ _ d, .chain _ _ d' => (edgeWeight d').isOk = (edgeWeight d).isOk
  | _, _ => True

/-! ## Nodes -/

omit [Runtime] in
theorem withoutFields_alike {d d' : Record} (h : RecordAlike d d') :
    RecordAlike (withoutFields d) (withoutFields d') :=
  (((h.erase "shape").erase "label").erase "type").erase "prompt"

theorem applyNode_alike {ctx ctx' : ParseContext} (h : ContextAlike ctx ctx') (id : String)
    {d d' : Record} (hd : RecordAlike d d') :
    ContextAlike (ctx.applyNode id d) (ctx'.applyNode id d') := by
  have hmerged : RecordAlike (withoutFields (ctx.nodeDefaults.update d))
      (withoutFields (ctx'.nodeDefaults.update d')) :=
    withoutFields_alike (h.nodeDefaults.update hd)
  have hget := h.nodes.get? id
  unfold ParseContext.applyNode
  generalize ctx.nodes.get? id = x at hget
  generalize ctx'.nodes.get? id = x' at hget
  cases hget with
  | none => exact { h with nodes := h.nodes.set id hmerged }
  | some hnode =>
    refine { h with nodes := h.nodes.set id ?_ }
    unfold NodeAlike updateNode
    dsimp only
    rw [defaults_again, defaults_again]
    exact Dict.Pointwise.update hnode hmerged

omit [Runtime] in
theorem contains_alike {α : Type} {R : α → α → Prop} {d d' : Dict String α} (h : Dict.Pointwise R d d')
    (k : String) : d'.contains k = d.contains k := by
  have hget := h.get? k
  unfold Dict.contains
  generalize d.get? k = x at hget
  generalize d'.get? k = x' at hget
  cases hget <;> rfl

theorem ensureNode_alike {ctx ctx' : ParseContext} (h : ContextAlike ctx ctx') (id : String) :
    ContextAlike (ctx.ensureNode id) (ctx'.ensureNode id) := by
  unfold ParseContext.ensureNode ParseContext.hasNode
  rw [contains_alike h.nodes]
  by_cases hid : ctx.nodes.contains id = true
  · rw [if_pos hid, if_pos hid]
    exact h
  · rw [if_neg hid, if_neg hid]
    exact { h with nodes := h.nodes.set id (withoutFields_alike h.nodeDefaults) }

/-! ## Edges -/

omit [Runtime] in
theorem get?_alike {d d' : Record} (h : RecordAlike d d') (k : String) :
    (d.get? k = none ∧ d'.get? k = none) ∨ ∃ v v', d.get? k = some v ∧ d'.get? k = some v' := by
  have hget := h.get? k
  generalize d.get? k = x at hget
  generalize d'.get? k = x' at hget
  cases hget with
  | none => exact .inl ⟨rfl, rfl⟩
  | some _ => exact .inr ⟨_, _, rfl, rfl⟩

theorem edgeWeight_congr {d d' : Record} (h : d'.get? "weight" = d.get? "weight") :
    edgeWeight d' = edgeWeight d := by
  unfold edgeWeight Dict.getD
  rw [h]

/-- The weight of an edge is its own, or the one in force. -/
theorem edgeWeight_update (d e : Record) : edgeWeight (d.update e) =
    if (e.get? "weight").isSome then edgeWeight e else edgeWeight d := by
  cases he : e.get? "weight" with
  | none =>
    rw [if_neg (by decide)]
    refine edgeWeight_congr ?_
    rw [Dict.get?_update, he]
    rfl
  | some v =>
    rw [if_pos Option.isSome_some]
    refine edgeWeight_congr ?_
    rw [Dict.get?_update, he]
    rfl

theorem edgeWeight_alike {d d' e e' : Record} (he : RecordAlike e e')
    (hd : (edgeWeight d').isOk = (edgeWeight d).isOk)
    (hweight : (edgeWeight e').isOk = (edgeWeight e).isOk) :
    (edgeWeight (d'.update e')).isOk = (edgeWeight (d.update e)).isOk := by
  rw [edgeWeight_update, edgeWeight_update]
  rcases get?_alike he "weight" with ⟨hn, hn'⟩ | ⟨v, v', hs, hs'⟩
  · rw [hn, hn', if_neg (by decide), if_neg (by decide)]
    exact hd
  · rw [hs, hs', if_pos Option.isSome_some, if_pos Option.isSome_some]
    exact hweight

theorem newEdge_alike (fromId toId : String) {d d' : Record} (h : RecordAlike d d')
    (hweight : (edgeWeight d').isOk = (edgeWeight d).isOk) :
    EndAlike EdgeAlike (newEdge fromId toId d) (newEdge fromId toId d') := by
  unfold newEdge
  cases hw : edgeWeight d with
  | error e =>
    cases hw' : edgeWeight d' with
    | error e' => exact .error e e'
    | ok w' =>
      rw [hw, hw'] at hweight
      cases hweight
  | ok w =>
    cases hw' : edgeWeight d' with
    | error e' =>
      rw [hw, hw'] at hweight
      cases hweight
    | ok w' => exact .ok ⟨rfl, rfl, ((h.erase "label").erase "condition").erase "weight"⟩

theorem addEdge_alike {ctx ctx' : ParseContext} (h : ContextAlike ctx ctx') (fromId toId : String)
    {d d' : Record} (hd : RecordAlike d d') (hweight : (edgeWeight d').isOk = (edgeWeight d).isOk) :
    EndAlike ContextAlike (ctx.addEdge fromId toId d) (ctx'.addEdge fromId toId d') := by
  have hedge := newEdge_alike fromId toId (h.edgeDefaults.update hd)
    (edgeWeight_alike hd h.weight hweight)
  have hends := ensureNode_alike (ensureNode_alike h fromId) toId
  unfold ParseContext.addEdge
  generalize newEdge fromId toId (ctx.edgeDefaults.update d) = x at hedge
  generalize newEdge fromId toId (ctx'.edgeDefaults.update d') = x' at hedge
  cases hedge with
  | error e e' => exact .error e e'
  | ok he => exact .ok { hends with edges := List.rel_append hends.edges (.cons he .nil) }

theorem addChain_alike {ctx ctx' : ParseContext} (h : ContextAlike ctx ctx') (first : String)
    (rest : List String) {d d' : Record} (hd : RecordAlike d d')
    (hweight : (edgeWeight d').isOk = (edgeWeight d).isOk) :
    EndAlike ContextAlike (ctx.addChain first d rest) (ctx'.addChain first d' rest) := by
  induction rest generalizing ctx ctx' first with
  | nil => exact .ok h
  | cons toId rest ih =>
    have hedge := addEdge_alike h first toId hd hweight
    unfold ParseContext.addChain
    generalize ctx.addEdge first toId d = x at hedge
    generalize ctx'.addEdge first toId d' = x' at hedge
    cases hedge with
    | error e e' => exact .error e e'
    | ok he => exact ih he toId

/-! ## The graph -/

theorem subgraphClass_eq (ctx : ParseContext) :
    ctx.subgraphClass = classOf (ctx.graphAttrs.getD "label" "") := rfl

theorem label_alike {ctx ctx' : ParseContext} (h : ContextAlike ctx ctx') (key : String) {s s' : String}
    (hs : key = "label" → (classOf s' = "" ↔ classOf s = "")) :
    classOf ((ctx'.graphAttrs.set key s').getD "label" "") = "" ↔
      classOf ((ctx.graphAttrs.set key s).getD "label" "") = "" := by
  by_cases hkey : key = "label"
  · subst hkey
    rw [Dict.getD, Dict.getD, Dict.get?_set_self, Dict.get?_set_self]
    exact hs rfl
  · rw [Dict.getD, Dict.getD, Dict.get?_set_of_ne _ _ hkey, Dict.get?_set_of_ne _ _ hkey]
    exact h.label

theorem setGraphAttr_alike {ctx ctx' : ParseContext} (h : ContextAlike ctx ctx') (key : String)
    {v v' : Value} (ht : GraphTame ctx.params key v v') :
    EndAlike ContextAlike (ctx.setGraphAttr key v) (ctx'.setGraphAttr key v') := by
  unfold ParseContext.setGraphAttr
  by_cases hgoal : key = "goal"
  · rw [if_pos hgoal, if_pos hgoal]
    exact .ok { h with graphFields := h.graphFields.set _ trivial }
  rw [if_neg hgoal, if_neg hgoal]
  by_cases hretry : key = "default_max_retry" ∨ key = "default_max_retries"
  · rw [if_pos hretry, if_pos hretry]
    exact .ok { h with graphFields := h.graphFields.set _ trivial }
  rw [if_neg hretry, if_neg hretry]
  by_cases hsheet : key = "model_stylesheet"
  · rw [if_pos hsheet, if_pos hsheet]
    exact .ok { h with graphFields := h.graphFields.set _ trivial }
  rw [if_neg hsheet, if_neg hsheet]
  by_cases hduration : key = "max_pipeline_duration"
  · rw [if_pos hduration, if_pos hduration, h.params]
    have hok := ht.duration hduration
    cases hr : resolveGraphDuration ctx.params key v with
    | error e =>
      cases hr' : resolveGraphDuration ctx.params key v' with
      | error e' => exact .error e e'
      | ok d' =>
        rw [hr, hr'] at hok
        cases hok
    | ok d =>
      cases hr' : resolveGraphDuration ctx.params key v' with
      | error e' =>
        rw [hr, hr'] at hok
        cases hok
      | ok d' => exact .ok { h with graphFields := h.graphFields.set _ trivial, params := rfl }
  rw [if_neg hduration, if_neg hduration]
  exact .ok { h with graphAttrs := h.graphAttrs.set _ trivial, label := label_alike h key ht.label }

theorem params_setGraphAttr {ctx ctx' : ParseContext} {key : String} {v : Value}
    (h : ctx.setGraphAttr key v = .ok ctx') : ctx'.params = ctx.params :=
  (setGraphAttr_effect h).params

theorem setGraphAttrs_alike {ctx ctx' : ParseContext} (h : ContextAlike ctx ctx')
    {l l' : List (String × Value)} (hl : KeysAlike l l')
    (ht : List.Forall₂ (fun p p' => GraphTame ctx.params p.1 p.2 p'.2) l l') :
    EndAlike ContextAlike (ctx.setGraphAttrs l) (ctx'.setGraphAttrs l') := by
  induction hl generalizing ctx ctx' with
  | nil => exact .ok h
  | @cons p p' l l' hp _ ih =>
    obtain ⟨key, v⟩ := p
    obtain ⟨key', v'⟩ := p'
    obtain ⟨hkey, -⟩ := hp
    dsimp only at hkey
    subst hkey
    cases ht with
    | cons htame hrest =>
      have hset := setGraphAttr_alike h key' htame
      unfold ParseContext.setGraphAttrs
      cases hs : ctx.setGraphAttr key' v with
      | error e =>
        rw [hs] at hset
        generalize ctx'.setGraphAttr key' v' = x' at hset
        cases hset with
        | error _ e' => exact .error e e'
      | ok ctx₁ =>
        rw [hs] at hset
        generalize ctx'.setGraphAttr key' v' = x' at hset
        cases hset with
        | ok h₁ =>
          rw [← params_setGraphAttr hs] at hrest
          exact ih h₁ hrest

/-! ## The end of a subgraph -/

omit [Runtime] in
/-- A node that has a class keeps its keys. -/
theorem keys_withClass (name : String) (n : ParsedNode) :
    (withClass name n).attrs.keys = (n.attrs.set "class" (.str name)).keys := by
  unfold withClass
  by_cases htruthy : (n.attrs.getD "class" .none).truthy = true
  · rw [if_pos htruthy]
    have hmem : "class" ∈ n.attrs.keys := by
      cases hget : n.attrs.get? "class" with
      | none =>
        rw [Dict.getD, hget] at htruthy
        cases htruthy
      | some v => exact Dict.mem_keys_of_get? _ hget
    exact (Dict.keys_set_of_mem hmem _).symm
  · rw [if_neg htruthy]

omit [Runtime] in
theorem withClass_alike (name name' : String) {n n' : ParsedNode} (h : NodeAlike n n') :
    NodeAlike (withClass name n) (withClass name' n') := by
  have hset : RecordAlike (n.attrs.set "class" (.str name)) (n'.attrs.set "class" (.str name')) :=
    Dict.Pointwise.set h "class" trivial
  refine Dict.pointwise_true_iff.mpr ?_
  rw [keys_withClass, keys_withClass]
  exact hset.keys

theorem subgraphClass_closeSubgraph (ctx : ParseContext) (saved : Record) (before : List String) :
    (ctx.closeSubgraph saved before).subgraphClass = "" := by
  have herased : (ctx.graphAttrs.erase "label").getD "label" "" = "" := by
    rw [Dict.getD, Dict.get?_erase, if_pos rfl]
    rfl
  show classOf ((ctx.graphAttrs.erase "label").getD "label" "") = ""
  rw [herased]
  rfl

theorem closeSubgraph_alike {ctx ctx' : ParseContext} (h : ContextAlike ctx ctx') {saved saved' : Record}
    (hsaved : RecordAlike saved saved') (before : List String) :
    ContextAlike (ctx.closeSubgraph saved before) (ctx'.closeSubgraph saved' before) := by
  have hnodes : Dict.Pointwise NodeAlike (classify ctx.subgraphClass before ctx.nodes)
      (classify ctx'.subgraphClass before ctx'.nodes) := by
    unfold classify
    by_cases hname : ctx.subgraphClass = ""
    · rw [if_pos hname, if_pos (h.label.mpr hname)]
      exact h.nodes
    · rw [if_neg hname, if_neg fun h' => hname (h.label.mp h')]
      refine h.nodes.mapVals fun id n n' hn => ?_
      by_cases hbefore : before.contains id = true
      · rw [if_pos hbefore, if_pos hbefore]
        exact hn
      · rw [if_neg hbefore, if_neg hbefore]
        exact withClass_alike _ _ hn
  exact { h with
    nodes := hnodes
    graphAttrs := h.graphAttrs.erase "label"
    nodeDefaults := hsaved
    label := ⟨fun _ => subgraphClass_closeSubgraph _ _ _, fun _ => subgraphClass_closeSubgraph _ _ _⟩ }

/-! ## A run -/

/-- The subgraphs that are open, alike. -/
def FrameAlike (f f' : Frame) : Prop :=
  RecordAlike f.savedDefaults f'.savedDefaults ∧ f'.nodesBefore = f.nodesBefore

structure MachineAlike (params : Dict String String) (m m' : Machine) : Prop where
  ctx : ContextAlike m.ctx m'.ctx
  frames : List.Forall₂ FrameAlike m.frames m'.frames
  params : m.ctx.params = params

theorem run_alike {params : Dict String String} {m m' : Machine} (h : MachineAlike params m m')
    {c c' : Command} (hc : CommandAlike c c') (ht : CommandTame params c c') :
    EndAlike (MachineAlike params) (m.run c) (m'.run c') := by
  have hstep : ∀ {x x' : Except PyExc ParseContext}, EndAlike ContextAlike x x' →
      (∀ ctx, x = .ok ctx → ctx.params = m.ctx.params) →
      EndAlike (MachineAlike params) (x >>= fun ctx => pure { m with ctx := ctx })
        (x' >>= fun ctx => pure { m' with ctx := ctx }) := by
    intro x x' hx hp
    cases hx with
    | error e e' => exact .error e e'
    | ok hctx => exact .ok ⟨hctx, h.frames, (hp _ rfl).trans h.params⟩
  cases hc with
  | graphAttrs hl =>
    have hset := setGraphAttrs_alike h.ctx hl (by rw [h.params]; exact ht)
    exact hstep hset fun ctx hok => (setGraphAttrs_effect hok).params
  | nodeDefaults hd =>
    exact .ok ⟨{ h.ctx with nodeDefaults := h.ctx.nodeDefaults.update hd }, h.frames, h.params⟩
  | edgeDefaults hd =>
    exact .ok ⟨{ h.ctx with
      edgeDefaults := h.ctx.edgeDefaults.update hd
      weight := edgeWeight_alike hd h.ctx.weight ht }, h.frames, h.params⟩
  | @chain first rest d d' hd =>
    exact hstep (addChain_alike h.ctx first rest hd ht) fun ctx hok => (addChain_effect hok).params
  | @graphAttr key v v' =>
    have hset := setGraphAttr_alike h.ctx key (by rw [h.params]; exact ht)
    exact hstep hset fun ctx hok => params_setGraphAttr hok
  | truncated => exact .error _ _
  | @node id d d' hd =>
    exact .ok ⟨applyNode_alike h.ctx id hd, h.frames, ((applyNode_effect m.ctx id d).params).trans h.params⟩
  | enter =>
    exact .ok ⟨h.ctx, .cons ⟨h.ctx.nodeDefaults, h.ctx.nodes.keys⟩ h.frames, h.params⟩
  | leave =>
    have hframes := h.frames
    unfold Machine.run
    dsimp only
    cases hm : m.frames with
    | nil =>
      rw [hm] at hframes
      have hm' : m'.frames = [] := by
        cases hm' : m'.frames with
        | nil => rfl
        | cons f frames =>
          rw [hm'] at hframes
          cases hframes
      rw [hm']
      exact .ok h
    | cons f frames =>
      cases hm' : m'.frames with
      | nil =>
        rw [hm, hm'] at hframes
        cases hframes
      | cons f' frames' =>
        rw [hm, hm'] at hframes
        cases hframes with
        | cons hf hrest =>
          dsimp only
          rw [hf.2]
          exact .ok ⟨closeSubgraph_alike h.ctx hf.1 _, hrest, h.params⟩

theorem runAll_alike {params : Dict String String} {m m' : Machine} (h : MachineAlike params m m')
    {cs cs' : List Command} (hc : List.Forall₂ CommandAlike cs cs')
    (ht : List.Forall₂ (CommandTame params) cs cs') :
    EndAlike (MachineAlike params) (m.runAll cs) (m'.runAll cs') := by
  induction hc generalizing m m' with
  | nil => exact .ok h
  | cons hc _ ih =>
    cases ht with
    | cons ht htrest =>
      have hrun := run_alike h hc ht
      unfold Machine.runAll
      generalize m.run _ = x at hrun
      generalize m'.run _ = x' at hrun
      cases hrun with
      | error e e' => exact .error e e'
      | ok hm => exact ih hm htrest

/-! ## The whole source -/

/-- The tokens of the body of a source. -/
def sourceTokens (source : String) : Except PyExc (List String) := do
  let (_, body) ← digraphOf (stripComments source.toList)
  tokenize body

/-- The same graph but for the values of attributes. -/
structure GraphAlike (g g' : ParsedGraph) : Prop where
  name : g'.name = g.name
  nodes : Dict.Pointwise NodeAlike g.nodes g'.nodes
  edges : List.Forall₂ EdgeAlike g.edges g'.edges
  graphAttrs : g'.graphAttrs.keys = g.graphAttrs.keys

theorem parseBody_eq_runAll {tokens : List String} (body : List Char) (params : Dict String String)
    (h : tokenize body = .ok tokens) : parseBody body { params := params } =
      ((Machine.mk { params := params } []).runAll (statements tokens)).map Machine.ctx := by
  unfold parseBody
  rw [h]
  show parseTokenList (tokens.length + 1) tokens { params := params } = _
  rw [statements, runAll_commands]
  cases parseTokenList (tokens.length + 1) tokens { params := params } <;> rfl

end Structure

section Demo

open Py.Ascii

theorem alike_append {u r r' : List Char} (hquote : '"' ∉ u) (hslash : '/' ∉ u)
    (h : Alike r r') : Alike (u ++ r) (u ++ r') := by
  induction u with
  | nil => exact h
  | cons c u ih =>
    simp only [List.mem_cons, not_or] at hquote hslash
    exact .char (Ne.symm hquote.1) (fun hc => hslash.1 hc.1.symm) (ih hquote.2 hslash.2)

theorem quotedBody_of_plain {q : List Char} (hquote : '"' ∉ q) (hslash : '\\' ∉ q) :
    QuotedBody q := by
  induction q with
  | nil => exact .nil
  | cons c q ih =>
    simp only [List.mem_cons, not_or] at hquote hslash
    exact .char (Ne.symm hquote.1) (Ne.symm hslash.1) (ih hquote.2 hslash.2)

/-- A source with one quoted value. -/
def sourceWith (before after value : String) : String :=
  String.ofList (before.toList ++ '"' :: (value.toList ++ '"' :: after.toList))

theorem sourceWith_alike {before value value' : String} (after : String)
    (hb : '"' ∉ before.toList ∧ '/' ∉ before.toList) (h : '"' ∉ value.toList ∧ '\\' ∉ value.toList)
    (h' : '"' ∉ value'.toList ∧ '\\' ∉ value'.toList) :
    Alike (sourceWith before after value).toList (sourceWith before after value').toList := by
  unfold sourceWith
  rw [String.toList_ofList, String.toList_ofList]
  exact alike_append hb.1 hb.2
    (.quoted (quotedBody_of_plain h.1 h.2) (quotedBody_of_plain h'.1 h'.2) (.same _))

theorem ascii_quoteLaws : QuoteLaws := ⟨by decide, by decide⟩

/-- One token behind `=` differs. -/
theorem differInValues_one {before after : List String} (t t' : String)
    (hafter : after.head? ≠ some "=") :
    DifferInValues (before ++ "=" :: t :: after) (before ++ "=" :: t' :: after) := by
  induction before with
  | nil =>
    intro i u u' hu hu' hne
    match i with
    | 0 => exact absurd (Option.some.inj (hu.symm.trans hu')) hne
    | 1 =>
      refine ⟨⟨0, rfl, rfl⟩, ?_⟩
      rw [List.head?_eq_getElem?] at hafter
      exact hafter
    | n + 2 => exact absurd (Option.some.inj (hu.symm.trans hu')) hne
  | cons b before ih =>
    intro i u u' hu hu' hne
    cases i with
    | zero => exact absurd (Option.some.inj (hu.symm.trans hu')) hne
    | succ i =>
      obtain ⟨⟨j, hj, heq⟩, hnext⟩ := ih i u u' hu hu' hne
      exact ⟨⟨j + 1, by rw [hj], heq⟩, hnext⟩

end Demo

end Dot
end DotRunner
