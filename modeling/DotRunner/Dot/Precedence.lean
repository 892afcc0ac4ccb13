import DotRunner.Dot.Attributes

/-!
# Explicit attributes and defaults

What the attributes of a node should be is told from what the statements give it and
from the defaults in force where it is first mentioned.  The parser keeps to it
until a statement lets a default over what a node has.
-/

namespace DotRunner
namespace Dot

open Py

/-- What has been said of each node: the attributes given explicitly, the last of
each key, and those it took over at its first mention. -/
structure Intent where
  explicit : String → Record
  inherited : String → Record

namespace Intent

def start : Intent := ⟨fun _ => Dict.empty, fun _ => Dict.empty⟩

/-- What an attribute should be: explicit before inherited before the node's own. -/
def attr? (i : Intent) (id key : String) : Option Value :=
  ((i.explicit id).get? key).or (((i.inherited id).get? key).or (blankAttr id key))

/-- The nodes that are new among `ids` take over the defaults in force. -/
def mention (i : Intent) (ctx : ParseContext) (ids : List String) : Intent :=
  { i with inherited := fun id =>
      if id ∈ ids ∧ id ∉ ctx.nodes.keys then ctx.nodeDefaults else i.inherited id }

def declare (i : Intent) (id : String) (attrs : Record) : Intent :=
  { i with explicit := fun id' =>
      if id' = id then (i.explicit id).update attrs else i.explicit id' }

section Said

variable [Runtime]

/-- The new nodes of a labelled subgraph take over its class, where nothing has
given them one. -/
def classify (i : Intent) (ctx : ParseContext) (before : List String) : Intent :=
  { i with inherited := fun id =>
      if id ∈ ctx.nodes.keys ∧ id ∉ before ∧ ctx.subgraphClass ≠ "" ∧ (i.attr? id "class").isNone then
        (i.inherited id).set "class" (.str ctx.subgraphClass)
      else i.inherited id }

/-- What a command says of the nodes. -/
def after (i : Intent) (m : Machine) : Command → Intent
  | .node id attrs => (i.mention m.ctx [id]).declare id attrs
  | .chain first rest attrs => i.mention m.ctx (Command.chain first rest attrs).ids
  | .leave => match m.frames with
    | [] => i
    | f :: _ => i.classify m.ctx f.nodesBefore
  | _ => i

/-- What the commands say one after the other. -/
def afterAll (i : Intent) (m : Machine) : List Command → Intent
  | [] => i
  | c :: cs => match m.run c with
    | .ok m' => afterAll (i.after m c) m' cs
    | .error _ => i

end Said

end Intent

section Precedence

variable [Runtime]

/-- Every attribute is what it should be; of a field the text counts. -/
def Keeps (i : Intent) (ctx : ParseContext) : Prop :=
  ∀ id ∈ ctx.nodes.keys, ∀ key,
    (ctx.attr? id key).map (shown key) = (i.attr? id key).map (shown key)

/-- The node has this value, a node that is not there yet from its own. -/
def ParseContext.Agrees (ctx : ParseContext) (id key : String) (v : Value) : Prop :=
  (ctx.attr? id key).map (shown key) = some (shown key v)

/-- A node statement that lets no default over what the node has. -/
structure StatementMeets (ctx : ParseContext) (id : String) (attrs : Record) : Prop where
  /-- an empty label, type or prompt is given only where there is none -/
  given : ∀ key v, attrs.get? key = some v → isBlank key attrs v = true → ctx.Agrees id key v
  /-- where the node is there already, a default in force for what the statement does
  not give agrees with it -/
  again : id ∈ ctx.nodes.keys → ∀ key v, ctx.nodeDefaults.get? key = some v →
    attrs.get? key = none → isBlank key attrs v = false → ctx.Agrees id key v
  /-- where it is new, no default is empty that the node has of its own -/
  first : id ∉ ctx.nodes.keys → ∀ key v, ctx.nodeDefaults.get? key = some v →
    attrs.get? key = none → isBlank key attrs v = true → ctx.Agrees id key v

/-- The step on which the parser keeps to what is said. -/
def Machine.Meets (m : Machine) : Command → Prop
  | .node id attrs => StatementMeets m.ctx id attrs
  | .chain first rest attrs => ∀ id ∈ (Command.chain first rest attrs).ids, id ∉ m.ctx.nodes.keys →
    ∀ v, m.ctx.nodeDefaults.get? "label" = some v → v.truthy = false → m.ctx.Agrees id "label" v
  | .leave => ∀ f frames, m.frames = f :: frames → ∀ id, m.ctx.Classed f.nodesBefore id →
    m.ctx.attr? id "class" = none
  | _ => True

/-- Nothing has been said of a node that is not there. -/
def Fresh (i : Intent) (ctx : ParseContext) : Prop :=
  ∀ id, id ∉ ctx.nodes.keys → i.explicit id = Dict.empty

theorem shown_shown (key : String) (v : Value) : shown key (shown key v) = shown key v := by
  unfold shown
  by_cases h : key ∈ nodeFields
  · rw [if_pos h, if_pos h]
    rfl
  · rw [if_neg h, if_neg h]

theorem map_shown_shown (key : String) (v : Value) :
    (some (shown key v)).map (shown key) = some (shown key v) :=
  congrArg some (shown_shown key v)

/-! ## A node statement -/

section Statement

variable {i : Intent} {ctx : ParseContext} {id key : String} {attrs : Record}

omit [Runtime] in
/-- What should be of an attribute after a node statement. -/
theorem attr?_said : ((i.mention ctx [id]).declare id attrs).attr? id key =
    (attrs.get? key).or (((i.explicit id).get? key).or
      (((if id ∉ ctx.nodes.keys then ctx.nodeDefaults else i.inherited id).get? key).or
        (blankAttr id key))) := by
  simp only [Intent.attr?, Intent.declare, Intent.mention, if_true, Dict.get?_update,
    List.mem_singleton, true_and, Option.or_assoc]

/-- The attribute after the statement is what it should be. -/
def Stays (i : Intent) (ctx : ParseContext) (id key : String) (attrs : Record) : Prop :=
  ((ctx.applyNode id attrs).attr? id key).map (shown key) =
    (((i.mention ctx [id]).declare id attrs).attr? id key).map (shown key)

theorem stays_given {v : Value} (hgiven : attrs.get? key = some v) :
    Stays i ctx id key attrs ↔ (isBlank key attrs v = true → ctx.Agrees id key v) := by
  have hmerged : (ctx.nodeDefaults.update attrs).get? key = some v := by
    rw [Dict.get?_update, hgiven]
    rfl
  unfold Stays
  rw [attr?_applyNode, attr?_said, hgiven, Option.some_or, Option.map_some]
  cases hb : isBlank key attrs v with
  | true =>
    rw [written_of_blank hmerged hb, Option.none_or]
    exact ⟨fun heq _ => heq, fun hc => hc rfl⟩
  | false =>
    rw [written_of_some hmerged hb, Option.some_or, map_shown_shown]
    exact ⟨fun _ hblank => (nomatch hblank), fun _ => rfl⟩

omit [Runtime] in
theorem merged_of_not_given (ctx : ParseContext) (hnone : attrs.get? key = none) :
    (ctx.nodeDefaults.update attrs).get? key = ctx.nodeDefaults.get? key := by
  rw [Dict.get?_update, hnone]
  rfl

theorem stays_again (h : Keeps i ctx) (hold : id ∈ ctx.nodes.keys) (hnone : attrs.get? key = none) :
    Stays i ctx id key attrs ↔ ∀ v, ctx.nodeDefaults.get? key = some v →
      isBlank key attrs v = false → ctx.Agrees id key v := by
  have hmerged := merged_of_not_given ctx hnone
  have hsaid : ((i.mention ctx [id]).declare id attrs).attr? id key = i.attr? id key := by
    rw [attr?_said, hnone, Option.none_or, if_neg (not_not.mpr hold)]
    rfl
  unfold Stays
  rw [attr?_applyNode, hsaid, ← h id hold key]
  cases hdef : ctx.nodeDefaults.get? key with
  | none =>
    rw [written_of_none (hmerged.trans hdef), Option.none_or]
    exact ⟨fun _ => nofun, fun _ => rfl⟩
  | some v =>
    have hone : (∀ v', some v = some v' → isBlank key attrs v' = false → ctx.Agrees id key v') ↔
        (isBlank key attrs v = false → ctx.Agrees id key v) :=
      ⟨fun hc => hc v rfl, fun hc v' hv' => by cases hv'; exact hc⟩
    rw [hone]
    cases hb : isBlank key attrs v with
    | true =>
      rw [written_of_blank (hmerged.trans hdef) hb, Option.none_or]
      exact ⟨fun _ hblank => (nomatch hblank), fun _ => rfl⟩
    | false =>
      rw [written_of_some (hmerged.trans hdef) hb, Option.some_or, map_shown_shown]
      exact ⟨fun heq _ => heq.symm, fun hc => (hc rfl).symm⟩

theorem stays_first (hf : Fresh i ctx) (hnew : id ∉ ctx.nodes.keys) (hnone : attrs.get? key = none) :
    Stays i ctx id key attrs ↔ ∀ v, ctx.nodeDefaults.get? key = some v →
      isBlank key attrs v = true → ctx.Agrees id key v := by
  have hmerged := merged_of_not_given ctx hnone
  have hsaid : ((i.mention ctx [id]).declare id attrs).attr? id key =
      (ctx.nodeDefaults.get? key).or (blankAttr id key) := by
    rw [attr?_said, hnone, Option.none_or, if_pos hnew, hf id hnew, Dict.get?_empty, Option.none_or]
  unfold Stays
  rw [attr?_applyNode, hsaid]
  cases hdef : ctx.nodeDefaults.get? key with
  | none =>
    rw [written_of_none (hmerged.trans hdef), Option.none_or, Option.none_or, attr?_of_new hnew]
    exact ⟨fun _ => nofun, fun _ => rfl⟩
  | some v =>
    have hone : (∀ v', some v = some v' → isBlank key attrs v' = true → ctx.Agrees id key v') ↔
        (isBlank key attrs v = true → ctx.Agrees id key v) :=
      ⟨fun hc => hc v rfl, fun hc v' hv' => by cases hv'; exact hc⟩
    rw [hone, Option.some_or, Option.map_some]
    cases hb : isBlank key attrs v with
    | true =>
      rw [written_of_blank (hmerged.trans hdef) hb, Option.none_or]
      exact ⟨fun heq _ => heq, fun hc => hc rfl⟩
    | false =>
      rw [written_of_some (hmerged.trans hdef) hb, Option.some_or, map_shown_shown]
      exact ⟨fun _ hblank => (nomatch hblank), fun _ => rfl⟩

/-- The attributes of the node stay what they should be exactly if the statement lets
no default over them. -/
theorem stays_iff (h : Keeps i ctx) (hf : Fresh i ctx) :
    (∀ key, Stays i ctx id key attrs) ↔ StatementMeets ctx id attrs := by
  constructor
  · intro hs
    refine ⟨fun key v hgiven => (stays_given hgiven).mp (hs key), ?_, ?_⟩
    · intro hold key v hdef hnone
      exact (stays_again h hold hnone).mp (hs key) v hdef
    · intro hnew key v hdef hnone
      exact (stays_first hf hnew hnone).mp (hs key) v hdef
  · intro hm key
    cases hgiven : attrs.get? key with
    | some v => exact (stays_given hgiven).mpr (hm.given key v hgiven)
    | none =>
      by_cases hold : id ∈ ctx.nodes.keys
      · exact (stays_again h hold hgiven).mpr fun v hdef => hm.again hold key v hdef hgiven
      · exact (stays_first hf hold hgiven).mpr fun v hdef => hm.first hold key v hdef hgiven

end Statement

theorem keeps_node {i : Intent} {ctx : ParseContext} (h : Keeps i ctx) (hf : Fresh i ctx) (id : String)
    (attrs : Record) :
    Keeps ((i.mention ctx [id]).declare id attrs) (ctx.applyNode id attrs) ↔
      StatementMeets ctx id attrs := by
  rw [← stays_iff h hf]
  constructor
  · intro hk key
    exact hk id ((keys_applyNode _ _ _ _).mpr (.inl rfl)) key
  · intro hs id' hid' key
    by_cases heq : id' = id
    · subst heq
      exact hs key
    · have hold : id' ∈ ctx.nodes.keys := ((keys_applyNode _ _ _ _).mp hid').resolve_left heq
      have hsaid : ((i.mention ctx [id]).declare id attrs).attr? id' key = i.attr? id' key := by
        simp [Intent.attr?, Intent.declare, Intent.mention, heq]
      rw [attr?_applyNode_of_ne ctx (Ne.symm heq), hsaid]
      exact h id' hold key

/-! ## A chain -/

/-- An attribute of a node that an edge mentions first. -/
theorem implied_iff {ctx : ParseContext} {id : String} (hnew : id ∉ ctx.nodes.keys) (key : String) :
    ((implied key ctx.nodeDefaults).or (blankAttr id key)).map (shown key) =
      ((ctx.nodeDefaults.get? key).or (blankAttr id key)).map (shown key) ↔
    (key = "label" → ∀ v, ctx.nodeDefaults.get? "label" = some v → v.truthy = false →
      ctx.Agrees id "label" v) := by
  by_cases hlabel : key = "label"
  · subst hlabel
    rw [implied, if_pos rfl]
    unfold ParseContext.Agrees
    rw [attr?_of_new hnew]
    cases hdef : ctx.nodeDefaults.get? "label" with
    | none => exact ⟨fun _ _ v hv => (by cases hv), fun _ => rfl⟩
    | some v =>
      rw [Option.filter_some]
      cases hv : v.truthy with
      | true =>
        refine ⟨fun _ _ v' hv' hfalse => ?_, fun _ => rfl⟩
        cases hv'
        rw [hv] at hfalse
        cases hfalse
      | false =>
        refine ⟨fun heq _ v' hv' _ => ?_, fun hc => hc rfl v rfl hv⟩
        cases hv'
        exact heq
  · rw [implied, if_neg hlabel]
    exact ⟨fun _ h => absurd h hlabel, fun _ => rfl⟩

theorem keeps_chain {i : Intent} {ctx ctx' : ParseContext} {first : String} {rest : List String}
    {attrs : Record} (h : Keeps i ctx) (hf : Fresh i ctx)
    (hrun : ctx.addChain first attrs rest = .ok ctx') :
    Keeps (i.mention ctx (Command.chain first rest attrs).ids) ctx' ↔
      ∀ id ∈ (Command.chain first rest attrs).ids, id ∉ ctx.nodes.keys →
        ∀ v, ctx.nodeDefaults.get? "label" = some v → v.truthy = false → ctx.Agrees id "label" v := by
  have hkeys := (addChain_effect hrun).keys
  have hattr := attr?_addChain hrun
  have hnewSaid : ∀ id key, id ∈ (Command.chain first rest attrs).ids → id ∉ ctx.nodes.keys →
      (i.mention ctx (Command.chain first rest attrs).ids).attr? id key =
        (ctx.nodeDefaults.get? key).or (blankAttr id key) := by
    intro id key hid hnew
    simp only [Intent.attr?, Intent.mention]
    rw [if_pos ⟨hid, hnew⟩, hf id hnew, Dict.get?_empty, Option.none_or]
  constructor
  · intro hk id hid hnew
    have heq := hk id ((hkeys id).mpr (.inr hid)) "label"
    rw [hattr, if_pos ⟨hid, hnew⟩, hnewSaid id _ hid hnew] at heq
    exact (implied_iff hnew "label").mp heq rfl
  · intro hm id hid key
    by_cases hold : id ∈ ctx.nodes.keys
    · rw [hattr, if_neg fun hc => hc.2 hold]
      simp only [Intent.attr?, Intent.mention]
      rw [if_neg fun hc => hc.2 hold]
      exact h id hold key
    · have hmem := ((hkeys id).mp hid).resolve_left hold
      rw [hattr, if_pos ⟨hmem, hold⟩, hnewSaid id key hmem hold]
      exact (implied_iff hold key).mpr fun _ => hm id hmem hold

/-! ## The end of a subgraph -/

theorem class_of_keeps {i : Intent} {ctx : ParseContext} (h : Keeps i ctx) {id : String}
    (hid : id ∈ ctx.nodes.keys) : ctx.attr? id "class" = i.attr? id "class" := by
  have hshown : shown "class" = fun v => v := funext fun v => rfl
  have heq := h id hid "class"
  rw [hshown, Option.map_id', Option.map_id'] at heq
  exact heq

theorem attr?_classify_of_not {i : Intent} {ctx : ParseContext} {before : List String} {id : String}
    (h : ¬ (id ∈ ctx.nodes.keys ∧ id ∉ before ∧ ctx.subgraphClass ≠ "" ∧
      (i.attr? id "class").isNone = true)) (key : String) :
    (i.classify ctx before).attr? id key = i.attr? id key := by
  have hinherited : (i.classify ctx before).inherited id = i.inherited id := if_neg h
  rw [Intent.attr?, hinherited]
  rfl

theorem keeps_leave {i : Intent} {ctx : ParseContext} (h : Keeps i ctx) (saved : Record)
    (before : List String) :
    Keeps (i.classify ctx before) (ctx.closeSubgraph saved before) ↔
      ∀ id, ctx.Classed before id → ctx.attr? id "class" = none := by
  have hkeys : (ctx.closeSubgraph saved before).nodes.keys = ctx.nodes.keys := keys_classify _ _ _
  have hclosed := attr?_closeSubgraph ctx saved before
  constructor
  · intro hk id hc
    have hid : id ∈ ctx.nodes.keys := hc.1
    have heq := class_of_keeps hk (hkeys ▸ hid)
    rw [(hclosed id "class").1 ⟨hc, rfl⟩] at heq
    by_cases hsaid : (i.attr? id "class").isNone = true
    · rw [class_of_keeps h hid]
      exact Option.isNone_iff_eq_none.mp hsaid
    · rw [attr?_classify_of_not fun hcond => hsaid hcond.2.2.2, ← class_of_keeps h hid] at heq
      have hfalsy := hc.2.2.2
      rw [← heq] at hfalsy
      have hname : (Value.str ctx.subgraphClass).truthy = true := bne_iff_ne.mpr hc.2.2.1
      rw [Option.getD_some, hname] at hfalsy
      cases hfalsy
  · intro hm id hid key
    rw [hkeys] at hid
    by_cases hc : ctx.Classed before id
    · have hnone : i.attr? id "class" = none := by
        rw [← class_of_keeps h hid]
        exact hm id hc
      have hparts : (i.explicit id).get? "class" = none ∧ (i.inherited id).get? "class" = none := by
        rw [Intent.attr?, Option.or_eq_none_iff, Option.or_eq_none_iff] at hnone
        exact ⟨hnone.1, hnone.2.1⟩
      have hinherited : (i.classify ctx before).inherited id =
          (i.inherited id).set "class" (.str ctx.subgraphClass) :=
        if_pos ⟨hid, hc.2.1, hc.2.2.1, Option.isNone_iff_eq_none.mpr hnone⟩
      by_cases hkey : key = "class"
      · subst hkey
        rw [(hclosed id "class").1 ⟨hc, rfl⟩, Intent.attr?, hinherited, Dict.get?_set_self]
        show _ = Option.map _ (((i.explicit id).get? "class").or _)
        rw [hparts.1]
        rfl
      · rw [(hclosed id key).2 fun hx => hkey hx.2, Intent.attr?, hinherited,
          Dict.get?_set_of_ne _ _ (Ne.symm hkey)]
        exact h id hid key
    · rw [(hclosed id key).2 fun hx => hc hx.1, attr?_classify_of_not]
      · exact h id hid key
      · rintro ⟨-, hbefore, hname, hnone⟩
        refine hc ⟨hid, hbefore, hname, ?_⟩
        rw [class_of_keeps h hid, Option.isNone_iff_eq_none.mp hnone]
        rfl

/-! ## A run -/

theorem nodes_setGraphAttr {ctx ctx' : ParseContext} {key : String} {v : Value}
    (h : ctx.setGraphAttr key v = .ok ctx') : ctx'.nodes = ctx.nodes := by
  unfold ParseContext.setGraphAttr at h
  split at h
  · cases h
    rfl
  · split at h
    · cases h
      rfl
    · split at h
      · cases h
        rfl
      · split at h
        · cases hd : resolveGraphDuration ctx.params key v with
          | error e =>
            rw [hd] at h
            cases h
          | ok d =>
            rw [hd] at h
            cases h
            rfl
        · cases h
          rfl

theorem nodes_setGraphAttrs {ctx ctx' : ParseContext} {attrs : List (String × Value)}
    (h : ctx.setGraphAttrs attrs = .ok ctx') : ctx'.nodes = ctx.nodes := by
  induction attrs generalizing ctx with
  | nil =>
    cases h
    rfl
  | cons p rest ih =>
    obtain ⟨key, v⟩ := p
    unfold ParseContext.setGraphAttrs at h
    cases hs : ctx.setGraphAttr key v with
    | error e =>
      rw [hs] at h
      cases h
    | ok ctx₁ =>
      rw [hs] at h
      exact (ih h).trans (nodes_setGraphAttr hs)

theorem keeps_congr {i : Intent} {ctx ctx' : ParseContext} (h : Keeps i ctx)
    (hn : ctx'.nodes = ctx.nodes) : Keeps i ctx' := by
  intro id hid key
  rw [hn] at hid
  rw [attr?_congr hn]
  exact h id hid key

/-- What is said still holds after a command exactly if the command is one on which
the parser keeps to it. -/
theorem keeps_after {i : Intent} {m m' : Machine} {c : Command} (h : Keeps i m.ctx)
    (hf : Fresh i m.ctx) (hrun : m.run c = .ok m') : Keeps (i.after m c) m'.ctx ↔ m.Meets c := by
  have hsame : m'.ctx.nodes = m.ctx.nodes → (Keeps i m'.ctx ↔ True) := fun hn =>
    ⟨fun _ => trivial, fun _ => keeps_congr h hn⟩
  cases c with
  | graphAttrs attrs =>
    simp only [Machine.run] at hrun
    cases hr : m.ctx.setGraphAttrs attrs with
    | error e =>
      rw [hr] at hrun
      cases hrun
    | ok ctx =>
      rw [hr] at hrun
      cases hrun
      exact hsame (nodes_setGraphAttrs hr)
  | nodeDefaults attrs =>
    cases hrun
    exact hsame rfl
  | edgeDefaults attrs =>
    cases hrun
    exact hsame rfl
  | chain first rest attrs =>
    simp only [Machine.run] at hrun
    cases hr : m.ctx.addChain first attrs rest with
    | error e =>
      rw [hr] at hrun
      cases hrun
    | ok ctx =>
      rw [hr] at hrun
      cases hrun
      exact keeps_chain h hf hr
  | graphAttr key v =>
    simp only [Machine.run] at hrun
    cases hr : m.ctx.setGraphAttr key v with
    | error e =>
      rw [hr] at hrun
      cases hrun
    | ok ctx =>
      rw [hr] at hrun
      cases hrun
      exact hsame (nodes_setGraphAttr hr)
  | truncated => cases hrun
  | node id attrs =>
    cases hrun
    exact keeps_node h hf id attrs
  | enter =>
    cases hrun
    exact hsame rfl
  | leave =>
    simp only [Machine.run, Machine.Meets, Intent.after] at hrun ⊢
    cases hframes : m.frames with
    | nil =>
      rw [hframes] at hrun
      cases hrun
      exact ⟨fun _ frame frames hone => (by cases hone), fun _ => h⟩
    | cons f frames =>
      rw [hframes] at hrun
      cases hrun
      dsimp only
      rw [keeps_leave h]
      refine ⟨fun hc f' frames' heq => ?_, fun hc => hc f frames rfl⟩
      cases heq
      exact hc

theorem fresh_after {i : Intent} {m m' : Machine} {c : Command} (hf : Fresh i m.ctx)
    (hrun : m.run c = .ok m') : Fresh (i.after m c) m'.ctx := by
  intro id hid
  have hkeys := (run_effect hrun).1 id
  have hnew : id ∉ m.ctx.nodes.keys ∧ id ∉ c.ids := by
    rw [hkeys, not_or] at hid
    exact hid
  have hold := hf id hnew.1
  cases c with
  | node id' attrs =>
    have hne : id ≠ id' := fun h => hnew.2 (by rw [h]; exact List.mem_cons_self)
    show (if id = id' then _ else i.explicit id) = _
    rw [if_neg hne]
    exact hold
  | leave =>
    simp only [Intent.after]
    cases m.frames with
    | nil => exact hold
    | cons f frames => exact hold
  | _ => exact hold

/-- What is said holds of every state of a run exactly if every command is one on
which the parser keeps to it. -/
theorem keeps_run {i : Intent} {m : Machine} (h : Keeps i m.ctx) (hf : Fresh i m.ctx)
    {cs : List Command} (hok : ∃ m', m.runAll cs = .ok m') :
    (∀ before after m', cs = before ++ after → m.runAll before = .ok m' →
      Keeps (i.afterAll m before) m'.ctx) ↔
    ∀ before c after m', cs = before ++ c :: after → m.runAll before = .ok m' → m'.Meets c := by
  induction cs generalizing i m with
  | nil =>
    constructor
    · intro _ before c after _ heq
      exact absurd heq.symm (by simp)
    · intro _ before after m' heq hrun
      obtain ⟨rfl, -⟩ := List.append_eq_nil_iff.mp heq.symm
      cases hrun
      exact h
  | cons c cs ih =>
    obtain ⟨mlast, hlast⟩ := hok
    cases hstep : m.run c with
    | error e =>
      rw [Machine.runAll, hstep] at hlast
      cases hlast
    | ok m₁ =>
      rw [Machine.runAll, hstep] at hlast
      have hrest : ∃ m', m₁.runAll cs = .ok m' := ⟨mlast, hlast⟩
      have hfrom : ∀ before, m.runAll (c :: before) = m₁.runAll before := fun before => by
        rw [Machine.runAll, hstep]
        rfl
      have hsaid : ∀ before, i.afterAll m (c :: before) = (i.after m c).afterAll m₁ before :=
        fun before => by rw [Intent.afterAll, hstep]
      constructor
      · intro hk
        have hfirst : Keeps (i.after m c) m₁.ctx := by
          have h₁ := hk [c] cs m₁ rfl (hfrom [])
          rwa [hsaid] at h₁
        have htail := (ih hfirst (fresh_after hf hstep) hrest).mp fun before after m' heq hrun => by
          have h₁ := hk (c :: before) after m' (by rw [heq]; rfl) ((hfrom before).trans hrun)
          rwa [hsaid] at h₁
        intro before c' after m' heq hrun
        cases before with
        | nil =>
          cases heq
          cases hrun
          exact (keeps_after h hf hstep).mp hfirst
        | cons c₀ before =>
          rw [List.cons_append] at heq
          cases heq
          exact htail before c' after m' rfl ((hfrom before).symm.trans hrun)
      · intro hm
        have hfirst := (keeps_after h hf hstep).mpr (hm [] c cs m rfl rfl)
        have htail := (ih hfirst (fresh_after hf hstep) hrest).mpr fun before c' after m' heq hrun =>
          hm (c :: before) c' after m' (by rw [heq]; rfl) ((hfrom before).trans hrun)
        intro before after m' heq hrun
        cases before with
        | nil =>
          cases hrun
          exact h
        | cons c₀ before =>
          rw [List.cons_append] at heq
          cases heq
          rw [hsaid]
          exact htail before after m' rfl ((hfrom before).symm.trans hrun)

/-- The machine that reads a body. -/
def Machine.start (params : Dict String String) : Machine := ⟨{ params := params }, []⟩

/-- Explicit attributes stay, whatever the order of the statements, exactly as long as
no statement lets a default over what a node has. -/
theorem explicit_over_defaults {body : List Char} {params : Dict String String}
    {tokens : List String} {ctx : ParseContext} (htokens : tokenize body = .ok tokens)
    (hparse : parseBody body { params := params } = .ok ctx) :
    (Machine.start params).runAll (statements tokens) = .ok ⟨ctx, []⟩ ∧
    ((∀ before after m, statements tokens = before ++ after →
        (Machine.start params).runAll before = .ok m →
        Keeps (Intent.start.afterAll (Machine.start params) before) m.ctx) ↔
      ∀ before c after m, statements tokens = before ++ c :: after →
        (Machine.start params).runAll before = .ok m → m.Meets c) := by
  have hrun : (Machine.start params).runAll (statements tokens) = .ok ⟨ctx, []⟩ := by
    unfold parseBody at hparse
    rw [htokens] at hparse
    have hlist : parseTokenList (tokens.length + 1) tokens { params := params } = .ok ctx := hparse
    rw [Machine.start, statements, runAll_commands, hlist]
    rfl
  refine ⟨hrun, keeps_run ?_ (fun _ _ => rfl) ⟨_, hrun⟩⟩
  intro id hid
  exact absurd hid (by simp [Machine.start, Dict.keys, Dict.empty])

end Precedence

section Demo

open Py.Ascii

def redeclared : List Char := "a [color=\"red\"]; node [color=\"blue\"]; a".toList

def redeclaredTokens : List String :=
  ["a", "[", "color", "=", "\"red\"", "]", ";", "node", "[", "color", "=", "\"blue\"", "]", ";", "a"]

theorem explicit_over_defaults_redeclared : ∃ ctx,
    (Machine.start Dict.empty).runAll (statements redeclaredTokens) = .ok ⟨ctx, []⟩ ∧
    ((∀ before after m, statements redeclaredTokens = before ++ after →
        (Machine.start Dict.empty).runAll before = .ok m →
        Keeps (Intent.start.afterAll (Machine.start Dict.empty) before) m.ctx) ↔
      ∀ before c after m, statements redeclaredTokens = before ++ c :: after →
        (Machine.start Dict.empty).runAll before = .ok m → m.Meets c) := by
  have hread : tokenize redeclared = .ok redeclaredTokens := by decide +kernel
  have hok : (parseBody redeclared { params := Dict.empty }).isOk = true := by decide +kernel
  cases hparse : parseBody redeclared { params := Dict.empty } with
  | error e =>
    rw [hparse] at hok
    cases hok
  | ok ctx => exact ⟨ctx, explicit_over_defaults hread hparse⟩

/-- A node that is declared once more takes the default over the color it was given. -/
theorem default_overwrites :
    ¬ ∀ (body : List Char) (tokens : List String) (ctx : ParseContext),
      tokenize body = .ok tokens → parseBody body {} = .ok ctx →
      Keeps (Intent.start.afterAll (Machine.start Dict.empty) (statements tokens)) ctx := by
  intro h
  have hread : tokenize redeclared = .ok redeclaredTokens := by decide +kernel
  have hcolor : (parseBody redeclared {}).toOption.map (fun ctx =>
      (ctx.nodes.keys, (ctx.attr? "a" "color").map Value.toStr)) = some (["a"], some "blue") := by
    decide +kernel
  have hsaid : ((Intent.start.afterAll (Machine.start Dict.empty)
      (statements redeclaredTokens)).attr? "a" "color").map Value.toStr = some "red" := by
    decide +kernel
  cases hparse : parseBody redeclared {} with
  | error e =>
    rw [hparse] at hcolor
    cases hcolor
  | ok ctx =>
    rw [hparse] at hcolor
    obtain ⟨hkeys, hblue⟩ := Prod.mk.inj (Option.some.inj hcolor)
    have hplain : shown "color" = fun v => v := funext fun v => rfl
    have heq := h redeclared redeclaredTokens ctx hread hparse "a" (by rw [hkeys]; decide) "color"
    rw [hplain, Option.map_id', Option.map_id'] at heq
    rw [heq, hsaid] at hblue
    exact absurd hblue (by decide)

end Demo

end Dot
end DotRunner
