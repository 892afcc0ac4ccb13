import DotRunner.Dot.Structure
import DotRunner.Dot.Precedence

/-!
# The scope of a subgraph

What a subgraph leaves behind of the defaults and attributes it sets, and which class
its new nodes take over.
-/

namespace DotRunner
namespace Dot

open Py

/-- Commands in which every subgraph that is entered is left again. -/
inductive Balanced : List Command → Prop where
  | nil : Balanced []
  | command {c : Command} {cs : List Command} (henter : c ≠ .enter) (hleave : c ≠ .leave)
      (h : Balanced cs) : Balanced (c :: cs)
  | block {body rest : List Command} (hbody : Balanced body) (hrest : Balanced rest) :
      Balanced (.enter :: (body ++ .leave :: rest))

/-- The edge defaults a command gives. -/
def Command.edgeWrites : Command → List (String × Value)
  | .edgeDefaults attrs => attrs.entries
  | _ => []

/-- The graph attributes a command gives. -/
def Command.graphWrites : Command → List (String × Value)
  | .graphAttrs attrs => attrs
  | .graphAttr key v => [(key, v)]
  | _ => []

/-- The graph attributes given outside of the subgraphs, `depth` of which are open. -/
def ownWrites : Nat → List Command → List (String × Value)
  | _, [] => []
  | depth, .enter :: cs => ownWrites (depth + 1) cs
  | depth, .leave :: cs => ownWrites (depth - 1) cs
  | 0, c :: cs => c.graphWrites ++ ownWrites 0 cs
  | depth + 1, _ :: cs => ownWrites (depth + 1) cs

/-- The keys that `_set_graph_attr` promotes to fields of the graph. -/
def promotedGraphAttrs : List String :=
  ["goal", "default_max_retry", "default_max_retries", "model_stylesheet", "max_pipeline_duration"]

section Scoping

variable [Runtime]

/-- What is stored in `graph_attrs`. -/
def attrWrites (writes : List (String × Value)) : List (String × String) :=
  (writes.filter fun p => !promotedGraphAttrs.contains p.1).map fun p => (p.1, p.2.toStr)

/-- What is stored of a promoted attribute. -/
def fieldWrite (params : Dict String String) (p : String × Value) : Option (String × Value) :=
  if p.1 = "goal" then some ("goal", .str p.2.toStr)
  else if p.1 = "default_max_retry" ∨ p.1 = "default_max_retries" then
    some ("default_max_retry", p.2)
  else if p.1 = "model_stylesheet" then some ("model_stylesheet", .str p.2.toStr)
  else if p.1 = "max_pipeline_duration" then
    match resolveGraphDuration params p.1 p.2 with
    | .ok d => some ("max_pipeline_duration", d)
    | .error _ => none
  else none

/-- The label of a subgraph itself. -/
def ownLabel (body : List Command) : Option String :=
  (Dict.ofList (attrWrites (ownWrites 0 body))).get? "label"

/-- A subgraph in the run of `cs` from `start`: the contexts it is entered with, it has
read its body with, and it is left with. -/
def SubgraphBlock (start : Machine) (cs body : List Command)
    (entry inner final : ParseContext) : Prop :=
  ∃ before after frames, cs = before ++ .enter :: (body ++ .leave :: after) ∧ Balanced body ∧
    start.runAll before = .ok ⟨entry, frames⟩ ∧
    ∃ frames', (Machine.mk entry frames).runAll (.enter :: body) = .ok ⟨inner, frames'⟩ ∧
      ∃ frames'', (Machine.mk inner frames').run .leave = .ok ⟨final, frames''⟩

/-- The subgraph leaves no trace on what surrounds it, and its new nodes have the class
of its own label. -/
structure Scoped (body : List Command) (entry inner final : ParseContext) : Prop where
  nodeDefaults : final.nodeDefaults = entry.nodeDefaults
  edgeDefaults : ∀ key, final.edgeDefaults.get? key = entry.edgeDefaults.get? key
  graphAttrs : ∀ key, final.graphAttrs.get? key = entry.graphAttrs.get? key
  graphFields : ∀ key, final.graphFields.get? key = entry.graphFields.get? key
  nodes : final.nodes =
    Dot.classify (classOf ((ownLabel body).getD "")) entry.nodes.keys inner.nodes

/-- There is no graph label in force, and the edge defaults and graph attributes that the
subgraph, or one within it, gives are those in force already. -/
structure Quiet (body : List Command) (entry : ParseContext) : Prop where
  label : entry.graphAttrs.get? "label" = none
  edgeDefaults : ∀ key v, (Dict.ofList (body.flatMap Command.edgeWrites)).get? key = some v →
    entry.edgeDefaults.get? key = some v
  graphAttrs : ∀ key v, key ≠ "label" →
    (Dict.ofList (attrWrites (body.flatMap Command.graphWrites))).get? key = some v →
    entry.graphAttrs.get? key = some v
  graphFields : ∀ key v,
    (Dict.ofList ((body.flatMap Command.graphWrites).filterMap (fieldWrite entry.params))).get? key =
      some v →
    entry.graphFields.get? key = some v

/-! ## Brackets -/

/-- The parser leaves every subgraph it enters. -/
theorem balanced_commands (fuel : Nat) (ts : List String) : Balanced (commands fuel ts) := by
  induction fuel generalizing ts with
  | zero => exact .nil
  | succ fuel ih =>
    cases ts with
    | nil => exact .nil
    | cons t ts =>
      unfold commands
      split
      · exact ih ts
      · split
        · split
          · exact .nil
          · split
            · exact .block (ih _) (ih _)
            · exact ih _
        · split
          · exact .command (by simp) (by simp) (ih _)
          · split
            · exact .command (by simp) (by simp) (ih _)
            · split
              · exact .command (by simp) (by simp) (ih _)
              · split
                · split
                  · exact .command (by simp) (by simp) (ih _)
                  · split
                    · split
                      · exact .command (by simp) (by simp) .nil
                      · exact .command (by simp) (by simp) (ih _)
                    · exact .command (by simp) (by simp) (ih _)
                · exact ih ts

theorem runAll_cons_ok {m m' : Machine} {c : Command} {cs : List Command} :
    m.runAll (c :: cs) = .ok m' ↔ ∃ m₁, m.run c = .ok m₁ ∧ m₁.runAll cs = .ok m' := by
  rw [Machine.runAll]
  cases m.run c with
  | error e => simp [bind, Except.bind]
  | ok m₁ => simp [bind, Except.bind]

theorem runAll_append_ok {m m' : Machine} {cs cs' : List Command} :
    m.runAll (cs ++ cs') = .ok m' ↔ ∃ m₁, m.runAll cs = .ok m₁ ∧ m₁.runAll cs' = .ok m' := by
  rw [Machine.runAll_append]
  cases m.runAll cs with
  | error e => simp [bind, Except.bind]
  | ok m₁ => simp [bind, Except.bind]

theorem frames_run {m m' : Machine} {c : Command} (henter : c ≠ .enter) (hleave : c ≠ .leave)
    (h : m.run c = .ok m') : m'.frames = m.frames := by
  have hlift : ∀ {r : Except PyExc ParseContext},
      (r >>= fun ctx => pure { m with ctx := ctx }) = .ok m' → m'.frames = m.frames := by
    intro r hr
    cases r with
    | error e => cases hr
    | ok ctx =>
      cases hr
      rfl
  cases c with
  | graphAttrs attrs => exact hlift h
  | chain first rest attrs => exact hlift h
  | graphAttr key v => exact hlift h
  | truncated => cases h
  | enter => exact absurd rfl henter
  | leave => exact absurd rfl hleave
  | _ =>
    cases h
    rfl

/-- Balanced commands come back to the subgraphs that were open. -/
theorem frames_runAll {cs : List Command} (hcs : Balanced cs) {m m' : Machine}
    (h : m.runAll cs = .ok m') : m'.frames = m.frames := by
  induction hcs generalizing m m' with
  | nil =>
    cases h
    rfl
  | command henter hleave _ ih =>
    obtain ⟨m₁, hrun, hrest⟩ := runAll_cons_ok.mp h
    exact (ih hrest).trans (frames_run henter hleave hrun)
  | block _ _ ihbody ihrest =>
    obtain ⟨m₁, henter, hinside⟩ := runAll_cons_ok.mp h
    cases henter
    obtain ⟨m₂, hbody, houtside⟩ := runAll_append_ok.mp hinside
    obtain ⟨m₃, hleave, hrest⟩ := runAll_cons_ok.mp houtside
    have hopen := ihbody hbody
    simp only [Machine.run, hopen] at hleave
    cases hleave
    have hclosed := ihrest hrest
    exact hclosed

/-- A subgraph is left with the defaults and the nodes it was entered with. -/
theorem SubgraphBlock.final_eq {start : Machine} {cs body : List Command}
    {entry inner final : ParseContext} (h : SubgraphBlock start cs body entry inner final) :
    final = inner.closeSubgraph entry.nodeDefaults entry.nodes.keys := by
  obtain ⟨before, after, frames, -, hbal, -, frames', hinside, frames'', hleave⟩ := h
  obtain ⟨m₁, henter, hbody⟩ := runAll_cons_ok.mp hinside
  cases henter
  have hopen : frames' = _ := frames_runAll hbal hbody
  subst hopen
  cases hleave
  rfl

/-! ## What is written -/

theorem attrWrites_append (l l' : List (String × Value)) :
    attrWrites (l ++ l') = attrWrites l ++ attrWrites l' := by
  simp [attrWrites]

/-- The graph attributes after `writes`. -/
structure Written (writes : List (String × Value)) (ctx ctx' : ParseContext) : Prop where
  graphAttrs : ∀ key, ctx'.graphAttrs.get? key =
    ((Dict.ofList (attrWrites writes)).get? key).or (ctx.graphAttrs.get? key)
  graphFields : ∀ key, ctx'.graphFields.get? key =
    ((Dict.ofList (writes.filterMap (fieldWrite ctx.params))).get? key).or
      (ctx.graphFields.get? key)

theorem Written.refl {ctx ctx' : ParseContext} (hattrs : ctx'.graphAttrs = ctx.graphAttrs)
    (hfields : ctx'.graphFields = ctx.graphFields) : Written [] ctx ctx' :=
  ⟨fun _ => by rw [hattrs]; rfl, fun _ => by rw [hfields]; rfl⟩

theorem Written.trans {l l' : List (String × Value)} {ctx ctx' ctx'' : ParseContext}
    (h : Written l ctx ctx') (h' : Written l' ctx' ctx'') (hparams : ctx'.params = ctx.params) :
    Written (l ++ l') ctx ctx'' where
  graphAttrs := fun key => by
    rw [h'.graphAttrs, h.graphAttrs, attrWrites_append, Dict.get?_ofList_append, Option.or_assoc]
  graphFields := fun key => by
    rw [h'.graphFields, h.graphFields, hparams, List.filterMap_append, Dict.get?_ofList_append,
      Option.or_assoc]

theorem setGraphAttr_written {ctx ctx' : ParseContext} {key : String} {v : Value}
    (h : ctx.setGraphAttr key v = .ok ctx') : Written [(key, v)] ctx ctx' := by
  have hfield : ∀ {name : String} {stored : Value}, key ∈ promotedGraphAttrs →
      fieldWrite ctx.params (key, v) = some (name, stored) →
      ctx' = { ctx with graphFields := ctx.graphFields.set name stored } →
      Written [(key, v)] ctx ctx' := by
    intro name stored hkey hw hctx
    subst hctx
    have hnone : attrWrites [(key, v)] = [] := by simp [attrWrites, hkey]
    constructor
    · intro k
      rw [hnone]
      rfl
    · intro k
      have hsome : [(key, v)].filterMap (fieldWrite ctx.params) = [(name, stored)] := by
        simp [hw]
      rw [hsome, ← Dict.get?_setAll_or]
      rfl
  unfold ParseContext.setGraphAttr at h
  split at h
  · rename_i hkey
    cases h
    exact hfield (by simp [promotedGraphAttrs, hkey]) (by simp [fieldWrite, hkey]) rfl
  · split at h
    · rename_i hgoal hkey
      cases h
      refine hfield ?_ (by simp [fieldWrite, hgoal, hkey]) rfl
      rcases hkey with hkey | hkey <;> simp [promotedGraphAttrs, hkey]
    · split at h
      · rename_i hgoal hretry hkey
        cases h
        exact hfield (by simp [promotedGraphAttrs, hkey]) (by simp [fieldWrite, hkey]) rfl
      · split at h
        · rename_i hgoal hretry hsheet hkey
          cases hd : resolveGraphDuration ctx.params key v with
          | error e =>
            rw [hd] at h
            cases h
          | ok d =>
            rw [hd] at h
            cases h
            subst hkey
            exact hfield (by simp [promotedGraphAttrs]) (by simp [fieldWrite, hd]) rfl
        · rename_i hgoal hretry hsheet hdur
          cases h
          have hplain : key ∉ promotedGraphAttrs := by
            simp only [promotedGraphAttrs, List.mem_cons, List.not_mem_nil]
            tauto
          have hnone : fieldWrite ctx.params (key, v) = none := by
            simp [fieldWrite, hgoal, hretry, hsheet, hdur]
          have hsome : attrWrites [(key, v)] = [(key, v.toStr)] := by
            simp [attrWrites, hplain]
          constructor
          · intro k
            rw [hsome, ← Dict.get?_setAll_or]
            rfl
          · intro k
            have hfields : [(key, v)].filterMap (fieldWrite ctx.params) = [] := by simp [hnone]
            rw [hfields]
            rfl

theorem setGraphAttrs_written {ctx ctx' : ParseContext} {attrs : List (String × Value)}
    (h : ctx.setGraphAttrs attrs = .ok ctx') : Written attrs ctx ctx' := by
  induction attrs generalizing ctx with
  | nil =>
    cases h
    exact .refl rfl rfl
  | cons p rest ih =>
    unfold ParseContext.setGraphAttrs at h
    cases hs : ctx.setGraphAttr p.1 p.2 with
    | error e =>
      rw [hs] at h
      cases h
    | ok ctx₁ =>
      rw [hs] at h
      exact (setGraphAttr_written hs).trans (ih h) (setGraphAttr_effect hs).params

omit [Runtime] in
theorem ensureNode_frame (ctx : ParseContext) (id : String) :
    (ctx.ensureNode id).graphAttrs = ctx.graphAttrs ∧
      (ctx.ensureNode id).graphFields = ctx.graphFields := by
  unfold ParseContext.ensureNode
  split <;> exact ⟨rfl, rfl⟩

theorem addChain_frame {ctx ctx' : ParseContext} {first : String} {attrs : Record}
    {ids : List String} (h : ctx.addChain first attrs ids = .ok ctx') :
    ctx'.graphAttrs = ctx.graphAttrs ∧ ctx'.graphFields = ctx.graphFields := by
  induction ids generalizing ctx first with
  | nil =>
    cases h
    exact ⟨rfl, rfl⟩
  | cons id ids ih =>
    unfold ParseContext.addChain ParseContext.addEdge at h
    cases he : newEdge first id (ctx.edgeDefaults.update attrs) with
    | error x =>
      rw [he] at h
      cases h
    | ok e =>
      rw [he] at h
      obtain ⟨hattrs, hfields⟩ := ih h
      have hfirst := ensureNode_frame ctx first
      have hsecond := ensureNode_frame (ctx.ensureNode first) id
      exact ⟨hattrs.trans (hsecond.1.trans hfirst.1), hfields.trans (hsecond.2.trans hfirst.2)⟩

/-- Any command but the end of a subgraph writes the graph attributes it gives. -/
theorem run_written {m m' : Machine} {c : Command} (hleave : c ≠ .leave) (h : m.run c = .ok m') :
    Written c.graphWrites m.ctx m'.ctx := by
  have hlift : ∀ {r : Except PyExc ParseContext},
      (r >>= fun ctx => pure { m with ctx := ctx }) = .ok m' → r = .ok m'.ctx := by
    intro r hr
    cases r with
    | error e => cases hr
    | ok ctx =>
      cases hr
      rfl
  cases c with
  | graphAttrs attrs => exact setGraphAttrs_written (hlift h)
  | chain first rest attrs =>
    have hframe := addChain_frame (hlift h)
    exact .refl hframe.1 hframe.2
  | graphAttr key v => exact setGraphAttr_written (hlift h)
  | truncated => cases h
  | leave => exact absurd rfl hleave
  | node id attrs =>
    cases h
    unfold ParseContext.applyNode
    dsimp only
    split <;> exact .refl rfl rfl
  | _ =>
    cases h
    exact .refl rfl rfl

theorem graphFields_leave {m m' : Machine} (h : m.run .leave = .ok m') :
    m'.ctx.graphFields = m.ctx.graphFields ∧
      ∀ key, key ≠ "label" → m'.ctx.graphAttrs.get? key = m.ctx.graphAttrs.get? key := by
  unfold Machine.run at h
  dsimp only at h
  split at h
  · cases h
    exact ⟨rfl, fun _ _ => rfl⟩
  · cases h
    refine ⟨rfl, fun key hkey => ?_⟩
    show (m.ctx.graphAttrs.erase "label").get? key = _
    rw [Dict.get?_erase, if_neg (Ne.symm hkey)]

/-- All that commands write stays, but for a label. -/
theorem runAll_written {cs : List Command} {m m' : Machine} (h : m.runAll cs = .ok m') :
    (∀ key, m'.ctx.edgeDefaults.get? key =
      ((Dict.ofList (cs.flatMap Command.edgeWrites)).get? key).or (m.ctx.edgeDefaults.get? key)) ∧
    (∀ key, key ≠ "label" → m'.ctx.graphAttrs.get? key =
      ((Dict.ofList (attrWrites (cs.flatMap Command.graphWrites))).get? key).or
        (m.ctx.graphAttrs.get? key)) ∧
    ∀ key, m'.ctx.graphFields.get? key =
      ((Dict.ofList ((cs.flatMap Command.graphWrites).filterMap (fieldWrite m.ctx.params))).get? key).or
        (m.ctx.graphFields.get? key) := by
  induction cs generalizing m with
  | nil =>
    cases h
    exact ⟨fun _ => rfl, fun _ _ => rfl, fun _ => rfl⟩
  | cons c cs ih =>
    obtain ⟨m₁, hrun, hrest⟩ := runAll_cons_ok.mp h
    obtain ⟨hedge, hattrs, hfields⟩ := ih hrest
    obtain ⟨-, -, hdefaults, hparams⟩ := run_effect hrun
    have hedge₁ : ∀ key, m₁.ctx.edgeDefaults.get? key =
        ((Dict.ofList c.edgeWrites).get? key).or (m.ctx.edgeDefaults.get? key) := by
      intro key
      rw [hdefaults]
      cases c with
      | edgeDefaults attrs => exact Dict.get?_setAll_or _ _ _
      | _ => rfl
    have hstep : (∀ key, key ≠ "label" → m₁.ctx.graphAttrs.get? key =
          ((Dict.ofList (attrWrites c.graphWrites)).get? key).or (m.ctx.graphAttrs.get? key)) ∧
        ∀ key, m₁.ctx.graphFields.get? key =
          ((Dict.ofList (c.graphWrites.filterMap (fieldWrite m.ctx.params))).get? key).or
            (m.ctx.graphFields.get? key) := by
      by_cases hleave : c = .leave
      · subst hleave
        obtain ⟨hsame, hother⟩ := graphFields_leave hrun
        exact ⟨fun key hkey => hother key hkey, fun key => by rw [hsame]; rfl⟩
      · have hw := run_written hleave hrun
        exact ⟨fun key _ => hw.graphAttrs key, hw.graphFields⟩
    simp only [List.flatMap_cons]
    refine ⟨fun key => ?_, fun key hkey => ?_, fun key => ?_⟩
    · rw [hedge, hedge₁, Dict.get?_ofList_append, Option.or_assoc]
    · rw [hattrs key hkey, hstep.1 key hkey, attrWrites_append, Dict.get?_ofList_append,
        Option.or_assoc]
    · rw [hfields, hstep.2, hparams, List.filterMap_append, Dict.get?_ofList_append,
        Option.or_assoc]

/-! ## The label of a subgraph -/

omit [Runtime] in
theorem ownWrites_inside {body : List Command} (h : Balanced body) (depth : Nat)
    (cs : List Command) : ownWrites (depth + 1) (body ++ cs) = ownWrites (depth + 1) cs := by
  induction h generalizing depth cs with
  | nil => rfl
  | @command c rest henter hleave _ ih =>
    rw [List.cons_append]
    refine Eq.trans ?_ (ih depth cs)
    cases c <;> first | rfl | contradiction
  | block _ _ ihbody ihrest =>
    rw [List.cons_append, List.append_assoc, List.cons_append]
    show ownWrites (depth + 1 + 1) _ = _
    rw [ihbody]
    exact ihrest depth cs

omit [Runtime] in
theorem ownWrites_block {body : List Command} (h : Balanced body) (cs : List Command) :
    ownWrites 0 (.enter :: (body ++ .leave :: cs)) = ownWrites 0 cs :=
  ownWrites_inside h 0 (.leave :: cs)

theorem ownLabel_command {c : Command} (henter : c ≠ .enter) (hleave : c ≠ .leave)
    (cs : List Command) : ownLabel (c :: cs) =
      (ownLabel cs).or ((Dict.ofList (attrWrites c.graphWrites)).get? "label") := by
  have hown : ownWrites 0 (c :: cs) = c.graphWrites ++ ownWrites 0 cs := by
    cases c <;> first | rfl | contradiction
  rw [ownLabel, hown, attrWrites_append, Dict.get?_ofList_append]
  rfl

/-- Where no subgraph within is entered with a label in force, the label is the last
one given outside of them. -/
theorem label_runAll {cs : List Command} (hcs : Balanced cs) {m m' : Machine}
    (h : m.runAll cs = .ok m')
    (hquiet : ∀ before body after entry, cs = before ++ .enter :: (body ++ .leave :: after) →
      Balanced body → m.runAll before = .ok entry → entry.ctx.graphAttrs.get? "label" = none) :
    m'.ctx.graphAttrs.get? "label" = (ownLabel cs).or (m.ctx.graphAttrs.get? "label") := by
  induction hcs generalizing m m' with
  | nil =>
    cases h
    rfl
  | @command c rest henter hleave _ ih =>
    obtain ⟨m₁, hrun, hrest⟩ := runAll_cons_ok.mp h
    have hw := run_written hleave hrun
    rw [ownLabel_command henter hleave, Option.or_assoc, ← hw.graphAttrs]
    refine ih hrest fun before body after entry heq hbal hbefore => ?_
    exact hquiet (c :: before) body after entry (by rw [heq]; rfl) hbal
      (runAll_cons_ok.mpr ⟨m₁, hrun, hbefore⟩)
  | @block body rest hbody hrestbal _ ihrest =>
    have hnone := hquiet [] body rest m rfl hbody rfl
    obtain ⟨m₁, henter, hinside⟩ := runAll_cons_ok.mp h
    obtain ⟨m₂, hrunbody, houtside⟩ := runAll_append_ok.mp hinside
    obtain ⟨m₃, hleave, hrest⟩ := runAll_cons_ok.mp houtside
    have hclosed : m₃.ctx.graphAttrs.get? "label" = none := by
      have hopen := frames_runAll hbody hrunbody
      cases henter
      simp only [Machine.run, hopen] at hleave
      cases hleave
      show (m₂.ctx.graphAttrs.erase "label").get? "label" = none
      rw [Dict.get?_erase, if_pos rfl]
    have hlast := ihrest hrest fun before body' after entry heq hbal hbefore => by
      refine hquiet (.enter :: (body ++ .leave :: before)) body' after entry ?_ hbal ?_
      · rw [heq]
        simp
      · refine runAll_cons_ok.mpr ⟨m₁, henter, runAll_append_ok.mpr ⟨m₂, hrunbody, ?_⟩⟩
        exact runAll_cons_ok.mpr ⟨m₃, hleave, hbefore⟩
    rw [hlast, hclosed, hnone, ownLabel, ownLabel, ownWrites_block hbody]

/-! ## Every subgraph -/

theorem quiet_of_scoped {start : Machine} {cs body : List Command}
    {entry inner final : ParseContext} (h : SubgraphBlock start cs body entry inner final)
    (hscoped : Scoped body entry inner final) : Quiet body entry := by
  have hfinal := h.final_eq
  obtain ⟨before, after, frames, -, -, -, frames', hinside, -⟩ := h
  obtain ⟨m₁, henter, hbody⟩ := runAll_cons_ok.mp hinside
  cases henter
  obtain ⟨hedge, hattrs, hfields⟩ := runAll_written hbody
  refine ⟨?_, fun key v hv => ?_, fun key v hkey hv => ?_, fun key v hv => ?_⟩
  · rw [← hscoped.graphAttrs, hfinal]
    show (inner.graphAttrs.erase "label").get? "label" = none
    rw [Dict.get?_erase, if_pos rfl]
  · have hsame := hscoped.edgeDefaults key
    rw [hfinal] at hsame
    rw [← hsame]
    exact (hedge key).trans (by rw [hv]; rfl)
  · have hsame := hscoped.graphAttrs key
    rw [hfinal] at hsame
    rw [← hsame]
    show (inner.graphAttrs.erase "label").get? key = _
    rw [Dict.get?_erase, if_neg (Ne.symm hkey)]
    exact (hattrs key hkey).trans (by rw [hv]; rfl)
  · have hsame := hscoped.graphFields key
    rw [hfinal] at hsame
    rw [← hsame]
    exact (hfields key).trans (by rw [hv]; rfl)

omit [Runtime] in
/-- What is given only where it is in force changes nothing. -/
theorem or_of_agrees {α : Type} {x y : Option α} (h : ∀ v, x = some v → y = some v) :
    x.or y = y := by
  cases x with
  | none => rfl
  | some v => exact (h v rfl).symm

/-- Where no subgraph is entered with a label in force, the label a subgraph is left
with is its own. -/
theorem label_of_quiet {start : Machine} {cs body : List Command}
    {entry inner final : ParseContext} (h : SubgraphBlock start cs body entry inner final)
    (hquiet : ∀ body entry inner final, SubgraphBlock start cs body entry inner final →
      Quiet body entry) : inner.graphAttrs.get? "label" = ownLabel body := by
  have hq := hquiet body entry inner final h
  obtain ⟨before, after, frames, hcs, hbal, hbefore, frames', hinside, -⟩ := h
  obtain ⟨m₁, henter, hbody⟩ := runAll_cons_ok.mp hinside
  have hentry : m₁.ctx = entry := by
    cases henter
    rfl
  have hrun := label_runAll hbal hbody fun before' body' after' m' heq hbal' hbefore' => by
    -- the subgraph within is one of the whole run
    have hsplit : cs = (before ++ .enter :: before') ++
        .enter :: (body' ++ .leave :: (after' ++ .leave :: after)) := by
      rw [hcs, heq]
      simp
    have hstart : start.runAll (before ++ .enter :: before') = .ok m' :=
      runAll_append_ok.mpr ⟨_, hbefore, runAll_cons_ok.mpr ⟨m₁, henter, hbefore'⟩⟩
    rw [heq] at hbody
    obtain ⟨m₂, hsame, hrest⟩ := runAll_append_ok.mp hbody
    obtain rfl : m' = m₂ := Except.ok.inj (hbefore'.symm.trans hsame)
    obtain ⟨m₃, henter', hinside'⟩ := runAll_cons_ok.mp hrest
    obtain ⟨m₄, hbody', houtside'⟩ := runAll_append_ok.mp hinside'
    obtain ⟨m₅, hleave', -⟩ := runAll_cons_ok.mp houtside'
    exact (hquiet body' m'.ctx m₄.ctx m₅.ctx ⟨_, _, m'.frames, hsplit, hbal', hstart, m₄.frames,
      runAll_cons_ok.mpr ⟨m₃, henter', hbody'⟩, m₅.frames, hleave'⟩).label
  rw [hentry, hq.label, Option.or_none] at hrun
  exact hrun

theorem scoped_of_quiet {start : Machine} {cs body : List Command}
    {entry inner final : ParseContext} (h : SubgraphBlock start cs body entry inner final)
    (hquiet : ∀ body entry inner final, SubgraphBlock start cs body entry inner final →
      Quiet body entry) : Scoped body entry inner final := by
  have hq := hquiet body entry inner final h
  have hlabel := label_of_quiet h hquiet
  have hfinal := h.final_eq
  obtain ⟨before, after, frames, -, -, -, frames', hinside, -⟩ := h
  obtain ⟨m₁, henter, hbody⟩ := runAll_cons_ok.mp hinside
  cases henter
  obtain ⟨hedge, hattrs, hfields⟩ := runAll_written hbody
  subst hfinal
  refine ⟨rfl, fun key => ?_, fun key => ?_, fun key => ?_, ?_⟩
  · exact (hedge key).trans (or_of_agrees (hq.edgeDefaults key))
  · show (inner.graphAttrs.erase "label").get? key = _
    rw [Dict.get?_erase]
    by_cases hkey : "label" = key
    · rw [if_pos hkey, ← hkey, hq.label]
    · rw [if_neg hkey]
      exact (hattrs key (Ne.symm hkey)).trans
        (or_of_agrees fun v => hq.graphAttrs key v (Ne.symm hkey))
  · exact (hfields key).trans (or_of_agrees (hq.graphFields key))
  · show Dot.classify inner.subgraphClass _ _ = _
    rw [subgraphClass_eq, Dict.getD, hlabel]

/-- A source is parsed by running its statements, whose subgraphs are scoped exactly as
long as none is entered under a label or gives an edge default or graph attribute
that is not in force. -/
theorem subgraphs_scoped_iff {source name : String} {text : List Char} {tokens : List String}
    (params : Dict String String) (hgraph : digraphOf (stripComments source.toList) = .ok (name, text))
    (htokens : tokenize text = .ok tokens) :
    parseDot source params = ((Machine.start params).runAll (statements tokens)).map
      (fun m => m.ctx.graph name source) ∧
    Balanced (statements tokens) ∧
    ((∀ body entry inner final,
        SubgraphBlock (Machine.start params) (statements tokens) body entry inner final →
        Scoped body entry inner final) ↔
      ∀ body entry inner final,
        SubgraphBlock (Machine.start params) (statements tokens) body entry inner final →
        Quiet body entry) := by
  refine ⟨?_, balanced_commands _ _, fun h body entry inner final hblock => ?_,
    fun h body entry inner final hblock => scoped_of_quiet hblock h⟩
  · unfold parseDot
    rw [hgraph]
    show (parseBody text _ >>= fun ctx => pure (ctx.graph name source)) = _
    rw [parseBody_eq_runAll text params htokens]
    show _ = ((Machine.mk { params := params } []).runAll (statements tokens)).map _
    cases (Machine.mk { params := params } []).runAll (statements tokens) <;> rfl
  · exact quiet_of_scoped hblock (h body entry inner final hblock)

end Scoping

section Demo

open Py.Ascii

def labelledGraph : String :=
  "digraph g \x7b label=\"G\" subgraph cluster_a \x7b a; edge [weight=2] \x7d \x7d"

def labelledText : List Char := " label=\"G\" subgraph cluster_a \x7b a; edge [weight=2] \x7d ".toList

def labelledTokens : List String :=
  ["label", "=", "\"G\"", "subgraph", "cluster_a", "\x7b", "a", ";", "edge", "[", "weight", "=", "2",
    "]", "\x7d"]

theorem labelledTokens_read : digraphOf (stripComments labelledGraph.toList) = .ok ("g", labelledText) ∧
    tokenize labelledText = .ok labelledTokens := by
  constructor <;> decide +kernel

theorem subgraphs_scoped_labelled :
    parseDot labelledGraph Dict.empty =
      ((Machine.start Dict.empty).runAll (statements labelledTokens)).map
        (fun m => m.ctx.graph "g" labelledGraph) ∧
    Balanced (statements labelledTokens) ∧
    ((∀ body entry inner final,
        SubgraphBlock (Machine.start Dict.empty) (statements labelledTokens) body entry inner final →
        Scoped body entry inner final) ↔
      ∀ body entry inner final,
        SubgraphBlock (Machine.start Dict.empty) (statements labelledTokens) body entry inner final →
        Quiet body entry) :=
  subgraphs_scoped_iff Dict.empty labelledTokens_read.1 labelledTokens_read.2

/-- A subgraph without a label takes the label of the graph away, and an edge default is
left behind. -/
theorem subgraph_takes_label :
    ¬ ∀ (source name : String) (text : List Char) (tokens : List String),
      digraphOf (stripComments source.toList) = .ok (name, text) → tokenize text = .ok tokens →
      ∀ body entry inner final,
        SubgraphBlock (Machine.start Dict.empty) (statements tokens) body entry inner final →
        Scoped body entry inner final := by
  intro h
  obtain ⟨hgraph, hread⟩ := labelledTokens_read
  obtain ⟨attrs, attrs', hcommands⟩ : ∃ attrs attrs', statements labelledTokens =
      [.graphAttr "label" (.str "G"), .enter, .node "a" attrs, .edgeDefaults attrs', .leave] :=
    ⟨_, _, rfl⟩
  have hbal : Balanced [.node "a" attrs, .edgeDefaults attrs'] :=
    .command (by simp) (by simp) (.command (by simp) (by simp) .nil)
  have hblock : SubgraphBlock (Machine.start Dict.empty) (statements labelledTokens)
      [.node "a" attrs, .edgeDefaults attrs']
      { graphAttrs := Dict.empty.set "label" "G" } _ _ :=
    ⟨[.graphAttr "label" (.str "G")], [], [], hcommands, hbal, rfl, _, rfl, _, rfl⟩
  have hscoped := h labelledGraph "g" labelledText labelledTokens hgraph hread _ _ _ _ hblock
  exact absurd (quiet_of_scoped hblock hscoped).label (by decide)

end Demo

end Dot
end DotRunner
