import DotRunner.Dot.Commands
import DotRunner.Py.Ascii

/-!
# What a parse can come to

The nodes and the edges of a parsed graph are those its commands name, and an
exception is a `ValueError` unless an assignment breaks off at the end.
-/

namespace DotRunner
namespace Dot

open Py

/-- `[A-Za-z_][A-Za-z0-9_]*`, the identifiers of the grammar. -/
def isGrammarId (id : String) : Bool :=
  match id.toList with
  | c :: r => isIdentStart c && r.all isIdentChar
  | [] => false

/-- Every node is stored under its id, and every edge joins two of them. -/
structure ParseContext.Sound (ctx : ParseContext) : Prop where
  keyed : ∀ p ∈ ctx.nodes.entries, p.2.id = p.1
  endpoints : ∀ e ∈ ctx.edges, e.fromNode ∈ ctx.nodes.keys ∧ e.toNode ∈ ctx.nodes.keys

/-- A graph as the grammar has it. -/
structure WellFormed (g : ParsedGraph) : Prop where
  keyed : ∀ p ∈ g.nodes.entries, p.2.id = p.1
  ids : ∀ id ∈ g.nodes.keys, isGrammarId id = true
  endpoints : ∀ e ∈ g.edges, e.fromNode ∈ g.nodes.keys ∧ e.toNode ∈ g.nodes.keys

def IsValueError (e : PyExc) : Prop := ∃ text, e = .valueError text

/-- The nodes a command names; a chain without an edge names none. -/
def Command.ids : Command → List String
  | .node id _ => [id]
  | .chain _ [] _ => []
  | .chain first (id :: ids) _ => first :: id :: ids
  | _ => []

/-- A command that is cut off, or names what is no identifier. -/
def Command.isSound : Command → Bool
  | .truncated => false
  | c => c.ids.all isGrammarId

theorem Sound.frame {ctx ctx' : ParseContext} (h : ctx.Sound) (hn : ctx'.nodes = ctx.nodes)
    (he : ctx'.edges = ctx.edges) : ctx'.Sound := by
  refine ⟨?_, ?_⟩
  · rw [hn]
    exact h.keyed
  · rw [hn, he]
    exact h.endpoints

section Nodes

/-- One more node under its id. -/
theorem Sound.set {ctx : ParseContext} (h : ctx.Sound) {id : String} {node : ParsedNode}
    (hid : node.id = id) : ParseContext.Sound { ctx with nodes := ctx.nodes.set id node } := by
  refine ⟨Dict.forall_mem_insertEntry hid h.keyed, fun e he => ?_⟩
  obtain ⟨hfrom, hto⟩ := h.endpoints e he
  exact ⟨(ctx.nodes.mem_keys_set _ _ _).mpr (.inr hfrom), (ctx.nodes.mem_keys_set _ _ _).mpr (.inr hto)⟩

theorem keys_ensureNode (ctx : ParseContext) (id k : String) :
    k ∈ (ctx.ensureNode id).nodes.keys ↔ k = id ∨ k ∈ ctx.nodes.keys := by
  unfold ParseContext.ensureNode ParseContext.hasNode
  by_cases hid : ctx.nodes.contains id = true
  · rw [if_pos hid]
    refine ⟨.inr, fun h => ?_⟩
    rcases h with rfl | h
    · exact ctx.nodes.contains_iff.mp hid
    · exact h
  · rw [if_neg hid]
    exact ctx.nodes.mem_keys_set _ _ _

theorem Sound.ensureNode {ctx : ParseContext} (h : ctx.Sound) (id : String) :
    (ctx.ensureNode id).Sound := by
  unfold ParseContext.ensureNode
  split
  · exact h
  · exact Sound.set h rfl

theorem edgeDefaults_ensureNode (ctx : ParseContext) (id : String) :
    (ctx.ensureNode id).edgeDefaults = ctx.edgeDefaults := by
  unfold ParseContext.ensureNode
  split <;> rfl

theorem params_ensureNode (ctx : ParseContext) (id : String) :
    (ctx.ensureNode id).params = ctx.params := by
  unfold ParseContext.ensureNode
  split <;> rfl

end Nodes

section Effects

variable [Runtime]

theorem keys_applyNode (ctx : ParseContext) (id k : String) (explicit : Record) :
    k ∈ (ctx.applyNode id explicit).nodes.keys ↔ k = id ∨ k ∈ ctx.nodes.keys := by
  unfold ParseContext.applyNode
  split <;> exact ctx.nodes.mem_keys_set _ _ _

theorem Sound.applyNode {ctx : ParseContext} (h : ctx.Sound) (id : String) (explicit : Record) :
    (ctx.applyNode id explicit).Sound := by
  unfold ParseContext.applyNode
  split
  · rename_i node hnode
    have hid : node.id = id := h.keyed (id, node) ((Dict.get?_eq_some_iff _).mp hnode)
    exact Sound.set h hid
  · exact Sound.set h rfl

/-- What a command that goes through leaves: the nodes it names and the edges
between them, the defaults of the edges and the parameters. -/
structure Effect (ctx ctx' : ParseContext) (ids : List String) : Prop where
  keys : ∀ k, k ∈ ctx'.nodes.keys ↔ k ∈ ctx.nodes.keys ∨ k ∈ ids
  sound : ctx.Sound → ctx'.Sound
  edgeDefaults : ctx'.edgeDefaults = ctx.edgeDefaults
  params : ctx'.params = ctx.params

omit [Runtime] in
theorem Effect.trans {ctx ctx' ctx'' : ParseContext} {ids ids' : List String}
    (h : Effect ctx ctx' ids) (h' : Effect ctx' ctx'' ids') : Effect ctx ctx'' (ids ++ ids') where
  keys := fun k => by rw [h'.keys, h.keys, List.mem_append, or_assoc]
  sound := fun hs => h'.sound (h.sound hs)
  edgeDefaults := h'.edgeDefaults.trans h.edgeDefaults
  params := h'.params.trans h.params

omit [Runtime] in
theorem Effect.congr {ctx ctx' : ParseContext} {ids ids' : List String} (h : Effect ctx ctx' ids)
    (hids : ∀ k, k ∈ ids ↔ k ∈ ids') : Effect ctx ctx' ids' :=
  { h with keys := fun k => by rw [h.keys, hids] }

omit [Runtime] in
theorem effect_of_same {ctx ctx' : ParseContext} (hn : ctx'.nodes = ctx.nodes)
    (he : ctx'.edges = ctx.edges) (hd : ctx'.edgeDefaults = ctx.edgeDefaults)
    (hp : ctx'.params = ctx.params) : Effect ctx ctx' [] where
  keys := fun k => by rw [hn]; simp
  sound := fun h => Sound.frame h hn he
  edgeDefaults := hd
  params := hp

theorem applyNode_effect (ctx : ParseContext) (id : String) (explicit : Record) :
    Effect ctx (ctx.applyNode id explicit) [id] where
  keys := fun k => by rw [keys_applyNode, List.mem_singleton, or_comm]
  sound := fun h => Sound.applyNode h id explicit
  edgeDefaults := by unfold ParseContext.applyNode; split <;> rfl
  params := by unfold ParseContext.applyNode; split <;> rfl

theorem addEdge_effect {ctx ctx' : ParseContext} {fromId toId : String} {attrs : Record}
    (h : ctx.addEdge fromId toId attrs = .ok ctx') : Effect ctx ctx' [fromId, toId] := by
  unfold ParseContext.addEdge at h
  cases he : newEdge fromId toId (ctx.edgeDefaults.update attrs) with
  | error x =>
    rw [he] at h
    cases h
  | ok e =>
    rw [he] at h
    cases h
    have hends : e.fromNode = fromId ∧ e.toNode = toId := by
      unfold newEdge at he
      cases hw : edgeWeight (ctx.edgeDefaults.update attrs) with
      | error x =>
        rw [hw] at he
        cases he
      | ok w =>
        rw [hw] at he
        cases he
        exact ⟨rfl, rfl⟩
    have hkeys : ∀ k, k ∈ ((ctx.ensureNode fromId).ensureNode toId).nodes.keys ↔
        k ∈ ctx.nodes.keys ∨ k ∈ [fromId, toId] := by
      intro k
      rw [keys_ensureNode, keys_ensureNode]
      simp only [List.mem_cons, List.not_mem_nil, or_false]
      tauto
    refine ⟨hkeys, fun hs => ?_, ?_, ?_⟩
    · have hs' := Sound.ensureNode (Sound.ensureNode hs fromId) toId
      refine ⟨hs'.keyed, fun e' he' => ?_⟩
      rcases List.mem_append.mp he' with hold | hnew
      · exact hs'.endpoints e' hold
      · obtain rfl := List.mem_singleton.mp hnew
        rw [hends.1, hends.2]
        exact ⟨(hkeys _).mpr (.inr (by simp)), (hkeys _).mpr (.inr (by simp))⟩
    · rw [show _ = ((ctx.ensureNode fromId).ensureNode toId).edgeDefaults from rfl,
        edgeDefaults_ensureNode, edgeDefaults_ensureNode]
    · rw [show _ = ((ctx.ensureNode fromId).ensureNode toId).params from rfl,
        params_ensureNode, params_ensureNode]

theorem addChain_effect {ctx ctx' : ParseContext} {first : String} {attrs : Record}
    {ids : List String} (h : ctx.addChain first attrs ids = .ok ctx') :
    Effect ctx ctx' (Command.chain first ids attrs).ids := by
  induction ids generalizing ctx first with
  | nil =>
    cases h
    exact effect_of_same rfl rfl rfl rfl
  | cons id ids ih =>
    unfold ParseContext.addChain at h
    cases he : ctx.addEdge first id attrs with
    | error x =>
      rw [he] at h
      cases h
    | ok ctx₁ =>
      rw [he] at h
      refine ((addEdge_effect he).trans (ih h)).congr fun k => ?_
      cases ids with
      | nil => simp [Command.ids]
      | cons id' ids =>
        simp only [Command.ids, List.mem_append, List.mem_cons, List.not_mem_nil, or_false]
        tauto

theorem setGraphAttr_effect {ctx ctx' : ParseContext} {key : String} {v : Value}
    (h : ctx.setGraphAttr key v = .ok ctx') : Effect ctx ctx' [] := by
  unfold ParseContext.setGraphAttr at h
  split at h
  · cases h
    exact effect_of_same rfl rfl rfl rfl
  · split at h
    · cases h
      exact effect_of_same rfl rfl rfl rfl
    · split at h
      · cases h
        exact effect_of_same rfl rfl rfl rfl
      · split at h
        · cases hd : resolveGraphDuration ctx.params key v with
          | error e =>
            rw [hd] at h
            cases h
          | ok d =>
            rw [hd] at h
            cases h
            exact effect_of_same rfl rfl rfl rfl
        · cases h
          exact effect_of_same rfl rfl rfl rfl

theorem setGraphAttrs_effect {ctx ctx' : ParseContext} {attrs : List (String × Value)}
    (h : ctx.setGraphAttrs attrs = .ok ctx') : Effect ctx ctx' [] := by
  induction attrs generalizing ctx with
  | nil =>
    cases h
    exact effect_of_same rfl rfl rfl rfl
  | cons p rest ih =>
    obtain ⟨key, v⟩ := p
    unfold ParseContext.setGraphAttrs at h
    cases hs : ctx.setGraphAttr key v with
    | error e =>
      rw [hs] at h
      cases h
    | ok ctx₁ =>
      rw [hs] at h
      exact (setGraphAttr_effect hs).trans (ih h)

omit [Runtime] in
theorem keys_classify (name : String) (before : List String) (nodes : Dict String ParsedNode) :
    (classify name before nodes).keys = nodes.keys := by
  unfold classify
  split
  · rfl
  · exact Dict.keys_mapVals _ _

omit [Runtime] in
theorem keyed_classify (name : String) (before : List String) {nodes : Dict String ParsedNode}
    (h : ∀ p ∈ nodes.entries, p.2.id = p.1) :
    ∀ p ∈ (classify name before nodes).entries, p.2.id = p.1 := by
  unfold classify
  split
  · exact h
  · intro p hp
    obtain ⟨q, hq, rfl⟩ := List.mem_map.mp hp
    have hid := h q hq
    dsimp only
    split
    · exact hid
    · unfold withClass
      split <;> exact hid

theorem closeSubgraph_effect (ctx : ParseContext) (saved : Record) (before : List String) :
    Effect ctx (ctx.closeSubgraph saved before) [] := by
  have hkeys : (ctx.closeSubgraph saved before).nodes.keys = ctx.nodes.keys :=
    keys_classify _ _ _
  refine ⟨fun k => by rw [hkeys]; simp, fun hs => ⟨keyed_classify _ _ hs.keyed, ?_⟩, rfl, rfl⟩
  intro e he
  rw [hkeys]
  exact hs.endpoints e he

/-- The edge defaults after a command. -/
def Command.edgeDefaultsAfter (d : Record) : Command → Record
  | .edgeDefaults attrs => d.update attrs
  | _ => d

/-- What a command that goes through does to the machine. -/
theorem run_effect {m m' : Machine} {c : Command} (h : m.run c = .ok m') :
    (∀ k, k ∈ m'.ctx.nodes.keys ↔ k ∈ m.ctx.nodes.keys ∨ k ∈ c.ids) ∧
      (m.ctx.Sound → m'.ctx.Sound) ∧
      m'.ctx.edgeDefaults = c.edgeDefaultsAfter m.ctx.edgeDefaults ∧ m'.ctx.params = m.ctx.params := by
  have hof : ∀ ids, c.ids = ids → c.edgeDefaultsAfter m.ctx.edgeDefaults = m.ctx.edgeDefaults →
      Effect m.ctx m'.ctx ids → (∀ k, k ∈ m'.ctx.nodes.keys ↔ k ∈ m.ctx.nodes.keys ∨ k ∈ c.ids) ∧
      (m.ctx.Sound → m'.ctx.Sound) ∧
      m'.ctx.edgeDefaults = c.edgeDefaultsAfter m.ctx.edgeDefaults ∧
      m'.ctx.params = m.ctx.params := by
    rintro ids rfl hd he
    exact ⟨he.keys, he.sound, he.edgeDefaults.trans hd.symm, he.params⟩
  cases c with
  | graphAttrs attrs =>
    simp only [Machine.run] at h
    cases hr : m.ctx.setGraphAttrs attrs with
    | error e =>
      rw [hr] at h
      cases h
    | ok ctx =>
      rw [hr] at h
      cases h
      exact hof [] rfl rfl (setGraphAttrs_effect hr)
  | nodeDefaults attrs =>
    cases h
    exact hof [] rfl rfl (effect_of_same rfl rfl rfl rfl)
  | edgeDefaults attrs =>
    cases h
    refine ⟨fun k => ?_, fun hs => Sound.frame hs rfl rfl, rfl, rfl⟩
    show _ ↔ _ ∨ k ∈ []
    simp
  | chain first rest attrs =>
    simp only [Machine.run] at h
    cases hr : m.ctx.addChain first attrs rest with
    | error e =>
      rw [hr] at h
      cases h
    | ok ctx =>
      rw [hr] at h
      cases h
      exact hof _ rfl rfl (addChain_effect hr)
  | graphAttr key v =>
    simp only [Machine.run] at h
    cases hr : m.ctx.setGraphAttr key v with
    | error e =>
      rw [hr] at h
      cases h
    | ok ctx =>
      rw [hr] at h
      cases h
      exact hof [] rfl rfl (setGraphAttr_effect hr)
  | truncated => cases h
  | node id attrs =>
    cases h
    exact hof [id] rfl rfl (applyNode_effect m.ctx id attrs)
  | enter =>
    cases h
    exact hof [] rfl rfl (effect_of_same rfl rfl rfl rfl)
  | leave =>
    simp only [Machine.run] at h
    cases hf : m.frames with
    | nil =>
      rw [hf] at h
      cases h
      exact hof [] rfl rfl (effect_of_same rfl rfl rfl rfl)
    | cons f frames =>
      rw [hf] at h
      cases h
      exact hof [] rfl rfl (closeSubgraph_effect _ _ _)

end Effects

/-! ## Exceptions -/

section Refusals

variable [Runtime]

/-- Exactly where `refused` says so `r` is an exception, and then a `ValueError`. -/
def Refuses {α : Type} (refused : Bool) : Except PyExc α → Prop
  | .ok _ => refused = false
  | .error e => refused = true ∧ IsValueError e

omit [Runtime] in
theorem Refuses.bind {α β : Type} {b b' : Bool} {r : Except PyExc α} {f : α → Except PyExc β}
    (h : Refuses b r) (hf : ∀ a, r = .ok a → Refuses b' (f a)) :
    Refuses (b || b') (r >>= f) := by
  cases r with
  | error e => exact ⟨by rw [h.1, Bool.true_or], h.2⟩
  | ok a =>
    rw [show b = false from h, Bool.false_or]
    exact hf a rfl

omit [Runtime] in
theorem refuses_isOk {α : Type} {r : Except PyExc α} (h : ∀ e, r = .error e → IsValueError e) :
    Refuses (!r.isOk) r := by
  cases r with
  | error e => exact ⟨rfl, h e rfl⟩
  | ok a => rfl

theorem valueError_of_toInt {s : String} {e : PyExc} (h : (Value.str s).toInt = .error e) :
    IsValueError e := by
  unfold Value.toInt at h
  dsimp only at h
  split at h
  · cases h
  · cases h
    exact ⟨_, rfl⟩

theorem valueError_of_map_toInt {s : String} {e : PyExc}
    (h : (Value.str s).toInt.map Value.int = .error e) : IsValueError e := by
  cases hi : (Value.str s).toInt with
  | ok i =>
    rw [hi] at h
    cases h
  | error e' =>
    rw [hi] at h
    cases h
    exact valueError_of_toInt hi

theorem valueError_of_durationOf {v : Value} {e : PyExc} (h : durationOf v = .error e) :
    IsValueError e := by
  unfold durationOf at h
  split at h
  · cases h
  · cases h
  · split at h
    · cases h
    · exact valueError_of_map_toInt h

theorem valueError_of_resolve {params : Dict String String} {key : String} {v : Value} {e : PyExc}
    (h : resolveGraphDuration params key v = .error e) : IsValueError e := by
  unfold resolveGraphDuration at h
  split at h
  · split at h
    · split at h
      · exact valueError_of_durationOf h
      · cases h
        exact ⟨_, rfl⟩
    · exact valueError_of_durationOf h
  · exact valueError_of_durationOf h

theorem valueError_of_edgeWeight {attrs : Record} {e : PyExc} (h : edgeWeight attrs = .error e) :
    IsValueError e := by
  unfold edgeWeight at h
  split at h
  · exact valueError_of_map_toInt h
  · cases h

/-- A pipeline duration that is none. -/
def refusedAttr (params : Dict String String) (key : String) (v : Value) : Bool :=
  key == "max_pipeline_duration" && !(resolveGraphDuration params key v).isOk

/-- A command with a value the parser refuses: a weight that is no integer, a
pipeline duration that is none. -/
def Command.refused (params : Dict String String) (edgeDefaults : Record) : Command → Bool
  | .graphAttrs attrs => attrs.any fun p => refusedAttr params p.1 p.2
  | .graphAttr key v => refusedAttr params key v
  | .chain _ (_ :: _) attrs => !(edgeWeight (edgeDefaults.update attrs)).isOk
  | _ => false

theorem setGraphAttr_refuses (ctx : ParseContext) (key : String) (v : Value) :
    Refuses (refusedAttr ctx.params key v) (ctx.setGraphAttr key v) := by
  unfold ParseContext.setGraphAttr refusedAttr
  by_cases hd : key = "max_pipeline_duration"
  · subst hd
    simp only [String.reduceEq, or_self, if_false, if_true, beq_self_eq_true, Bool.true_and]
    have h := refuses_isOk (r := resolveGraphDuration ctx.params "max_pipeline_duration" v)
      fun e he => valueError_of_resolve he
    cases hr : resolveGraphDuration ctx.params "max_pipeline_duration" v with
    | error e =>
      rw [hr] at h
      exact h
    | ok d => exact rfl
  · have hne : (key == "max_pipeline_duration") = false := by simpa using hd
    rw [hne, Bool.false_and]
    split
    · rfl
    · split
      · rfl
      · split
        · rfl
        · rfl

theorem setGraphAttrs_refuses (ctx : ParseContext) (attrs : List (String × Value)) :
    Refuses (attrs.any fun p => refusedAttr ctx.params p.1 p.2) (ctx.setGraphAttrs attrs) := by
  induction attrs generalizing ctx with
  | nil => rfl
  | cons p rest ih =>
    rw [List.any_cons, ParseContext.setGraphAttrs]
    refine (setGraphAttr_refuses ctx p.1 p.2).bind fun ctx' h => ?_
    have hrest := ih ctx'
    rw [(setGraphAttr_effect h).params] at hrest
    exact hrest

theorem addEdge_refuses (ctx : ParseContext) (fromId toId : String) (attrs : Record) :
    Refuses (!(edgeWeight (ctx.edgeDefaults.update attrs)).isOk)
      (ctx.addEdge fromId toId attrs) := by
  have h := refuses_isOk (r := edgeWeight (ctx.edgeDefaults.update attrs))
    fun e he => valueError_of_edgeWeight he
  unfold ParseContext.addEdge newEdge
  cases hw : edgeWeight (ctx.edgeDefaults.update attrs) with
  | error e =>
    rw [hw] at h
    exact h
  | ok w => rfl

theorem addChain_refuses (ctx : ParseContext) (first : String) (ids : List String) (attrs : Record) :
    Refuses ((Command.chain first ids attrs).refused ctx.params ctx.edgeDefaults)
      (ctx.addChain first attrs ids) := by
  induction ids generalizing ctx first with
  | nil => rfl
  | cons id ids ih =>
    have hsame : (Command.chain first (id :: ids) attrs).refused ctx.params ctx.edgeDefaults =
        (!(edgeWeight (ctx.edgeDefaults.update attrs)).isOk ||
          (Command.chain id ids attrs).refused ctx.params ctx.edgeDefaults) := by
      cases ids with
      | nil => simp [Command.refused]
      | cons _ _ => simp [Command.refused]
    rw [hsame, ParseContext.addChain]
    refine (addEdge_refuses ctx first id attrs).bind fun ctx' h => ?_
    have heff := addEdge_effect h
    have hrest := ih ctx' id
    rw [heff.params, heff.edgeDefaults] at hrest
    exact hrest

/-- Apart from a truncated one, a command raises exactly where it is refused. -/
theorem run_refuses (m : Machine) {c : Command} (hc : c ≠ .truncated) :
    Refuses (c.refused m.ctx.params m.ctx.edgeDefaults) (m.run c) := by
  have hlift : ∀ {b : Bool} {r : Except PyExc ParseContext}, Refuses b r →
      Refuses b (r >>= fun ctx => (.ok { m with ctx := ctx } : Except PyExc Machine)) := by
    intro b r h
    cases r with
    | error e => exact h
    | ok ctx => exact h
  cases c with
  | graphAttrs attrs => exact hlift (setGraphAttrs_refuses m.ctx attrs)
  | nodeDefaults attrs => rfl
  | edgeDefaults attrs => rfl
  | chain first rest attrs => exact hlift (addChain_refuses m.ctx first rest attrs)
  | graphAttr key v => exact hlift (setGraphAttr_refuses m.ctx key v)
  | truncated => exact absurd rfl hc
  | node id attrs => rfl
  | enter => rfl
  | leave =>
    unfold Machine.run
    dsimp only
    split <;> rfl

/-- A command is refused before any is truncated. -/
def Refused (params : Dict String String) : Record → List Command → Prop
  | _, [] => False
  | d, c :: cs => c ≠ .truncated ∧
      (c.refused params d = true ∨ Refused params (c.edgeDefaultsAfter d) cs)

/-- A graph that is well formed, or a `ValueError`. -/
def Orderly {α : Type} (P : α → Prop) : Except PyExc α → Prop
  | .ok a => P a
  | .error e => IsValueError e

/-- Every node of the context is an identifier of the grammar. -/
def GrammarIds (ctx : ParseContext) : Prop := ∀ id ∈ ctx.nodes.keys, isGrammarId id = true

omit [Runtime] in
theorem not_valueError_indexError (text : String) : ¬ IsValueError (.indexError text) :=
  fun ⟨_, h⟩ => by cases h

/-- Running commands is orderly exactly where one is refused in time or all are
sound. -/
theorem runAll_orderly (m : Machine) (cs : List Command) (hs : m.ctx.Sound) :
    Orderly (fun m' => m'.ctx.Sound ∧ GrammarIds m'.ctx) (m.runAll cs) ↔
      Refused m.ctx.params m.ctx.edgeDefaults cs ∨
        GrammarIds m.ctx ∧ ∀ c ∈ cs, c.isSound = true := by
  induction cs generalizing m with
  | nil =>
    show m.ctx.Sound ∧ GrammarIds m.ctx ↔ False ∨ _
    simp [hs]
  | cons c cs ih =>
    by_cases hc : c = .truncated
    · subst hc
      have herr : m.runAll (.truncated :: cs) = .error (.indexError "list index out of range") := rfl
      rw [herr]
      constructor
      · intro h
        exact absurd h (not_valueError_indexError _)
      · rintro (h | ⟨-, h⟩)
        · exact absurd rfl h.1
        · have hfalse := h .truncated List.mem_cons_self
          cases hfalse
    · have hstep := run_refuses m hc
      rw [Machine.runAll, Refused]
      cases hr : m.run c with
      | error e =>
        rw [hr] at hstep
        show IsValueError e ↔ _
        exact ⟨fun _ => .inl ⟨hc, .inl hstep.1⟩, fun _ => hstep.2⟩
      | ok m' =>
        rw [hr] at hstep
        obtain ⟨hkeys, hsound, hdefaults, hparams⟩ := run_effect hr
        show Orderly _ (m'.runAll cs) ↔ _
        rw [ih m' (hsound hs), hdefaults, hparams, show c.refused _ _ = false from hstep]
        have hids : GrammarIds m'.ctx ↔ GrammarIds m.ctx ∧ c.isSound = true := by
          have hall : c.isSound = true ↔ ∀ id ∈ c.ids, isGrammarId id = true := by
            cases c with
            | truncated => exact absurd rfl hc
            | _ => exact List.all_eq_true
          rw [hall, GrammarIds, GrammarIds]
          constructor
          · intro h
            exact ⟨fun id hid => h id ((hkeys id).mpr (.inl hid)),
              fun id hid => h id ((hkeys id).mpr (.inr hid))⟩
          · rintro ⟨hold, hnew⟩ id hid
            rcases (hkeys id).mp hid with h | h
            · exact hold id h
            · exact hnew id h
        rw [hids, List.forall_mem_cons]
        constructor
        · rintro (h | ⟨⟨hold, hnew⟩, hrest⟩)
          · exact .inl ⟨hc, .inr h⟩
          · exact .inr ⟨hold, hnew, hrest⟩
        · rintro (⟨-, h | h⟩ | ⟨hold, hnew, hrest⟩)
          · cases h
          · exact .inl h
          · exact .inr ⟨⟨hold, hnew⟩, hrest⟩

/-! ## The whole parse -/

omit [Runtime] in
theorem valueError_of_tokensOf {pos : Nat} {ms : List (Match Kind)} {e : PyExc}
    (h : tokensOf pos ms = .error e) : IsValueError e := by
  induction ms generalizing pos with
  | nil => cases h
  | cons m ms ih =>
    unfold tokensOf at h
    split at h
    · cases h
      exact ⟨_, rfl⟩
    · cases hr : tokensOf (pos + m.gap.length + m.text.length) ms with
      | error e' =>
        rw [hr] at h
        cases h
        exact ih hr
      | ok tokens =>
        rw [hr] at h
        cases h

theorem valueError_of_digraphOf {cleaned : List Char} {e : PyExc}
    (h : digraphOf cleaned = .error e) : IsValueError e := by
  unfold digraphOf at h
  dsimp only at h
  repeat' split at h
  all_goals
    cases h
    try exact ⟨_, rfl⟩

/-- The commands of a source that has the form of a digraph and tokens. -/
inductive HasCommands (source : String) : List Command → Prop
  | intro {name : String} {body : List Char} {tokens : List String}
      (hbody : digraphOf (stripComments source.toList) = .ok (name, body))
      (htokens : tokenize body = .ok tokens) :
      HasCommands source (commands (tokens.length + 1) tokens)

/-- The source breaks off or misnames a node in no command, or a value is refused
before it breaks off. -/
def SoundSource (source : String) (params : Dict String String) : Prop :=
  ∀ cs, HasCommands source cs → Refused params Dict.empty cs ∨ ∀ c ∈ cs, c.isSound = true

omit [Runtime] in
theorem sound_empty (params : Dict String String) :
    ParseContext.Sound { params := params } :=
  ⟨fun _ h => absurd h List.not_mem_nil, fun _ h => absurd h List.not_mem_nil⟩

end Refusals

section Demo

open Py.Ascii

/-- A quoted text behind an arrow becomes a node. -/
example : (match parseDot "digraph g \x7b a -> \"x y\" \x7d" Dict.empty with
    | .ok g => g.nodes.keys
    | .error _ => []) = ["a", "\"x y\""] := by decide +kernel

end Demo

end Dot
end DotRunner
