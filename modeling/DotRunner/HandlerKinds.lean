import DotRunner.Handlers
import DotRunner.Py.Ascii

/-!
# The kinds of a node

Dispatch, the output table, the linter and the shape tests of the engine each
resolve what kind of node they have before them, every one in its own order.
-/

namespace DotRunner

open Py

/-- The values of `SHAPE_TO_HANDLER`. -/
def knownHandlerTypes : List String := supportedShapes.filterMap shapeToHandler

/-- A text that names a built-in handler type. -/
def knownType : Value → Option String
  | .str s => if s ∈ knownHandlerTypes then some s else none
  | _ => none

/-- `_effective_handler_type` of the linter: nothing is said of a custom type. -/
def effectiveHandlerType (node : Node) : Option String :=
  match (knownType (.str node.type)).or (knownType (node.attr "node_type")) with
  | some handlerType => some handlerType
  | none =>
    if (Value.str node.type).truthy || (node.attr "node_type").truthy then none
    else shapeToHandler node.shape

/-- The handlers of a new registry, and those registered since. -/
def registryWith (customs : List String) : HandlerRegistry := ⟨standardHandlers ++ customs⟩

/-- A node whose `type` names a handler has the shape that goes with it and no
built-in `node_type` besides a custom one; any other node has no `type`, and a
`node_type` only where its shape says the same. -/
def Unambiguous (customs : List String) (node : Node) : Prop :=
  (node.type ≠ "" ∧ node.type ∈ standardHandlers ++ customs ∧
    (node.type ∈ standardHandlers ∨ ∀ s ∈ standardHandlers, node.attr "node_type" ≠ .str s) ∧
    (node.shape = "component" ↔ node.type = "parallel") ∧
    (node.shape = "tripleoctagon" ↔ node.type = "parallel.fan_in")) ∨
  (node.type = "" ∧
    (node.attr "node_type" = .str (resolveHandlerType "" node.shape) ∨
      ((node.attr "node_type").truthy = false ∧ node.shape ∈ supportedShapes)))

theorem mem_knownHandlerTypes (s : String) : s ∈ knownHandlerTypes ↔ s ∈ standardHandlers := by
  have hsub : ∀ s ∈ knownHandlerTypes, s ∈ standardHandlers := by decide
  have hsup : ∀ s ∈ standardHandlers, s ∈ knownHandlerTypes := by decide
  exact ⟨hsub s, hsup s⟩

theorem shapeToHandler_isSome (shape : String) :
    (shapeToHandler shape).isSome = true ↔ shape ∈ supportedShapes := by
  constructor
  · intro h
    by_contra hno
    simp only [supportedShapes, List.mem_cons, not_or] at hno
    obtain ⟨h₁, h₂, h₃, h₄, h₅, h₆, h₇, h₈, h₉, h₁₀, -⟩ := hno
    rw [shapeToHandler, if_neg h₁, if_neg h₂, if_neg h₃, if_neg h₅, if_neg h₇, if_neg h₄,
      if_neg h₁₀, if_neg h₉, if_neg h₈, if_neg h₆] at h
    cases h
  · have hall : ∀ s ∈ supportedShapes, (shapeToHandler s).isSome = true := by decide
    exact hall shape

/-- An unknown shape stands for a model call. -/
theorem resolveHandlerType_unsupported {shape : String} (h : shape ∉ supportedShapes) :
    resolveHandlerType "" shape = "codergen" := by
  have hnone : shapeToHandler shape = none := by
    rw [← Option.not_isSome_iff_eq_none, shapeToHandler_isSome]
    exact h
  show (shapeToHandler shape).getD "codergen" = "codergen"
  rw [hnone]
  rfl

/-- What a shape stands for is a built-in type. -/
theorem resolveHandlerType_mem (shape : String) :
    resolveHandlerType "" shape ∈ standardHandlers := by
  by_cases hs : shape ∈ supportedShapes
  · have hall : ∀ s ∈ supportedShapes, resolveHandlerType "" s ∈ standardHandlers := by decide
    exact hall shape hs
  · rw [resolveHandlerType_unsupported hs]
    decide

/-- One shape stands for `kind`, if the table says so and it is not the fallback. -/
theorem shape_iff_of_table {special kind : String} (hkind : kind ≠ "codergen")
    (hmem : special ∈ supportedShapes)
    (htable : ∀ s ∈ supportedShapes, s = special ↔ resolveHandlerType "" s = kind)
    (shape : String) : shape = special ↔ resolveHandlerType "" shape = kind := by
  by_cases hs : shape ∈ supportedShapes
  · exact htable shape hs
  · rw [resolveHandlerType_unsupported hs]
    exact iff_of_false (fun heq => hs (heq ▸ hmem)) hkind.symm

theorem resolveHandlerType_parallel (shape : String) :
    shape = "component" ↔ resolveHandlerType "" shape = "parallel" :=
  shape_iff_of_table (by decide) (by decide) (by decide) shape

theorem resolveHandlerType_fanIn (shape : String) :
    shape = "tripleoctagon" ↔ resolveHandlerType "" shape = "parallel.fan_in" :=
  shape_iff_of_table (by decide) (by decide) (by decide) shape

theorem shapeToHandler_supported {shape : String} (h : shape ∈ supportedShapes) :
    shapeToHandler shape = some (resolveHandlerType "" shape) := by
  have hs := (shapeToHandler_isSome shape).mpr h
  obtain ⟨k, hk⟩ := Option.isSome_iff_exists.mp hs
  simp [resolveHandlerType, hk]

theorem resolveHandlerType_explicit {type : String} (shape : String) (h : type ≠ "") :
    resolveHandlerType type shape = type := by
  simp [resolveHandlerType, h]

/-- A built-in type is registered, whatever else is. -/
theorem names_standard (customs : List String) {s : String} (h : s ∈ standardHandlers) :
    (registryWith customs).names (.str s) = some s := by
  have hne : s ≠ "" := by rintro rfl; revert h; decide
  have hmem : s ∈ (registryWith customs).handlers := List.mem_append_left _ h
  simp [HandlerRegistry.names, hne, hmem]

theorem mem_registryWith {customs : List String} {s : String} :
    s ∈ (registryWith customs).handlers ↔ s ∈ standardHandlers ++ customs := Iff.rfl

theorem effective_of_type {node : Node} (h : node.type ∈ standardHandlers) :
    effectiveHandlerType node = some node.type := by
  have hknown := (mem_knownHandlerTypes node.type).mpr h
  simp [effectiveHandlerType, knownType, hknown]

/-- Of a custom type the linter says nothing, unless there is a built-in
`node_type` to fall back on. -/
theorem effective_of_custom {node : Node} (hne : node.type ≠ "")
    (h : node.type ∉ standardHandlers) :
    effectiveHandlerType node = none ↔
      ∀ s ∈ standardHandlers, node.attr "node_type" ≠ .str s := by
  have hknown : node.type ∉ knownHandlerTypes := fun hm => h ((mem_knownHandlerTypes _).mp hm)
  have htruthy : (Value.str node.type).truthy = true := by simp [Value.truthy, hne]
  cases hv : node.attr "node_type" with
  | str t =>
    by_cases ht : t ∈ standardHandlers
    · have htk := (mem_knownHandlerTypes t).mpr ht
      simp [effectiveHandlerType, knownType, hknown, hv, htk, ht]
    · have htk : t ∉ knownHandlerTypes := fun hm => ht ((mem_knownHandlerTypes _).mp hm)
      simp only [effectiveHandlerType, knownType, hknown, hv, htk, htruthy, if_false,
        Option.or_none, Bool.true_or, if_true, true_iff]
      rintro s hs ⟨⟩
      exact ht hs
  | _ => simp [effectiveHandlerType, knownType, hknown, hv, htruthy]

/-- Without a `type` the linter follows the shape only where the `node_type`
names the same kind or is not set. -/
theorem effective_of_shape {node : Node} (h : node.type = "") :
    effectiveHandlerType node = some (resolveHandlerType "" node.shape) ↔
      node.attr "node_type" = .str (resolveHandlerType "" node.shape) ∨
      ((node.attr "node_type").truthy = false ∧ node.shape ∈ supportedShapes) := by
  obtain ⟨k, hk⟩ : ∃ k, k = resolveHandlerType "" node.shape := ⟨_, rfl⟩
  have hmem : k ∈ knownHandlerTypes := (mem_knownHandlerTypes k).mpr (hk ▸ resolveHandlerType_mem _)
  have hempty : "" ∉ knownHandlerTypes := by decide
  rw [← hk]
  have hshape : shapeToHandler node.shape = some k ↔ node.shape ∈ supportedShapes := by
    constructor
    · intro h
      exact (shapeToHandler_isSome _).mp (by rw [h]; rfl)
    · intro h
      rw [shapeToHandler_supported h, hk]
  cases hv : node.attr "node_type" with
  | str t =>
    by_cases ht : t ∈ knownHandlerTypes
    · have hne : t ≠ "" := fun he => hempty (he ▸ ht)
      simp [effectiveHandlerType, knownType, hempty, h, hv, ht, Value.truthy, hne]
    · have hne : t ≠ k := fun he => ht (he ▸ hmem)
      simp [effectiveHandlerType, knownType, hempty, h, hv, ht, Value.truthy, hne, hshape]
  | _ => simp [effectiveHandlerType, knownType, hempty, h, hv, hshape, Value.truthy]

section Kinds

variable [Runtime]

/-- All resolvers take the node for one of kind `k`. -/
structure SameKind (r : HandlerRegistry) (node : Node) (k : String) : Prop where
  dispatched : r.get node = .ok k
  inferred : resolveHandlerType node.type node.shape = k
  linted : effectiveHandlerType node = if k ∈ knownHandlerTypes then some k else none
  fansOut : node.shape = "component" ↔ k = "parallel"
  endsBranch : node.shape = "tripleoctagon" ↔ k = "parallel.fan_in"

/-- Dispatch finds registered handlers only. -/
theorem get_registered {r : HandlerRegistry} {node : Node} {k : String}
    (h : r.get node = .ok k) : k ∈ r.handlers := by
  have hnames : ∀ v s, r.names v = some s → s ∈ r.handlers := by
    intro v s hv
    cases v <;> simp_all [HandlerRegistry.names]
    exact hv.2 ▸ hv.1.2
  unfold HandlerRegistry.get at h
  split at h
  · rename_i s hs
    injection h with h
    subst h
    rcases Option.or_eq_some_iff.mp hs with h | ⟨-, h⟩ <;> exact hnames _ _ h
  · split at h
    · cases h
    · split at h
      · rename_i hcontains
        injection h with h
        subst h
        simpa using hcontains
      · cases h

theorem get_of_type {customs : List String} {node : Node} (hne : node.type ≠ "")
    (h : node.type ∈ standardHandlers ++ customs) :
    (registryWith customs).get node = .ok node.type := by
  have hnames : (registryWith customs).names (.str node.type) = some node.type := by
    simp [HandlerRegistry.names, hne, mem_registryWith.mpr h]
  simp [HandlerRegistry.get, hnames]

theorem get_of_shape {customs : List String} {node : Node} (h : node.type = "")
    (hcond : node.attr "node_type" = .str (resolveHandlerType "" node.shape) ∨
      ((node.attr "node_type").truthy = false ∧ node.shape ∈ supportedShapes)) :
    (registryWith customs).get node = .ok (resolveHandlerType "" node.shape) := by
  obtain ⟨k, hk⟩ : ∃ k, k = resolveHandlerType "" node.shape := ⟨_, rfl⟩
  have hmem : k ∈ standardHandlers := hk ▸ resolveHandlerType_mem _
  have hempty : (registryWith customs).names (.str node.type) = none := by
    simp [HandlerRegistry.names, h]
  rw [← hk] at hcond ⊢
  rcases hcond with hattr | ⟨hattr, hshape⟩
  · simp [HandlerRegistry.get, hempty, hattr, names_standard customs hmem]
  · have hnone : (registryWith customs).names (node.attr "node_type") = none := by
      cases hv : node.attr "node_type" with
      | str t =>
        have ht : t = "" := by simpa [hv, Value.truthy] using hattr
        simp [HandlerRegistry.names, ht]
      | _ => rfl
    have hreg : k ∈ (registryWith customs).handlers := List.mem_append_left _ hmem
    simp [HandlerRegistry.get, hempty, hnone, shapeToHandler_supported hshape, ← hk, hreg]

/-- The resolvers agree on a node exactly where it says what it is only once. -/
theorem kinds_agree_iff (customs : List String) (node : Node) :
    (∃ k, SameKind (registryWith customs) node k) ↔ Unambiguous customs node := by
  constructor
  · rintro ⟨k, hsame⟩
    by_cases htype : node.type = ""
    · have hk : k = resolveHandlerType "" node.shape := by rw [← hsame.inferred, htype]
      have hknown : k ∈ knownHandlerTypes :=
        (mem_knownHandlerTypes k).mpr (hk ▸ resolveHandlerType_mem _)
      have hlint := hsame.linted
      rw [if_pos hknown, hk] at hlint
      exact .inr ⟨htype, (effective_of_shape htype).mp hlint⟩
    · have hk : k = node.type := by rw [← hsame.inferred, resolveHandlerType_explicit _ htype]
      subst hk
      have hreg := mem_registryWith.mp (get_registered hsame.dispatched)
      have hsilent : node.type ∈ standardHandlers ∨
          ∀ s ∈ standardHandlers, node.attr "node_type" ≠ .str s := by
        by_cases hstd : node.type ∈ standardHandlers
        · exact .inl hstd
        · have hknown : node.type ∉ knownHandlerTypes :=
            fun hm => hstd ((mem_knownHandlerTypes _).mp hm)
          have hlint := hsame.linted
          rw [if_neg hknown] at hlint
          exact .inr ((effective_of_custom htype hstd).mp hlint)
      exact .inl ⟨htype, hreg, hsilent, hsame.fansOut, hsame.endsBranch⟩
  · rintro (⟨htype, hreg, hsilent, hout, hend⟩ | ⟨htype, hcond⟩)
    · refine ⟨node.type, get_of_type htype hreg, resolveHandlerType_explicit _ htype, ?_, hout, hend⟩
      by_cases hstd : node.type ∈ standardHandlers
      · rw [if_pos ((mem_knownHandlerTypes _).mpr hstd), effective_of_type hstd]
      · have hknown : node.type ∉ knownHandlerTypes :=
          fun hm => hstd ((mem_knownHandlerTypes _).mp hm)
        rw [if_neg hknown]
        exact (effective_of_custom htype hstd).mpr (hsilent.resolve_left hstd)
    · have hknown := (mem_knownHandlerTypes _).mpr (resolveHandlerType_mem node.shape)
      refine ⟨resolveHandlerType "" node.shape, get_of_shape htype hcond, by rw [htype], ?_,
        resolveHandlerType_parallel _, resolveHandlerType_fanIn _⟩
      rw [if_pos hknown]
      exact (effective_of_shape htype).mpr hcond

end Kinds

section Demo

open Py.Ascii

/-- A parallelogram with a `node_type` of its own is dispatched as a model call,
and its outputs are those of a tool. -/
theorem node_type_splits_kinds :
    ¬ ∀ node : Node, ∃ k, SameKind (registryWith []) node k := by
  intro h
  obtain ⟨k, hsame⟩ := h
    ⟨"n", "n", "parallelogram", "", "", Dict.empty.set "node_type" (.str "codergen"),
      .none, .none, .none, .none, .none, .none, .none, .none⟩
  have hk : "tool" = k := hsame.inferred
  have hget := hsame.dispatched
  rw [← hk] at hget
  revert hget
  decide +kernel

end Demo

end DotRunner
