import DotRunner.Py.JsonTree

/-!
# Schemas for Gemini

`_sanitize_gemini_schema` takes the keywords Gemini does not know out of every
dictionary of a schema.  Not every dictionary of a schema holds keywords: the keys of
`properties` and `$defs` are names, and what stands under `enum`, `const` or `default`
is data.
-/

namespace DotRunner
namespace Llm
namespace Gemini

open Py JsonValue

/-- `_UNSUPPORTED` -/
def unsupported : List String :=
  ["additionalProperties", "$schema", "$id", "patternProperties", "unevaluatedProperties", "allOf",
    "not", "if", "then", "else", "dependentRequired", "dependentSchemas", "contains",
    "minContains", "maxContains", "prefixItems", "definitions"]

mutual

/-- `_clean` -/
def clean : JsonValue → JsonValue
  | .object kvs => .object (cleanPairs kvs)
  | .array xs => .array (cleanAll xs)
  | v => v
termination_by structural v => v

def cleanPairs : List (String × JsonValue) → List (String × JsonValue)
  | [] => []
  | (k, v) :: kvs => if k ∈ unsupported then cleanPairs kvs else (k, clean v) :: cleanPairs kvs
termination_by structural kvs => kvs

def cleanAll : List JsonValue → List JsonValue
  | [] => []
  | v :: vs => clean v :: cleanAll vs
termination_by structural vs => vs

end

def sanitizeGeminiSchema (schema : JsonValue) : JsonValue :=
  match clean schema with
  | .object kvs => .object kvs
  | _ => schema

/-! ## Schema positions -/

/-- Keywords under which a schema stands, or a list of schemas. -/
def schemaKeywords : List String :=
  ["items", "additionalItems", "unevaluatedItems", "propertyNames", "contentSchema", "anyOf", "oneOf"]

/-- Keywords under which schemas stand by name. -/
def namedKeywords : List String := ["properties", "$defs", "dependencies"]

mutual

/-- The schema without the keywords Gemini does not know, and with all else. -/
def strip : JsonValue → JsonValue
  | .object kvs => .object (stripKeywords kvs)
  | v => v
termination_by structural v => v

def stripKeywords : List (String × JsonValue) → List (String × JsonValue)
  | [] => []
  | (k, v) :: kvs =>
    if k ∈ unsupported then stripKeywords kvs else (k, stripUnder k v) :: stripKeywords kvs
termination_by structural kvs => kvs

/-- What stands under a keyword. -/
def stripUnder (k : String) : JsonValue → JsonValue
  | .object kvs =>
    if k ∈ schemaKeywords then .object (stripKeywords kvs)
    else if k ∈ namedKeywords then .object (stripNamed kvs)
    else .object kvs
  | .array xs => if k ∈ schemaKeywords then .array (stripAll xs) else .array xs
  | v => v
termination_by structural v => v

def stripNamed : List (String × JsonValue) → List (String × JsonValue)
  | [] => []
  | (name, v) :: ms => (name, strip v) :: stripNamed ms
termination_by structural ms => ms

def stripAll : List JsonValue → List JsonValue
  | [] => []
  | v :: vs => strip v :: stripAll vs
termination_by structural vs => vs

end

/-! ## Names that are keywords -/

mutual

/-- No dictionary in it has a key Gemini does not know. -/
def Plain : JsonValue → Prop
  | .object kvs => PlainPairs kvs
  | .array xs => PlainAll xs
  | _ => True
termination_by structural v => v

def PlainPairs : List (String × JsonValue) → Prop
  | [] => True
  | (k, v) :: kvs => k ∉ unsupported ∧ Plain v ∧ PlainPairs kvs
termination_by structural kvs => kvs

def PlainAll : List JsonValue → Prop
  | [] => True
  | v :: vs => Plain v ∧ PlainAll vs
termination_by structural vs => vs

end

mutual

/-- No name and no key of data is a keyword Gemini does not know. -/
def Tidy : JsonValue → Prop
  | .object kvs => TidyKeywords kvs
  | v => Plain v
termination_by structural v => v

def TidyKeywords : List (String × JsonValue) → Prop
  | [] => True
  | (k, v) :: kvs => (k ∈ unsupported ∨ TidyUnder k v) ∧ TidyKeywords kvs
termination_by structural kvs => kvs

def TidyUnder (k : String) : JsonValue → Prop
  | .object kvs =>
    if k ∈ schemaKeywords then TidyKeywords kvs
    else if k ∈ namedKeywords then TidyNamed kvs
    else PlainPairs kvs
  | .array xs => if k ∈ schemaKeywords then TidyAll xs else PlainAll xs
  | _ => True
termination_by structural v => v

def TidyNamed : List (String × JsonValue) → Prop
  | [] => True
  | (name, v) :: ms => name ∉ unsupported ∧ Tidy v ∧ TidyNamed ms
termination_by structural ms => ms

def TidyAll : List JsonValue → Prop
  | [] => True
  | v :: vs => Tidy v ∧ TidyAll vs
termination_by structural vs => vs

end

theorem length_cleanPairs (kvs : List (String × JsonValue)) :
    (cleanPairs kvs).length ≤ kvs.length := by
  induction kvs with
  | nil => exact Nat.le_refl 0
  | cons p kvs ih =>
    obtain ⟨k, v⟩ := p
    rw [cleanPairs]
    split
    · rw [List.length_cons]
      omega
    · simpa using ih

theorem length_stripNamed (ms : List (String × JsonValue)) :
    (stripNamed ms).length = ms.length := by
  induction ms with
  | nil => rfl
  | cons p ms ih =>
    obtain ⟨name, v⟩ := p
    rw [stripNamed, List.length_cons, List.length_cons, ih]

mutual

/-- Data stays as it is where none of its keys is one of the keywords. -/
theorem clean_eq_self_iff : ∀ v : JsonValue, clean v = v ↔ Plain v
  | .object kvs => by
    rw [clean, Plain, JsonValue.object.injEq]
    exact cleanPairs_eq_self_iff kvs
  | .array xs => by
    rw [clean, Plain, JsonValue.array.injEq]
    exact cleanAll_eq_self_iff xs
  | .null => iff_of_true rfl trivial
  | .bool _ => iff_of_true rfl trivial
  | .num _ => iff_of_true rfl trivial
  | .str _ => iff_of_true rfl trivial

theorem cleanPairs_eq_self_iff : ∀ kvs : List (String × JsonValue),
    cleanPairs kvs = kvs ↔ PlainPairs kvs
  | [] => iff_of_true rfl trivial
  | (k, v) :: kvs => by
    rw [cleanPairs, PlainPairs]
    by_cases hk : k ∈ unsupported
    · rw [if_pos hk]
      refine iff_of_false (fun heq => ?_) (fun h => h.1 hk)
      have hlength := length_cleanPairs kvs
      rw [heq, List.length_cons] at hlength
      omega
    · rw [if_neg hk, List.cons.injEq, Prod.mk.injEq, clean_eq_self_iff v,
        cleanPairs_eq_self_iff kvs]
      exact ⟨fun h => ⟨hk, h.1.2, h.2⟩, fun h => ⟨⟨rfl, h.2.1⟩, h.2.2⟩⟩

theorem cleanAll_eq_self_iff : ∀ xs : List JsonValue, cleanAll xs = xs ↔ PlainAll xs
  | [] => iff_of_true rfl trivial
  | v :: vs => by
    rw [cleanAll, PlainAll, List.cons.injEq, clean_eq_self_iff v, cleanAll_eq_self_iff vs]

end

mutual

/-- Cleaning takes out the keywords and nothing else exactly where no name is one. -/
theorem clean_eq_strip_iff : ∀ v : JsonValue, clean v = strip v ↔ Tidy v
  | .object kvs => by
    rw [clean, strip, Tidy, JsonValue.object.injEq]
    exact cleanPairs_eq_stripKeywords_iff kvs
  | .array xs => clean_eq_self_iff (.array xs)
  | .null => iff_of_true rfl trivial
  | .bool _ => iff_of_true rfl trivial
  | .num _ => iff_of_true rfl trivial
  | .str _ => iff_of_true rfl trivial

theorem cleanPairs_eq_stripKeywords_iff : ∀ kvs : List (String × JsonValue),
    cleanPairs kvs = stripKeywords kvs ↔ TidyKeywords kvs
  | [] => iff_of_true rfl trivial
  | (k, v) :: kvs => by
    rw [cleanPairs, stripKeywords, TidyKeywords]
    by_cases hk : k ∈ unsupported
    · rw [if_pos hk, if_pos hk, cleanPairs_eq_stripKeywords_iff kvs]
      exact ⟨fun h => ⟨.inl hk, h⟩, fun h => h.2⟩
    · rw [if_neg hk, if_neg hk, List.cons.injEq, Prod.mk.injEq, clean_eq_stripUnder_iff k v,
        cleanPairs_eq_stripKeywords_iff kvs]
      exact ⟨fun h => ⟨.inr h.1.2, h.2⟩, fun h => ⟨⟨rfl, h.1.resolve_left hk⟩, h.2⟩⟩

theorem clean_eq_stripUnder_iff (k : String) : ∀ v : JsonValue,
    clean v = stripUnder k v ↔ TidyUnder k v
  | .object kvs => by
    rw [clean, stripUnder, TidyUnder]
    by_cases hschema : k ∈ schemaKeywords
    · rw [if_pos hschema, if_pos hschema, JsonValue.object.injEq]
      exact cleanPairs_eq_stripKeywords_iff kvs
    · rw [if_neg hschema, if_neg hschema]
      by_cases hnamed : k ∈ namedKeywords
      · rw [if_pos hnamed, if_pos hnamed, JsonValue.object.injEq]
        exact cleanPairs_eq_stripNamed_iff kvs
      · rw [if_neg hnamed, if_neg hnamed, JsonValue.object.injEq]
        exact cleanPairs_eq_self_iff kvs
  | .array xs => by
    rw [clean, stripUnder, TidyUnder]
    by_cases hschema : k ∈ schemaKeywords
    · rw [if_pos hschema, if_pos hschema, JsonValue.array.injEq]
      exact cleanAll_eq_stripAll_iff xs
    · rw [if_neg hschema, if_neg hschema, JsonValue.array.injEq]
      exact cleanAll_eq_self_iff xs
  | .null => iff_of_true rfl trivial
  | .bool _ => iff_of_true rfl trivial
  | .num _ => iff_of_true rfl trivial
  | .str _ => iff_of_true rfl trivial

theorem cleanPairs_eq_stripNamed_iff : ∀ ms : List (String × JsonValue),
    cleanPairs ms = stripNamed ms ↔ TidyNamed ms
  | [] => iff_of_true rfl trivial
  | (name, v) :: ms => by
    rw [cleanPairs, stripNamed, TidyNamed]
    by_cases hname : name ∈ unsupported
    · rw [if_pos hname]
      refine iff_of_false (fun heq => ?_) (fun h => h.1 hname)
      have hlength := length_cleanPairs ms
      rw [heq, List.length_cons, length_stripNamed] at hlength
      omega
    · rw [if_neg hname, List.cons.injEq, Prod.mk.injEq, clean_eq_strip_iff v,
        cleanPairs_eq_stripNamed_iff ms]
      exact ⟨fun h => ⟨hname, h.1.2, h.2⟩, fun h => ⟨⟨rfl, h.2.1⟩, h.2.2⟩⟩

theorem cleanAll_eq_stripAll_iff : ∀ xs : List JsonValue, cleanAll xs = stripAll xs ↔ TidyAll xs
  | [] => iff_of_true rfl trivial
  | v :: vs => by
    rw [cleanAll, stripAll, TidyAll, List.cons.injEq, clean_eq_strip_iff v,
      cleanAll_eq_stripAll_iff vs]

end

/-! ## What stripping keeps -/

/-- Where the schemas of a schema stand, those under the keywords Gemini does not know
left out. -/
inductive SchemaAt : JsonValue → List String → JsonValue → Prop where
  | here (v : JsonValue) : SchemaAt v [] v
  | under {kvs vs : List (String × JsonValue)} {k : String} {path : List String} {w : JsonValue}
      (hk : k ∈ schemaKeywords) (hget : Dict.lookup k kvs = some (.object vs))
      (h : SchemaAt (.object vs) path w) : SchemaAt (.object kvs) (k :: path) w
  | item {kvs : List (String × JsonValue)} {k : String} {xs : List JsonValue} {i : Nat}
      {v : JsonValue} {path : List String} {w : JsonValue} (hk : k ∈ schemaKeywords)
      (hget : Dict.lookup k kvs = some (.array xs)) (hi : xs[i]? = some v)
      (h : SchemaAt v path w) : SchemaAt (.object kvs) (k :: toString i :: path) w
  | named {kvs ms : List (String × JsonValue)} {k name : String} {v : JsonValue}
      {path : List String} {w : JsonValue} (hk : k ∈ namedKeywords)
      (hget : Dict.lookup k kvs = some (.object ms)) (hname : Dict.lookup name ms = some v)
      (h : SchemaAt v path w) : SchemaAt (.object kvs) (k :: name :: path) w

/-- The properties a schema declares. -/
def propertyNames (node : JsonValue) : List String :=
  match node.get "properties" with
  | some (.object ms) => ms.map Prod.fst
  | _ => []

/-- Every name the schema requires is declared. -/
def RequiredDeclared (node : JsonValue) : Prop :=
  ∀ xs, node.get "required" = some (.array xs) → ∀ name, .str name ∈ xs → name ∈ propertyNames node

theorem supported_of_schemaKeyword : ∀ k ∈ schemaKeywords, k ∉ unsupported := by decide

theorem supported_of_namedKeyword : ∀ k ∈ namedKeywords, k ∉ unsupported ∧ k ∉ schemaKeywords := by
  decide

theorem lookup_stripKeywords {k : String} (hk : k ∉ unsupported) (kvs : List (String × JsonValue)) :
    Dict.lookup k (stripKeywords kvs) = (Dict.lookup k kvs).map (stripUnder k) := by
  induction kvs with
  | nil => rfl
  | cons p kvs ih =>
    obtain ⟨k', v⟩ := p
    rw [stripKeywords]
    by_cases hk' : k' ∈ unsupported
    · have hne : k' ≠ k := fun heq => hk (heq ▸ hk')
      rw [if_pos hk', ih, Dict.lookup, if_neg hne]
    · rw [if_neg hk', Dict.lookup, Dict.lookup, ih]
      by_cases heq : k' = k
      · subst heq
        rw [if_pos rfl, if_pos rfl]
        rfl
      · rw [if_neg heq, if_neg heq]

theorem lookup_stripNamed (name : String) (ms : List (String × JsonValue)) :
    Dict.lookup name (stripNamed ms) = (Dict.lookup name ms).map strip := by
  induction ms with
  | nil => rfl
  | cons p ms ih =>
    obtain ⟨name', v⟩ := p
    rw [stripNamed, Dict.lookup, Dict.lookup, ih]
    split <;> rfl

theorem stripAll_eq_map (xs : List JsonValue) : stripAll xs = xs.map strip := by
  induction xs with
  | nil => rfl
  | cons v vs ih => rw [stripAll, ih, List.map_cons]

theorem fst_stripNamed (ms : List (String × JsonValue)) :
    (stripNamed ms).map Prod.fst = ms.map Prod.fst := by
  induction ms with
  | nil => rfl
  | cons p ms ih =>
    obtain ⟨name, v⟩ := p
    rw [stripNamed, List.map_cons, List.map_cons, ih]

/-- A schema stands where it stood, stripped. -/
theorem SchemaAt.strip {v w : JsonValue} {path : List String} (h : SchemaAt v path w) :
    SchemaAt (strip v) path (Gemini.strip w) := by
  induction h with
  | here v => exact .here _
  | @under kvs vs k path w hk hget _ ih =>
    refine @SchemaAt.under _ (stripKeywords vs) k path _ hk ?_ ih
    rw [lookup_stripKeywords (supported_of_schemaKeyword k hk), hget, Option.map_some, stripUnder,
      if_pos hk]
  | @item kvs k xs i v path w hk hget hi _ ih =>
    refine @SchemaAt.item _ k (stripAll xs) i _ path _ hk ?_ ?_ ih
    · rw [lookup_stripKeywords (supported_of_schemaKeyword k hk), hget, Option.map_some, stripUnder,
        if_pos hk]
    · rw [stripAll_eq_map, List.getElem?_map, hi]
      rfl
  | @named kvs ms k name v path w hk hget hname _ ih =>
    obtain ⟨hsupported, hschema⟩ := supported_of_namedKeyword k hk
    refine @SchemaAt.named _ (stripNamed ms) k name _ path _ hk ?_ ?_ ih
    · rw [lookup_stripKeywords hsupported, hget, Option.map_some, stripUnder, if_neg hschema,
        if_pos hk]
    · rw [lookup_stripNamed, hname]
      rfl

theorem get_strip {k : String} (hk : k ∉ unsupported) (v : JsonValue) :
    (strip v).get k = (v.get k).map (stripUnder k) := by
  cases v with
  | object kvs => exact lookup_stripKeywords hk kvs
  | _ => rfl

theorem propertyNames_strip (v : JsonValue) : propertyNames (strip v) = propertyNames v := by
  rw [propertyNames, propertyNames, get_strip (by decide)]
  cases v.get "properties" with
  | none => rfl
  | some w =>
    cases w with
    | object ms => exact fst_stripNamed ms
    | _ => rfl

theorem requiredDeclared_strip {v : JsonValue} (h : RequiredDeclared v) :
    RequiredDeclared (strip v) := by
  intro xs hxs name hname
  rw [get_strip (by decide)] at hxs
  obtain ⟨w, hw, heq⟩ := Option.map_eq_some_iff.mp hxs
  rw [propertyNames_strip]
  cases w with
  | array ys =>
    have hsame : ys = xs := JsonValue.array.inj heq
    exact h ys hw name (hsame ▸ hname)
  | object kvs => cases heq
  | _ => cases heq

/-! ## References -/

section References

-- The path into the schema that a reference spells, where it spells one.
variable (pointer : String → Option (List String))

/-- A reference names a place in a schema by a path, by the anchor there or by the id. -/
def NamesPlace (reference : String) (path : List String) (target : JsonValue) : Prop :=
  pointer reference = some path ∨
    (∃ anchor, target.get "$anchor" = some (.str anchor) ∧ reference = "#" ++ anchor) ∨
    target.get "$id" = some (.str reference)

def Resolves (root : JsonValue) (reference : String) : Prop :=
  ∃ path target, root.follow path = some target ∧ NamesPlace pointer reference path target

/-- A reference to a place that is still there, by a path or by an anchor. -/
def Survives (root : JsonValue) (reference : String) : Prop :=
  ∃ path target, root.follow path = some target ∧ (∀ step ∈ path, step ∉ unsupported) ∧
    (pointer reference = some path ∨
      ∃ anchor, target.get "$anchor" = some (.str anchor) ∧ reference = "#" ++ anchor)

theorem lookup_cleanPairs (k : String) (kvs : List (String × JsonValue)) :
    Dict.lookup k (cleanPairs kvs) =
      if k ∈ unsupported then none else (Dict.lookup k kvs).map clean := by
  induction kvs with
  | nil => simp [cleanPairs, Dict.lookup]
  | cons p kvs ih =>
    obtain ⟨k', v⟩ := p
    rw [cleanPairs]
    by_cases hk' : k' ∈ unsupported
    · rw [if_pos hk', ih, Dict.lookup]
      by_cases heq : k' = k
      · subst heq
        rw [if_pos hk', if_pos hk']
      · rw [if_neg heq]
    · rw [if_neg hk', Dict.lookup, Dict.lookup, ih]
      by_cases heq : k' = k
      · subst heq
        rw [if_pos rfl, if_neg hk', if_pos rfl]
        rfl
      · rw [if_neg heq, if_neg heq]

theorem cleanAll_eq_map (xs : List JsonValue) : cleanAll xs = xs.map clean := by
  induction xs with
  | nil => rfl
  | cons v vs ih => rw [cleanAll, ih, List.map_cons]

/-- A path leads to the cleaned place, unless it goes by a keyword that is gone. -/
theorem follow_clean (path : List String) (v : JsonValue)
    (h : ∀ step ∈ path, step ∉ unsupported) :
    (clean v).follow path = (v.follow path).map clean := by
  induction path generalizing v with
  | nil => simp [follow]
  | cons step path ih =>
    have hstep : step ∉ unsupported := h step List.mem_cons_self
    have hrest := fun v => ih v fun s hs => h s (List.mem_cons_of_mem step hs)
    cases v with
    | object kvs =>
      rw [clean, follow, follow, lookup_cleanPairs, if_neg hstep]
      cases Dict.lookup step kvs with
      | none => rfl
      | some w => exact hrest w
    | array xs =>
      rw [clean, follow, follow, cleanAll_eq_map]
      cases index? step with
      | none => rfl
      | some i =>
        show ((xs.map clean)[i]?).bind _ = ((xs[i]?).bind _).map clean
        rw [List.getElem?_map]
        cases xs[i]? with
        | none => rfl
        | some w => exact hrest w
    | _ => rfl

/-- What a path leads to in the cleaned schema it leads to in the schema, by no keyword
that is gone. -/
theorem supported_of_follow_clean (path : List String) (v w : JsonValue)
    (h : (clean v).follow path = some w) : ∀ step ∈ path, step ∉ unsupported := by
  induction path generalizing v with
  | nil => exact fun _ hs => absurd hs List.not_mem_nil
  | cons step path ih =>
    cases v with
    | object kvs =>
      rw [clean, follow, lookup_cleanPairs] at h
      by_cases hstep : step ∈ unsupported
      · rw [if_pos hstep] at h
        cases h
      · rw [if_neg hstep] at h
        obtain ⟨u, hu, hfollow⟩ := Option.bind_eq_some_iff.mp h
        obtain ⟨u', -, rfl⟩ := Option.map_eq_some_iff.mp hu
        exact List.forall_mem_cons.mpr ⟨hstep, ih u' hfollow⟩
    | array xs =>
      rw [clean, follow, cleanAll_eq_map] at h
      obtain ⟨u, hu, hfollow⟩ := Option.bind_eq_some_iff.mp h
      obtain ⟨i, hi, hget⟩ := Option.bind_eq_some_iff.mp hu
      rw [List.getElem?_map] at hget
      obtain ⟨u', -, rfl⟩ := Option.map_eq_some_iff.mp hget
      have hstep : step ∉ unsupported := by
        intro hmem
        have hnone : ∀ k ∈ unsupported, index? k = none := by decide +kernel
        rw [hnone step hmem] at hi
        cases hi
      exact List.forall_mem_cons.mpr ⟨hstep, ih u' hfollow⟩
    | _ => cases h

theorem get_clean (k : String) (v : JsonValue) :
    (clean v).get k = if k ∈ unsupported then none else (v.get k).map clean := by
  cases v with
  | object kvs => exact lookup_cleanPairs k kvs
  | _ => simp [clean, JsonValue.get]

theorem clean_eq_str {v : JsonValue} {s : String} : clean v = .str s ↔ v = .str s := by
  cases v <;> simp [clean]

/-- The references that resolve in the cleaned schema. -/
theorem resolves_clean_iff (root : JsonValue) (reference : String) :
    Resolves pointer (clean root) reference ↔ Survives pointer root reference := by
  have hanchor : ∀ v : JsonValue, ∀ anchor, (clean v).get "$anchor" = some (.str anchor) ↔
      v.get "$anchor" = some (.str anchor) := by
    intro v anchor
    rw [get_clean, if_neg (by decide), Option.map_eq_some_iff]
    simp [clean_eq_str]
  constructor
  · rintro ⟨path, target, hfollow, hnames⟩
    have hsupported := supported_of_follow_clean path root target hfollow
    rw [follow_clean path root hsupported] at hfollow
    obtain ⟨target', htarget, rfl⟩ := Option.map_eq_some_iff.mp hfollow
    refine ⟨path, target', htarget, hsupported, ?_⟩
    obtain hpath | ⟨anchor, hget, heq⟩ | hid := hnames
    · exact .inl hpath
    · exact .inr ⟨anchor, (hanchor target' anchor).mp hget, heq⟩
    · rw [get_clean, if_pos (by decide)] at hid
      cases hid
  · rintro ⟨path, target, hfollow, hsupported, hnames⟩
    refine ⟨path, clean target, by rw [follow_clean path root hsupported, hfollow]; rfl, ?_⟩
    obtain hpath | ⟨anchor, hget, heq⟩ := hnames
    · exact .inl hpath
    · exact .inr (.inl ⟨anchor, (hanchor target anchor).mpr hget, heq⟩)

/-- What a schema keeps: all but the keywords Gemini does not know, the names of its
properties among it, and its references where they led somewhere. -/
structure OnlyKeywordsGo (schema : JsonValue) : Prop where
  strips : sanitizeGeminiSchema schema = strip schema
  nodes : ∀ path node, SchemaAt schema path node →
    ∃ node', SchemaAt (sanitizeGeminiSchema schema) path node' ∧
      propertyNames node' = propertyNames node ∧ (RequiredDeclared node → RequiredDeclared node')
  references : ∀ path node reference, SchemaAt schema path node →
    node.get "$ref" = some (.str reference) → Resolves pointer schema reference →
      Resolves pointer (sanitizeGeminiSchema schema) reference

/-- Every reference that leads somewhere leads to a place that is still there. -/
def ReferencesSurvive (schema : JsonValue) : Prop :=
  ∀ path node reference, SchemaAt schema path node → node.get "$ref" = some (.str reference) →
    Resolves pointer schema reference → Survives pointer schema reference

theorem sanitizeGeminiSchema_object (kvs : List (String × JsonValue)) :
    sanitizeGeminiSchema (.object kvs) = clean (.object kvs) := by
  rw [sanitizeGeminiSchema, clean]

/-- The keywords go and nothing else exactly where no name and no key of data is one of
them, and no reference leads by one of them. -/
theorem onlyKeywordsGo_iff (kvs : List (String × JsonValue)) :
    OnlyKeywordsGo pointer (.object kvs) ↔
      Tidy (.object kvs) ∧ ReferencesSurvive pointer (.object kvs) := by
  constructor
  · intro h
    refine ⟨?_, fun path node reference hat href hresolves => ?_⟩
    · rw [← clean_eq_strip_iff, ← sanitizeGeminiSchema_object]
      exact h.strips
    · rw [← resolves_clean_iff, ← sanitizeGeminiSchema_object]
      exact h.references path node reference hat href hresolves
  · rintro ⟨htidy, hreferences⟩
    have hstrips : sanitizeGeminiSchema (.object kvs) = strip (.object kvs) := by
      rw [sanitizeGeminiSchema_object, clean_eq_strip_iff]
      exact htidy
    refine ⟨hstrips, fun path node hat => ?_, fun path node reference hat href hresolves => ?_⟩
    · rw [hstrips]
      exact ⟨strip node, hat.strip, propertyNames_strip node, requiredDeclared_strip⟩
    · rw [sanitizeGeminiSchema_object, resolves_clean_iff]
      exact hreferences path node reference hat href hresolves

end References

/-- A schema with a property that is called like a keyword. -/
def schemaOfIf : JsonValue :=
  .object [("type", .str "object"),
    ("properties", .object [("if", .object [("type", .str "string")])]),
    ("required", .array [.str "if"])]

/-- The property goes, and is still required. -/
theorem property_if_dropped : ¬ OnlyKeywordsGo (fun _ => none) schemaOfIf := by
  intro h
  have hnames := congrArg propertyNames h.strips
  rw [propertyNames_strip] at hnames
  exact absurd hnames (by decide +kernel)

end Gemini
end Llm
end DotRunner
