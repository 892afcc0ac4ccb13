import DotRunner.Py.JsonRoundTrip

/-!
# JSON on one line, with a default

`json.dumps(v, default=str)`: a value without a form in JSON is written as its text.
`json.loads` reads the line as it reads the indented text.
-/

namespace Py
namespace Json

variable [Runtime]

/-! ## Writing -/

mutual

def compactText : Value → List Char
  | .list xs => '[' :: (compactItems xs ++ [']'])
  | .tuple xs => '[' :: (compactItems xs ++ [']'])
  | .dict kvs => '\x7b' :: (compactPairs kvs ++ ['\x7d'])
  | .keyed _ kvs => '\x7b' :: (compactPairs kvs ++ ['\x7d'])
  | .other s _ => quote s
  | v => atomText v

def compactItems : List Value → List Char
  | [] => []
  | [v] => compactText v
  | v :: w :: vs => compactText v ++ (',' :: ' ' :: compactItems (w :: vs))

def compactPairs : List (String × Value) → List Char
  | [] => []
  | [(k, v)] => quote k ++ ([':', ' '] ++ compactText v)
  | (k, v) :: p :: kvs =>
    quote k ++ ([':', ' '] ++ (compactText v ++ (',' :: ' ' :: compactPairs (p :: kvs))))

end

/-- `json.dumps(v, default=str)`; a key may be of a kind that is refused. -/
def dumpsCompact (v : Value) : Except PyExc (List Char) :=
  match (encode (fun _ _ => none) 0 v).raised with
  | some e => .error e
  | none => .ok (compactText v)

/-! ## Reading -/

/-- A value starts with a character of its own. -/
theorem compactText_head {v : Value} (h : Exact v) :
    ∃ c r, compactText v = c :: r ∧ isBlank c = false ∧ c ≠ ']' := by
  cases v with
  | list xs => exact ⟨_, _, rfl, by decide, by decide⟩
  | tuple xs => exact ⟨_, _, rfl, by decide, by decide⟩
  | dict kvs => exact ⟨_, _, rfl, by decide, by decide⟩
  | keyed kinds kvs => exact ⟨_, _, rfl, by decide, by decide⟩
  | other s r => exact ⟨_, _, rfl, by decide, by decide⟩
  | none => exact text_head 0 h
  | bool b => exact text_head 0 h
  | int i => exact text_head 0 h
  | float x => exact text_head 0 h
  | str s => exact text_head 0 h

theorem skipBlank_compactText {v : Value} (h : Exact v) (l : List Char) :
    skipBlank (compactText v ++ l) = compactText v ++ l := by
  obtain ⟨c, r, htext, hblank, -⟩ := compactText_head h
  rw [htext]
  exact skipBlank_cons hblank _

theorem compactItems_head (v : Value) (vs : List Value) :
    ∃ l, compactItems (v :: vs) = compactText v ++ l := by
  cases vs with
  | nil => exact ⟨[], (List.append_nil _).symm⟩
  | cons w ws => exact ⟨_, rfl⟩

theorem skipBlank_compactItems {v : Value} {vs : List Value} (h : Exact v) (l : List Char) :
    skipBlank (compactItems (v :: vs) ++ l) = compactItems (v :: vs) ++ l := by
  obtain ⟨l', hl⟩ := compactItems_head v vs
  rw [hl, List.append_assoc, skipBlank_compactText h]

theorem compactPairs_head (p : String × Value) (kvs : List (String × Value)) :
    ∃ l, compactPairs (p :: kvs) = '"' :: l := by
  obtain ⟨k, v⟩ := p
  cases kvs <;> exact ⟨_, rfl⟩

mutual

/-- A value is read where its text stands. -/
theorem scanOnce_compactText : ∀ v : Value, Exact v → ∀ {f : Nat} {r : List Char},
    2 * (compactText v).length ≤ f → Delimited r →
      scanOnce f (compactText v ++ r) = some (v.viaJson, r)
  | .none, h, f, r, hf, hr => scanOnce_text 0 .none h hf hr
  | .bool b, h, f, r, hf, hr => scanOnce_text 0 (.bool b) h hf hr
  | .int i, h, f, r, hf, hr => scanOnce_text 0 (.int i) h hf hr
  | .float x, h, f, r, hf, hr => scanOnce_text 0 (.float x) h hf hr
  | .str s, h, f, r, hf, hr => scanOnce_text 0 (.str s) h hf hr
  | .other s t, h, f, r, hf, hr => scanOnce_text 0 (.other s t) h hf hr
  | .list xs, h, f, r, hf, _ => scanOnce_compactArray xs h hf
  | .tuple xs, h, f, r, hf, _ => scanOnce_compactArray xs h hf
  | .dict kvs, h, f, r, hf, _ => by
    rw [Value.viaJson, ← entries_viaJsonPairs h.1]
    exact scanOnce_compactObject kvs h.2 hf
  | .keyed _ kvs, h, f, r, hf, _ => scanOnce_compactObject kvs h hf
termination_by v => sizeOf v

theorem scanOnce_compactArray : ∀ xs : List Value, ExactAll xs → ∀ {f : Nat} {r : List Char},
    2 * ('[' :: (compactItems xs ++ [']'])).length ≤ f →
      scanOnce f ('[' :: (compactItems xs ++ [']']) ++ r) = some (.list (Value.viaJsonAll xs), r)
  | [], _, f + 1, r, _ => rfl
  | v :: vs, h, f + 1, r, hf => by
    rw [List.length_cons, List.length_append] at hf
    obtain ⟨c, l, hhead, -, hbracket⟩ := compactText_head h.1
    obtain ⟨l', hl'⟩ := compactItems_head v vs
    rw [List.cons_append, List.append_assoc]
    apply scanOnce_array
    · rw [skipBlank_compactItems h.1, hl', hhead]
      exact fun heq => hbracket (Option.some.inj heq)
    · rw [skipBlank_compactItems h.1]
      exact scanItems_compactItems v vs h (by omega)
termination_by xs => sizeOf xs

theorem scanOnce_compactObject : ∀ kvs : List (String × Value), ExactPairs kvs →
    ∀ {f : Nat} {r : List Char}, 2 * ('\x7b' :: (compactPairs kvs ++ ['\x7d'])).length ≤ f →
      scanOnce f ('\x7b' :: (compactPairs kvs ++ ['\x7d']) ++ r) =
        some (.dict (Dict.ofList (Value.viaJsonPairs kvs)).entries, r)
  | [], _, f + 1, r, _ => rfl
  | (k, v) :: kvs, h, f + 1, r, hf => by
    rw [List.length_cons, List.length_append] at hf
    obtain ⟨l, hl⟩ := compactPairs_head (k, v) kvs
    have hread : scanPairs f (compactPairs ((k, v) :: kvs) ++ (['\x7d'] ++ r)) =
        some (Value.viaJsonPairs ((k, v) :: kvs), r) := scanPairs_compactPairs k v kvs h (by omega)
    rw [List.cons_append, List.append_assoc]
    rw [hl, List.cons_append] at hread ⊢
    apply scanOnce_object
    · rw [skipBlank_cons (by decide), List.head?_cons]
      decide
    · rw [skipBlank_cons (by decide)]
      exact hread
termination_by kvs => sizeOf kvs

theorem scanItems_compactItems : ∀ v vs, ExactAll (v :: vs) → ∀ {f : Nat} {r : List Char},
    2 * (compactItems (v :: vs)).length + 1 ≤ f →
      scanItems f (compactItems (v :: vs) ++ ([']'] ++ r)) = some (Value.viaJsonAll (v :: vs), r)
  | v, [], h, f + 1, r, hf => by
    rw [compactItems] at hf ⊢
    exact scanItems_last (scanOnce_compactText v h.1 (by omega) (delimited_cons (by decide) _))
      (skipBlank_cons (by decide) _)
  | v, w :: ws, h, f + 1, r, hf => by
    rw [compactItems] at hf ⊢
    rw [List.length_append, List.length_cons, List.length_cons] at hf
    rw [List.append_assoc]
    apply scanItems_more (scanOnce_compactText v h.1 (by omega) (delimited_cons (by decide) _))
    · exact skipBlank_cons (by decide) _
    · show scanItems f (skipBlank (compactItems (w :: ws) ++ ([']'] ++ r))) = _
      rw [skipBlank_compactItems h.2.1]
      exact scanItems_compactItems w ws h.2 (by omega)
termination_by v vs => sizeOf v + sizeOf vs

theorem scanPairs_compactPairs : ∀ k v kvs, ExactPairs ((k, v) :: kvs) →
    ∀ {f : Nat} {r : List Char}, 2 * (compactPairs ((k, v) :: kvs)).length + 1 ≤ f →
      scanPairs f (compactPairs ((k, v) :: kvs) ++ (['\x7d'] ++ r)) =
        some (Value.viaJsonPairs ((k, v) :: kvs), r)
  | k, v, [], h, f + 1, r, hf => by
    rw [compactPairs] at hf ⊢
    simp only [List.length_append, List.length_cons, List.length_nil] at hf
    rw [List.append_assoc, List.append_assoc, List.singleton_append,
      scanPairs_member (by omega) (skipBlank_compactText h.1 _)
        (scanOnce_compactText v h.1 (by omega) (delimited_cons (by decide) _)),
      skipBlank_cons (by decide), List.head?_cons, if_pos rfl]
    rfl
  | k, v, (k', w) :: ws, h, f + 1, r, hf => by
    rw [compactPairs] at hf ⊢
    simp only [List.length_append, List.length_cons, List.length_nil] at hf
    obtain ⟨l, hl⟩ := compactPairs_head (k', w) ws
    have hrest : scanPairs f (compactPairs ((k', w) :: ws) ++ (['\x7d'] ++ r)) =
        some (Value.viaJsonPairs ((k', w) :: ws), r) := scanPairs_compactPairs k' w ws h.2 (by omega)
    rw [List.append_assoc, List.append_assoc, List.append_assoc]
    show scanPairs (f + 1) (quote k ++ ([':', ' '] ++ (compactText v ++
      (',' :: ' ' :: (compactPairs ((k', w) :: ws) ++ (['\x7d'] ++ r)))))) = _
    rw [scanPairs_member (by omega) (skipBlank_compactText h.1 _)
        (scanOnce_compactText v h.1 (by omega) (delimited_cons (by decide) _)),
      skipBlank_cons (by decide)]
    have hskip : skipBlank (' ' :: (compactPairs ((k', w) :: ws) ++ (['\x7d'] ++ r))) =
        compactPairs ((k', w) :: ws) ++ (['\x7d'] ++ r) := by
      rw [hl]
      exact (List.dropWhile_cons_of_pos (by decide)).trans (skipBlank_cons (by decide) _)
    rw [List.head?_cons, if_neg (by decide), if_pos rfl, List.tail_cons, hskip, hrest]
    rfl
termination_by k v kvs => sizeOf k + sizeOf v + sizeOf kvs

end

/-- The text of a value is read. -/
theorem loads_compactText {v : Value} (h : Exact v) : loads (compactText v) = some v.viaJson := by
  have hskip := skipBlank_compactText h []
  have hread : scanOnce (2 * (compactText v).length + 1) (compactText v ++ []) =
      some (v.viaJson, []) := scanOnce_compactText v h (by omega) nofun
  rw [List.append_nil] at hskip hread
  rw [loads, hskip, hread]
  rfl

/-! ## No carriage return is written -/

omit [Runtime] in
theorem return_not_mem_uEscape (n : Nat) : '\r' ∉ uEscape n := by
  have hdigit : ∀ d < 16, '\r' ≠ Nat.digitChar d := by decide
  have hmod : ∀ m, '\r' ≠ Nat.digitChar (m % 16) := fun m => hdigit _ (Nat.mod_lt m (by omega))
  simp [uEscape, hex4, hmod]

omit [Runtime] in
theorem return_not_mem_escapeChar (c : Char) : '\r' ∉ escapeChar c := by
  have hshort : ∀ p ∈ shortEscapes, '\r' ≠ p.2 := by decide
  rw [escapeChar]
  cases hlookup : shortEscapes.lookup c with
  | some e =>
    obtain ⟨l₁, l₂, hsplit, -⟩ := List.lookup_eq_some_iff.mp hlookup
    have he : '\r' ≠ e := hshort (c, e) (by simp [hsplit])
    simp [he]
  | none =>
    simp only
    split
    · rename_i hprintable
      have hc : '\r' ≠ c := by
        rintro rfl
        exact absurd hprintable.1 (by decide)
      simpa using hc
    · split
      · exact return_not_mem_uEscape _
      · simp [return_not_mem_uEscape]

omit [Runtime] in
theorem return_not_mem_quote (s : String) : '\r' ∉ quote s := by
  simp [quote, return_not_mem_escapeChar]

omit [Runtime] in
theorem return_not_mem_word : ∀ word ∈ ["null", "true", "false", "Infinity", "-Infinity", "NaN"],
    '\r' ∉ word.toList := by
  decide +kernel

theorem return_not_mem_floatText {x : PyFloat} (h : Exact (.float x)) : '\r' ∉ floatText x := by
  cases x with
  | finite q =>
    have hreads : ReadsBack q := h
    intro hmem
    exact absurd (hreads.spelled '\r' hmem) (by decide)
  | inf negative => cases negative <;> exact return_not_mem_word _ (by simp)
  | nan shared => exact return_not_mem_word _ (by simp)

theorem return_not_mem_atomText {v : Value} (h : Exact v) : '\r' ∉ atomText v := by
  cases v with
  | none => exact return_not_mem_word _ (by simp)
  | bool b => cases b <;> exact return_not_mem_word _ (by simp)
  | int i =>
    intro hmem
    exact absurd (int_inNumber i '\r' hmem) (by decide)
  | float x => exact return_not_mem_floatText h
  | str s => exact return_not_mem_quote s
  | list xs => nofun
  | tuple xs => nofun
  | dict kvs => nofun
  | keyed kinds kvs => nofun
  | other s r => nofun

mutual

theorem return_not_mem_compactText : ∀ v : Value, Exact v → '\r' ∉ compactText v
  | .none, h => return_not_mem_atomText h
  | .bool _, h => return_not_mem_atomText h
  | .int _, h => return_not_mem_atomText h
  | .float _, h => return_not_mem_atomText h
  | .str s, _ => return_not_mem_quote s
  | .other s _, _ => return_not_mem_quote s
  | .list xs, h => by simp [compactText, return_not_mem_compactItems xs h]
  | .tuple xs, h => by simp [compactText, return_not_mem_compactItems xs h]
  | .dict kvs, h => by simp [compactText, return_not_mem_compactPairs kvs h.2]
  | .keyed _ kvs, h => by simp [compactText, return_not_mem_compactPairs kvs h]
termination_by v => sizeOf v

theorem return_not_mem_compactItems : ∀ vs : List Value, ExactAll vs → '\r' ∉ compactItems vs
  | [], _ => nofun
  | [v], h => return_not_mem_compactText v h.1
  | v :: w :: vs, h => by
    have hrest := return_not_mem_compactItems (w :: vs) h.2
    simp [compactItems, return_not_mem_compactText v h.1, hrest]
termination_by vs => sizeOf vs

theorem return_not_mem_compactPairs : ∀ kvs : List (String × Value), ExactPairs kvs →
    '\r' ∉ compactPairs kvs
  | [], _ => nofun
  | [(k, v)], h => by
    simp [compactPairs, return_not_mem_quote, return_not_mem_compactText v h.1]
  | (k, v) :: p :: kvs, h => by
    have hrest := return_not_mem_compactPairs (p :: kvs) h.2
    simp [compactPairs, return_not_mem_quote, return_not_mem_compactText v h.1, hrest]
termination_by kvs => sizeOf kvs

end

end Json
end Py
