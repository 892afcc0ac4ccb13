import DotRunner.Dot.Comments
import DotRunner.Dot.Literals
import DotRunner.Dot.Transforms
import DotRunner.Dot.WellFormed
import DotRunner.Py.Strip
import Mathlib.Data.List.Induction

/-!
# The cascade

What the stylesheet gives a node: for each property it lacks, the value of the matching
rule of highest specificity, the latest of these.
-/

namespace DotRunner
namespace Dot

open Py

/-! ## The latest of the highest -/

section Highest

variable {α β : Type} (rank : α → Nat) (value : α → Option β)

/-- The value of `a`, unless one of higher rank was found before. -/
def pick (best : Option (Nat × β)) (a : α) : Option (Nat × β) :=
  match value a with
  | none => best
  | some v => match best with
    | none => some (rank a, v)
    | some prev => if rank a ≥ prev.1 then some (rank a, v) else some prev

/-- `v` is the value of the latest of those of highest rank that have one. -/
def Highest (l : List α) (rankOf : Nat) (v : β) : Prop :=
  ∃ before a after, l = before ++ a :: after ∧ value a = some v ∧ rank a = rankOf ∧
    (∀ b ∈ before, (value b).isSome → rank b ≤ rankOf) ∧
      ∀ b ∈ after, (value b).isSome → rank b < rankOf

variable {rank value}

theorem Highest.le {l : List α} {rankOf : Nat} {v : β} (h : Highest rank value l rankOf v)
    {b : α} (hb : b ∈ l) (hvalue : (value b).isSome) : rank b ≤ rankOf := by
  obtain ⟨before, a, after, rfl, -, ha, hbefore, hafter⟩ := h
  rcases List.mem_append.mp hb with hb | hb
  · exact hbefore b hb hvalue
  · rcases List.mem_cons.mp hb with rfl | hb
    · omega
    · exact Nat.le_of_lt (hafter b hb hvalue)

theorem Highest.concat_lower {l : List α} {rankOf : Nat} {v : β}
    (h : Highest rank value l rankOf v) {a : α} (ha : (value a).isSome → rank a < rankOf) :
    Highest rank value (l ++ [a]) rankOf v := by
  obtain ⟨before, b, after, rfl, hvalue, hrank, hbefore, hafter⟩ := h
  refine ⟨before, b, after ++ [a], by simp, hvalue, hrank, hbefore, fun c hc hsome => ?_⟩
  rcases List.mem_append.mp hc with hc | hc
  · exact hafter c hc hsome
  · obtain rfl := List.mem_singleton.mp hc
    exact ha hsome

theorem highest_concat {l : List α} {a : α} {v : β} (hvalue : value a = some v)
    (hle : ∀ b ∈ l, (value b).isSome → rank b ≤ rank a) :
    Highest rank value (l ++ [a]) (rank a) v :=
  ⟨l, a, [], rfl, hvalue, rfl, hle, fun _ hb => absurd hb List.not_mem_nil⟩

/-- One value after the other, the latest of the highest is kept. -/
theorem foldl_pick (rank : α → Nat) (value : α → Option β) (l : List α) :
    match l.foldl (pick rank value) none with
    | none => ∀ a ∈ l, value a = none
    | some best => Highest rank value l best.1 best.2 := by
  induction l using List.reverseRecOn with
  | nil => exact fun _ ha => absurd ha List.not_mem_nil
  | append_singleton l a ih =>
    rw [List.foldl_concat]
    cases hbest : l.foldl (pick rank value) none with
    | none =>
      rw [hbest] at ih
      cases hvalue : value a with
      | none =>
        simp only [pick, hvalue]
        intro b hb
        rcases List.mem_append.mp hb with hb | hb
        · exact ih b hb
        · exact (List.mem_singleton.mp hb) ▸ hvalue
      | some v =>
        simp only [pick, hvalue]
        exact highest_concat hvalue fun b hb hsome => by simp [ih b hb] at hsome
    | some best =>
      rw [hbest] at ih
      have hlower : (value a).isSome → ¬ rank a ≥ best.1 → rank a < best.1 := fun _ h => by omega
      cases hvalue : value a with
      | none =>
        simp only [pick, hvalue]
        exact ih.concat_lower fun hsome => by simp [hvalue] at hsome
      | some v =>
        simp only [pick, hvalue]
        by_cases hrank : rank a ≥ best.1
        · rw [if_pos hrank]
          exact highest_concat hvalue fun b hb hsome => Nat.le_trans (ih.le hb hsome) hrank
        · rw [if_neg hrank]
          exact ih.concat_lower fun _ => by omega

end Highest

/-! ## What a node resolves -/

/-- The value the rule has for the property, if it is for the node. -/
def valueFor (node : ParsedNode) (property : String) (rule : StyleRule) : Option String :=
  match selectorMatches rule node with
  | .ok true => rule.properties.get? property
  | _ => none

theorem get?_resolveProperty (s : Nat) {l : List (String × String)} (hl : (l.map Prod.fst).Nodup)
    (resolved : Dict String (Nat × String)) (property : String) :
    (l.foldl (resolveProperty s) resolved).get? property =
      pick (fun _ => s) (fun _ : Unit => Dict.lookup property l) (resolved.get? property) () := by
  induction l generalizing resolved with
  | nil => rfl
  | cons p l ih =>
    obtain ⟨hp, hl⟩ := List.nodup_cons.mp hl
    have hone : ∀ k, (resolveProperty s resolved p).get? k =
        if p.1 = k then pick (fun _ => s) (fun _ : Unit => some p.2) (resolved.get? k) ()
        else resolved.get? k := by
      intro k
      by_cases hk : p.1 = k
      · subst hk
        rw [if_pos rfl, resolveProperty, pick]
        cases hprev : resolved.get? p.1 with
        | none => exact Dict.get?_set_self ..
        | some prev =>
          dsimp only
          split
          · exact Dict.get?_set_self ..
          · exact hprev
      · rw [if_neg hk, resolveProperty]
        split
        · exact Dict.get?_set_of_ne _ _ hk
        · split
          · exact Dict.get?_set_of_ne _ _ hk
          · rfl
    rw [List.foldl_cons, ih hl, hone, Dict.lookup]
    by_cases hk : p.1 = property
    · have hnone : Dict.lookup property l = none := by
        cases hlookup : Dict.lookup property l with
        | none => rfl
        | some v =>
          have hmem : property ∈ l.map Prod.fst := Dict.lookup_isSome_iff.mp (by simp [hlookup])
          exact absurd (hk ▸ hmem) hp
      rw [if_pos hk, if_pos hk, hnone]
      rfl
    · rw [if_neg hk, if_neg hk]

theorem get?_resolveProperties {node : ParsedNode} {rules : List StyleRule}
    {resolved resolved' : Dict String (Nat × String)}
    (h : resolveProperties node resolved rules = .ok resolved') (property : String) :
    resolved'.get? property =
      rules.foldl (pick StyleRule.specificity (valueFor node property))
        (resolved.get? property) := by
  induction rules generalizing resolved with
  | nil =>
    obtain rfl := Except.ok.inj h
    rfl
  | cons rule rules ih =>
    rw [List.foldl_cons]
    have hpick : pick StyleRule.specificity (valueFor node property) (resolved.get? property) rule =
        pick (fun _ => rule.specificity) (fun _ : Unit => valueFor node property rule)
          (resolved.get? property) () := rfl
    rw [hpick, valueFor]
    rw [resolveProperties] at h
    cases hmatch : selectorMatches rule node with
    | error e =>
      rw [hmatch] at h
      cases h
    | ok matching =>
      rw [hmatch] at h
      cases matching with
      | false => exact ih h
      | true =>
        rw [ih h, get?_resolveProperty _ rule.properties.nodup]
        rfl

/-! ## What a node is given -/

/-- The property, if the node lacks it. -/
def giveProperty (attrs : Record) (p : String × Nat × String) : Record :=
  if attrs.contains p.1 then attrs else attrs.set p.1 (.str p.2.2)

theorem get?_giveProperties {l : List (String × Nat × String)} (hl : (l.map Prod.fst).Nodup)
    (attrs : Record) (property : String) :
    (l.foldl giveProperty attrs).get? property =
      (attrs.get? property).or ((Dict.lookup property l).map fun best => .str best.2) := by
  induction l generalizing attrs with
  | nil => rw [List.foldl_nil, Dict.lookup, Option.map_none, Option.or_none]
  | cons p l ih =>
    obtain ⟨hp, hl⟩ := List.nodup_cons.mp hl
    rw [List.foldl_cons, ih hl, giveProperty, Dict.lookup]
    by_cases hk : p.1 = property
    · subst hk
      rw [if_pos rfl, Dict.contains]
      cases hattr : attrs.get? p.1 with
      | some v =>
        rw [if_pos (show (some v).isSome = true from rfl), hattr]
        rfl
      | none =>
        rw [if_neg (show ¬ (none : Option Value).isSome = true by decide), Dict.get?_set_self]
        rfl
    · rw [if_neg hk]
      split
      · rfl
      · rw [Dict.get?_set_of_ne _ _ hk]

theorem giveProperties_of_contains {l : List (String × Nat × String)} {attrs : Record}
    (h : ∀ p ∈ l, attrs.contains p.1 = true) : l.foldl giveProperty attrs = attrs := by
  induction l with
  | nil => rfl
  | cons p l ih =>
    rw [List.foldl_cons, giveProperty, if_pos (h p List.mem_cons_self)]
    exact ih fun q hq => h q (List.mem_cons_of_mem p hq)

/-- The rule is for the node and sets the property. -/
def SetsFor (node : ParsedNode) (property : String) (rule : StyleRule) : Prop :=
  (valueFor node property rule).isSome

/-- The node as the rules style it: it keeps what it has, and of what it lacks it is given the
value of the rule of highest specificity, the latest of these. -/
structure Styled (rules : List StyleRule) (node node' : ParsedNode) : Prop where
  rest : node' = { node with attrs := node'.attrs }
  explicit : ∀ property v, node.attrs.get? property = some v → node'.attrs.get? property = some v
  given : ∀ property v, node.attrs.get? property = none → node'.attrs.get? property = some v →
    ∃ before rule after value, rules = before ++ rule :: after ∧ v = .str value ∧
      selectorMatches rule node = .ok true ∧ rule.properties.get? property = some value ∧
      (∀ other ∈ before, SetsFor node property other → other.specificity ≤ rule.specificity) ∧
      ∀ other ∈ after, SetsFor node property other → other.specificity < rule.specificity
  lacking : ∀ property, node'.attrs.get? property = none →
    ∀ rule ∈ rules, selectorMatches rule node = .ok true → rule.properties.get? property = none

theorem valueFor_eq_some {node : ParsedNode} {property value : String} {rule : StyleRule}
    (h : valueFor node property rule = some value) :
    selectorMatches rule node = .ok true ∧ rule.properties.get? property = some value := by
  unfold valueFor at h
  split at h
  · rename_i hmatch
    exact ⟨hmatch, h⟩
  · cases h

theorem attrs_of_styleNode {rules : List StyleRule} {node node' : ParsedNode}
    (h : styleNode rules node = .ok node') : ∃ resolved,
      resolveProperties node Dict.empty rules = .ok resolved ∧
        node' = { node with attrs := resolved.entries.foldl giveProperty node.attrs } := by
  rw [styleNode] at h
  cases hresolved : resolveProperties node Dict.empty rules with
  | error e =>
    rw [hresolved] at h
    cases h
  | ok resolved =>
    rw [hresolved] at h
    exact ⟨resolved, rfl, (Except.ok.inj h).symm⟩

theorem get?_styleNode {rules : List StyleRule} {node node' : ParsedNode}
    (h : styleNode rules node = .ok node') (property : String) :
    node'.attrs.get? property = (node.attrs.get? property).or
      ((rules.foldl (pick StyleRule.specificity (valueFor node property)) none).map
        fun best => .str best.2) := by
  obtain ⟨resolved, hresolved, rfl⟩ := attrs_of_styleNode h
  have hget := get?_resolveProperties hresolved property
  rw [Dict.get?_empty] at hget
  rw [← hget]
  exact get?_giveProperties resolved.nodup node.attrs property

theorem styled_styleNode {rules : List StyleRule} {node node' : ParsedNode}
    (h : styleNode rules node = .ok node') : Styled rules node node' := by
  have hget := get?_styleNode h
  constructor
  case rest =>
    obtain ⟨resolved, -, rfl⟩ := attrs_of_styleNode h
    rfl
  case explicit =>
    intro property v hv
    rw [hget, hv]
    rfl
  case given =>
    intro property v hnone hv
    rw [hget, hnone, Option.none_or] at hv
    obtain ⟨best, hbest, rfl⟩ := Option.map_eq_some_iff.mp hv
    have hpick := foldl_pick StyleRule.specificity (valueFor node property) rules
    rw [hbest] at hpick
    obtain ⟨before, rule, after, hrules, hvalue, hrank, hbefore, hafter⟩ := hpick
    obtain ⟨hmatch, hproperty⟩ := valueFor_eq_some hvalue
    refine ⟨before, rule, after, best.2, hrules, rfl, hmatch, hproperty, fun other hother hsets => ?_,
      fun other hother hsets => ?_⟩
    · rw [hrank]
      exact hbefore other hother hsets
    · rw [hrank]
      exact hafter other hother hsets
  case lacking =>
    intro property hnone rule hrule hmatch
    rw [hget, Option.or_eq_none_iff, Option.map_eq_none_iff] at hnone
    have hpick := foldl_pick StyleRule.specificity (valueFor node property) rules
    rw [hnone.2] at hpick
    have hvalue := hpick rule hrule
    rwa [valueFor, hmatch] at hvalue

/-! ## Twice is once -/

theorem selectorMatches_congr {rule : StyleRule} {node node' : ParsedNode}
    (hid : node'.id = node.id)
    (hshape : node'.shape = node.shape)
    (hclass : node'.attrs.get? "class" = node.attrs.get? "class") :
    selectorMatches rule node' = selectorMatches rule node := by
  unfold selectorMatches
  rw [hid, hshape, Dict.getD, Dict.getD, hclass]

theorem resolveProperties_congr {rules : List StyleRule} {node node' : ParsedNode}
    (h : ∀ rule ∈ rules, selectorMatches rule node' = selectorMatches rule node)
    (resolved : Dict String (Nat × String)) :
    resolveProperties node' resolved rules = resolveProperties node resolved rules := by
  induction rules generalizing resolved with
  | nil => rfl
  | cons rule rules ih =>
    have hrest := ih fun other hother => h other (List.mem_cons_of_mem rule hother)
    rw [resolveProperties, resolveProperties, h rule List.mem_cons_self]
    simp only [hrest]

/-- No rule sets the class. -/
def LeaveClass (rules : List StyleRule) : Prop :=
  ∀ rule ∈ rules, rule.properties.get? "class" = none

theorem styleNode_twice {rules : List StyleRule} (hrules : LeaveClass rules)
    {node node' : ParsedNode} (h : styleNode rules node = .ok node') :
    styleNode rules node' = .ok node' := by
  have hclass : node'.attrs.get? "class" = node.attrs.get? "class" := by
    cases hold : node.attrs.get? "class" with
    | some v => exact (styled_styleNode h).explicit "class" v hold
    | none =>
      cases hnew : node'.attrs.get? "class" with
      | none => rfl
      | some v =>
        obtain ⟨before, rule, after, value, rfl, -, -, hvalue, -⟩ :=
          (styled_styleNode h).given "class" v hold hnew
        rw [hrules rule (by simp)] at hvalue
        cases hvalue
  have hget := get?_styleNode h
  obtain ⟨resolved, hresolved, heq⟩ := attrs_of_styleNode h
  have hresolved' : resolveProperties node' Dict.empty rules = .ok resolved := by
    rw [← hresolved]
    refine resolveProperties_congr (fun rule _ => selectorMatches_congr ?_ ?_ hclass) _
    · rw [heq]
    · rw [heq]
  have hattrs : resolved.entries.foldl giveProperty node'.attrs = node'.attrs := by
    refine giveProperties_of_contains fun p hp => ?_
    have hsome : resolved.get? p.1 = some p.2 := (Dict.get?_eq_some_iff resolved).mpr hp
    have hfold := get?_resolveProperties hresolved p.1
    rw [hsome, Dict.get?_empty] at hfold
    rw [Dict.contains, hget, ← hfold]
    cases node.attrs.get? p.1 <;> rfl
  rw [styleNode, hresolved']
  show Except.ok { node' with attrs := resolved.entries.foldl giveProperty node'.attrs } = _
  rw [hattrs]

/-! ## What is parsed -/

theorem keys_styleProperties (declarations : List Char) :
    ∀ property ∈ (styleProperties declarations).keys, property ∈ recognizedProperties := by
  unfold styleProperties
  generalize (declRe.finditer declarations).1 = ms
  have hrun : ∀ properties : Dict String String,
      (∀ property ∈ properties.keys, property ∈ recognizedProperties) →
      ∀ property ∈ (ms.foldl (fun properties m =>
        let name := stripped m.kind.1
        if recognizedProperties.contains name then properties.set name (stripped m.kind.2)
        else properties) properties).keys, property ∈ recognizedProperties := by
    induction ms with
    | nil => exact fun properties h => h
    | cons m ms ih =>
      intro properties h
      refine ih _ fun property hproperty => ?_
      dsimp only at hproperty
      split at hproperty
      · rename_i hname
        rcases (Dict.mem_keys_set ..).mp hproperty with rfl | hproperty
        · exact List.contains_iff_mem.mp hname
        · exact h property hproperty
      · exact h property hproperty
  exact hrun Dict.empty fun property hproperty => absurd hproperty List.not_mem_nil

/-- The selectors of the grammar. -/
inductive Selector : List Char → Prop
  | universal : Selector ['*']
  | id {c : Char} {r : List Char} (hc : isIdentStart c = true)
      (hr : ∀ d ∈ r, isIdentChar d = true) : Selector ('#' :: c :: r)
  | className {r : List Char} (hne : r ≠ []) (hr : ∀ d ∈ r, isClassChar d = true) :
      Selector ('.' :: r)
  | shape {c : Char} {r : List Char} (hc : c.isAlpha = true)
      (hr : ∀ d ∈ r, isIdentChar d = true) : Selector (c :: r)

theorem selector_of_scan {l selector rest : List Char}
    (h : scanSelector l = some (selector, rest)) : Selector selector := by
  unfold scanSelector at h
  split at h
  · obtain ⟨rfl, -⟩ := Prod.mk.inj (Option.some.inj h)
    exact .universal
  · split at h
    · rename_i hc
      obtain ⟨rfl, -⟩ := Prod.mk.inj (Option.some.inj h)
      exact .id hc fun d hd => List.mem_takeWhile_imp hd
    · cases h
  · split at h
    · cases h
    · rename_i hne
      obtain ⟨rfl, -⟩ := Prod.mk.inj (Option.some.inj h)
      exact .className (fun hnil => hne (by rw [hnil]; rfl)) fun d hd => List.mem_takeWhile_imp hd
  · split at h
    · rename_i hc
      obtain ⟨rfl, -⟩ := Prod.mk.inj (Option.some.inj h)
      exact .shape hc fun d hd => List.mem_takeWhile_imp hd
    · cases h
  · cases h

theorem isSpace_of_isIdentChar {c : Char} (h : isIdentChar c = true) : Text.isSpace c = false := by
  by_contra hspace
  rw [isIdentChar_of_space (Bool.not_eq_false _ ▸ hspace)] at h
  cases h

theorem isSpace_of_isClassChar {c : Char} (h : isClassChar c = true) : Text.isSpace c = false := by
  by_cases hdash : c = '-'
  · subst hdash
    decide
  · apply isSpace_of_isIdentChar
    simp only [isClassChar, Bool.or_eq_true, beq_iff_eq, hdash, or_false] at h
    have halpha : c.isAlpha = (c.isUpper || c.isLower) := rfl
    simp only [isIdentChar, Char.isAlphanum, halpha, Bool.or_eq_true]
    tauto

theorem Selector.bare {selector : List Char} (h : Selector selector) :
    ∀ c ∈ selector, Text.isSpace c = false := by
  intro d hd
  cases h with
  | universal =>
    obtain rfl := List.mem_singleton.mp hd
    decide
  | @id c r hc hr =>
    rcases List.mem_cons.mp hd with rfl | hd
    · decide
    rcases List.mem_cons.mp hd with rfl | hd
    · exact isSpace_of_isIdentChar (isIdentChar_of_isIdentStart hc)
    · exact isSpace_of_isIdentChar (hr d hd)
  | @className r hne hr =>
    rcases List.mem_cons.mp hd with rfl | hd
    · decide
    · exact isSpace_of_isClassChar (hr d hd)
  | @shape c r hc hr =>
    rcases List.mem_cons.mp hd with rfl | hd
    · refine isSpace_of_isIdentChar ?_
      simp [isIdentChar, Char.isAlphanum, hc]
    · exact isSpace_of_isIdentChar (hr d hd)

theorem styleRule_eq {m : Match (List Char × List Char)} {rule : StyleRule}
    (h : styleRule m = some rule) : rule = ⟨stripped m.kind.1, specificity (Text.strip m.kind.1),
      styleProperties m.kind.2⟩ := by
  unfold styleRule at h
  dsimp only at h
  split at h
  · cases h
  · exact (Option.some.inj h).symm

theorem rule_of_mem {css : String} {rule : StyleRule} (h : rule ∈ parseStylesheet css) :
    Selector rule.selector.toList ∧ rule.specificity = specificity rule.selector.toList ∧
      ∃ declarations, rule.properties = styleProperties declarations := by
  unfold parseStylesheet at h
  split at h
  · exact absurd h List.not_mem_nil
  obtain ⟨m, hm, hrule⟩ := List.mem_filterMap.mp h
  obtain ⟨l, rest, hrun⟩ := Pattern.run_of_mem (Pattern.scan_scans _ [] _ (Nat.le_refl _)) hm
  have hscan : scanRule l = some (m.kind, m.text, rest) := hrun
  simp only [scanRule, Option.bind_eq_bind, Option.bind_eq_some_iff, Option.pure_def,
    Option.some.injEq, Prod.mk.injEq] at hscan
  obtain ⟨⟨selector, r⟩, hselector, ⟨declarations, r'⟩, -, hkind, -⟩ := hscan
  have hform := selector_of_scan hselector
  have hstrip : Text.strip m.kind.1 = selector := by
    rw [← hkind]
    exact Text.strip_of_all_bare hform.bare
  have heq := styleRule_eq hrule
  have htext : rule.selector.toList = selector := by
    rw [heq, stripped, String.toList_ofList, hstrip]
  rw [htext]
  refine ⟨hform, ?_, m.kind.2, ?_⟩
  · rw [heq, hstrip]
  · rw [heq]

theorem leaveClass_parseStylesheet (css : String) : LeaveClass (parseStylesheet css) := by
  intro rule hrule
  obtain ⟨-, -, declarations, hproperties⟩ := rule_of_mem hrule
  rw [hproperties, Dict.get?_eq_none_iff]
  intro hmem
  exact absurd (keys_styleProperties declarations _ hmem) (by decide)

/-! ## What can be targeted -/

/-- A stylesheet of one rule. -/
def oneRule (selector : List Char) : String :=
  String.ofList (selector ++ "\x7bllm_model:m\x7d".toList)

theorem takeWhile_append_stop {p : Char → Bool} {l r : List Char} {c : Char}
    (hl : ∀ d ∈ l, p d = true) (hc : p c = false) :
    (l ++ c :: r).takeWhile p = l ∧ (l ++ c :: r).dropWhile p = c :: r := by
  constructor
  · rw [List.takeWhile_append_of_pos hl, List.takeWhile_cons, hc]
    exact List.append_nil l
  · rw [List.dropWhile_append_of_pos hl, List.dropWhile_cons, hc]
    rfl

theorem scanSelector_append {selector r : List Char} (h : Selector selector) :
    scanSelector (selector ++ '\x7b' :: r) = some (selector, '\x7b' :: r) := by
  have hident : isIdentChar '\x7b' = false := by decide
  cases h with
  | universal => rfl
  | @id c r' hc hr =>
    obtain ⟨htake, hdrop⟩ := takeWhile_append_stop (r := r) hr hident
    show scanSelector ('#' :: c :: (r' ++ '\x7b' :: r)) = _
    rw [scanSelector, if_pos hc, htake, hdrop]
  | @className r' hne hr =>
    obtain ⟨htake, hdrop⟩ := takeWhile_append_stop (r := r) hr
      (show isClassChar '\x7b' = false by decide)
    show scanSelector ('.' :: (r' ++ '\x7b' :: r)) = _
    rw [scanSelector, htake, hdrop, if_neg fun hempty => hne (List.isEmpty_iff.mp hempty)]
  | @shape c r' hc hr =>
    obtain ⟨htake, hdrop⟩ := takeWhile_append_stop (r := r) hr hident
    have hother : c ≠ '*' ∧ c ≠ '#' ∧ c ≠ '.' := by
      refine ⟨?_, ?_, ?_⟩ <;> rintro rfl <;> exact absurd hc (by decide)
    show scanSelector (c :: (r' ++ '\x7b' :: r)) = _
    unfold scanSelector
    split
    · rename_i heq
      exact absurd (List.cons.inj heq).1 hother.1
    · rename_i heq
      exact absurd (List.cons.inj heq).1 hother.2.1
    · rename_i heq
      exact absurd (List.cons.inj heq).1 hother.2.2
    · rename_i heq
      obtain ⟨rfl, rfl⟩ := List.cons.inj heq
      rw [if_pos hc, htake, hdrop]
    · rename_i heq
      exact (nomatch heq)

theorem parse_oneRule {selector : List Char} (h : Selector selector) :
    ∃ rule ∈ parseStylesheet (oneRule selector), rule.selector.toList = selector := by
  have hcss : (oneRule selector).toList = selector ++ '\x7b' :: "llm_model:m\x7d".toList := by
    rw [oneRule, String.toList_ofList]
    rfl
  have hrun : ruleRe.run (oneRule selector).toList =
      some ((selector, "llm_model:m".toList), (oneRule selector).toList, []) := by
    have hbraces : scanBraces ('\x7b' :: "llm_model:m\x7d".toList) =
        some ("llm_model:m".toList, []) := by decide +kernel
    show scanRule (oneRule selector).toList = _
    rw [hcss]
    simp only [scanRule, Option.bind_eq_bind, scanSelector_append h, Option.bind_some, hbraces,
      Option.pure_def, consumed, List.length_nil, Nat.sub_zero, List.take_length]
  have hfound : ruleRe.finditer (oneRule selector).toList =
      ([⟨[], (selector, "llm_model:m".toList), (oneRule selector).toList⟩], []) :=
    Pattern.finditer_eq_iff.mpr (.found hrun (.done []))
  have hrule : styleRule ⟨[], (selector, "llm_model:m".toList), (oneRule selector).toList⟩ =
      some ⟨stripped selector, specificity (Text.strip selector),
        styleProperties "llm_model:m".toList⟩ := by
    have hset : (styleProperties "llm_model:m".toList).entries.isEmpty = false := by decide +kernel
    unfold styleRule
    dsimp only
    rw [hset]
    rfl
  have htext : stripText (oneRule selector) ≠ "" := by
    have hall : ('\x7b' :: "llm_model:m\x7d".toList).all (!Text.isSpace ·) = true := by
      decide +kernel
    have hrest : ∀ c ∈ '\x7b' :: "llm_model:m\x7d".toList, Text.isSpace c = false := by
      simpa only [List.all_eq_true, Bool.not_eq_true'] using hall
    have hbare : ∀ c ∈ (oneRule selector).toList, Text.isSpace c = false := by
      intro c hc
      rw [hcss] at hc
      exact (List.mem_append.mp hc).elim (h.bare c) (hrest c)
    intro hempty
    have hlist := congrArg String.toList hempty
    rw [stripText, String.toList_ofList, Text.strip_of_all_bare hbare, hcss] at hlist
    exact absurd (List.append_eq_nil_iff.mp hlist).2 (List.cons_ne_nil _ _)
  refine ⟨⟨stripped selector, specificity (Text.strip selector),
    styleProperties "llm_model:m".toList⟩, ?_, ?_⟩
  · rw [parseStylesheet, if_neg htext, hfound]
    exact List.mem_filterMap.mpr ⟨_, List.mem_cons_self, hrule⟩
  · rw [stripped, String.toList_ofList, Text.strip_of_all_bare h.bare]

/-- Some rule is for the nodes of this id, and no others. -/
def IdTargetable (id : String) : Prop :=
  ∃ css, ∃ rule ∈ parseStylesheet css, ∀ node, selectorMatches rule node = .ok (node.id == id)

/-- Some rule is for the nodes of this class, and no others. -/
def ClassTargetable (name : String) : Prop :=
  ∃ css, ∃ rule ∈ parseStylesheet css, ∀ node, selectorMatches rule node =
    (nodeClasses (node.attrs.getD "class" (.str ""))).map fun classes => classes.contains name

/-- `[a-z0-9-]+`, the class names of the grammar. -/
def isClassName (name : String) : Bool :=
  name.toList != [] && name.toList.all isClassChar

theorem idTargetable_of_grammarId {id : String} (h : isGrammarId id = true) : IdTargetable id := by
  unfold isGrammarId at h
  split at h
  · rename_i c r hid
    obtain ⟨hc, hr⟩ := Bool.and_eq_true_iff.mp h
    obtain ⟨rule, hrule, hselector⟩ := parse_oneRule (.id hc (List.all_eq_true.mp hr))
    refine ⟨_, rule, hrule, fun node => ?_⟩
    have htext : String.ofList (c :: r) = id := by rw [← hid, String.ofList_toList]
    unfold selectorMatches
    rw [hselector]
    show Except.ok (String.ofList (c :: r) == node.id) = _
    rw [htext, Bool.beq_comm]
  · cases h

theorem classTargetable_of_isClassName {name : String} (h : isClassName name = true) :
    ClassTargetable name := by
  obtain ⟨hne, hall⟩ := Bool.and_eq_true_iff.mp h
  obtain ⟨rule, hrule, hselector⟩ :=
    parse_oneRule (.className (bne_iff_ne.mp hne) (List.all_eq_true.mp hall))
  refine ⟨_, rule, hrule, fun node => ?_⟩
  unfold selectorMatches
  rw [hselector]
  show (nodeClasses (node.attrs.getD "class" (.str ""))).map
    (fun classes => classes.contains (String.ofList name.toList)) = _
  rw [String.ofList_toList]

/-- A class that a node can have and a rule can be for is one of the grammar. -/
theorem isClassName_of_classTargetable {name : String}
    (hname : nodeClasses (.str name) = .ok [name]) (h : ClassTargetable name) : isClassName name = true := by
  obtain ⟨css, rule, hrule, hmatches⟩ := h
  have hbearer := hmatches
    { id := "", label := .none, shape := .none, attrs := Dict.empty.set "class" (.str name) }
  have hother := hmatches { id := "", label := .none, shape := .none }
  have hclasses : nodeClasses (((Dict.empty : Record).set "class" (.str name)).getD "class"
      (.str "")) = .ok [name] := hname
  have hself : [name].contains name = true := List.contains_iff_mem.mpr List.mem_cons_self
  dsimp only at hbearer
  rw [hclasses, Except.map, hself] at hbearer
  have hform := (rule_of_mem hrule).1
  unfold selectorMatches at hbearer hother
  generalize rule.selector.toList = selector at hform hbearer hother
  cases hform with
  | universal =>
    have hnone := Except.ok.inj hother
    simp at hnone
  | @id c r hc hr =>
    have hid := beq_iff_eq.mp (Except.ok.inj hbearer)
    have hlist := congrArg String.toList hid
    rw [String.toList_ofList] at hlist
    exact (nomatch hlist)
  | @className r hne hr =>
    have hcontains : [name].contains (String.ofList r) = true := by
      have hmap : (nodeClasses (((Dict.empty : Record).set "class" (.str name)).getD "class"
          (.str ""))).map (fun classes => classes.contains (String.ofList r)) = .ok true := hbearer
      rw [hclasses] at hmap
      exact Except.ok.inj hmap
    obtain rfl := List.mem_singleton.mp (List.contains_iff_mem.mp hcontains)
    rw [isClassName, String.toList_ofList, Bool.and_eq_true, bne_iff_ne]
    exact ⟨hne, List.all_eq_true.mpr hr⟩
  | @shape c r hc hr =>
    have hstar : c ≠ '*' := by
      rintro rfl
      exact absurd hc (by decide)
    split at hbearer
    · rename_i heq
      exact absurd (List.cons.inj heq).1 hstar
    · rename_i heq
      rw [(List.cons.inj heq).1] at hc
      exact absurd hc (by decide)
    · rename_i heq
      rw [(List.cons.inj heq).1] at hc
      exact absurd hc (by decide)
    · exact (nomatch Except.ok.inj hbearer)

/-! ## The result -/

theorem exists_resolveProperties {node : ParsedNode} {classes : List String}
    (h : nodeClasses (node.attrs.getD "class" (.str "")) = .ok classes) (rules : List StyleRule)
    (resolved : Dict String (Nat × String)) :
    ∃ resolved', resolveProperties node resolved rules = .ok resolved' := by
  induction rules generalizing resolved with
  | nil => exact ⟨resolved, rfl⟩
  | cons rule rules ih =>
    have hmatch : ∃ matching, selectorMatches rule node = .ok matching := by
      unfold selectorMatches
      split
      · exact ⟨_, rfl⟩
      · exact ⟨_, rfl⟩
      · rw [h]
        exact ⟨_, rfl⟩
      · exact ⟨_, rfl⟩
    obtain ⟨matching, hmatch⟩ := hmatch
    rw [resolveProperties, hmatch]
    cases matching with
    | true => exact ih _
    | false => exact ih _

/-- What the parsed stylesheet makes of the graph. -/
structure Cascades (rules : List StyleRule) (g : ParsedGraph) : Prop where
  /-- An id selector ranks over a class, a class over a shape, a shape over everything. -/
  ranked : ∀ rule ∈ rules, Selector rule.selector.toList ∧
    rule.specificity = specificity rule.selector.toList
  returns : (∀ node ∈ g.nodes.values, ∃ classes,
      nodeClasses (node.attrs.getD "class" (.str "")) = .ok classes) →
    ∃ g', applyStylesheet g rules = .ok g'
  styled : ∀ g', applyStylesheet g rules = .ok g' →
    g' = { g with nodes := g'.nodes } ∧ Dict.Pointwise (Styled rules) g.nodes g'.nodes
  twice : ∀ g', applyStylesheet g rules = .ok g' → applyStylesheet g' rules = .ok g'

theorem exists_styleNode {node : ParsedNode} {rules : List StyleRule} {classes : List String}
    (h : nodeClasses (node.attrs.getD "class" (.str "")) = .ok classes) :
    ∃ node', styleNode rules node = .ok node' := by
  obtain ⟨resolved, hresolved⟩ := exists_resolveProperties h rules Dict.empty
  exact ⟨_, by rw [styleNode, hresolved]; rfl⟩

theorem Styled.none (node : ParsedNode) : Styled [] node node where
  rest := rfl
  explicit := fun _ _ h => h
  given := fun _ _ hnone hv => by
    rw [hnone] at hv
    cases hv
  lacking := fun _ _ _ hrule => absurd hrule List.not_mem_nil

/-- What the rules do to the graph is what they do to each node. -/
theorem nodes_of_applyStylesheet {g g' : ParsedGraph} {rules : List StyleRule}
    (h : applyStylesheet g rules = .ok g') (hrules : rules ≠ []) :
    g' = { g with nodes := g'.nodes } ∧ g.nodes.traverse (styleNode rules) = .ok g'.nodes := by
  rw [applyStylesheet, if_neg fun hempty => hrules (List.isEmpty_iff.mp hempty)] at h
  cases hnodes : g.nodes.traverse (styleNode rules) with
  | error e =>
    rw [hnodes] at h
    cases h
  | ok nodes =>
    rw [hnodes] at h
    obtain rfl := Except.ok.inj h
    exact ⟨rfl, rfl⟩

theorem applyStylesheet_nil (g : ParsedGraph) : applyStylesheet g [] = .ok g := rfl

theorem cascades (css : String) (g : ParsedGraph) : Cascades (parseStylesheet css) g := by
  have hclass := leaveClass_parseStylesheet css
  have hranked : ∀ rule ∈ parseStylesheet css, Selector rule.selector.toList ∧
      rule.specificity = specificity rule.selector.toList := fun rule hrule =>
    ⟨(rule_of_mem hrule).1, (rule_of_mem hrule).2.1⟩
  generalize parseStylesheet css = rules at hclass hranked
  by_cases hrules : rules = []
  · subst hrules
    constructor
    case ranked => exact hranked
    case returns => exact fun _ => ⟨g, rfl⟩
    case styled =>
      intro g' h
      obtain rfl := Except.ok.inj h
      exact ⟨rfl, Dict.Pointwise.refl Styled.none g.nodes⟩
    case twice =>
      intro g' h
      exact applyStylesheet_nil g'
  have hcons : rules.isEmpty = false := by
    rw [List.isEmpty_eq_false_iff]
    exact hrules
  constructor
  case ranked => exact hranked
  case returns =>
    intro hclasses
    obtain ⟨nodes, hnodes⟩ := Dict.exists_traverse (f := styleNode rules) (d := g.nodes)
      fun node hnode => by
        obtain ⟨classes, hc⟩ := hclasses node hnode
        exact exists_styleNode hc
    exact ⟨_, by rw [applyStylesheet, hcons, hnodes]; rfl⟩
  case styled =>
    intro g' h
    obtain ⟨hrest, hnodes⟩ := nodes_of_applyStylesheet h hrules
    refine ⟨hrest, List.Forall₂.imp ?_ (Dict.traverse_eq_ok_iff.mp hnodes)⟩
    exact fun _ _ hp => ⟨hp.1, styled_styleNode hp.2⟩
  case twice =>
    intro g' h
    obtain ⟨-, hnodes⟩ := nodes_of_applyStylesheet h hrules
    have hagain : g'.nodes.traverse (styleNode rules) = .ok g'.nodes := by
      refine Dict.traverse_eq_ok_iff.mpr ?_
      have hpoint := Dict.traverse_eq_ok_iff.mp hnodes
      unfold Dict.Pointwise at hpoint ⊢
      generalize g.nodes.entries = l at hpoint
      generalize g'.nodes.entries = l' at hpoint
      induction hpoint with
      | nil => exact .nil
      | cons hp _ ih => exact .cons ⟨rfl, styleNode_twice hclass hp.2⟩ ih
    rw [applyStylesheet, hcons, hagain]
    rfl

theorem stylesheet_cascades : (∀ css g, Cascades (parseStylesheet css) g) ∧
    (∀ id, isGrammarId id = true → IdTargetable id) ∧
      ∀ name, isClassName name = true → ClassTargetable name :=
  ⟨cascades, fun _ h => idTargetable_of_grammarId h, fun _ h => classTargetable_of_isClassName h⟩

section Demo

open Py.Ascii

def codeSource : String := "digraph g \x7b plan [class=\"Code\"] \x7d"

def isText (text : String) : Value → Bool
  | .str s => s == text
  | _ => false

/-- The parser admits a class that no selector of the grammar names. -/
theorem class_out_of_reach :
    ¬ ∀ (source : String) (g : ParsedGraph), parseDot source Dict.empty = .ok g →
      ∀ node ∈ g.nodes.values, ∀ classes,
        nodeClasses (node.attrs.getD "class" (.str "")) = .ok classes →
          ∀ name ∈ classes, ClassTargetable name := by
  intro h
  have hcode : nodeClasses (.str "Code") = .ok ["Code"] := by
    have hsplit : ((Text.split [','] "Code".toList).map fun c => String.ofList (Text.strip c)) =
        ["Code"] := by decide +kernel
    rw [nodeClasses, if_neg (by decide), hsplit]
  have hread : (match parseDot codeSource Dict.empty with
      | .ok g => g.nodes.values.any fun node => isText "Code" (node.attrs.getD "class" (.str ""))
      | .error _ => false) = true := by decide +kernel
  cases hparse : parseDot codeSource Dict.empty with
  | error e =>
    rw [hparse] at hread
    cases hread
  | ok g =>
    rw [hparse] at hread
    obtain ⟨node, hnode, htext⟩ := List.any_eq_true.mp hread
    have hclass : node.attrs.getD "class" (.str "") = .str "Code" := by
      unfold isText at htext
      split at htext
      · rename_i heq
        rw [heq, beq_iff_eq.mp htext]
      · cases htext
    have htarget := h codeSource g hparse node hnode ["Code"] (hclass ▸ hcode) "Code"
      List.mem_cons_self
    have hname := isClassName_of_classTargetable hcode htarget
    exact absurd hname (by decide +kernel)

end Demo

end Dot
end DotRunner
