import DotRunner.Conditions
import DotRunner.Dot.Lexer

/-!
# The model stylesheet

`parse_stylesheet`: rules of a selector and declarations in braces.
-/

namespace DotRunner

open Py Dot

structure StyleRule where
  selector : String
  specificity : Nat
  properties : Dict String String

def recognizedProperties : List String := ["llm_model", "llm_provider", "reasoning_effort"]

def isClassChar (c : Char) : Bool := c.isLower || c.isDigit || c == '-'

/-- The selector of a rule: everything, an id, a class or a shape. -/
def scanSelector : List Char → Option (List Char × List Char)
  | '*' :: r => some (['*'], r)
  | '#' :: c :: r =>
    if isIdentStart c then some ('#' :: c :: r.takeWhile isIdentChar, r.dropWhile isIdentChar)
    else none
  | '.' :: r =>
    if (r.takeWhile isClassChar).isEmpty then none
    else some ('.' :: r.takeWhile isClassChar, r.dropWhile isClassChar)
  | c :: r =>
    if c.isAlpha then some (c :: r.takeWhile isIdentChar, r.dropWhile isIdentChar) else none
  | [] => none

/-- `\{([^}]*)\}`, behind white space: the text in the braces and the rest. -/
def scanBraces (l : List Char) : Option (List Char × List Char) :=
  match l.dropWhile Text.isSpace with
  | '\x7b' :: r => match r.dropWhile (· != '\x7d') with
    | '\x7d' :: rest => some (r.takeWhile (· != '\x7d'), rest)
    | _ => none
  | _ => none

/-- What a match took off the head of `l`, for what it left. -/
def consumed (l rest : List Char) : List Char := l.take (l.length - rest.length)

/-- `_RULE_RE`: the selector and the declarations. -/
def scanRule (l : List Char) : Option ((List Char × List Char) × List Char × List Char) := do
  let (selector, r) ← scanSelector l
  let (declarations, rest) ← scanBraces r
  return ((selector, declarations), consumed l rest, rest)

/-- The name of a declaration, behind white space and in front of its colon. -/
def scanName (l : List Char) : Option (List Char × List Char) :=
  match l.dropWhile Text.isSpace with
  | c :: r =>
    if isIdentStart c then match (r.dropWhile isIdentChar).dropWhile Text.isSpace with
      | ':' :: rest => some (c :: r.takeWhile isIdentChar, rest)
      | _ => none
    else none
  | [] => none

/-- `_DECL_RE`: the name and the value, which a semicolon or the end ends. -/
def scanDecl (l : List Char) : Option ((List Char × List Char) × List Char × List Char) := do
  let (name, r) ← scanName l
  let value := r.takeWhile fun c => c != ';' && c != '\x7d'
  if value.isEmpty then none
  else match r.dropWhile fun c => c != ';' && c != '\x7d' with
    | [] => some ((name, value), l, [])
    | ';' :: rest => some ((name, value), consumed l rest, rest)
    | _ => none

/-! ## What the patterns consume -/

theorem suffix_of_dropWhile {p : Char → Bool} {l r : List Char} (h : l.dropWhile p = r) : r <:+ l :=
  h ▸ List.dropWhile_suffix p

theorem consumed_append {l rest : List Char} (h : rest <:+ l) (hne : rest ≠ l) :
    l = consumed l rest ++ rest ∧ consumed l rest ≠ [] := by
  obtain ⟨front, rfl⟩ := h
  have hconsumed : consumed (front ++ rest) rest = front := by simp [consumed]
  rw [hconsumed]
  refine ⟨rfl, fun hnil => hne ?_⟩
  rw [hnil]
  rfl

theorem scanSelector_suffix {l selector r : List Char} (h : scanSelector l = some (selector, r)) :
    r <:+ l ∧ r ≠ l := by
  have hshort : ∀ {c : Char} {l' : List Char}, r <:+ l' → l = c :: l' → r <:+ l ∧ r ≠ l := by
    intro c l' hr hl
    subst hl
    refine ⟨hr.trans (List.suffix_cons c l'), fun heq => ?_⟩
    have hlen := hr.length_le
    rw [heq, List.length_cons] at hlen
    omega
  unfold scanSelector at h
  split at h
  · cases h
    exact hshort (List.suffix_refl _) rfl
  · rename_i c r' 
    split at h
    · obtain ⟨-, rfl⟩ := Prod.mk.inj (Option.some.inj h)
      exact hshort ((List.dropWhile_suffix _).trans (List.suffix_cons c r')) rfl
    · cases h
  · split at h
    · cases h
    · obtain ⟨-, rfl⟩ := Prod.mk.inj (Option.some.inj h)
      exact hshort (List.dropWhile_suffix _) rfl
  · split at h
    · obtain ⟨-, rfl⟩ := Prod.mk.inj (Option.some.inj h)
      exact hshort (List.dropWhile_suffix _) rfl
    · cases h
  · cases h

theorem scanBraces_suffix {l declarations r : List Char}
    (h : scanBraces l = some (declarations, r)) : r <:+ l := by
  unfold scanBraces at h
  split at h
  · rename_i r₁ hl
    split at h
    · rename_i rest hr
      obtain ⟨-, rfl⟩ := Prod.mk.inj (Option.some.inj h)
      exact (List.suffix_cons _ rest).trans ((suffix_of_dropWhile hr).trans
        ((List.suffix_cons _ r₁).trans (suffix_of_dropWhile hl)))
    · cases h
  · cases h

theorem scanName_suffix {l name r : List Char} (h : scanName l = some (name, r)) :
    r <:+ l ∧ r ≠ l := by
  unfold scanName at h
  split at h
  · rename_i c r₁ hl
    split at h
    · split at h
      · rename_i rest hr
        obtain ⟨-, rfl⟩ := Prod.mk.inj (Option.some.inj h)
        have hrest : rest <:+ r₁ := (List.suffix_cons _ rest).trans
          ((suffix_of_dropWhile hr).trans (List.dropWhile_suffix _))
        have hl' : c :: r₁ <:+ l := suffix_of_dropWhile hl
        refine ⟨hrest.trans ((List.suffix_cons c r₁).trans hl'), fun heq => ?_⟩
        have hlen := hrest.length_le
        have hlen' := hl'.length_le
        rw [heq] at hlen
        rw [List.length_cons] at hlen'
        omega
      · cases h
    · cases h
  · cases h

/-- `_RULE_RE` -/
def ruleRe : Pattern (List Char × List Char) where
  run := scanRule
  splits := by
    intro l k t r h
    simp only [scanRule, Option.bind_eq_bind, Option.bind_eq_some_iff, Option.pure_def,
      Option.some.injEq, Prod.mk.injEq] at h
    obtain ⟨⟨selector, r₁⟩, hselector, ⟨declarations, r₂⟩, hbraces, -, rfl, rfl⟩ := h
    obtain ⟨hsuffix, hne⟩ := scanSelector_suffix hselector
    have hrest := scanBraces_suffix hbraces
    refine consumed_append (hrest.trans hsuffix) fun heq => hne ?_
    exact hsuffix.eq_of_length_le (by rw [← heq]; exact hrest.length_le)

/-- `_DECL_RE` -/
def declRe : Pattern (List Char × List Char) where
  run := scanDecl
  splits := by
    intro l k t r h
    simp only [scanDecl, Option.bind_eq_bind, Option.bind_eq_some_iff] at h
    obtain ⟨⟨name, r₁⟩, hname, h⟩ := h
    obtain ⟨hsuffix, hne⟩ := scanName_suffix hname
    have hpos : l ≠ [] := by
      rintro rfl
      exact hne (List.suffix_nil.mp hsuffix)
    split at h
    · cases h
    · split at h
      · cases h
        exact ⟨(List.append_nil _).symm, hpos⟩
      · rename_i rest hdrop
        cases h
        have hrest : r <:+ r₁ := (List.suffix_cons _ r).trans (suffix_of_dropWhile hdrop)
        refine consumed_append (hrest.trans hsuffix) fun heq => hne ?_
        exact hsuffix.eq_of_length_le (by rw [← heq]; exact hrest.length_le)
      · cases h

/-! ## Rules -/

/-- Universal, shape, class, id. -/
def specificity : List Char → Nat
  | ['*'] => 0
  | '.' :: _ => 2
  | '#' :: _ => 3
  | _ => 1

/-- The recognized properties of the declarations, the last value of each. -/
def styleProperties (declarations : List Char) : Dict String String :=
  (declRe.finditer declarations).1.foldl (fun properties m =>
    let name := stripped m.kind.1
    if recognizedProperties.contains name then properties.set name (stripped m.kind.2)
    else properties) Dict.empty

/-- A rule, unless it sets nothing. -/
def styleRule (m : Match (List Char × List Char)) : Option StyleRule :=
  let properties := styleProperties m.kind.2
  if properties.entries.isEmpty then none
  else some ⟨stripped m.kind.1, specificity (Text.strip m.kind.1), properties⟩

def parseStylesheet (css : String) : List StyleRule :=
  if stripText css = "" then [] else (ruleRe.finditer css.toList).1.filterMap styleRule

end DotRunner
