import DotRunner.Py.Sub
import DotRunner.Stylesheet

/-!
# Redaction

`redact_text`: known shapes of credentials, and the values of assignments to a name
that ends as those of credentials do, give way to a marker.
-/

namespace DotRunner
namespace Observability

open Py

def marker (shape : String) : List Char := "[REDACTED:".toList ++ shape.toList ++ [']']

/-! ## Tokens -/

/-- One character of each kind, in a row. -/
def matchesKinds : List (Char → Bool) → List Char → Bool
  | [], _ => true
  | _ :: _, [] => false
  | p :: ps, c :: l => p c && matchesKinds ps l

/-- A front of fixed length and then a run of at least twenty characters. -/
def scanCredential (front : List (Char → Bool)) (inRun : Char → Bool) (l : List Char) :
    Option (Unit × List Char × List Char) :=
  let run := l.drop front.length
  if matchesKinds front l ∧ 20 ≤ (run.takeWhile inRun).length then
    some ((), consumed l (run.dropWhile inRun), run.dropWhile inRun)
  else none

def credentialRe (front : List (Char → Bool)) (inRun : Char → Bool) : Pattern Unit where
  run := scanCredential front inRun
  splits := by
    intro l k t r h
    simp only [scanCredential] at h
    split at h
    · rename_i hmatch
      simp only [Option.some.injEq, Prod.mk.injEq] at h
      obtain ⟨-, rfl, hr⟩ := h
      have hrest : r <:+ l.drop front.length := hr ▸ List.dropWhile_suffix inRun
      rw [hr]
      refine consumed_append (hrest.trans (List.drop_suffix _ _)) fun heq => ?_
      have hlen : (l.drop front.length).length =
          ((l.drop front.length).takeWhile inRun).length + r.length := by
        rw [← hr, ← List.length_append, List.takeWhile_append_dropWhile]
      rw [heq, List.length_drop] at hlen
      omega
    · cases h

def charIs (d : Char) : Char → Bool := fun c => c == d

/-- `sk-[A-Za-z0-9_-]{20,}` -/
def openaiKey : Pattern Unit :=
  credentialRe ("sk-".toList.map charIs) fun c => c.isAlphanum || c == '_' || c == '-'

/-- `github_pat_[A-Za-z0-9_]{20,}` -/
def githubFineGrainedPat : Pattern Unit :=
  credentialRe ("github_pat_".toList.map charIs) fun c => c.isAlphanum || c == '_'

/-- `gh[posur]_[A-Za-z0-9]{20,}` -/
def githubToken : Pattern Unit :=
  credentialRe [charIs 'g', charIs 'h', "posur".toList.contains, charIs '_'] fun c => c.isAlphanum

/-! ## Assignments -/

/-- What `re.IGNORECASE` takes for one and the same character. -/
def foldCase (c : Char) : Char :=
  if c.toNat = 0x130 ∨ c.toNat = 0x131 then 'i'
  else if c.toNat = 0x212A then 'k'
  else if c.toNat = 0x17F then 's'
  else c.toLower

/-- `[A-Za-z0-9_]`, whatever the case -/
def isNameChar (c : Char) : Bool := (foldCase c).isAlphanum || foldCase c == '_'

/-- `SENSITIVE_NAME_TAILS`, with and without an `S` where that is optional -/
def sensitiveNameTails : List String :=
  ["api_key", "api_keys", "secret_access_key", "_token", "_secret", "password", "credential",
    "credentials"]

def isSensitive (name : List Char) : Bool :=
  sensitiveNameTails.any fun tail => tail.toList.isSuffixOf (name.map foldCase)

/-- The opening quote of a value. -/
inductive ValueQuote where
  | bare
  | escaped
  | single
  | unquoted
deriving DecidableEq

def ValueQuote.text : ValueQuote → List Char
  | bare => ['"']
  | escaped => ['\\', '"']
  | single => ['\'']
  | unquoted => []

/-- The shortest content of at least `least` characters that does not end in a backslash and has
`stop` behind it. -/
def scanContent (stop : List Char → Bool) (inside : Char → Bool) :
    Nat → Bool → List Char → Option (List Char)
  | least, slash, l =>
    if least = 0 ∧ slash = false ∧ stop l = true then some l
    else match l with
      | [] => none
      | c :: l => if inside c then scanContent stop inside (least - 1) (c == '\\') l else none

def minAssignmentValueLen : Nat := 16

/-- `(?=\\?")` -/
def closesDouble : List Char → Bool
  | '"' :: _ => true
  | '\\' :: '"' :: _ => true
  | _ => false

/-- `[^"\r\n]` -/
def insideDouble (c : Char) : Bool := c != '"' && c != '\r' && c != '\n'

def closesSingle (l : List Char) : Bool := l.head? == some '\''

/-- `[^'"\r\n]` -/
def insideSingle (c : Char) : Bool := insideDouble c && c != '\''

/-- `_ASSIGNMENT_VALUE_CONT`, in front of what follows a quote -/
def goesOn : List Char → Bool
  | c :: _ => !Text.isSpace c && !"\"'\\,:;)]\x7d".toList.contains c
  | [] => false

/-- What a backslash by itself joins. -/
def joinsSlash : List Char → Bool
  | c :: _ => !Text.isSpace c && !"\\nrtu".toList.contains c
  | [] => true

/-- One item of an unquoted value. -/
def scanTile : List Char → Option (List Char × List Char)
  | '\\' :: '\\' :: l => some (['\\', '\\'], l)
  | '\\' :: l => if joinsSlash l then some (['\\'], l) else none
  | c :: l =>
    if c = '"' ∨ c = '\'' then (if goesOn l then some ([c], l) else none)
    else if Text.isSpace c then none
    else some ([c], l)
  | [] => none

/-- All items from here on. -/
def scanTiles : Nat → List Char → List (List Char)
  | 0, _ => []
  | fuel + 1, l => match scanTile l with
    | some (tile, r) => tile :: scanTiles fuel r
    | none => []

def endsOnSlash (tile : List Char) : Bool := tile.getLast? == some '\\'

/-- The items kept, the last of them not to end in a backslash. -/
def plainTiles (l : List Char) : List (List Char) :=
  ((scanTiles l.length l).reverse.dropWhile endsOnSlash).reverse

def scanDouble (l : List Char) : Option (ValueQuote × List Char) :=
  match l with
  | '\\' :: '"' :: r =>
    (scanContent closesDouble insideDouble minAssignmentValueLen false r).map fun r => (.escaped, r)
  | '"' :: r =>
    (scanContent closesDouble insideDouble minAssignmentValueLen false r).map fun r => (.bare, r)
  | _ => none

def scanSingle (l : List Char) : Option (ValueQuote × List Char) :=
  match l with
  | '\'' :: r =>
    (scanContent closesSingle insideSingle minAssignmentValueLen false r).map fun r => (.single, r)
  | _ => none

def scanPlain (l : List Char) : Option (ValueQuote × List Char) :=
  if minAssignmentValueLen ≤ (plainTiles l).length then
    some (.unquoted, l.drop (plainTiles l).flatten.length)
  else none

/-- `_ASSIGNMENT_VALUE`: the opening quote and what follows the value. -/
def scanValue (l : List Char) : Option (ValueQuote × List Char) :=
  (scanDouble l).or ((scanSingle l).or (scanPlain l))

/-- `(?!\\?["']?\[REDACTED:)` -/
def alreadyRedacted (l : List Char) : Bool :=
  let l := match l with
    | '\\' :: l => l
    | l => l
  let l := match l with
    | '"' :: l => l
    | '\'' :: l => l
    | l => l
  "[redacted:".toList.isPrefixOf (l.map foldCase)

/-- What the groups of an assignment are matched by. -/
structure Assignment where
  name : List Char
  sep : List Char
  quote : ValueQuote

def scanAssignment (l : List Char) : Option (Assignment × List Char × List Char) :=
  let name := l.takeWhile isNameChar
  let behind := l.dropWhile isNameChar
  if isSensitive name then match behind.dropWhile Text.isSpace with
    | '=' :: r =>
      let value := r.dropWhile Text.isSpace
      if alreadyRedacted value then none
      else (scanValue value).map fun (quote, rest) =>
        (⟨name, behind.takeWhile Text.isSpace ++ '=' :: r.takeWhile Text.isSpace, quote⟩,
          consumed l rest, rest)
    | _ => none
  else none

theorem scanContent_suffix {stop : List Char → Bool} {inside : Char → Bool} {least : Nat}
    {slash : Bool} {l r : List Char} (h : scanContent stop inside least slash l = some r) :
    r <:+ l := by
  fun_induction scanContent stop inside least slash l with
  | case1 => exact Option.some.inj h ▸ List.suffix_refl _
  | case2 => cases h
  | case3 least slash c l hinside hnot ih => exact (ih h).trans (List.suffix_cons c l)
  | case4 => cases h

theorem scanValue_suffix {l r : List Char} {quote : ValueQuote}
    (h : scanValue l = some (quote, r)) : r <:+ l := by
  have hdouble : ∀ {quote r}, scanDouble l = some (quote, r) → r <:+ l := by
    intro quote r h
    unfold scanDouble at h
    split at h
    · obtain ⟨r', hcontent, heq⟩ := Option.map_eq_some_iff.mp h
      cases heq
      exact (scanContent_suffix hcontent).trans (List.suffix_append ['\\', '"'] _)
    · obtain ⟨r', hcontent, heq⟩ := Option.map_eq_some_iff.mp h
      cases heq
      exact (scanContent_suffix hcontent).trans (List.suffix_cons '"' _)
    · cases h
  have hsingle : ∀ {quote r}, scanSingle l = some (quote, r) → r <:+ l := by
    intro quote r h
    unfold scanSingle at h
    split at h
    · obtain ⟨r', hcontent, heq⟩ := Option.map_eq_some_iff.mp h
      cases heq
      exact (scanContent_suffix hcontent).trans (List.suffix_cons '\'' _)
    · cases h
  have hplain : ∀ {quote r}, scanPlain l = some (quote, r) → r <:+ l := by
    intro quote r h
    unfold scanPlain at h
    split at h
    · cases h
      exact List.drop_suffix _ l
    · cases h
  rw [scanValue, Option.or_eq_some_iff, Option.or_eq_some_iff] at h
  obtain h | ⟨-, h | ⟨-, h⟩⟩ := h
  · exact hdouble h
  · exact hsingle h
  · exact hplain h

/-- `ASSIGNMENT_PATTERN` -/
def assignmentPattern : Pattern Assignment where
  run := scanAssignment
  splits := by
    intro l k t r h
    simp only [scanAssignment] at h
    split at h
    · rename_i hname
      split at h
      · rename_i r' hsep
        split at h
        · cases h
        · obtain ⟨⟨quote, rest⟩, hvalue, heq⟩ := Option.map_eq_some_iff.mp h
          cases heq
          have hr' : r' <:+ l.dropWhile isNameChar :=
            (List.suffix_cons '=' r').trans (suffix_of_dropWhile hsep)
          have hrest : rest <:+ r' := (scanValue_suffix hvalue).trans (List.dropWhile_suffix _)
          have hl := hr'.trans (List.dropWhile_suffix isNameChar)
          refine consumed_append (hrest.trans hl) fun heq => ?_
          have hlen := hrest.length_le
          have hlen' := hr'.length_le
          have hshort : r'.length < (l.dropWhile isNameChar).length :=
            (Nat.lt_succ_self _).trans_le (suffix_of_dropWhile hsep).length_le
          have hdrop := (List.dropWhile_suffix (l := l) isNameChar).length_le
          rw [show rest = l from heq] at hlen
          omega
      · cases h
    · cases h

/-! ## Texts -/

def Assignment.replacement (a : Assignment) : List Char :=
  a.name ++ a.sep ++ a.quote.text ++ marker "assignment"

/-- The token patterns and their shapes, in the order they are tried. -/
def tokenPatterns : List (String × Pattern Unit) :=
  [("openai-key", openaiKey), ("github-fine-grained-pat", githubFineGrainedPat),
    ("github-token", githubToken)]

/-- The text with its tokens redacted, and what they were. -/
def redactTokens (text : List Char) : List Char × List String :=
  tokenPatterns.foldl (fun found p =>
    let redacted := p.2.sub (fun _ => marker p.1) found.1
    (redacted.1, found.2 ++ redacted.2.map fun _ => p.1)) (text, [])

/-- `redact_text` -/
def redactText (text : List Char) : List Char × List String :=
  let tokens := redactTokens text
  let assigned := assignmentPattern.sub Assignment.replacement tokens.1
  (assigned.1, tokens.2 ++ assigned.2.map fun a => "assignment:" ++ String.ofList a.name)

end Observability
end DotRunner
