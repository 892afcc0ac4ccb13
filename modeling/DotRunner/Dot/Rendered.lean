import DotRunner.Dot.Comments
import DotRunner.Dot.Grammar
import DotRunner.Dot.Parameters
import DotRunner.Py.Strip

/-!
# Sources of the grammar

A body is written down with any white space between its tokens, inside one digraph.
What the parser makes of the source is what the statements of the body do.
-/

namespace DotRunner
namespace Dot

open Py

/-- White space between two tokens. -/
structure Gap where
  text : List Char
  blank : ∀ c ∈ text, Text.isSpace c = true
  nonempty : text ≠ []

/-- White space where there may be none. -/
structure Blank where
  text : List Char
  blank : ∀ c ∈ text, Text.isSpace c = true

/-- The tokens with white space behind each. -/
def spread (gap : Nat → Gap) : Nat → List String → List Char
  | _, [] => []
  | i, t :: ts => t.toList ++ ((gap i).text ++ spread gap (i + 1) ts)

/-- Where the white space of a source stands. -/
structure Layout where
  behindWord : Gap
  behindName : Blank
  ahead : Blank
  between : Nat → Gap
  behind : Blank

def Layout.body (lay : Layout) (b : Body) : List Char :=
  lay.ahead.text ++ spread lay.between 0 b.tokens

def Layout.source (lay : Layout) (name : Id) (b : Body) : List Char :=
  "digraph".toList ++ (lay.behindWord.text ++ (name.text.toList ++ (lay.behindName.text ++
    '\x7b' :: (lay.body b ++ '\x7d' :: lay.behind.text))))

/-! ## One token -/

def StartsBlank (r : List Char) : Prop := ∃ c r', r = c :: r' ∧ Text.isSpace c = true

/-- A text with no comment in it and no part of an undirected edge. -/
structure Inert (t : List Char) : Prop where
  stripped : ∀ r, stripFrom .code (t ++ r) = t ++ stripFrom .code r
  directed : ∀ prev r, ∃ prev', undirectedFrom (.code prev) (t ++ r) = undirectedFrom (.code prev') r

/-- A text that is read as one token wherever white space follows it. -/
structure IsToken (t : List Char) : Prop extends Inert t where
  scanned : ∀ r, StartsBlank r → ∃ k, k ≠ .ws ∧ scanToken (t ++ r) = some (k, t, r)

theorem inert_nil : Inert [] := ⟨fun _ => rfl, fun prev _ => ⟨prev, rfl⟩⟩

theorem Inert.append {t u : List Char} (ht : Inert t) (hu : Inert u) : Inert (t ++ u) := by
  refine ⟨fun r => ?_, fun prev r => ?_⟩
  · rw [List.append_assoc, ht.stripped, hu.stripped, List.append_assoc]
  · obtain ⟨prev', hleft⟩ := ht.directed prev (u ++ r)
    obtain ⟨prev'', hright⟩ := hu.directed prev' r
    exact ⟨prev'', by rw [List.append_assoc, hleft, hright]⟩

theorem inert_char {c : Char} (h : c ≠ '"' ∧ c ≠ '/' ∧ c ≠ '-') : Inert [c] := by
  obtain ⟨hquote, hslash, hdash⟩ := h
  refine ⟨fun r => strip_char hquote fun hopen => hslash hopen.1, fun prev r => ⟨some c, ?_⟩⟩
  rw [List.singleton_append, undirectedFrom, if_neg hquote, if_neg hdash]

theorem inert_plain {t : List Char} (h : ∀ c ∈ t, c ≠ '"' ∧ c ≠ '/' ∧ c ≠ '-') : Inert t := by
  induction t with
  | nil => exact inert_nil
  | cons c t ih =>
    exact (inert_char (h c List.mem_cons_self)).append (ih fun d hd => h d (List.mem_cons_of_mem c hd))

theorem inert_blank {t : List Char} (h : ∀ c ∈ t, Text.isSpace c = true) : Inert t := by
  refine inert_plain fun c hc => ?_
  have hspace := h c hc
  refine ⟨?_, ?_, ?_⟩ <;> rintro rfl <;> exact absurd hspace (by decide)

theorem endsWord_of_startsBlank {r : List Char} (h : StartsBlank r) : EndsWord r := by
  obtain ⟨c, r', rfl, hc⟩ := h
  refine endsWord_of_not ⟨isIdentChar_of_space hc, ?_⟩ r'
  rintro rfl
  exact absurd hc (by decide)

theorem span_append {p : Char → Bool} {w r : List Char} (hw : ∀ c ∈ w, p c = true)
    (hr : r.head?.any p = false) : (w ++ r).takeWhile p = w ∧ (w ++ r).dropWhile p = r := by
  rw [List.takeWhile_append_of_pos hw, List.dropWhile_append_of_pos hw]
  cases r with
  | nil => simp
  | cons c r =>
    have hc : p c = false := hr
    simp [hc]

/-- The qualifiers of a key are read to their end. -/
theorem scanQualifiers_key {others : List String} (h : ∀ q ∈ others, isGrammarId q = true)
    {r : List Char} (hr : EndsWord r) {fuel : Nat} (hfuel : others.length ≤ fuel) :
    scanQualifiers fuel ((others.flatMap fun q => '.' :: q.toList) ++ r) =
      (others.flatMap fun q => '.' :: q.toList, r) := by
  induction others generalizing fuel with
  | nil => exact scanQualifiers_of_endsWord hr fuel
  | cons q others ih =>
    cases fuel with
    | zero => simp at hfuel
    | succ fuel =>
      obtain ⟨c, w, hw, hc, hall⟩ : ∃ c w, q.toList = c :: w ∧ isIdentStart c = true ∧
          w.all isIdentChar = true :=
        chars_eq_cons ⟨q, [], h q List.mem_cons_self, fun _ h => by cases h⟩
      have hnext : ((others.flatMap fun q => '.' :: q.toList) ++ r).head?.any isIdentChar = false := by
        cases others with
        | nil =>
          cases r with
          | nil => rfl
          | cons d r => exact (hr d rfl).1
        | cons q' others => rfl
      obtain ⟨htake, hdrop⟩ := span_append (List.all_eq_true.mp hall) hnext
      have hline : ((q :: others).flatMap fun q => '.' :: q.toList) ++ r =
          '.' :: c :: (w ++ ((others.flatMap fun q => '.' :: q.toList) ++ r)) := by
        simp [hw]
      rw [hline, scanQualifiers_dot hc, htake, hdrop,
        ih (fun q' hq' => h q' (List.mem_cons_of_mem q hq')) (Nat.le_of_succ_le_succ hfuel)]
      simp [hw]

theorem Key.scanned (k : Key) {r : List Char} (hr : EndsWord r) :
    scanToken (k.chars ++ r) = some (.ident, k.chars, r) := by
  obtain ⟨c, w, hw, hc, hall⟩ := chars_eq_cons k
  have hnext : ((k.others.flatMap fun q => '.' :: q.toList) ++ r).head?.any isIdentChar = false := by
    cases k.others with
    | nil =>
      cases r with
      | nil => rfl
      | cons d r => exact (hr d rfl).1
    | cons q others => rfl
  obtain ⟨htake, hdrop⟩ := span_append (List.all_eq_true.mp hall) hnext
  have hlen : k.others.length ≤
      (w ++ ((k.others.flatMap fun q => '.' :: q.toList) ++ r)).length := by
    have hflat : k.others.length ≤ (k.others.flatMap fun q => '.' :: q.toList).length := by
      induction k.others with
      | nil => exact Nat.zero_le _
      | cons q others ih =>
        simp only [List.flatMap_cons, List.length_append, List.length_cons]
        omega
    simp only [List.length_append]
    omega
  have hline : k.chars ++ r = c :: (w ++ ((k.others.flatMap fun q => '.' :: q.toList) ++ r)) := by
    simp [Key.chars, hw]
  rw [hline, scanToken_ident hc]
  rw [scanIdent, if_pos hc]
  dsimp only
  rw [htake, hdrop, scanQualifiers_key k.others_grammar hr hlen]
  simp [Key.chars, hw]

theorem isIdentChar_ne {c : Char} (h : isIdentChar c = true ∨ c = '.') :
    c ≠ '"' ∧ c ≠ '/' ∧ c ≠ '-' := by
  refine ⟨?_, ?_, ?_⟩ <;> rintro rfl <;> rcases h with h | h <;> exact absurd h (by decide)

theorem Key.isToken (k : Key) : IsToken k.text.toList := by
  rw [Key.text, String.toList_ofList]
  exact ⟨inert_plain fun c hc => isIdentChar_ne (k.mem_chars hc),
    fun r hr => ⟨.ident, by decide, k.scanned (endsWord_of_startsBlank hr)⟩⟩

theorem isToken_word {id : String} (h : isGrammarId id = true) : IsToken id.toList := by
  have hkey := Key.isToken ⟨id, [], h, fun _ h => by cases h⟩
  rw [Key.text, Key.chars, String.toList_ofList] at hkey
  simpa using hkey

theorem isToken_punct {c : Char} (hc : isPunct c = true) : IsToken [c] := by
  have hne : c ≠ '"' ∧ c ≠ '/' ∧ c ≠ '-' := by
    refine ⟨?_, ?_, ?_⟩ <;> rintro rfl <;> exact absurd hc (by decide)
  exact ⟨inert_char hne, fun r _ => ⟨.punct, by decide, scanToken_punct hc r⟩⟩

theorem isToken_arrow : IsToken ['-', '>'] :=
  ⟨⟨fun _ => rfl, fun _ _ => ⟨some '>', rfl⟩⟩, fun r _ => ⟨.arrow, by decide, scanToken_arrow r⟩⟩

theorem quotedBody_escape (s : List Char) : QuotedBody (escape s) := by
  induction s with
  | nil => exact .nil
  | cons c s ih =>
    rw [escape, List.flatMap_cons]
    by_cases hc : c ∈ ['\\', '"', '\n', '\t']
    · simp only [List.mem_cons, List.not_mem_nil, or_false] at hc
      rcases hc with rfl | rfl | rfl | rfl <;> exact .escape (by decide) ih
    · rw [escapeChar_of_plain hc]
      exact .char (fun h => hc (by rw [h]; decide)) (fun h => hc (by rw [h]; decide)) ih

theorem isToken_literal (s : List Char) : IsToken (literal s) := by
  have hline : ∀ r, literal s ++ r = '"' :: (escape s ++ '"' :: r) := by
    intro r
    simp [literal]
  refine ⟨⟨fun r => ?_, fun prev r => ?_⟩, fun r _ => ⟨.string, by decide, scanToken_literal s r⟩⟩
  · rw [hline, strip_literal (quotedBody_escape s), hline]
  · refine ⟨some '"', ?_⟩
    rw [hline, undirectedFrom, if_pos rfl, undirected_quoted (quotedBody_escape s)]

section Number

variable {digits : List Char} {fraction : Option (List Char)} (nonempty : digits ≠ [])
  (decimal : ∀ c ∈ digits, c.isDigit = true) (decimals : ∀ f ∈ fraction, ∀ c ∈ f, c.isDigit = true)

include decimal decimals

theorem mem_number {c : Char} (hc : c ∈ digits ++ fraction.elim [] fun f => '.' :: f) :
    c ≠ '"' ∧ c ≠ '/' ∧ c ≠ '-' := by
  have hdigit : ∀ {c : Char}, c.isDigit = true → c ≠ '"' ∧ c ≠ '/' ∧ c ≠ '-' := by
    intro c hc
    refine ⟨?_, ?_, ?_⟩ <;> rintro rfl <;> exact absurd hc (by decide)
  rcases List.mem_append.mp hc with hc | hc
  · exact hdigit (decimal c hc)
  · cases fraction with
    | none => cases hc
    | some f =>
      rcases List.mem_cons.mp hc with rfl | hc
      · decide
      · exact hdigit (decimals f rfl c hc)

include nonempty

theorem scanUnsigned_number {r : List Char} (hr : StartsBlank r) :
    scanUnsigned ((digits ++ fraction.elim [] fun f => '.' :: f) ++ r) =
      some (digits ++ fraction.elim [] (fun f => '.' :: f), r) := by
  obtain ⟨c, r', rfl, hc⟩ := hr
  have hstop : c.isDigit = false := isDigit_of_space hc
  cases fraction with
  | none =>
    rw [Option.elim_none, List.append_nil]
    refine scanUnsigned_digits nonempty decimal hstop ?_
    rintro ⟨⟩
    exact absurd hc (by decide)
  | some f =>
    have hall : ∀ d ∈ f, d.isDigit = true := decimals f rfl
    show scanUnsigned ((digits ++ '.' :: f) ++ c :: r') = _
    rw [List.append_assoc, List.cons_append, scanUnsigned_decimal nonempty decimal,
      List.takeWhile_append_of_pos hall, List.dropWhile_append_of_pos hall]
    simp [hstop]

end Number

theorem isToken_number {digits : List Char} {fraction : Option (List Char)} (negative : Bool)
    (nonempty : digits ≠ []) (decimal : ∀ c ∈ digits, c.isDigit = true)
    (decimals : ∀ f ∈ fraction, ∀ c ∈ f, c.isDigit = true) :
    IsToken (Literal.number negative digits fraction nonempty decimal decimals).chars := by
  have hplain : ∀ c ∈ digits ++ fraction.elim [] (fun f => '.' :: f), c ≠ '"' ∧ c ≠ '/' ∧ c ≠ '-' :=
    fun c hc => mem_number decimal decimals hc
  have hread : ∀ {r}, StartsBlank r → _ := fun hr => scanUnsigned_number nonempty decimal decimals hr
  obtain ⟨d, ds, rfl⟩ := List.exists_cons_of_ne_nil nonempty
  obtain ⟨hquote, -, hdash⟩ := hplain d List.mem_cons_self
  cases negative with
  | false =>
    refine ⟨inert_plain hplain, fun r hr => ⟨.number, by decide, scanToken_number ?_⟩⟩
    exact (scanNumber_other hdash _).trans (hread hr)
  | true =>
    have hmore : Inert (ds ++ fraction.elim [] fun f => '.' :: f) :=
      inert_plain fun c hc => hplain c (List.mem_cons_of_mem d hc)
    have hsign : Inert ['-', d] := by
      refine ⟨fun r => ?_, fun prev r => ⟨some d, ?_⟩⟩
      · show stripFrom .code ('-' :: d :: r) = '-' :: d :: stripFrom .code r
        rw [strip_char (by decide) fun h => absurd h.1 (by decide),
          strip_char hquote fun h => (hplain d List.mem_cons_self).2.1 h.1]
      · show undirectedFrom (.code prev) ('-' :: d :: r) = _
        rw [undirectedFrom, if_neg (by decide), if_pos rfl, undirectedFrom, if_neg hdash,
          if_neg hquote]
    refine ⟨hsign.append hmore, fun r hr => ⟨.number, by decide, scanToken_number ?_⟩⟩
    show (scanUnsigned ((d :: ds ++ fraction.elim [] fun f => '.' :: f) ++ r)).map _ = _
    rw [hread hr]
    rfl

theorem Literal.isToken (v : Literal) : IsToken v.text.toList := by
  rw [Literal.text, String.toList_ofList]
  cases v with
  | quoted s => exact isToken_literal s
  | word k =>
    have hkey := k.isToken
    rwa [Key.text, String.toList_ofList] at hkey
  | number negative _ _ nonempty decimal decimals =>
    exact isToken_number negative nonempty decimal decimals

theorem isToken_keyword {t : String} (h : t ∈ ["subgraph", "graph", "node", "edge"]) :
    IsToken t.toList := by
  simp only [List.mem_cons, List.not_mem_nil, or_false] at h
  rcases h with rfl | rfl | rfl | rfl <;> exact isToken_word (by decide)

theorem isToken_sign {t : String}
    (h : t ∈ ["\x7b", "\x7d", "[", "]", "=", ",", ";", "->"]) : IsToken t.toList := by
  simp only [List.mem_cons, List.not_mem_nil, or_false] at h
  rcases h with rfl | rfl | rfl | rfl | rfl | rfl | rfl | rfl
  all_goals first | exact isToken_punct (by decide) | exact isToken_arrow

theorem isToken_attr {attrs : List Attr} {t : String} (ht : t ∈ closedAttrs attrs) :
    IsToken t.toList := by
  rcases List.mem_append.mp ht with ht | ht
  · rcases mem_attrTokens ht with ⟨k, rfl⟩ | rfl | ⟨v, rfl⟩ | rfl | rfl
    · exact k.isToken
    · exact isToken_sign (by decide)
    · exact v.isToken
    · exact isToken_sign (by decide)
    · exact isToken_sign (by decide)
  · rw [List.mem_singleton.mp ht]
    exact isToken_sign (by decide)

theorem isToken_block {attrs : Option (List Attr)} {t : String} (ht : t ∈ blockTokens attrs) :
    IsToken t.toList := by
  cases attrs with
  | none => cases ht
  | some attrs =>
    rcases List.mem_cons.mp ht with rfl | ht
    · exact isToken_sign (by decide)
    · exact isToken_attr ht

theorem isToken_simple (s : Simple) {t : String} (ht : t ∈ s.tokens) : IsToken t.toList := by
  have hword : ∀ {word : String} {attrs : Option (List Attr)}, IsToken word.toList →
      t ∈ word :: blockTokens attrs → IsToken t.toList := by
    intro word attrs hword ht
    rcases List.mem_cons.mp ht with rfl | ht
    · exact hword
    · exact isToken_block ht
  cases s with
  | node id attrs => exact hword (isToken_word id.grammar) ht
  | chain first second more attrs =>
    rcases List.mem_append.mp ht with ht | ht
    · rcases List.mem_cons.mp ht with rfl | ht
      · exact isToken_word first.grammar
      · obtain ⟨i, -, ht⟩ := List.mem_flatMap.mp ht
        rcases List.mem_cons.mp ht with rfl | ht
        · exact isToken_sign (by decide)
        · rw [List.mem_singleton.mp ht]
          exact isToken_word i.grammar
    · exact isToken_block ht
  | graphAttrs attrs => exact hword (isToken_keyword (by decide)) ht
  | nodeDefaults attrs => exact hword (isToken_keyword (by decide)) ht
  | edgeDefaults attrs => exact hword (isToken_keyword (by decide)) ht
  | graphAttr key value free =>
    simp only [Simple.tokens, List.mem_cons, List.not_mem_nil, or_false] at ht
    rcases ht with rfl | rfl | rfl
    · exact key.isToken
    · exact isToken_sign (by decide)
    · exact value.isToken

theorem isToken_body (b : Body) {t : String} (ht : t ∈ b.tokens) : IsToken t.toList := by
  have hsemi : ∀ {semicolon}, t ∈ semicolonTokens semicolon → IsToken t.toList := by
    intro semicolon ht
    cases semicolon with
    | false => cases ht
    | true =>
      rw [List.mem_singleton.mp ht]
      exact isToken_sign (by decide)
  induction b with
  | nil => cases ht
  | simple s semicolon rest ih =>
    simp only [Body.tokens, List.mem_append] at ht
    rcases ht with ht | ht | ht
    · exact isToken_simple s ht
    · exact hsemi ht
    · exact ih ht
  | subgraph name body semicolon rest ihbody ihrest =>
    simp only [Body.tokens, List.mem_append, List.mem_cons] at ht
    rcases ht with rfl | ht | rfl | ht | rfl | ht | ht
    · exact isToken_keyword (by decide)
    · obtain ⟨i, -, rfl⟩ := List.mem_map.mp ht
      exact isToken_word i.grammar
    · exact isToken_sign (by decide)
    · exact ihbody ht
    · exact isToken_sign (by decide)
    · exact hsemi ht
    · exact ihrest ht

/-! ## The tokens of a source -/

theorem Gap.startsBlank (g : Gap) (r : List Char) : StartsBlank (g.text ++ r) := by
  obtain ⟨c, w, hw⟩ := List.exists_cons_of_ne_nil g.nonempty
  exact ⟨c, w ++ r, by rw [hw]; rfl, g.blank c (by rw [hw]; exact List.mem_cons_self)⟩

theorem laid_blank {w r : List Char} (hw : ∀ c ∈ w, Text.isSpace c = true)
    (hr : r.head?.any Text.isSpace = false) {ts : List String} (h : Laid r ts) : Laid (w ++ r) ts := by
  cases w with
  | nil => exact h
  | cons c w =>
    refine .space (scanToken_space (hw c List.mem_cons_self) (w ++ r)) ?_
    rw [← List.cons_append, (span_append hw hr).2]
    exact h

theorem spread_starts (gap : Nat → Gap) (i : Nat) {ts : List String}
    (h : ∀ t ∈ ts, IsToken t.toList) : (spread gap i ts).head?.any Text.isSpace = false := by
  cases ts with
  | nil => rfl
  | cons t ts =>
    obtain ⟨k, hk, hscan⟩ := (h t List.mem_cons_self).scanned _ ((gap i).startsBlank
      (spread gap (i + 1) ts))
    rw [spread]
    cases ht : t.toList with
    | nil =>
      obtain ⟨-, hne⟩ := tokenRe.splits hscan
      exact absurd ht hne
    | cons c w =>
      show Text.isSpace c = false
      by_contra hspace
      rw [Bool.not_eq_false] at hspace
      rw [ht, List.cons_append, scanToken_space hspace] at hscan
      exact hk (Prod.mk.inj (Option.some.inj hscan)).1.symm

theorem laid_spread (gap : Nat → Gap) (i : Nat) {ts : List String}
    (h : ∀ t ∈ ts, IsToken t.toList) : Laid (spread gap i ts) ts := by
  induction ts generalizing i with
  | nil => exact .nil
  | cons t ts ih =>
    have hts : ∀ u ∈ ts, IsToken u.toList := fun u hu => h u (List.mem_cons_of_mem t hu)
    obtain ⟨k, hk, hscan⟩ := (h t List.mem_cons_self).scanned _ ((gap i).startsBlank
      (spread gap (i + 1) ts))
    have hrest := laid_blank (gap i).blank (spread_starts gap (i + 1) hts) (ih (i + 1) hts)
    have hlaid := Laid.token hscan hk hrest
    rwa [String.ofList_toList] at hlaid

theorem tokenize_body (lay : Layout) (b : Body) : tokenize (lay.body b) = .ok b.tokens := by
  have htokens : ∀ t ∈ b.tokens, IsToken t.toList := fun t ht => isToken_body b ht
  exact (laid_blank lay.ahead.blank (spread_starts _ _ htokens) (laid_spread _ _ htokens)).tokenize

/-! ## The source -/

theorem inert_spread (gap : Nat → Gap) (i : Nat) {ts : List String}
    (h : ∀ t ∈ ts, IsToken t.toList) : Inert (spread gap i ts) := by
  induction ts generalizing i with
  | nil => exact inert_nil
  | cons t ts ih =>
    exact (h t List.mem_cons_self).toInert.append ((inert_blank (gap i).blank).append
      (ih (i + 1) fun u hu => h u (List.mem_cons_of_mem t hu)))

theorem inert_source (lay : Layout) (name : Id) (b : Body) : Inert (lay.source name b) := by
  have hbody : Inert (lay.body b) :=
    (inert_blank lay.ahead.blank).append (inert_spread _ _ fun t ht => isToken_body b ht)
  have hbraced : Inert ('\x7b' :: (lay.body b ++ '\x7d' :: lay.behind.text)) :=
    (inert_char (by decide)).append (hbody.append
      ((inert_char (by decide)).append (inert_blank lay.behind.blank)))
  have hword : isGrammarId "digraph" = true := rfl
  exact (isToken_word hword).toInert.append ((inert_blank lay.behindWord.blank).append
    ((isToken_word name.grammar).toInert.append ((inert_blank lay.behindName.blank).append hbraced)))

/-- No comment is cut out of the source. -/
theorem stripComments_source (lay : Layout) (name : Id) (b : Body) :
    stripComments (lay.source name b) = lay.source name b := by
  have hstrip := (inert_source lay name b).stripped []
  rw [List.append_nil] at hstrip
  exact hstrip.trans (List.append_nil _)

theorem directed_source (lay : Layout) (name : Id) (b : Body) :
    hasUndirectedEdges (lay.source name b) = false := by
  obtain ⟨prev, hnone⟩ := (inert_source lay name b).directed none []
  rw [List.append_nil] at hnone
  exact hnone

section Header

variable [Runtime]

/-- What `re` says of the characters of a header. -/
structure HeaderLaws : Prop where
  word : ∀ c, isIdentChar c = true → Runtime.isWord c = true
  space : ∀ c, Text.isSpace c = true → Runtime.isWord c = false
  brace : Runtime.isWord '\x7b' = false
  folds : Runtime.foldChar 'd' = 'd'

/-- The header of the source is read as one of a named digraph. -/
theorem namedDigraph_source (laws : HeaderLaws) (lay : Layout) (name : Id) (b : Body) :
    namedDigraph (lay.source name b) = some (name.text.toList, lay.body b) := by
  obtain ⟨c, w, hw, hc, hall⟩ : ∃ c w, name.text.toList = c :: w ∧ isIdentStart c = true ∧
      w.all isIdentChar = true :=
    chars_eq_cons ⟨name.text, [], name.grammar, fun _ h => by cases h⟩
  have hstart : Text.isSpace c = false := by
    by_contra hspace
    rw [isIdentStart_of_space (Bool.not_eq_false _ ▸ hspace)] at hc
    cases hc
  have hword : ∀ d ∈ c :: w, Runtime.isWord d = true := by
    intro d hd
    refine laws.word d ?_
    rcases List.mem_cons.mp hd with rfl | hd
    · exact isIdentChar_of_isIdentStart hc
    · exact List.all_eq_true.mp hall d hd
  have hends : ∀ r, (lay.behindName.text ++ '\x7b' :: r).head?.any Runtime.isWord = false := by
    intro r
    cases ht : lay.behindName.text with
    | nil => exact laws.brace
    | cons d t =>
      exact laws.space d (lay.behindName.blank d (by rw [ht]; exact List.mem_cons_self))
  obtain ⟨e, g, hgap⟩ := List.exists_cons_of_ne_nil lay.behindWord.nonempty
  have hskip : ∀ r, skipSpaces? (lay.behindWord.text ++ c :: r) = some (c :: r) := by
    intro r
    have hrest : (c :: r).head?.any Text.isSpace = false := hstart
    rw [skipSpaces?, (span_append lay.behindWord.blank hrest).2, if_pos]
    rw [hgap]
    exact lay.behindWord.blank e (by rw [hgap]; exact List.mem_cons_self)
  have hbraced : ∀ r, bracedBody ((lay.behindName.text ++ '\x7b' :: r).dropWhile Text.isSpace) =
      bracedBody ('\x7b' :: r) := by
    intro r
    have hrest : ('\x7b' :: r).head?.any Text.isSpace = false := rfl
    rw [(span_append lay.behindName.blank hrest).2]
  have hdrop : Text.dropPrefix? "digraph".toList ((lay.source name b).dropWhile Text.isSpace) =
      some (lay.behindWord.text ++ (name.text.toList ++ (lay.behindName.text ++
        '\x7b' :: (lay.body b ++ '\x7d' :: lay.behind.text)))) :=
    Text.dropPrefix?_eq_some_iff.mpr rfl
  unfold namedDigraph
  simp only [Option.bind_eq_bind]
  rw [hdrop, Option.bind_some, hw, List.cons_append, hskip, Option.bind_some, ← List.cons_append,
    (span_append hword (hends _)).1, (span_append hword (hends _)).2, hbraced,
    bracedBody_eq_some.mpr ⟨_, lay.behind.blank, rfl⟩]
  rfl

theorem digraphOf_source (laws : HeaderLaws) (lay : Layout) (name : Id) (b : Body) :
    digraphOf (lay.source name b) =
      if 1 < countDigraphs (lay.source name b) then
        .error (.valueError ("Multiple digraph definitions found (" ++
          toString (countDigraphs (lay.source name b)) ++
          "); only a single digraph per source is supported"))
      else .ok (name.text, lay.body b) := by
  have hno : ∀ pat : String, pat.toList.head?.any (· ≠ 'd') = true →
      startsWithWord pat (Text.strip (lay.source name b)) = false := by
    intro pat hpat
    have hprefix : Text.strip (lay.source name b) <+: lay.source name b :=
      Text.strip_prefix fun c hc => by rw [← Option.some.inj hc]; rfl
    cases hl : Text.strip (lay.source name b) with
    | nil => simp [startsWithWord]
    | cons c r =>
      rw [hl] at hprefix
      obtain rfl : c = 'd' := (List.cons_prefix_cons.mp hprefix).1
      unfold startsWithWord
      cases hchars : pat.toList with
      | nil =>
        rw [hchars] at hpat
        cases hpat
      | cons p ps =>
        have hp : p ≠ 'd' := by simpa [hchars] using hpat
        simp [laws.folds, hp.symm]
  unfold digraphOf
  dsimp only
  rw [hno "strict" (by decide), hno "graph" (by decide), directed_source, namedDigraph_source laws]
  simp

/-- A source of the grammar is parsed by running its statements, in any layout. -/
theorem parseDot_source (laws : HeaderLaws) (lay : Layout) (name : Id) (b : Body)
    (params : Dict String String) : parseDot (String.ofList (lay.source name b)) params =
      if 1 < countDigraphs (lay.source name b) then
        .error (.valueError ("Multiple digraph definitions found (" ++
          toString (countDigraphs (lay.source name b)) ++
          "); only a single digraph per source is supported"))
      else ((Machine.start params).runAll b.commands).map fun m =>
        m.ctx.graph name.text (String.ofList (lay.source name b)) := by
  rw [parseDot_eq_runAll, sourceStatements, String.toList_ofList, stripComments_source,
    digraphOf_source laws]
  by_cases hmany : 1 < countDigraphs (lay.source name b)
  · rw [if_pos hmany, if_pos hmany]
    rfl
  · rw [if_neg hmany, if_neg hmany, ← statements_tokens]
    show (tokenize (lay.body b) >>= fun tokens => pure (name.text, statements tokens)) >>= _ = _
    rw [tokenize_body]
    rfl

end Header

section Demo

open Py.Ascii

theorem ascii_headerLaws : HeaderLaws :=
  ⟨fun _ h => h, fun _ h => isIdentChar_of_space h, by decide, by decide⟩

def oneSpace : Gap := ⟨[' '], List.all_eq_true.mp rfl, by decide⟩

def spacedOut : Layout where
  behindWord := oneSpace
  behindName := ⟨[' '], List.all_eq_true.mp rfl⟩
  ahead := ⟨['\n'], List.all_eq_true.mp rfl⟩
  between := fun _ => oneSpace
  behind := ⟨[], List.all_eq_true.mp rfl⟩

def plainId (text : String) (grammar : isGrammarId text = true) (free : text ∉ keywords) : Id :=
  ⟨text, grammar, free⟩

/-- An edge with a label that looks like a comment, and a subgraph with one node. -/
def demoBody : Body :=
  .simple (.chain (plainId "a" rfl (by decide)) (plainId "b" rfl (by decide)) []
    (some [⟨⟨"label", [], rfl, by decide⟩, .quoted "// \"--\"".toList, none⟩])) true
  (.subgraph none (.simple (.node (plainId "c" rfl (by decide)) none) false .nil) false .nil)

theorem parseDot_spacedOut :
    parseDot (String.ofList (spacedOut.source (plainId "g" rfl (by decide)) demoBody)) Dict.empty =
      ((Machine.start Dict.empty).runAll demoBody.commands).map fun m =>
        m.ctx.graph "g" (String.ofList (spacedOut.source (plainId "g" rfl (by decide)) demoBody)) :=
  (parseDot_source ascii_headerLaws spacedOut (plainId "g" rfl (by decide)) demoBody
    Dict.empty).trans (if_neg (by decide +kernel))

end Demo

end Dot
end DotRunner
