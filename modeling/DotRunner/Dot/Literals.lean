import DotRunner.Dot.Layout
import DotRunner.Dot.Attributes
import Mathlib.Data.List.Infix

/-!
# Quoted literals

What a text comes back as when it is written as a quoted literal, with the escapes
of the grammar, and read again.
-/

namespace DotRunner
namespace Dot

open Py

/-- The escapes of a quoted literal. -/
def escapeChar (c : Char) : List Char :=
  if c = '\\' then ['\\', '\\']
  else if c = '"' then ['\\', '"']
  else if c = '\n' then ['\\', 'n']
  else if c = '\t' then ['\\', 't']
  else [c]

def escape (s : List Char) : List Char := s.flatMap escapeChar

def literal (s : List Char) : List Char := '"' :: (escape s ++ ['"'])

/-! ## Replacing a pair -/

section Pair

variable {a b : Char} {sub : List Char}

theorem replacePair_cons_of_ne {c : Char} (h : c ≠ a) (l : List Char) :
    replacePair a b sub (c :: l) = c :: replacePair a b sub l := by
  cases l with
  | nil => rfl
  | cons d r => rw [replacePair, if_neg fun hp => h hp.1]

theorem replacePair_cons_cons_of_ne {d : Char} (h : d ≠ b) (c : Char) (l : List Char) :
    replacePair a b sub (c :: d :: l) = c :: replacePair a b sub (d :: l) := by
  rw [replacePair, if_neg fun hp => h hp.2]

theorem replacePair_pair (l : List Char) :
    replacePair a b sub (a :: b :: l) = sub ++ replacePair a b sub l := by
  rw [replacePair, if_pos ⟨rfl, rfl⟩]

theorem replacePair_cons_of_head {l : List Char} (h : l.head? ≠ some b) (c : Char) :
    replacePair a b sub (c :: l) = c :: replacePair a b sub l := by
  cases l with
  | nil => rfl
  | cons d r => exact replacePair_cons_cons_of_ne (fun hd => h (by rw [hd]; rfl)) c r

/-- The pair occurs in `l`. -/
def HasPair (a b : Char) (l : List Char) : Prop := [a, b] <:+: l

theorem hasPair_cons {c : Char} {l : List Char} (h : HasPair a b l) : HasPair a b (c :: l) :=
  List.infix_cons h

theorem length_replacePair (x : Char) (l : List Char) :
    (replacePair a b [x] l).length ≤ l.length ∧
      (HasPair a b l → (replacePair a b [x] l).length < l.length) := by
  fun_induction replacePair a b [x] l with
  | case1 => exact ⟨Nat.le_refl _, fun h => absurd (List.infix_nil.mp h) (by simp)⟩
  | case2 c =>
    refine ⟨Nat.le_refl _, fun h => ?_⟩
    have hlen := h.length_le
    simp at hlen
  | case3 c d r hp ih =>
    simp only [List.length_append, List.length_cons, List.length_nil]
    exact ⟨by omega, fun _ => by omega⟩
  | case4 c d r hp ih =>
    simp only [List.length_cons]
    refine ⟨by simp only [List.length_cons] at ih; omega, fun h => ?_⟩
    rcases List.infix_cons_iff.mp h with hpre | hin
    · rw [List.cons_prefix_cons, List.cons_prefix_cons] at hpre
      exact absurd ⟨hpre.1.symm, hpre.2.1.symm⟩ hp
    · have hlt := ih.2 hin
      simp only [List.length_cons] at hlt
      omega

theorem replacePair_of_not_hasPair {l : List Char} (h : ¬ HasPair a b l) :
    replacePair a b sub l = l := by
  fun_induction replacePair a b sub l with
  | case1 => rfl
  | case2 => rfl
  | case3 c d r hp ih =>
    obtain ⟨rfl, rfl⟩ := hp
    exact absurd ⟨[], r, rfl⟩ h
  | case4 c d r hp ih => rw [ih fun hin => h (hasPair_cons hin)]

end Pair

/-! ## Reading the escapes -/

/-- What is left of a character once the doubled backslashes are read. -/
def escapeQuoteChar (c : Char) : List Char := if c = '\\' then ['\\'] else escapeChar c

/-- What is left of a character once the escaped quotes are read too. -/
def escapeBlankChar (c : Char) : List Char := if c = '"' then ['"'] else escapeQuoteChar c

def escapeTabChar (c : Char) : List Char := if c = '\t' then ['\\', 't'] else [c]

theorem escapeChar_of_plain {c : Char} (h : c ∉ ['\\', '"', '\n', '\t']) : escapeChar c = [c] := by
  simp only [List.mem_cons, List.not_mem_nil, or_false, not_or] at h
  unfold escapeChar
  rw [if_neg h.1, if_neg h.2.1, if_neg h.2.2.1, if_neg h.2.2.2]

theorem escapeQuoteChar_of_plain {c : Char} (h : c ∉ ['\\', '"', '\n', '\t']) :
    escapeQuoteChar c = [c] := by
  unfold escapeQuoteChar
  rw [escapeChar_of_plain h, ite_eq_right_iff]
  rintro rfl
  rfl

theorem escapeBlankChar_of_plain {c : Char} (h : c ∉ ['\\', '"', '\n', '\t']) :
    escapeBlankChar c = [c] := by
  unfold escapeBlankChar
  rw [escapeQuoteChar_of_plain h, ite_eq_right_iff]
  rintro rfl
  rfl

/-- No text starts with a quote that is still escaped. -/
theorem head_flatMap_escapeQuote (s : List Char) :
    (s.flatMap escapeQuoteChar).head? ≠ some '"' := by
  cases s with
  | nil => simp
  | cons c s =>
    by_cases hc : c ∈ ['\\', '"', '\n', '\t']
    · simp only [List.mem_cons, List.not_mem_nil, or_false] at hc
      rcases hc with rfl | rfl | rfl | rfl <;> simp [escapeQuoteChar, escapeChar]
    · rw [List.flatMap_cons, escapeQuoteChar_of_plain hc]
      rintro h
      obtain rfl := Option.some.inj h
      exact hc (by decide)

theorem replace_backslashes (s : List Char) :
    replacePair '\\' '\\' ['\\'] (escape s) = s.flatMap escapeQuoteChar := by
  induction s with
  | nil => rfl
  | cons c s ih =>
    rw [escape, List.flatMap_cons, List.flatMap_cons, ← ih]
    by_cases hc : c ∈ ['\\', '"', '\n', '\t']
    · simp only [List.mem_cons, List.not_mem_nil, or_false] at hc
      rcases hc with rfl | rfl | rfl | rfl
      · exact replacePair_pair _
      · exact (replacePair_cons_cons_of_ne (by decide) _ _).trans
          (congrArg _ (replacePair_cons_of_ne (by decide) _))
      · exact (replacePair_cons_cons_of_ne (by decide) _ _).trans
          (congrArg _ (replacePair_cons_of_ne (by decide) _))
      · exact (replacePair_cons_cons_of_ne (by decide) _ _).trans
          (congrArg _ (replacePair_cons_of_ne (by decide) _))
    · rw [escapeChar_of_plain hc, escapeQuoteChar_of_plain hc]
      exact replacePair_cons_of_ne (fun h => hc (by rw [h]; decide)) _

theorem replace_quotes (s : List Char) :
    replacePair '\\' '"' ['"'] (s.flatMap escapeQuoteChar) = s.flatMap escapeBlankChar := by
  induction s with
  | nil => rfl
  | cons c s ih =>
    rw [List.flatMap_cons, List.flatMap_cons, ← ih]
    by_cases hc : c ∈ ['\\', '"', '\n', '\t']
    · simp only [List.mem_cons, List.not_mem_nil, or_false] at hc
      rcases hc with rfl | rfl | rfl | rfl
      · exact replacePair_cons_of_head (head_flatMap_escapeQuote s) _
      · exact replacePair_pair _
      · exact (replacePair_cons_cons_of_ne (by decide) _ _).trans
          (congrArg _ (replacePair_cons_of_ne (by decide) _))
      · exact (replacePair_cons_cons_of_ne (by decide) _ _).trans
          (congrArg _ (replacePair_cons_of_ne (by decide) _))
    · rw [escapeQuoteChar_of_plain hc, escapeBlankChar_of_plain hc]
      exact replacePair_cons_of_ne (fun h => hc (by rw [h]; decide)) _

theorem head_escapeBlankChar {c d : Char} (l : List Char) (h : (escapeBlankChar c ++ l).head? = some d) :
    d = c ∨ d = '\\' := by
  by_cases hc : c ∈ ['\\', '"', '\n', '\t']
  · simp only [List.mem_cons, List.not_mem_nil, or_false] at hc
    rcases hc with rfl | rfl | rfl | rfl
    · exact .inl (Option.some.inj h).symm
    · exact .inl (Option.some.inj h).symm
    · exact .inr (Option.some.inj h).symm
    · exact .inr (Option.some.inj h).symm
  · rw [escapeBlankChar_of_plain hc] at h
    exact .inl (Option.some.inj h).symm

/-- A backslash and an `n` that the text itself has are read as a line feed too. -/
theorem replace_lineFeeds (s : List Char) :
    replacePair '\\' 'n' ['\n'] (s.flatMap escapeBlankChar) =
      (replacePair '\\' 'n' ['\n'] s).flatMap escapeTabChar := by
  fun_induction replacePair '\\' 'n' ['\n'] s with
  | case1 => rfl
  | case2 c =>
    by_cases hc : c ∈ ['\\', '"', '\n', '\t']
    · simp only [List.mem_cons, List.not_mem_nil, or_false] at hc
      rcases hc with rfl | rfl | rfl | rfl <;> rfl
    · rw [List.flatMap_cons, escapeBlankChar_of_plain hc]
      have htab : c ≠ '\t' := fun h => hc (by rw [h]; decide)
      simp [escapeTabChar, htab, replacePair]
  | case3 c d r hp ih =>
    obtain ⟨rfl, rfl⟩ := hp
    rw [List.flatMap_append, ← ih]
    exact replacePair_pair _
  | case4 c d r hp ih =>
    show replacePair _ _ _ (escapeBlankChar c ++ (d :: r).flatMap escapeBlankChar) =
      escapeTabChar c ++ (replacePair '\\' 'n' ['\n'] (d :: r)).flatMap escapeTabChar
    rw [← ih]
    by_cases hc : c ∈ ['\\', '"', '\n', '\t']
    · simp only [List.mem_cons, List.not_mem_nil, or_false] at hc
      rcases hc with rfl | rfl | rfl | rfl
      · refine replacePair_cons_of_head (fun h => ?_) _
        rw [List.flatMap_cons] at h
        rcases head_escapeBlankChar _ h with hd | hd
        · exact hp ⟨rfl, hd.symm⟩
        · exact absurd hd (by decide)
      · exact replacePair_cons_of_ne (by decide) _
      · exact replacePair_pair _
      · exact (replacePair_cons_cons_of_ne (by decide) _ _).trans
          (congrArg _ (replacePair_cons_of_ne (by decide) _))
    · have htab : c ≠ '\t' := fun h => hc (by rw [h]; decide)
      rw [escapeBlankChar_of_plain hc, escapeTabChar, if_neg htab]
      exact replacePair_cons_of_ne (fun h => hc (by rw [h]; decide)) _

/-- So are a backslash and a `t`, as a tab. -/
theorem replace_tabs (s : List Char) :
    replacePair '\\' 't' ['\t'] (s.flatMap escapeTabChar) = replacePair '\\' 't' ['\t'] s := by
  fun_induction replacePair '\\' 't' ['\t'] s with
  | case1 => rfl
  | case2 c =>
    by_cases htab : c = '\t'
    · subst htab
      rfl
    · simp [escapeTabChar, htab, replacePair]
  | case3 c d r hp ih =>
    obtain ⟨rfl, rfl⟩ := hp
    rw [← ih]
    exact replacePair_pair _
  | case4 c d r hp ih =>
    rw [List.flatMap_cons, ← ih, escapeTabChar]
    by_cases htab : c = '\t'
    · rw [if_pos htab, htab]
      exact replacePair_pair _
    · rw [if_neg htab]
      by_cases hc : c = '\\'
      · refine replacePair_cons_of_head (fun h => ?_) _
        rw [List.flatMap_cons, escapeTabChar] at h
        by_cases hd : d = '\t'
        · rw [if_pos hd] at h
          exact absurd (show '\\' = 't' from Option.some.inj h) (by decide)
        · rw [if_neg hd] at h
          exact hp ⟨hc, Option.some.inj h⟩
      · exact replacePair_cons_of_ne hc _

/-- What a text comes back as: its own pairs of a backslash with `n` or `t` are
read as escapes. -/
theorem unescape_escape (s : List Char) :
    unescape (escape s) = replacePair '\\' 't' ['\t'] (replacePair '\\' 'n' ['\n'] s) := by
  rw [unescape, replace_backslashes, replace_quotes, replace_lineFeeds, replace_tabs]

/-- A text is its own decoding exactly if it holds neither pair. -/
theorem unescape_escape_eq_iff (s : List Char) :
    unescape (escape s) = s ↔ ¬ HasPair '\\' 'n' s ∧ ¬ HasPair '\\' 't' s := by
  rw [unescape_escape]
  constructor
  · intro h
    have houter := length_replacePair (a := '\\') (b := 't') '\t' (replacePair '\\' 'n' ['\n'] s)
    have hinner := length_replacePair (a := '\\') (b := 'n') '\n' s
    rw [h] at houter
    have hn : ¬ HasPair '\\' 'n' s := fun hp => by
      have hlt := hinner.2 hp
      omega
    refine ⟨hn, fun hp => ?_⟩
    rw [replacePair_of_not_hasPair hn] at houter
    exact absurd (houter.2 hp) (Nat.lt_irrefl _)
  · rintro ⟨hn, ht⟩
    rw [replacePair_of_not_hasPair hn, replacePair_of_not_hasPair ht]

/-! ## The statement as tokens -/

/-- `id [key="..."]`, with the literal of `s`. -/
def literalStmt (id key : String) (s : List Char) : List Char :=
  id.toList ++ ' ' :: '[' :: (key.toList ++ '=' :: (literal s ++ [']']))

theorem scanQuoted_escape (s r : List Char) :
    scanQuoted (escape s ++ '"' :: r) = some (escape s ++ ['"'], r) := by
  induction s with
  | nil =>
    show scanQuoted ('"' :: r) = _
    rw [scanQuoted.eq_def]
    rfl
  | cons c s ih =>
    rw [escape, List.flatMap_cons, List.append_assoc, List.append_assoc]
    by_cases hc : c ∈ ['\\', '"', '\n', '\t']
    · simp only [List.mem_cons, List.not_mem_nil, or_false] at hc
      rcases hc with rfl | rfl | rfl | rfl
      all_goals
        show Option.map _ (scanQuoted (escape s ++ '"' :: r)) = _
        rw [ih]
        rfl
    · rw [escapeChar_of_plain hc]
      have hquote : c ≠ '"' := fun h => hc (by rw [h]; decide)
      have hslash : c ≠ '\\' := fun h => hc (by rw [h]; decide)
      show scanQuoted (c :: (escape s ++ '"' :: r)) = _
      rw [scanQuoted.eq_def]
      dsimp only
      rw [if_neg hquote, if_neg hslash, ih]
      rfl

theorem scanToken_literal (s r : List Char) :
    scanToken (literal s ++ r) = some (.string, literal s, r) := by
  have h := scanToken_string (scanQuoted_escape s r)
  rw [literal, List.cons_append, List.append_assoc]
  exact h

theorem endsWord_of_not {c : Char} (h : isIdentChar c = false ∧ c ≠ '.') (r : List Char) :
    EndsWord (c :: r) := by
  intro d hd
  obtain rfl := Option.some.inj hd
  exact h

theorem laid_word {id : String} (hid : isGrammarId id = true) {r : List Char} (hr : EndsWord r)
    {ts : List String} (h : Laid r ts) : Laid (id.toList ++ r) (id :: ts) := by
  unfold isGrammarId at hid
  split at hid
  · rename_i c w hw
    rw [Bool.and_eq_true] at hid
    have htok := Laid.token (scanToken_word hid.1 hid.2 hr) (by decide) h
    rw [← hw, String.ofList_toList] at htok
    exact htok
  · cases hid

theorem laid_punct {c : Char} (hc : isPunct c = true) {r : List Char} {ts : List String}
    (h : Laid r ts) : Laid (c :: r) (String.ofList [c] :: ts) :=
  .token (scanToken_punct hc r) (by decide) h

theorem laid_literalStmt {id key : String} (hid : isGrammarId id = true)
    (hkey : isGrammarId key = true) (s : List Char) :
    Laid (literalStmt id key s) [id, "[", key, "=", String.ofList (literal s), "]"] := by
  refine laid_word hid (endsWord_of_not (by decide) _) ?_
  refine .space (t := [' ']) (r := '[' :: (key.toList ++ '=' :: (literal s ++ [']']))) rfl ?_
  refine laid_punct (by decide) (laid_word hkey (endsWord_of_not (by decide) _) ?_)
  refine laid_punct (by decide) (.token (scanToken_literal s [']']) (by decide) ?_)
  exact laid_punct (by decide) .nil

/-! ## The statement as a command -/

/-- The words that open a statement of their own. -/
def keywords : List String := ["subgraph", "graph", "node", "edge"]

theorem ne_of_grammarId {id t : String} (hid : isGrammarId id = true) (ht : isGrammarId t = false) :
    id ≠ t := by
  rintro rfl
  rw [hid] at ht
  cases ht

theorem isIdentChar_of_isIdentStart {c : Char} (h : isIdentStart c = true) : isIdentChar c = true := by
  rw [isIdentStart, Bool.or_eq_true] at h
  rw [isIdentChar, Bool.or_eq_true, Char.isAlphanum, Bool.or_eq_true]
  exact h.imp .inl id

theorem isIdentifier_of_grammarId {id : String} (h : isGrammarId id = true) :
    isIdentifier id = true := by
  unfold isGrammarId at h
  split at h
  · rename_i c w hw
    rw [Bool.and_eq_true] at h
    obtain ⟨hc, hall⟩ := h
    have hchars : ∀ d ∈ c :: w, isIdentChar d = true := by
      intro d hd
      rcases List.mem_cons.mp hd with rfl | hd
      · exact isIdentChar_of_isIdentStart hc
      · exact List.all_eq_true.mp hall d hd
    have hchomp : chomp (c :: w) = c :: w := by
      unfold chomp
      rw [if_neg]
      intro hlast
      have hfeed := hchars '\n' (List.mem_of_getLast? hlast)
      exact absurd hfeed (by decide)
    unfold isIdentifier
    rw [hw, hchomp]
    dsimp only
    rw [hc, Bool.true_and, List.all_eq_true]
    intro d hd
    rw [hchars d (List.mem_cons_of_mem _ hd), Bool.true_or]
  · cases h

theorem unquoteKey_of_grammarId {key : String} (h : isGrammarId key = true) : unquoteKey key = key := by
  unfold isGrammarId at h
  unfold unquoteKey
  split at h
  · rename_i c w hw
    rw [Bool.and_eq_true] at h
    have hquote : c ≠ '"' := isIdentStart_ne (by decide) h.1
    rw [hw]
    simp [isQuoted, hquote]
  · cases h

section ReadBack

variable [Runtime]

theorem attrBlock_single {key raw : String} (hkey : isGrammarId key = true)
    (hraw : raw ≠ "[" ∧ raw ≠ "]") :
    attrBlock [key, "=", raw, "]"] = (Dict.ofList [(key, attrValue key raw)], []) := by
  have hopen : key ≠ "[" := ne_of_grammarId hkey (by decide)
  have hclose : key ≠ "]" := ne_of_grammarId hkey (by decide)
  have hcomma : key ≠ "," := ne_of_grammarId hkey (by decide)
  have hsemi : key ≠ ";" := ne_of_grammarId hkey (by decide)
  have htake : takeBlock "[" "]" 1 [key, "=", raw, "]"] = ([key, "=", raw, "]"], []) := by
    simp [takeBlock, hopen, hclose, hraw.1, hraw.2]
  unfold attrBlock
  rw [htake]
  simp [assignments, hcomma, hsemi, unquoteKey_of_grammarId hkey]

theorem parseTokenList_node {id : String} (hid : isGrammarId id = true) (hword : id ∉ keywords)
    (fuel : Nat) (ts : List String) (ctx : ParseContext) :
    parseTokenList (fuel + 1) (id :: "[" :: ts) ctx =
      parseTokenList fuel (attrBlock ts).2 (ctx.applyNode id (attrBlock ts).1) := by
  simp only [keywords, List.mem_cons, List.not_mem_nil, or_false, not_or] at hword
  obtain ⟨hsub, hgraph, hnode, hedge⟩ := hword
  have hsemi : id ≠ ";" := ne_of_grammarId hid (by decide)
  rw [parseTokenList, if_neg hsemi, if_neg hsub, if_neg fun h => hgraph h.1,
    if_neg fun h => hnode h.1, if_neg fun h => hedge h.1, if_pos (isIdentifier_of_grammarId hid)]
  rfl

theorem parseValue_literal (s : List Char) : parseValue (String.ofList (literal s)) =
    match tryParseDuration (unescape (escape s)) with
    | some ms => .int ms
    | none => .str (String.ofList (unescape (escape s))) := by
  have hlast : (literal s).getLast? = some '"' := by
    rw [literal, ← List.cons_append, List.getLast?_concat]
  have hquoted : isQuoted (literal s) = true := by
    rw [isQuoted, hlast]
    rfl
  have hinner : innerText (literal s) = escape s := by
    unfold innerText literal
    rw [List.tail_cons, List.dropLast_concat]
  unfold parseValue
  rw [String.toList_ofList, if_pos hquoted]
  exact congrArg (fun body => match tryParseDuration (unescape body) with
    | some ms => Value.int ms
    | none => .str (String.ofList (unescape body))) hinner

/-- What is stored for the literal of `s`. -/
theorem parseBody_literalStmt {id key : String} (hid : isGrammarId id = true) (hword : id ∉ keywords)
    (hkey : isGrammarId key = true) (htimeout : key ≠ "timeout") (s : List Char)
    (ctx : ParseContext) : parseBody (literalStmt id key s) ctx =
      .ok (ctx.applyNode id (Dict.ofList [(key, parseValue (String.ofList (literal s)))])) := by
  have hraw : ∀ t : String, t.toList.head? ≠ some '"' → String.ofList (literal s) ≠ t := by
    rintro t ht rfl
    rw [String.toList_ofList] at ht
    exact ht rfl
  have hvalue : attrValue key (String.ofList (literal s)) =
      parseValue (String.ofList (literal s)) := by
    rw [attrValue, if_neg htimeout]
  unfold parseBody
  rw [(laid_literalStmt hid hkey s).tokenize]
  show parseTokenList 7 _ ctx = _
  rw [parseTokenList_node hid hword, attrBlock_single hkey ⟨hraw _ (by decide), hraw _ (by decide)⟩,
    hvalue]
  rfl

/-- The attribute after the statement: an empty label or prompt is not written. -/
theorem attr?_single (ctx : ParseContext) (id : String) {key : String}
    (hkey : key ∈ ["label", "prompt", "tool_command"]) (v : Value) :
    (ctx.applyNode id (Dict.ofList [(key, v)])).attr? id key =
      if key ≠ "tool_command" ∧ v.toStr = "" then ctx.attr? id key else some (shown key v) := by
  have hget : (ctx.nodeDefaults.update (Dict.ofList [(key, v)])).get? key = some v := by
    rw [Dict.get?_update]
    show ((Dict.empty.set key v).get? key).or _ = _
    rw [Dict.get?_set_self]
    rfl
  rw [attr?_applyNode]
  by_cases htool : key = "tool_command"
  · subst htool
    rw [if_neg fun h => h.1 rfl, written_attr (by decide), hget]
    rfl
  · have hfield : key = "label" ∨ key = "type" ∨ key = "prompt" := by
      simp only [List.mem_cons, List.not_mem_nil, or_false] at hkey
      rcases hkey with rfl | rfl | rfl
      · exact .inl rfl
      · exact .inr (.inr rfl)
      · exact absurd rfl htool
    by_cases hv : v.toStr = ""
    · rw [if_pos ⟨htool, hv⟩, written_of_blank hget (by rw [isBlank, if_pos hfield, hv]; rfl)]
      rfl
    · rw [if_neg fun h => hv h.2,
        written_of_some hget (by rw [isBlank, if_pos hfield]; simpa using hv)]
      rfl

/-! ## Texts that look like durations -/

/-- A duration ends in a unit. -/
theorem unit_of_duration {l : List Char} {ms : Int} (h : tryParseDuration l = some ms) :
    ∃ c ∈ l, c.isDigit = false ∧ c ≠ '-' := by
  unfold tryParseDuration at h
  dsimp only at h
  split at h
  · cases h
  · obtain ⟨factor, hlookup, -⟩ := Option.map_eq_some_iff.mp h
    have hunit : ∀ c ∈ ((signed l).2.dropWhile Text.isDecimal), c ∈ l := by
      intro c hc
      have hmem := (List.dropWhile_sublist _).mem hc
      unfold signed at hmem
      split at hmem
      · exact List.mem_cons_of_mem _ hmem
      · exact hmem
    have hchomp : ∀ c ∈ chomp ((signed l).2.dropWhile Text.isDecimal),
        c ∈ ((signed l).2.dropWhile Text.isDecimal) := by
      intro c hc
      unfold chomp at hc
      split at hc
      · exact List.dropLast_subset _ hc
      · exact hc
    generalize hu : chomp ((signed l).2.dropWhile Text.isDecimal) = u at hlookup hchomp
    have hlist : u ∈ [['m', 's'], ['s'], ['m'], ['h'], ['d']] := by
      obtain ⟨before, after, hsplit, -⟩ := List.lookup_eq_some_iff.mp hlookup
      have hmem : (String.ofList u, factor) ∈ durationUnits := by
        rw [hsplit]
        exact List.mem_append_right _ List.mem_cons_self
      have hname := List.mem_map_of_mem (f := Prod.fst) hmem
      have htoList := List.mem_map_of_mem (f := String.toList) hname
      rw [String.toList_ofList] at htoList
      exact htoList
    have hfirst : ∃ c ∈ u, c.isDigit = false ∧ c ≠ '-' := by
      simp only [List.mem_cons, List.not_mem_nil, or_false] at hlist
      rcases hlist with rfl | rfl | rfl | rfl | rfl <;>
        exact ⟨_, List.mem_cons_self, by decide, by decide⟩
    obtain ⟨c, hc, hplain⟩ := hfirst
    exact ⟨c, hunit c (hchomp c hc), hplain⟩

/-! ## The round trip -/

omit [Runtime] in
theorem unescape_escape_eq_nil (s : List Char) : unescape (escape s) = [] ↔ s = [] := by
  have hnil : ∀ (b x : Char) (l : List Char), replacePair '\\' b [x] l = [] ↔ l = [] := by
    intro b x l
    unfold replacePair
    split
    · simp
    · simp
    · split <;> simp
  rw [unescape_escape, hnil, hnil]

omit [Runtime] in
theorem text_of_int_ne (i : Int) : toString i ≠ "" := by
  intro h
  have hlen := congrArg (fun t => t.toList.length) h
  cases i with
  | ofNat n =>
    have hpos := Nat.length_toDigits_pos (b := 10) (n := n)
    simp only [show toString (Int.ofNat n) = Nat.repr n from rfl, Nat.repr,
      String.toList_ofList] at hlen
    rw [hlen] at hpos
    exact absurd hpos (by decide)
  | negSucc n =>
    simp only [show toString (Int.negSucc n) = "-" ++ Nat.repr (n + 1) from rfl,
      String.toList_append, List.length_append] at hlen
    exact absurd hlen (by simp)

/-- The number a duration is read as is not the text it was written for. -/
theorem shown_int_ne {s : String} {ms : Int}
    (hdur : tryParseDuration (unescape (escape s.toList)) = some ms) (key : String) :
    shown key (.int ms) ≠ .str s := by
  intro h
  have hs : toString ms = s := by
    unfold shown at h
    split at h
    · exact Value.str.inj h
    · cases h
  have hchars : ∀ c ∈ s.toList, c.isDigit = true ∨ c = '-' := by
    rw [← hs]
    exact Text.digits_of_int ms
  have hplain : ∀ b, ¬ HasPair '\\' b s.toList := by
    intro b hp
    have hmem : '\\' ∈ s.toList := hp.subset List.mem_cons_self
    rcases hchars _ hmem with h | h <;> exact absurd h (by decide)
  rw [(unescape_escape_eq_iff _).mpr ⟨hplain 'n', hplain 't'⟩] at hdur
  obtain ⟨c, hc, hdigit, hdash⟩ := unit_of_duration hdur
  rcases hchars c hc with h | h
  · rw [h] at hdigit
    cases hdigit
  · exact absurd h hdash

/-- A label, a prompt or a command written as the literal of `s` is `s` again exactly
if `s` has no backslash in front of an `n` or a `t`, spells no duration and, where it
is empty, is not left out. -/
theorem literal_roundtrip {id key : String} (hid : isGrammarId id = true) (hword : id ∉ keywords)
    (hkey : key ∈ ["label", "prompt", "tool_command"]) (s : String) (ctx : ParseContext) :
    ∃ ctx', parseBody (literalStmt id key s.toList) ctx = .ok ctx' ∧ ctx'.hasNode id = true ∧
      (ctx'.attr? id key = some (.str s) ↔
        ¬ HasPair '\\' 'n' s.toList ∧ ¬ HasPair '\\' 't' s.toList ∧
        tryParseDuration s.toList = none ∧
        (s = "" → key = "tool_command" ∨ ctx.attr? id key = some (.str ""))) := by
  have hgrammar : isGrammarId key = true ∧ key ≠ "timeout" := by
    simp only [List.mem_cons, List.not_mem_nil, or_false] at hkey
    rcases hkey with rfl | rfl | rfl <;> decide
  refine ⟨_, parseBody_literalStmt hid hword hgrammar.1 hgrammar.2 s.toList ctx, ?_, ?_⟩
  · rw [hasNode_iff, keys_applyNode]
    exact .inl rfl
  rw [attr?_single ctx id hkey, parseValue_literal]
  have hempty : s.toList = [] ↔ s = "" := String.toList_eq_nil_iff
  cases hdur : tryParseDuration (unescape (escape s.toList)) with
  | some ms =>
    dsimp only
    rw [if_neg fun h => text_of_int_ne ms h.2]
    constructor
    · intro h
      exact absurd (Option.some.inj h) (shown_int_ne hdur key)
    · rintro ⟨hn, ht, hnone, -⟩
      rw [(unescape_escape_eq_iff _).mpr ⟨hn, ht⟩, hnone] at hdur
      cases hdur
  | none =>
    dsimp only
    have htext : (Value.str (String.ofList (unescape (escape s.toList)))).toStr =
        String.ofList (unescape (escape s.toList)) := rfl
    have hshown : shown key (.str (String.ofList (unescape (escape s.toList)))) =
        .str (String.ofList (unescape (escape s.toList))) := by
      unfold shown
      rw [htext, ite_self]
    rw [htext, hshown]
    by_cases hs : s = ""
    · subst hs
      have hread : String.ofList (unescape (escape "".toList)) = "" := rfl
      have hpairs : ∀ b, ¬ HasPair '\\' b "".toList := fun b hp =>
        absurd (List.infix_nil.mp hp) (by simp)
      rw [hread]
      by_cases htool : key = "tool_command"
      · rw [if_neg fun h => h.1 htool]
        exact ⟨fun _ => ⟨hpairs 'n', hpairs 't', hdur, fun _ => .inl htool⟩, fun _ => rfl⟩
      · rw [if_pos ⟨htool, rfl⟩]
        exact ⟨fun h => ⟨hpairs 'n', hpairs 't', hdur, fun _ => .inr h⟩,
          fun h => (h.2.2.2 rfl).resolve_left htool⟩
    · have hread : String.ofList (unescape (escape s.toList)) ≠ "" := by
        intro h
        have hnil := congrArg String.toList h
        rw [String.toList_ofList] at hnil
        exact hs (hempty.mp ((unescape_escape_eq_nil _).mp hnil))
      rw [if_neg fun h => hread h.2]
      have hiff : String.ofList (unescape (escape s.toList)) = s ↔
          unescape (escape s.toList) = s.toList := by
        rw [← String.toList_inj, String.toList_ofList]
      constructor
      · intro h
        have heq := hiff.mp (Value.str.inj (Option.some.inj h))
        obtain ⟨hn, ht⟩ := (unescape_escape_eq_iff _).mp heq
        rw [heq] at hdur
        exact ⟨hn, ht, hdur, fun h => absurd h hs⟩
      · rintro ⟨hn, ht, -, -⟩
        rw [hiff.mpr ((unescape_escape_eq_iff _).mpr ⟨hn, ht⟩)]

end ReadBack

section Demo

open Py.Ascii

theorem literal_roundtrip_quotes :
    ∃ ctx', parseBody (literalStmt "a" "prompt" "say \"hi\" \\o/\n".toList) {} = .ok ctx' ∧
      ctx'.hasNode "a" = true ∧
      (ctx'.attr? "a" "prompt" = some (.str "say \"hi\" \\o/\n") ↔
        ¬ HasPair '\\' 'n' "say \"hi\" \\o/\n".toList ∧
        ¬ HasPair '\\' 't' "say \"hi\" \\o/\n".toList ∧
        tryParseDuration "say \"hi\" \\o/\n".toList = none ∧
        ("say \"hi\" \\o/\n" = "" → "prompt" = "tool_command" ∨
          ParseContext.attr? {} "a" "prompt" = some (.str ""))) :=
  literal_roundtrip (by decide) (by decide) (by decide) _ _

/-- `C:\new` comes back with a line feed in it. -/
theorem backslash_decoded_twice :
    ¬ ∀ (id key s : String), isGrammarId id = true → id ∉ keywords →
      key ∈ ["label", "prompt", "tool_command"] →
      ∃ ctx', parseBody (literalStmt id key s.toList) {} = .ok ctx' ∧
        ctx'.attr? id key = some (.str s) := by
  intro h
  obtain ⟨ctx', hparse, hvalue⟩ := h "a" "label" "C:\\new" (by decide) (by decide) (by decide)
  have hread : ((parseBody (literalStmt "a" "label" "C:\\new".toList) {}).toOption.bind
      fun ctx => (ctx.attr? "a" "label").map Value.toStr) = some "C:\new" := by decide +kernel
  rw [hparse] at hread
  have hstr : (ctx'.attr? "a" "label").map Value.toStr = some "C:\new" := hread
  rw [hvalue] at hstr
  exact absurd hstr (by decide)

end Demo

end Dot
end DotRunner
