import DotRunner.Dot.Literals

/-!
# Statements of the grammar

The statements a body is written from, nested as subgraphs nest, with the tokens
each is written as and the command it stands for.  The parser recognises in the
tokens of a body exactly its statements.
-/

namespace DotRunner
namespace Dot

open Py

/-- A name of a node. -/
structure Id where
  text : String
  grammar : isGrammarId text = true
  free : text ∉ keywords

/-- A name, or a qualified one: the names behind the first follow a dot each. -/
structure Key where
  first : String
  others : List String
  first_grammar : isGrammarId first = true
  others_grammar : ∀ q ∈ others, isGrammarId q = true

def Key.chars (k : Key) : List Char := k.first.toList ++ k.others.flatMap fun q => '.' :: q.toList

def Key.text (k : Key) : String := String.ofList k.chars

/-- A value as it is written. -/
inductive Literal where
  | quoted (s : List Char)
  | word (k : Key)
  | number (negative : Bool) (digits : List Char) (fraction : Option (List Char))
      (nonempty : digits ≠ []) (decimal : ∀ c ∈ digits, c.isDigit = true)
      (decimals : ∀ f ∈ fraction, ∀ c ∈ f, c.isDigit = true)

def Literal.chars : Literal → List Char
  | quoted s => literal s
  | word k => k.chars
  | number negative digits fraction _ _ _ =>
    (if negative then ['-'] else []) ++ (digits ++ (fraction.elim [] fun f => '.' :: f))

def Literal.text (v : Literal) : String := String.ofList v.chars

inductive Sep where
  | comma
  | semicolon

def Sep.token : Sep → String
  | comma => ","
  | semicolon => ";"

/-- `key = value` in an attribute block. -/
structure Attr where
  key : Key
  value : Literal
  sep : Option Sep

inductive Simple where
  | node (id : Id) (attrs : Option (List Attr))
  | chain (first second : Id) (more : List Id) (attrs : Option (List Attr))
  | graphAttrs (attrs : List Attr)
  | nodeDefaults (attrs : List Attr)
  | edgeDefaults (attrs : List Attr)
  | graphAttr (key : Key) (value : Literal) (free : key.text ∉ keywords)

/-- The statements of a body, each with a semicolon or without. -/
inductive Body where
  | nil
  | simple (s : Simple) (semicolon : Bool) (rest : Body)
  | subgraph (name : Option Id) (body : Body) (semicolon : Bool) (rest : Body)

/-! ## Tokens -/

def Attr.tokens (a : Attr) : List String :=
  a.key.text :: "=" :: a.value.text :: a.sep.toList.map Sep.token

/-- The tokens of an attribute block behind its opening bracket. -/
def closedAttrs (attrs : List Attr) : List String := attrs.flatMap Attr.tokens ++ ["]"]

def blockTokens (attrs : Option (List Attr)) : List String :=
  attrs.elim [] fun attrs => "[" :: closedAttrs attrs

def Simple.tokens : Simple → List String
  | node id attrs => id.text :: blockTokens attrs
  | chain first second more attrs =>
    first.text :: ((second :: more).flatMap fun i => ["->", i.text]) ++ blockTokens attrs
  | graphAttrs attrs => "graph" :: blockTokens (some attrs)
  | nodeDefaults attrs => "node" :: blockTokens (some attrs)
  | edgeDefaults attrs => "edge" :: blockTokens (some attrs)
  | graphAttr key value _ => [key.text, "=", value.text]

def semicolonTokens (semicolon : Bool) : List String := if semicolon then [";"] else []

def Body.tokens : Body → List String
  | nil => []
  | simple s semicolon rest => s.tokens ++ (semicolonTokens semicolon ++ rest.tokens)
  | subgraph name body semicolon rest =>
    "subgraph" :: (name.toList.map Id.text ++ "\x7b" :: (body.tokens ++ "\x7d" ::
      (semicolonTokens semicolon ++ rest.tokens)))

/-! ## Commands -/

section Commands

variable [Runtime]

def record (attrs : List Attr) : Record :=
  Dict.ofList (attrs.map fun a => (a.key.text, attrValue a.key.text a.value.text))

def Simple.command : Simple → Command
  | node id attrs => .node id.text (record (attrs.getD []))
  | chain first second more attrs =>
    .chain first.text ((second :: more).map Id.text) (record (attrs.getD []))
  | graphAttrs attrs => .graphAttrs (record attrs).entries
  | nodeDefaults attrs => .nodeDefaults (record attrs)
  | edgeDefaults attrs => .edgeDefaults (record attrs)
  | graphAttr key value _ => .graphAttr key.text (parseValue value.text)

def Body.commands : Body → List Command
  | nil => []
  | simple s _ rest => s.command :: rest.commands
  | subgraph _ body _ rest => .enter :: (body.commands ++ .leave :: rest.commands)

end Commands

/-! ## Words -/

theorem chars_eq_cons (k : Key) : ∃ c w, k.first.toList = c :: w ∧ isIdentStart c = true ∧
    w.all isIdentChar = true := by
  have h := k.first_grammar
  unfold isGrammarId at h
  split at h
  · next c w hw => exact ⟨c, w, hw, Bool.and_eq_true_iff.mp h⟩
  · cases h

theorem identChar_of_grammarId {id : String} (h : isGrammarId id = true) :
    ∀ c ∈ id.toList, isIdentChar c = true := by
  intro c hc
  unfold isGrammarId at h
  split at h
  · next d w hw =>
    obtain ⟨hd, hall⟩ := Bool.and_eq_true_iff.mp h
    rw [hw] at hc
    rcases List.mem_cons.mp hc with rfl | hc
    · exact isIdentChar_of_isIdentStart hd
    · exact List.all_eq_true.mp hall c hc
  · cases h

theorem Key.mem_chars (k : Key) {c : Char} (hc : c ∈ k.chars) : isIdentChar c = true ∨ c = '.' := by
  rcases List.mem_append.mp hc with hc | hc
  · exact .inl (identChar_of_grammarId k.first_grammar c hc)
  · obtain ⟨q, hq, hc⟩ := List.mem_flatMap.mp hc
    rcases List.mem_cons.mp hc with rfl | hc
    · exact .inr rfl
    · exact .inl (identChar_of_grammarId (k.others_grammar q hq) c hc)

theorem Key.chars_cons (k : Key) : ∃ c r, k.chars = c :: r ∧ isIdentStart c = true := by
  obtain ⟨c, w, hw, hc, -⟩ := chars_eq_cons k
  exact ⟨c, w ++ _, by rw [Key.chars, hw]; rfl, hc⟩

/-- No sign and no other word that is not an identifier is a key. -/
theorem Key.text_ne (k : Key) {t : String} (h : t.toList.head?.any isIdentStart = false) :
    k.text ≠ t := by
  obtain ⟨c, r, hr, hc⟩ := k.chars_cons
  rintro rfl
  rw [Key.text, String.toList_ofList, hr] at h
  rw [show (c :: r).head?.any isIdentStart = isIdentStart c from rfl, hc] at h
  cases h

theorem Id.text_ne (i : Id) {t : String} (h : isGrammarId t = false) : i.text ≠ t :=
  ne_of_grammarId i.grammar h

theorem Key.isIdentifier (k : Key) : isIdentifier k.text = true := by
  obtain ⟨c, r, hr, hc⟩ := k.chars_cons
  have hchars : ∀ d ∈ c :: r, isIdentChar d = true ∨ d = '.' := fun d hd => k.mem_chars (hr ▸ hd)
  have hchomp : chomp (c :: r) = c :: r := by
    unfold chomp
    rw [if_neg]
    intro hlast
    rcases hchars '\n' (List.mem_of_getLast? hlast) with h | h
    · exact absurd h (by decide)
    · exact absurd h (by decide)
  unfold Dot.isIdentifier
  rw [Key.text, String.toList_ofList, hr, hchomp]
  show (isIdentStart c && r.all _) = true
  rw [hc, Bool.true_and, List.all_eq_true]
  intro d hd
  rcases hchars d (List.mem_cons_of_mem c hd) with h | h
  · rw [h, Bool.true_or]
  · rw [h]
    rfl

theorem Key.unquote (k : Key) : unquoteKey k.text = k.text := by
  obtain ⟨c, r, hr, hc⟩ := k.chars_cons
  have hquote : c ≠ '"' := isIdentStart_ne (by decide) hc
  unfold unquoteKey
  rw [Key.text, String.toList_ofList, hr]
  simp [isQuoted, hquote]

/-- A value begins like a literal, a name or a number. -/
theorem Literal.text_ne (v : Literal) {t : String} (h : t ∈ ["[", "]", "\x7b", "\x7d"]) :
    v.text ≠ t := by
  have hhead : ∀ c ∈ v.chars.head?, c = '"' ∨ c = '-' ∨ c.isDigit = true ∨ isIdentStart c = true := by
    cases v with
    | quoted s => exact fun c hc => .inl (Option.some.inj hc).symm
    | word k =>
      obtain ⟨d, r, hr, hd⟩ := k.chars_cons
      intro c hc
      rw [Literal.chars, hr] at hc
      exact .inr (.inr (.inr (Option.some.inj hc ▸ hd)))
    | number negative digits fraction nonempty decimal decimals =>
      intro c hc
      cases negative with
      | true => exact .inr (.inl (Option.some.inj hc).symm)
      | false =>
        cases digits with
        | nil => exact absurd rfl nonempty
        | cons d digits =>
          exact .inr (.inr (.inl (Option.some.inj hc ▸ decimal d List.mem_cons_self)))
  intro heq
  have hchars : v.chars = t.toList := by rw [← heq, Literal.text, String.toList_ofList]
  rw [hchars] at hhead
  simp only [List.mem_cons, List.not_mem_nil, or_false] at h
  rcases h with rfl | rfl | rfl | rfl <;> exact absurd (hhead _ rfl) (by decide)

/-! ## Attributes -/

section Recognised

theorem takeBlock_of_free {opening closing : String} {ts : List String}
    (h : ∀ t ∈ ts, t ≠ opening ∧ t ≠ closing) (depth : Nat) (rest : List String) :
    takeBlock opening closing depth (ts ++ rest) =
      (ts ++ (takeBlock opening closing depth rest).1, (takeBlock opening closing depth rest).2) := by
  induction ts with
  | nil => rfl
  | cons t ts ih =>
    obtain ⟨hopen, hclose⟩ := h t List.mem_cons_self
    rw [List.cons_append, takeBlock, if_neg fun hc => hclose hc.1, if_neg hopen, if_neg hclose]
    dsimp only
    rw [ih fun u hu => h u (List.mem_cons_of_mem t hu)]
    rfl

theorem mem_attrTokens {attrs : List Attr} {t : String} (ht : t ∈ attrs.flatMap Attr.tokens) :
    (∃ k : Key, t = k.text) ∨ t = "=" ∨ (∃ v : Literal, t = v.text) ∨ t = "," ∨ t = ";" := by
  obtain ⟨a, -, ht⟩ := List.mem_flatMap.mp ht
  rcases List.mem_cons.mp ht with rfl | ht
  · exact .inl ⟨a.key, rfl⟩
  rcases List.mem_cons.mp ht with rfl | ht
  · exact .inr (.inl rfl)
  rcases List.mem_cons.mp ht with rfl | ht
  · exact .inr (.inr (.inl ⟨a.value, rfl⟩))
  obtain ⟨sep, -, rfl⟩ := List.mem_map.mp ht
  cases sep with
  | comma => exact .inr (.inr (.inr (.inl rfl)))
  | semicolon => exact .inr (.inr (.inr (.inr rfl)))

theorem attrTokens_ne {attrs : List Attr} {t u : String} (ht : t ∈ attrs.flatMap Attr.tokens)
    (hu : u ∈ ["[", "]", "\x7b", "\x7d"]) : t ≠ u := by
  have hsign : u.toList.head?.any isIdentStart = false ∧ "=" ≠ u ∧ "," ≠ u ∧ ";" ≠ u := by
    simp only [List.mem_cons, List.not_mem_nil, or_false] at hu
    rcases hu with rfl | rfl | rfl | rfl <;> decide
  obtain ⟨hkey, hequals, hcomma, hsemi⟩ := hsign
  rcases mem_attrTokens ht with ⟨k, rfl⟩ | rfl | ⟨v, rfl⟩ | rfl | rfl
  · exact k.text_ne hkey
  · exact hequals
  · exact v.text_ne hu
  · exact hcomma
  · exact hsemi

variable [Runtime]

theorem assignments_closedAttrs (attrs : List Attr) : assignments (closedAttrs attrs) =
    attrs.map fun a => (a.key.text, attrValue a.key.text a.value.text) := by
  induction attrs with
  | nil => rfl
  | cons a attrs ih =>
    have hkey : a.key.text ≠ "," ∧ a.key.text ≠ ";" :=
      ⟨a.key.text_ne (by decide), a.key.text_ne (by decide)⟩
    have hline : closedAttrs (a :: attrs) = a.key.text :: "=" :: a.value.text ::
        (a.sep.toList.map Sep.token ++ closedAttrs attrs) := by
      simp [closedAttrs, Attr.tokens]
    have hsep : assignments (a.sep.toList.map Sep.token ++ closedAttrs attrs) =
        assignments (closedAttrs attrs) := by
      cases hs : a.sep with
      | none => rfl
      | some sep =>
        have htoken : sep.token = "," ∨ sep.token = ";" := by cases sep <;> simp [Sep.token]
        cases attrs with
        | nil => rfl
        | cons b attrs =>
          have hlater : closedAttrs (b :: attrs) = b.key.text :: "=" :: b.value.text ::
              (b.sep.toList.map Sep.token ++ closedAttrs attrs) := by
            simp [closedAttrs, Attr.tokens]
          rw [hlater]
          show assignments (sep.token :: b.key.text :: "=" :: _) = _
          rw [assignments, if_pos htoken]
    rw [hline, assignments, if_neg (not_or.mpr hkey), if_pos rfl, hsep, ih, a.key.unquote]
    rfl

theorem attrBlock_closedAttrs (attrs : List Attr) (rest : List String) :
    attrBlock (closedAttrs attrs ++ rest) = (record attrs, rest) := by
  have htake : takeBlock "[" "]" 1 (closedAttrs attrs ++ rest) = (closedAttrs attrs, rest) := by
    rw [closedAttrs, List.append_assoc, takeBlock_of_free (fun t ht =>
      ⟨attrTokens_ne ht (by decide), attrTokens_ne ht (by decide)⟩)]
    simp [takeBlock]
  unfold attrBlock
  rw [htake, record, ← assignments_closedAttrs]

/-- What follows a statement: no sign that would make it a longer one. -/
def Follows (rest : List String) : Prop :=
  ∀ t, rest.head? = some t → t ≠ "[" ∧ t ≠ "->" ∧ t ≠ "="

omit [Runtime] in
theorem Follows.startsWith {rest : List String} (h : Follows rest) {t : String}
    (ht : t = "[" ∨ t = "->" ∨ t = "=") : startsWith t rest = false := by
  cases rest with
  | nil => rfl
  | cons u rest =>
    obtain ⟨hopen, harrow, hequals⟩ := h u rfl
    rw [Dot.startsWith]
    refine beq_false_of_ne fun heq => ?_
    obtain rfl := Option.some.inj heq
    rcases ht with rfl | rfl | rfl
    · exact hopen rfl
    · exact harrow rfl
    · exact hequals rfl

theorem optionalBlock_blockTokens (attrs : Option (List Attr)) {rest : List String}
    (h : Follows rest) : optionalBlock (blockTokens attrs ++ rest) = (record (attrs.getD []), rest) := by
  cases attrs with
  | some attrs =>
    show optionalBlock ("[" :: (closedAttrs attrs ++ rest)) = _
    rw [optionalBlock, if_pos rfl, attrBlock_closedAttrs]
    rfl
  | none =>
    show optionalBlock rest = _
    cases rest with
    | nil => rfl
    | cons t rest =>
      rw [optionalBlock, if_neg (h t rfl).1]
      rfl

omit [Runtime] in
theorem takeChain_arrows (ids : List Id) {rest : List String} (h : startsWith "->" rest = false) :
    takeChain ((ids.flatMap fun i => ["->", i.text]) ++ rest) = (ids.map Id.text, rest) := by
  induction ids with
  | nil =>
    show takeChain rest = ([], rest)
    cases rest with
    | nil => rfl
    | cons t rest =>
      cases rest with
      | nil => rfl
      | cons u rest =>
        have ht : t ≠ "->" := by
          rintro rfl
          cases h
        rw [takeChain, if_neg ht]
  | cons i ids ih =>
    show takeChain ("->" :: i.text :: ((ids.flatMap fun i => ["->", i.text]) ++ rest)) = _
    rw [takeChain, if_pos rfl, ih]
    rfl

/-! ## Statements -/

/-- One statement of a token list and what is left for the others. -/
theorem statements_eq (cs : List Command) {t : String} {ts rest : List String}
    (h : ∀ fuel, commands (fuel + 1) (t :: ts) = cs ++ commands fuel rest)
    (hlen : rest.length ≤ ts.length) : statements (t :: ts) = cs ++ statements rest := by
  rw [statements, List.length_cons, h, commands_eq_statements (Nat.lt_succ_of_le hlen)]

theorem statements_semicolon (semicolon : Bool) (rest : List String) :
    statements (semicolonTokens semicolon ++ rest) = statements rest := by
  cases semicolon with
  | false => rfl
  | true => exact statements_eq [] (fun fuel => by rw [commands, if_pos rfl]; rfl) le_rfl

section Identifier

variable {t : String} (hident : isIdentifier t = true) (hsemi : t ≠ ";") (hword : t ∉ keywords)

include hident hsemi hword

theorem commands_chain {ts : List String} (h : startsWith "->" ts = true) (fuel : Nat) :
    commands (fuel + 1) (t :: ts) =
      .chain t (takeChain ts).1 (optionalBlock (takeChain ts).2).1 ::
        commands fuel (optionalBlock (takeChain ts).2).2 := by
  simp only [keywords, List.mem_cons, List.not_mem_nil, or_false, not_or] at hword
  obtain ⟨hsub, hgraph, hnode, hedge⟩ := hword
  rw [commands, if_neg hsemi, if_neg hsub, if_neg fun h => hgraph h.1, if_neg fun h => hnode h.1,
    if_neg fun h => hedge h.1, if_pos hident, if_pos h]

theorem commands_assign (raw : String) (rest : List String) (fuel : Nat) :
    commands (fuel + 1) (t :: "=" :: raw :: rest) =
      .graphAttr t (parseValue raw) :: commands fuel rest := by
  simp only [keywords, List.mem_cons, List.not_mem_nil, or_false, not_or] at hword
  obtain ⟨hsub, hgraph, hnode, hedge⟩ := hword
  rw [commands, if_neg hsemi, if_neg hsub, if_neg fun h => hgraph h.1, if_neg fun h => hnode h.1,
    if_neg fun h => hedge h.1, if_pos hident]
  rfl

theorem commands_node {ts : List String} (harrow : startsWith "->" ts = false)
    (hequals : startsWith "=" ts = false) (fuel : Nat) : commands (fuel + 1) (t :: ts) =
      .node t (optionalBlock ts).1 :: commands fuel (optionalBlock ts).2 := by
  simp only [keywords, List.mem_cons, List.not_mem_nil, or_false, not_or] at hword
  obtain ⟨hsub, hgraph, hnode, hedge⟩ := hword
  rw [commands, if_neg hsemi, if_neg hsub, if_neg fun h => hgraph h.1, if_neg fun h => hnode h.1,
    if_neg fun h => hedge h.1, if_pos hident, harrow, hequals, if_neg Bool.false_ne_true,
    if_neg Bool.false_ne_true]

end Identifier

omit [Runtime] in
theorem not_startsWith_block {attrs : Option (List Attr)} {rest : List String} (h : Follows rest)
    {t : String} (ht : t = "->" ∨ t = "=") : startsWith t (blockTokens attrs ++ rest) = false := by
  cases attrs with
  | none => exact h.startsWith (.inr ht)
  | some attrs => rcases ht with rfl | rfl <;> rfl

omit [Runtime] in
theorem length_blockTokens (attrs : Option (List Attr)) (rest : List String) :
    rest.length ≤ (blockTokens attrs ++ rest).length := by
  rw [List.length_append]
  exact Nat.le_add_left _ _

/-- A statement in front of others is recognised. -/
theorem statements_simple (s : Simple) {rest : List String} (h : Follows rest) :
    statements (s.tokens ++ rest) = s.command :: statements rest := by
  cases s with
  | node id attrs =>
    have hid : isIdentifier id.text = true := isIdentifier_of_grammarId id.grammar
    refine statements_eq [_] (fun fuel => ?_) (length_blockTokens attrs rest)
    show commands (fuel + 1) (id.text :: (blockTokens attrs ++ rest)) = _
    rw [commands_node hid (id.text_ne (by decide)) id.free (not_startsWith_block h (.inl rfl))
      (not_startsWith_block h (.inr rfl)), optionalBlock_blockTokens attrs h]
    rfl
  | chain first second more attrs =>
    have hid : isIdentifier first.text = true := isIdentifier_of_grammarId first.grammar
    have hline : (Simple.chain first second more attrs).tokens ++ rest = first.text ::
        (((second :: more).flatMap fun i => ["->", i.text]) ++ (blockTokens attrs ++ rest)) := by
      rw [Simple.tokens, List.cons_append, List.cons_append, List.append_assoc]
    rw [hline]
    refine statements_eq [_] (fun fuel => ?_) ?_
    · rw [commands_chain hid (first.text_ne (by decide)) first.free rfl,
        takeChain_arrows _ (not_startsWith_block h (.inl rfl)), optionalBlock_blockTokens attrs h]
      rfl
    · rw [List.length_append]
      exact (length_blockTokens attrs rest).trans (Nat.le_add_left _ _)
  | graphAttrs attrs =>
    refine statements_eq [_] (fun fuel => ?_) (length_blockTokens (some attrs) rest)
    show commands (fuel + 1) ("graph" :: "[" :: (closedAttrs attrs ++ rest)) = _
    rw [commands, if_neg (by decide), if_neg (by decide), if_pos ⟨rfl, rfl⟩, List.tail_cons,
      attrBlock_closedAttrs]
    rfl
  | nodeDefaults attrs =>
    refine statements_eq [_] (fun fuel => ?_) (length_blockTokens (some attrs) rest)
    show commands (fuel + 1) ("node" :: "[" :: (closedAttrs attrs ++ rest)) = _
    rw [commands, if_neg (by decide), if_neg (by decide), if_neg fun h => absurd h.1 (by decide),
      if_pos ⟨rfl, rfl⟩, List.tail_cons, attrBlock_closedAttrs]
    rfl
  | edgeDefaults attrs =>
    refine statements_eq [_] (fun fuel => ?_) (length_blockTokens (some attrs) rest)
    show commands (fuel + 1) ("edge" :: "[" :: (closedAttrs attrs ++ rest)) = _
    rw [commands, if_neg (by decide), if_neg (by decide), if_neg fun h => absurd h.1 (by decide),
      if_neg fun h => absurd h.1 (by decide), if_pos ⟨rfl, rfl⟩, List.tail_cons,
      attrBlock_closedAttrs]
    rfl
  | graphAttr key value free =>
    refine statements_eq [_] (fun fuel => ?_) (by simp; omega)
    exact commands_assign key.isIdentifier (key.text_ne (by decide)) free value.text rest fuel

omit [Runtime] in
theorem follows_cons {t : String} (h : t ≠ "[" ∧ t ≠ "->" ∧ t ≠ "=") (ts : List String) :
    Follows (t :: ts) := by
  intro u hu
  rwa [← Option.some.inj hu]

omit [Runtime] in
theorem follows_simple (s : Simple) (rest : List String) : Follows (s.tokens ++ rest) := by
  have hid : ∀ i : Id, i.text ≠ "[" ∧ i.text ≠ "->" ∧ i.text ≠ "=" := fun i =>
    ⟨i.text_ne (by decide), i.text_ne (by decide), i.text_ne (by decide)⟩
  cases s with
  | node id => exact follows_cons (hid id) _
  | chain first => exact follows_cons (hid first) _
  | graphAttrs => exact follows_cons (by decide) _
  | nodeDefaults => exact follows_cons (by decide) _
  | edgeDefaults => exact follows_cons (by decide) _
  | graphAttr key =>
    exact follows_cons ⟨key.text_ne (by decide), key.text_ne (by decide), key.text_ne (by decide)⟩ _

omit [Runtime] in
theorem follows_semicolon (semicolon : Bool) {rest : List String} (h : Follows rest) :
    Follows (semicolonTokens semicolon ++ rest) := by
  cases semicolon with
  | false => exact h
  | true => exact follows_cons (by decide) _

omit [Runtime] in
theorem follows_tokens (b : Body) : Follows b.tokens := by
  cases b with
  | nil => exact fun t h => by cases h
  | simple s semicolon rest => exact follows_simple s _
  | subgraph => exact follows_cons (by decide) _

omit [Runtime] in
/-- No statement but a subgraph writes a brace. -/
theorem simple_tokens_ne (s : Simple) {t : String} (ht : t ∈ s.tokens) :
    t ≠ "\x7b" ∧ t ≠ "\x7d" := by
  have hblock : ∀ {attrs : Option (List Attr)}, t ∈ blockTokens attrs → t ≠ "\x7b" ∧ t ≠ "\x7d" := by
    intro attrs ht
    cases attrs with
    | none => cases ht
    | some attrs =>
      rcases List.mem_cons.mp ht with rfl | ht
      · decide
      rcases List.mem_append.mp ht with ht | ht
      · exact ⟨attrTokens_ne ht (by decide), attrTokens_ne ht (by decide)⟩
      · rw [List.mem_singleton.mp ht]
        decide
  have hid : ∀ i : Id, i.text ≠ "\x7b" ∧ i.text ≠ "\x7d" := fun i =>
    ⟨i.text_ne (by decide), i.text_ne (by decide)⟩
  have hword : ∀ {word : String} {attrs : List Attr}, word ≠ "\x7b" ∧ word ≠ "\x7d" →
      t ∈ word :: blockTokens (some attrs) → t ≠ "\x7b" ∧ t ≠ "\x7d" := by
    intro word attrs hword ht
    rcases List.mem_cons.mp ht with rfl | ht
    · exact hword
    · exact hblock ht
  cases s with
  | node id attrs =>
    rcases List.mem_cons.mp ht with rfl | ht
    · exact hid id
    · exact hblock ht
  | chain first second more attrs =>
    rcases List.mem_append.mp ht with ht | ht
    · rcases List.mem_cons.mp ht with rfl | ht
      · exact hid first
      · obtain ⟨i, -, ht⟩ := List.mem_flatMap.mp ht
        rcases List.mem_cons.mp ht with rfl | ht
        · decide
        · rw [List.mem_singleton.mp ht]
          exact hid i
    · exact hblock ht
  | graphAttrs attrs => exact hword (by decide) ht
  | nodeDefaults attrs => exact hword (by decide) ht
  | edgeDefaults attrs => exact hword (by decide) ht
  | graphAttr key value free =>
    simp only [Simple.tokens, List.mem_cons, List.not_mem_nil, or_false] at ht
    rcases ht with rfl | rfl | rfl
    · exact ⟨key.text_ne (by decide), key.text_ne (by decide)⟩
    · decide
    · exact ⟨value.text_ne (by decide), value.text_ne (by decide)⟩

omit [Runtime] in
theorem semicolonTokens_ne {semicolon : Bool} {t : String} (ht : t ∈ semicolonTokens semicolon) :
    t ≠ "\x7b" ∧ t ≠ "\x7d" := by
  cases semicolon with
  | false => cases ht
  | true =>
    rw [List.mem_singleton.mp ht]
    decide

omit [Runtime] in
/-- The tokens of a body stand inside any braces they are put in. -/
theorem takeBlock_tokens (b : Body) (depth : Nat) (rest : List String) :
    takeBlock "\x7b" "\x7d" (depth + 1) (b.tokens ++ rest) =
      (b.tokens ++ (takeBlock "\x7b" "\x7d" (depth + 1) rest).1,
        (takeBlock "\x7b" "\x7d" (depth + 1) rest).2) := by
  induction b generalizing depth rest with
  | nil => rfl
  | simple s semicolon later ih =>
    rw [Body.tokens, List.append_assoc, List.append_assoc,
      takeBlock_of_free fun t ht => simple_tokens_ne s ht,
      takeBlock_of_free fun t ht => semicolonTokens_ne ht, ih]
    simp only [List.append_assoc]
  | subgraph name body semicolon later ihbody ihlater =>
    have hname : ∀ t ∈ "subgraph" :: name.toList.map Id.text, t ≠ "\x7b" ∧ t ≠ "\x7d" := by
      intro t ht
      rcases List.mem_cons.mp ht with rfl | ht
      · decide
      · obtain ⟨i, -, rfl⟩ := List.mem_map.mp ht
        exact ⟨i.text_ne (by decide), i.text_ne (by decide)⟩
    have hline : (Body.subgraph name body semicolon later).tokens ++ rest =
        ("subgraph" :: name.toList.map Id.text) ++ ("\x7b" :: (body.tokens ++ ("\x7d" ::
          (semicolonTokens semicolon ++ (later.tokens ++ rest))))) := by
      simp [Body.tokens]
    have hopen : ∀ ts, takeBlock "\x7b" "\x7d" (depth + 1) ("\x7b" :: ts) =
        ("\x7b" :: (takeBlock "\x7b" "\x7d" (depth + 2) ts).1,
          (takeBlock "\x7b" "\x7d" (depth + 2) ts).2) := by
      intro ts
      rw [takeBlock, if_neg (by simp), if_pos rfl]
    have hclose : ∀ ts, takeBlock "\x7b" "\x7d" (depth + 2) ("\x7d" :: ts) =
        ("\x7d" :: (takeBlock "\x7b" "\x7d" (depth + 1) ts).1,
          (takeBlock "\x7b" "\x7d" (depth + 1) ts).2) := by
      intro ts
      rw [takeBlock, if_neg (by simp), if_neg (by decide), if_pos rfl]
      rfl
    rw [hline, takeBlock_of_free hname, hopen, ihbody, hclose,
      takeBlock_of_free fun t ht => semicolonTokens_ne ht, ihlater]
    simp [Body.tokens]

omit [Runtime] in
theorem skipName_name (name : Option Id) (rest : List String) :
    skipName (name.toList.map Id.text ++ "\x7b" :: rest) = "\x7b" :: rest := by
  cases name with
  | none => rfl
  | some i =>
    show skipName (i.text :: "\x7b" :: rest) = _
    rw [skipName, if_pos (isIdentifier_of_grammarId i.grammar)]

/-- A subgraph in front of other statements is recognised. -/
theorem statements_subgraph (name : Option Id) (body : Body) (rest : List String) :
    statements ("subgraph" :: (name.toList.map Id.text ++ "\x7b" :: (body.tokens ++ "\x7d" :: rest))) =
      .enter :: (statements body.tokens ++ .leave :: statements rest) := by
  have hclose : takeBlock "\x7b" "\x7d" 1 ("\x7d" :: rest) = (["\x7d"], rest) := by
    rw [takeBlock, if_pos ⟨rfl, rfl⟩]
  have hblock : takeBlock "\x7b" "\x7d" 1 (body.tokens ++ "\x7d" :: rest) =
      (body.tokens ++ ["\x7d"], rest) := by
    rw [takeBlock_tokens body 0, hclose]
  rw [statements, List.length_cons, commands, if_neg (by decide), if_pos rfl, skipName_name]
  dsimp only
  rw [if_pos rfl, hblock, List.dropLast_concat, commands_eq_statements, commands_eq_statements]
  · simp only [List.length_append, List.length_cons]
    omega
  · simp only [List.length_append, List.length_cons]
    omega

/-- The parser recognises the statements of a body in its tokens. -/
theorem statements_tokens (b : Body) : statements b.tokens = b.commands := by
  induction b with
  | nil => rfl
  | simple s semicolon rest ih =>
    rw [Body.tokens, statements_simple s (follows_semicolon semicolon (follows_tokens rest)),
      statements_semicolon, ih]
    rfl
  | subgraph name body semicolon rest ihbody ihrest =>
    rw [Body.tokens, statements_subgraph, statements_semicolon, ihbody, ihrest]
    rfl

end Recognised

end Dot
end DotRunner
