import DotRunner.Dot.Attributes
import DotRunner.Dot.QuotedTokens
import DotRunner.Py.Pointwise

/-!
# Statements that differ in quoted values

Tokens that differ in quoted attribute values alone are recognised as the same
statements, with the same names and keys.
-/

namespace DotRunner
namespace Dot

open Py

/-- The tokens differ only behind `=`, and where no `=` follows: in attribute values. -/
def DifferInValues (ts ts' : List String) : Prop :=
  ∀ (i : Nat) (t t' : String), ts[i]? = some t → ts'[i]? = some t' → t ≠ t' →
    (∃ j, i = j + 1 ∧ ts[j]? = some "=") ∧ ts[i + 1]? ≠ some "="

/-- Two lists of tokens that differ in values, from a place on: `b` says whether the
token before is `=`. -/
inductive ValuesAlike : Bool → List String → List String → Prop
  | nil {b : Bool} : ValuesAlike b [] []
  | same {b : Bool} {t : String} {ts ts' : List String} (h : ValuesAlike (t == "=") ts ts') :
      ValuesAlike b (t :: ts) (t :: ts')
  | value {t t' : String} {ts ts' : List String} (ht : IsLiteral t.toList) (ht' : IsLiteral t'.toList)
      (hnext : ts.head? ≠ some "=") (h : ValuesAlike false ts ts') :
      ValuesAlike true (t :: ts) (t' :: ts')

theorem ne_of_isLiteral {t u : String} (ht : IsLiteral t.toList) (hu : u.toList.head? ≠ some '"') :
    t ≠ u := by
  rintro rfl
  obtain ⟨q, -, hq⟩ := ht
  rw [hq] at hu
  exact hu rfl

/-- Tokens that are alike and differ only in values. -/
theorem valuesAlike_of_differ {ts ts' : List String} (h : List.Forall₂ TokenAlike ts ts') (b : Bool)
    (hd : ∀ (i : Nat) (t t' : String), ts[i]? = some t → ts'[i]? = some t' → t ≠ t' →
      (i = 0 ∧ b = true ∨ ∃ j, i = j + 1 ∧ ts[j]? = some "=") ∧ ts[i + 1]? ≠ some "=") :
    ValuesAlike b ts ts' := by
  induction h generalizing b with
  | nil => exact .nil
  | @cons t t' ts ts' ht _ ih =>
    have htail : ∀ b', (t = "=" → b' = true) → ValuesAlike b' ts ts' := by
      intro b' hb'
      refine ih b' fun i u u' hu hu' hne => ?_
      obtain ⟨hprev, hnext⟩ := hd (i + 1) u u' hu hu' hne
      refine ⟨?_, hnext⟩
      rcases hprev with ⟨hzero, -⟩ | ⟨j, hj, heq⟩
      · exact absurd hzero (Nat.succ_ne_zero i)
      · obtain rfl : i = j := Nat.succ.inj hj
        cases i with
        | zero => exact .inl ⟨rfl, hb' (Option.some.inj heq)⟩
        | succ i => exact .inr ⟨i, rfl, heq⟩
    by_cases hsame : t' = t
    · subst hsame
      exact .same (htail _ fun h => by rw [h]; rfl)
    · obtain ⟨hlit, hlit'⟩ := ht.resolve_left hsame
      obtain ⟨hprev, hnext⟩ := hd 0 t t' rfl rfl (Ne.symm hsame)
      have hb : b = true := by
        rcases hprev with ⟨-, hb⟩ | ⟨j, hj, -⟩
        · exact hb
        · cases hj
      subst hb
      have hhead : ts.head? ≠ some "=" := by
        rw [List.head?_eq_getElem?]
        exact hnext
      exact .value hlit hlit' hhead
        (htail false fun h => absurd h (ne_of_isLiteral hlit (by decide)))

theorem DifferInValues.alike {ts ts' : List String} (hd : DifferInValues ts ts')
    (h : List.Forall₂ TokenAlike ts ts') : ValuesAlike true ts ts' := by
  refine valuesAlike_of_differ h true fun i t t' ht ht' hne => ?_
  obtain ⟨hprev, hnext⟩ := hd i t t' ht ht' hne
  exact ⟨.inr hprev, hnext⟩

namespace ValuesAlike

variable {b : Bool} {ts ts' : List String}

theorem weaken (h : ValuesAlike b ts ts') : ValuesAlike true ts ts' := by
  cases h with
  | nil => exact .nil
  | same h => exact .same h
  | value ht ht' hnext h => exact .value ht ht' hnext h

theorem length (h : ValuesAlike b ts ts') : ts'.length = ts.length := by
  induction h with
  | nil => rfl
  | same _ ih => rw [List.length_cons, List.length_cons, ih]
  | value _ _ _ _ ih => rw [List.length_cons, List.length_cons, ih]

/-- A token that is no literal is the same in both. -/
theorem head (h : ValuesAlike b ts ts') {u : String} (hu : u.toList.head? ≠ some '"') :
    startsWith u ts' = startsWith u ts := by
  cases h with
  | nil => rfl
  | same => rfl
  | value ht ht' =>
    have hne := ne_of_isLiteral ht hu
    have hne' := ne_of_isLiteral ht' hu
    simp [startsWith, hne, hne']

theorem tail (h : ValuesAlike b ts ts') : ValuesAlike true ts.tail ts'.tail := by
  cases h with
  | nil => exact .nil
  | same h => exact h.weaken
  | value _ _ _ h => exact h.weaken

/-- Where the first token is no literal, it is the same and so is what follows. -/
theorem of_cons {t : String} (ht : ¬ IsLiteral t.toList) (h : ValuesAlike b (t :: ts) ts') :
    ∃ ts₁, ts' = t :: ts₁ ∧ ValuesAlike (t == "=") ts ts₁ := by
  cases h with
  | same h => exact ⟨_, rfl, h⟩
  | value hlit => exact absurd hlit ht

theorem of_cons_false {t : String} (h : ValuesAlike false (t :: ts) ts') :
    ∃ ts₁, ts' = t :: ts₁ ∧ ValuesAlike (t == "=") ts ts₁ := by
  cases h with
  | same h => exact ⟨_, rfl, h⟩

end ValuesAlike

/-! ## Blocks and chains -/

theorem head_takeBlock (opening closing : String) (depth : Nat) (ts : List String) :
    (takeBlock opening closing depth ts).1.head? = ts.head? := by
  cases ts with
  | nil => rfl
  | cons t ts =>
    unfold takeBlock
    split <;> rfl

theorem takeBlock_alike (opening closing : String) (ho : opening.toList.head? ≠ some '"')
    (hc : closing.toList.head? ≠ some '"') {b : Bool} {ts ts' : List String}
    (h : ValuesAlike b ts ts') (depth : Nat) :
    ValuesAlike b (takeBlock opening closing depth ts).1 (takeBlock opening closing depth ts').1 ∧
      ValuesAlike true (takeBlock opening closing depth ts).2 (takeBlock opening closing depth ts').2 := by
  induction h generalizing depth with
  | nil => exact ⟨.nil, .nil⟩
  | @same b t ts ts' h ih =>
    unfold takeBlock
    by_cases hclose : t = closing ∧ depth = 1
    · rw [if_pos hclose, if_pos hclose]
      exact ⟨.same .nil, h.weaken⟩
    · rw [if_neg hclose, if_neg hclose]
      exact ⟨.same (ih _).1, (ih _).2⟩
  | @value t t' ts ts' ht ht' hnext _ ih =>
    have hstep : ∀ {t : String} (ts : List String), IsLiteral t.toList →
        takeBlock opening closing depth (t :: ts) =
          (t :: (takeBlock opening closing depth ts).1, (takeBlock opening closing depth ts).2) := by
      intro t ts ht
      have hno := ne_of_isLiteral ht ho
      have hnc := ne_of_isLiteral ht hc
      rw [takeBlock, if_neg fun h => hnc h.1]
      dsimp only
      rw [if_neg hno, if_neg hnc]
    rw [hstep ts ht, hstep ts' ht']
    refine ⟨.value ht ht' ?_ (ih depth).1, (ih depth).2⟩
    rw [head_takeBlock]
    exact hnext

theorem dropLast_alike {b : Bool} {ts ts' : List String} (h : ValuesAlike b ts ts') :
    ValuesAlike b ts.dropLast ts'.dropLast := by
  induction h with
  | nil => exact .nil
  | @same b t ts ts' h ih =>
    have hlen := h.length
    cases ts with
    | nil =>
      obtain rfl := List.length_eq_zero_iff.mp hlen
      exact .nil
    | cons v ts =>
      cases ts' with
      | nil => cases hlen
      | cons v' ts' => exact .same ih
  | @value t t' ts ts' ht ht' hnext h ih =>
    have hlen := h.length
    cases ts with
    | nil =>
      obtain rfl := List.length_eq_zero_iff.mp hlen
      exact .nil
    | cons v ts =>
      cases ts' with
      | nil => cases hlen
      | cons v' ts' =>
        refine .value ht ht' ?_ ih
        cases ts with
        | nil => simp
        | cons w ts => exact hnext

theorem not_isLiteral {u : String} (hu : u.toList.head? ≠ some '"') : ¬ IsLiteral u.toList :=
  fun hlit => ne_of_isLiteral hlit hu rfl

theorem takeChain_alike {b : Bool} {ts ts' : List String} (h : ValuesAlike b ts ts') :
    (takeChain ts').1 = (takeChain ts).1 ∧ ValuesAlike true (takeChain ts).2 (takeChain ts').2 := by
  fun_induction takeChain ts generalizing b ts' with
  | case1 t ts more =>
    rename_i ih
    obtain ⟨ts₁, rfl, h₁⟩ := h.of_cons (not_isLiteral (by decide))
    obtain ⟨ts₂, rfl, h₂⟩ := h₁.of_cons_false
    obtain ⟨hnames, hrest⟩ := ih h₂
    rw [takeChain, if_pos rfl]
    exact ⟨congrArg (t :: ·) hnames, hrest⟩
  | case2 a t ts ha =>
    have hhead := h.head (u := "->") (by decide)
    have hlen := h.length
    cases ts' with
    | nil => cases hlen
    | cons a' ts' =>
      cases ts' with
      | nil => cases hlen
      | cons t' ts' =>
        have ha' : a' ≠ "->" := by
          rintro rfl
          have hstarts : startsWith "->" (a :: t :: ts) = true := hhead.symm.trans rfl
          exact ha (by simpa [startsWith] using hstarts)
        rw [takeChain, if_neg ha']
        exact ⟨rfl, h.weaken⟩
  | case3 ts hts =>
    have hlen := h.length
    cases ts with
    | nil =>
      obtain rfl := List.length_eq_zero_iff.mp hlen
      exact ⟨rfl, .nil⟩
    | cons a ts =>
      cases ts with
      | nil =>
        cases ts' with
        | nil => cases hlen
        | cons a' ts' =>
          obtain rfl := List.length_eq_zero_iff.mp (Nat.succ.inj hlen)
          exact ⟨rfl, h.weaken⟩
      | cons t ts => exact absurd rfl (hts a t ts)

/-- The same keys in the same order. -/
abbrev KeysAlike (l l' : List (String × Value)) : Prop :=
  List.Forall₂ (Dict.EntryRel fun _ _ => True) l l'

/-- Records with the same keys. -/
abbrev RecordAlike (d d' : Record) : Prop := Dict.Pointwise (fun _ _ => True) d d'

section Blocks

variable [Runtime]

theorem assignments_alike {b : Bool} {ts ts' : List String} (h : ValuesAlike b ts ts') :
    KeysAlike (assignments ts) (assignments ts') := by
  have hlen := h.length
  fun_induction assignments ts generalizing b ts' with
  | case1 =>
    obtain rfl := List.length_eq_zero_iff.mp hlen
    exact .nil
  | case2 t =>
    obtain ⟨t', rfl⟩ := List.length_eq_one_iff.mp hlen
    exact .nil
  | case3 t u =>
    obtain ⟨t', u', rfl⟩ := List.length_eq_two.mp hlen
    exact .nil
  | case4 t u raw ts hsep =>
    rename_i ih
    have hlit : ¬ IsLiteral t.toList := by
      rcases hsep with rfl | rfl
      · exact not_isLiteral (by decide)
      · exact not_isLiteral (by decide)
    obtain ⟨ts₁, rfl, h₁⟩ := h.of_cons hlit
    obtain ⟨u', raw', ts₂, rfl⟩ : ∃ u' raw' ts₂, ts₁ = u' :: raw' :: ts₂ := by
      match ts₁, h₁.length with
      | u' :: raw' :: ts₂, _ => exact ⟨u', raw', ts₂, rfl⟩
    rw [assignments, if_pos hsep]
    exact ih h₁ h₁.length
  | case5 t raw ts hsep =>
    rename_i ih
    cases h with
    | @same _ _ _ ts₁ h₁ =>
      obtain ⟨ts₂, rfl, h₂⟩ := h₁.of_cons (not_isLiteral (by decide))
      obtain ⟨raw', ts₃, b', rfl, h₃⟩ : ∃ raw' ts₃ b', ts₂ = raw' :: ts₃ ∧ ValuesAlike b' ts ts₃ := by
        cases h₂ with
        | same h₃ => exact ⟨_, _, _, rfl, h₃⟩
        | value _ _ _ h₃ => exact ⟨_, _, _, rfl, h₃⟩
      rw [assignments, if_neg hsep, if_pos rfl]
      exact .cons ⟨rfl, trivial⟩ (ih h₃ h₃.length)
    | value _ _ hnext _ => exact absurd rfl hnext
  | case6 t u raw ts hsep hequals =>
    rename_i ih
    obtain ⟨t', u', raw', ts₂, rfl⟩ : ∃ t' u' raw' ts₂, ts' = t' :: u' :: raw' :: ts₂ := by
      match ts', hlen with
      | t' :: u' :: raw' :: ts₂, _ => exact ⟨t', u', raw', ts₂, rfl⟩
    have hsep' : ¬ (t' = "," ∨ t' = ";") := by
      have hcomma := h.head (u := ",") (by decide)
      have hsemi := h.head (u := ";") (by decide)
      simp only [startsWith, List.head?_cons, beq_eq_beq, Option.some.injEq] at hcomma hsemi
      rw [hcomma, hsemi]
      exact hsep
    have hequals' : u' ≠ "=" := by
      have hhead := h.tail.head (u := "=") (by decide)
      simp only [startsWith, List.tail_cons, List.head?_cons, beq_eq_beq, Option.some.injEq] at hhead
      rw [ne_eq, hhead]
      exact hequals
    rw [assignments, if_neg hsep', if_neg hequals']
    exact ih h.tail h.tail.length

theorem attrBlock_alike {b : Bool} {ts ts' : List String} (h : ValuesAlike b ts ts') :
    RecordAlike (attrBlock ts).1 (attrBlock ts').1 ∧
      ValuesAlike true (attrBlock ts).2 (attrBlock ts').2 := by
  have hblock := takeBlock_alike "[" "]" (by decide) (by decide) h 1
  exact ⟨Dict.Pointwise.ofList (assignments_alike hblock.1), hblock.2⟩

theorem optionalBlock_alike {b : Bool} {ts ts' : List String} (h : ValuesAlike b ts ts') :
    RecordAlike (optionalBlock ts).1 (optionalBlock ts').1 ∧
      ValuesAlike true (optionalBlock ts).2 (optionalBlock ts').2 := by
  have hrefl : RecordAlike Dict.empty Dict.empty := .nil
  cases h with
  | nil => exact ⟨hrefl, .nil⟩
  | @same b t ts ts' h =>
    rw [optionalBlock, optionalBlock]
    by_cases ht : t = "["
    · rw [if_pos ht, if_pos ht]
      exact attrBlock_alike h
    · rw [if_neg ht, if_neg ht]
      exact ⟨hrefl, .same h⟩
  | value ht ht' hnext h =>
    rw [optionalBlock, optionalBlock]
    rw [if_neg (ne_of_isLiteral (u := "[") ht (by decide)),
      if_neg (ne_of_isLiteral (u := "[") ht' (by decide))]
    exact ⟨hrefl, .value ht ht' hnext h⟩

omit [Runtime] in
theorem isIdentifier_literal {t : String} (ht : IsLiteral t.toList) : isIdentifier t = false := by
  obtain ⟨q, -, hq⟩ := ht
  have hchomp : chomp t.toList = t.toList := by
    unfold chomp
    rw [if_neg]
    rw [hq, ← List.cons_append, List.getLast?_concat]
    decide
  unfold isIdentifier
  rw [hchomp, hq]
  rfl

omit [Runtime] in
theorem skipName_alike {b : Bool} {ts ts' : List String} (h : ValuesAlike b ts ts') :
    ValuesAlike true (skipName ts) (skipName ts') := by
  cases h with
  | nil => exact .nil
  | @same b t ts ts' h =>
    rw [skipName, skipName]
    by_cases ht : isIdentifier t = true
    · rw [if_pos ht, if_pos ht]
      exact h.weaken
    · rw [if_neg ht, if_neg ht]
      exact .same h
  | value ht ht' hnext h =>
    rw [skipName, skipName]
    rw [if_neg (by rw [isIdentifier_literal ht]; decide),
      if_neg (by rw [isIdentifier_literal ht']; decide)]
    exact .value ht ht' hnext h

end Blocks

/-! ## Statements -/

/-- The same statement but for the values of its attributes. -/
inductive CommandAlike : Command → Command → Prop
  | graphAttrs {l l' : List (String × Value)} (h : KeysAlike l l') :
      CommandAlike (.graphAttrs l) (.graphAttrs l')
  | nodeDefaults {d d' : Record} (h : RecordAlike d d') :
      CommandAlike (.nodeDefaults d) (.nodeDefaults d')
  | edgeDefaults {d d' : Record} (h : RecordAlike d d') :
      CommandAlike (.edgeDefaults d) (.edgeDefaults d')
  | chain {first : String} {rest : List String} {d d' : Record} (h : RecordAlike d d') :
      CommandAlike (.chain first rest d) (.chain first rest d')
  | graphAttr {key : String} {v v' : Value} : CommandAlike (.graphAttr key v) (.graphAttr key v')
  | truncated : CommandAlike .truncated .truncated
  | node {id : String} {d d' : Record} (h : RecordAlike d d') : CommandAlike (.node id d) (.node id d')
  | enter : CommandAlike .enter .enter
  | leave : CommandAlike .leave .leave

section Statements

variable [Runtime]

theorem commands_literal {t : String} (ht : IsLiteral t.toList) (fuel : Nat) (ts : List String) :
    commands (fuel + 1) (t :: ts) = commands fuel ts := by
  rw [commands, if_neg (ne_of_isLiteral (u := ";") ht (by decide)),
    if_neg (ne_of_isLiteral (u := "subgraph") ht (by decide)),
    if_neg fun h => ne_of_isLiteral (u := "graph") ht (by decide) h.1,
    if_neg fun h => ne_of_isLiteral (u := "node") ht (by decide) h.1,
    if_neg fun h => ne_of_isLiteral (u := "edge") ht (by decide) h.1,
    if_neg (by rw [isIdentifier_literal ht]; decide)]

/-- Tokens that differ in values are the same statements. -/
theorem commands_alike (fuel : Nat) {b : Bool} {ts ts' : List String} (h : ValuesAlike b ts ts') :
    List.Forall₂ CommandAlike (commands fuel ts) (commands fuel ts') := by
  induction fuel generalizing b ts ts' with
  | zero => exact .nil
  | succ fuel ih =>
    cases h with
    | nil => exact .nil
    | value ht ht' _ h =>
      rw [commands_literal ht, commands_literal ht']
      exact ih h
    | @same b t ts ts' h =>
      have hopen := h.head (u := "[") (by decide)
      have harrow := h.head (u := "->") (by decide)
      have hequals := h.head (u := "=") (by decide)
      have hblock := attrBlock_alike h.tail
      have hattrs := optionalBlock_alike h
      rw [commands, commands, hopen, harrow, hequals]
      by_cases hsemi : t = ";"
      · rw [if_pos hsemi, if_pos hsemi]
        exact ih h
      rw [if_neg hsemi, if_neg hsemi]
      by_cases hsub : t = "subgraph"
      · rw [if_pos hsub, if_pos hsub]
        have hname := skipName_alike h
        generalize skipName ts = l at hname
        generalize skipName ts' = l' at hname
        cases hname with
        | nil => exact .nil
        | @same _ u l l' hname =>
          dsimp only
          by_cases hu : u = "\x7b"
          · rw [if_pos hu, if_pos hu]
            have hbody := takeBlock_alike "\x7b" "\x7d" (by decide)
              (by decide) hname 1
            exact .cons .enter (List.rel_append (ih (dropLast_alike hbody.1)) (.cons .leave (ih hbody.2)))
          · rw [if_neg hu, if_neg hu]
            exact ih (b := true) (.same hname)
        | value hu hu' hnext hname =>
          dsimp only
          rw [if_neg (ne_of_isLiteral (u := "\x7b") hu (by decide)),
            if_neg (ne_of_isLiteral (u := "\x7b") hu' (by decide))]
          exact ih (.value hu hu' hnext hname)
      rw [if_neg hsub, if_neg hsub]
      by_cases hgraph : t = "graph" ∧ startsWith "[" ts = true
      · rw [if_pos hgraph, if_pos hgraph]
        exact .cons (.graphAttrs hblock.1) (ih hblock.2)
      rw [if_neg hgraph, if_neg hgraph]
      by_cases hnode : t = "node" ∧ startsWith "[" ts = true
      · rw [if_pos hnode, if_pos hnode]
        exact .cons (.nodeDefaults hblock.1) (ih hblock.2)
      rw [if_neg hnode, if_neg hnode]
      by_cases hedge : t = "edge" ∧ startsWith "[" ts = true
      · rw [if_pos hedge, if_pos hedge]
        exact .cons (.edgeDefaults hblock.1) (ih hblock.2)
      rw [if_neg hedge, if_neg hedge]
      by_cases hident : isIdentifier t = true
      · rw [if_pos hident, if_pos hident]
        by_cases hchain : startsWith "->" ts = true
        · rw [if_pos hchain, if_pos hchain]
          obtain ⟨hnames, hrest⟩ := takeChain_alike h
          have hopt := optionalBlock_alike hrest
          dsimp only
          rw [hnames]
          exact .cons (.chain hopt.1) (ih hopt.2)
        rw [if_neg hchain, if_neg hchain]
        by_cases hassign : startsWith "=" ts = true
        · rw [if_pos hassign, if_pos hassign]
          have htail := h.tail
          generalize ts.tail = l at htail
          generalize ts'.tail = l' at htail
          cases htail with
          | nil => exact .cons .truncated .nil
          | same htail => exact .cons .graphAttr (ih htail)
          | value _ _ _ htail => exact .cons .graphAttr (ih htail)
        rw [if_neg hassign, if_neg hassign]
        exact .cons (.node hattrs.1) (ih hattrs.2)
      rw [if_neg hident, if_neg hident]
      exact ih h

theorem statements_alike {b : Bool} {ts ts' : List String} (h : ValuesAlike b ts ts') :
    List.Forall₂ CommandAlike (statements ts) (statements ts') := by
  unfold statements
  rw [h.length]
  exact commands_alike _ h

end Statements

end Dot
end DotRunner
