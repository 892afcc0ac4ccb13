import DotRunner.Dot.Lexer
import DotRunner.Dot.Source
import Mathlib.Data.List.Infix
import Mathlib.Data.List.TakeWhile

/-!
# Sources that differ inside quotes

Two sources that are the same outside their quoted texts, before and after the
comments are stripped, and what the scanners of the source make of them.
-/

namespace DotRunner
namespace Dot

open Py

/-- The text between the quotes of a literal: a backslash takes the next character
with it, which is no line feed. -/
inductive QuotedBody : List Char → Prop
  | nil : QuotedBody []
  | char {c : Char} {q : List Char} (hquote : c ≠ '"') (hslash : c ≠ '\\') (h : QuotedBody q) :
      QuotedBody (c :: q)
  | escape {c : Char} {q : List Char} (hfeed : c ≠ '\n') (h : QuotedBody q) :
      QuotedBody ('\\' :: c :: q)

/-- A slash that a comment starts with. -/
def OpensComment (c : Char) (r : List Char) : Prop := c = '/' ∧ (r.head? = some '/' ∨ r.head? = some '*')

/-- Sources that are the same but for the texts inside well-formed quotes. -/
inductive Alike : List Char → List Char → Prop
  | same (l : List Char) : Alike l l
  | char {c : Char} {r r' : List Char} (hquote : c ≠ '"') (hcomment : ¬ OpensComment c r)
      (h : Alike r r') : Alike (c :: r) (c :: r')
  | line {text r r' : List Char} (htext : '\n' ∉ text) (h : Alike ('\n' :: r) ('\n' :: r')) :
      Alike ('/' :: '/' :: (text ++ '\n' :: r)) ('/' :: '/' :: (text ++ '\n' :: r'))
  | block {text r r' : List Char} (htext : ¬ ['*', '/'] <:+: text ++ ['*']) (h : Alike r r') :
      Alike ('/' :: '*' :: (text ++ '*' :: '/' :: r)) ('/' :: '*' :: (text ++ '*' :: '/' :: r'))
  | quoted {q q' r r' : List Char} (hq : QuotedBody q) (hq' : QuotedBody q') (h : Alike r r') :
      Alike ('"' :: (q ++ '"' :: r)) ('"' :: (q' ++ '"' :: r'))

/-- The same of texts without comments. -/
inductive Plain : List Char → List Char → Prop
  | same (l : List Char) : Plain l l
  | char {c : Char} {r r' : List Char} (hquote : c ≠ '"') (h : Plain r r') : Plain (c :: r) (c :: r')
  | quoted {q q' r r' : List Char} (hq : QuotedBody q) (hq' : QuotedBody q') (h : Plain r r') :
      Plain ('"' :: (q ++ '"' :: r)) ('"' :: (q' ++ '"' :: r'))

/-! ## Comments -/

theorem strip_quoted {q : List Char} (hq : QuotedBody q) (r : List Char) :
    stripFrom .quoted (q ++ '"' :: r) = q ++ '"' :: stripFrom .code r := by
  induction hq with
  | nil => rfl
  | char hquote hslash _ ih =>
    rw [List.cons_append, stripFrom, if_neg hslash, if_neg hquote, ih]
    rfl
  | escape _ _ ih =>
    rw [List.cons_append, List.cons_append, stripFrom, if_pos rfl, stripFrom, ih]
    rfl

theorem strip_literal {q : List Char} (hq : QuotedBody q) (r : List Char) :
    stripFrom .code ('"' :: (q ++ '"' :: r)) = '"' :: (q ++ '"' :: stripFrom .code r) := by
  rw [stripFrom, if_neg (by decide), ← strip_quoted hq]
  rfl

theorem strip_char {c : Char} {r : List Char} (hquote : c ≠ '"') (h : ¬ OpensComment c r) :
    stripFrom .code (c :: r) = c :: stripFrom .code r := by
  rw [stripFrom]
  by_cases hslash : c = '/'
  · rw [if_pos hslash]
    subst hslash
    cases r with
    | nil => rfl
    | cons d r =>
      have hd : d ≠ '/' ∧ d ≠ '*' := by
        refine ⟨fun hd => h ⟨rfl, .inl ?_⟩, fun hd => h ⟨rfl, .inr ?_⟩⟩
        · rw [hd]
          rfl
        · rw [hd]
          rfl
      rw [stripFrom, stripFrom, if_neg hd.1, if_neg hd.2, if_neg hd.1]
  · rw [if_neg hslash, codeMode, if_neg hquote]

theorem strip_line {text : List Char} (htext : '\n' ∉ text) (r : List Char) :
    stripFrom .line (text ++ '\n' :: r) = '\n' :: stripFrom .code r := by
  induction text with
  | nil => rfl
  | cons c text ih =>
    rw [List.mem_cons, not_or] at htext
    rw [List.cons_append, stripFrom, if_neg (Ne.symm htext.1)]
    exact ih htext.2

/-- A block ends at its first closing delimiter, behind a star or not. -/
theorem strip_block (text r : List Char) :
    (¬ ['*', '/'] <:+: text ++ ['*'] →
      stripFrom .block (text ++ '*' :: '/' :: r) = stripFrom .code r) ∧
    (¬ ['*', '/'] <:+: '*' :: (text ++ ['*']) →
      stripFrom .star (text ++ '*' :: '/' :: r) = stripFrom .code r) := by
  induction text with
  | nil => exact ⟨fun _ => rfl, fun _ => rfl⟩
  | cons c text ih =>
    obtain ⟨hblock, hstar⟩ := ih
    have htail : ∀ {l : List Char}, ¬ ['*', '/'] <:+: c :: l → ¬ ['*', '/'] <:+: l :=
      fun h hin => h (List.infix_cons hin)
    constructor
    · intro h
      rw [List.cons_append, stripFrom]
      by_cases hc : c = '*'
      · subst hc
        rw [if_pos rfl]
        exact hstar h
      · rw [if_neg hc]
        exact hblock (htail h)
    · intro h
      have hslash : c ≠ '/' := by
        rintro rfl
        exact h ⟨[], text ++ ['*'], rfl⟩
      have h' : ¬ ['*', '/'] <:+: c :: (text ++ ['*']) := fun hin => h (List.infix_cons hin)
      rw [List.cons_append, stripFrom, if_neg hslash]
      by_cases hc : c = '*'
      · subst hc
        rw [if_pos rfl]
        exact hstar h'
      · rw [if_neg hc]
        exact hblock (htail h')

/-- Comments are the same in sources that differ inside quotes. -/
theorem Alike.strip {l l' : List Char} (h : Alike l l') : Plain (stripComments l) (stripComments l') := by
  induction h with
  | same l => exact .same _
  | @char c r r' hquote hcomment h ih =>
    have hhead : r'.head? = r.head? := by cases h <;> rfl
    have hcomment' : ¬ OpensComment c r' := by
      unfold OpensComment
      rw [hhead]
      exact hcomment
    unfold stripComments
    rw [strip_char hquote hcomment, strip_char hquote hcomment']
    exact .char hquote ih
  | @line text r r' htext _ ih =>
    have hline : ∀ r, stripComments ('/' :: '/' :: (text ++ '\n' :: r)) = stripComments ('\n' :: r) :=
      fun r => strip_line htext r
    rw [hline, hline]
    exact ih
  | @block text r r' htext _ ih =>
    have hblock : ∀ r, stripComments ('/' :: '*' :: (text ++ '*' :: '/' :: r)) = stripComments r :=
      fun r => (strip_block text r).1 htext
    rw [hblock, hblock]
    exact ih
  | quoted hq hq' _ ih =>
    unfold stripComments
    rw [strip_literal hq, strip_literal hq']
    exact .quoted hq hq' ih

/-! ## Spans -/

theorem head_dropWhile (p : Char → Bool) (s : List Char) : (s.dropWhile p).head?.any p = false := by
  have hnot := List.head?_dropWhile_not p s
  cases hd : (s.dropWhile p).head? with
  | none => rfl
  | some c =>
    rw [hd] at hnot
    simpa using hnot

/-! ## Parts of texts that differ inside quotes -/

namespace Plain

variable {l l' : List Char}

theorem symm (h : Plain l l') : Plain l' l := by
  induction h with
  | same l => exact .same l
  | char hquote _ ih => exact .char hquote ih
  | quoted hq hq' _ ih => exact .quoted hq' hq ih

theorem head (h : Plain l l') : l'.head? = l.head? := by
  cases h <;> rfl

theorem of_cons {c : Char} {r : List Char} (hc : c ≠ '"') (h : Plain (c :: r) l') :
    ∃ r', l' = c :: r' ∧ Plain r r' := by
  cases h with
  | same => exact ⟨r, rfl, .same r⟩
  | char _ h => exact ⟨_, rfl, h⟩
  | quoted => exact absurd rfl hc

theorem of_nil (h : Plain [] l') : l' = [] := by
  cases h
  rfl

/-- A span that no quote is in is the same in both. -/
theorem span {p : Char → Bool} (hp : p '"' = false) (h : Plain l l') :
    l'.takeWhile p = l.takeWhile p ∧ Plain (l.dropWhile p) (l'.dropWhile p) := by
  induction h with
  | same l => exact ⟨rfl, .same _⟩
  | @char c r r' hquote h ih =>
    cases hc : p c with
    | true =>
      rw [List.takeWhile_cons_of_pos hc, List.takeWhile_cons_of_pos hc, List.dropWhile_cons_of_pos hc,
        List.dropWhile_cons_of_pos hc, ih.1]
      exact ⟨rfl, ih.2⟩
    | false =>
      have hneg : ¬ p c = true := by rw [hc]; decide
      rw [List.takeWhile_cons_of_neg hneg, List.takeWhile_cons_of_neg hneg,
        List.dropWhile_cons_of_neg hneg, List.dropWhile_cons_of_neg hneg]
      exact ⟨rfl, .char hquote h⟩
  | quoted hq hq' h _ =>
    have hneg : ¬ p '"' = true := by rw [hp]; decide
    rw [List.takeWhile_cons_of_neg hneg, List.takeWhile_cons_of_neg hneg,
      List.dropWhile_cons_of_neg hneg, List.dropWhile_cons_of_neg hneg]
    exact ⟨rfl, .quoted hq hq' h⟩

theorem eq_of_no_quote (h : Plain l l') (hl : '"' ∉ l) : l' = l := by
  induction h with
  | same => rfl
  | char _ _ ih =>
    rw [List.mem_cons, not_or] at hl
    rw [ih hl.2]
  | quoted => exact absurd List.mem_cons_self hl

/-- An end that no quote is in is the same in both. -/
theorem cut (h : Plain l l') {u w : List Char} (hl : l = u ++ w) (hw : '"' ∉ w) :
    ∃ u', l' = u' ++ w ∧ Plain u u' := by
  induction h generalizing u with
  | same => exact ⟨u, hl, .same u⟩
  | @char c r r' hquote h ih =>
    cases u with
    | nil =>
      rw [List.nil_append] at hl
      have heq := (Plain.char hquote h).eq_of_no_quote (by rw [hl]; exact hw)
      exact ⟨[], by rw [heq, hl]; rfl, .same []⟩
    | cons d u =>
      rw [List.cons_append] at hl
      cases hl
      obtain ⟨u', hr', hu⟩ := ih rfl
      exact ⟨c :: u', by rw [hr']; rfl, .char hquote hu⟩
  | @quoted q q' r r' hq hq' h ih =>
    have hsplit : ('"' :: q ++ ['"']) ++ r = u ++ w := by
      rw [← hl]
      simp
    rcases List.append_eq_append_iff.mp hsplit with ⟨v, hu, hr⟩ | ⟨v, hlit, hv⟩
    · obtain ⟨v', hr', hplain⟩ := ih hr
      subst hu
      refine ⟨'"' :: q' ++ ['"'] ++ v', by rw [hr']; simp, ?_⟩
      have hquoted := Plain.quoted hq hq' hplain
      simpa using hquoted
    · cases v.eq_nil_or_concat with
      | inl hnil =>
        subst hnil
        rw [List.append_nil] at hlit
        rw [List.nil_append] at hv
        subst hlit hv
        obtain ⟨v', hr', hplain⟩ := ih (u := []) rfl
        have hnil := hplain.of_nil
        subst hnil
        refine ⟨'"' :: q' ++ ['"'], by rw [hr']; simp, ?_⟩
        have hquoted := Plain.quoted hq hq' (.same [])
        simpa using hquoted
      | inr hlast =>
        obtain ⟨v', c, hv'⟩ := hlast
        have hc : c = '"' := by
          have hends := congrArg List.getLast? hlit
          rw [hv', List.concat_eq_append, ← List.append_assoc, List.getLast?_concat, List.getLast?_concat] at hends
          exact (Option.some.inj hends).symm
        refine absurd ?_ hw
        rw [hv, hv', hc]
        simp

end Plain

/-! ## Undirected edges -/

theorem undirected_quoted {q : List Char} (hq : QuotedBody q) (r : List Char) :
    undirectedFrom .quoted (q ++ '"' :: r) = undirectedFrom (.code (some '"')) r := by
  induction hq with
  | nil => rfl
  | char hquote hslash _ ih =>
    rw [List.cons_append, undirectedFrom, if_neg hslash, if_neg hquote, ih]
  | escape _ _ ih =>
    rw [List.cons_append, List.cons_append, undirectedFrom, if_pos rfl, undirectedFrom, ih]

theorem Plain.undirected {l l' : List Char} (h : Plain l l') (prev : Option Char) :
    undirectedFrom (.code prev) l' = undirectedFrom (.code prev) l ∧
      undirectedFrom (.dash prev) l' = undirectedFrom (.dash prev) l := by
  induction h generalizing prev with
  | same => exact ⟨rfl, rfl⟩
  | @char c r r' hquote _ ih =>
    constructor
    · rw [undirectedFrom, undirectedFrom, if_neg hquote]
      by_cases hdash : c = '-'
      · rw [if_pos hdash]
        exact (ih prev).2
      · rw [if_neg hdash]
        exact (ih (some c)).1
    · rw [undirectedFrom, undirectedFrom, if_neg hquote, (ih (some c)).1]
  | @quoted q q' r r' hq hq' _ ih =>
    have hcode : ∀ {q : List Char} (r : List Char), QuotedBody q →
        undirectedFrom (.code prev) ('"' :: (q ++ '"' :: r)) = undirectedFrom (.code (some '"')) r ∧
        undirectedFrom (.dash prev) ('"' :: (q ++ '"' :: r)) = undirectedFrom (.code (some '"')) r := by
      intro q r hq
      rw [undirectedFrom, if_pos rfl, undirectedFrom, if_neg (by decide), if_pos rfl]
      exact ⟨undirected_quoted hq r, undirected_quoted hq r⟩
    rw [(hcode r hq).1, (hcode r hq).2, (hcode r' hq').1, (hcode r' hq').2]
    exact ⟨(ih _).1, (ih _).1⟩

/-! ## The header -/

namespace Plain

variable {l l' : List Char}

/-- A short prefix is the same in both, or there is a quote in it in both. -/
theorem take (h : Plain l l') (n : Nat) :
    (l'.take n = l.take n ∧ Plain (l.drop n) (l'.drop n)) ∨ ('"' ∈ l.take n ∧ '"' ∈ l'.take n) := by
  induction h generalizing n with
  | same => exact .inl ⟨rfl, .same _⟩
  | char hquote h ih =>
    cases n with
    | zero => exact .inl ⟨rfl, .char hquote h⟩
    | succ n =>
      rcases ih n with ⟨htake, hdrop⟩ | ⟨hmem, hmem'⟩
      · exact .inl ⟨by rw [List.take_succ_cons, List.take_succ_cons, htake], hdrop⟩
      · exact .inr ⟨List.mem_cons_of_mem _ hmem, List.mem_cons_of_mem _ hmem'⟩
  | quoted hq hq' h _ =>
    cases n with
    | zero => exact .inl ⟨rfl, .quoted hq hq' h⟩
    | succ n => exact .inr ⟨List.mem_cons_self, List.mem_cons_self⟩

theorem dropPrefix {pat r : List Char} (hpat : '"' ∉ pat) (h : Plain l l')
    (hl : Text.dropPrefix? pat l = some r) :
    ∃ r', Text.dropPrefix? pat l' = some r' ∧ Plain r r' := by
  induction pat generalizing l l' with
  | nil =>
    cases hl
    exact ⟨l', by cases l' <;> rfl, h⟩
  | cons p pat ih =>
    rw [List.mem_cons, not_or] at hpat
    cases l with
    | nil => exact absurd hl (by simp [Text.dropPrefix?])
    | cons c l =>
      rw [Text.dropPrefix?] at hl
      split at hl
      · rename_i hpc
        obtain ⟨r', rfl, hplain⟩ := h.of_cons (by rw [← hpc]; exact Ne.symm hpat.1)
        obtain ⟨r'', hdrop, hrest⟩ := ih hpat.2 hplain hl
        refine ⟨r'', ?_, hrest⟩
        rw [Text.dropPrefix?, if_pos hpc]
        exact hdrop
      · cases hl

theorem space_quote : Text.isSpace '"' = false := by decide

theorem getLast (h : Plain l l') : l'.getLast? = l.getLast? := by
  induction h with
  | same => rfl
  | char _ _ ih => rw [List.getLast?_cons, List.getLast?_cons, ih]
  | @quoted q q' r r' _ _ _ ih =>
    have hlast : ∀ q r : List Char, ('"' :: (q ++ '"' :: r)).getLast? = some (r.getLast?.getD '"') := by
      intro q r
      rw [← List.cons_append, List.getLast?_append, List.getLast?_cons, Option.some_or]
    rw [hlast, hlast, ih]

end Plain

theorem rstrip_of_getLast {u w : List Char} (hw : ∀ c ∈ w, Text.isSpace c = true)
    (hu : ∀ c, u.getLast? = some c → Text.isSpace c = false) : Text.rstrip (u ++ w) = u := by
  have hspaces : ∀ c ∈ w.reverse, Text.isSpace c = true := fun c hc => hw c (List.mem_reverse.mp hc)
  unfold Text.rstrip
  rw [List.reverse_append, List.dropWhile_append_of_pos hspaces]
  cases hrev : u.reverse with
  | nil => exact (List.reverse_eq_nil_iff.mp hrev).symm
  | cons c rest =>
    have hend : u = rest.reverse ++ [c] := by
      rw [← List.reverse_reverse u, hrev, List.reverse_cons]
    have hc := hu c (by rw [hend, List.getLast?_concat])
    have hneg : ¬ Text.isSpace c = true := by rw [hc]; decide
    rw [List.dropWhile_cons_of_neg hneg, List.reverse_cons, ← hend]

/-- A text is what is left of it and white space. -/
theorem rstrip_split (l : List Char) : ∃ w, l = Text.rstrip l ++ w ∧ (∀ c ∈ w, Text.isSpace c = true) ∧
    ∀ c, (Text.rstrip l).getLast? = some c → Text.isSpace c = false := by
  refine ⟨(l.reverse.takeWhile Text.isSpace).reverse, ?_, ?_, ?_⟩
  · unfold Text.rstrip
    rw [← List.reverse_append, List.takeWhile_append_dropWhile, List.reverse_reverse]
  · intro c hc
    exact List.mem_takeWhile_imp (List.mem_reverse.mp hc)
  · intro c hc
    unfold Text.rstrip at hc
    rw [List.getLast?_reverse] at hc
    have hnot := List.head?_dropWhile_not Text.isSpace l.reverse
    rw [hc] at hnot
    exact hnot

theorem not_mem_of_space {w : List Char} (hw : ∀ c ∈ w, Text.isSpace c = true) : '"' ∉ w :=
  fun hmem => absurd (hw '"' hmem) (by decide)

namespace Plain

variable {l l' : List Char}

theorem rstrip (h : Plain l l') : Plain (Text.rstrip l) (Text.rstrip l') := by
  obtain ⟨w, hsplit, hw, hlast⟩ := rstrip_split l
  obtain ⟨u', hl', hplain⟩ := h.cut hsplit (not_mem_of_space hw)
  rw [hl', rstrip_of_getLast hw fun c hc => hlast c (by rw [← hplain.getLast]; exact hc)]
  exact hplain

theorem strip (h : Plain l l') : Plain (Text.strip l) (Text.strip l') :=
  (h.span (by decide)).2.rstrip

end Plain

section Header

variable [Runtime]

/-- What `re` is promised to do with a quote: it is no word character, and no letter
in any case. -/
structure QuoteLaws : Prop where
  notWord : Runtime.isWord '"' = false
  folds : Runtime.foldChar '"' = '"'

variable {l l' : List Char}

theorem startsWithWord_plain (laws : QuoteLaws) (pat : String) (hpat : '"' ∉ pat.toList)
    (h : Plain l l') : startsWithWord pat l' = startsWithWord pat l := by
  unfold startsWithWord
  dsimp only
  rcases h.take pat.toList.length with ⟨htake, hdrop⟩ | ⟨hmem, hmem'⟩
  · have hlen : pat.toList.length ≤ l'.length ↔ pat.toList.length ≤ l.length := by
      have heq := congrArg List.length htake
      rw [List.length_take, List.length_take] at heq
      omega
    rw [htake, hdrop.head]
    simp only [hlen]
  · have hno : ∀ l : List Char, '"' ∈ l.take pat.toList.length →
        ((l.take pat.toList.length).map Runtime.foldChar == pat.toList) = false := by
      intro l hl
      rw [beq_eq_false_iff_ne]
      intro heq
      have hfold : '"' ∈ (l.take pat.toList.length).map Runtime.foldChar := by
        rw [← laws.folds]
        exact List.mem_map_of_mem hl
      rw [heq] at hfold
      exact hpat hfold
    rw [hno l hmem, hno l' hmem', Bool.and_false, Bool.and_false, Bool.false_and, Bool.false_and]

omit [Runtime] in
/-- A body in braces: nothing but white space follows the last of them. -/
theorem bracedBody_eq_some {r body : List Char} : bracedBody ('\x7b' :: r) = some body ↔
    ∃ w, (∀ c ∈ w, Text.isSpace c = true) ∧ r = body ++ '\x7d' :: w := by
  rw [bracedBody]
  constructor
  · intro h
    split at h
    · rename_i before hdrop
      cases h
      refine ⟨(r.reverse.takeWhile Text.isSpace).reverse, ?_, ?_⟩
      · intro c hc
        exact List.mem_takeWhile_imp (List.mem_reverse.mp hc)
      · have hsplit := List.takeWhile_append_dropWhile (p := Text.isSpace) (l := r.reverse)
        rw [hdrop] at hsplit
        have hends := congrArg List.reverse hsplit
        rw [List.reverse_reverse, List.reverse_append, List.reverse_cons, List.append_assoc] at hends
        exact hends.symm
    · cases h
  · rintro ⟨w, hw, rfl⟩
    have hspaces : ∀ c ∈ w.reverse, Text.isSpace c = true := fun c hc => hw c (List.mem_reverse.mp hc)
    have hdrop : (body ++ '\x7d' :: w).reverse.dropWhile Text.isSpace = '\x7d' :: body.reverse := by
      rw [List.reverse_append, List.reverse_cons, List.append_assoc,
        List.dropWhile_append_of_pos hspaces]
      rfl
    rw [hdrop]
    exact congrArg some (List.reverse_reverse body)

omit [Runtime] in
theorem bracedBody_plain {body : List Char} (h : Plain l l') (hl : bracedBody l = some body) :
    ∃ body', bracedBody l' = some body' ∧ Plain body body' := by
  cases l with
  | nil => cases hl
  | cons c r =>
    by_cases hc : c = '\x7b'
    · subst hc
      obtain ⟨r', rfl, hr⟩ := h.of_cons (by decide)
      obtain ⟨w, hw, hsplit⟩ := bracedBody_eq_some.mp hl
      have hquote : '"' ∉ '\x7d' :: w := by
        rw [List.mem_cons, not_or]
        exact ⟨by decide, not_mem_of_space hw⟩
      obtain ⟨body', hr', hbody⟩ := hr.cut hsplit hquote
      exact ⟨body', bracedBody_eq_some.mpr ⟨w, hw, hr'⟩, hbody⟩
    · rw [bracedBody] at hl
      · cases hl
      · rintro r' heq
        exact hc (List.cons.inj heq).1

theorem namedDigraph_plain (laws : QuoteLaws) {name body : List Char} (h : Plain l l')
    (hl : namedDigraph l = some (name, body)) :
    ∃ body', namedDigraph l' = some (name, body') ∧ Plain body body' := by
  unfold namedDigraph at hl ⊢
  obtain ⟨r₁, hdrop, hl⟩ := Option.bind_eq_some_iff.mp hl
  obtain ⟨r₂, hskip, hl⟩ := Option.bind_eq_some_iff.mp hl
  obtain ⟨r₁', hdrop', h₁⟩ := Plain.dropPrefix (by decide) (h.span (by decide)).2 hdrop
  rw [hdrop']
  have hskip' : ∃ r₂', skipSpaces? r₁' = some r₂' ∧ Plain r₂ r₂' := by
    unfold skipSpaces? at hskip ⊢
    rw [h₁.head]
    split at hskip
    · rename_i hspace
      cases hskip
      exact ⟨_, if_pos hspace, (h₁.span (by decide)).2⟩
    · cases hskip
  obtain ⟨r₂', hskip', h₂⟩ := hskip'
  obtain ⟨hname, h₃⟩ := h₂.span laws.notWord
  simp only [Option.bind_eq_bind, Option.bind_some, hskip', hname]
  dsimp only at hl
  split at hl
  · cases hl
  · rename_i hne
    obtain ⟨b, hbody, hpair⟩ := Option.bind_eq_some_iff.mp hl
    obtain ⟨body', hbody', hplain⟩ := bracedBody_plain (h₃.span (by decide)).2 hbody
    cases hpair
    refine ⟨body', ?_, hplain⟩
    rw [if_neg hne, hbody']
    rfl

omit [Runtime] in
theorem unnamedDigraph_plain {body : List Char} (h : Plain l l')
    (hl : unnamedDigraph l = some body) :
    ∃ body', unnamedDigraph l' = some body' ∧ Plain body body' := by
  unfold unnamedDigraph at hl ⊢
  obtain ⟨r, hdrop, hbody⟩ := Option.bind_eq_some_iff.mp hl
  obtain ⟨r', hdrop', hplain⟩ := Plain.dropPrefix (by decide) (h.span (by decide)).2 hdrop
  rw [hdrop']
  exact bracedBody_plain (hplain.span (by decide)).2 hbody

/-- The header is read alike, where the word `digraph` occurs equally often. -/
theorem digraphOf_plain (laws : QuoteLaws) (h : Plain l l')
    (hcount : countDigraphs l' = countDigraphs l) {name : String} {body : List Char}
    (hl : digraphOf l = .ok (name, body)) :
    ∃ body', digraphOf l' = .ok (name, body') ∧ Plain body body' := by
  have hstrict := startsWithWord_plain laws "strict" (by decide) h.strip
  have hgraph := startsWithWord_plain laws "graph" (by decide) h.strip
  have hdigraph := startsWithWord_plain laws "digraph" (by decide) h.strip
  have hedges : hasUndirectedEdges l' = hasUndirectedEdges l := (h.undirected none).1
  unfold digraphOf at hl ⊢
  dsimp only at hl ⊢
  rw [hstrict, hgraph, hdigraph, hedges, hcount]
  split at hl
  · cases hl
  · rename_i h₁
    rw [if_neg h₁]
    split at hl
    · cases hl
    · rename_i h₂
      rw [if_neg h₂]
      split at hl
      · cases hl
      · rename_i h₃
        rw [if_neg h₃]
        split at hl
        · cases hl
        · rename_i h₄
          rw [if_neg h₄]
          cases hnamed : namedDigraph l with
          | some p =>
            obtain ⟨n, b⟩ := p
            rw [hnamed] at hl
            cases hl
            obtain ⟨body', hnamed', hplain⟩ := namedDigraph_plain laws h hnamed
            exact ⟨body', by rw [hnamed'], hplain⟩
          | none =>
            rw [hnamed] at hl
            have hnone : namedDigraph l' = none := by
              cases hnamed' : namedDigraph l' with
              | none => rfl
              | some p =>
                obtain ⟨b, hback, -⟩ := namedDigraph_plain laws h.symm hnamed'
                rw [hnamed] at hback
                cases hback
            cases hunnamed : unnamedDigraph l with
            | none =>
              rw [hunnamed] at hl
              cases hl
            | some b =>
              rw [hunnamed] at hl
              cases hl
              obtain ⟨body', hunnamed', hplain⟩ := unnamedDigraph_plain h hunnamed
              exact ⟨body', by rw [hnone, hunnamed'], hplain⟩

end Header

end Dot
end DotRunner
