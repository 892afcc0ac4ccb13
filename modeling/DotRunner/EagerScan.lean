import DotRunner.SinglePass
import DotRunner.Engine.State
import Mathlib.Data.List.TakeWhile

/-!
# The eager scan

Which keys a substitution fills in for tokens of the template, and which of them the
scan reads off the template beforehand.  Every character is followed from its place in
the template through the phases.
-/

namespace DotRunner

open Py

/-- A character, and its place in the template where it comes from there. -/
abbrev Cell := Char × Option Nat

def markFrom (place : Nat) : List Char → List Cell
  | [] => []
  | c :: l => (c, some place) :: markFrom (place + 1) l

def filledIn (value : List Char) : List Cell := value.map fun c => (c, none)

/-- `replaceMatches`, and the matches that are replaced. -/
def markMatches (pattern value : List Char) (dotted : Bool) : Nat → List Cell →
    List Cell × List (List Cell)
  | _, [] => ([], [])
  | skip + 1, _ :: l => markMatches pattern value dotted skip l
  | 0, x :: l =>
    if matchesAt pattern dotted ((x :: l).map Prod.fst) then
      let more := markMatches pattern value dotted (pattern.length - 1) l
      (filledIn value ++ more.1, (x :: l).take pattern.length :: more.2)
    else
      let more := markMatches pattern value dotted 0 l
      (x :: more.1, more.2)

section Marks

variable [Runtime]

/-- `replaceBraced` -/
def markBraced (snapshot : Record) : Nat → Nat → List Char → List Cell
  | 0, place, l => markFrom place l
  | fuel + 1, place, l => match l with
    | [] => []
    | '$' :: '{' :: rest => match takeBraced rest with
      | some (key, rest') =>
        (match substituted snapshot key with
          | some value => filledIn value
          | none => markFrom place ('$' :: '{' :: (key ++ ['}']))) ++
          markBraced snapshot fuel (place + (key.length + 3)) rest'
      | none => ('$', some place) :: markBraced snapshot fuel (place + 1) ('{' :: rest)
    | c :: rest => (c, some place) :: markBraced snapshot fuel (place + 1) rest

/-- The keys of the braced tokens that are replaced. -/
def replacedBraced (snapshot : Record) : Nat → List Char → List (List Char)
  | 0, _ => []
  | fuel + 1, l => match l with
    | [] => []
    | '$' :: '{' :: rest => match takeBraced rest with
      | some (key, rest') =>
        (if (substituted snapshot key).isSome then [key] else []) ++
          replacedBraced snapshot fuel rest'
      | none => replacedBraced snapshot fuel ('{' :: rest)
    | _ :: rest => replacedBraced snapshot fuel rest

/-- The text and the bare tokens replaced so far. -/
structure Marked where
  cells : List Cell
  tokens : List (List Char × List Cell) := []

/-- `replaceKey` -/
def markKey (snapshot : Record) (m : Marked) (key : String) : Marked :=
  match substituted snapshot key.toList with
  | none => m
  | some value =>
    let pattern := '$' :: key.toList
    if pattern <:+: m.cells.map Prod.fst then
      let r := markMatches pattern value (hasDottedSibling snapshot key.toList) 0 m.cells
      ⟨r.1, m.tokens ++ r.2.map fun cells => (key.toList, cells)⟩
    else m

def markedRun (snapshot : Record) (text : String) : Marked :=
  (sortedKeys snapshot).foldl (markKey snapshot)
    ⟨markBraced snapshot (text.toList.length + 1) 0 text.toList, []⟩

/-- A bare token of the template is replaced, one that stands there as a whole. -/
def ReplacesBare (snapshot : Record) (text : String) (key : List Char) : Prop :=
  ∃ place, (key, markFrom place ('$' :: key)) ∈ (markedRun snapshot text).tokens

/-- The value of the key is filled in for a token of the template. -/
def FillsIn (snapshot : Record) (text : String) (key : List Char) : Prop :=
  key ∈ replacedBraced snapshot (text.toList.length + 1) text.toList ∨
    ReplacesBare snapshot text key

end Marks

/-- The keys of the braced tokens, and the template without these tokens. -/
def bracedTokens (text : String) : List String × List Char :=
  scanBraced (text.toList.length + 1) text.toList

def isName : List Char → Bool
  | c :: rest => isKeyStart c && rest.all isKeyChar
  | [] => false

/-- A bare token `$key` with nothing behind it that could belong to the key. -/
def BareToken (l key : List Char) : Prop :=
  ∃ before after, l = before ++ ('$' :: key ++ after) ∧ isName key = true ∧
    after.head?.any isKeyChar = false

/-- The key stands in the template in braces, or outside of all braces as a bare token. -/
def Readable (text : String) (key : List Char) : Prop :=
  String.ofList key ∈ (bracedTokens text).1 ∨ BareToken (bracedTokens text).2 key

/-- `$key` stands in the template and a token of this key can end there. -/
def Replaceable [Runtime] (snapshot : Record) (text : String) (key : List Char) : Prop :=
  (substituted snapshot key).isSome = true ∧
    ∃ before after, text.toList = before ++ ('$' :: key ++ after) ∧
      endsToken (hasDottedSibling snapshot key) after = true

/-! ## What the scan reads -/

theorem dropWhile_append_of_not {p : Char → Bool} {x : Char} (h : p x = false) (a b : List Char) :
    (a ++ x :: b).dropWhile p = a.dropWhile p ++ x :: b := by
  induction a with
  | nil => simp [h]
  | cons c a ih =>
    cases hc : p c with
    | false => simp [hc]
    | true => simpa [hc] using ih

theorem takeWhile_of_head {p : Char → Bool} {key after : List Char} (hkey : key.all p = true)
    (hafter : after.head?.any p = false) : (key ++ after).takeWhile p = key := by
  induction key with
  | nil =>
    cases after with
    | nil => rfl
    | cons c after =>
      have hc : p c = false := by simpa using hafter
      simp [hc]
  | cons c key ih =>
    simp only [List.all_cons, Bool.and_eq_true] at hkey
    simp [hkey.1, ih hkey.2]

theorem BareToken.cons {l key : List Char} (c : Char) (h : BareToken l key) :
    BareToken (c :: l) key := by
  obtain ⟨before, after, rfl, hname, hend⟩ := h
  exact ⟨c :: before, after, rfl, hname, hend⟩

/-- The name behind a dollar is read up to the first character that cannot belong to it;
the tokens behind it are found where they stand. -/
theorem bareToken_dollar {c : Char} {rest key : List Char} (hc : isKeyStart c = true) :
    BareToken ('$' :: c :: rest) key ↔
      key = c :: rest.takeWhile isKeyChar ∨ BareToken (rest.dropWhile isKeyChar) key := by
  have hdollar : isKeyChar '$' = false := by decide
  constructor
  · rintro ⟨before, after, heq, hname, hend⟩
    cases before with
    | nil =>
      left
      cases key with
      | nil => cases hname
      | cons k key =>
        rw [List.nil_append, List.cons_append, List.cons_append, List.cons.injEq,
          List.cons.injEq] at heq
        obtain ⟨-, rfl, rfl⟩ := heq
        simp only [isName, Bool.and_eq_true] at hname
        rw [takeWhile_of_head hname.2 hend]
    | cons b before =>
      right
      cases before with
      | nil =>
        have hbad := (List.cons.inj (List.cons.inj heq).2).1
        rw [hbad] at hc
        exact absurd hc (by decide)
      | cons b' before =>
        have hrest : rest = before ++ ('$' :: (key ++ after)) := by
          simpa using (List.cons.inj (List.cons.inj heq).2).2
        rw [hrest, dropWhile_append_of_not hdollar]
        exact ⟨_, after, rfl, hname, hend⟩
  · rintro (rfl | h)
    · have hall : (rest.takeWhile isKeyChar).all isKeyChar = true := by
        rw [List.all_eq_true]
        exact fun x hx => List.mem_takeWhile_imp hx
      refine ⟨[], rest.dropWhile isKeyChar, by simp, by simp [isName, hc, hall], ?_⟩
      have hhead := List.head?_dropWhile_not isKeyChar rest
      cases hd : (rest.dropWhile isKeyChar).head? with
      | none => rfl
      | some x =>
        rw [hd] at hhead
        simpa using hhead
    · obtain ⟨before, after, heq, hname, hend⟩ := h
      refine ⟨'$' :: c :: (rest.takeWhile isKeyChar ++ before), after, ?_, hname, hend⟩
      rw [List.cons_append, List.cons_append, List.append_assoc, ← heq,
        List.takeWhile_append_dropWhile]

theorem mem_scanBare {fuel : Nat} {l : List Char} (hfuel : l.length < fuel) (key : List Char) :
    String.ofList key ∈ scanBare fuel l ↔ BareToken l key := by
  fun_induction scanBare fuel l with
  | case1 => omega
  | case2 fuel =>
    have hnone : ¬ BareToken [] key := by
      rintro ⟨before, after, heq, -⟩
      cases before <;> simp at heq
    simp [hnone]
  | case3 fuel c rest hc r ih =>
    have hlen : r.2.length ≤ rest.length := by
      show (rest.span isKeyChar).2.length ≤ _
      rw [List.span_eq_takeWhile_dropWhile]
      exact (List.dropWhile_suffix _).length_le
    simp only [List.length_cons] at hfuel
    rw [List.mem_cons, ih (by omega), bareToken_dollar hc]
    have hspan : r = (rest.takeWhile isKeyChar, rest.dropWhile isKeyChar) :=
      List.span_eq_takeWhile_dropWhile _ _
    rw [hspan, String.ofList_inj]
  | case4 fuel c rest hc ih =>
    simp only [List.length_cons] at hfuel ih
    rw [ih (by omega)]
    refine ⟨BareToken.cons '$', ?_⟩
    rintro ⟨before, after, heq, hname, hend⟩
    cases before with
    | nil =>
      cases key with
      | nil => cases hname
      | cons k key =>
        simp only [isName, Bool.and_eq_true] at hname
        have hk : c = k := by simpa using congrArg (fun l => l.tail.head?) heq
        rw [hk] at hc
        exact absurd hname.1 hc
    | cons b before => exact ⟨before, after, (List.cons.inj heq).2, hname, hend⟩
  | case5 fuel c rest hother ih =>
    simp only [List.length_cons] at hfuel
    rw [ih (by omega)]
    refine ⟨BareToken.cons c, ?_⟩
    rintro ⟨before, after, heq, hname, hend⟩
    cases before with
    | nil =>
      cases key with
      | nil => cases hname
      | cons k key =>
        obtain ⟨hc, hrest⟩ := List.cons.inj heq
        exact absurd hrest (hother k (key ++ after) hc)
    | cons b before => exact ⟨before, after, (List.cons.inj heq).2, hname, hend⟩

theorem mem_extractRefs (text : String) (key : List Char) :
    String.ofList key ∈ extractRefs text ↔ Readable text key := by
  unfold extractRefs Readable bracedTokens
  dsimp only
  rw [List.mem_dedup, List.mem_append, mem_scanBare (Nat.lt_succ_self _)]

/-! ## The places come from the template -/

theorem map_markFrom (place : Nat) (l : List Char) : (markFrom place l).map Prod.fst = l := by
  induction l generalizing place with
  | nil => rfl
  | cons c l ih => exact congrArg (c :: ·) (ih (place + 1))

/-- The character behind place `i` of the template follows, or a token began there. -/
def Continues (template : List Char) (i : Nat) (rest : List Cell) : Prop :=
  (∃ c, rest.head? = some (c, some (i + 1))) ∨ template[i + 1]? = none ∨ template[i + 1]? = some '$'

/-- Every character with a place is the one that stands there, and what is missing
behind it is a token from its dollar on. -/
def Rooted (template : List Char) : List Cell → Prop
  | [] => True
  | (_, none) :: rest => Rooted template rest
  | (c, some i) :: rest => template[i]? = some c ∧ Continues template i rest ∧ Rooted template rest

section Rooted

variable {template : List Char}

theorem Rooted.tail {x : Cell} {rest : List Cell} (h : Rooted template (x :: rest)) :
    Rooted template rest := by
  obtain ⟨c, i⟩ := x
  cases i with
  | none => exact h
  | some i => exact h.2.2

theorem Rooted.drop {cells : List Cell} (h : Rooted template cells) (n : Nat) :
    Rooted template (cells.drop n) := by
  induction n generalizing cells with
  | zero => exact h
  | succ n ih =>
    cases cells with
    | nil => exact h
    | cons x rest => exact ih h.tail

theorem rooted_filledIn (value : List Char) {rest : List Cell} (h : Rooted template rest) :
    Rooted template (filledIn value ++ rest) := by
  induction value with
  | nil => exact h
  | cons c value ih => exact ih

theorem markMatches_skip (pattern value : List Char) (dotted : Bool) (skip : Nat) (l : List Cell) :
    markMatches pattern value dotted skip l = markMatches pattern value dotted 0 (l.drop skip) := by
  induction l generalizing skip with
  | nil => cases skip <;> rfl
  | cons x l ih =>
    cases skip with
    | zero => rfl
    | succ skip =>
      rw [markMatches]
      exact ih skip

theorem Continues.markMatches {key value : List Char} {dotted : Bool} {i : Nat} {rest : List Cell}
    (h : Continues template i rest) (hrest : Rooted template rest) :
    Continues template i (DotRunner.markMatches ('$' :: key) value dotted 0 rest).1 := by
  rcases h with ⟨c, hhead⟩ | hend
  · cases rest with
    | nil => cases hhead
    | cons x rest =>
      obtain rfl : x = (c, some (i + 1)) := by simpa using hhead
      rw [DotRunner.markMatches]
      split
      · rename_i hmatch
        obtain ⟨after, heq, -⟩ := (matchesAt_iff _).mp hmatch
        have hc : c = '$' := (List.cons.inj heq).1
        exact .inr (.inr (hc ▸ hrest.1))
      · exact .inl ⟨c, rfl⟩
  · exact .inr hend

/-- Replacing the matches of a pattern that begins with a dollar keeps to the template. -/
theorem Rooted.markMatches {key value : List Char} {dotted : Bool} {cells : List Cell}
    (h : Rooted template cells) :
    Rooted template (DotRunner.markMatches ('$' :: key) value dotted 0 cells).1 := by
  obtain ⟨n, hn⟩ : ∃ n, cells.length ≤ n := ⟨_, Nat.le_refl _⟩
  induction n generalizing cells with
  | zero =>
    have hnil : cells = [] := List.eq_nil_of_length_eq_zero (by omega)
    subst hnil
    exact h
  | succ n ih =>
    cases cells with
    | nil => exact h
    | cons x rest =>
      simp only [List.length_cons] at hn
      rw [DotRunner.markMatches]
      split
      · rw [markMatches_skip]
        exact rooted_filledIn _ (ih (h.tail.drop _) (by simp only [List.length_drop]; omega))
      · have hrest := ih h.tail (by omega)
        obtain ⟨c, i⟩ := x
        cases i with
        | none => exact hrest
        | some i =>
          exact ⟨h.1, h.2.1.markMatches h.2.2, hrest⟩

theorem rooted_markFrom {place : Nat} {l rest : List Char} {cells : List Cell}
    (htemplate : template.drop place = l ++ rest)
    (hcells : Rooted template cells)
    (hfollows : (∃ c, cells.head? = some (c, some (place + l.length))) ∨ rest = [] ∨
      rest.head? = some '$') : Rooted template (markFrom place l ++ cells) := by
  induction l generalizing place with
  | nil => exact hcells
  | cons c l ih =>
    have hat : template[place]? = some c := by
      rw [← List.head?_drop, htemplate]
      rfl
    have hdrop : template.drop (place + 1) = l ++ rest := by
      rw [← List.tail_drop, htemplate]
      rfl
    have hlen : place + (c :: l).length = place + 1 + l.length := by
      simp only [List.length_cons]
      omega
    rw [hlen] at hfollows
    refine ⟨hat, ?_, ih hdrop hfollows⟩
    cases l with
    | cons d l => exact .inl ⟨d, rfl⟩
    | nil =>
      rcases hfollows with ⟨c', hhead⟩ | hrest | hrest
      · exact .inl ⟨c', hhead⟩
      · refine .inr (.inl ?_)
        rw [← List.head?_drop, hdrop, hrest]
        rfl
      · refine .inr (.inr ?_)
        rw [← List.head?_drop, hdrop]
        exact hrest

theorem endsToken_of_head {dotted : Bool} {rest : List Char}
    (h : ∀ c, rest.head? = some c → boundaryChar dotted c = false) :
    endsToken dotted rest = true := by
  cases rest with
  | nil => rfl
  | cons c rest => simp [endsToken, h c rfl]

/-- A token in a rooted text stands in the template, and ends there too. -/
theorem rooted_token {place : Nat} {l : List Char} {cells : List Cell} {dotted : Bool} (hl : l ≠ [])
    (h : Rooted template (markFrom place l ++ cells))
    (hend : endsToken dotted (cells.map Prod.fst) = true) :
    ∃ after, template.drop place = l ++ after ∧ endsToken dotted after = true := by
  induction l generalizing place with
  | nil => exact absurd rfl hl
  | cons c l ih =>
    obtain ⟨hat, hfollows, hrest⟩ := h
    have hhead : (template.drop (place + 1)).head? = template[place + 1]? := List.head?_drop
    have hdrop : template.drop place = c :: template.drop (place + 1) := by
      obtain ⟨hlt, rfl⟩ := List.getElem?_eq_some_iff.mp hat
      exact List.drop_eq_getElem_cons hlt
    rw [hdrop]
    cases l with
    | cons d l =>
      obtain ⟨after, heq, hafter⟩ := ih (by simp) hrest
      exact ⟨after, by rw [heq]; rfl, hafter⟩
    | nil =>
      refine ⟨template.drop (place + 1), rfl, endsToken_of_head fun x hx => ?_⟩
      rw [hhead] at hx
      rcases hfollows with ⟨c', hnext⟩ | hnone | hdollar
      · cases cells with
        | nil => cases hnext
        | cons y cells =>
          obtain rfl : y = (c', some (place + 1)) := Option.some.inj hnext
          have hsame : some c' = some x := hrest.1.symm.trans hx
          obtain rfl : c' = x := Option.some.inj hsame
          simpa [endsToken] using hend
      · rw [hnone] at hx
        cases hx
      · rw [hdollar] at hx
        obtain rfl : '$' = x := Option.some.inj hx
        cases dotted <;> decide

/-- What is replaced is a match somewhere in the text. -/
theorem markMatches_token {pattern value : List Char} {dotted : Bool} {cells m : List Cell}
    (h : m ∈ (markMatches pattern value dotted 0 cells).2) :
    ∃ n, m = (cells.drop n).take pattern.length ∧
      matchesAt pattern dotted ((cells.drop n).map Prod.fst) = true := by
  obtain ⟨len, hlen⟩ : ∃ len, cells.length ≤ len := ⟨_, Nat.le_refl _⟩
  induction len generalizing cells with
  | zero =>
    have hnil : cells = [] := List.eq_nil_of_length_eq_zero (by omega)
    subst hnil
    cases h
  | succ len ih =>
    cases cells with
    | nil => cases h
    | cons x rest =>
      simp only [List.length_cons] at hlen
      rw [markMatches] at h
      split at h
      · rename_i hmatch
        rcases List.mem_cons.mp h with rfl | h
        · exact ⟨0, rfl, hmatch⟩
        · rw [markMatches_skip] at h
          obtain ⟨n, hm, hmatch'⟩ := ih h (by simp only [List.length_drop]; omega)
          rw [List.drop_drop] at hm hmatch'
          exact ⟨pattern.length - 1 + n + 1, hm, hmatch'⟩
      · obtain ⟨n, hm, hmatch'⟩ := ih h (by omega)
        exact ⟨n + 1, hm, hmatch'⟩

end Rooted

section Run

variable [Runtime] {snapshot : Record} {template : List Char}

omit [Runtime] in
theorem takeBraced_some {rest key rest' : List Char} (h : takeBraced rest = some (key, rest')) :
    rest = key ++ '}' :: rest' := by
  have hspan := List.takeWhile_append_dropWhile (p := (· != '}')) (l := rest)
  unfold takeBraced at h
  rw [List.span_eq_takeWhile_dropWhile] at h
  split at h
  · cases h
  · rename_i key' rest'' _ heq
    obtain ⟨hkey, hrest⟩ := Prod.mk.inj heq
    obtain ⟨rfl, rfl⟩ := Prod.mk.inj (Option.some.inj h)
    rw [← hspan, hkey, hrest]
  · cases h

/-- What the text with the braced tokens replaced begins with. -/
theorem head_markBraced (fuel place : Nat) (l : List Char) :
    (∃ c, (markBraced snapshot fuel place l).head? = some (c, some place)) ∨ l = [] ∨
      l.head? = some '$' := by
  cases fuel with
  | zero =>
    cases l with
    | nil => exact .inr (.inl rfl)
    | cons c l => exact .inl ⟨c, rfl⟩
  | succ fuel =>
    unfold markBraced
    split
    · exact .inr (.inl rfl)
    · exact .inr (.inr rfl)
    · exact .inl ⟨_, rfl⟩

theorem rooted_markBraced {fuel place : Nat} {l : List Char} (h : template.drop place = l) :
    Rooted template (markBraced snapshot fuel place l) := by
  fun_induction markBraced snapshot fuel place l with
  | case1 place l =>
    have hroot : Rooted template (markFrom place l ++ []) :=
      rooted_markFrom (by rw [h, List.append_nil]) trivial (.inr (.inl rfl))
    rwa [List.append_nil] at hroot
  | case2 => trivial
  | case3 fuel place rest key rest' htake ih =>
    have htext : template.drop place = '$' :: '{' :: (key ++ ['}']) ++ rest' := by
      rw [h, takeBraced_some htake]
      simp
    have hlen : place + ('$' :: '{' :: (key ++ ['}'])).length = place + (key.length + 3) := by
      simp
    have hdrop : template.drop (place + (key.length + 3)) = rest' := by
      rw [← hlen, ← List.drop_drop, htext, List.drop_left]
    cases substituted snapshot key with
    | some value => exact rooted_filledIn value (ih hdrop)
    | none =>
      refine rooted_markFrom htext (ih hdrop) ?_
      rw [hlen]
      exact head_markBraced _ _ _
  | case4 fuel place rest htake ih =>
    have hdrop : template.drop (place + 1) = '{' :: rest := by
      rw [← List.tail_drop, h]
      rfl
    exact rooted_markFrom (l := ['$']) h (ih hdrop) (head_markBraced _ _ _)
  | case5 fuel place c rest hother ih =>
    have hdrop : template.drop (place + 1) = rest := by
      rw [← List.tail_drop, h]
      rfl
    exact rooted_markFrom (l := [c]) h (ih hdrop) (head_markBraced _ _ _)

/-- The tokens replaced so far stand in the template. -/
def Sourced (snapshot : Record) (text : String) (m : Marked) : Prop :=
  Rooted text.toList m.cells ∧ ∀ key place, (key, markFrom place ('$' :: key)) ∈ m.tokens →
    Replaceable snapshot text key

theorem Sourced.markKey {text : String} {m : Marked} (h : Sourced snapshot text m) (key : String) :
    Sourced snapshot text (DotRunner.markKey snapshot m key) := by
  unfold DotRunner.markKey
  cases hsub : substituted snapshot key.toList with
  | none => exact h
  | some value =>
    dsimp only
    split
    · refine ⟨h.1.markMatches, fun k place hmem => ?_⟩
      rcases List.mem_append.mp hmem with hmem | hmem
      · exact h.2 k place hmem
      · obtain ⟨cells, hcells, heq⟩ := List.mem_map.mp hmem
        obtain ⟨rfl, rfl⟩ := Prod.mk.inj heq
        obtain ⟨n, htake, hmatch⟩ := markMatches_token hcells
        obtain ⟨after, hafter, hend⟩ := (matchesAt_iff _).mp hmatch
        have hsplit : m.cells.drop n = markFrom place ('$' :: key.toList) ++
            (m.cells.drop n).drop ('$' :: key.toList).length := by
          rw [htake, List.take_append_drop]
        have hroot := h.1.drop n
        rw [hsplit] at hroot hafter
        rw [List.map_append, map_markFrom] at hafter
        rw [← List.append_cancel_left hafter] at hend
        obtain ⟨rest, hrest, hends⟩ := rooted_token (by simp) hroot hend
        refine ⟨by rw [hsub]; rfl, text.toList.take place, rest, ?_, hends⟩
        rw [← hrest, List.take_append_drop]
    · exact h

/-- A bare token of the template that is replaced stands there, and ends there. -/
theorem replaceable_of_replaced {text : String} {key : List Char}
    (h : ReplacesBare snapshot text key) : Replaceable snapshot text key := by
  have hrun : ∀ (keys : List String) (m : Marked), Sourced snapshot text m →
      Sourced snapshot text (keys.foldl (DotRunner.markKey snapshot) m) := by
    intro keys
    induction keys with
    | nil => exact fun _ hm => hm
    | cons key keys ih => exact fun m hm => ih _ (hm.markKey key)
  obtain ⟨place, hmem⟩ := h
  have hstart : Sourced snapshot text
      ⟨markBraced snapshot (text.toList.length + 1) 0 text.toList, []⟩ :=
    ⟨rooted_markBraced rfl, fun _ _ hnone => absurd hnone List.not_mem_nil⟩
  exact (hrun _ _ hstart).2 key place hmem

/-- The braced tokens that are replaced are read by the scan. -/
theorem replacedBraced_read {fuel : Nat} {l key : List Char}
    (h : key ∈ replacedBraced snapshot fuel l) : String.ofList key ∈ (scanBraced fuel l).1 := by
  fun_induction replacedBraced snapshot fuel l with
  | case1 => cases h
  | case2 => cases h
  | case3 fuel rest key' rest' htake ih =>
    simp only [scanBraced, htake]
    rcases List.mem_append.mp h with h | h
    · split at h
      · obtain rfl : key = key' := by simpa using h
        exact List.mem_cons_self
      · cases h
    · exact List.mem_cons_of_mem _ (ih h)
  | case4 fuel rest htake ih =>
    simp only [scanBraced, htake]
    exact ih h
  | case5 fuel c rest hother ih =>
    rw [scanBraced]
    · exact ih h
    · exact hother

/-- The scan covers a substitution exactly as long as it can read the key of each bare
token that is replaced.  Such a token stands in the template where it can end, so it
is enough that every key is readable that stands there so; then no node runs that
fills in a key of a failed producer. -/
theorem eager_scan_covers (snapshot : Record) (text : String) :
    ((∀ key, FillsIn snapshot text key → String.ofList key ∈ extractRefs text) ↔
      ∀ key, ReplacesBare snapshot text key → Readable text key) ∧
    (∀ key, ReplacesBare snapshot text key → Replaceable snapshot text key) ∧
    ((∀ key, Replaceable snapshot text key → Readable text key) →
      ∀ key, FillsIn snapshot text key → String.ofList key ∈ extractRefs text ∧
        ∀ (ord : SetOrder) (node : Node) (failed : Dict String String) (attrName : String),
          attrName ∈ substitutableAttrs → (attrText node attrName).toStr = text →
          (attrText node attrName).truthy = true → String.ofList key ∈ failed.keys →
          (checkNodeSkip ord node failed).isSome = true) := by
  have hcovers : (∀ key, FillsIn snapshot text key → String.ofList key ∈ extractRefs text) ↔
      ∀ key, ReplacesBare snapshot text key → Readable text key := by
    constructor
    · intro h key hbare
      exact (mem_extractRefs text key).mp (h key (.inr hbare))
    · rintro h key (hbraced | hbare)
      · exact (mem_extractRefs text key).mpr (.inl (replacedBraced_read hbraced))
      · exact (mem_extractRefs text key).mpr (h key hbare)
  refine ⟨hcovers, fun key => replaceable_of_replaced, fun h key hfills => ?_⟩
  have hread := hcovers.mpr (fun key hbare => h key (replaceable_of_replaced hbare)) key hfills
  refine ⟨hread, fun ord node failed attrName hattr htext htruthy hfailed => ?_⟩
  refine checkNodeSkip_isSome_iff.mpr ⟨String.ofList key, ?_, hfailed⟩
  rw [extractNodeRefs, List.mem_dedup, List.mem_flatMap]
  refine ⟨attrName, hattr, ?_⟩
  dsimp only
  rw [if_pos htruthy, htext]
  exact hread

end Run

section Demo

open Py.Ascii

def named : Record := Dict.ofList [("foo", .str "report")]

/-- The key in front of a dot is replaced, and the scan reads on behind the dot. -/
theorem dotted_key_missed : ¬ ∀ (snapshot : Record) (text : String) (key : List Char),
    FillsIn snapshot text key → String.ofList key ∈ extractRefs text := by
  intro h
  have htoken : ((markedRun named "$foo.txt").tokens) =
      [("foo".toList, markFrom 0 ('$' :: "foo".toList))] := by rfl
  have hfills : FillsIn named "$foo.txt" "foo".toList :=
    .inr ⟨0, by rw [htoken]; exact List.mem_cons_self⟩
  exact absurd (h named "$foo.txt" "foo".toList hfills) (by decide +kernel)

end Demo

end DotRunner
