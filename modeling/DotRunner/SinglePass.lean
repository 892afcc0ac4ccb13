import DotRunner.Substitution
import DotRunner.Py.Ascii

/-!
# One pass over a template

What substitution is meant to be: the tokens are read off the template once, and each
is replaced where it stands.  The three phases come to the same where no token can be
read in the text between them that the template does not have.
-/

namespace DotRunner

open Py

/-- A character of the template, or a `${key}` token that has a value. -/
inductive Atom where
  | char (c : Char)
  | ref (key value : List Char)

inductive Piece where
  | lit (c : Char)
  /-- `$$` -/
  | esc
  /-- `$$`, the second half of which begins a `${key}` token that has a value -/
  | escRef (key value : List Char)
  | braced (key value : List Char)
  | bare (key value : List Char)

namespace Atom

def text : Atom → List Char
  | char c => [c]
  | ref _ value => value

/-- The characters in front of the first braced token. -/
def plain : List Atom → List Char
  | char c :: as => c :: plain as
  | _ => []

end Atom

namespace Piece

/-- A piece while the bare tokens of the keys `done` are replaced, and no others. -/
def text (done : List Char → Bool) : Piece → List Char
  | lit c => [c]
  | esc => ['$', '$']
  | escRef _ value => '$' :: value
  | braced _ value => value
  | bare key value => if done key then value else '$' :: key

/-- What a piece stands for. -/
def result : Piece → List Char
  | lit c => [c]
  | esc => ['$']
  | escRef key _ => '$' :: '{' :: (key ++ ['}'])
  | braced _ value => value
  | bare _ value => value

def isEsc : Piece → Bool
  | esc => true
  | _ => false

end Piece

def render (done : List Char → Bool) (ps : List Piece) : List Char := ps.flatMap (Piece.text done)

section Reading

variable (lookup : List Char → Option (List Char)) (dotted : List Char → Bool)

/-- The braced tokens of a template, at most `fuel` characters on. -/
def atoms : Nat → List Char → List Atom
  | 0, l => l.map .char
  | fuel + 1, l => match l with
    | [] => []
    | '$' :: '{' :: rest => match takeBraced rest with
      | some (key, rest') =>
        (match lookup key with
          | some value => [.ref key value]
          | none => ('$' :: '{' :: (key ++ ['}'])).map .char) ++ atoms fuel rest'
      | none => .char '$' :: atoms fuel ('{' :: rest)
    | c :: rest => .char c :: atoms fuel rest

/-- The length of the longest key that a bare token at this place can name. -/
def bareLength (rest : List Char) : Option Nat :=
  (List.range (rest.length + 1)).reverse.find? fun n =>
    (lookup (rest.take n)).isSome && endsToken (dotted (rest.take n)) (rest.drop n)

/-- The pieces of a template, once `skip` atoms of the last one are passed. -/
def pieces : Nat → List Atom → List Piece
  | _, [] => []
  | skip + 1, _ :: as => pieces skip as
  | 0, .ref key value :: as => .braced key value :: pieces 0 as
  | 0, .char c :: as =>
    if c = '$' then
      match as with
      | .char '$' :: _ => .esc :: pieces 1 as
      | .ref key value :: _ => .escRef key value :: pieces 1 as
      | _ =>
        match bareLength lookup dotted (Atom.plain as) with
        | some n =>
          .bare ((Atom.plain as).take n) ((lookup ((Atom.plain as).take n)).getD []) :: pieces n as
        | none => .lit c :: pieces 0 as
    else .lit c :: pieces 0 as

end Reading

/-- The tokens of `key` that can be read are those among the pieces. -/
def ReadsTokens (done : List Char → Bool) (dotted : Bool) (key value : List Char)
    (ps : List Piece) : Prop :=
  ∀ before after, (render done ps = before ++ ('$' :: key ++ after) ∧ endsToken dotted after = true) ↔
    ∃ ps₁ ps₂, ps = ps₁ ++ .bare key value :: ps₂ ∧
      before = render done ps₁ ∧ after = render done ps₂

section SinglePass

variable [Runtime]

def templatePieces (snapshot : Record) (text : String) : List Piece :=
  pieces (substituted snapshot) (hasDottedSibling snapshot) 0
    (atoms (substituted snapshot) (text.toList.length + 1) text.toList)

/-- Every token of the template replaced where it stands. -/
def singlePass (snapshot : Record) (text : String) : String :=
  String.ofList ((templatePieces snapshot text).flatMap Piece.result)

/-- Between the phases nothing can be read but what the template has. -/
structure ReadsOnce (snapshot : Record) (ps : List Piece) : Prop where
  /-- no escape is in front of the brace of a token that has a value -/
  escapes : ∀ key value, Piece.escRef key value ∉ ps
  /-- with the bare tokens of longer keys replaced, and of some equally long ones, the
  tokens of a key are those of the template -/
  tokens : ∀ key value, substituted snapshot key = some value → ∀ done : List Char → Bool,
    (∀ k, (substituted snapshot k).isSome → key.length < k.length → done k = true) →
    (∀ k, done k = true → key.length ≤ k.length ∧ k ≠ key) →
    ReadsTokens done (hasDottedSibling snapshot key) key value ps
  /-- with all values in, and the escapes out, no two dollars are next to each other -/
  dollars : ¬ ['$', '$'] <:+: render (fun _ => true) (ps.filter fun p => !p.isEsc)

end SinglePass

/-! ## The braced tokens -/

theorem flatMap_char (l : List Char) : (l.map Atom.char).flatMap Atom.text = l := by
  induction l with
  | nil => rfl
  | cons c l ih => exact congrArg (c :: ·) ih

theorem replaceBraced_eq [Runtime] (snapshot : Record) (fuel : Nat) (l : List Char) :
    replaceBraced snapshot fuel l = (atoms (substituted snapshot) fuel l).flatMap Atom.text := by
  fun_induction replaceBraced snapshot fuel l with
  | case1 l => exact (flatMap_char l).symm
  | case2 => rfl
  | case3 fuel rest key rest' h ih =>
    simp only [atoms, h, List.flatMap_append, ← ih]
    cases substituted snapshot key with
    | none => rw [flatMap_char]; rfl
    | some value => simp [Atom.text]
  | case4 fuel rest h ih =>
    simp only [atoms, h, List.flatMap_cons, ← ih]
    rfl
  | case5 fuel c rest hother ih =>
    rw [atoms]
    · rw [List.flatMap_cons, ← ih]
      rfl
    · exact hother

theorem drop_plain (as : List Atom) (n : Nat) (h : n ≤ (Atom.plain as).length) :
    as.flatMap Atom.text = (Atom.plain as).take n ++ (as.drop n).flatMap Atom.text := by
  induction n generalizing as with
  | zero => rfl
  | succ n ih =>
    cases as with
    | nil => simp [Atom.plain] at h
    | cons a as =>
      cases a with
      | ref key value => simp [Atom.plain] at h
      | char c =>
        simp only [Atom.plain, List.length_cons] at h
        simp only [List.flatMap_cons, Atom.text, Atom.plain, List.take_succ_cons, List.drop_succ_cons]
        rw [ih as (by omega)]
        rfl

section Pieces

variable {lookup : List Char → Option (List Char)} {dotted : List Char → Bool}

theorem bareLength_le {rest : List Char} {n : Nat} (h : bareLength lookup dotted rest = some n) :
    n ≤ rest.length := by
  have hmem := List.mem_of_find?_eq_some h
  simp only [List.mem_reverse, List.mem_range] at hmem
  omega

theorem bareLength_some {rest : List Char} {n : Nat} (h : bareLength lookup dotted rest = some n) :
    (lookup (rest.take n)).isSome = true := by
  have hfound := List.find?_some h
  simp only [Bool.and_eq_true] at hfound
  exact hfound.1

/-- Before any bare token is replaced the pieces are the text with the braced tokens
replaced. -/
theorem render_pieces (skip : Nat) (as : List Atom) :
    render (fun _ => false) (pieces lookup dotted skip as) = (as.drop skip).flatMap Atom.text := by
  fun_induction pieces lookup dotted skip as with
  | case1 => simp [render]
  | case2 skip a as ih => exact ih
  | case3 key value as ih => exact congrArg (value ++ ·) ih
  | case4 tail ih =>
    show '$' :: '$' :: render _ (pieces lookup dotted 0 tail) = _
    exact congrArg (fun l => '$' :: '$' :: l) ih
  | case5 key value tail ih =>
    show '$' :: (value ++ render _ (pieces lookup dotted 0 tail)) = _
    exact congrArg (fun l => '$' :: (value ++ l)) ih
  | case6 as n hbare _ _ ih =>
    rw [hbare]
    show ('$' :: (Atom.plain as).take n) ++ render _ (pieces lookup dotted n as) = _
    rw [ih, List.cons_append, ← drop_plain as n (bareLength_le hbare)]
    rfl
  | case7 as hbare _ _ ih =>
    rw [hbare]
    exact congrArg ('$' :: ·) ih
  | case8 c as _ ih => exact congrArg (c :: ·) ih

/-- A bare token names a key that has a value, and stands for it. -/
theorem bare_value {skip : Nat} {as : List Atom} {key value : List Char}
    (h : .bare key value ∈ pieces lookup dotted skip as) : lookup key = some value := by
  fun_induction pieces lookup dotted skip as with
  | case1 => cases h
  | case2 skip a as ih => exact ih h
  | case3 _ _ as ih => exact ih (by simpa using h)
  | case4 tail ih => exact ih (by simpa using h)
  | case5 _ _ tail ih => exact ih (by simpa using h)
  | case6 as n hbare _ _ ih =>
    rw [hbare] at h
    rcases List.mem_cons.mp h with heq | hrest
    · cases heq
      obtain ⟨v, hv⟩ := Option.isSome_iff_exists.mp (bareLength_some hbare)
      simp [hv]
    · exact ih hrest
  | case7 as hbare _ _ ih =>
    rw [hbare] at h
    exact ih (by simpa using h)
  | case8 c as _ ih => exact ih (by simpa using h)

end Pieces

/-! ## The bare tokens of one key -/

section Matches

variable {pattern value : List Char} {dotted : Bool}

theorem replaceMatches_skip (skip : Nat) (l : List Char) :
    replaceMatches pattern value dotted skip l =
      replaceMatches pattern value dotted 0 (l.drop skip) := by
  induction l generalizing skip with
  | nil => cases skip <;> rfl
  | cons c l ih =>
    cases skip with
    | zero => rfl
    | succ skip =>
      rw [replaceMatches]
      exact ih skip

theorem replaceMatches_match {c : Char} {key rest : List Char} (hpattern : pattern = c :: key)
    (h : endsToken dotted rest = true) : replaceMatches pattern value dotted 0 (pattern ++ rest) =
      value ++ replaceMatches pattern value dotted 0 rest := by
  subst hpattern
  have hmatch : matchesAt (c :: key) dotted (c :: (key ++ rest)) = true := by
    simp [matchesAt, h]
  rw [List.cons_append, replaceMatches, if_pos hmatch, replaceMatches_skip]
  simp

/-- Where no match begins the text stays. -/
theorem replaceMatches_literal {u rest : List Char}
    (h : ∀ a s, u = a ++ s → s ≠ [] → matchesAt pattern dotted (s ++ rest) = false) :
    replaceMatches pattern value dotted 0 (u ++ rest) =
      u ++ replaceMatches pattern value dotted 0 rest := by
  induction u with
  | nil => rfl
  | cons c u ih =>
    have hfirst := h [] (c :: u) rfl (by simp)
    rw [List.cons_append] at hfirst
    rw [List.cons_append, replaceMatches, if_neg (by simp [hfirst]), ih]
    · rfl
    · intro a s heq hs
      exact h (c :: a) s (by rw [heq]; rfl) hs

theorem matchesAt_iff (l : List Char) : matchesAt pattern dotted l = true ↔
    ∃ rest, l = pattern ++ rest ∧ endsToken dotted rest = true := by
  unfold matchesAt
  rw [Bool.and_eq_true, List.isPrefixOf_iff_prefix]
  constructor
  · rintro ⟨⟨rest, rfl⟩, hend⟩
    exact ⟨rest, rfl, by simpa using hend⟩
  · rintro ⟨rest, rfl, hend⟩
    exact ⟨⟨rest, rfl⟩, by simpa using hend⟩

/-- A pattern that does not occur is not replaced. -/
theorem replaceMatches_absent {text : List Char} (h : ¬ pattern <:+: text) :
    replaceMatches pattern value dotted 0 text = text := by
  have hliteral : replaceMatches pattern value dotted 0 (text ++ []) =
      text ++ replaceMatches pattern value dotted 0 [] := by
    refine replaceMatches_literal fun a s heq _ => ?_
    by_contra hmatch
    obtain ⟨rest, hrest, -⟩ := (matchesAt_iff (s ++ [])).mp (by simpa using hmatch)
    rw [List.append_nil] at hrest
    exact h ⟨a, rest, by rw [heq, hrest, List.append_assoc]⟩
  simpa [replaceMatches] using hliteral

end Matches

theorem render_cons (done : List Char → Bool) (p : Piece) (ps : List Piece) :
    render done (p :: ps) = p.text done ++ render done ps := rfl

theorem render_append (done : List Char → Bool) (ps qs : List Piece) :
    render done (ps ++ qs) = render done ps ++ render done qs := List.flatMap_append

theorem render_congr {done done' : List Char → Bool} {ps : List Piece}
    (h : ∀ key value, .bare key value ∈ ps → done key = done' key) :
    render done ps = render done' ps := by
  refine List.flatMap_congr fun p hp => ?_
  cases p with
  | bare key value =>
    show (if done key then value else '$' :: key) = if done' key then value else '$' :: key
    rw [h key value hp]
  | _ => rfl

section Tokens

variable {done : List Char → Bool} {dotted : Bool} {key value : List Char} {ps : List Piece}

/-- No token of `key` begins within another piece. -/
theorem no_match_within (h : ReadsTokens done dotted key value ps) (hdone : done key = false)
    {ps₁ rest : List Piece} {p : Piece} (hps : ps = ps₁ ++ p :: rest) (hp : p ≠ .bare key value)
    {a s : List Char} (htext : p.text done = a ++ s) (hs : s ≠ []) :
    matchesAt ('$' :: key) dotted (s ++ render done rest) = false := by
  by_contra hmatch
  obtain ⟨after, hafter, hend⟩ := (matchesAt_iff _).mp (by simpa using hmatch)
  have hrender : render done ps = (render done ps₁ ++ a) ++ ('$' :: key ++ after) := by
    rw [hps, render_append, render_cons, htext, ← hafter]
    simp
  obtain ⟨qs₁, qs₂, hq, hbefore, -⟩ := (h _ _).mp ⟨hrender, hend⟩
  have hlen : (render done ps₁).length + a.length = (render done qs₁).length := by
    rw [← hbefore, List.length_append]
  have hslen : 0 < s.length := List.length_pos_iff.mpr hs
  have htlen : (p.text done).length = a.length + s.length := by rw [htext, List.length_append]
  rw [hps] at hq
  rcases List.append_eq_append_iff.mp hq with ⟨as, hqs, has⟩ | ⟨bs, hpre, hbs⟩
  · cases as with
    | nil => exact hp (List.cons.inj has).1
    | cons p' as =>
      obtain ⟨rfl, -⟩ := List.cons.inj has
      rw [hqs, render_append, render_cons] at hlen
      simp only [List.length_append] at hlen
      omega
  · cases bs with
    | nil => exact hp (List.cons.inj hbs).1.symm
    | cons p' bs =>
      obtain ⟨rfl, -⟩ := List.cons.inj hbs
      rw [hpre, render_append, render_cons] at hlen
      simp only [Piece.text, hdone, List.length_append, List.length_cons, Bool.false_eq_true,
        if_false] at hlen
      omega

/-- Where the tokens of a key are those of the template, its step replaces just them. -/
theorem replaceMatches_render (h : ReadsTokens done dotted key value ps) (hdone : done key = false)
    (hvalue : ∀ v, .bare key v ∈ ps → v = value) {ps₁ ps₂ : List Piece} (hps : ps = ps₁ ++ ps₂) :
    replaceMatches ('$' :: key) value dotted 0 (render done ps₂) =
      render (fun k => done k || k == key) ps₂ := by
  induction ps₂ generalizing ps₁ with
  | nil => rfl
  | cons p rest ih =>
    have hsplit : ps = (ps₁ ++ [p]) ++ rest := by
      rw [hps]
      simp
    have hrest := ih hsplit
    rw [render_cons, render_cons, ← hrest]
    by_cases hp : p = .bare key value
    · subst hp
      have hend := ((h _ _).mpr ⟨ps₁, rest, hps, rfl, rfl⟩).2
      have htoken : (Piece.bare key value).text done = '$' :: key := by simp [Piece.text, hdone]
      have hreplaced : (Piece.bare key value).text (fun k => done k || k == key) = value := by
        simp [Piece.text]
      rw [htoken, hreplaced]
      exact replaceMatches_match rfl hend
    · have hsame : p.text (fun k => done k || k == key) = p.text done := by
        cases p with
        | bare k v =>
          have hk : k ≠ key := by
            intro he
            subst he
            have hv := hvalue v (by rw [hps]; simp)
            exact hp (by rw [hv])
          simp [Piece.text, hk]
        | _ => rfl
      rw [hsame]
      exact replaceMatches_literal fun a s htext hs => no_match_within h hdone hps hp htext hs

end Tokens

/-! ## The keys one after the other -/

/-- The keys in front of a key in the list that is gone through. -/
def doneBy (keys : List String) (k : List Char) : Bool := decide (String.ofList k ∈ keys)

section Keys

variable [Runtime] {snapshot : Record}

theorem mem_keys_of_substituted {k : List Char} (h : (substituted snapshot k).isSome = true) :
    String.ofList k ∈ snapshot.keys := by
  unfold substituted at h
  cases hget : snapshot.get? (String.ofList k) with
  | none => simp [hget] at h
  | some v => exact Dict.mem_keys_of_get? snapshot hget

omit [Runtime] in
theorem mem_sortedKeys {key : String} : key ∈ sortedKeys snapshot ↔ key ∈ snapshot.keys :=
  List.mem_insertionSort _

omit [Runtime] in
theorem sortedKeys_pairwise : (sortedKeys snapshot).Pairwise fun a b => b.length ≤ a.length :=
  haveI : Std.Total fun a b : String => b.length ≤ a.length := ⟨fun _ _ => Nat.le_total _ _⟩
  haveI : IsTrans String fun a b => b.length ≤ a.length := ⟨fun _ _ _ h h' => Nat.le_trans h' h⟩
  List.pairwise_insertionSort _ _

omit [Runtime] in
theorem sortedKeys_nodup : (sortedKeys snapshot).Nodup :=
  (List.perm_insertionSort _ _).nodup_iff.mpr snapshot.nodup

theorem replaceKey_eq {key : String} {value : List Char} (text : List Char)
    (h : substituted snapshot key.toList = some value) : replaceKey snapshot text key =
      replaceMatches ('$' :: key.toList) value (hasDottedSibling snapshot key.toList) 0 text := by
  unfold replaceKey
  rw [h]
  dsimp only
  split
  · rfl
  · rename_i habsent
    exact (replaceMatches_absent habsent).symm

/-- One key is replaced in the pieces that name it. -/
theorem replaceKey_render {ps : List Piece} (h : ReadsOnce snapshot ps)
    (hvalue : ∀ key value, .bare key value ∈ ps → substituted snapshot key = some value)
    {before after : List String} {key : String} (hkeys : sortedKeys snapshot = before ++ key :: after) :
    replaceKey snapshot (render (doneBy before) ps) key =
      render (doneBy (before ++ [key])) ps := by
  cases hsub : substituted snapshot key.toList with
  | none =>
    have hsame : replaceKey snapshot (render (doneBy before) ps) key = render (doneBy before) ps := by
      unfold replaceKey
      rw [hsub]
    rw [hsame]
    refine render_congr fun k v hmem => ?_
    have hk : String.ofList k ≠ key := by
      rintro rfl
      rw [String.toList_ofList, hvalue k v hmem] at hsub
      cases hsub
    simp [doneBy, hk]
  | some value =>
    have hsorted := @sortedKeys_pairwise snapshot
    have hnodup := @sortedKeys_nodup snapshot
    rw [hkeys] at hsorted hnodup
    have hlonger : ∀ k, (substituted snapshot k).isSome = true → key.toList.length < k.length →
        doneBy before k = true := by
      intro k hk hlen
      have hmem := mem_sortedKeys.mpr (mem_keys_of_substituted hk)
      rw [hkeys, List.mem_append, List.mem_cons] at hmem
      rcases hmem with hmem | heq | hmem
      · simpa [doneBy] using hmem
      · rw [← heq] at hlen
        simp at hlen
      · have hle := (List.pairwise_cons.mp (List.pairwise_append.mp hsorted).2.1).1 _ hmem
        simp only [String.length_ofList] at hle
        rw [String.length_toList] at hlen
        omega
    have hothers : ∀ k, doneBy before k = true → key.toList.length ≤ k.length ∧ k ≠ key.toList := by
      intro k hk
      have hmem : String.ofList k ∈ before := by simpa [doneBy] using hk
      have hle := (List.pairwise_append.mp hsorted).2.2 _ hmem key List.mem_cons_self
      refine ⟨by rw [String.length_toList]; simpa using hle, ?_⟩
      rintro rfl
      rw [String.ofList_toList] at hmem
      exact (List.disjoint_of_nodup_append hnodup) hmem List.mem_cons_self
    have hdone : doneBy before key.toList = false := by
      by_contra hne
      exact (hothers key.toList (by simpa using hne)).2 rfl
    rw [replaceKey_eq _ hsub]
    have hstep := replaceMatches_render (h.tokens _ _ hsub _ hlonger hothers) hdone
      (fun v hmem => by
        have hv := hvalue _ v hmem
        rw [hsub] at hv
        exact (Option.some.inj hv).symm) (List.nil_append _).symm
    rw [hstep]
    refine render_congr fun k v _ => ?_
    have hiff : (k == key.toList) = decide (String.ofList k = key) := by
      by_cases hk : k = key.toList
      · simp [hk]
      · have hk' : String.ofList k ≠ key := by
          rintro rfl
          exact hk (by simp)
        simp [hk, hk']
    rw [hiff]
    simp [doneBy]

/-- The loop over the keys replaces every bare token, and nothing else. -/
theorem foldl_replaceKey {ps : List Piece} (h : ReadsOnce snapshot ps)
    (hvalue : ∀ key value, .bare key value ∈ ps → substituted snapshot key = some value)
    {before after : List String} (hkeys : sortedKeys snapshot = before ++ after) :
    after.foldl (replaceKey snapshot) (render (doneBy before) ps) = render (fun _ => true) ps := by
  induction after generalizing before with
  | nil =>
    refine render_congr fun k v hmem => ?_
    have hk := mem_sortedKeys.mpr (mem_keys_of_substituted (by rw [hvalue k v hmem]; rfl))
    rw [hkeys, List.append_nil] at hk
    simpa [doneBy] using hk
  | cons key after ih =>
    rw [List.foldl_cons, replaceKey_render h hvalue hkeys]
    exact ih (by rw [hkeys]; simp)

end Keys

/-! ## The escapes -/

/-- Characters, and the escapes between them. -/
def withEscapes (escape : List Char) (l : List (Option Char)) : List Char :=
  l.flatMap fun x => match x with
    | some c => [c]
    | none => escape

theorem collapse_cons {c : Char} (l : List Char) (h : c ≠ '$') : collapse (c :: l) = c :: collapse l := by
  rw [collapse]
  exact fun l' hc => absurd hc h

theorem collapse_dollar {c : Char} (l : List Char) (h : c ≠ '$') :
    collapse ('$' :: c :: l) = '$' :: c :: collapse l := by
  rw [collapse, collapse_cons l h]
  exact fun l' _ hl => absurd (List.cons.inj hl).1 h

/-- Where the dollars besides the escapes are apart, every pair that is found makes up
for an escape; the same with one dollar in front. -/
theorem collapse_escapes (l : List (Option Char)) :
    (¬ ['$', '$'] <:+: withEscapes [] l →
      collapse (withEscapes ['$', '$'] l) = withEscapes ['$'] l) ∧
    (¬ ['$', '$'] <:+: '$' :: withEscapes [] l →
      collapse ('$' :: withEscapes ['$', '$'] l) = '$' :: withEscapes ['$'] l) := by
  induction l with
  | nil => exact ⟨fun _ => rfl, fun _ => rfl⟩
  | cons x l ih =>
    cases x with
    | none =>
      refine ⟨fun h => congrArg ('$' :: ·) (ih.1 h), fun h => ?_⟩
      show '$' :: collapse ('$' :: withEscapes ['$', '$'] l) = _
      rw [ih.2 h]
      rfl
    | some c =>
      have hcons : ∀ e, withEscapes e (some c :: l) = c :: withEscapes e l := fun _ => rfl
      rw [hcons, hcons, hcons]
      by_cases hc : c = '$'
      · subst hc
        refine ⟨ih.2, fun h => absurd ?_ h⟩
        exact ⟨[], withEscapes [] l, rfl⟩
      · have hrest : ∀ {u}, ¬ ['$', '$'] <:+: u ++ c :: withEscapes [] l →
            ¬ ['$', '$'] <:+: withEscapes [] l :=
          fun {u} h hpart => h (hpart.trans ⟨u ++ [c], [], by simp⟩)
        refine ⟨fun h => ?_, fun h => ?_⟩
        · rw [collapse_cons _ hc, ih.1 (hrest (u := []) h)]
        · rw [collapse_dollar _ hc, ih.1 (hrest (u := ['$']) h)]

namespace Piece

/-- The characters of a piece with all values in. -/
def symbols : Piece → List (Option Char)
  | lit c => [some c]
  | esc => [none]
  | escRef _ value => some '$' :: value.map some
  | braced _ value => value.map some
  | bare _ value => value.map some

end Piece

theorem withEscapes_some (e l : List Char) : withEscapes e (l.map some) = l := by
  induction l with
  | nil => rfl
  | cons c l ih => exact congrArg (c :: ·) ih

theorem withEscapes_append (e : List Char) (l l' : List (Option Char)) :
    withEscapes e (l ++ l') = withEscapes e l ++ withEscapes e l' := List.flatMap_append

/-- The pieces with an escape read as `e`. -/
theorem withEscapes_symbols {e : List Char} {f : Piece → List Char} {ps : List Piece}
    (h : ∀ p ∈ ps, withEscapes e p.symbols = f p) :
    withEscapes e (ps.flatMap Piece.symbols) = ps.flatMap f := by
  induction ps with
  | nil => rfl
  | cons p ps ih =>
    rw [List.flatMap_cons, List.flatMap_cons, withEscapes_append, h p List.mem_cons_self,
      ih fun q hq => h q (List.mem_cons_of_mem p hq)]

theorem flatMap_filter_isEsc (ps : List Piece) :
    ps.flatMap (fun p => if p.isEsc then [] else p.text fun _ => true) =
      render (fun _ => true) (ps.filter fun p => !p.isEsc) := by
  induction ps with
  | nil => rfl
  | cons p ps ih =>
    rw [List.flatMap_cons, List.filter_cons, ih]
    cases hp : p.isEsc <;> simp [render]

section Phases

variable [Runtime] {snapshot : Record}

theorem collapse_render {ps : List Piece} (h : ReadsOnce snapshot ps) :
    collapse (render (fun _ => true) ps) = ps.flatMap Piece.result := by
  have hopen : withEscapes ['$', '$'] (ps.flatMap Piece.symbols) = render (fun _ => true) ps :=
    withEscapes_symbols fun p _ => by
      cases p with
      | lit c => rfl
      | esc => rfl
      | escRef key value => exact congrArg ('$' :: ·) (withEscapes_some _ value)
      | _ => exact withEscapes_some _ _
  have hshut : withEscapes [] (ps.flatMap Piece.symbols) =
      render (fun _ => true) (ps.filter fun p => !p.isEsc) := by
    rw [← flatMap_filter_isEsc]
    refine withEscapes_symbols fun p _ => ?_
    cases p with
    | lit c => rfl
    | esc => rfl
    | escRef key value => exact congrArg ('$' :: ·) (withEscapes_some _ value)
    | _ => exact withEscapes_some _ _
  have hresult : withEscapes ['$'] (ps.flatMap Piece.symbols) = ps.flatMap Piece.result :=
    withEscapes_symbols fun p hp => by
      cases p with
      | lit c => rfl
      | esc => rfl
      | escRef key value => exact absurd hp (h.escapes key value)
      | _ => exact withEscapes_some _ _
  rw [← hopen, ← hresult]
  refine (collapse_escapes _).1 ?_
  rw [hshut]
  exact h.dollars

omit [Runtime] in
theorem atoms_plain (lookup : List Char → Option (List Char)) (fuel : Nat) {l : List Char}
    (h : '$' ∉ l) : atoms lookup fuel l = l.map .char := by
  fun_induction atoms lookup fuel l with
  | case1 l => rfl
  | case2 => rfl
  | case3 => exact absurd List.mem_cons_self h
  | case4 => exact absurd List.mem_cons_self h
  | case5 fuel c rest _ ih =>
    exact congrArg (Atom.char c :: ·) (ih fun hm => h (List.mem_cons_of_mem c hm))

omit [Runtime] in
theorem pieces_plain (lookup : List Char → Option (List Char)) (dotted : List Char → Bool)
    {l : List Char} (h : '$' ∉ l) : pieces lookup dotted 0 (l.map .char) = l.map .lit := by
  induction l with
  | nil => rfl
  | cons c l ih =>
    have hc : c ≠ '$' := fun he => h (he ▸ List.mem_cons_self)
    rw [List.map_cons, pieces.eq_def]
    simp only [hc, if_false, List.map_cons]
    rw [ih fun hm => h (List.mem_cons_of_mem c hm)]

/-- A text without dollars has no tokens. -/
theorem singlePass_plain (snapshot : Record) {text : String} (h : '$' ∉ text.toList) :
    singlePass snapshot text = text := by
  have hresult : ∀ l : List Char, (l.map Piece.lit).flatMap Piece.result = l := by
    intro l
    induction l with
    | nil => rfl
    | cons c l ih => exact congrArg (c :: ·) ih
  rw [singlePass, templatePieces, atoms_plain _ _ h, pieces_plain _ _ h, hresult]
  exact String.ofList_toList

omit [Runtime] in
theorem hasDottedSibling_congr {snapshot' : Record}
    (h : ∀ key, snapshot'.get? key = snapshot.get? key) :
    hasDottedSibling snapshot' = hasDottedSibling snapshot := by
  have hkeys : ∀ key, key ∈ snapshot'.keys ↔ key ∈ snapshot.keys := by
    intro key
    rw [← Dict.contains_iff, ← Dict.contains_iff, Dict.contains, Dict.contains, h]
  funext key
  rw [Bool.eq_iff_iff, hasDottedSibling, hasDottedSibling, List.any_eq_true, List.any_eq_true]
  exact exists_congr fun other => and_congr_left fun _ => hkeys other

theorem substituted_congr {snapshot' : Record}
    (h : ∀ key, snapshot'.get? key = snapshot.get? key) :
    substituted snapshot' = substituted snapshot := by
  funext key
  rw [substituted, substituted, h]

theorem substituteContext_eq {text : String} (h : ReadsOnce snapshot (templatePieces snapshot text)) :
    substituteContext text snapshot = singlePass snapshot text := by
  unfold substituteContext
  split
  · rename_i hplain
    have hdollar : '$' ∉ text.toList := by
      rcases hplain with rfl | hplain
      · simp
      · exact hplain
    exact (singlePass_plain snapshot hdollar).symm
  · have hbraced : replaceBraced snapshot (text.toList.length + 1) text.toList =
        render (doneBy []) (templatePieces snapshot text) := by
      rw [replaceBraced_eq]
      exact (render_pieces 0 _).symm
    have hbare := foldl_replaceKey h (fun _ _ hmem => bare_value hmem)
      (List.nil_append (sortedKeys snapshot)).symm
    dsimp only
    rw [hbraced, hbare, collapse_render h]
    rfl

/-- Where each token can be read but once, the phases come to one pass over the
template, whatever the order of the keys. -/
theorem substitution_single_pass {text : String}
    (h : ReadsOnce snapshot (templatePieces snapshot text)) (snapshot' : Record)
    (hsame : ∀ key, snapshot'.get? key = snapshot.get? key) :
    substituteContext text snapshot' = singlePass snapshot text := by
  have hpieces : templatePieces snapshot' text = templatePieces snapshot text := by
    rw [templatePieces, templatePieces, substituted_congr hsame, hasDottedSibling_congr hsame]
  have h' : ReadsOnce snapshot' (templatePieces snapshot' text) := by
    rw [hpieces]
    refine ⟨h.escapes, ?_, h.dollars⟩
    rw [substituted_congr hsame, hasDottedSibling_congr hsame]
    exact h.tokens
  rw [substituteContext_eq h', singlePass, singlePass, hpieces]

end Phases

section Demo

open Py.Ascii

def priced : Record := Dict.ofList [("x", .str "5")]

theorem templatePieces_priced :
    templatePieces priced "$x$$" = [.bare ['x'] ['5'], .esc] := by
  rfl

theorem substituted_priced {key value : List Char} (h : substituted priced key = some value) :
    key = ['x'] ∧ value = ['5'] := by
  have hget : priced.get? (String.ofList key) = if "x" = String.ofList key then some (.str "5") else none :=
    Dict.get?_set (Dict.empty : Record) "x" (Value.str "5") (String.ofList key)
  unfold substituted at h
  rw [hget] at h
  by_cases hx : "x" = String.ofList key
  · rw [if_pos hx] at h
    refine ⟨?_, (Option.some.inj h).symm⟩
    rw [← String.toList_ofList (l := key), ← hx]
    rfl
  · rw [if_neg hx] at h
    cases h

theorem substitution_single_pass_priced :
    substituteContext "$x$$" priced = singlePass priced "$x$$" := by
  refine substitution_single_pass ?_ priced fun _ => rfl
  rw [templatePieces_priced]
  refine ⟨?_, ?_, by decide⟩
  · simp
  · intro key value hsub done _ hothers
    obtain ⟨rfl, rfl⟩ := substituted_priced hsub
    have hdone : done ['x'] = false := by
      by_contra hne
      exact (hothers ['x'] (by simpa using hne)).2 rfl
    have hrender : render done [.bare ['x'] ['5'], .esc] = ['$', 'x', '$', '$'] := by
      simp [render, Piece.text, hdone]
    have hrest : render done [.esc] = ['$', '$'] := rfl
    intro before after
    rw [hrender]
    constructor
    · rintro ⟨heq, -⟩
      refine ⟨[], [.esc], rfl, ?_⟩
      match before, heq with
      | [], heq => exact ⟨rfl, by rw [hrest]; simpa using heq.symm⟩
      | [_], heq => simp at heq
      | [_, _], heq => simp at heq
      | [_, _, _], heq => simp at heq
      | _ :: _ :: _ :: _ :: _, heq => simp at heq
    · rintro ⟨ps₁, ps₂, heq, rfl, rfl⟩
      match ps₁, heq with
      | [], heq =>
        obtain ⟨-, rfl⟩ := List.cons.inj heq
        exact ⟨rfl, by rw [hrest]; decide⟩
      | [_], heq => simp at heq
      | _ :: _ :: _, heq => simp at heq

def chained : Record := Dict.ofList [("a", .str "$b"), ("b", .str "2")]

/-- The value of `a` is read for a token of `b`. -/
theorem value_expanded : ¬ ∀ (snapshot : Record) (text : String),
    substituteContext text snapshot = singlePass snapshot text := by
  intro h
  have hchained := h chained "$a"
  revert hchained
  decide +kernel

end Demo

end DotRunner
