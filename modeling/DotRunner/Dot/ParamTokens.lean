import DotRunner.Dot.Transforms
import DotRunner.SinglePass

/-!
# Parameters as tokens

What `expand_params` and `expand_goal_variable` are meant to do: every whole `$name` of the
text is replaced where it stands, and nothing else, whatever the order of the map.
-/

namespace DotRunner
namespace Dot

open Py

section Tokens

variable [Runtime]

def paramValue (params : Record) (key : List Char) : Option (List Char) :=
  (params.get? (String.ofList key)).map fun v => v.toStr.toList

/-- The text with its whole tokens marked, the longest name at each place; `skip` characters
of the last token are still to be passed. -/
def wholeTokens (params : Record) : Nat → List Char → List DotRunner.Piece
  | _, [] => []
  | skip + 1, _ :: l => wholeTokens params skip l
  | 0, c :: l =>
    match if c = '$' then bareLength (paramValue params) (hasDottedSibling params) l else none with
    | some n => .bare (l.take n) ((paramValue params (l.take n)).getD []) :: wholeTokens params n l
    | none => .lit c :: wholeTokens params 0 l

/-- Every token filled in where it stands. -/
def filledIn (params : Record) (text : String) : String :=
  String.ofList (render (fun _ => true) (wholeTokens params 0 text.toList))

/-- The text when the parameters in front have been replaced. -/
def expandedBy (order : Record) (before : List (String × Value)) (text : String) : List Char :=
  before.foldl (expandParam order) text.toList

/-- In every order of the map each step replaces the whole tokens of its name in the text and
nothing else, and the order does not matter for what comes out. -/
structure ExpandsExactly (params : Record) (text : String) : Prop where
  result : ∀ order : Record, order.entries.Perm params.entries →
    expandParams text order = filledIn params text
  own : ∀ order : Record, order.entries.Perm params.entries → ∀ before key v after,
    order.entries = before ++ (key, v) :: after → ∀ l r,
      (expandedBy order before text = l ++ ('$' :: key.toList ++ r) ∧
        endsToken (hasDottedSibling params key.toList) r = true) ↔
      ∃ ps₁ ps₂, wholeTokens params 0 text.toList =
          ps₁ ++ .bare key.toList v.toStr.toList :: ps₂ ∧
        l = render (doneBy (before.map Prod.fst)) ps₁ ∧
        r = render (doneBy (before.map Prod.fst)) ps₂

/-- With any of the other parameters filled in, the tokens of a name that can be read are those
of the text. -/
def TokensStay (params : Record) (text : String) : Prop :=
  ∀ key v, (key, v) ∈ params.entries → ∀ done : List Char → Bool, done key.toList = false →
    ReadsTokens done (hasDottedSibling params key.toList) key.toList v.toStr.toList
      (wholeTokens params 0 text.toList)

/-! ## Reading the tokens -/

variable {params : Record}

/-- With nothing filled in the pieces are the text. -/
theorem render_wholeTokens (skip : Nat) (l : List Char) :
    render (fun _ => false) (wholeTokens params skip l) = l.drop skip := by
  fun_induction wholeTokens params skip l with
  | case1 => simp [render]
  | case2 skip c l ih => exact ih
  | case3 c l n hn ih =>
    have hc : c = '$' := by
      by_contra hne
      rw [if_neg hne] at hn
      cases hn
    rw [if_pos hc] at hn
    rw [hc]
    show ('$' :: l.take n) ++ render _ (wholeTokens params n l) = '$' :: l
    rw [ih, List.cons_append, List.take_append_drop]
  | case4 c l hn ih => exact congrArg (c :: ·) ih

/-- A token names a parameter, and stands for its value. -/
theorem wholeTokens_value {skip : Nat} {l key value : List Char}
    (h : .bare key value ∈ wholeTokens params skip l) : paramValue params key = some value := by
  fun_induction wholeTokens params skip l with
  | case1 => cases h
  | case2 skip c l ih => exact ih h
  | case3 c l n hn ih =>
    cases List.mem_cons.mp h with
    | inl heq =>
      cases heq
      have hc : c = '$' := by
        by_contra hne
        rw [if_neg hne] at hn
        cases hn
      rw [if_pos hc] at hn
      obtain ⟨v, hv⟩ := Option.isSome_iff_exists.mp (bareLength_some hn)
      rw [hv]
      rfl
    | inr hrest => exact ih hrest
  | case4 c l hn ih =>
    cases List.mem_cons.mp h with
    | inl heq => cases heq
    | inr hrest => exact ih hrest

theorem paramValue_of_mem {key : String} {v : Value} (h : (key, v) ∈ params.entries) :
    paramValue params key.toList = some v.toStr.toList := by
  rw [paramValue, String.ofList_toList, (Dict.get?_eq_some_iff params).mpr h]
  rfl

omit [Runtime] in
theorem readsTokens_congr {done done' : List Char → Bool} {dotted : Bool} {key value : List Char}
    {ps : List DotRunner.Piece} (h : ∀ k v, .bare k v ∈ ps → done k = done' k)
    (hreads : ReadsTokens done dotted key value ps) : ReadsTokens done' dotted key value ps := by
  intro before after
  rw [← render_congr h, hreads before after]
  refine exists_congr fun ps₁ => exists_congr fun ps₂ => and_congr_right fun hps => ?_
  have h₁ : render done ps₁ = render done' ps₁ :=
    render_congr fun k v hmem => h k v (by rw [hps]; exact List.mem_append_left _ hmem)
  have h₂ : render done ps₂ = render done' ps₂ := render_congr fun k v hmem =>
    h k v (by rw [hps]; exact List.mem_append_right _ (List.mem_cons_of_mem _ hmem))
  rw [h₁, h₂]

/-! ## The parameters one after the other -/

section Orders

variable {order : Record} {text : String}

omit [Runtime] in
theorem get?_of_perm (h : order.entries.Perm params.entries) (key : String) :
    order.get? key = params.get? key := by
  apply Option.ext
  intro v
  rw [Dict.get?_eq_some_iff, Dict.get?_eq_some_iff]
  exact h.mem_iff

omit [Runtime] in
theorem dotted_of_perm (h : order.entries.Perm params.entries) :
    hasDottedSibling order = hasDottedSibling params :=
  hasDottedSibling_congr (get?_of_perm h)

omit [Runtime] in
/-- A parameter is not among those in front of it. -/
theorem not_doneBy {before after : List (String × Value)} {key : String} {v : Value}
    (h : order.entries = before ++ (key, v) :: after) :
    doneBy (before.map Prod.fst) key.toList = false := by
  have hnodup := order.nodup
  rw [h, List.map_append, List.map_cons] at hnodup
  have hfresh : key ∉ before.map Prod.fst := fun hmem =>
    (List.nodup_append.mp hnodup).2.2 key hmem key List.mem_cons_self rfl
  rw [doneBy, String.ofList_toList]
  exact decide_eq_false hfresh

omit [Runtime] in
theorem doneBy_snoc (keys : List String) (key : String) (k : List Char) :
    doneBy (keys ++ [key]) k = (doneBy keys k || k == key.toList) := by
  have hkey : (String.ofList k = key) ↔ k = key.toList := by
    constructor
    · intro h
      rw [← h, String.toList_ofList]
    · intro h
      rw [h, String.ofList_toList]
  by_cases hk : k = key.toList
  · simp [doneBy, hk]
  · simp [doneBy, hkey, hk]

/-- One parameter is filled in where the text has its tokens. -/
theorem expandParam_render (h : order.entries.Perm params.entries)
    {before after : List (String × Value)} {key : String} {v : Value}
    (hsplit : order.entries = before ++ (key, v) :: after)
    (hreads : ReadsTokens (doneBy (before.map Prod.fst)) (hasDottedSibling params key.toList)
      key.toList v.toStr.toList (wholeTokens params 0 text.toList)) :
    expandParam order (render (doneBy (before.map Prod.fst)) (wholeTokens params 0 text.toList))
        (key, v) =
      render (doneBy ((before ++ [(key, v)]).map Prod.fst)) (wholeTokens params 0 text.toList) := by
  have hmem : (key, v) ∈ params.entries := h.mem_iff.mp (by rw [hsplit]; simp)
  have hvalue : ∀ w, .bare key.toList w ∈ wholeTokens params 0 text.toList →
      w = v.toStr.toList := by
    intro w hw
    have hsame := (wholeTokens_value hw).symm.trans (paramValue_of_mem hmem)
    exact Option.some.inj hsame
  rw [expandParam, dotted_of_perm h]
  rw [replaceMatches_render hreads (not_doneBy hsplit) hvalue (List.nil_append _).symm]
  refine render_congr fun k w _ => ?_
  rw [List.map_append, List.map_singleton, doneBy_snoc]

/-- As long as the tokens that can be read are those of the text, the text so far is the one
with the parameters so far filled in. -/
theorem expandedBy_eq_render (h : order.entries.Perm params.entries)
    {before after : List (String × Value)} (hsplit : order.entries = before ++ after)
    (hreads : ∀ front key v back, before = front ++ (key, v) :: back →
      expandedBy order front text =
        render (doneBy (front.map Prod.fst)) (wholeTokens params 0 text.toList) →
      ReadsTokens (doneBy (front.map Prod.fst)) (hasDottedSibling params key.toList) key.toList
        v.toStr.toList (wholeTokens params 0 text.toList)) :
    expandedBy order before text =
      render (doneBy (before.map Prod.fst)) (wholeTokens params 0 text.toList) := by
  induction before using List.reverseRecOn generalizing after with
  | nil =>
    have hplain : render (doneBy []) (wholeTokens params 0 text.toList) =
        render (fun _ => false) (wholeTokens params 0 text.toList) := by
      apply render_congr
      intro k v _
      simp [doneBy]
    rw [List.map_nil, hplain, render_wholeTokens]
    rfl
  | append_singleton front p ih =>
    obtain ⟨key, v⟩ := p
    have hnext : order.entries = front ++ (key, v) :: after := by
      rw [hsplit, List.append_assoc]
      rfl
    have hfront := ih hnext
      fun front' key' v' back heq => hreads front' key' v' (back ++ [(key, v)])
        (by rw [heq, List.append_assoc]; rfl)
    rw [expandedBy, List.foldl_append]
    show expandParam order (expandedBy order front text) (key, v) = _
    rw [hfront]
    exact expandParam_render h hnext (hreads front key v [] rfl hfront)

omit [Runtime] in
/-- The map with some of its parameters put in front, one of the others next. -/
theorem exists_order {key : String} {v : Value} (hmem : (key, v) ∈ params.entries)
    {done : List Char → Bool} (hdone : done key.toList = false) :
    ∃ (order : Record) (rest : List (String × Value)), order.entries.Perm params.entries ∧
      order.entries = params.entries.filter (fun p => done p.1.toList) ++ (key, v) :: rest := by
  have hothers : (key, v) ∈ params.entries.filter fun p => !done p.1.toList := by
    rw [List.mem_filter]
    exact ⟨hmem, by rw [hdone]; rfl⟩
  obtain ⟨l₁, l₂, hl⟩ := List.append_of_mem hothers
  have hperm : (params.entries.filter (fun p => done p.1.toList) ++ (key, v) :: (l₁ ++ l₂)).Perm
      params.entries := by
    have hmiddle : (l₁ ++ (key, v) :: l₂).Perm ((key, v) :: (l₁ ++ l₂)) := List.perm_middle
    rw [← hl] at hmiddle
    exact (hmiddle.symm.append_left _).trans (List.filter_append_perm _ _)
  exact ⟨⟨_, (hperm.map Prod.fst).nodup_iff.mpr params.nodup⟩, l₁ ++ l₂, hperm, rfl⟩

/-- The parameters put in front are the ones to be filled in. -/
theorem doneBy_filter {done : List Char → Bool} {k w : List Char}
    (h : .bare k w ∈ wholeTokens params 0 text.toList) :
    doneBy ((params.entries.filter fun p => done p.1.toList).map Prod.fst) k = done k := by
  have hvalue := wholeTokens_value h
  rw [paramValue, Option.map_eq_some_iff] at hvalue
  obtain ⟨v, hget, -⟩ := hvalue
  have hmem := (Dict.get?_eq_some_iff params).mp hget
  rw [Bool.eq_iff_iff, doneBy, decide_eq_true_eq, List.mem_map]
  constructor
  · rintro ⟨p, hp, hk⟩
    have htrue := (List.mem_filter.mp hp).2
    rwa [hk, String.toList_ofList] at htrue
  · intro hdone
    refine ⟨(String.ofList k, v), List.mem_filter.mpr ⟨hmem, ?_⟩, rfl⟩
    rw [String.toList_ofList]
    exact hdone

theorem expandsExactly_iff (params : Record) (text : String) :
    ExpandsExactly params text ↔ TokensStay params text := by
  constructor
  · intro h key v hmem done hdone
    obtain ⟨order, rest, hperm, hsplit⟩ := exists_order hmem hdone
    have hreads (before : List (String × Value)) (k : String) (w : Value)
        (after : List (String × Value)) (horder : order.entries = before ++ (k, w) :: after)
        (htext : expandedBy order before text =
          render (doneBy (before.map Prod.fst)) (wholeTokens params 0 text.toList)) :
        ReadsTokens (doneBy (before.map Prod.fst)) (hasDottedSibling params k.toList) k.toList
          w.toStr.toList (wholeTokens params 0 text.toList) := by
      intro l r
      rw [← htext]
      exact h.own order hperm before k w after horder l r
    have htext := expandedBy_eq_render hperm hsplit fun front k w back heq =>
      hreads front k w (back ++ (key, v) :: rest) (by rw [hsplit, heq, List.append_assoc]; rfl)
    exact readsTokens_congr (fun _ _ => doneBy_filter) (hreads _ key v rest hsplit htext)
  · intro h
    have htext {order : Record} (hperm : order.entries.Perm params.entries)
        {before after : List (String × Value)} (hsplit : order.entries = before ++ after) :
        expandedBy order before text =
          render (doneBy (before.map Prod.fst)) (wholeTokens params 0 text.toList) := by
      refine expandedBy_eq_render hperm hsplit fun front key v back heq _ => ?_
      have horder : order.entries = front ++ (key, v) :: (back ++ after) := by
        rw [hsplit, heq, List.append_assoc]
        rfl
      exact h key v (hperm.mem_iff.mp (by rw [horder]; simp)) _ (not_doneBy horder)
    constructor
    · intro order hperm
      have hall := htext hperm (List.append_nil _).symm
      rw [expandParams, filledIn]
      show String.ofList (expandedBy order order.entries text) = _
      rw [hall]
      refine congrArg String.ofList (render_congr fun k w hmem => ?_)
      have hvalue := wholeTokens_value hmem
      rw [paramValue, Option.map_eq_some_iff] at hvalue
      obtain ⟨v, hget, -⟩ := hvalue
      rw [← get?_of_perm hperm, Dict.get?_eq_some_iff] at hget
      exact decide_eq_true (List.mem_map.mpr ⟨_, hget, rfl⟩)
    · intro order hperm before key v after hsplit l r
      rw [htext hperm hsplit]
      exact h key v (hperm.mem_iff.mp (by rw [hsplit]; simp)) _ (not_doneBy hsplit) l r

end Orders

end Tokens

/-! ## The goal -/

def goalToken : List Char := "$goal".toList

/-- Every `$goal` that does not go on to a longer name filled in. -/
def wholeGoal [Runtime] (text : String) (graphGoal contextGoal : Value) : String :=
  let goalValue := contextGoal.orElse graphGoal
  if goalValue.truthy then
    String.ofList (replaceMatches goalToken goalValue.toStr.toList false 0 text.toList)
  else text

/-- Parts put together again, each but the first behind what is chosen for it. -/
def rejoin (choose : List Char → List Char) (parts : List (List Char)) : List Char :=
  parts.flatMap fun part => choose part ++ part

/-- What stands in front of a part when only whole tokens are filled in. -/
def wholeToken (value part : List Char) : List Char :=
  if endsToken false part then value else goalToken

/-- A text split at a pattern, with something else in the place of the pattern. -/
theorem toList_intercalate_parts (value : String) (part : List Char) (parts : List (List Char)) :
    (value.intercalate ((part :: parts).map String.ofList)).toList =
      part ++ rejoin (fun _ => value.toList) parts := by
  rw [String.toList_intercalate, List.map_map]
  have hparts : (String.toList ∘ String.ofList) = (id : List Char → List Char) := by
    funext l
    exact String.toList_ofList
  rw [hparts, List.map_id]
  induction parts generalizing part with
  | nil => simp [rejoin]
  | cons next parts ih =>
    rw [List.intercalate_cons_cons, ih next]
    simp [rejoin]

theorem splitFuel_ne_nil (pat : List Char) (fuel : Nat) (l : List Char) :
    Text.splitFuel pat fuel l ≠ [] := by
  cases fuel with
  | zero => simp [Text.splitFuel]
  | succ fuel =>
    rw [Text.splitFuel]
    split
    · simp
    · simp

/-- The text begins as its first part does, with a pattern behind it or nothing. -/
theorem endsToken_first {fuel : Nat} {l part : List Char} {parts : List (List Char)}
    (h : Text.splitFuel goalToken fuel l = part :: parts) :
    endsToken false l = endsToken false part := by
  cases fuel with
  | zero =>
    cases h
    rfl
  | succ fuel =>
    rw [Text.splitFuel] at h
    split at h
    · cases h
      rfl
    · rename_i before after hsplit
      cases h
      rw [Text.append_of_splitOnce hsplit]
      cases part with
      | nil => rfl
      | cons c part => rfl

/-- In front of the first occurrence nothing is a token. -/
theorem replaceMatches_before {value l before after : List Char}
    (h : Text.splitOnce goalToken l = some (before, after)) :
    replaceMatches goalToken value false 0 l =
      before ++ replaceMatches goalToken value false 0 (goalToken ++ after) := by
  induction l generalizing before with
  | nil =>
    have hnone : Text.splitOnce goalToken [] = none := by decide +kernel
    rw [hnone] at h
    cases h
  | cons c l ih =>
    rw [Text.splitOnce] at h
    split at h
    · rename_i rest hdrop
      cases h
      rw [Text.dropPrefix?_eq_some_iff.mp hdrop]
      rfl
    · rename_i hdrop
      obtain ⟨p, hp, heq⟩ := Option.map_eq_some_iff.mp h
      cases heq
      have hnot : matchesAt goalToken false (c :: l) = false := by
        by_contra hmatch
        obtain ⟨rest, hrest, -⟩ := (matchesAt_iff _).mp (by simpa using hmatch)
        rw [Text.dropPrefix?_eq_some_iff.mpr hrest] at hdrop
        cases hdrop
      rw [replaceMatches, if_neg (by simp [hnot]), ih hp]
      rfl

/-- A `$goal` is filled in just if a token ends behind it. -/
theorem replaceMatches_goal (value after : List Char) :
    replaceMatches goalToken value false 0 (goalToken ++ after) =
      wholeToken value after ++ replaceMatches goalToken value false 0 after := by
  rw [wholeToken]
  by_cases hend : endsToken false after = true
  · rw [if_pos hend]
    exact replaceMatches_match rfl hend
  · rw [if_neg hend]
    refine replaceMatches_literal fun a s heq hs => ?_
    by_contra hmatch
    obtain ⟨rest, hrest, hend'⟩ := (matchesAt_iff _).mp (by simpa using hmatch)
    -- the token itself has no second dollar
    match a, s, hs with
    | [], s, _ =>
      have hsame : s = goalToken := by simpa using heq.symm
      rw [hsame] at hrest
      exact hend (List.append_cancel_left hrest ▸ hend')
    | x :: a, c :: s, _ =>
      have hc : c ∈ ['g', 'o', 'a', 'l'] := by
        have htail : ['g', 'o', 'a', 'l'] = a ++ c :: s := (List.cons.inj heq).2
        rw [htail]
        simp
      have hdollar : c = '$' := (List.cons.inj hrest).1
      rw [hdollar] at hc
      revert hc
      decide

theorem replaceMatches_parts (value : List Char) {fuel : Nat} {l part : List Char}
    {parts : List (List Char)} (hfuel : l.length ≤ fuel)
    (h : Text.splitFuel goalToken fuel l = part :: parts) :
    replaceMatches goalToken value false 0 l = part ++ rejoin (wholeToken value) parts := by
  induction fuel generalizing l part parts with
  | zero =>
    cases h
    rw [List.eq_nil_of_length_eq_zero (Nat.le_zero.mp hfuel)]
    rfl
  | succ fuel ih =>
    rw [Text.splitFuel] at h
    split at h
    · rename_i hnone
      cases h
      have habsent : ¬ goalToken <:+: l := by
        rw [← Text.occurs_iff_infix, Text.occurs, hnone]
        simp
      rw [replaceMatches_absent habsent]
      simp [rejoin]
    · rename_i before after hsplit
      cases h
      have hlen := congrArg List.length (Text.append_of_splitOnce hsplit)
      have hfive : goalToken.length = 5 := rfl
      rw [List.length_append, List.length_append] at hlen
      obtain ⟨next, rest, hnext⟩ := List.exists_cons_of_ne_nil
        (splitFuel_ne_nil goalToken fuel after)
      have hafter := ih (by omega) hnext
      rw [replaceMatches_before hsplit, replaceMatches_goal, hafter, hnext, wholeToken,
        endsToken_first hnext]
      simp [rejoin, wholeToken]

/-- Every token that is not whole makes a difference of one goal and one token. -/
theorem length_rejoin (value : List Char) (parts : List (List Char)) :
    (rejoin (fun _ => value) parts).length +
        5 * parts.countP (fun part => !endsToken false part) =
      (rejoin (wholeToken value) parts).length +
        value.length * parts.countP fun part => !endsToken false part := by
  induction parts with
  | nil => rfl
  | cons part parts ih =>
    rw [rejoin, rejoin, List.flatMap_cons, List.flatMap_cons, ← rejoin, ← rejoin]
    simp only [List.length_append, wholeToken]
    by_cases hend : endsToken false part = true
    · rw [List.countP_cons_of_neg (by simp [hend]), if_pos hend]
      omega
    · have hfive : goalToken.length = 5 := rfl
      rw [List.countP_cons_of_pos (by simpa using hend), if_neg hend, Nat.mul_add, Nat.mul_add]
      omega

/-- Filling in everywhere comes to filling in the whole tokens just where every token is
whole, or the goal is the token. -/
theorem rejoin_eq_iff (value : List Char) (parts : List (List Char)) :
    rejoin (fun _ => value) parts = rejoin (wholeToken value) parts ↔
      value = goalToken ∨ ∀ part ∈ parts, endsToken false part = true := by
  constructor
  · intro h
    by_cases hlen : value.length = 5
    · induction parts with
      | nil => exact .inr fun _ hpart => absurd hpart List.not_mem_nil
      | cons part parts ih =>
        rw [rejoin, rejoin, List.flatMap_cons, List.flatMap_cons, ← rejoin, ← rejoin] at h
        have hsame : value.length = (wholeToken value part).length := by
          rw [wholeToken]
          by_cases hend : endsToken false part = true
          · rw [if_pos hend]
          · rw [if_neg hend]
            exact hlen
        rw [List.append_assoc, List.append_assoc] at h
        obtain ⟨hvalue, hrest⟩ := List.append_inj h hsame
        by_cases hend : endsToken false part = true
        · cases ih (List.append_cancel_left hrest) with
          | inl heq => exact .inl heq
          | inr hall => exact .inr (List.forall_mem_cons.mpr ⟨hend, hall⟩)
        · rw [wholeToken, if_neg hend] at hvalue
          exact .inl hvalue
    · have hcount := length_rejoin value parts
      rw [h] at hcount
      have hzero : parts.countP (fun part => !endsToken false part) = 0 := by
        by_contra hne
        have hfive := Nat.add_left_cancel hcount
        exact hlen (Nat.eq_of_mul_eq_mul_right (Nat.pos_of_ne_zero hne) hfive).symm
      right
      intro part hpart
      have hnot := List.countP_eq_zero.mp hzero part hpart
      simpa using hnot
  · intro h
    refine List.flatMap_congr fun part hpart => congrArg (· ++ part) ?_
    rw [wholeToken]
    cases h with
    | inl heq =>
      split
      · rfl
      · exact heq
    | inr hall => rw [if_pos (hall part hpart)]

/-- The condition for the goal: no `$goal` of the text goes on to a longer name, unless nothing
is filled in or the token itself is. -/
def GoalsWhole [Runtime] (text : String) (graphGoal contextGoal : Value) : Prop :=
  (contextGoal.orElse graphGoal).truthy = true →
    (contextGoal.orElse graphGoal).toStr = "$goal" ∨
      ∀ part ∈ (Text.split goalToken text.toList).tail, endsToken false part = true

theorem expandGoalVariable_iff [Runtime] (text : String) (graphGoal contextGoal : Value) :
    expandGoalVariable text graphGoal contextGoal = wholeGoal text graphGoal contextGoal ↔
      GoalsWhole text graphGoal contextGoal := by
  rw [expandGoalVariable, wholeGoal, GoalsWhole]
  by_cases htruthy : (contextGoal.orElse graphGoal).truthy = true
  · obtain ⟨part, parts, hparts⟩ := List.exists_cons_of_ne_nil
      (splitFuel_ne_nil goalToken text.toList.length text.toList)
    have hgoal : (contextGoal.orElse graphGoal).toStr = "$goal" ↔
        (contextGoal.orElse graphGoal).toStr.toList = goalToken :=
      String.toList_inj.symm
    have hsplit : Text.split goalToken text.toList = part :: parts := hparts
    have hliteral : Text.split "$goal".toList text.toList = part :: parts := hparts
    rw [if_pos htruthy, if_pos htruthy, replaceMatches_parts _ (Nat.le_refl _) hparts, replaceAll,
      hgoal, hsplit, List.tail_cons, ← rejoin_eq_iff, ← String.toList_inj, hliteral,
      toList_intercalate_parts, String.toList_ofList, List.append_cancel_left_eq]
    exact ⟨fun h _ => h, fun h => h htruthy⟩
  · rw [if_neg htruthy, if_neg htruthy]
    exact iff_of_true rfl fun h => absurd h htruthy

/-! ## Both -/

theorem expansion_exact_iff [Runtime] :
    (∀ (params : Record) (text : String), ExpandsExactly params text ↔ TokensStay params text) ∧
    ∀ (text : String) (graphGoal contextGoal : Value),
      expandGoalVariable text graphGoal contextGoal = wholeGoal text graphGoal contextGoal ↔
        GoalsWhole text graphGoal contextGoal :=
  ⟨expandsExactly_iff, expandGoalVariable_iff⟩

section Demo

open Py.Ascii

/-- `a` stands for `$b`, and `b` for `2`. -/
def chained : Record := Dict.ofList [("a", .str "$b"), ("b", .str "2")]

/-- The same map, set up the other way round. -/
def chainedBack : Record := Dict.ofList [("b", .str "2"), ("a", .str "$b")]

/-- The value of one parameter is expanded for another, in one order and not in the other; and
`$goal` is taken out of a longer name. -/
theorem expansion_overreaches :
    (¬ ∀ (params : Record) (text : String), ExpandsExactly params text) ∧
    ¬ ∀ (text : String) (graphGoal contextGoal : Value),
      expandGoalVariable text graphGoal contextGoal = wholeGoal text graphGoal contextGoal := by
  constructor
  · intro h
    have hexact := (h chained "$a").result
    have hthere := hexact chained (List.Perm.refl _)
    have hback := hexact chainedBack (List.Perm.swap _ _ [])
    have hdiffer : expandParams "$a" chained ≠ expandParams "$a" chainedBack := by decide +kernel
    exact hdiffer (hthere.trans hback.symm)
  · intro h
    have hgoal := h "$goal_id" .none (.str "ship")
    revert hgoal
    decide +kernel

end Demo

end Dot
end DotRunner
