import DotRunner.StatusFile
import DotRunner.Py.Strip
import DotRunner.Py.JsonSpan
import DotRunner.Py.Ascii
import Mathlib.Data.List.TakeWhile

/-!
# The verdict in a response

`_parse_outcome`: a response that is a JSON object, one in a code fence, or, in front
of the success it otherwise stands for, one in the middle of prose, which the last
opening brace is taken to begin.
-/

namespace DotRunner

open Py

/-- An outcome whose fields are as the object gives them. -/
structure ParsedOutcome where
  status : StageStatus
  failureReason : Value := .none
  notes : Value := .none
  preferredLabel : Value := .none
  suggestedNextIds : Value := .none
  contextUpdates : Value := .none
  isExplicit : Bool := false
  responseText : Option String := none

def dropSuffix? (pat l : List Char) : Option (List Char) :=
  (Text.dropPrefix? pat.reverse l.reverse).map List.reverse

def fence : List Char := ['`', '`', '`']

def fenceLanguage : List Char := ['j', 's', 'o', 'n']

/-- What stands in a code fence, where the whole text is one. -/
def unfence (l : List Char) : List Char :=
  match Text.dropPrefix? fence l with
  | none => l
  | some r => match dropSuffix? fence ((Text.dropPrefix? fenceLanguage r).getD r) with
    | none => l
    | some inner => Text.strip inner

/-- The text from its last opening brace on. -/
def fromLastOpen : List Char → Option (List Char)
  | [] => none
  | c :: cs => match fromLastOpen cs with
    | some r => some r
    | none => if c = '\x7b' then some (c :: cs) else none

/-- The text up to the brace that closes it, braces in strings counted too. -/
def untilClosed : Int → List Char → Option (List Char)
  | _, [] => none
  | depth, c :: cs =>
    if c = '\x7b' then (untilClosed (depth + 1) cs).map (c :: ·)
    else if c = '\x7d' then
      if depth - 1 = 0 then some [c] else (untilClosed (depth - 1) cs).map (c :: ·)
    else (untilClosed depth cs).map (c :: ·)

section Parse

variable [Runtime]

/-- An object with a recognised status. -/
def recognisedVerdict (l : List Char) : Option (StageStatus × Record) :=
  match Json.loads l with
  | some (.dict kvs) =>
    let data : Record := Dict.ofList kvs
    (data.get? "status").bind fun v => (statusOf v).map fun status => (status, data)
  | _ => none

def explicitOutcome (output : String) (verdict : StageStatus × Record) : ParsedOutcome where
  status := verdict.1
  failureReason := verdict.2.getD "failure_reason" .none
  notes := verdict.2.getD "notes" .none
  preferredLabel := verdict.2.getD "preferred_label" .none
  suggestedNextIds := verdict.2.getD "suggested_next_ids" .none
  contextUpdates := verdict.2.getD "context_updates" .none
  isExplicit := true
  responseText := some output

/-- `output[:200]` -/
def excerpt (output : String) : String := String.ofList (output.toList.take 200)

def plainOutcome (node : Option Node) (output : String) : ParsedOutcome :=
  match node.map Node.hasGoalGate with
  | some true =>
    { status := .retry
      notes := .str ("No explicit verdict from goal_gate node — plain text only: " ++ excerpt output)
      failureReason := .str "goal_gate node requires an explicit verdict (JSON / status.json)"
      responseText := some output }
  | _ =>
    { status := .success
      notes := .str ("Plain text response: " ++ excerpt output)
      responseText := some output }

/-- The verdict of a text that begins with a brace. -/
def pureVerdict (body : List Char) : Option (StageStatus × Record) :=
  if body.head? = some '\x7b' then recognisedVerdict body else none

/-- The verdict in the middle of a text. -/
def embeddedVerdict (body : List Char) : Option (StageStatus × Record) :=
  ((fromLastOpen body).bind (untilClosed 0)).bind recognisedVerdict

/-- What is looked at of a response. -/
def responseBody (output : String) : List Char := unfence (Text.strip output.toList)

def parseOutcome (node : Option Node) (output : String) : ParsedOutcome :=
  if Text.strip output.toList = [] then
    { status := .fail, notes := .str "No output from LLM",
      failureReason := .str "Empty LLM response" }
  else match (pureVerdict (responseBody output)).or (embeddedVerdict (responseBody output)) with
    | some verdict => explicitOutcome output verdict
    | none => plainOutcome node output

end Parse

/-! ## Braces -/

theorem fromLastOpen_of_not_mem {l : List Char} (h : '\x7b' ∉ l) : fromLastOpen l = none := by
  induction l with
  | nil => rfl
  | cons c l ih =>
    obtain ⟨hc, hl⟩ := not_or.mp (fun hor => h (List.mem_cons.mpr hor))
    rw [fromLastOpen, ih hl]
    exact if_neg (Ne.symm hc)

theorem not_mem_of_fromLastOpen {l : List Char} (h : fromLastOpen l = none) : '\x7b' ∉ l := by
  induction l with
  | nil => exact List.not_mem_nil
  | cons c l ih =>
    rw [fromLastOpen] at h
    cases hl : fromLastOpen l with
    | some r =>
      rw [hl] at h
      cases h
    | none =>
      rw [hl] at h
      dsimp only at h
      split at h
      · cases h
      · rename_i hc
        rw [List.mem_cons, not_or]
        exact ⟨Ne.symm hc, ih hl⟩

/-- The last brace begins the text that has no other. -/
theorem fromLastOpen_append (p : List Char) {t : List Char} (h : '\x7b' ∉ t) :
    fromLastOpen (p ++ '\x7b' :: t) = some ('\x7b' :: t) := by
  induction p with
  | nil =>
    rw [List.nil_append, fromLastOpen, fromLastOpen_of_not_mem h]
    rfl
  | cons c p ih =>
    rw [List.cons_append, fromLastOpen, ih]

theorem split_of_fromLastOpen {l r : List Char} (h : fromLastOpen l = some r) :
    ∃ p t, l = p ++ r ∧ r = '\x7b' :: t ∧ '\x7b' ∉ t := by
  induction l generalizing r with
  | nil => cases h
  | cons c l ih =>
    rw [fromLastOpen] at h
    cases hl : fromLastOpen l with
    | some r' =>
      rw [hl] at h
      cases h
      obtain ⟨p, t, hp, hr, ht⟩ := ih hl
      exact ⟨c :: p, t, by rw [hp, List.cons_append], hr, ht⟩
    | none =>
      rw [hl] at h
      dsimp only at h
      split at h
      · rename_i hc
        cases h
        exact ⟨[], l, rfl, by rw [hc], not_mem_of_fromLastOpen hl⟩
      · cases h

/-- Without another opening brace the first closing one closes. -/
theorem untilClosed_one {u : List Char} (hopen : '\x7b' ∉ u) (hclose : '\x7d' ∉ u)
    (t : List Char) : untilClosed 1 (u ++ '\x7d' :: t) = some (u ++ ['\x7d']) := by
  induction u with
  | nil => rfl
  | cons c u ih =>
    obtain ⟨hc, hopen'⟩ := not_or.mp (fun hor => hopen (List.mem_cons.mpr hor))
    obtain ⟨hc', hclose'⟩ := not_or.mp (fun hor => hclose (List.mem_cons.mpr hor))
    rw [List.cons_append, untilClosed, if_neg (Ne.symm hc), if_neg (Ne.symm hc'),
      ih hopen' hclose']
    rfl

theorem split_of_untilClosed {l r : List Char} (hopen : '\x7b' ∉ l)
    (h : untilClosed 1 l = some r) :
    ∃ u t, l = u ++ '\x7d' :: t ∧ r = u ++ ['\x7d'] ∧ '\x7d' ∉ u := by
  induction l generalizing r with
  | nil => cases h
  | cons c l ih =>
    obtain ⟨hc, hopen'⟩ := not_or.mp (fun hor => hopen (List.mem_cons.mpr hor))
    rw [untilClosed, if_neg (Ne.symm hc)] at h
    by_cases hclose : c = '\x7d'
    · rw [if_pos hclose, if_pos (by decide)] at h
      cases h
      exact ⟨[], l, by rw [hclose]; rfl, by rw [hclose]; rfl, List.not_mem_nil⟩
    · rw [if_neg hclose] at h
      obtain ⟨r', hr', heq⟩ := Option.map_eq_some_iff.mp h
      obtain ⟨u, t, hl, hr, hu⟩ := ih hopen' hr'
      refine ⟨c :: u, t, by rw [hl]; rfl, by rw [← heq, hr]; rfl, ?_⟩
      rw [List.mem_cons, not_or]
      exact ⟨Ne.symm hclose, hu⟩

/-- What the search comes to. -/
theorem embedded_iff {l r : List Char} :
    (fromLastOpen l).bind (untilClosed 0) = some r ↔
      ∃ p u t, l = p ++ '\x7b' :: (u ++ '\x7d' :: t) ∧ r = '\x7b' :: (u ++ ['\x7d']) ∧
        '\x7b' ∉ u ++ '\x7d' :: t ∧ '\x7d' ∉ u := by
  constructor
  · intro h
    obtain ⟨r₁, hopen, hclosed⟩ := Option.bind_eq_some_iff.mp h
    obtain ⟨p, t₁, hl, rfl, ht₁⟩ := split_of_fromLastOpen hopen
    rw [untilClosed, if_pos rfl] at hclosed
    obtain ⟨r₂, hr₂, heq⟩ := Option.map_eq_some_iff.mp hclosed
    obtain ⟨u, t, rfl, rfl, hu⟩ := split_of_untilClosed ht₁ hr₂
    exact ⟨p, u, t, hl, heq.symm, ht₁, hu⟩
  · rintro ⟨p, u, t, rfl, rfl, hopen, hclose⟩
    have hu : '\x7b' ∉ u := fun hmem => hopen (List.mem_append_left _ hmem)
    rw [fromLastOpen_append p hopen, Option.bind_some, untilClosed, if_pos rfl]
    show (untilClosed 1 (u ++ '\x7d' :: t)).map _ = _
    rw [untilClosed_one hu hclose]
    rfl

/-! ## What is looked at -/

def IsBrace (c : Char) : Prop := c = '\x7b' ∨ c = '\x7d'

/-- A text and what stands around a part of it, where no brace does. -/
structure Around (body l : List Char) : Prop where
  split : ∃ a b, l = a ++ body ++ b ∧ (∀ c ∈ a, ¬ IsBrace c) ∧ ∀ c ∈ b, ¬ IsBrace c

theorem not_brace_of_isSpace {c : Char} (h : Text.isSpace c = true) : ¬ IsBrace c := by
  rintro (rfl | rfl) <;> exact absurd h (by decide)

theorem Around.refl (l : List Char) : Around l l :=
  ⟨[], [], by simp, fun _ h => absurd h List.not_mem_nil, fun _ h => absurd h List.not_mem_nil⟩

theorem Around.trans {l₁ l₂ l₃ : List Char} (h₁ : Around l₁ l₂) (h₂ : Around l₂ l₃) :
    Around l₁ l₃ := by
  obtain ⟨a₁, b₁, rfl, ha₁, hb₁⟩ := h₁.split
  obtain ⟨a₂, b₂, rfl, ha₂, hb₂⟩ := h₂.split
  refine ⟨a₂ ++ a₁, b₁ ++ b₂, by simp, fun c hc => ?_, fun c hc => ?_⟩
  · exact (List.mem_append.mp hc).elim (ha₂ c) (ha₁ c)
  · exact (List.mem_append.mp hc).elim (hb₁ c) (hb₂ c)

theorem around_strip (l : List Char) : Around (Text.strip l) l := by
  have hleft : l.takeWhile Text.isSpace ++ Text.lstrip l = l := List.takeWhile_append_dropWhile
  have hright : Text.rstrip (Text.lstrip l) ++
      ((Text.lstrip l).reverse.takeWhile Text.isSpace).reverse = Text.lstrip l := by
    rw [Text.rstrip, ← List.reverse_append, List.takeWhile_append_dropWhile, List.reverse_reverse]
  refine ⟨l.takeWhile Text.isSpace,
    ((Text.lstrip l).reverse.takeWhile Text.isSpace).reverse, ?_, fun c hc => ?_, fun c hc => ?_⟩
  · rw [List.append_assoc, Text.strip, hright, hleft]
  · exact not_brace_of_isSpace (List.all_eq_true.mp List.all_takeWhile c hc)
  · exact not_brace_of_isSpace (List.all_eq_true.mp List.all_takeWhile c (List.mem_reverse.mp hc))

theorem around_prefix {pat l r : List Char} (hpat : ∀ c ∈ pat, ¬ IsBrace c)
    (h : Text.dropPrefix? pat l = some r) : Around r l :=
  ⟨pat, [], by rw [Text.dropPrefix?_eq_some_iff.mp h, List.append_nil], hpat,
    fun _ h => absurd h List.not_mem_nil⟩

theorem around_suffix {pat l r : List Char} (hpat : ∀ c ∈ pat, ¬ IsBrace c)
    (h : dropSuffix? pat l = some r) : Around r l := by
  obtain ⟨r', hdrop, rfl⟩ := Option.map_eq_some_iff.mp h
  have hl : l = r'.reverse ++ pat := by
    rw [← List.reverse_reverse l, Text.dropPrefix?_eq_some_iff.mp hdrop, List.reverse_append,
      List.reverse_reverse]
  exact ⟨[], pat, by rw [hl, List.nil_append], fun _ h => absurd h List.not_mem_nil, hpat⟩

theorem around_unfence (l : List Char) : Around (unfence l) l := by
  have hfence : ∀ c ∈ fence, ¬ IsBrace c := by simp [fence, IsBrace]
  have hlanguage : ∀ c ∈ fenceLanguage, ¬ IsBrace c := by simp [fenceLanguage, IsBrace]
  rw [unfence]
  cases hopen : Text.dropPrefix? fence l with
  | none => exact .refl l
  | some r =>
    have hr : Around r l := around_prefix hfence hopen
    have hr' : Around ((Text.dropPrefix? fenceLanguage r).getD r) r := by
      cases hjson : Text.dropPrefix? fenceLanguage r with
      | none => exact .refl r
      | some r' => exact around_prefix hlanguage hjson
    dsimp only
    cases hclose : dropSuffix? fence ((Text.dropPrefix? fenceLanguage r).getD r) with
    | none => exact .refl l
    | some inner =>
      exact (((around_strip inner).trans (around_suffix hfence hclose)).trans hr').trans hr

/-- What is looked at stands bare of blanks. -/
theorem endsBare_unfence {l : List Char} (h : Text.EndsBare l) : Text.EndsBare (unfence l) := by
  rw [unfence]
  split
  · exact h
  · split
    · exact h
    · exact Text.endsBare_strip _

theorem around_responseBody (output : String) : Around (responseBody output) output.toList :=
  (around_unfence _).trans (around_strip _)

/-- A part from brace to brace lies in what is looked at. -/
theorem Around.within {body l before after : List Char} {t : List Char} (h : Around body l)
    (hl : l = before ++ '\x7b' :: (t ++ '\x7d' :: after)) :
    ∃ a p q b, before = a ++ p ∧ after = q ++ b ∧ l = a ++ body ++ b ∧
      body = p ++ '\x7b' :: (t ++ '\x7d' :: q) ∧ ∀ c ∈ b, ¬ IsBrace c := by
  obtain ⟨a, b, hsplit, ha, hb⟩ := h.split
  have heq : a ++ (body ++ b) = before ++ '\x7b' :: (t ++ '\x7d' :: after) := by
    rw [← hl, hsplit, List.append_assoc]
  obtain ⟨p, hbefore, hrest⟩ : ∃ p, before = a ++ p ∧
      body ++ b = p ++ '\x7b' :: (t ++ '\x7d' :: after) := by
    obtain ⟨m, hbefore, hm⟩ | ⟨m, ha', hm⟩ := List.append_eq_append_iff.mp heq
    · exact ⟨m, hbefore, hm⟩
    · cases m with
      | nil => exact ⟨[], by simpa using ha'.symm, by simpa using hm.symm⟩
      | cons c m =>
        have hc : '\x7b' = c := (List.cons.inj hm).1
        exact absurd (.inl hc.symm) (ha c (by rw [ha']; simp))
  obtain ⟨q, hafter, hbody⟩ : ∃ q, after = q ++ b ∧ body = p ++ '\x7b' :: (t ++ '\x7d' :: q) := by
    have heq' : body ++ b = (p ++ '\x7b' :: t ++ ['\x7d']) ++ after := by
      rw [hrest]
      simp
    obtain ⟨m, hm, hb'⟩ | ⟨m, hm, hafter⟩ := List.append_eq_append_iff.mp heq'
    · -- the closing brace would lie in what stands around
      by_cases hnil : m = []
      · subst hnil
        exact ⟨[], by simpa using hb'.symm, by simpa using hm.symm⟩
      · have hlast : m.getLast? = some '\x7d' := by
          rw [← List.getLast?_append_of_ne_nil body hnil, ← hm]
          exact List.getLast?_concat
        have hmem : '\x7d' ∈ b := by
          rw [hb']
          exact List.mem_append_left after (List.mem_of_getLast? hlast)
        exact absurd (.inr rfl) (hb _ hmem)
    · exact ⟨m, hafter, by rw [hm]; simp⟩
  exact ⟨a, p, q, b, hbefore, hafter, hsplit, hbody, hb⟩

section Verdict

variable [Runtime]

/-- The text of an object with a recognised status, from its brace to its brace. -/
structure VerdictText (l : List Char) (status : StageStatus) : Prop where
  braces : ∃ t, l = '\x7b' :: (t ++ ['\x7d'])
  verdict : ∃ data, recognisedVerdict l = some (status, data)

/-- A response with one verdict in it, wherever that stands. -/
structure SoleVerdict (output : String) where
  before : List Char
  text : List Char
  after : List Char
  status : StageStatus
  stands : output.toList = before ++ text ++ after
  verdict : VerdictText text status
  sole : ∀ before' text' after' status', output.toList = before' ++ text' ++ after' →
    VerdictText text' status' → before' = before ∧ text' = text

omit [Runtime] in
theorem isSpace_of_isBlank {c : Char} (h : Json.isBlank c = true) : Text.isSpace c = true := by
  have hcases : ((c = ' ' ∨ c = '\t') ∨ c = '\n') ∨ c = '\r' := by simpa [Json.isBlank] using h
  obtain ((rfl | rfl) | rfl) | rfl := hcases <;> decide

/-- A body the whole of which is read for a verdict is the text of one. -/
theorem verdictText_of_pure {body : List Char} {verdict : StageStatus × Record}
    (hbare : Text.EndsBare body) (h : pureVerdict body = some verdict) :
    VerdictText body verdict.1 := by
  rw [pureVerdict] at h
  split at h
  · rename_i hhead
    refine ⟨?_, verdict.2, h⟩
    obtain ⟨l, rfl⟩ := List.head?_eq_some_iff.mp hhead
    obtain ⟨v, hloads⟩ : ∃ v, Json.loads ('\x7b' :: l) = some v := by
      rw [recognisedVerdict] at h
      cases hl : Json.loads ('\x7b' :: l) with
      | none =>
        rw [hl] at h
        cases h
      | some v => exact ⟨v, rfl⟩
    obtain ⟨p, r, rfl, hr⟩ := Json.loads_brace hloads
    have hnil : r = [] := by
      by_contra hne
      have hlast : ('\x7b' :: (p ++ '\x7d' :: r)).getLast? = some (r.getLast hne) := by
        simp [List.getLast?_cons, List.getLast?_append, List.getLast?_eq_some_getLast hne]
      have hblank : Json.isBlank (r.getLast hne) = true :=
        List.dropWhile_eq_nil_iff.mp hr _ (List.getLast_mem hne)
      have hspace := isSpace_of_isBlank hblank
      rw [hbare _ hlast] at hspace
      cases hspace
    exact ⟨p, by rw [hnil]⟩
  · cases h

theorem head_of_verdictText {l : List Char} {status : StageStatus} (h : VerdictText l status) :
    l.head? = some '\x7b' := by
  obtain ⟨t, rfl⟩ := h.braces
  rfl

theorem plainOutcome_not_explicit (node : Option Node) (output : String) :
    (plainOutcome node output).isExplicit = false := by
  rw [plainOutcome]
  split <;> rfl

namespace SoleVerdict

variable {output : String} (v : SoleVerdict output)

/-- The response is the object itself, alone or in a fence, or no other brace is behind
the one that opens it, and none closes in it but the last. -/
def Found : Prop :=
  responseBody output = v.text ∨
    '\x7b' ∉ v.text.tail ∧ '\x7b' ∉ v.after ∧ '\x7d' ∉ v.text.dropLast

/-- The response has the verdict in what is looked at. -/
theorem body_split : ∃ a p t q b, v.text = '\x7b' :: (t ++ ['\x7d']) ∧ v.before = a ++ p ∧
    v.after = q ++ b ∧ output.toList = a ++ responseBody output ++ b ∧
    responseBody output = p ++ '\x7b' :: (t ++ '\x7d' :: q) ∧ ∀ c ∈ b, ¬ IsBrace c := by
  obtain ⟨t, ht⟩ := v.verdict.braces
  have hl : output.toList = v.before ++ '\x7b' :: (t ++ '\x7d' :: v.after) := by
    rw [v.stands, ht]
    simp
  obtain ⟨a, p, q, b, hbefore, hafter, hsplit, hbody, hb⟩ := (around_responseBody output).within hl
  exact ⟨a, p, t, q, b, ht, hbefore, hafter, hsplit, hbody, hb⟩

/-- A verdict in what is looked at is the one of the response. -/
theorem eq_of_body {a b : List Char} (hsplit : output.toList = a ++ responseBody output ++ b)
    {p text q : List Char} (hbody : responseBody output = p ++ text ++ q) {status : StageStatus}
    (htext : VerdictText text status) : a ++ p = v.before ∧ text = v.text := by
  refine v.sole (a ++ p) text (q ++ b) status ?_ htext
  rw [hsplit, hbody]
  simp only [List.append_assoc]

theorem not_empty (v : SoleVerdict output) : Text.strip output.toList ≠ [] := by
  obtain ⟨a, p, t, q, b, -, -, -, -, hbody, -⟩ := v.body_split
  intro hnil
  rw [responseBody, hnil] at hbody
  have hempty : unfence [] = [] := by simp [unfence, fence, Text.dropPrefix?]
  rw [hempty] at hbody
  simp at hbody

theorem parseOutcome_eq (v : SoleVerdict output) (node : Option Node) : parseOutcome node output =
    match (pureVerdict (responseBody output)).or (embeddedVerdict (responseBody output)) with
    | some verdict => explicitOutcome output verdict
    | none => plainOutcome node output := by
  rw [parseOutcome, if_neg v.not_empty]

/-- What is found is the verdict that is there. -/
theorem status_of_recognisedVerdict {verdict : StageStatus × Record}
    (h : recognisedVerdict v.text = some verdict) : verdict.1 = v.status := by
  obtain ⟨data, hdata⟩ := v.verdict.verdict
  rw [hdata] at h
  exact congrArg Prod.fst (Option.some.inj h).symm

theorem embedded_found {verdict : StageStatus × Record}
    (h : embeddedVerdict (responseBody output) = some verdict) :
    recognisedVerdict v.text = some verdict ∧ '\x7b' ∉ v.text.tail ∧ '\x7b' ∉ v.after ∧
      '\x7d' ∉ v.text.dropLast := by
  obtain ⟨r, hr, hverdict⟩ := Option.bind_eq_some_iff.mp h
  obtain ⟨p', u, t', hbody', rfl, hopen, hclose⟩ := embedded_iff.mp hr
  obtain ⟨a, p, t, q, b, htext, hbefore, hafter, hsplit, hbody, hb⟩ := v.body_split
  have hfound : responseBody output = p' ++ ('\x7b' :: (u ++ ['\x7d'])) ++ t' := by
    rw [hbody']
    simp
  have hsame := v.eq_of_body hsplit hfound ⟨⟨u, rfl⟩, verdict.2, hverdict⟩
  have hp : p' = p := List.append_cancel_left (hsame.1.trans hbefore)
  have hut : u = t := by
    have heq := hsame.2.trans htext
    exact List.append_cancel_right (List.cons.inj heq).2
  subst hp hut
  have hq : t' = q := by
    have heq := hbody'.symm.trans hbody
    exact (List.cons.inj (List.append_cancel_left (List.cons.inj (List.append_cancel_left heq)).2)).2
  subst hq
  rw [hsame.2] at hverdict
  refine ⟨hverdict, ?_, ?_, ?_⟩
  · rw [htext]
    intro hmem
    have hmem' : '\x7b' ∈ u ++ ['\x7d'] := hmem
    exact hopen (by simpa using (List.mem_append.mp hmem').imp_right (by simp))
  · rw [hafter]
    intro hmem
    obtain hmem | hmem := List.mem_append.mp hmem
    · exact hopen (by simp [hmem])
    · exact hb _ hmem (.inl rfl)
  · rw [htext]
    intro hmem
    have hmem' : '\x7d' ∈ '\x7b' :: u := by
      rwa [← List.cons_append, List.dropLast_concat] at hmem
    exact hclose (by simpa using hmem')

theorem embedded_of_found (h : '\x7b' ∉ v.text.tail ∧ '\x7b' ∉ v.after ∧
    '\x7d' ∉ v.text.dropLast) :
    embeddedVerdict (responseBody output) = recognisedVerdict v.text := by
  obtain ⟨htail, hafter', hlast⟩ := h
  obtain ⟨a, p, t, q, b, htext, hbefore, hafter, hsplit, hbody, hb⟩ := v.body_split
  have hopen : '\x7b' ∉ t ++ '\x7d' :: q := by
    intro hmem
    obtain hmem | hmem := List.mem_append.mp hmem
    · exact htail (by rw [htext]; simp [hmem])
    · have hq : '\x7b' ∈ q := by simpa using hmem
      exact hafter' (by rw [hafter]; exact List.mem_append_left b hq)
  have hclose : '\x7d' ∉ t := by
    intro hmem
    refine hlast ?_
    rw [htext, ← List.cons_append, List.dropLast_concat]
    exact List.mem_cons_of_mem _ hmem
  have hfound := embedded_iff.mpr ⟨p, t, q, hbody, rfl, hopen, hclose⟩
  rw [embeddedVerdict, hfound, htext]
  rfl

end SoleVerdict

end Verdict

section Demo

open Py.Ascii

/-- A verdict with an object in it, behind prose. -/
def nestedVerdict : String := "Here: \x7b\"status\":\"fail\",\"context_updates\":\x7b\"a\":1\x7d\x7d"

/-- A part of the response that is a verdict, by where it begins and how long it is. -/
def isVerdictAt (l : List Char) (i j : Nat) : Bool :=
  let text := (l.drop i).take j
  text.length == j && text.head? == some '\x7b' && text.getLast? == some '\x7d' && (recognisedVerdict text).isSome

theorem isVerdictAt_of_split {l before text after : List Char} {status : StageStatus}
    (hl : l = before ++ text ++ after) (h : VerdictText text status) :
    isVerdictAt l before.length text.length = true := by
  have htext : (l.drop before.length).take text.length = text := by
    rw [hl, List.append_assoc, List.drop_left, List.take_left]
  obtain ⟨data, hdata⟩ := h.verdict
  have hlast : text.getLast? = some '\x7d' := by
    obtain ⟨t, rfl⟩ := h.braces
    rw [← List.cons_append, List.getLast?_concat]
  rw [isVerdictAt, htext]
  simp [head_of_verdictText h, hlast, hdata]

def nestedText : List Char := nestedVerdict.toList.drop 6

theorem nestedVerdict_sole : ∀ i < 50, ∀ j < 50, isVerdictAt nestedVerdict.toList i j = true →
    i = 6 ∧ j = 43 := by
  decide +kernel

theorem nestedText_verdict : VerdictText nestedText .fail where
  braces := ⟨nestedText.tail.dropLast, by decide +kernel⟩
  verdict := by
    have hstatus : (recognisedVerdict nestedText).map Prod.fst = some .fail := by decide +kernel
    obtain ⟨⟨status, data⟩, hverdict, heq⟩ := Option.map_eq_some_iff.mp hstatus
    cases heq
    exact ⟨data, hverdict⟩

end Demo

end DotRunner
