import Mathlib.Data.List.Infix
import DotRunner.Observability.Assignments

/-!
# What redaction leaves

No token is left in a redacted text, everything outside the replaced places stays, and
an assignment that is found in it once more runs over a marker.
-/

namespace DotRunner
namespace Observability

open Py Py.Pattern

/-! ## Tokens -/

section Credentials

variable {front : List (Char → Bool)} {inRun : Char → Bool} {c : Char}

theorem isSome_credentialRe {l : List Char} : ((credentialRe front inRun).run l).isSome = true ↔
    matchesKinds front l = true ∧ 20 ≤ ((l.drop front.length).takeWhile inRun).length := by
  show (scanCredential front inRun l).isSome = true ↔ _
  rw [scanCredential]
  split
  · next h => exact iff_of_true rfl h
  · next h => exact iff_of_false (by simp) h

theorem matchesKinds_append (hfront : ∀ p ∈ front, p c = false) {a z : List Char}
    (h : matchesKinds front (a ++ c :: z) = true) (y : List Char) :
    matchesKinds front (a ++ y) = true ∧ front.length ≤ a.length := by
  induction front generalizing a with
  | nil => exact ⟨rfl, Nat.zero_le _⟩
  | cons p front ih =>
    cases a with
    | nil =>
      have hp : p c = true := (Bool.and_eq_true_iff.mp h).1
      rw [hfront p List.mem_cons_self] at hp
      cases hp
    | cons d a =>
      obtain ⟨hd, hrest⟩ := Bool.and_eq_true_iff.mp h
      obtain ⟨hmatch, hlen⟩ := ih (fun q hq => hfront q (List.mem_cons_of_mem p hq)) hrest
      exact ⟨Bool.and_eq_true_iff.mpr ⟨hd, hmatch⟩, Nat.succ_le_succ hlen⟩

theorem stopsAt_credentialRe (hfront : ∀ p ∈ front, p c = false) (hrun : inRun c = false) :
    (credentialRe front inRun).StopsAt c := by
  intro a z y h
  obtain ⟨hmatch, hlen⟩ := isSome_credentialRe.mp h
  obtain ⟨hmatch', hfits⟩ := matchesKinds_append hfront hmatch y
  refine isSome_credentialRe.mpr ⟨hmatch', hlen.trans ?_⟩
  rw [List.drop_append_of_le_length hfits, List.drop_append_of_le_length hfits]
  exact (takeWhile_stop hrun _ z y).length_le

end Credentials

/-- What a marker begins and ends with is part of no token. -/
theorem tokens_stop {p : String × Pattern Unit} (hp : p ∈ tokenPatterns) {c : Char}
    (hc : c = '[' ∨ c = ']') : p.2.StopsAt c := by
  simp only [tokenPatterns, List.mem_cons, List.not_mem_nil, or_false] at hp
  rcases hp with rfl | rfl | rfl <;> rcases hc with rfl | rfl <;>
    exact stopsAt_credentialRe (by decide) (by decide)

def shapes : List String := ["openai-key", "github-fine-grained-pat", "github-token", "assignment"]

theorem mem_shapes {p : String × Pattern Unit} (hp : p ∈ tokenPatterns) : p.1 ∈ shapes := by
  simp only [tokenPatterns, List.mem_cons, List.not_mem_nil, or_false] at hp
  rcases hp with rfl | rfl | rfl <;> decide

theorem marker_inside : ∀ p ∈ tokenPatterns, ∀ shape ∈ shapes,
    ∀ w ∈ ("[REDACTED:".toList ++ shape.toList).tails, p.2.run w = none := by
  have hinside : ∀ p ∈ tokenPatterns, ∀ shape ∈ shapes,
      ∀ w ∈ ("[REDACTED:".toList ++ shape.toList).tails, (p.2.run w).isSome = false := by
    decide +kernel
  intro p hp shape hshape w hw
  exact Option.isSome_eq_false_iff.mp (hinside p hp shape hshape w hw) |> Option.isNone_iff_eq_none.mp

/-- No token begins inside a marker. -/
theorem run_marker {p : String × Pattern Unit} (hp : p ∈ tokenPatterns) {shape : String}
    (hshape : shape ∈ shapes) {w : List Char} (hw : w <:+ marker shape) (hne : w ≠ [])
    (z : List Char) : p.2.run (w ++ z) = none := by
  rcases suffix_append_cases hw with hw | ⟨w', hw', -, rfl⟩
  · obtain rfl : w = [']'] := by
      rcases List.suffix_cons_iff.mp hw with rfl | hw
      · rfl
      · exact absurd (List.suffix_nil.mp hw) hne
    exact (tokens_stop hp (.inr rfl)).run_before (a := []) run_nil z
  · rw [List.append_assoc]
    exact (tokens_stop hp (.inr rfl)).run_before (marker_inside p hp shape hshape w'
      ((List.mem_tails _ _).mpr hw')) z

/-- Where a token pattern finds nothing, it finds nothing after a replacement either. -/
theorem free_replaced {p : String × Pattern Unit} (hp : p ∈ tokenPatterns) {shape : String}
    (hshape : shape ∈ shapes) {κ : Type} {q : Pattern κ} {head repl : κ → List Char}
    (hrepl : ∀ k, repl k = head k ++ marker shape)
    (hhead : ∀ s k t r, q.run s = some (k, t, r) → head k <+: t) {l : List Char}
    (hskip : ∀ s, s <:+ l → q.run s = none → p.2.run s = none)
    (hfront : ∀ s k t r, s <:+ l → q.run s = some (k, t, r) →
      ∀ w, w <:+ head k → w ≠ [] → ∀ v, t = head k ++ v → p.2.run (w ++ (v ++ r)) = none) :
    p.2.Free (q.sub repl l).1 := by
  refine free_sub repl hrepl (fun a z y h => ?_)
    (fun w z hw hne => run_marker hp hshape hw hne z) hskip fun s k t r hs hrun => ?_
  · exact tokens_stop hp (.inl rfl) a _ y h
  · obtain ⟨v, rfl⟩ := hhead s k t r hrun
    exact ⟨v, rfl, fun w hw hne => hfront s k _ r hs hrun w hw hne v rfl⟩

/-! ## Redacted texts -/

/-- The text went through one replacement after another, each of them where its pattern matches. -/
inductive Stages : List (String × Pattern Unit) → List Char → List Char → Prop
  | done (l : List Char) : Stages [] l l
  | stage {p : String × Pattern Unit} {ps : List (String × Pattern Unit)} {l l' l'' : List Char}
      {ms : List (Nat × Unit × List Char)} (found : p.2.Found 0 l ms)
      (replaced : Rewritten (marker p.1) (ms.map fun m => (m.1, m.1 + m.2.2.length)) 0 l l')
      (rest : Stages ps l' l'') : Stages (p :: ps) l l''

/-- What `redact_text` makes of a text. -/
structure Redacted (text : List Char) : Prop where
  tokens : Stages tokenPatterns text (redactTokens text).1
  no_token : ∀ p ∈ tokenPatterns, p.2.Free (redactText text).1
  assignments : ∃ ms, assignmentPattern.Found 0 (redactTokens text).1 ms ∧
    Rewritten (marker "assignment") (valueSpans ms) 0 (redactTokens text).1 (redactText text).1 ∧
    ∀ front s a t r, (redactTokens text).1 = front ++ s →
      assignmentPattern.run s = some (a, t, r) →
        (front.length + a.head.length, front.length + t.length) ∈ valueSpans ms ∨
          ∃ span ∈ valueSpans ms, span.1 ≤ front.length ∧ front.length < span.2
  over_marker : ∀ s a t r, s <:+ (redactText text).1 → assignmentPattern.run s = some (a, t, r) →
    marker "assignment" <:+: t
  again : redactTokens (redactText text).1 = ((redactText text).1, [])
  stable : assignmentPattern.Free (redactText text).1 →
    redactText (redactText text).1 = ((redactText text).1, [])

/-- One stage after another, as `redact_text` folds them. -/
def redactWith (ps : List (String × Pattern Unit)) (found : List Char × List String) :
    List Char × List String :=
  ps.foldl (fun found p =>
    let redacted := p.2.sub (fun _ => marker p.1) found.1
    (redacted.1, found.2 ++ redacted.2.map fun _ => p.1)) found

theorem replacement_eq (a : Assignment) : a.replacement = a.head ++ marker "assignment" := by
  simp [Assignment.replacement, Assignment.head]

theorem stages_redactWith (ps : List (String × Pattern Unit)) (l : List Char) (names : List String) :
    Stages ps l (redactWith ps (l, names)).1 := by
  induction ps generalizing l names with
  | nil => exact .done l
  | cons p ps ih =>
    obtain ⟨ms, hms⟩ := p.2.exists_found 0 l
    have hrepl : ∀ _ : Unit, marker p.1 = [] ++ marker p.1 := fun _ => rfl
    have hreplaced := hms.rewritten (fun _ => marker p.1) hrepl fun _ _ _ _ _ => List.nil_prefix
    exact .stage hms hreplaced (ih _ _)

theorem free_after_tokens {p : String × Pattern Unit} (hp : p ∈ tokenPatterns) {shape : String}
    (hshape : shape ∈ shapes) {q : Pattern Unit} {l : List Char} (h : q = p.2 ∨ p.2.Free l) :
    p.2.Free (q.sub (fun _ => marker shape) l).1 := by
  have hrepl : ∀ _ : Unit, marker shape = [] ++ marker shape := fun _ => rfl
  refine free_replaced hp hshape hrepl (fun _ _ _ _ _ => List.nil_prefix)
    (fun s hs hnone => ?_) fun _ _ _ _ _ _ w hw hne => ?_
  · rcases h with rfl | hfree
    · exact hnone
    · exact hfree s hs
  · exact absurd (List.suffix_nil.mp hw) hne

theorem free_redactWith {ps : List (String × Pattern Unit)} (hps : ∀ q ∈ ps, q ∈ tokenPatterns)
    {p : String × Pattern Unit} (hp : p ∈ tokenPatterns) {l : List Char} (names : List String)
    (h : p ∈ ps ∨ p.2.Free l) : p.2.Free (redactWith ps (l, names)).1 := by
  induction ps generalizing l names with
  | nil => exact h.resolve_left List.not_mem_nil
  | cons q ps ih =>
    have hshape := mem_shapes (hps q List.mem_cons_self)
    refine ih (fun q' hq' => hps q' (List.mem_cons_of_mem q hq')) _ ?_
    rcases h with h | hfree
    · rcases List.mem_cons.mp h with rfl | h
      · exact .inr (free_after_tokens hp hshape (.inl rfl))
      · exact .inl h
    · exact .inr (free_after_tokens hp hshape (.inr hfree))

theorem redactWith_of_free {ps : List (String × Pattern Unit)} {l : List Char}
    (h : ∀ p ∈ ps, p.2.Free l) (names : List String) : redactWith ps (l, names) = (l, names) := by
  induction ps with
  | nil => rfl
  | cons p ps ih =>
    have hstep : redactWith (p :: ps) (l, names) = redactWith ps (l, names) := by
      show redactWith ps ((p.2.sub _ l).1, names ++ (p.2.sub _ l).2.map _) = _
      rw [sub_of_free _ (h p List.mem_cons_self), List.map_nil, List.append_nil]
    rw [hstep, ih fun q hq => h q (List.mem_cons_of_mem p hq)]

theorem redactTokens_eq (text : List Char) :
    redactTokens text = redactWith tokenPatterns (text, []) := rfl

theorem redactText_eq (text : List Char) : redactText text =
    ((assignmentPattern.sub Assignment.replacement (redactTokens text).1).1,
      (redactTokens text).2 ++ (assignmentPattern.sub Assignment.replacement
        (redactTokens text).1).2.map fun a => "assignment:" ++ String.ofList a.name) := rfl

theorem no_token_left (text : List Char) {p : String × Pattern Unit} (hp : p ∈ tokenPatterns) :
    p.2.Free (redactText text).1 := by
  have hfree : p.2.Free (redactTokens text).1 := by
    rw [redactTokens_eq]
    exact free_redactWith (fun _ hq => hq) hp [] (.inl hp)
  have hfront : ∀ s a t r, s <:+ (redactTokens text).1 → assignmentPattern.run s = some (a, t, r) →
      ∀ w, w <:+ a.head → w ≠ [] → ∀ v, t = a.head ++ v → p.2.run (w ++ (v ++ r)) = none := by
    intro s a t r hs hrun w hw _ v hv
    obtain ⟨hsplit, -⟩ := assignmentPattern.splits hrun
    obtain ⟨u, hu⟩ := hw
    refine hfree _ (List.IsSuffix.trans ⟨u, ?_⟩ hs)
    rw [hsplit, hv, ← hu]
    simp only [List.append_assoc]
  have hshape : "assignment" ∈ shapes := by decide
  have hreplaced : p.2.Free (assignmentPattern.sub Assignment.replacement (redactTokens text).1).1 :=
    free_replaced hp hshape replacement_eq head_prefix (fun s hs _ => hfree s hs) hfront
  rwa [redactText_eq]

/-- A redacted text holds no token; what is outside the replaced places stays; the value of every
assignment is replaced, or the assignment begins inside one that is; and an assignment found once
more runs over a marker, so that another round changes nothing unless there is one. -/
theorem redacted (text : List Char) : Redacted text := by
  have hagain : redactTokens (redactText text).1 = ((redactText text).1, []) := by
    rw [redactTokens_eq]
    exact redactWith_of_free (fun p hp => no_token_left text hp) []
  have hout : (redactText text).1 =
      (assignmentPattern.sub Assignment.replacement (redactTokens text).1).1 := by
    rw [redactText_eq]
  constructor
  case tokens =>
    rw [redactTokens_eq]
    exact stages_redactWith tokenPatterns text []
  case no_token => exact fun p hp => no_token_left text hp
  case assignments =>
    obtain ⟨ms, hms⟩ := assignmentPattern.exists_found 0 (redactTokens text).1
    rw [hout]
    exact ⟨ms, hms, hms.rewritten _ replacement_eq head_prefix,
      fun front s a t r hl hrun => value_replaced hms hl hrun⟩
  case over_marker =>
    intro s a t r hs hrun
    rw [hout] at hs
    exact matches_over_marker _ s hs a t r hrun
  case again => exact hagain
  case stable =>
    intro hfree
    rw [redactText_eq (redactText text).1, hagain, sub_of_free _ hfree]
    rfl

end Observability
end DotRunner
