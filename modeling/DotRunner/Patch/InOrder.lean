import DotRunner.Patch.Apply
import DotRunner.Py.Ascii

/-!
# Where hunks are applied

An update reads its file into lines, applies the hunks to them one after the other and
joins them again.  Each hunk is looked for from the top of the lines as they stand, its
hint is not looked at, and the lines are joined with line breaks of one kind.
-/

namespace DotRunner
namespace Patch

open Py Py.FileTree

/-! ## The lines of a file -/

/-- A line of the text: of the file, with its own line break, or added. -/
structure TextLine where
  text : Line
  ending : Option (List Char)

def texts (lines : List TextLine) : List Line := lines.map TextLine.text

/-- `str.splitlines(keepends=True)`, with the characters of the line that is being read. -/
def endedLinesFrom (line : Line) : List Char → List TextLine
  | [] => if line = [] then [] else [⟨line, some []⟩]
  | '\r' :: '\n' :: l => ⟨line, some ['\r', '\n']⟩ :: endedLinesFrom [] l
  | c :: l =>
    if isLineBreak c then ⟨line, some [c]⟩ :: endedLinesFrom [] l
    else endedLinesFrom (line ++ [c]) l

def endedLines (file : List Char) : List TextLine := endedLinesFrom [] file

/-- The lines with their breaks are the text they are read from. -/
theorem flatMap_endedLinesFrom (line l : List Char) :
    (endedLinesFrom line l).flatMap (fun x => x.text ++ x.ending.getD []) = line ++ l := by
  fun_induction endedLinesFrom line l with
  | case1 => rfl
  | case2 line hne => simp
  | case3 line l ih => simp [ih]
  | case4 line c l _ hbreak ih => simp [ih]
  | case5 line c l _ hbreak ih => simp [ih]

theorem splitlinesFrom_cons {c : Char} (hc : c ≠ '\r') (line l : List Char) :
    splitlinesFrom line (c :: l) =
      if isLineBreak c then line :: splitlinesFrom [] l else splitlinesFrom (line ++ [c]) l := by
  rw [splitlinesFrom]
  exact fun _ h _ => hc h

/-- The lines are the same where all of `\r\n`, `\r` and `\n` are read as `\n`. -/
theorem splitlinesFrom_universal (line l : List Char) :
    splitlinesFrom line (universalNewlines l) = texts (endedLinesFrom line l) := by
  fun_induction endedLinesFrom line l with
  | case1 => rfl
  | case2 line hne => simp [universalNewlines, splitlinesFrom, texts, hne]
  | case3 line l ih =>
    rw [universalNewlines, splitlinesFrom_cons (by decide), if_pos (by decide), ih]
    rfl
  | case4 line c l hcrlf hbreak ih =>
    by_cases hc : c = '\r'
    · subst hc
      have hread : universalNewlines ('\r' :: l) = '\n' :: universalNewlines l := by
        rw [universalNewlines]
        exact fun l' hl => hcrlf l' rfl hl
      rw [hread, splitlinesFrom_cons (by decide), if_pos (by decide), ih]
      rfl
    · rw [universalNewlines_cons hc, splitlinesFrom_cons hc, if_pos hbreak, ih]
      rfl
  | case5 line c l hcrlf hbreak ih =>
    have hc : c ≠ '\r' := by
      rintro rfl
      exact hbreak (by decide)
    rw [universalNewlines_cons hc, splitlinesFrom_cons hc, if_neg hbreak, ih]

/-- The break of a line: none in front of the end of the file only, and `\n` only by itself. -/
structure Ended (file : List Char) (x : TextLine) (ending : List Char) : Prop where
  bare : x.text.getLast? ≠ some '\n'
  single : ending.head? = some '\n' → ending = ['\n']
  open_end : ending = [] → x.text ≠ [] ∧ (universalNewlines file).getLast? ≠ some '\n'

theorem universalNewlines_ne_nil {l : List Char} (h : l ≠ []) : universalNewlines l ≠ [] := by
  fun_cases universalNewlines l with
  | case1 => exact absurd rfl h
  | case2 => exact List.cons_ne_nil _ _
  | case3 => exact List.cons_ne_nil _ _
  | case4 => exact List.cons_ne_nil _ _

theorem Ended.behind {file rest ending : List Char} {x : TextLine} (h : Ended rest x ending)
    {c : Char} (hread : universalNewlines file = c :: universalNewlines rest)
    (hc : c ≠ '\n' ∨ rest ≠ []) : Ended file x ending where
  bare := h.bare
  single := h.single
  open_end := by
    intro hopen
    refine ⟨(h.open_end hopen).1, ?_⟩
    have hrest := (h.open_end hopen).2
    rw [hread]
    cases hlast : universalNewlines rest with
    | nil =>
      have hne : c ≠ '\n' := hc.resolve_right fun hrest => universalNewlines_ne_nil hrest hlast
      simpa using hne
    | cons d l =>
      rw [hlast] at hrest
      rwa [List.getLast?_cons_cons]

theorem ended_of_mem {line l : List Char} (hline : line.getLast? ≠ some '\n') {x : TextLine}
    (hx : x ∈ endedLinesFrom line l) : ∃ ending, x.ending = some ending ∧ Ended l x ending := by
  have hnil : ([] : Line).getLast? ≠ some '\n' := by simp
  have hpos : ∀ {l : List Char}, x ∈ endedLinesFrom [] l → l ≠ [] := by
    intro l hmem hl
    subst hl
    cases hmem
  fun_induction endedLinesFrom line l with
  | case1 => cases hx
  | case2 line hne =>
    obtain rfl := List.mem_singleton.mp hx
    exact ⟨[], rfl, hline, fun hc => (by cases hc), fun _ => ⟨hne, fun hl => by cases hl⟩⟩
  | case3 line l ih =>
    cases List.mem_cons.mp hx with
    | inl heq =>
      subst heq
      exact ⟨_, rfl, hline, fun hc => (by cases hc), fun hl => by cases hl⟩
    | inr hmem =>
      obtain ⟨ending, hending, hended⟩ := ih hnil hmem
      exact ⟨ending, hending, hended.behind (universalNewlines.eq_2 l) (.inr (hpos hmem))⟩
  | case4 line c l hcrlf hbreak ih =>
    cases List.mem_cons.mp hx with
    | inl heq =>
      subst heq
      exact ⟨_, rfl, hline, fun hc => congrArg (fun c => [c]) (Option.some.inj hc),
        fun hl => by cases hl⟩
    | inr hmem =>
      obtain ⟨ending, hending, hended⟩ := ih hnil hmem
      have hread : ∃ d, universalNewlines (c :: l) = d :: universalNewlines l := by
        by_cases hc : c = '\r'
        · subst hc
          rw [universalNewlines]
          · exact ⟨'\n', rfl⟩
          · exact fun l' hl => hcrlf l' rfl hl
        · exact ⟨c, universalNewlines_cons hc l⟩
      obtain ⟨d, hd⟩ := hread
      exact ⟨ending, hending, hended.behind hd (.inr (hpos hmem))⟩
  | case5 line c l hcrlf hbreak ih =>
    have hc : c ≠ '\r' := by
      rintro rfl
      exact hbreak (by decide)
    have hnl : c ≠ '\n' := by
      rintro rfl
      exact hbreak (by decide)
    obtain ⟨ending, hending, hended⟩ := ih (by simpa using hnl) hx
    exact ⟨ending, hending, hended.behind (universalNewlines_cons hc l) (.inl hnl)⟩

/-! ## Where a hunk is found -/

/-- Where `_apply_hunk` begins to rewrite the lines. -/
def hunkPosition (fileLines : List Line) (h : Hunk) : Option Nat :=
  if matchLinesOf h = [] then some fileLines.length else findMatch fileLines (matchLinesOf h)

def StandsAt (old lines : List Line) (pos : Nat) : Prop := old <+: lines.drop pos

def FirstAt (old lines : List Line) (pos : Nat) : Prop :=
  StandsAt old lines pos ∧ ∀ before < pos, ¬StandsAt old lines before

/-- The place is the first that has the old lines of the hunk, or, where none has them, the first
that has them but for trailing blanks.  What has no old lines goes to the end. -/
def FirstFit (lines : List Line) (h : Hunk) (pos : Nat) : Prop :=
  if matchLinesOf h = [] then pos = lines.length
  else FirstAt (matchLinesOf h) lines pos ∨
    ((∀ i, ¬StandsAt (matchLinesOf h) lines i) ∧
      FirstAt ((matchLinesOf h).map Text.rstrip) (lines.map Text.rstrip) pos)

theorem standsAt_iff {old lines : List Line} {pos : Nat} :
    StandsAt old lines pos ↔ (lines.drop pos).take old.length = old := by
  rw [StandsAt, List.prefix_iff_eq_take]
  exact eq_comm

theorem StandsAt.le {old lines : List Line} {pos : Nat} (h : StandsAt old lines pos)
    (hne : old ≠ []) : pos < lines.length + 1 - old.length := by
  have hlen := List.IsPrefix.length_le h
  have hpos := List.length_pos_of_ne_nil hne
  rw [List.length_drop] at hlen
  omega

/-- The search of `_find_match`, for one of its two comparisons. -/
theorem find?_positions {old lines : List Line} (hne : old ≠ []) {p : Nat → Bool}
    (hp : ∀ i, p i = true ↔ StandsAt old lines i) (pos : Nat) :
    (List.range (lines.length + 1 - old.length)).find? p = some pos ↔ FirstAt old lines pos := by
  have hnot : ∀ i, (!p i) = true ↔ ¬StandsAt old lines i := by
    intro i
    rw [Bool.not_eq_true', ← hp, Bool.not_eq_true]
  rw [List.find?_range_eq_some, FirstAt, hp]
  simp only [hnot, List.mem_range]
  exact ⟨fun h => ⟨h.1, h.2.2⟩, fun h => ⟨h.1, h.1.le hne, h.2⟩⟩

theorem find?_positions_eq_none {old lines : List Line} (hne : old ≠ []) {p : Nat → Bool}
    (hp : ∀ i, p i = true ↔ StandsAt old lines i) :
    (List.range (lines.length + 1 - old.length)).find? p = none ↔ ∀ i, ¬StandsAt old lines i := by
  rw [List.find?_eq_none]
  simp only [hp, List.mem_range]
  exact ⟨fun h i hi => h i (hi.le hne) hi, fun h i _ => h i⟩

theorem hunkPosition_iff {lines : List Line} {h : Hunk} {pos : Nat} :
    hunkPosition lines h = some pos ↔ FirstFit lines h pos := by
  rw [hunkPosition, FirstFit]
  by_cases hnone : matchLinesOf h = []
  · rw [if_pos hnone, if_pos hnone, Option.some.injEq]
    exact eq_comm
  · rw [if_neg hnone, if_neg hnone]
    have hexact : ∀ i, ((lines.drop i).take (matchLinesOf h).length == matchLinesOf h) = true ↔
        StandsAt (matchLinesOf h) lines i := by
      intro i
      rw [beq_iff_eq, standsAt_iff]
    have hstripped : ∀ i, (((lines.drop i).take (matchLinesOf h).length).map Text.rstrip ==
        (matchLinesOf h).map Text.rstrip) = true ↔
        StandsAt ((matchLinesOf h).map Text.rstrip) (lines.map Text.rstrip) i := by
      intro i
      rw [beq_iff_eq, standsAt_iff, List.length_map, List.map_take, List.map_drop]
    have hnone' : (matchLinesOf h).map Text.rstrip ≠ [] :=
      fun hnil => hnone (List.map_eq_nil_iff.mp hnil)
    have hlength : List.range (lines.length + 1 - (matchLinesOf h).length) =
        List.range ((lines.map Text.rstrip).length + 1 -
          ((matchLinesOf h).map Text.rstrip).length) := by
      rw [List.length_map, List.length_map]
    simp only [findMatch]
    cases hfind : (List.range (lines.length + 1 - (matchLinesOf h).length)).find?
        (fun i => (lines.drop i).take (matchLinesOf h).length == matchLinesOf h) with
    | some i =>
      have hfirst := (find?_positions hnone hexact i).mp hfind
      show some i = some pos ↔ _
      constructor
      · intro heq
        obtain rfl := Option.some.inj heq
        exact .inl hfirst
      · intro hfit
        cases hfit with
        | inl hpos => rw [← (find?_positions hnone hexact pos).mpr hpos, hfind]
        | inr habsent => exact absurd hfirst.1 (habsent.1 i)
    | none =>
      have habsent := (find?_positions_eq_none hnone hexact).mp hfind
      show (List.range _).find? _ = some pos ↔ _
      rw [hlength, find?_positions hnone' hstripped]
      exact ⟨fun hfirst => .inr ⟨habsent, hfirst⟩, fun hfit =>
        hfit.elim (fun hpos => absurd hpos.1 (habsent pos)) And.right⟩

/-! ## Hunks in order -/

/-- What the lines of a hunk make of the lines they stand for. -/
def newLines : List TextLine → List (LineKind × Line) → List TextLine
  | old, (.add, content) :: lines => ⟨content, none⟩ :: newLines old lines
  | line :: old, (.context, _) :: lines => line :: newLines old lines
  | _ :: old, (.delete, _) :: lines => newLines old lines
  | _, _ => []

/-- A line in front of the first old line, or that line itself, has the hint. -/
def Hinted (h : Hunk) (front old : List TextLine) : Prop :=
  h.contextHint = [] ∨ ∃ line ∈ front ++ old.take 1, h.contextHint <:+: line.text

/-- The hunks have their places one behind the other: `passed` are the lines of the file in front
of the next one, `built` what has become of them, and `final` is the text in the end. -/
inductive InPlace (found : List Line → Hunk → Nat → Prop) :
    List TextLine → List TextLine → List TextLine → List Hunk → List TextLine → Prop
  | done (passed built ahead : List TextLine) : InPlace found passed built ahead [] (built ++ ahead)
  | hunk {passed built ahead gap old rest final : List TextLine} {h : Hunk} {hunks : List Hunk}
      (split : ahead = gap ++ (old ++ rest))
      (place : found (texts (built ++ ahead)) h (built ++ gap).length)
      (size : old.length = (matchLinesOf h).length)
      (hinted : Hinted h (passed ++ gap) old)
      (tail : InPlace found (passed ++ gap ++ old) (built ++ gap ++ newLines old h.lines) rest hunks
        final) :
      InPlace found passed built ahead (h :: hunks) final

theorem texts_newLines {old : List TextLine} {lines : List (LineKind × Line)}
    (hsize : old.length = (lines.filter fun line => line.1 != .add).length) (rest : List Line) :
    rewriteLines (texts old ++ rest) lines = texts (newLines old lines) ++ rest := by
  fun_induction newLines old lines with
  | case1 old content lines ih =>
    rw [rewriteLines, ih hsize]
    rfl
  | case2 line old content lines ih =>
    show rewriteLines (line.text :: (texts old ++ rest)) _ = _
    rw [rewriteLines, ih (by simpa using hsize)]
    rfl
  | case3 line old content lines ih =>
    show rewriteLines (line.text :: (texts old ++ rest)) _ = _
    rw [rewriteLines, ih (by simpa using hsize)]
  | case4 lines old hadd hcontext hdelete =>
    cases lines with
    | nil =>
      obtain rfl : old = [] := List.length_eq_zero_iff.mp hsize
      cases rest <;> rfl
    | cons line lines =>
      obtain ⟨kind, content⟩ := line
      cases old with
      | nil => cases kind <;> first | exact (hadd content lines rfl).elim | simp at hsize
      | cons line old =>
        cases kind with
        | context => exact (hcontext line old content lines rfl rfl).elim
        | delete => exact (hdelete line old content lines rfl rfl).elim
        | add => exact (hadd content lines rfl).elim

/-! ## The text -/

/-- The break behind a line that others follow. -/
def TextLine.between (x : TextLine) : List Char :=
  match x.ending with
  | some (c :: t) => c :: t
  | _ => ['\n']

/-- The break behind the last line; one that was added may end the file without, unless it is
blank. -/
def TextLine.atEnd (closed : Bool) (x : TextLine) : List Char :=
  match x.ending with
  | some ending => ending
  | none => if closed = true ∨ x.text = [] then ['\n'] else []

/-- The text of the lines, those of the file with their own line breaks. -/
def spell (closed : Bool) : List TextLine → List Char
  | [] => []
  | [x] => x.text ++ x.atEnd closed
  | x :: y :: rest => x.text ++ (x.between ++ spell closed (y :: rest))

/-- What `_apply_update_file` writes behind the last line. -/
def finalBreak (content : List Char) (fileLines : List Line) : List Char :=
  if (content.getLast? = some '\n' ∨ fileLines.getLast? = some []) ∧
    (['\n'].intercalate fileLines).getLast? ≠ some '\n' then ['\n'] else []

theorem rewriteLines_of_none {h : Hunk} (hnone : matchLinesOf h = []) :
    rewriteLines [] h.lines = additionsOf h := by
  rw [matchLinesOf, List.map_eq_nil_iff] at hnone
  rw [additionsOf]
  generalize h.lines = lines at hnone ⊢
  induction lines with
  | nil => rfl
  | cons line lines ih =>
    obtain ⟨kind, content⟩ := line
    cases kind with
    | add => simpa [rewriteLines] using ih (by simpa using hnone)
    | context => simp at hnone
    | delete => simp at hnone

theorem between_eq_iff {x : TextLine} (hsingle : ∀ ending, x.ending = some ending →
      ending.head? = some '\n' → ending = ['\n']) {joined spelled : List Char} :
    '\n' :: joined = x.between ++ spelled ↔
      (∀ ending, x.ending = some ending → ending = [] ∨ ending = ['\n']) ∧ joined = spelled := by
  obtain ⟨text, ending⟩ := x
  match ending with
  | none => simp [TextLine.between]
  | some [] => simp [TextLine.between]
  | some (c :: t) =>
    show '\n' :: joined = c :: (t ++ spelled) ↔ _
    constructor
    · intro heq
      obtain ⟨rfl, hrest⟩ := List.cons.inj heq
      have ht := hsingle _ rfl rfl
      obtain rfl : t = [] := by simpa using ht
      exact ⟨fun ending hending => .inr (Option.some.inj hending).symm, hrest⟩
    · intro h
      have hlf : c :: t = ['\n'] := (h.1 _ rfl).resolve_left (List.cons_ne_nil _ _)
      obtain ⟨rfl, rfl⟩ := List.cons.inj hlf
      exact congrArg _ h.2

/-- The joined lines are the text where the lines have the breaks they are joined with. -/
theorem join_eq_spell_iff {closed : Bool} {brk : List Char} (init : List TextLine) (x : TextLine)
    (hsingle : ∀ y ∈ init, ∀ ending, y.ending = some ending →
      ending.head? = some '\n' → ending = ['\n']) :
    ['\n'].intercalate (texts (init ++ [x])) ++ brk = spell closed (init ++ [x]) ↔
      (∀ y ∈ init, ∀ ending, y.ending = some ending → ending = [] ∨ ending = ['\n']) ∧
        brk = x.atEnd closed := by
  induction init with
  | nil => simp [texts, spell]
  | cons y init ih =>
    have hrest := ih fun z hz => hsingle z (List.mem_cons_of_mem y hz)
    have hy := hsingle y List.mem_cons_self
    obtain ⟨z, rest, hcons⟩ : ∃ z rest, init ++ [x] = z :: rest :=
      List.exists_cons_of_ne_nil (List.append_ne_nil_of_right_ne_nil init (List.cons_ne_nil x []))
    rw [hcons] at hrest
    have hjoin : ['\n'].intercalate (texts (y :: z :: rest)) ++ brk =
        y.text ++ '\n' :: (['\n'].intercalate (texts (z :: rest)) ++ brk) := by
      show ['\n'].intercalate (y.text :: z.text :: texts rest) ++ brk = _
      rw [List.intercalate_cons_cons]
      simp [texts]
    rw [List.cons_append, hcons, hjoin, spell, List.append_cancel_left_eq, between_eq_iff hy, hrest,
      List.forall_mem_cons, and_assoc]

theorem getLast?_join (init : List Line) (x : Line) :
    (['\n'].intercalate (init ++ [x])).getLast? =
      if init ≠ [] ∧ x = [] then some '\n' else x.getLast? := by
  induction init with
  | nil => simp
  | cons y init ih =>
    obtain ⟨z, rest, hrest⟩ := List.exists_cons_of_ne_nil
      (List.append_ne_nil_of_right_ne_nil init (List.cons_ne_nil x []))
    rw [List.cons_append, hrest, List.intercalate_cons_cons, ← hrest, List.append_assoc,
      List.getLast?_append, List.getLast?_append, ih]
    by_cases hx : x = []
    · subst hx
      by_cases hinit : init = [] <;> simp [hinit]
    · have hlast : ∃ c, x.getLast? = some c := ⟨_, List.getLast?_eq_some_getLast hx⟩
      obtain ⟨c, hc⟩ := hlast
      simp [hx, hc]

/-- The text of the lines is what they are joined to: every line but the last is broken by `\n`,
or was open; the last is not blank but by itself, and has the break that the file ends with. -/
structure Rejoins (content : List Char) (final : List TextLine) : Prop where
  inner : ∀ x ∈ final.dropLast, ∀ ending, x.ending = some ending → ending = [] ∨ ending = ['\n']
  blank : final.getLast?.map TextLine.text = some [] → final.length = 1
  last : ∀ x, final.getLast? = some x → ∀ ending, x.ending = some ending →
    ending = [] ∨ ending = ['\n'] ∧ (x.text = [] ∨ content.getLast? = some '\n')
  none_left : final = [] → content.getLast? ≠ some '\n'

theorem finalBreak_append (content : List Char) (init : List Line) (x : Line) :
    finalBreak content (init ++ [x]) =
      if x = [] then (if init = [] then ['\n'] else [])
      else if content.getLast? = some '\n' ∧ x.getLast? ≠ some '\n' then ['\n'] else [] := by
  rw [finalBreak, getLast?_join, List.getLast?_append]
  by_cases hx : x = []
  · by_cases hinit : init = [] <;> simp [hx, hinit]
  · simp [hx]

/-- The break that is written last is one for the last line. -/
theorem exists_atEnd_iff {content : List Char} {init : List TextLine} {x : TextLine}
    (hbare : ∀ ending, x.ending = some ending → x.text.getLast? ≠ some '\n')
    (hopen : x.ending = some [] → x.text ≠ [] ∧ content.getLast? ≠ some '\n') :
    (∃ closed, finalBreak content (texts init ++ [x.text]) = x.atEnd closed) ↔
      (x.text = [] → init = []) ∧ ∀ ending, x.ending = some ending →
        ending = [] ∨ ending = ['\n'] ∧ (x.text = [] ∨ content.getLast? = some '\n') := by
  obtain ⟨text, ending⟩ := x
  have hinit : texts init = [] ↔ init = [] := List.map_eq_nil_iff
  simp only [finalBreak_append, hinit]
  by_cases htext : text = []
  · subst htext
    cases ending with
    | none => simp [TextLine.atEnd]
    | some ending =>
      have hne : ending ≠ [] := by
        rintro rfl
        exact (hopen rfl).1 rfl
      by_cases hempty : init = []
      · simp [TextLine.atEnd, hempty, hne, eq_comm]
      · simp [TextLine.atEnd, hempty, hne, eq_comm]
  · cases ending with
    | none =>
      simp only [TextLine.atEnd, htext, if_false, or_false]
      refine iff_of_true ?_ ⟨fun h => absurd h id, nofun⟩
      split
      · exact ⟨true, rfl⟩
      · exact ⟨false, rfl⟩
    | some ending =>
      have hlast : text.getLast? ≠ some '\n' := hbare ending rfl
      by_cases hcontent : content.getLast? = some '\n'
      · have hne : ending ≠ [] := by
          rintro rfl
          exact (hopen rfl).2 hcontent
        simp [TextLine.atEnd, htext, hlast, hcontent, hne, eq_comm]
      · simp [TextLine.atEnd, htext, hcontent, eq_comm]

/-- What is written is the text of the lines. -/
theorem exists_spell_iff {content : List Char} {final : List TextLine}
    (hended : ∀ x ∈ final, ∀ ending, x.ending = some ending → x.text.getLast? ≠ some '\n' ∧
      (ending.head? = some '\n' → ending = ['\n']) ∧
      (ending = [] → x.text ≠ [] ∧ content.getLast? ≠ some '\n')) :
    (∃ closed, ['\n'].intercalate (texts final) ++ finalBreak content (texts final) =
      spell closed final) ↔ Rejoins content final := by
  cases final using List.reverseRecOn with
  | nil =>
    have hjoin : ['\n'].intercalate (texts []) ++ finalBreak content (texts []) =
        if content.getLast? = some '\n' then ['\n'] else [] := by
      simp [texts, finalBreak]
    rw [hjoin]
    constructor
    · intro h
      obtain ⟨closed, heq⟩ := h
      refine ⟨nofun, nofun, nofun, fun _ hlast => ?_⟩
      rw [if_pos hlast] at heq
      cases heq
    · intro h
      exact ⟨true, if_neg (h.none_left rfl)⟩
  | append_singleton init x =>
    have hx := hended x (List.mem_append_right init List.mem_cons_self)
    have hlast : (∃ closed, finalBreak content (texts init ++ [x.text]) = x.atEnd closed) ↔ _ :=
      exists_atEnd_iff (fun ending hending => (hx ending hending).1)
        (fun hopen => (hx [] hopen).2.2 rfl)
    have hsingle : ∀ y ∈ init, ∀ ending, y.ending = some ending →
        ending.head? = some '\n' → ending = ['\n'] :=
      fun y hy ending hending => (hended y (List.mem_append_left _ hy) ending hending).2.1
    have htexts : texts (init ++ [x]) = texts init ++ [x.text] := List.map_append
    have hpull : ∀ brk, (∃ closed, ['\n'].intercalate (texts (init ++ [x])) ++ brk =
          spell closed (init ++ [x])) ↔
        (∀ y ∈ init, ∀ ending, y.ending = some ending → ending = [] ∨ ending = ['\n']) ∧
          ∃ closed, brk = x.atEnd closed := by
      intro brk
      rw [← exists_and_left]
      exact exists_congr fun closed => join_eq_spell_iff init x hsingle
    rw [hpull, htexts, hlast]
    constructor
    · intro h
      refine ⟨?_, ?_, ?_, ?_⟩
      · rw [List.dropLast_concat]
        exact h.1
      · simpa using h.2.1
      · simpa using h.2.2
      · simp
    · intro h
      refine ⟨?_, ?_, ?_⟩
      · have hinner := h.inner
        rwa [List.dropLast_concat] at hinner
      · simpa using h.blank
      · simpa using h.last

section Tool

variable [Runtime]

theorem applyHunk_of_position {filename : List Char} {fileLines : List Line} {h : Hunk} {pos : Nat}
    (hpos : hunkPosition fileLines h = some pos) :
    applyHunk filename fileLines h =
      .ok (fileLines.take pos ++ rewriteLines (fileLines.drop pos) h.lines) := by
  rw [hunkPosition] at hpos
  rw [applyHunk]
  split at hpos
  · rename_i hnone
    obtain rfl := Option.some.inj hpos
    rw [if_pos hnone, List.take_length, List.drop_length, rewriteLines_of_none hnone]
  · rename_i hsome
    rw [if_neg hsome, hpos]

theorem foldlM_of_inPlace {filename : List Char} {passed built ahead final : List TextLine}
    {hunks : List Hunk} (h : InPlace (fun lines h pos => hunkPosition lines h = some pos) passed
      built ahead hunks final) :
    hunks.foldlM (applyHunk filename) (texts (built ++ ahead)) = .ok (texts final) := by
  induction h with
  | done => rfl
  | @hunk passed built ahead gap old rest final h hunks split place size hinted tail ih =>
    have hlines : texts (built ++ ahead) = texts (built ++ gap) ++ (texts old ++ texts rest) := by
      simp [texts, split]
    have hlength : (built ++ gap).length = (texts (built ++ gap)).length := (List.length_map _).symm
    rw [List.foldlM_cons, applyHunk_of_position place, hlines, hlength, List.take_left,
      List.drop_left, texts_newLines (by simpa [matchLinesOf] using size), ← ih]
    show hunks.foldlM _ _ = _
    simp [texts]

theorem updatedText_eq {filename content : List Char} {hunks : List Hunk} {fileLines : List Line}
    (h : hunks.foldlM (applyHunk filename) (splitlines content) = .ok fileLines) :
    updatedText filename content hunks =
      .ok (['\n'].intercalate fileLines ++ finalBreak content fileLines) := by
  rw [updatedText, h, finalBreak]
  show Except.ok (if _ then _ else _) = _
  split
  · rfl
  · rw [List.append_nil]

end Tool

/-! ## The lines that are kept -/

theorem mem_newLines {old : List TextLine} {lines : List (LineKind × Line)} {x : TextLine}
    (hx : x ∈ newLines old lines) : x.ending = none ∨ x ∈ old := by
  fun_induction newLines old lines with
  | case1 old content lines ih =>
    cases List.mem_cons.mp hx with
    | inl heq => exact .inl (congrArg TextLine.ending heq)
    | inr hmem => exact ih hmem
  | case2 line old content lines ih =>
    cases List.mem_cons.mp hx with
    | inl heq => exact .inr (heq ▸ List.mem_cons_self)
    | inr hmem => exact (ih hmem).imp_right (List.mem_cons_of_mem line)
  | case3 line old content lines ih => exact (ih hx).imp_right (List.mem_cons_of_mem line)
  | case4 => cases hx

theorem InPlace.kept {found : List Line → Hunk → Nat → Prop}
    {passed built ahead final : List TextLine} {hunks : List Hunk}
    (h : InPlace found passed built ahead hunks final) {x : TextLine} (hx : x ∈ final) :
    x.ending = none ∨ x ∈ built ++ ahead := by
  induction h with
  | done => exact .inr hx
  | @hunk passed built ahead gap old rest final h hunks split place size hinted tail ih =>
    rw [split]
    cases ih hx with
    | inl hadded => exact .inl hadded
    | inr hmem =>
      simp only [List.mem_append] at hmem ⊢
      obtain ((hbuilt | hgap) | hnew) | hrest := hmem
      · exact .inr (.inl hbuilt)
      · exact .inr (.inr (.inl hgap))
      · exact (mem_newLines hnew).imp_right fun hold => .inr (.inr (.inl hold))
      · exact .inr (.inr (.inr (.inr hrest)))

/-! ## Updates -/

/-- The hunks are applied behind one another and not in front of their hints, and nothing changes
but the lines they stand for: the text is that of the lines with the hunks in place. -/
def ChangesOnlyMatches (file : List Char) (hunks : List Hunk) (result : List Char) : Prop :=
  ∃ final, InPlace (fun lines h pos => hunkPosition lines h = some pos) [] []
    (endedLines file) hunks final ∧ ∃ closed, result = spell closed final

/-- The hunks have places behind one another and not in front of their hints, none is to be found
further up, and the lines are broken as they will be joined. -/
def FoundInOrder (file : List Char) (hunks : List Hunk) : Prop :=
  ∃ final, InPlace FirstFit [] [] (endedLines file) hunks final ∧
    Rejoins (universalNewlines file) final

section Tool

variable [Runtime]

/-- What an update makes of the text of a file. -/
def updatedFile (filename file : List Char) (hunks : List Hunk) : Except PyExc (List Char) :=
  updatedText filename (universalNewlines file) hunks

theorem updatedText_of_readText {path content : List Char} {t t' : Tree}
    (h : readText path t = (.ok content, t')) (filename : List Char) (hunks : List Hunk) :
    ∃ bytes file, t.files (placeOf t.cwd path) = some bytes ∧ Json.fileText bytes = some file ∧
      updatedText filename content hunks = updatedFile filename file hunks := by
  obtain ⟨bytes, file, hbytes, hfile, hcontent⟩ := readText_ok h
  exact ⟨bytes, file, hbytes, hfile, by rw [hcontent, updatedFile]⟩

theorem updatedFile_of_inPlace {filename file : List Char} {hunks : List Hunk}
    {final : List TextLine} (h : InPlace (fun lines h pos => hunkPosition lines h = some pos) [] []
      (endedLines file) hunks final) :
    updatedFile filename file hunks = .ok (['\n'].intercalate (texts final) ++
      finalBreak (universalNewlines file) (texts final)) := by
  have hlines : splitlines (universalNewlines file) = texts (endedLines file) :=
    splitlinesFrom_universal [] file
  refine updatedText_eq ?_
  rw [hlines]
  exact foldlM_of_inPlace h

theorem hunks_in_order_iff {filename file result : List Char} {hunks : List Hunk}
    (h : updatedFile filename file hunks = .ok result) :
    ChangesOnlyMatches file hunks result ↔ FoundInOrder file hunks := by
  have hfound : (fun lines h pos => hunkPosition lines h = some pos) = FirstFit := by
    funext lines h pos
    exact propext hunkPosition_iff
  have hnil : ([] : Line).getLast? ≠ some '\n' := by simp
  refine exists_congr fun final => ?_
  rw [← hfound]
  refine and_congr_right fun hplace => ?_
  rw [← exists_spell_iff, ← Except.ok.inj ((updatedFile_of_inPlace hplace).symm.trans h)]
  intro x hx ending hending
  have hmem : x ∈ endedLines file := (hplace.kept hx).resolve_left (by simp [hending])
  obtain ⟨ending', hending', hended⟩ := ended_of_mem hnil hmem
  obtain rfl := Option.some.inj (hending'.symm.trans hending)
  exact ⟨hended.bare, hended.single, hended.open_end⟩

end Tool

section Demo

open Py.Ascii

def letters : List Char := "a\nb\na\n".toList

/-- Behind `b`, `a` goes. -/
def dropSecond : Hunk where
  contextHint := ['b']
  lines := [(.context, ['b']), (.delete, ['a'])]

/-- The same, but for the line in front. -/
def dropHinted : Hunk where
  contextHint := ['b']
  lines := [(.delete, ['a'])]

theorem hunks_in_order_letters : ChangesOnlyMatches letters [dropSecond] "a\nb\n".toList := by
  have hresult : updatedFile [] letters [dropSecond] = .ok "a\nb\n".toList := by decide +kernel
  have hsplit : endedLines letters = [⟨['a'], some ['\n']⟩] ++
      ([⟨['b'], some ['\n']⟩, ⟨['a'], some ['\n']⟩] ++ []) := by
    have hletters : letters = ['a', '\n', 'b', '\n', 'a', '\n'] := by decide +kernel
    rw [hletters]
    rfl
  have hfit : FirstFit (texts ([] ++ endedLines letters)) dropSecond 1 :=
    hunkPosition_iff.mp (by decide +kernel)
  have hhint : Hinted dropSecond ([] ++ [⟨['a'], some ['\n']⟩])
      [⟨['b'], some ['\n']⟩, ⟨['a'], some ['\n']⟩] :=
    .inr ⟨⟨['b'], some ['\n']⟩, by simp, List.infix_refl _⟩
  refine (hunks_in_order_iff hresult).mpr ⟨_, .hunk hsplit hfit rfl hhint (.done _ _ _), ?_⟩
  exact
    { inner := by simp [newLines, dropSecond]
      blank := by simp [newLines, dropSecond]
      last := by simp [newLines, dropSecond]; decide +kernel
      none_left := by simp [newLines, dropSecond] }

/-- The first `a` goes, which is not behind the hint. -/
theorem hint_overlooked : ¬ ∀ (filename file : List Char) (hunks : List Hunk) (result : List Char),
    updatedFile filename file hunks = .ok result → ChangesOnlyMatches file hunks result := by
  intro hall
  have hresult : updatedFile [] letters [dropHinted] = .ok "b\na\n".toList := by decide +kernel
  obtain ⟨final, hplace, -⟩ := hall [] letters [dropHinted] _ hresult
  have hpos : hunkPosition (texts ([] ++ endedLines letters)) dropHinted = some 0 := by
    decide +kernel
  have hlines : texts (endedLines letters) = [['a'], ['b'], ['a']] := by decide +kernel
  cases hplace with
  | @hunk _ _ _ gap old rest _ _ _ split place size hinted tail =>
    have hgap : gap = [] :=
      List.length_eq_zero_iff.mp (Option.some.inj (hpos.symm.trans place)).symm
    obtain ⟨x, hx⟩ : ∃ x, old = [x] := List.length_eq_one_iff.mp size
    subst hgap hx
    have htext : x.text = ['a'] := by
      have hhead := congrArg texts split
      rw [hlines] at hhead
      exact (List.cons.inj hhead).1.symm
    have hapart : ¬ ['b'] <:+: ['a'] := by decide
    cases hinted with
    | inl hnone => cases hnone
    | inr hline =>
      obtain ⟨line, hmem, hinfix⟩ := hline
      obtain rfl : line = x := by simpa using hmem
      rw [htext] at hinfix
      exact hapart hinfix

end Demo

end Patch
end DotRunner
