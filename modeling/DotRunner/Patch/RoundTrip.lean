import DotRunner.Patch.Format
import DotRunner.Py.Ascii
import DotRunner.Py.Strip
import Mathlib.Data.List.TakeWhile

/-!
# Patches and their texts

A patch is read back from its text exactly where it is expressible: the parser
gives the operations the grammar wrote, and whatever it gives is expressible.
-/

namespace DotRunner
namespace Patch

open Py

/-! ## Prefixes -/

theorem dropPrefix?_self_append (pat l : List Char) : Text.dropPrefix? pat (pat ++ l) = some l :=
  Text.dropPrefix?_eq_some_iff.mpr rfl

/-- Two markers that differ somewhere never begin the same line. -/
def clash (a b : List Char) : Bool := (a.zip b).any fun p => p.1 != p.2

theorem dropPrefix?_of_clash {a b : List Char} (h : clash a b = true) (l : List Char) :
    Text.dropPrefix? a (b ++ l) = none := by
  induction a generalizing b with
  | nil => simp [clash] at h
  | cons x a ih =>
    cases b with
    | nil => simp [clash] at h
    | cons y b =>
      rw [List.cons_append, Text.dropPrefix?]
      by_cases hxy : x = y
      · rw [if_pos hxy]
        apply ih
        simpa [clash, hxy] using h
      · rw [if_neg hxy]

theorem head?_marker {marker : Line} {c : Char} (h : marker.head? = some c) (l : List Char) :
    (marker ++ l).head? = some c := by
  cases marker with
  | nil => simp at h
  | cons x marker => simpa using h

theorem isHunkLine_eq_false {c : Char} {line : Line} (h : line.head? = some c)
    (hc : (c == ' ' || c == '-' || c == '+') = false) : isHunkLine line = false := by
  cases line with
  | nil => simp at h
  | cons x line =>
    have hx : x = c := by simpa using h
    subst hx
    exact hc

theorem isHunkLine_renderLine (line : LineKind × Line) : isHunkLine (renderLine line) = true := by
  obtain ⟨kind, content⟩ := line
  cases kind <;> simp [renderLine, isHunkLine]

/-- The lines after a run of lines of one sort. -/
theorem span_run {p : Line → Bool} {run rest : List Line} (hrun : ∀ x ∈ run, p x = true)
    (hrest : ∀ x, rest.head? = some x → p x = false) :
    (run ++ rest).takeWhile p = run ∧ (run ++ rest).dropWhile p = rest := by
  have hstop : rest.takeWhile p = [] ∧ rest.dropWhile p = rest := by
    cases rest with
    | nil => simp
    | cons x rest => simp [hrest x rfl]
  constructor
  · rw [List.takeWhile_append_of_pos hrun, hstop.1, List.append_nil]
  · rw [List.dropWhile_append_of_pos hrun, hstop.2]

/-- Where everything is written on some line, there are enough lines for all of it. -/
theorem length_le_flatMap {α : Type} {render : α → List Line} (h : ∀ a, render a ≠ [])
    (l : List α) : l.length ≤ (l.flatMap render).length := by
  induction l with
  | nil => exact Nat.zero_le _
  | cons a l ih =>
    have ha : 0 < (render a).length := List.length_pos_iff.mpr (h a)
    rw [List.flatMap_cons, List.length_append, List.length_cons]
    omega

/-! ## The lines of a file -/

theorem joinContent_ends (lines : List Line) :
    joinContent lines = [] ∨ (joinContent lines).getLast? = some '\n' := by
  rw [joinContent]
  by_cases h : lines = []
  · left
    rw [if_pos h]
  · right
    rw [if_neg h]
    simp

theorem contentLines_append_newline (body : List Char) :
    contentLines (body ++ ['\n']) = body.splitOn '\n' := by
  have hsplit : (body ++ ['\n']).splitOn '\n' = body.splitOn '\n' ++ [[]] :=
    List.splitOn_append_cons_self body []
  rw [contentLines, hsplit]
  simp

theorem joinContent_contentLines {content : List Char}
    (h : content = [] ∨ content.getLast? = some '\n') :
    joinContent (contentLines content) = content := by
  rcases h with h | h
  · subst h
    rfl
  · obtain ⟨body, rfl⟩ : ∃ body, content = body ++ ['\n'] := by
      rw [List.getLast?_eq_some_iff] at h
      exact h
    rw [contentLines_append_newline, joinContent, if_neg (List.splitOn_ne_nil _ _),
      List.intercalate_splitOn]

theorem oneLine_of_mem_splitOn {text line : List Char} (h : line ∈ text.splitOn '\n') :
    OneLine line := by
  induction text generalizing line with
  | nil =>
    have hnil : line = [] := by simpa using h
    rw [hnil]
    exact List.not_mem_nil
  | cons c text ih =>
    rw [List.splitOn_cons_eq_if_modifyHead] at h
    by_cases hc : (c == '\n') = true
    · rw [if_pos hc] at h
      rcases List.mem_cons.mp h with rfl | h
      · exact List.not_mem_nil
      · exact ih h
    · rw [if_neg hc] at h
      cases hs : text.splitOn '\n' with
      | nil => exact absurd hs (List.splitOn_ne_nil _ _)
      | cons first others =>
        rw [hs] at h ih
        rcases List.mem_cons.mp h with rfl | h
        · intro hmem
          rcases List.mem_cons.mp hmem with heq | hmem
          · exact hc (by simp [← heq])
          · exact ih List.mem_cons_self hmem
        · exact ih (List.mem_cons_of_mem first h)

/-! ## Lines that end the patch -/

theorem strip_ne {line marker : Line} {c : Char} (hc : Text.isSpace c = false)
    (h : line.head? = some c) (hmarker : Text.dropPrefix? marker line = none) :
    Text.strip line ≠ marker := by
  intro heq
  have hbare : Text.StartsBare line := by
    intro d hd
    rw [h] at hd
    cases hd
    exact hc
  obtain ⟨r, hr⟩ := Text.strip_prefix hbare
  rw [heq] at hr
  have hsome : Text.dropPrefix? marker line = some r := Text.dropPrefix?_eq_some_iff.mpr hr.symm
  rw [hmarker] at hsome
  cases hsome

theorem strip_marker_ne {marker other : Line} {c : Char} (hhead : marker.head? = some c)
    (hc : Text.isSpace c = false) (h : clash other marker = true) (l : Line) :
    Text.strip (marker ++ l) ≠ other :=
  strip_ne hc (head?_marker hhead l) (dropPrefix?_of_clash h l)

/-- No line of an expressible operation is taken for the end. -/
theorem strip_renderLine_ne {line : LineKind × Line}
    (h : line.1 = .context → Text.strip line.2 ≠ endPatch) :
    Text.strip (renderLine line) ≠ endPatch := by
  obtain ⟨kind, content⟩ := line
  cases kind with
  | context =>
    rw [renderLine, Text.strip_cons_space (by decide)]
    exact h rfl
  | delete =>
    show Text.strip (['-'] ++ content) ≠ endPatch
    exact strip_marker_ne rfl (by decide) (by decide +kernel) content
  | add =>
    show Text.strip (['+'] ++ content) ≠ endPatch
    exact strip_marker_ne rfl (by decide) (by decide +kernel) content

/-- The markers in front of a path begin like the end of a patch, and then differ from it. -/
theorem pathMarkers_clash :
    ∀ marker ∈ [addFileMarker, deleteFileMarker, updateFileMarker, moveToMarker],
      marker.head? = some '*' ∧ clash endPatch marker = true := by
  decide +kernel

theorem pathMarker_strip_ne {marker : Line}
    (h : marker ∈ [addFileMarker, deleteFileMarker, updateFileMarker, moveToMarker]) (l : Line) :
    Text.strip (marker ++ l) ≠ endPatch :=
  strip_marker_ne (pathMarkers_clash marker h).1 (by decide) (pathMarkers_clash marker h).2 l

theorem addFile_strip_ne (l : Line) : Text.strip (addFileMarker ++ l) ≠ endPatch :=
  pathMarker_strip_ne List.mem_cons_self l

theorem deleteFile_strip_ne (l : Line) : Text.strip (deleteFileMarker ++ l) ≠ endPatch :=
  pathMarker_strip_ne (by simp) l

theorem updateFile_strip_ne (l : Line) : Text.strip (updateFileMarker ++ l) ≠ endPatch :=
  pathMarker_strip_ne (by simp) l

theorem moveTo_strip_ne (l : Line) : Text.strip (moveToMarker ++ l) ≠ endPatch :=
  pathMarker_strip_ne (by simp) l

theorem hunk_strip_ne (l : Line) : Text.strip (hunkMarker ++ l) ≠ endPatch :=
  strip_marker_ne (c := '@') (by decide +kernel) (by decide) (by decide +kernel) l

theorem strip_renderOperation_ne {operation : PatchOperation} (h : operation.Expressible) :
    ∀ l ∈ renderOperation operation, Text.strip l ≠ endPatch := by
  intro l hl
  cases operation with
  | addFile path content =>
    rcases List.mem_cons.mp hl with rfl | hl
    · exact addFile_strip_ne path
    · obtain ⟨line, _, rfl⟩ := List.mem_map.mp hl
      show Text.strip (renderLine (.add, line)) ≠ endPatch
      exact strip_renderLine_ne fun h => nomatch h
  | deleteFile path =>
    have hpath : l = deleteFileMarker ++ path := by simpa [renderOperation] using hl
    rw [hpath]
    exact deleteFile_strip_ne path
  | updateFile path moveTo hunks =>
    rcases List.mem_cons.mp hl with rfl | hl
    · exact updateFile_strip_ne path
    rcases List.mem_append.mp hl with hl | hl
    · obtain ⟨newPath, _, rfl⟩ := List.mem_map.mp hl
      exact moveTo_strip_ne newPath
    · obtain ⟨x, hx, hl⟩ := List.mem_flatMap.mp hl
      rcases List.mem_cons.mp hl with rfl | hl
      · exact hunk_strip_ne x.contextHint
      · obtain ⟨⟨kind, content⟩, hline, rfl⟩ := List.mem_map.mp hl
        apply strip_renderLine_ne
        intro hkind
        have hkind' : kind = .context := hkind
        subst hkind'
        exact (h.2.2 x hx).noEnd content hline

/-! ## One line at a time -/

theorem oneLine_append {a b : List Char} (ha : OneLine a) (hb : OneLine b) : OneLine (a ++ b) := by
  intro hmem
  rcases List.mem_append.mp hmem with h | h
  · exact ha h
  · exact hb h

theorem oneLine_contentLines (content : List Char) : ∀ l ∈ contentLines content, OneLine l := by
  intro l hl
  have hsplit : l ∈ content.splitOn '\n' := by
    rw [contentLines] at hl
    split at hl
    · exact (List.dropLast_sublist _).subset hl
    · exact hl
  exact oneLine_of_mem_splitOn hsplit

theorem oneLine_renderOperation {operation : PatchOperation} (h : operation.Expressible) :
    ∀ l ∈ renderOperation operation, OneLine l := by
  intro l hl
  cases operation with
  | addFile path content =>
    rcases List.mem_cons.mp hl with rfl | hl
    · exact oneLine_append (by unfold OneLine; decide +kernel) h.1
    · obtain ⟨line, hline, rfl⟩ := List.mem_map.mp hl
      have hcontent := oneLine_contentLines content line hline
      exact oneLine_append (a := ['+']) (by unfold OneLine; decide) hcontent
  | deleteFile path =>
    have hpath : l = deleteFileMarker ++ path := by simpa [renderOperation] using hl
    rw [hpath]
    exact oneLine_append (by unfold OneLine; decide +kernel) h
  | updateFile path moveTo hunks =>
    rcases List.mem_cons.mp hl with rfl | hl
    · exact oneLine_append (by unfold OneLine; decide +kernel) h.1
    rcases List.mem_append.mp hl with hl | hl
    · obtain ⟨newPath, hnew, rfl⟩ := List.mem_map.mp hl
      exact oneLine_append (by unfold OneLine; decide +kernel)
        (h.2.1 newPath (Option.mem_toList.mp hnew))
    · obtain ⟨x, hx, hl⟩ := List.mem_flatMap.mp hl
      have hexpr := h.2.2 x hx
      rcases List.mem_cons.mp hl with rfl | hl
      · exact oneLine_append (by unfold OneLine; decide) hexpr.hint
      · obtain ⟨⟨kind, content⟩, hline, rfl⟩ := List.mem_map.mp hl
        have hcontent : OneLine content := hexpr.oneLine _ hline
        cases kind with
        | context => exact oneLine_append (a := [' ']) (by unfold OneLine; decide) hcontent
        | delete => exact oneLine_append (a := ['-']) (by unfold OneLine; decide) hcontent
        | add => exact oneLine_append (a := ['+']) (by unfold OneLine; decide) hcontent

theorem oneLine_of_marker {marker line rest : Line} (h : OneLine line)
    (hdrop : Text.dropPrefix? marker line = some rest) : OneLine rest := by
  intro hmem
  apply h
  rw [Text.dropPrefix?_eq_some_iff.mp hdrop]
  exact List.mem_append_right marker hmem

/-! ## Reading what was written -/

theorem dropPrefix?_of_head {marker line : Line} {c d : Char} (hmarker : marker.head? = some c)
    (hline : line.head? = some d) (hcd : c ≠ d) : Text.dropPrefix? marker line = none := by
  cases marker with
  | nil => simp at hmarker
  | cons x marker =>
    cases line with
    | nil => simp at hline
    | cons y line =>
      have hx : x = c := by simpa using hmarker
      have hy : y = d := by simpa using hline
      rw [Text.dropPrefix?, if_neg (by rw [hx, hy]; exact hcd)]

/-- What may stand behind an operation: nothing, or a line that begins neither a
hunk nor a rename. -/
structure Boundary (rest : List Line) : Prop where
  starred : ∀ x, rest.head? = some x → x.head? = some '*'
  noMove : ∀ x, rest.head? = some x → Text.dropPrefix? moveToMarker x = none

theorem boundary_cons {marker : Line} (hstar : marker.head? = some '*')
    (hmove : clash moveToMarker marker = true) (l : Line) (rest : List Line) :
    Boundary ((marker ++ l) :: rest) where
  starred x hx := by
    have hx' : marker ++ l = x := by simpa using hx
    rw [← hx']
    exact head?_marker hstar l
  noMove x hx := by
    have hx' : marker ++ l = x := by simpa using hx
    rw [← hx']
    exact dropPrefix?_of_clash hmove l

theorem boundary_render (operations : List PatchOperation) :
    Boundary (operations.flatMap renderOperation) := by
  cases operations with
  | nil => exact ⟨nofun, nofun⟩
  | cons operation operations =>
    cases operation with
    | addFile path content =>
      exact boundary_cons (by decide +kernel) (by decide +kernel) path _
    | deleteFile path =>
      exact boundary_cons (by decide +kernel) (by decide +kernel) path _
    | updateFile path moveTo hunks =>
      exact boundary_cons (by decide +kernel) (by decide +kernel) path _

theorem takeMove_render (moveTo : Option Line) {rest : List Line}
    (hrest : ∀ x, rest.head? = some x → Text.dropPrefix? moveToMarker x = none) :
    takeMove (renderMove moveTo ++ rest) = (moveTo, rest) := by
  cases moveTo with
  | none =>
    show takeMove rest = (none, rest)
    cases rest with
    | nil => rfl
    | cons x rest => rw [takeMove, hrest x rfl]
  | some path =>
    show takeMove ((moveToMarker ++ path) :: rest) = (some path, rest)
    rw [takeMove, dropPrefix?_self_append]

/-- Behind the body of a hunk stands the next one, or what follows the update. -/
theorem not_isHunkLine_head (hunks : List Hunk) {rest : List Line} (hrest : Boundary rest) :
    ∀ x, (hunks.flatMap renderHunk ++ rest).head? = some x → isHunkLine x = false := by
  intro x hx
  cases hunks with
  | nil => exact isHunkLine_eq_false (hrest.starred x hx) (by decide)
  | cons h hunks =>
    have hx' : hunkMarker ++ h.contextHint = x := by simpa [renderHunk] using hx
    rw [← hx']
    exact isHunkLine_eq_false (head?_marker (c := '@') rfl h.contextHint) (by decide)

/-- Lines of a text, none of which ends the patch. -/
def Body (lines : List Line) : Prop := ∀ l ∈ lines, OneLine l ∧ Text.strip l ≠ endPatch

theorem Body.of_subset {lines lines' : List Line} (h : Body lines) (hsub : lines' ⊆ lines) :
    Body lines' :=
  fun l hl => h l (hsub hl)

theorem Body.tail {line : Line} {lines : List Line} (h : Body (line :: lines)) : Body lines :=
  h.of_subset (List.subset_cons_self _ _)

theorem expressible_of_lines {hint : Line} (hhint : OneLine hint)
    {hunkLines : List (LineKind × Line)} (hbody : Body (hunkLines.map renderLine)) :
    Hunk.Expressible ⟨Text.strip hint, hunkLines⟩ where
  hint hmem := hhint (Text.mem_of_mem_strip hmem)
  hintStripped := Text.strip_strip hint
  oneLine := by
    rintro ⟨kind, content⟩ hline hmem
    have hone := (hbody _ (List.mem_map_of_mem hline)).1
    apply hone
    cases kind <;> exact List.mem_cons_of_mem _ hmem
  noEnd content hline := by
    have hend := (hbody _ (List.mem_map_of_mem hline)).2
    rwa [renderLine, Text.strip_cons_space (by decide)] at hend

theorem takeMove_body {lines : List Line} (hbody : Body lines) :
    (∀ newPath, (takeMove lines).1 = some newPath → OneLine newPath) ∧
      Body (takeMove lines).2 := by
  cases lines with
  | nil => exact ⟨nofun, hbody⟩
  | cons line rest =>
    rw [takeMove]
    split
    · rename_i path hdrop
      refine ⟨fun newPath hnew => ?_, hbody.tail⟩
      cases hnew
      exact oneLine_of_marker (hbody line List.mem_cons_self).1 hdrop
    · exact ⟨nofun, hbody⟩

section Reading

variable [Runtime]

theorem parseHunkLine_renderLine (line : LineKind × Line) :
    parseHunkLine (renderLine line) = .ok line := by
  obtain ⟨kind, content⟩ := line
  cases kind <;> rfl

theorem mapM_parseHunkLine (lines : List (LineKind × Line)) :
    (lines.map renderLine).mapM parseHunkLine = .ok lines := by
  induction lines with
  | nil => rfl
  | cons line lines ih =>
    rw [List.map_cons, List.mapM_cons, parseHunkLine_renderLine, ih]
    rfl

theorem parseHunks_nil {rest : List Line} (hrest : Boundary rest) (f : Nat) :
    parseHunks f rest = .ok ([], rest) := by
  cases f with
  | zero => rfl
  | succ f =>
    cases rest with
    | nil => rfl
    | cons x rest =>
      have hstar := hrest.starred x rfl
      rw [parseHunks, dropPrefix?_of_head (c := '@') rfl hstar (by decide)]
      dsimp only
      rw [if_neg (by rw [isHunkLine_eq_false hstar (by decide)]; exact Bool.false_ne_true)]

theorem parseHunks_render {hunks : List Hunk} {rest : List Line} (hrest : Boundary rest)
    (h : ∀ x ∈ hunks, x.Expressible) :
    ∀ f, hunks.length ≤ f →
      parseHunks f (hunks.flatMap renderHunk ++ rest) = .ok (hunks, rest) := by
  induction hunks with
  | nil => exact fun f _ => parseHunks_nil hrest f
  | cons x hunks ih =>
    intro f hf
    obtain ⟨f, rfl⟩ : ∃ g, f = g + 1 := Nat.exists_eq_add_of_le' (Nat.one_le_of_lt hf)
    have hlines : (x :: hunks).flatMap renderHunk ++ rest =
        (hunkMarker ++ x.contextHint) ::
          (x.lines.map renderLine ++ (hunks.flatMap renderHunk ++ rest)) := by
      simp [renderHunk]
    have hrun : ∀ l ∈ x.lines.map renderLine, isHunkLine l = true := by
      intro l hl
      obtain ⟨line, _, rfl⟩ := List.mem_map.mp hl
      exact isHunkLine_renderLine line
    obtain ⟨htake, hdrop⟩ := span_run hrun (not_isHunkLine_head hunks hrest)
    have htail := ih (fun y hy => h y (List.mem_cons_of_mem x hy)) f (Nat.le_of_succ_le_succ hf)
    rw [hlines, parseHunks, dropPrefix?_self_append]
    dsimp only
    rw [htake, hdrop, mapM_parseHunkLine, htail, (h x List.mem_cons_self).hintStripped]
    rfl

theorem parseOperations_addFile (f : Nat) (path : Line) (content : List Line) {rest : List Line}
    (hrest : Boundary rest) :
    parseOperations (f + 1) ((addFileMarker ++ path) :: (content.map ('+' :: ·) ++ rest)) =
      (parseOperations f rest).map (.addFile path (joinContent content) :: ·) := by
  have hrun : ∀ l ∈ content.map ('+' :: ·), isContentLine l = true := by
    intro l hl
    obtain ⟨line, _, rfl⟩ := List.mem_map.mp hl
    simp [isContentLine, Text.startsWith, Text.dropPrefix?]
  have hstop : ∀ x, rest.head? = some x → isContentLine x = false := by
    intro x hx
    have hnone : Text.dropPrefix? ['+'] x = none :=
      dropPrefix?_of_head rfl (hrest.starred x hx) (by decide)
    rw [isContentLine, Text.startsWith, hnone]
    rfl
  have htail : (content.map ('+' :: ·)).map List.tail = content := by
    rw [List.map_map]
    exact List.map_id content
  obtain ⟨htake, hdrop⟩ := span_run hrun hstop
  rw [parseOperations, dropPrefix?_self_append]
  dsimp only
  rw [htake, hdrop, htail]
  cases parseOperations f rest <;> rfl

theorem parseOperations_deleteFile (f : Nat) (path : Line) (rest : List Line) :
    parseOperations (f + 1) ((deleteFileMarker ++ path) :: rest) =
      (parseOperations f rest).map (.deleteFile path :: ·) := by
  have hadd := dropPrefix?_of_clash (a := addFileMarker) (b := deleteFileMarker)
    (by decide +kernel) path
  rw [parseOperations, hadd]
  dsimp only
  rw [dropPrefix?_self_append]
  cases parseOperations f rest <;> rfl

theorem parseOperations_updateFile (f : Nat) (path : Line) (moveTo : Option Line)
    {hunks : List Hunk} (h : ∀ x ∈ hunks, x.Expressible) {rest : List Line}
    (hrest : Boundary rest) :
    parseOperations (f + 1) ((updateFileMarker ++ path) ::
        (renderMove moveTo ++ (hunks.flatMap renderHunk ++ rest))) =
      (parseOperations f rest).map (.updateFile path moveTo hunks :: ·) := by
  have hadd := dropPrefix?_of_clash (a := addFileMarker) (b := updateFileMarker)
    (by decide +kernel) path
  have hdelete := dropPrefix?_of_clash (a := deleteFileMarker) (b := updateFileMarker)
    (by decide +kernel) path
  have hnoMove : ∀ x, (hunks.flatMap renderHunk ++ rest).head? = some x →
      Text.dropPrefix? moveToMarker x = none := by
    intro x hx
    cases hunks with
    | nil => exact hrest.noMove x hx
    | cons y hunks =>
      have hx' : hunkMarker ++ y.contextHint = x := by simpa [renderHunk] using hx
      rw [← hx']
      exact dropPrefix?_of_clash (by decide +kernel) y.contextHint
  have hlength : hunks.length ≤ (hunks.flatMap renderHunk).length :=
    length_le_flatMap (fun y => List.cons_ne_nil _ _) hunks
  rw [parseOperations, hadd]
  dsimp only
  rw [hdelete]
  dsimp only
  rw [dropPrefix?_self_append]
  dsimp only
  rw [takeMove_render moveTo hnoMove]
  dsimp only
  rw [parseHunks_render hrest h _ (by simp only [List.length_append]; omega)]
  show (parseOperations f rest >>= fun operations =>
    Except.ok (.updateFile path moveTo hunks :: operations)) = _
  cases parseOperations f rest <;> rfl

theorem parseOperations_render {operations : List PatchOperation}
    (h : ∀ x ∈ operations, x.Expressible) :
    ∀ f, operations.length ≤ f →
      parseOperations f (operations.flatMap renderOperation) = .ok operations := by
  induction operations with
  | nil =>
    intro f _
    cases f <;> rfl
  | cons x operations ih =>
    intro f hf
    obtain ⟨f, rfl⟩ : ∃ g, f = g + 1 := Nat.exists_eq_add_of_le' (Nat.one_le_of_lt hf)
    have hrest := boundary_render operations
    have htail := ih (fun y hy => h y (List.mem_cons_of_mem x hy)) f (Nat.le_of_succ_le_succ hf)
    have hx := h x List.mem_cons_self
    rw [List.flatMap_cons]
    cases x with
    | addFile path content =>
      rw [renderOperation, List.cons_append, parseOperations_addFile f path _ hrest, htail,
        joinContent_contentLines hx.2]
      rfl
    | deleteFile path =>
      rw [renderOperation, List.cons_append, List.nil_append, parseOperations_deleteFile, htail]
      rfl
    | updateFile path moveTo hunks =>
      rw [renderOperation, List.cons_append, List.append_assoc,
        parseOperations_updateFile f path moveTo hx.2.2 hrest, htail]
      rfl

/-- The whole text of a patch is read as its lines between the two markers. -/
theorem parseV4aPatch_lines {body : List Line} (hone : ∀ l ∈ body, OneLine l)
    (hend : ∀ l ∈ body, Text.strip l ≠ endPatch) :
    parseV4aPatch (['\n'].intercalate (beginPatch :: (body ++ [endPatch, []]))) =
      parseOperations body.length body := by
  have hlines : (['\n'].intercalate (beginPatch :: (body ++ [endPatch, []]))).splitOn '\n' =
      beginPatch :: (body ++ [endPatch, []]) := by
    apply List.splitOn_intercalate
    · intro l hl
      rcases List.mem_cons.mp hl with rfl | hl
      · decide +kernel
      · rcases List.mem_append.mp hl with hl | hl
        · exact hone l hl
        · have hmarkers : ∀ l ∈ [endPatch, []], '\n' ∉ l := by decide +kernel
          exact hmarkers l hl
    · exact List.cons_ne_nil _ _
  have hbegin : findLine beginPatch (beginPatch :: (body ++ [endPatch, []])) = some 0 := by
    have hstrip : (Text.strip beginPatch == beginPatch) = true := by decide +kernel
    rw [findLine, List.findIdx?_cons, hstrip]
    rfl
  have hfooter : findLine endPatch (body ++ [endPatch, []]) = some body.length := by
    have hstrip : (Text.strip endPatch == endPatch) = true := by decide +kernel
    have hnone : body.findIdx? (fun line => Text.strip line == endPatch) = none := by
      rw [List.findIdx?_eq_none_iff]
      intro l hl
      simpa using hend l hl
    rw [findLine, List.findIdx?_append, hnone, List.findIdx?_cons, hstrip]
    simp
  rw [parseV4aPatch]
  dsimp only
  rw [hlines, hbegin]
  dsimp only
  rw [List.drop_succ_cons, List.drop_zero, hfooter]
  dsimp only
  rw [List.take_left]

theorem parse_renderPatch {operations : List PatchOperation}
    (h : ∀ x ∈ operations, x.Expressible) :
    parseV4aPatch (renderPatch operations) = .ok operations := by
  have hone : ∀ l ∈ operations.flatMap renderOperation, OneLine l := by
    intro l hl
    obtain ⟨x, hx, hl⟩ := List.mem_flatMap.mp hl
    exact oneLine_renderOperation (h x hx) l hl
  have hend : ∀ l ∈ operations.flatMap renderOperation, Text.strip l ≠ endPatch := by
    intro l hl
    obtain ⟨x, hx, hl⟩ := List.mem_flatMap.mp hl
    exact strip_renderOperation_ne (h x hx) l hl
  have hlength : operations.length ≤ (operations.flatMap renderOperation).length := by
    apply length_le_flatMap
    intro x
    cases x <;> exact List.cons_ne_nil _ _
  rw [renderPatch, parseV4aPatch_lines hone hend]
  exact parseOperations_render h _ hlength

/-! ## What is read is expressible -/

theorem renderLine_of_parseHunkLine {l : Line} {line : LineKind × Line}
    (h : parseHunkLine l = .ok line) : l = renderLine line := by
  unfold parseHunkLine at h
  split at h
  all_goals first
    | (cases h; rfl)
    | cases h

theorem renderLine_of_mapM {lines : List Line} {hunkLines : List (LineKind × Line)}
    (h : lines.mapM parseHunkLine = .ok hunkLines) : lines = hunkLines.map renderLine := by
  induction lines generalizing hunkLines with
  | nil =>
    cases h
    rfl
  | cons l lines ih =>
    rw [List.mapM_cons, bind_ok_iff] at h
    obtain ⟨line, hline, h⟩ := h
    rw [bind_ok_iff] at h
    obtain ⟨others, hothers, h⟩ := h
    cases h
    rw [List.map_cons, ← ih hothers, ← renderLine_of_parseHunkLine hline]

theorem parseHunks_expressible (f : Nat) {lines left : List Line} {hunks : List Hunk}
    (hbody : Body lines) (h : parseHunks f lines = .ok (hunks, left)) :
    (∀ x ∈ hunks, x.Expressible) ∧ Body left := by
  induction f generalizing lines hunks left with
  | zero =>
    cases h
    exact ⟨nofun, hbody⟩
  | succ f ih =>
    cases lines with
    | nil =>
      cases h
      exact ⟨nofun, hbody⟩
    | cons line rest =>
      rw [parseHunks] at h
      split at h
      · rename_i hint hdrop
        obtain ⟨hunkLines, hlines, h⟩ := bind_ok_iff.mp h
        obtain ⟨⟨hunks', left'⟩, hrest, h⟩ := bind_ok_iff.mp h
        cases h
        have hhint : OneLine hint := oneLine_of_marker (hbody line List.mem_cons_self).1 hdrop
        have htake : Body (rest.takeWhile isHunkLine) :=
          hbody.tail.of_subset (List.takeWhile_sublist _).subset
        have hdropped : Body (rest.dropWhile isHunkLine) :=
          hbody.tail.of_subset (List.dropWhile_sublist _).subset
        obtain ⟨hhunks, hleft⟩ := ih hdropped hrest
        rw [renderLine_of_mapM hlines] at htake
        refine ⟨fun x hx => ?_, hleft⟩
        rcases List.mem_cons.mp hx with rfl | hx
        · exact expressible_of_lines hhint htake
        · exact hhunks x hx
      · split at h
        · exact ih hbody.tail h
        · cases h
          exact ⟨nofun, hbody⟩

theorem parseOperations_expressible (f : Nat) {lines : List Line}
    {operations : List PatchOperation} (hbody : Body lines)
    (h : parseOperations f lines = .ok operations) : ∀ x ∈ operations, x.Expressible := by
  induction f generalizing lines operations with
  | zero =>
    cases h
    exact nofun
  | succ f ih =>
    cases lines with
    | nil =>
      cases h
      exact nofun
    | cons line rest =>
      have hline := (hbody line List.mem_cons_self).1
      rw [parseOperations] at h
      split at h
      · rename_i path hdrop
        obtain ⟨others, hothers, h⟩ := bind_ok_iff.mp h
        cases h
        intro x hx
        rcases List.mem_cons.mp hx with rfl | hx
        · exact ⟨oneLine_of_marker hline hdrop, joinContent_ends _⟩
        · exact ih (hbody.tail.of_subset (List.dropWhile_sublist _).subset) hothers x hx
      split at h
      · rename_i path hdrop
        obtain ⟨others, hothers, h⟩ := bind_ok_iff.mp h
        cases h
        intro x hx
        rcases List.mem_cons.mp hx with rfl | hx
        · exact oneLine_of_marker hline hdrop
        · exact ih hbody.tail hothers x hx
      split at h
      · rename_i path hdrop
        obtain ⟨⟨hunks, left⟩, hhunks, h⟩ := bind_ok_iff.mp h
        obtain ⟨others, hothers, h⟩ := bind_ok_iff.mp h
        cases h
        obtain ⟨hmove, hafter⟩ := takeMove_body hbody.tail
        obtain ⟨hexpr, hleft⟩ := parseHunks_expressible _ hafter hhunks
        intro x hx
        rcases List.mem_cons.mp hx with rfl | hx
        · exact ⟨oneLine_of_marker hline hdrop, hmove, hexpr⟩
        · exact ih hleft hothers x hx
      · exact ih hbody.tail h

/-- Whatever the parser makes of a text, the grammar has a text for it. -/
theorem parseV4aPatch_expressible {patchText : List Char} {operations : List PatchOperation}
    (h : parseV4aPatch patchText = .ok operations) : ∀ x ∈ operations, x.Expressible := by
  rw [parseV4aPatch] at h
  dsimp only at h
  split at h
  · cases h
  · rename_i beginIdx _
    split at h
    · cases h
    · rename_i endIdx hend
      apply parseOperations_expressible _ _ h
      intro l hl
      have hafter := List.mem_of_mem_take hl
      refine ⟨oneLine_of_mem_splitOn (List.mem_of_mem_drop hafter), fun heq => ?_⟩
      obtain ⟨i, hi, hli⟩ := List.mem_take_iff_getElem.mp hl
      obtain ⟨_, _, hbefore⟩ := List.findIdx?_eq_some_iff_getElem.mp hend
      apply hbefore i (by omega)
      rw [hli, heq]
      exact beq_self_eq_true endPatch

/-- Reading inverts writing for the patches that are expressible, and for no
others. -/
theorem parse_renderPatch_iff (operations : List PatchOperation) :
    parseV4aPatch (renderPatch operations) = .ok operations ↔
      ∀ x ∈ operations, x.Expressible :=
  ⟨parseV4aPatch_expressible, parse_renderPatch⟩

end Reading

section Demo

open Py.Ascii

/-- A file with a line that reads like the end of a patch, as context. -/
def endLookalike : List PatchOperation :=
  [.updateFile ['f'] none [⟨[], [(.context, endPatch), (.delete, ['a']), (.add, ['b'])]⟩]]

/-- The patch is cut off in front of that line. -/
theorem hunk_lines_dropped :
    parseV4aPatch (renderPatch endLookalike) = .ok [.updateFile ['f'] none [⟨[], []⟩]] ∧
      parseV4aPatch (renderPatch endLookalike) ≠ .ok endLookalike := by
  constructor
  · decide +kernel
  · decide +kernel

end Demo

end Patch
end DotRunner
