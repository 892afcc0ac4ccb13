import DotRunner.Py.Value

/-!
# The v4a patch format

`parse_v4a_patch`: the operations of a patch, line by line, and the text the
grammar has for them.
-/

namespace DotRunner
namespace Patch

open Py

abbrev Line := List Char

inductive LineKind where
  | context
  | delete
  | add
deriving DecidableEq

/-- A single hunk within an update. -/
structure Hunk where
  contextHint : Line := []
  lines : List (LineKind × Line) := []
deriving DecidableEq

/-- A single file operation; only an update has hunks and may rename. -/
inductive PatchOperation where
  | addFile (path content : List Char)
  | deleteFile (path : List Char)
  | updateFile (path : List Char) (moveTo : Option (List Char)) (hunks : List Hunk)
deriving DecidableEq

/-! ## Markers -/

def beginPatch : Line := "*** Begin Patch".toList

def endPatch : Line := "*** End Patch".toList

def addFileMarker : Line := "*** Add File: ".toList

def deleteFileMarker : Line := "*** Delete File: ".toList

def updateFileMarker : Line := "*** Update File: ".toList

def moveToMarker : Line := "*** Move to: ".toList

def hunkMarker : Line := ['@', '@', ' ']

/-! ## Reading -/

/-- The first line that is the marker, blanks around it apart. -/
def findLine (marker : Line) (lines : List Line) : Option Nat :=
  lines.findIdx? fun line => Text.strip line == marker

def isContentLine (line : Line) : Bool := Text.startsWith line ['+']

/-- A context, delete or add line. -/
def isHunkLine : Line → Bool
  | [] => false
  | c :: _ => c == ' ' || c == '-' || c == '+'

/-- `"\n".join(lines)`, and a line break at the end where there is a line. -/
def joinContent (lines : List Line) : List Char :=
  if lines = [] then [] else ['\n'].intercalate lines ++ ['\n']

/-- The new path of a rename, and the lines after it. -/
def takeMove : List Line → Option Line × List Line
  | [] => (none, [])
  | line :: rest => match Text.dropPrefix? moveToMarker line with
    | some path => (some path, rest)
    | none => (none, line :: rest)

section Parser

variable [Runtime]

def parseHunkLine : Line → Except PyExc (LineKind × Line)
  | ' ' :: content => .ok (.context, content)
  | '-' :: content => .ok (.delete, content)
  | '+' :: content => .ok (.add, content)
  | line => .error (.valueError ("Invalid hunk line: " ++ Value.reprStr (String.ofList line)))

/-- The hunks the lines begin with, and the lines after them.  There are no more
rounds than lines. -/
def parseHunks : Nat → List Line → Except PyExc (List Hunk × List Line)
  | 0, lines => .ok ([], lines)
  | _ + 1, [] => .ok ([], [])
  | f + 1, line :: rest => match Text.dropPrefix? hunkMarker line with
    | some hint => do
      let hunkLines ← (rest.takeWhile isHunkLine).mapM parseHunkLine
      let (hunks, left) ← parseHunks f (rest.dropWhile isHunkLine)
      return (⟨Text.strip hint, hunkLines⟩ :: hunks, left)
    | none =>
      -- a body line that no header stands before is passed over
      if isHunkLine line then parseHunks f rest else .ok ([], line :: rest)

/-- Blank lines, end-of-file markers and unrecognized lines are skipped alike. -/
def parseOperations : Nat → List Line → Except PyExc (List PatchOperation)
  | 0, _ => .ok []
  | _ + 1, [] => .ok []
  | f + 1, line :: rest => match Text.dropPrefix? addFileMarker line with
    | some path => do
      let content := joinContent ((rest.takeWhile isContentLine).map List.tail)
      let operations ← parseOperations f (rest.dropWhile isContentLine)
      return .addFile path content :: operations
    | none => match Text.dropPrefix? deleteFileMarker line with
      | some path => do
        let operations ← parseOperations f rest
        return .deleteFile path :: operations
      | none => match Text.dropPrefix? updateFileMarker line with
        | some path => do
          let (hunks, left) ← parseHunks rest.length (takeMove rest).2
          let operations ← parseOperations f left
          return .updateFile path (takeMove rest).1 hunks :: operations
        | none => parseOperations f rest

def parseV4aPatch (patchText : List Char) : Except PyExc (List PatchOperation) :=
  let lines := patchText.splitOn '\n'
  match findLine beginPatch lines with
  | none => .error (.valueError "Missing '*** Begin Patch' header")
  | some beginIdx =>
    let after := lines.drop (beginIdx + 1)
    match findLine endPatch after with
    | none => .error (.valueError "Missing '*** End Patch' footer")
    | some endIdx =>
      let body := after.take endIdx
      parseOperations body.length body

end Parser

/-! ## Writing

The grammar's own text of an operation. -/

def renderLine : LineKind × Line → Line
  | (.context, content) => ' ' :: content
  | (.delete, content) => '-' :: content
  | (.add, content) => '+' :: content

def renderHunk (h : Hunk) : List Line := (hunkMarker ++ h.contextHint) :: h.lines.map renderLine

/-- The lines of a file; a last line break ends a line and begins none. -/
def contentLines (content : List Char) : List Line :=
  let lines := content.splitOn '\n'
  if lines.getLast? = some [] then lines.dropLast else lines

def renderMove (moveTo : Option Line) : List Line := moveTo.toList.map (moveToMarker ++ ·)

def renderOperation : PatchOperation → List Line
  | .addFile path content => (addFileMarker ++ path) :: (contentLines content).map ('+' :: ·)
  | .deleteFile path => [deleteFileMarker ++ path]
  | .updateFile path moveTo hunks =>
    (updateFileMarker ++ path) :: (renderMove moveTo ++ hunks.flatMap renderHunk)

/-- `"*** Begin Patch\n" operations "*** End Patch\n"` -/
def renderPatch (operations : List PatchOperation) : List Char :=
  ['\n'].intercalate (beginPatch :: (operations.flatMap renderOperation ++ [endPatch, []]))

/-! ## What a patch can say -/

def OneLine (l : List Char) : Prop := '\n' ∉ l

/-- A context line is none of the markers that end the patch; a hint has no blanks
at its ends. -/
structure Hunk.Expressible (h : Hunk) : Prop where
  hint : OneLine h.contextHint
  hintStripped : Text.strip h.contextHint = h.contextHint
  oneLine : ∀ line ∈ h.lines, OneLine line.2
  noEnd : ∀ content, (LineKind.context, content) ∈ h.lines → Text.strip content ≠ endPatch

/-- An added file ends with a line break, unless it is empty. -/
def PatchOperation.Expressible : PatchOperation → Prop
  | .addFile path content => OneLine path ∧ (content = [] ∨ content.getLast? = some '\n')
  | .deleteFile path => OneLine path
  | .updateFile path moveTo hunks =>
    OneLine path ∧ (∀ newPath, moveTo = some newPath → OneLine newPath) ∧
      ∀ h ∈ hunks, h.Expressible

end Patch
end DotRunner
