import DotRunner.Patch.Format
import DotRunner.Py.FileTree

/-!
# Applying a patch

`ApplyPatchTool.execute`: the operations of a patch one after the other, until one
of them raises.
-/

namespace DotRunner
namespace Patch

open Py Py.FileTree

/-! ## Hunks -/

def isLineBreak (c : Char) : Bool :=
  let n := c.toNat
  (10 ≤ n && n ≤ 13) || (28 ≤ n && n ≤ 30) || n == 0x85 || n == 0x2028 || n == 0x2029

/-- `str.splitlines`, with the characters of the line that is being read. -/
def splitlinesFrom (line : Line) : List Char → List Line
  | [] => if line = [] then [] else [line]
  | '\r' :: '\n' :: l => line :: splitlinesFrom [] l
  | c :: l => if isLineBreak c then line :: splitlinesFrom [] l else splitlinesFrom (line ++ [c]) l

def splitlines (l : List Char) : List Line := splitlinesFrom [] l

/-- The context and delete lines, which have to be found. -/
def matchLinesOf (h : Hunk) : List Line :=
  (h.lines.filter fun line => line.1 != .add).map Prod.snd

def additionsOf (h : Hunk) : List Line :=
  (h.lines.filter fun line => line.1 == .add).map Prod.snd

/-- The first position with the lines there, else with lines that differ in
trailing blanks only. -/
def findMatch (fileLines matchLines : List Line) : Option Nat :=
  let positions := List.range (fileLines.length + 1 - matchLines.length)
  let at' (i : Nat) : List Line := (fileLines.drop i).take matchLines.length
  match positions.find? fun i => at' i == matchLines with
  | some i => some i
  | none => positions.find? fun i => (at' i).map Text.rstrip == matchLines.map Text.rstrip

/-- The lines from the match on, rewritten. -/
def rewriteLines : List Line → List (LineKind × Line) → List Line
  | fileLines, [] => fileLines
  | fileLines, (.add, content) :: lines => content :: rewriteLines fileLines lines
  | line :: fileLines, (.context, _) :: lines => line :: rewriteLines fileLines lines
  | _ :: fileLines, (.delete, _) :: lines => rewriteLines fileLines lines
  -- a match has as many lines as the hunk has of these
  | [], _ :: lines => rewriteLines [] lines

section Tool

variable [Runtime]

def applyHunk (filename : List Char) (fileLines : List Line) (h : Hunk) :
    Except PyExc (List Line) :=
  let matchLines := matchLinesOf h
  if matchLines = [] then .ok (fileLines ++ additionsOf h)
  else match findMatch fileLines matchLines with
    | none => .error (.valueError ("Could not find hunk match in " ++ String.ofList filename ++
        " (context hint: " ++ Value.reprStr (String.ofList h.contextHint) ++ ")"))
    | some pos => .ok (fileLines.take pos ++ rewriteLines (fileLines.drop pos) h.lines)

/-- The text of a file after the hunks, with its trailing line break. -/
def updatedText (filename content : List Char) (hunks : List Hunk) : Except PyExc (List Char) := do
  let fileLines ← hunks.foldlM (applyHunk filename) (splitlines content)
  let newContent := ['\n'].intercalate fileLines
  return if (content.getLast? = some '\n' ∨ fileLines.getLast? = some []) ∧
      newContent.getLast? ≠ some '\n' then newContent ++ ['\n'] else newContent

/-! ## Operations -/

/-- The tool, with the `working_dir` of its configuration. -/
structure ApplyPatchTool where
  workingDir : List Char

variable (tool : ApplyPatchTool)

omit [Runtime] in
def ApplyPatchTool.resolvePath (relativePath : List Char) : List Char :=
  if tool.workingDir = [] then relativePath else PosixPath.join tool.workingDir relativePath

def fileNotFound (path : List Char) : PyExc :=
  .raised ("File not found: " ++ String.ofList path)

def ApplyPatchTool.applyAddFile (path content : List Char) : Io String :=
  andThen (mkdirParent (tool.resolvePath path)) fun _ =>
  andThen (writeText (tool.resolvePath path) content) fun _ =>
  done ("Added " ++ String.ofList path)

def ApplyPatchTool.applyDeleteFile (path : List Char) : Io String :=
  andThen (pathExists (tool.resolvePath path)) fun there =>
  if there then
    andThen (unlink (tool.resolvePath path)) fun _ => done ("Deleted " ++ String.ofList path)
  else raise (fileNotFound path)

/-- The new text under the new path, and then the old file away. -/
def ApplyPatchTool.moveFile (path newPath newContent : List Char) : Io Unit :=
  andThen (mkdirParent (tool.resolvePath newPath)) fun _ =>
  andThen (writeText (tool.resolvePath newPath) newContent) fun _ =>
  unlink (tool.resolvePath path)

def ApplyPatchTool.storeUpdate (path : List Char) (moveTo : Option (List Char))
    (newContent : List Char) : Io String :=
  match moveTo with
  | some (c :: newPath) =>
    andThen (tool.moveFile path (c :: newPath) newContent) fun _ =>
    done ("Updated and moved " ++ String.ofList path ++ " -> " ++ String.ofList (c :: newPath))
  | _ =>
    andThen (writeText (tool.resolvePath path) newContent) fun _ =>
    done ("Updated " ++ String.ofList path)

def ApplyPatchTool.applyUpdateFile (path : List Char) (moveTo : Option (List Char))
    (hunks : List Hunk) : Io String :=
  andThen (pathExists (tool.resolvePath path)) fun there =>
  if there then
    andThen (readText (tool.resolvePath path)) fun content =>
    match updatedText path content hunks with
    | .error e => raise e
    | .ok newContent => tool.storeUpdate path moveTo newContent
  else raise (fileNotFound path)

def ApplyPatchTool.applyOperation : PatchOperation → Io String
  | .addFile path content => tool.applyAddFile path content
  | .deleteFile path => tool.applyDeleteFile path
  | .updateFile path moveTo hunks => tool.applyUpdateFile path moveTo hunks

/-! ## The call -/

def PatchOperation.path : PatchOperation → List Char
  | .addFile path _ => path
  | .deleteFile path => path
  | .updateFile path _ _ => path

def PatchOperation.operation : PatchOperation → String
  | .addFile _ _ => "add_file"
  | .deleteFile _ => "delete_file"
  | .updateFile _ _ _ => "update_file"

inductive ToolResult where
  | success (filesModified : List (List Char)) (summary : String)
  | failure (message : String)

def ToolResult.failed : ToolResult → Bool
  | success _ _ => false
  | failure _ => true

/-- The operations from one on, with what the ones before it have reported. -/
def ApplyPatchTool.applyOperations : List PatchOperation → List (List Char) → List String →
    Tree → ToolResult × Tree
  | [], filesModified, summaries, t =>
    (.success filesModified (Text.join "; " summaries), t)
  | op :: operations, filesModified, summaries, t => match tool.applyOperation op t with
    | (.ok summary, t') =>
      applyOperations operations (filesModified ++ [op.path]) (summaries ++ [summary]) t'
    | (.error e, t') => (.failure ("Error applying " ++ op.operation ++ " to " ++
        String.ofList op.path ++ ": " ++ excText e), t')

/-- `execute`, on the `patch` of its input. -/
def ApplyPatchTool.execute (patch : Option (List Char)) (t : Tree) : ToolResult × Tree :=
  match patch with
  | none | some [] => (.failure "patch parameter is required", t)
  | some patchText => match parseV4aPatch patchText with
    | .error e => (.failure ("Patch parse error: " ++ excText e), t)
    | .ok [] => (.failure "Patch contains no operations", t)
    | .ok operations => tool.applyOperations operations [] [] t

end Tool

end Patch
end DotRunner
