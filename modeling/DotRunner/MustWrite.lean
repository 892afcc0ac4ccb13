import DotRunner.Graph
import DotRunner.Disk

/-!
# The artifact contract

`must_write=<path>`: a node that completes owes a fresh file with content.
-/

namespace DotRunner

open Py

/-- The bytes `bytes.strip` removes. -/
def isSpaceByte (b : UInt8) : Bool := (9 ≤ b && b ≤ 13) || b == 32

/-- What a clock reading or a time stamp prints as, in seconds. -/
def secondsText [Runtime] (ns : Int) : String := Runtime.fixed3 ((ns : ℚ) / (nsPerSecond : ℚ))

variable [Runtime]

def artifactPath (rawPath : String) (context : PipelineContext) (disk : Disk) : String :=
  if isAbsolute rawPath then pathStr rawPath
  else
    let base := context.get "context.target_dir"
    pathJoin (if base.truthy then base.toStr else disk.cwd) rawPath

def declared (node : Node) (rawPath : String) : String :=
  "Node '" ++ node.id ++ "' declared must_write=" ++ Value.reprStr rawPath ++ " but "

def absentArtifact (node : Node) (rawPath artifact : String) : Outcome where
  status := .fail
  failureReason := some (declared node rawPath ++ "no artifact was written (path: " ++
    artifact ++ ")")
  notes := some ("must_write= contract: the artifact at '" ++ artifact ++ "' does not " ++
    "exist. The node must write a non-trivial file at this path during its own execution.")

def staleArtifact (node : Node) (rawPath artifact : String) (mtimeNs nodeStartWall : Int) :
    Outcome where
  status := .fail
  failureReason := some (declared node rawPath ++ "the artifact was not written by this " ++
    "execution (mtime " ++ secondsText mtimeNs ++ " <= node_start " ++
    secondsText nodeStartWall ++ "; planted before or at node start)")
  notes := some ("must_write= freshness floor: the artifact at '" ++ artifact ++ "' exists " ++
    "but its mtime does not strictly post-date this node's start (mtime must be strictly " ++
    "greater than node_start_wall). A pre-planted file — including one whose mtime equals " ++
    "the recorded start time — does not satisfy the contract.")

def unreadableArtifact (node : Node) (rawPath artifact error : String) : Outcome where
  status := .fail
  failureReason := some (declared node rawPath ++ "the artifact could not be read: " ++ error)
  notes := some ("must_write= contract: unreadable artifact at '" ++ artifact ++ "'.")

def trivialArtifact (node : Node) (rawPath artifact : String) : Outcome where
  status := .fail
  failureReason := some (declared node rawPath ++
    "the artifact is empty or whitespace-only (non-trivial content required)")
  notes := some ("must_write= non-trivial check: the artifact at '" ++ artifact ++
    "' contains no non-whitespace bytes. The node must write substantive content.")

/-- `none` where the contract holds or does not apply; a `stat` that fails for
another reason than a missing file raises. -/
def checkMustWrite (node : Node) (outcome : Outcome) (nodeStartWall : Int)
    (context : PipelineContext) (disk : Disk) : Except PyExc (Option Outcome) :=
  let raw := node.attr "must_write"
  if !raw.truthy || outcome.status.failing then .ok none
  else
    let rawPath := stripText raw.toStr
    let artifact := artifactPath rawPath context disk
    match disk.stat artifact with
    | .absent => .ok (some (absentArtifact node rawPath artifact))
    | .unstatable text => .error (.raised text)
    | .present mtimeNs bytes =>
      if !wroteAfterNodeStart mtimeNs nodeStartWall then
        .ok (some (staleArtifact node rawPath artifact mtimeNs nodeStartWall))
      else match bytes with
        | .error error => .ok (some (unreadableArtifact node rawPath artifact error))
        | .ok content =>
          if content.all isSpaceByte then .ok (some (trivialArtifact node rawPath artifact))
          else .ok none

/-- The contract looks at the status alone. -/
theorem checkMustWrite_congr {node : Node} {o o' : Outcome}
    (h : o.status.failing = o'.status.failing) (nodeStartWall : Int) (context : PipelineContext)
    (disk : Disk) :
    checkMustWrite node o nodeStartWall context disk =
      checkMustWrite node o' nodeStartWall context disk := by
  simp only [checkMustWrite, h]

/-- A violation is a failure that claims no verdict of its own. -/
theorem checkMustWrite_some {node : Node} {outcome o : Outcome} {nodeStartWall : Int}
    {context : PipelineContext} {disk : Disk}
    (h : checkMustWrite node outcome nodeStartWall context disk = .ok (some o)) :
    o.status = .fail ∧ o.isExplicit = false ∧ o.attemptCount = none := by
  simp only [checkMustWrite] at h
  by_cases hskip : (!(node.attr "must_write").truthy || outcome.status.failing) = true
  · simp [hskip] at h
  · rw [if_neg hskip] at h
    split at h
    · simp only [Except.ok.injEq, Option.some.injEq] at h
      subst h
      exact ⟨rfl, rfl, rfl⟩
    · simp at h
    · split at h
      · simp only [Except.ok.injEq, Option.some.injEq] at h
        subst h
        exact ⟨rfl, rfl, rfl⟩
      · split at h
        · simp only [Except.ok.injEq, Option.some.injEq] at h
          subst h
          exact ⟨rfl, rfl, rfl⟩
        · split at h
          · simp only [Except.ok.injEq, Option.some.injEq] at h
            subst h
            exact ⟨rfl, rfl, rfl⟩
          · simp at h

/-- The artifact the node owes is there, written after the start, with content. -/
def ArtifactFresh (node : Node) (nodeStartWall : Int) (context : PipelineContext) (disk : Disk) :
    Prop :=
  ∃ mtimeNs content,
    disk.stat (artifactPath (stripText (node.attr "must_write").toStr) context disk) =
      .present mtimeNs (.ok content) ∧
    wroteAfterNodeStart mtimeNs nodeStartWall = true ∧ content.all isSpaceByte = false

/-- What a passed check says of an outcome that is no failure. -/
theorem checkMustWrite_none {node : Node} {outcome : Outcome} {nodeStartWall : Int}
    {context : PipelineContext} {disk : Disk}
    (h : checkMustWrite node outcome nodeStartWall context disk = .ok none)
    (hdeclared : (node.attr "must_write").truthy = true) (ho : outcome.status.failing = false) :
    ArtifactFresh node nodeStartWall context disk := by
  have hneeded : ¬ (!(node.attr "must_write").truthy || outcome.status.failing) = true := by
    rw [hdeclared, ho]
    decide
  simp only [checkMustWrite] at h
  rw [if_neg hneeded] at h
  split at h
  · cases h
  · cases h
  · rename_i mtimeNs bytes hstat
    split at h
    · cases h
    · rename_i hfresh
      split at h
      · cases h
      · rename_i content
        split at h
        · cases h
        · rename_i hcontent
          exact ⟨mtimeNs, content, hstat, by simpa using hfresh, by simpa using hcontent⟩

end DotRunner
