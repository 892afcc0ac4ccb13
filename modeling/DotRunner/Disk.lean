import DotRunner.Outcome

/-!
# Files and clocks

What the artifact contract and the status file see of the file system.  Times
are exact: modification times and clock readings are counted in nanoseconds.
-/

namespace DotRunner

open Py

/-- What `stat` and a read find at a path. -/
inductive FileState where
  | absent
  | unstatable (text : String)
  | present (mtimeNs : Int) (bytes : Except String (List UInt8))

structure Disk where
  cwd : String
  stat : String → FileState

def nsPerSecond : Int := 1000000000

def granularityDivisorsNs : List Int := [1000000000, 100000000, 10000000, 1000000]

/-- The resolution a time stamp itself evidences, zero where it is fine. -/
def mtimeGranularityNs (mtimeNs : Int) : Int :=
  if mtimeNs ≤ 0 then 0
  else (granularityDivisorsNs.find? fun d => mtimeNs % d == 0).getD 0

def wroteAfterNodeStart (mtimeNs nodeStartWall : Int) : Bool :=
  if nodeStartWall < mtimeNs then true
  else if mtimeNs = nodeStartWall then false
  else decide (nodeStartWall - mtimeGranularityNs mtimeNs < mtimeNs)

theorem mtimeGranularityNs_le (mtimeNs : Int) : mtimeGranularityNs mtimeNs ≤ nsPerSecond := by
  rw [mtimeGranularityNs]
  by_cases h : mtimeNs ≤ 0
  · rw [if_pos h]
    decide
  · rw [if_neg h]
    cases hf : granularityDivisorsNs.find? fun d => mtimeNs % d == 0 with
    | none => decide
    | some d =>
      have hd : d ∈ granularityDivisorsNs := List.mem_of_find?_eq_some hf
      have hall : ∀ d ∈ granularityDivisorsNs, d ≤ nsPerSecond := by decide
      exact hall d hd

/-- The parts of a POSIX path, empty ones and `.` dropped. -/
def pathParts (path : String) : List String :=
  ((Text.split ['/'] path.toList).map String.ofList).filter fun s => s != "" && s != "."

def isAbsolute (path : String) : Bool := Text.startsWith path.toList ['/']

/-- `str(Path(path))`: exactly two leading slashes are kept, more are one. -/
def pathStr (path : String) : String :=
  let l := path.toList
  let root :=
    if Text.startsWith l ['/', '/'] && !Text.startsWith l ['/', '/', '/'] then "//"
    else if isAbsolute path then "/" else ""
  let text := root ++ Text.join "/" (pathParts path)
  if text = "" then "." else text

/-- `str(Path(base) / rest)` -/
def pathJoin (base rest : String) : String :=
  if isAbsolute rest then pathStr rest else pathStr (base ++ "/" ++ rest)

end DotRunner
