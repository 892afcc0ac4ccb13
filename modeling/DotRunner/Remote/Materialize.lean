import DotRunner.Behaviour
import DotRunner.Py.FileTree
import DotRunner.Py.Sub
import DotRunner.Runner.ParseSites

/-!
# The walk over remote references

`materialize_remote_dot`: the entry file and all that it refers to, level by level, every
level fetched at once through a semaphore.
-/

namespace DotRunner
namespace Remote
namespace Materialize

open Py Behaviour
open Py.PosixPath (Part join dirname normpath names relpath)

/-- `FetchLimits`, as far as the walk reads it -/
structure FetchLimits where
  maxDepth : Int := 10
  maxFiles : Int := 100
  maxTotalBytes : Int := 10 * 1024 * 1024
  maxConcurrency : Int := 8

inductive WalkError where
  | path (e : PathError)
  | parse (e : Runner.RemoteFetchParseError)
  | limit (text : String)
  | os (e : FileTree.OsError)
  | raised (e : PyExc)
  | cancelled

section Source

variable [Runtime]

/-! ## References -/

/-- `_repo_root_relpath` -/
def repoRootRelpath (origin : Origin) : List Char :=
  join (join (join origin.owner.toList origin.repo.toList) origin.ref.toList) origin.path.toList

/-- `_cross_origin_local_relpath`, in the working directory `cwd` -/
def crossOriginLocalRelpath (cwd : List Char) (referrer child : Origin) : List Char :=
  relpath cwd (repoRootRelpath child) (dirname (repoRootRelpath referrer))

structure Ref where
  origin : Origin
  localRelpath : List Char
  crossOrigin : Bool

/-- `_resolve_ref`, of a text -/
def resolveText (cwd rawRef : List Char) (referrer : Origin) : Except PathError (Option Ref) :=
  if '$' ∈ rawRef then .ok none
  else if Text.startsWith rawRef gitHttpsPrefix then do
    let child ← parseUri rawRef
    return some ⟨child, crossOriginLocalRelpath cwd referrer child, true⟩
  else if Text.startsWith rawRef ['/'] then
    rejected ("Absolute dot_file= is not allowed in remote graphs: " ++ quoted rawRef)
  else
    let joined := normpath (join (dirname referrer.path.toList) rawRef)
    if Text.startsWith joined ['.', '.', '/'] ∨ joined = ['.', '.'] ∨ Text.startsWith joined ['/'] then
      rejected ("Relative dot_file= escapes repo root " ++ referrer.owner ++ "/" ++ referrer.repo ++
        "@" ++ referrer.ref ++ ": " ++ quoted rawRef)
    else .ok (some ⟨{ referrer with path := String.ofList joined }, rawRef, false⟩)

/-- `_resolve_ref` -/
def resolveRef (cwd : List Char) (rawRef : Value) (referrer : Origin) :
    Except WalkError (Option Ref) :=
  match rawRef with
  | .str s => (resolveText cwd s.toList referrer).mapError .path
  | v => .error (.raised (.typeError ("argument of type '" ++ v.typeName ++ "' is not iterable")))

/-- `(dot_file\s*=\s*)"..."`, with the group -/
def scanReference (old l : List Char) : Option (List Char × List Char × List Char) := do
  let word := "dot_file".toList
  let l₁ ← Text.dropPrefix? word l
  let l₂ ← Text.dropPrefix? ['='] (l₁.dropWhile Text.isSpace)
  let r ← Text.dropPrefix? ('"' :: (old ++ ['"'])) (l₂.dropWhile Text.isSpace)
  let group := word ++ (l₁.takeWhile Text.isSpace ++ '=' :: l₂.takeWhile Text.isSpace)
  return (group, group ++ '"' :: (old ++ ['"']), r)

omit [Runtime] in
theorem scanReference_splits {old l k t r : List Char} (h : scanReference old l = some (k, t, r)) :
    l = t ++ r ∧ t ≠ [] := by
  simp only [scanReference, Option.bind_eq_bind, Option.bind_eq_some_iff] at h
  obtain ⟨l₁, h₁, l₂, h₂, r', h₃, heq⟩ := h
  cases heq
  rw [Text.dropPrefix?_eq_some_iff] at h₁ h₂ h₃
  have hsplit₁ := List.takeWhile_append_dropWhile (p := Text.isSpace) (l := l₁)
  have hsplit₂ := List.takeWhile_append_dropWhile (p := Text.isSpace) (l := l₂)
  rw [h₂] at hsplit₁
  rw [h₃] at hsplit₂
  generalize l₁.takeWhile Text.isSpace = blanks₁ at hsplit₁ ⊢
  generalize l₂.takeWhile Text.isSpace = blanks₂ at hsplit₂ ⊢
  rw [h₁, ← hsplit₁, ← hsplit₂]
  exact ⟨by simp, by simp⟩

def referenceRe (old : List Char) : Pattern (List Char) := ⟨scanReference old, scanReference_splits⟩

/-- `for old, new in rewrites: text = re.sub(...)` -/
def rewriteRefs (rewrites : List (List Char × List Char)) (text : List Char) : List Char :=
  rewrites.foldl (fun text p => ((referenceRe p.1).sub (· ++ '"' :: (p.2 ++ ['"'])) text).1) text

/-! ## The view directory -/

/-- The texts of the files in the view directory, by the names that lead to them. -/
abbrev View := Dict (List Part) (List Char)

/-- `os.makedirs(os.path.dirname(local_path), exist_ok=True)`, and the file written -/
def writeView (view : View) (relpath text : List Char) : Except WalkError View :=
  let place := names relpath
  if '\x00' ∈ relpath then .error (.raised (.valueError "embedded null byte"))
  else if view.keys.any fun p => p.isPrefixOf place.dropLast then
    .error (.os (if place.dropLast ∈ view.keys then .fileExists else .notDirectory))
  else if place = [] ∨ view.keys.any fun p => place.isPrefixOf p.dropLast then
    .error (.os .isDirectory)
  else .ok (view.set place text)

/-! ## One file -/

/-- What the walk has at the head of its loop, and while it goes through a level. -/
structure Level where
  /-- at the head of the loop the files to fetch, in the loop over them the files found -/
  frontier : List Origin := []
  /-- the files there are, in the order they were written -/
  seen : List Origin := []
  totalBytes : Nat := 0
  fileCount : Nat := 0
  view : View := .empty

/-- What a walk is given: its limits, what `cache.get` answers, and the rest. -/
structure World where
  limits : FetchLimits := {}
  fetch : Origin → Except PyExc (List UInt8)
  params : Option (Dict String String) := none
  cwd : List Char
  entryUri : List Char

/-- `for raw_ref in extract_dot_file_refs(...)`: the files found and the rewrites. -/
def followRefs (cwd : List Char) (seen : List Origin) (origin : Origin) :
    List Value → Except WalkError (List Origin × List (List Char × List Char))
  | [] => .ok ([], [])
  | rawRef :: rawRefs => do
    let found ← resolveRef cwd rawRef origin
    let (origins, rewrites) ← followRefs cwd seen origin rawRefs
    match found with
    | none => return (origins, rewrites)
    | some ref =>
      return (if ref.origin ∈ seen then origins else ref.origin :: origins,
        match rawRef, ref.crossOrigin with
        | .str s, true => (s.toList, ref.localRelpath) :: rewrites
        | _, _ => rewrites)

/-- `for origin, raw in zip(batch, results)` -/
def settleFile (w : World) (l : Level) (origin : Origin) (raw : List UInt8) :
    Except WalkError Level :=
  let fileCount := l.fileCount + 1
  let totalBytes := l.totalBytes + raw.length
  if w.limits.maxFiles < fileCount then
    .error (.limit ("max_files=" ++ toString w.limits.maxFiles ++ " exceeded at " ++
      Value.reprStr origin.path))
  else if w.limits.maxTotalBytes < totalBytes then
    .error (.limit ("max_total_bytes=" ++ toString w.limits.maxTotalBytes ++ " exceeded at " ++
      Value.reprStr origin.path))
  else match Json.fileText raw with
    | none => .error (.raised (.valueError "'utf-8' codec can't decode bytes"))
    | some text => do
      let rawRefs ← (Runner.extractDotFileRefs (String.ofList text) origin w.params).mapError .parse
      let (found, rewrites) ← followRefs w.cwd l.seen origin rawRefs
      let view ← writeView l.view (repoRootRelpath origin) (rewriteRefs rewrites text)
      return ⟨l.frontier ++ found, l.seen ++ [origin], totalBytes, fileCount, view⟩

def settleFiles (w : World) : Level → List (Origin × List UInt8) → Except WalkError Level
  | l, [] => .ok l
  | l, (origin, raw) :: rest => do settleFiles w (← settleFile w l origin raw) rest

/-! ## One level -/

/-- `deduped, queued = [], set()` -/
def dedupe (seen : List Origin) (queued : List Origin) : List Origin → List Origin
  | [] => []
  | o :: rest =>
    if o ∈ seen ∨ o ∈ queued then dedupe seen queued rest
    else o :: dedupe seen (o :: queued) rest

/-- `batch = [o for o in frontier if o.key() not in seen]` -/
def Level.batch (l : Level) : List Origin := l.frontier.filter (· ∉ l.seen)

/-- What a level whose files were all fetched leads to. -/
def nextLevel (w : World) (l : Level) : Except WalkError Level := do
  let results ← (l.batch.mapM w.fetch).mapError .raised
  let l ← settleFiles w { l with frontier := [] } (l.batch.zip results)
  return { l with frontier := dedupe l.seen [] l.frontier }

/-! ## The walk -/

inductive Phase where
  /-- at the head of the loop -/
  | level
  | gathering
  | returned
  | raised (e : WalkError)

inductive Event where
  | started (o : Origin) (depth : Nat)
  | received (size : Nat)

structure State where
  phase : Phase
  depth : Nat := 0
  level : Level := {}
  /-- the fetches that wait for the semaphore; an exception in one does not stop the others -/
  waiting : List Origin := []
  inFlight : List Origin := []
  /-- is there a view directory? -/
  viewDir : Bool
  log : List Event := []

inductive Action where
  | enter
  | start
  | receive (o : Origin)
  | settle
  /-- the task of the walk is cancelled while it waits for the fetches -/
  | cancel

/-- `except BaseException: shutil.rmtree(view_dir, ignore_errors=True); raise` -/
def State.raise (s : State) (e : WalkError) : State := { s with phase := .raised e, viewDir := false }

/-- The walk up to its loop. -/
def begin (w : World) : State :=
  match parseUri w.entryUri with
  | .error e => { phase := .raised (.path e), viewDir := false }
  | .ok entry =>
    if w.limits.maxConcurrency < 0 then
      { phase := .raised (.raised (.valueError "Semaphore initial value must be >= 0"))
        viewDir := true }
    else { phase := .level, level := { frontier := [entry] }, viewDir := true }

/-- `while frontier:`, up to the fetches -/
def enter (w : World) (s : State) : State :=
  match s.level.frontier with
  | [] => { s with phase := .returned }
  | o :: _ =>
    if w.limits.maxDepth ≤ s.depth then
      s.raise (.limit ("max_depth=" ++ toString w.limits.maxDepth ++ " exceeded at " ++
        Value.reprStr o.path))
    else { s with phase := .gathering, waiting := s.level.batch }

/-- A fetch comes back. -/
def receive (w : World) (s : State) (o : Origin) : State :=
  let s := { s with inFlight := s.inFlight.erase o }
  match w.fetch o, s.phase with
  | .ok content, _ => { s with log := s.log ++ [.received content.length] }
  | .error e, .gathering => s.raise (.raised e)
  | .error _, _ => s

/-- All fetches of the level are back. -/
def settle (w : World) (s : State) : State :=
  match nextLevel w s.level with
  | .ok l => { s with phase := .level, depth := s.depth + 1, level := l }
  | .error e => s.raise e

/-- A fetch gets through the semaphore. -/
def start (s : State) (o : Origin) (rest : List Origin) : State :=
  { s with waiting := rest, inFlight := s.inFlight ++ [o], log := s.log ++ [.started o s.depth] }

def cancel (s : State) : State := { s with waiting := [], inFlight := [] }.raise .cancelled

def next (w : World) (s : State) : Action → Option State
  | .enter => match s.phase with
    | .level => some (enter w s)
    | _ => none
  | .start => match s.waiting with
    | o :: rest =>
      if s.inFlight.length < w.limits.maxConcurrency then some (start s o rest) else none
    | [] => none
  | .receive o => if o ∈ s.inFlight then some (receive w s o) else none
  | .settle => match s.phase, s.waiting, s.inFlight with
    | .gathering, [], [] => some (settle w s)
    | _, _, _ => none
  | .cancel => match s.phase with
    | .gathering => some (cancel s)
    | _ => none

end Source

end Materialize
end Remote
end DotRunner
