import DotRunner.MustWrite
import DotRunner.StatusFile

/-!
# The retry ladder

`execute_with_retry`: how the attempts at one node become one outcome.
-/

namespace DotRunner

open Py

/-- An exception a handler raised: what the retry classifier reads of it. -/
structure HandlerExc where
  /-- an instance of `TimeoutError`, `ConnectionError` or `OSError` -/
  retryableType : Bool
  typeName : String
  text : String

inductive HandlerEnd where
  | returned (o : Outcome)
  /-- `ChildDotResolutionError` -/
  | childDot (text : String)
  | raised (e : HandlerExc)

/-- One attempt: how the handler ended, the shared context as it left it, when
the attempt began and the disk it left behind. -/
structure AttemptEnd where
  handler : HandlerEnd
  context : PipelineContext
  startWall : Int
  disk : Disk

/-- How the whole ladder ends. -/
inductive LadderEnd where
  | outcome (o : Outcome)
  | childDot (text : String)
  | raised (e : PyExc)

section Classifier

variable [Runtime]

def asciiDigits (s : String) (l : List Char) : Bool := l == s.toList

/-- `\b(400|401|403|404|405|422)\b` -/
def hasTerminalCode (msg : String) : Bool :=
  (Text.runs Runtime.isWord msg.toList).any fun r =>
    ["400", "401", "403", "404", "405", "422"].any fun code => asciiDigits code r

/-- `\b(429|5\d{2})\b` -/
def hasRetryableCode (msg : String) : Bool :=
  (Text.runs Runtime.isWord msg.toList).any fun r => asciiDigits "429" r || match r with
    | ['5', a, b] => Text.isDecimal a && Text.isDecimal b
    | _ => false

/-- `rate.?limit|throttl|too many requests`, in any case. -/
def hasRetryableKeyword (msg : String) : Bool :=
  let l := msg.toList
  let matchesAt (pat : String) (s : List Char) : Option (List Char) :=
    let n := pat.toList.length
    if (s.take n).map Runtime.foldChar == pat.toList && n ≤ s.length then some (s.drop n) else none
  Text.anySuffix (fun s =>
    (match matchesAt "rate" s with
      | some rest => (matchesAt "limit" rest).isSome || (match rest with
        | c :: rest' => c != '\n' && (matchesAt "limit" rest').isSome
        | [] => false)
      | none => false) ||
    (matchesAt "throttl" s).isSome || (matchesAt "too many requests" s).isSome) l

def shouldRetry (e : HandlerExc) : Bool :=
  if e.retryableType then true
  else if hasTerminalCode e.text then false
  else hasRetryableCode e.text || hasRetryableKeyword e.text

end Classifier

structure RetryPolicy where
  maxAttempts : Nat := 1

section Policy

variable [Runtime]

/-- A count of retries: a non-negative integer, or a text of decimal digits. -/
def parseNonNegativeRetryCount (v : Value) : Except PyExc Nat :=
  let bad : Except PyExc Nat :=
    .error (.valueError ("max_retries must be a non-negative integer, got " ++ v.repr))
  match v with
  | .bool _ => .error (.valueError "max_retries must be a non-negative integer, not a boolean")
  | .int i => if 0 ≤ i then .ok i.toNat else bad
  | .str s =>
    let l := Text.strip s.toList
    let digits := (Text.dropPrefix? ['+'] l).getD l
    if !digits.isEmpty && digits.all Text.isDecimal then .ok (Text.digitsVal digits) else bad
  | _ => bad

def RetryPolicy.fromNode (node : Node) (g : Graph) : Except PyExc RetryPolicy := do
  let retries := match node.attr "max_retries" with
    | .none => match g.defaultMaxRetry with
      | .none => .int 0
      | v => v
    | v => v
  let n ← parseNonNegativeRetryCount retries
  return ⟨n + 1⟩

end Policy

/-- A terminal failure of the ladder, and a warning to the hooks. -/
structure StageFailed where
  nodeId : String
  attempts : Nat
  finalStatus : StageStatus

variable [Runtime] [JsonReader]

/-- What follows one attempt. -/
inductive AfterAttempt where
  | done (r : LadderEnd) (failed : Option StageFailed)
  | again (last : Option Outcome)

def withAttempt (o : Outcome) (attempt : Nat) : Outcome := { o with attemptCount := some attempt }

def stageFailed (node : Node) (attempt : Nat) (o : Outcome) : StageFailed :=
  ⟨node.id, attempt, o.status⟩

/-- An outcome the handler, or the status file in its place, ended an attempt
with. -/
def afterOutcome (node : Node) (nodeStartWall : Int) (attempt maxAttempts : Nat) (a : AttemptEnd)
    (outcome : Outcome) : AfterAttempt :=
  match outcome.status with
  | .success | .partialSuccess =>
    match checkMustWrite node outcome nodeStartWall a.context a.disk with
    | .error e => .done (.raised e) none
    | .ok none => .done (.outcome (withAttempt outcome attempt)) none
    | .ok (some violation) =>
      if attempt < maxAttempts then .again (some violation)
      else
        let final := withAttempt violation attempt
        .done (.outcome final) (some (stageFailed node attempt final))
  | .fail =>
    let final := withAttempt outcome attempt
    .done (.outcome final) (some (stageFailed node attempt final))
  | .skipped => .done (.outcome (withAttempt outcome attempt)) none
  | .retry => .again (some outcome)

def afterAttempt (node : Node) (logsRoot : String) (nodeStartWall : Int)
    (attempt maxAttempts : Nat) (last : Option Outcome) (a : AttemptEnd) : AfterAttempt :=
  match a.handler with
  | .childDot text => .done (.childDot text) none
  | .raised e =>
    if shouldRetry e && attempt < maxAttempts then .again last
    else
      let final : Outcome :=
        { status := .fail, failureReason := some e.text, attemptCount := some attempt }
      .done (.outcome final) (some (stageFailed node attempt final))
  | .returned outcome =>
    match readStatusOverride node logsRoot a.startWall outcome a.disk with
    | .error e => .done (.raised e) none
    | .ok override => afterOutcome node nodeStartWall attempt maxAttempts a (override.getD outcome)

/-- Every attempt has been used and the last one asked for another. -/
def retriesExhausted (node : Node) (nodeStartWall : Int) (maxAttempts : Nat)
    (last : Option Outcome) (context : PipelineContext) (disk : Disk) :
    LadderEnd × Option StageFailed :=
  if resolveBoolAttr (node.attr "allow_partial") then
    let partialOutcome : Outcome :=
      { status := .partialSuccess
        notes := some "Retries exhausted, partial accepted"
        failureReason := last.bind Outcome.failureReason
        attemptCount := some maxAttempts }
    match checkMustWrite node partialOutcome nodeStartWall context disk with
    | .error e => (.raised e, none)
    | .ok violation =>
      let final := violation.getD partialOutcome
      (.outcome final, some (stageFailed node maxAttempts final))
  else
    let final : Outcome :=
      { status := .fail, failureReason := some "Max retries exceeded",
        attemptCount := some maxAttempts }
    (.outcome final, some (stageFailed node maxAttempts final))

structure LadderRun where
  result : LadderEnd
  context : PipelineContext
  failed : Option StageFailed

/-- The attempts from `attempt` on, at most `left` of them.  An attempt is a
computation in `m` that starts from the context the one before it left. -/
def runAttempts {m : Type → Type} [Monad m] (perform : Nat → PipelineContext → m AttemptEnd)
    (node : Node) (logsRoot : String) (nodeStartWall : Int) (maxAttempts : Nat) :
    Nat → Nat → Option Outcome → PipelineContext → Disk → m LadderRun
  | 0, _, last, context, disk =>
    let r := retriesExhausted node nodeStartWall maxAttempts last context disk
    pure ⟨r.1, context, r.2⟩
  | left + 1, attempt, last, context, _ => do
    let a ← perform attempt context
    match afterAttempt node logsRoot nodeStartWall attempt maxAttempts last a with
    | .done r failed => pure ⟨r, a.context, failed⟩
    | .again last' =>
      runAttempts perform node logsRoot nodeStartWall maxAttempts left (attempt + 1) last'
        a.context a.disk

def executeWithRetry {m : Type → Type} [Monad m]
    (perform : Nat → PipelineContext → m AttemptEnd) (node : Node) (context : PipelineContext)
    (logsRoot : String) (policy : RetryPolicy) (nodeStartWall : Int) (disk : Disk) :
    m LadderRun :=
  runAttempts perform node logsRoot nodeStartWall policy.maxAttempts policy.maxAttempts 1 none
    context disk

/-- The first attempt ends the ladder. -/
theorem executeWithRetry_done {perform : Nat → PipelineContext → AttemptEnd} {node : Node}
    {context : PipelineContext} {logsRoot : String} {policy : RetryPolicy} {nodeStartWall : Int}
    {disk : Disk} {r : LadderEnd} {failed : Option StageFailed} (hpolicy : 1 ≤ policy.maxAttempts)
    (h : afterAttempt node logsRoot nodeStartWall 1 policy.maxAttempts none (perform 1 context) =
      .done r failed) :
    executeWithRetry (m := Id) perform node context logsRoot policy nodeStartWall disk =
      ⟨r, (perform 1 context).context, failed⟩ := by
  obtain ⟨n, hn⟩ : ∃ n, policy.maxAttempts = n + 1 := ⟨policy.maxAttempts - 1, by omega⟩
  rw [executeWithRetry, hn, runAttempts, ← hn]
  show (match afterAttempt node logsRoot nodeStartWall 1 policy.maxAttempts none
    (perform 1 context) with
      | .done r failed => (⟨r, (perform 1 context).context, failed⟩ : LadderRun)
      | .again last => _) = _
  rw [h]

/-- The attempt an outcome was reached at, where it carries one. -/
def Outcome.CountsAttempts (o : Outcome) : Prop := ∀ n, o.attemptCount = some n → 1 ≤ n

omit [Runtime] [JsonReader] in
theorem countsAttempts_withAttempt (o : Outcome) {attempt : Nat} (h : 1 ≤ attempt) :
    (withAttempt o attempt).CountsAttempts := by
  intro n hn
  have hcast : (attempt : Int) = n := Option.some.inj hn
  omega

omit [JsonReader] in
theorem afterOutcome_countsAttempts {node : Node} {nodeStartWall : Int} {attempt maxAttempts : Nat}
    {a : AttemptEnd} {outcome o : Outcome} {f : Option StageFailed} (hpos : 1 ≤ attempt)
    (h : afterOutcome node nodeStartWall attempt maxAttempts a outcome = .done (.outcome o) f) :
    o.CountsAttempts := by
  unfold afterOutcome at h
  split at h
  case h_1 | h_2 =>
    split at h
    · cases h
    · cases h
      exact countsAttempts_withAttempt outcome hpos
    · split at h
      · cases h
      · cases h
        exact countsAttempts_withAttempt _ hpos
  case h_3 | h_4 =>
    cases h
    exact countsAttempts_withAttempt outcome hpos
  case h_5 => cases h

theorem afterAttempt_countsAttempts {node : Node} {logsRoot : String} {nodeStartWall : Int}
    {attempt maxAttempts : Nat} {last : Option Outcome} {a : AttemptEnd} {o : Outcome}
    {f : Option StageFailed} (hpos : 1 ≤ attempt)
    (h : afterAttempt node logsRoot nodeStartWall attempt maxAttempts last a =
      .done (.outcome o) f) : o.CountsAttempts := by
  unfold afterAttempt at h
  split at h
  · cases h
  · split at h
    · cases h
    · cases h
      exact countsAttempts_withAttempt { status := .fail } hpos
  · split at h
    · cases h
    · exact afterOutcome_countsAttempts hpos h

omit [JsonReader] in
theorem retriesExhausted_countsAttempts {node : Node} {nodeStartWall : Int} {maxAttempts : Nat}
    {last : Option Outcome} {context : PipelineContext} {disk : Disk} {o : Outcome}
    (hpos : 1 ≤ maxAttempts)
    (h : (retriesExhausted node nodeStartWall maxAttempts last context disk).1 = .outcome o) :
    o.CountsAttempts := by
  unfold retriesExhausted at h
  split at h
  · dsimp only at h
    split at h
    · cases h
    · rename_i violation hv
      cases h
      cases violation with
      | none => exact countsAttempts_withAttempt { status := .partialSuccess } hpos
      | some o =>
        intro n hn
        have hnone := (checkMustWrite_some hv).2.2
        rw [Option.getD_some, hnone] at hn
        cases hn
  · cases h
    exact countsAttempts_withAttempt { status := .fail } hpos

/-- Whatever the handlers do, an outcome of the ladder counts its attempts from
one. -/
theorem runAttempts_countsAttempts {perform : Nat → PipelineContext → AttemptEnd} {node : Node}
    {logsRoot : String} {nodeStartWall : Int} {maxAttempts : Nat} (hmax : 1 ≤ maxAttempts)
    (left attempt : Nat) (last : Option Outcome) (context : PipelineContext) (disk : Disk)
    (hpos : 1 ≤ attempt) {o : Outcome}
    (h : (runAttempts (m := Id) perform node logsRoot nodeStartWall maxAttempts left attempt last
      context disk).result = .outcome o) : o.CountsAttempts := by
  induction left generalizing attempt last context disk with
  | zero => exact retriesExhausted_countsAttempts hmax h
  | succ left ih =>
    simp only [runAttempts, bind, pure] at h
    split at h
    · rename_i r f hdone
      have hr : r = .outcome o := h
      subst hr
      exact afterAttempt_countsAttempts hpos hdone
    · exact ih (attempt + 1) _ _ _ (by omega) h

end DotRunner
