import DotRunner.Retry
import DotRunner.Py.Ascii

/-!
# What the ladder promises

At most `max_attempts` calls of the handler; an outcome that asks for no further
attempt, a completion only with its artifact, the number of calls in it, and the same
status in the event.
-/

namespace DotRunner

open Py

section Ladder

variable [Runtime] [JsonReader]

/-- The handler's attempts, noted down one after another. -/
def noted (perform : Nat → PipelineContext → AttemptEnd) (attempt : Nat)
    (context : PipelineContext) : StateM (List AttemptEnd) AttemptEnd :=
  fun calls => (perform attempt context, calls ++ [perform attempt context])

/-- The ladder and the calls it makes of the handler. -/
def ladderCalls (perform : Nat → PipelineContext → AttemptEnd) (node : Node)
    (context : PipelineContext) (logsRoot : String) (policy : RetryPolicy) (nodeStartWall : Int)
    (disk : Disk) : LadderRun × List AttemptEnd :=
  (executeWithRetry (m := StateM (List AttemptEnd)) (noted perform) node context logsRoot policy
    nodeStartWall disk) []

/-- The disk as the last call left it. -/
def diskAfter (disk : Disk) (calls : List AttemptEnd) : Disk :=
  (calls.getLast?.map AttemptEnd.disk).getD disk

omit [Runtime] [JsonReader] in
theorem diskAfter_snoc (disk : Disk) (calls : List AttemptEnd) (a : AttemptEnd) :
    diskAfter disk (calls ++ [a]) = a.disk := by
  simp [diskAfter]

def Completed (o : Outcome) : Prop := o.status = .success ∨ o.status = .partialSuccess

/-- What is promised of an outcome after so many calls. -/
structure OutcomeContract (node : Node) (nodeStartWall : Int) (context : PipelineContext)
    (disk : Disk) (calls : Nat) (failed : Option StageFailed) (o : Outcome) : Prop where
  settled : o.status ≠ .retry
  accepted : Completed o → checkMustWrite node o nodeStartWall context disk = .ok none
  counted : o.attemptCount = some (calls : Int)
  event : ∀ f, failed = some f → f.finalStatus = o.status

structure LadderContract (node : Node) (nodeStartWall : Int) (maxAttempts : Nat) (disk : Disk)
    (run : LadderRun) (calls : List AttemptEnd) : Prop where
  bounded : calls.length ≤ maxAttempts
  outcome : ∀ o, run.result = .outcome o →
    OutcomeContract node nodeStartWall run.context (diskAfter disk calls) calls.length run.failed o

/-! ## One attempt -/

/-- An outcome after which another attempt is made: it asks for one, or it is a completion
without its artifact and attempts are left. -/
def Unfinished (node : Node) (nodeStartWall : Int) (attempt maxAttempts : Nat) (a : AttemptEnd)
    (o : Outcome) : Prop :=
  o.status = .retry ∨ Completed o ∧ attempt < maxAttempts ∧
    ∃ violation, checkMustWrite node o nodeStartWall a.context a.disk = .ok (some violation)

/-- The attempt ends in something to be tried again. -/
def AsksAgain (node : Node) (logsRoot : String) (nodeStartWall : Int) (attempt maxAttempts : Nat)
    (a : AttemptEnd) : Prop :=
  match a.handler with
  | .childDot _ => False
  | .raised e => shouldRetry e = true ∧ attempt < maxAttempts
  | .returned outcome => match readStatusOverride node logsRoot a.startWall outcome a.disk with
    | .error _ => False
    | .ok override => Unfinished node nodeStartWall attempt maxAttempts a (override.getD outcome)

/-- What one attempt comes to. -/
inductive AttemptSpec (node : Node) (nodeStartWall : Int) (attempt : Nat) (a : AttemptEnd)
    (again : Prop) : AfterAttempt → Prop where
  | again (last : Option Outcome) (h : again) :
      AttemptSpec node nodeStartWall attempt a again (.again last)
  | outcome (o : Outcome) (failed : Option StageFailed) (h : ¬ again)
      (hcontract : OutcomeContract node nodeStartWall a.context a.disk attempt failed o) :
      AttemptSpec node nodeStartWall attempt a again (.done (.outcome o) failed)
  | ends (r : LadderEnd) (h : ¬ again) (hr : ∀ o, r ≠ .outcome o) :
      AttemptSpec node nodeStartWall attempt a again (.done r none)

omit [JsonReader] in
/-- An outcome that completes nothing is settled as it is. -/
theorem contract_of_not_completed {node : Node} {nodeStartWall : Int} {context : PipelineContext}
    {disk : Disk} {attempt : Nat} {o : Outcome} (hretry : o.status ≠ .retry)
    (hcompleted : ¬ Completed o) (failed : Option StageFailed)
    (hfailed : ∀ f, failed = some f → f.finalStatus = o.status) :
    OutcomeContract node nodeStartWall context disk attempt failed (withAttempt o attempt) where
  settled := hretry
  accepted h := absurd h hcompleted
  counted := rfl
  event := hfailed

section Completing

variable {node : Node} {nodeStartWall : Int} {attempt maxAttempts : Nat} {a : AttemptEnd} {o : Outcome}
  (hcompleted : Completed o)

include hcompleted

omit [JsonReader] in
theorem afterOutcome_raised {e : PyExc}
    (h : checkMustWrite node o nodeStartWall a.context a.disk = .error e) :
    afterOutcome node nodeStartWall attempt maxAttempts a o = .done (.raised e) none := by
  unfold afterOutcome
  rcases hcompleted with hstatus | hstatus <;> rw [hstatus] <;> dsimp only <;> rw [h]

omit [JsonReader] in
theorem afterOutcome_accepted
    (h : checkMustWrite node o nodeStartWall a.context a.disk = .ok none) :
    afterOutcome node nodeStartWall attempt maxAttempts a o =
      .done (.outcome (withAttempt o attempt)) none := by
  unfold afterOutcome
  rcases hcompleted with hstatus | hstatus <;> rw [hstatus] <;> dsimp only <;> rw [h]

omit [JsonReader] in
theorem afterOutcome_violated {violation : Outcome}
    (h : checkMustWrite node o nodeStartWall a.context a.disk = .ok (some violation)) :
    afterOutcome node nodeStartWall attempt maxAttempts a o =
      if attempt < maxAttempts then .again (some violation)
      else .done (.outcome (withAttempt violation attempt))
        (some (stageFailed node attempt (withAttempt violation attempt))) := by
  unfold afterOutcome
  rcases hcompleted with hstatus | hstatus <;> rw [hstatus] <;> dsimp only <;> rw [h]

end Completing

omit [JsonReader] in
theorem afterOutcome_spec (node : Node) (nodeStartWall : Int) (attempt maxAttempts : Nat)
    (a : AttemptEnd) (o : Outcome) :
    AttemptSpec node nodeStartWall attempt a
      (Unfinished node nodeStartWall attempt maxAttempts a o)
      (afterOutcome node nodeStartWall attempt maxAttempts a o) := by
  have hdone : Completed o → AttemptSpec node nodeStartWall attempt a
      (Unfinished node nodeStartWall attempt maxAttempts a o)
      (afterOutcome node nodeStartWall attempt maxAttempts a o) := by
    intro hcompleted
    have hnot : o.status ≠ .retry := by
      intro hretry
      rw [Completed, hretry] at hcompleted
      simp at hcompleted
    cases hcheck : checkMustWrite node o nodeStartWall a.context a.disk with
    | error e =>
      rw [afterOutcome_raised hcompleted hcheck]
      refine .ends _ ?_ (fun _ h => by cases h)
      rintro (hretry | ⟨-, -, violation, hv⟩)
      · exact hnot hretry
      · rw [hcheck] at hv
        cases hv
    | ok checked =>
      cases checked with
      | none =>
        rw [afterOutcome_accepted hcompleted hcheck]
        refine .outcome _ _ ?_ ⟨hnot, fun _ => ?_, rfl, fun _ h => by cases h⟩
        · rintro (hretry | ⟨-, -, violation, hv⟩)
          · exact hnot hretry
          · rw [hcheck] at hv
            cases hv
        · exact (checkMustWrite_congr rfl nodeStartWall a.context a.disk).trans hcheck
      | some violation =>
        rw [afterOutcome_violated hcompleted hcheck]
        by_cases hleft : attempt < maxAttempts
        · rw [if_pos hleft]
          exact .again _ (.inr ⟨hcompleted, hleft, violation, hcheck⟩)
        · rw [if_neg hleft]
          have hfail : violation.status = .fail := (checkMustWrite_some hcheck).1
          refine .outcome _ _ ?_ (contract_of_not_completed ?_ ?_ _ ?_)
          · rintro (hretry | ⟨-, hlt, -⟩)
            · exact hnot hretry
            · exact hleft hlt
          · simp [hfail]
          · simp [Completed, hfail]
          · intro f hf
            cases hf
            rfl
  have hplain : o.status ≠ .retry → ¬ Completed o →
      ¬ Unfinished node nodeStartWall attempt maxAttempts a o :=
    fun hretry hcompleted h => h.elim hretry fun h => hcompleted h.1
  cases hstatus : o.status with
  | success => exact hdone (.inl hstatus)
  | partialSuccess => exact hdone (.inr hstatus)
  | fail =>
    rw [afterOutcome, hstatus]
    have hretry : o.status ≠ .retry := by simp [hstatus]
    have hcompleted : ¬ Completed o := by simp [Completed, hstatus]
    refine .outcome _ _ (hplain hretry hcompleted)
      (contract_of_not_completed hretry hcompleted _ ?_)
    intro f hf
    cases hf
    rfl
  | skipped =>
    rw [afterOutcome, hstatus]
    have hretry : o.status ≠ .retry := by simp [hstatus]
    have hcompleted : ¬ Completed o := by simp [Completed, hstatus]
    exact .outcome _ _ (hplain hretry hcompleted)
      (contract_of_not_completed hretry hcompleted _ (fun _ h => by cases h))
  | retry =>
    rw [afterOutcome, hstatus]
    exact .again _ (.inl hstatus)

theorem afterAttempt_spec (node : Node) (logsRoot : String) (nodeStartWall : Int)
    (attempt maxAttempts : Nat) (last : Option Outcome) (a : AttemptEnd) :
    AttemptSpec node nodeStartWall attempt a
      (AsksAgain node logsRoot nodeStartWall attempt maxAttempts a)
      (afterAttempt node logsRoot nodeStartWall attempt maxAttempts last a) := by
  rw [afterAttempt, AsksAgain]
  cases a.handler with
  | childDot text => exact .ends _ not_false (fun _ h => nomatch h)
  | raised e =>
    dsimp only
    by_cases hagain : shouldRetry e = true ∧ attempt < maxAttempts
    · rw [if_pos (by simpa using hagain)]
      exact .again _ hagain
    · rw [if_neg (by simpa using hagain)]
      let o : Outcome := { status := .fail, failureReason := some e.text }
      have hretry : o.status ≠ .retry := StageStatus.noConfusion
      have hcompleted : ¬ Completed o := fun h => h.elim StageStatus.noConfusion
        StageStatus.noConfusion
      have hfailed : ∀ f, some (stageFailed node attempt (withAttempt o attempt)) = some f →
          f.finalStatus = o.status := by
        intro f hf
        cases hf
        rfl
      exact .outcome (withAttempt o attempt) _ hagain
        (contract_of_not_completed hretry hcompleted _ hfailed)
  | returned outcome =>
    dsimp only
    generalize readStatusOverride node logsRoot a.startWall outcome a.disk = r
    cases r with
    | error e =>
      dsimp only
      exact .ends _ not_false (fun _ h => nomatch h)
    | ok override =>
      dsimp only
      exact afterOutcome_spec node nodeStartWall attempt maxAttempts a (override.getD outcome)

/-! ## The whole ladder -/

/-- A completion the exhausted ladder makes up, where `allow_partial` is on, and its
artifact is not there. -/
def PartialRefused (node : Node) (nodeStartWall : Int) (context : PipelineContext) (disk : Disk) :
    Prop :=
  resolveBoolAttr (node.attr "allow_partial") = true ∧ ∃ violation,
    checkMustWrite node { status := .partialSuccess } nodeStartWall context disk =
      .ok (some violation)

/-- Every attempt from here on asks for another, and what the ladder falls back on is
refused. -/
def RunsOutRefused (perform : Nat → PipelineContext → AttemptEnd) (node : Node) (logsRoot : String)
    (nodeStartWall : Int) (maxAttempts : Nat) : Nat → Nat → PipelineContext → Disk → Prop
  | 0, _, context, disk => PartialRefused node nodeStartWall context disk
  | left + 1, attempt, context, _ =>
    AsksAgain node logsRoot nodeStartWall attempt maxAttempts (perform attempt context) ∧
      RunsOutRefused perform node logsRoot nodeStartWall maxAttempts left (attempt + 1)
        (perform attempt context).context (perform attempt context).disk

/-- What the exhausted ladder falls back on where `allow_partial` is on. -/
def partialAccepted (maxAttempts : Nat) (last : Option Outcome) : Outcome where
  status := .partialSuccess
  notes := some "Retries exhausted, partial accepted"
  failureReason := last.bind Outcome.failureReason
  attemptCount := some maxAttempts

omit [JsonReader] in
theorem retriesExhausted_of_allows {node : Node}
    (h : resolveBoolAttr (node.attr "allow_partial") = true) (nodeStartWall : Int)
    (maxAttempts : Nat) (last : Option Outcome) (context : PipelineContext) (disk : Disk) :
    retriesExhausted node nodeStartWall maxAttempts last context disk =
      match checkMustWrite node { status := .partialSuccess } nodeStartWall context disk with
      | .error e => (.raised e, none)
      | .ok violation =>
        (.outcome (violation.getD (partialAccepted maxAttempts last)),
          some (stageFailed node maxAttempts
            (violation.getD (partialAccepted maxAttempts last)))) := by
  have hcheck : checkMustWrite node (partialAccepted maxAttempts last) nodeStartWall context disk =
      checkMustWrite node { status := .partialSuccess } nodeStartWall context disk :=
    checkMustWrite_congr rfl nodeStartWall context disk
  rw [retriesExhausted, if_pos h, ← hcheck]
  rfl

omit [JsonReader] in
/-- The exhausted ladder keeps its promises unless its partial success is refused: the
failure in its place carries no number of calls. -/
theorem retriesExhausted_contract_iff (node : Node) (nodeStartWall : Int) (maxAttempts : Nat)
    (last : Option Outcome) (context : PipelineContext) (disk : Disk) :
    (∀ o, (retriesExhausted node nodeStartWall maxAttempts last context disk).1 = .outcome o →
      OutcomeContract node nodeStartWall context disk maxAttempts
        (retriesExhausted node nodeStartWall maxAttempts last context disk).2 o) ↔
      ¬ PartialRefused node nodeStartWall context disk := by
  rw [PartialRefused]
  by_cases hallows : resolveBoolAttr (node.attr "allow_partial") = true
  · rw [retriesExhausted_of_allows hallows]
    cases hcheck : checkMustWrite node { status := .partialSuccess } nodeStartWall context disk with
    | error e => simp
    | ok checked =>
      cases checked with
      | none =>
        refine iff_of_true ?_ (by simp)
        intro o ho
        cases ho
        refine ⟨StageStatus.noConfusion, fun _ => ?_, rfl, ?_⟩
        · exact (checkMustWrite_congr rfl nodeStartWall context disk).trans hcheck
        · intro f hf
          cases hf
          rfl
      | some violation =>
        refine iff_of_false ?_ (by simp [hallows])
        intro h
        have hcounted := (h violation rfl).counted
        rw [(checkMustWrite_some hcheck).2.2] at hcounted
        cases hcounted
  · rw [retriesExhausted, if_neg hallows]
    refine iff_of_true ?_ (fun h => hallows h.1)
    intro o ho
    cases ho
    refine ⟨StageStatus.noConfusion, ?_, rfl, ?_⟩
    · rintro (h | h) <;> cases h
    · intro f hf
      cases hf
      rfl

/-- The attempts from `attempt` on, behind those noted down. -/
def ladderFrom (perform : Nat → PipelineContext → AttemptEnd) (node : Node) (logsRoot : String)
    (nodeStartWall : Int) (maxAttempts left attempt : Nat) (last : Option Outcome)
    (context : PipelineContext) (disk : Disk) (calls : List AttemptEnd) :
    LadderRun × List AttemptEnd :=
  runAttempts (m := StateM (List AttemptEnd)) (noted perform) node logsRoot nodeStartWall
    maxAttempts left attempt last context disk calls

theorem ladderFrom_succ (perform : Nat → PipelineContext → AttemptEnd) (node : Node)
    (logsRoot : String) (nodeStartWall : Int) (maxAttempts left attempt : Nat)
    (last : Option Outcome) (context : PipelineContext) (disk : Disk) (calls : List AttemptEnd) :
    ladderFrom perform node logsRoot nodeStartWall maxAttempts (left + 1) attempt last context disk
      calls =
      match afterAttempt node logsRoot nodeStartWall attempt maxAttempts last
        (perform attempt context) with
      | .done r failed =>
        (⟨r, (perform attempt context).context, failed⟩, calls ++ [perform attempt context])
      | .again last' => ladderFrom perform node logsRoot nodeStartWall maxAttempts left (attempt + 1)
          last' (perform attempt context).context (perform attempt context).disk
          (calls ++ [perform attempt context]) := by
  rw [ladderFrom, runAttempts]
  show (match afterAttempt node logsRoot nodeStartWall attempt maxAttempts last
      (perform attempt context) with
    | .done r failed => (pure (LadderRun.mk r (perform attempt context).context failed) :
        StateM (List AttemptEnd) LadderRun)
    | .again last' => runAttempts (noted perform) node logsRoot nodeStartWall maxAttempts left
        (attempt + 1) last' (perform attempt context).context (perform attempt context).disk)
    (calls ++ [perform attempt context]) = _
  cases afterAttempt node logsRoot nodeStartWall attempt maxAttempts last
    (perform attempt context) <;> rfl

/-- From any attempt on, the ladder keeps its promises unless it runs out and is
refused. -/
theorem ladderFrom_contract_iff (perform : Nat → PipelineContext → AttemptEnd) (node : Node)
    (logsRoot : String) (nodeStartWall : Int) (maxAttempts left attempt : Nat)
    (last : Option Outcome) (context : PipelineContext) (disk₀ disk : Disk)
    (calls : List AttemptEnd) (hattempt : attempt = calls.length + 1)
    (hleft : calls.length + left = maxAttempts) (hdisk : diskAfter disk₀ calls = disk) :
    LadderContract node nodeStartWall maxAttempts disk₀
      (ladderFrom perform node logsRoot nodeStartWall maxAttempts left attempt last context disk
        calls).1
      (ladderFrom perform node logsRoot nodeStartWall maxAttempts left attempt last context disk
        calls).2 ↔
      ¬ RunsOutRefused perform node logsRoot nodeStartWall maxAttempts left attempt context disk := by
  induction left generalizing attempt last context disk calls with
  | zero =>
    have hlength : calls.length = maxAttempts := hleft
    rw [RunsOutRefused, ← retriesExhausted_contract_iff node nodeStartWall maxAttempts last]
    subst hlength hdisk
    exact ⟨fun h => h.outcome, fun h => ⟨Nat.le_refl _, h⟩⟩
  | succ left ih =>
    have hlength : (calls ++ [perform attempt context]).length = calls.length + 1 :=
      List.length_append
    have hbounded : (calls ++ [perform attempt context]).length ≤ maxAttempts := by omega
    have hdisk' := diskAfter_snoc disk₀ calls (perform attempt context)
    have hspec := afterAttempt_spec node logsRoot nodeStartWall attempt maxAttempts last
      (perform attempt context)
    rw [RunsOutRefused, ladderFrom_succ]
    generalize afterAttempt node logsRoot nodeStartWall attempt maxAttempts last
      (perform attempt context) = after at hspec
    cases hspec with
    | again last' hagain =>
      rw [ih (attempt + 1) last' _ _ _ (by omega) (by omega) hdisk', not_and]
      exact ⟨fun h _ => h, fun h => h hagain⟩
    | outcome o failed hagain hcontract =>
      refine iff_of_true ⟨hbounded, ?_⟩ (fun h => hagain h.1)
      intro o' ho'
      cases ho'
      dsimp only
      rw [hdisk', hlength, ← hattempt]
      exact hcontract
    | ends r hagain hr =>
      exact iff_of_true ⟨hbounded, fun o ho => absurd ho (hr o)⟩ (fun h => hagain h.1)

/-- The ladder keeps its promises, unless every attempt asks for another, the node allows
a partial success, and the artifact it owes for that is not there: the failure it then
returns does not say how many calls were made. -/
theorem executeWithRetry_contract_iff (perform : Nat → PipelineContext → AttemptEnd) (node : Node)
    (context : PipelineContext) (logsRoot : String) (policy : RetryPolicy) (nodeStartWall : Int)
    (disk : Disk) :
    LadderContract node nodeStartWall policy.maxAttempts disk
      (ladderCalls perform node context logsRoot policy nodeStartWall disk).1
      (ladderCalls perform node context logsRoot policy nodeStartWall disk).2 ↔
      ¬ RunsOutRefused perform node logsRoot nodeStartWall policy.maxAttempts policy.maxAttempts 1
        context disk :=
  ladderFrom_contract_iff perform node logsRoot nodeStartWall policy.maxAttempts
    policy.maxAttempts 1 none context disk disk [] rfl (Nat.zero_add _) rfl

end Ladder

section Demo

open Py.Ascii

/-- A node that owes a report, and may be accepted in part. -/
def owingNode : Node where
  id := "report"
  attrs := Dict.ofList [("must_write", .str "report.md")]
  allowPartial := .bool true

def emptyDisk : Disk where
  cwd := "/"
  stat _ := .absent

def asksForAnother : AttemptEnd where
  handler := .returned { status := .retry }
  context := {}
  startWall := 0
  disk := emptyDisk

/-- One call was made, and the failure does not say so. -/
theorem refused_partial_uncounted :
    ¬ LadderContract owingNode 0 1 emptyDisk
      (ladderCalls (fun _ _ => asksForAnother) owingNode {} "/logs" ⟨1⟩ 0 emptyDisk).1
      (ladderCalls (fun _ _ => asksForAnother) owingNode {} "/logs" ⟨1⟩ 0 emptyDisk).2 := by
  intro h
  have hcounted := (h.outcome _ rfl).counted
  cases hcounted

end Demo

end DotRunner
