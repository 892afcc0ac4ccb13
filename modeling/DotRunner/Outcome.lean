import DotRunner.Py.Value

namespace DotRunner

open Py

inductive StageStatus where
  | success
  | partialSuccess
  | retry
  | fail
  | skipped
deriving DecidableEq

namespace StageStatus

def value : StageStatus → String
  | success => "success"
  | partialSuccess => "partial_success"
  | retry => "retry"
  | fail => "fail"
  | skipped => "skipped"

/-- `StageStatus(text)` -/
def ofValue? (s : String) : Option StageStatus :=
  if s = "success" then some success
  else if s = "partial_success" then some partialSuccess
  else if s = "retry" then some retry
  else if s = "fail" then some fail
  else if s = "skipped" then some skipped
  else none

@[simp] theorem ofValue?_value (s : StageStatus) : ofValue? s.value = some s := by
  cases s <;> decide

/-- The two statuses that put a node's outputs into the failed table. -/
def failing : StageStatus → Bool
  | fail => true
  | skipped => true
  | _ => false

end StageStatus

structure Outcome where
  status : StageStatus
  preferredLabel : Option String := none
  suggestedNextIds : Option (List Value) := none
  contextUpdates : Option Record := none
  notes : Option String := none
  failureReason : Option String := none
  sessionId : Option String := none
  isExplicit : Bool := false
  responseText : Option String := none
  failedStep : Option Record := none
  attemptCount : Option Int := none

namespace Outcome

def isSuccess (o : Outcome) : Bool :=
  o.status == .success || o.status == .partialSuccess

theorem isSuccess_iff (o : Outcome) :
    o.isSuccess = true ↔ o.status = .success ∨ o.status = .partialSuccess := by
  simp [isSuccess]

theorem not_isSuccess_of_fail {o : Outcome} (h : o.status = .fail) : o.isSuccess = false := by
  simp [isSuccess, h]

/-- The suggested ids as a list, `None` and `[]` alike. -/
def suggestions (o : Outcome) : List Value := o.suggestedNextIds.getD []

end Outcome

def optionText : Option String → Value
  | some s => .str s
  | none => .none

def optionIds : Option (List Value) → Value
  | some l => .list l
  | none => .none

def optionRecord : Option Record → Value
  | some r => .dict r.entries
  | none => .none

/-- The key-value store shared by the stages of a run, with its run log. -/
structure PipelineContext where
  values : Record := Dict.empty
  logs : List Value := []

namespace PipelineContext

/-- A key stored as `None` reads like a missing one. -/
def get (c : PipelineContext) (key : String) : Value := c.values.getD key .none

def set (c : PipelineContext) (key : String) (v : Value) : PipelineContext :=
  { c with values := c.values.set key v }

def pop (c : PipelineContext) (key : String) : PipelineContext :=
  { c with values := c.values.erase key }

def update (c : PipelineContext) (updates : Record) : PipelineContext :=
  { c with values := c.values.update updates }

def snapshot (c : PipelineContext) : Record := c.values

def clone (c : PipelineContext) : PipelineContext := c

def appendLog (c : PipelineContext) (entry : String) : PipelineContext :=
  { c with logs := c.logs ++ [.str entry] }

@[simp] theorem set_logs (c : PipelineContext) (key : String) (v : Value) :
    (c.set key v).logs = c.logs := rfl

@[simp] theorem appendLog_values (c : PipelineContext) (entry : String) :
    (c.appendLog entry).values = c.values := rfl

@[simp] theorem get_appendLog (c : PipelineContext) (entry key : String) :
    (c.appendLog entry).get key = c.get key := rfl

@[simp] theorem set_values (c : PipelineContext) (key : String) (v : Value) :
    (c.set key v).values = c.values.set key v := rfl

end PipelineContext

end DotRunner
