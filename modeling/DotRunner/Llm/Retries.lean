import DotRunner.Llm.ToolLoop

/-!
# Retried calls

The errors of a call, which of them are retryable, and `retry`, which calls again while
they are.  Both tool loops ask the model through it, `generate` for a whole answer and
`stream` for the first event of one.
-/

namespace DotRunner
namespace Llm

open Py

/-! ## Errors -/

inductive ProviderErrorKind where
  | provider
  | authentication
  | accessDenied
  | notFound
  | invalidRequest
  | contentFilter
  | contextLength
  | quotaExceeded
  | rateLimit
  | server
deriving DecidableEq

/-- The value of `retryable` where none is given. -/
def ProviderErrorKind.retryable : ProviderErrorKind → Bool
  | rateLimit | server => true
  | _ => false

inductive PlainErrorKind where
  | sdk
  | requestTimeout
  | abort
  | network
  | stream
  | streamProtocol
  | invalidToolCall
  | noObjectGenerated
  | configuration
deriving DecidableEq

def PlainErrorKind.retryable : PlainErrorKind → Bool
  | requestTimeout | network | stream | streamProtocol => true
  | _ => false

structure ProviderError where
  kind : ProviderErrorKind
  provider : String
  statusCode : Option Int
  errorCode : Option String
  retryable : Bool
  retryAfter : Option ℚ

inductive SDKError where
  | provider (message : String) (e : ProviderError)
  | plain (message : String) (kind : PlainErrorKind)

def SDKError.retryable : SDKError → Bool
  | provider _ e => e.retryable
  | plain _ kind => kind.retryable

/-- `getattr(err, "retry_after", None)` -/
def SDKError.retryAfter : SDKError → Option ℚ
  | provider _ e => e.retryAfter
  | plain _ _ => none

/-- `_STATUS_MAP`, without the 408 that is no error of a provider. -/
def statusMap : Int → Option ProviderErrorKind
  | 400 | 422 => some .invalidRequest
  | 401 => some .authentication
  | 403 => some .accessDenied
  | 404 => some .notFound
  | 413 => some .contextLength
  | 429 => some .rateLimit
  | 500 | 502 | 503 | 504 => some .server
  | _ => none

def quotaPhrases : List String :=
  ["insufficient_quota", "quota exceeded", "billing", "rate limit", "quota"]

def contextPhrases : List String :=
  ["context length", "maximum context", "too many tokens", "prompt is too long"]

def contentFilterPhrases : List String := ["content filter", "content_policy", "safety", "blocked"]

section Status

variable [Runtime]

/-- `_classify_by_message` -/
def classifyByMessage (message : String) : Option ProviderErrorKind :=
  let mentions (phrases : List String) : Bool :=
    phrases.any fun phrase => Text.occurs phrase.toList (Runtime.lower message).toList
  if mentions quotaPhrases then some .quotaExceeded
  else if mentions contextPhrases then some .contextLength
  else if mentions contentFilterPhrases then some .contentFilter
  else none

/-- The class of an error that is one of a provider. -/
def classOfStatus (statusCode : Int) (message : String) : Option ProviderErrorKind :=
  match statusMap statusCode with
  | none => classifyByMessage message
  | some .invalidRequest => some ((classifyByMessage message).getD .invalidRequest)
  | some kind => some kind

/-- `error_from_status_code` -/
def errorFromStatusCode (statusCode : Int) (message provider : String) (errorCode : Option String)
    (retryAfter : Option ℚ) : SDKError :=
  if statusCode = 408 then .plain message .requestTimeout
  else if errorCode = some "model_not_found" then
    .provider message ⟨.notFound, provider, some statusCode, errorCode,
      ProviderErrorKind.notFound.retryable, retryAfter⟩
  else match classOfStatus statusCode message with
    | none => .provider message ⟨.provider, provider, some statusCode, errorCode, true, retryAfter⟩
    | some kind =>
      .provider message ⟨kind, provider, some statusCode, errorCode, kind.retryable, retryAfter⟩

theorem retryable_classifyByMessage {message : String} {kind : ProviderErrorKind}
    (h : classifyByMessage message = some kind) : kind.retryable = false := by
  unfold classifyByMessage at h
  dsimp only at h
  split at h
  · cases h
    rfl
  · split at h
    · cases h
      rfl
    · split at h
      · cases h
        rfl
      · cases h

/-- A status is worth another call where it is a timeout, a rate limit or an error of the
server, or is not known and the message has no phrase that says why. -/
theorem retryable_errorFromStatusCode (statusCode : Int) (message provider : String)
    (errorCode : Option String) (retryAfter : Option ℚ) :
    (errorFromStatusCode statusCode message provider errorCode retryAfter).retryable = true ↔
      statusCode = 408 ∨ errorCode ≠ some "model_not_found" ∧
        (statusCode ∈ [429, 500, 502, 503, 504] ∨
          statusMap statusCode = none ∧ classifyByMessage message = none) := by
  unfold errorFromStatusCode
  by_cases htimeout : statusCode = 408
  · rw [if_pos htimeout]
    exact iff_of_true rfl (.inl htimeout)
  rw [if_neg htimeout]
  by_cases hmodel : errorCode = some "model_not_found"
  · rw [if_pos hmodel]
    refine iff_of_false (fun h => by cases h) ?_
    simp [htimeout, hmodel]
  rw [if_neg hmodel]
  have hright : (statusCode = 408 ∨ errorCode ≠ some "model_not_found" ∧
      (statusCode ∈ [429, 500, 502, 503, 504] ∨
        statusMap statusCode = none ∧ classifyByMessage message = none)) ↔
      (statusCode ∈ [429, 500, 502, 503, 504] ∨
        statusMap statusCode = none ∧ classifyByMessage message = none) := by
    simp [htimeout, hmodel]
  rw [hright]
  cases hstatus : statusMap statusCode with
  | none =>
    have hunknown : statusCode ∉ [429, 500, 502, 503, 504] := by
      intro hmem
      simp only [List.mem_cons, List.not_mem_nil, or_false] at hmem
      rcases hmem with rfl | rfl | rfl | rfl | rfl <;> cases hstatus
    rw [classOfStatus, hstatus]
    cases hclass : classifyByMessage message with
    | none => exact iff_of_true rfl (.inr ⟨rfl, rfl⟩)
    | some kind =>
      refine iff_of_false ?_ (by simp [hunknown])
      show ¬kind.retryable = true
      rw [retryable_classifyByMessage hclass]
      exact Bool.false_ne_true
  | some kind =>
    have hknown : (statusCode ∈ [429, 500, 502, 503, 504]) ↔ kind.retryable = true := by
      unfold statusMap at hstatus
      split at hstatus <;> cases hstatus <;> simp_all [ProviderErrorKind.retryable]
    have hclass : ∃ kind', classOfStatus statusCode message = some kind' ∧
        kind'.retryable = kind.retryable := by
      by_cases hgeneric : kind = .invalidRequest
      · subst hgeneric
        rw [classOfStatus, hstatus]
        refine ⟨_, rfl, ?_⟩
        cases hclass : classifyByMessage message with
        | none => rfl
        | some kind' => exact retryable_classifyByMessage hclass
      · refine ⟨kind, ?_, rfl⟩
        rw [classOfStatus, hstatus]
        cases kind <;> first | rfl | exact absurd rfl hgeneric
    obtain ⟨kind', hkind', hsame⟩ := hclass
    rw [hkind']
    show kind'.retryable = true ↔ _
    rw [hsame, hknown]
    simp

end Status

/-! ## `retry` -/

structure RetryPolicy where
  maxRetries : Int := 2
  baseDelay : ℚ := 1
  maxDelay : ℚ := 60
  backoffMultiplier : ℚ := 2
  jitter : Bool := true

/-- `calculate_delay`, with what `random.uniform(0.5, 1.5)` draws. -/
def RetryPolicy.calculateDelay (policy : RetryPolicy) (draw : ℚ) (attempt : Nat) : ℚ :=
  let delay := min (policy.baseDelay * policy.backoffMultiplier ^ attempt) policy.maxDelay
  if policy.jitter then delay * draw else delay

/-- What a call raises. -/
inductive Failure where
  | sdk (err : SDKError)
  | other (exc : PyExc)

/-- Is what the call raises on this attempt raised to the caller? -/
def RetryPolicy.givesUp (policy : RetryPolicy) (attempt : Nat) : Failure → Bool
  | .sdk err => !err.retryable || decide (policy.maxRetries ≤ attempt) ||
    err.retryAfter.any fun retryAfter => decide (policy.maxDelay < retryAfter)
  | .other _ => true

def RetryPolicy.delay (policy : RetryPolicy) (draw : ℚ) (attempt : Nat) : Failure → ℚ
  | .sdk err => err.retryAfter.getD (policy.calculateDelay draw attempt)
  | .other _ => 0

/-- How `retry` ends, how many calls it makes, and how long it sleeps between them. -/
structure Retried (α : Type) where
  outcome : Except Failure α
  calls : Nat
  slept : List ℚ

section Retry

variable {α : Type} (policy : RetryPolicy) (draw : Nat → ℚ) (fn : Nat → Except Failure α)

/-- The attempts that are left, from this one on.  Behind the last one the last error is
raised, and there is none where there was no attempt. -/
def retryFrom : Nat → Nat → Option Failure → Retried α
  | 0, attempt, lastError =>
    { outcome := .error (lastError.getD (.other (.raised "AssertionError")))
      calls := attempt
      slept := [] }
  | left + 1, attempt, _ => match fn attempt with
    | .ok a => { outcome := .ok a, calls := attempt + 1, slept := [] }
    | .error err =>
      if policy.givesUp attempt err then
        { outcome := .error err, calls := attempt + 1, slept := [] }
      else
        let rest := retryFrom left (attempt + 1) (some err)
        { rest with slept := policy.delay (draw attempt) attempt err :: rest.slept }

/-- `range(policy.max_retries + 1)` -/
def RetryPolicy.attempts (policy : RetryPolicy) : Nat := (policy.maxRetries + 1).toNat

def retry : Retried α := retryFrom policy draw fn policy.attempts 0 none

/-- The calls up to the last: each of them failed in a way that is worth another. -/
def FailedBefore (n : Nat) : Prop :=
  ∀ j, j < n → ∃ err, fn j = .error err ∧ policy.givesUp j err = false

theorem retryFrom_spec {left attempt : Nat} (lastError : Option Failure)
    (h : attempt + left = policy.attempts) (hleft : 0 < left) (hbefore : FailedBefore policy fn attempt) :
    ∃ n, attempt ≤ n ∧ n < policy.attempts ∧ FailedBefore policy fn n ∧
      (retryFrom policy draw fn left attempt lastError).calls = n + 1 ∧
      (retryFrom policy draw fn left attempt lastError).outcome = fn n ∧
      ∀ err, fn n = .error err → policy.givesUp n err = true := by
  induction left generalizing attempt lastError with
  | zero => cases hleft
  | succ left ih =>
    unfold retryFrom
    cases hcall : fn attempt with
    | ok a =>
      refine ⟨attempt, le_rfl, by omega, hbefore, rfl, hcall.symm, fun err herr => ?_⟩
      rw [hcall] at herr
      cases herr
    | error err =>
      dsimp only
      by_cases hstop : policy.givesUp attempt err = true
      · rw [if_pos hstop]
        refine ⟨attempt, le_rfl, by omega, hbefore, rfl, hcall.symm, fun err' herr => ?_⟩
        rw [hcall] at herr
        cases herr
        exact hstop
      · rw [if_neg hstop]
        rw [Bool.not_eq_true] at hstop
        have hmore : FailedBefore policy fn (attempt + 1) := by
          intro j hj
          rcases Nat.lt_succ_iff_lt_or_eq.mp hj with hlt | rfl
          · exact hbefore j hlt
          · exact ⟨err, hcall, hstop⟩
        -- an attempt that does not give up is not the last
        have hpositive : 0 < left := by
          by_contra hzero
          have hlast : policy.maxRetries ≤ attempt := by
            rw [RetryPolicy.attempts] at h
            omega
          cases err with
          | other => cases hstop
          | sdk err =>
            rw [RetryPolicy.givesUp, decide_eq_true hlast, Bool.or_true, Bool.true_or] at hstop
            cases hstop
        obtain ⟨n, hle, hrest⟩ := ih (some err) (by omega) hpositive hmore
        exact ⟨n, by omega, hrest⟩

/-- Nothing is waited for longer than the longest delay and its jitter, whatever the error
asks for. -/
theorem slept_retry (hmax : 0 ≤ policy.maxDelay) (hdraw : ∀ i, 1 / 2 ≤ draw i ∧ draw i ≤ 3 / 2) :
    ∀ d ∈ (retry policy draw fn).slept, d ≤ policy.maxDelay * (3 / 2) := by
  have hlong : policy.maxDelay ≤ policy.maxDelay * (3 / 2) := le_mul_of_one_le_right hmax (by norm_num)
  have hdelay : ∀ attempt err, policy.givesUp attempt err = false →
      policy.delay (draw attempt) attempt err ≤ policy.maxDelay * (3 / 2) := by
    intro attempt err hgo
    cases err with
    | other => cases hgo
    | sdk err =>
      rw [RetryPolicy.givesUp, Bool.or_eq_false_iff] at hgo
      rw [RetryPolicy.delay]
      cases hafter : err.retryAfter with
      | some s =>
        rw [hafter] at hgo
        exact (not_lt.mp (of_decide_eq_false hgo.2)).trans hlong
      | none =>
        obtain ⟨hlow, hhigh⟩ := hdraw attempt
        have hpositive : 0 ≤ draw attempt := le_trans (by norm_num) hlow
        have hmin := min_le_right (policy.baseDelay * policy.backoffMultiplier ^ attempt) policy.maxDelay
        rw [Option.getD_none, RetryPolicy.calculateDelay]
        split
        · exact (mul_le_mul_of_nonneg_right hmin hpositive).trans (mul_le_mul_of_nonneg_left hhigh hmax)
        · exact hmin.trans hlong
  have hrun : ∀ left attempt lastError, ∀ d ∈ (retryFrom policy draw fn left attempt lastError).slept,
      d ≤ policy.maxDelay * (3 / 2) := by
    intro left
    induction left with
    | zero => exact fun attempt lastError d hd => by cases hd
    | succ left ih =>
      intro attempt lastError d hd
      unfold retryFrom at hd
      cases hcall : fn attempt with
      | ok a =>
        rw [hcall] at hd
        cases hd
      | error err =>
        rw [hcall] at hd
        dsimp only at hd
        by_cases hstop : policy.givesUp attempt err = true
        · rw [if_pos hstop] at hd
          cases hd
        · rw [if_neg hstop] at hd
          rcases List.mem_cons.mp hd with rfl | hd
          · exact hdelay attempt err (Bool.not_eq_true _ ▸ hstop)
          · exact ih _ _ d hd
  exact hrun _ _ _

end Retry


/-! ## The tool loops on calls that fail -/

/-- Every element once at least, and at most so often, in a row. -/
inductive Resends {α : Type} (n : Nat) : List α → List α → Prop
  | nil : Resends n [] []
  | cons {x : α} {xs ys : List α} {m : Nat} (hpos : 0 < m) (hle : m ≤ n) (rest : Resends n xs ys) :
    Resends n (x :: xs) (List.replicate m x ++ ys)

/-- The calls from `first` to `last` failed, and the last in such a way that `retry`, which
began with the first, raises it. -/
structure GaveUp (policy : RetryPolicy) (faults : Nat → Option Failure) (last : Nat) (err : Failure) :
    Prop where
  raised : faults last = some err
  streak : ∃ first j, first + j = last ∧ policy.givesUp j err = true ∧
    ∀ i, first ≤ i → i ≤ last → (faults i).isSome = true

/-- How a loop ends: it was not let to make a call, or an error was raised behind so many. -/
inductive Raises (policy : RetryPolicy) (faults : Nat → Option Failure) (called : Nat) :
    Option Failure → Prop
  | no : Raises policy faults called none
  | uncalled (err : Failure) (h : policy.maxRetries < 0) : Raises policy faults called (some err)
  | gaveUp {last : Nat} {err : Failure} (hlast : last + 1 = called)
    (h : GaveUp policy faults last err) : Raises policy faults called (some err)

section Faults

variable [Runtime] [CostTable] (b : ModelBehaviour) (tools : List Tool)
variable (policy : RetryPolicy) (draw : Nat → ℚ)

structure FailingRun extends GenerateRun where
  raised : Option Failure := none

structure FailingStream extends StreamRun where
  raised : Option Failure := none

section Complete

-- what the calls raise, one after the other, where they do
variable (faults : Nat → Option Failure)

/-- `retry(client.complete, policy, request)`, from the call of number `k` on. -/
def askComplete (k : Nat) (conversation : List Message) : Retried Response :=
  retry policy (fun i => draw (k + i)) fun i =>
    (faults (k + i)).elim (.ok (b.complete conversation)) .error

/-- `generate._run_generate` on calls that fail. -/
def failingLoop (stopWhen : Option (List StepResult → Bool)) :
    Nat → Nat → List StepResult → List Message → FailingRun
  | 0, _, steps, _ => { steps := steps }
  | rounds + 1, k, steps, conversation =>
    let asked := askComplete b policy draw faults k conversation
    let sent := List.replicate asked.calls conversation
    match asked.outcome with
    | .error err => { sent := sent, steps := steps, raised := some err }
    | .ok response =>
      let toolResults :=
        if runsTools tools response then executeTools tools (toolCallsOf response) else []
      let steps' := steps ++ [.of response toolResults]
      let executed :=
        if runsTools tools response then reached tools (toolCallsOf response) else []
      if !runsTools tools response || rounds = 0 || (stopWhen.map (· steps')).getD false then
        { sent := sent, executed := executed, steps := steps' }
      else
        let rest := failingLoop stopWhen rounds (k + asked.calls) steps'
          (continued tools conversation response)
        { sent := sent ++ rest.sent
          executed := executed ++ rest.executed
          steps := rest.steps
          raised := rest.raised }

/-- `generate`, whose calls fail so. -/
def failingGenerate (maxToolRounds : Int) (stopWhen : Option (List StepResult → Bool))
    (messages : List Message) : FailingRun :=
  failingLoop b tools policy draw faults stopWhen (roundsOf maxToolRounds) 0 [] messages

/-- What `generate` returns or raises. -/
def FailingRun.result (run : FailingRun) : Except Failure GenerateResult :=
  run.raised.elim ((aggregate run.steps).mapError .other) .error

end Complete

section Stream

/-- A stream that breaks off behind so many events. -/
structure Cut where
  behind : Nat
  err : Failure

variable (cuts : Nat → Option Cut)

/-- The calls whose first event does not come. -/
def unstarted (k : Nat) : Option Failure :=
  (cuts k).bind fun cut => if cut.behind = 0 then some cut.err else none

/-- `retry(_start_and_get_first, policy, request)`: what cuts the stream that is begun. -/
def askStream (k : Nat) : Retried (Option Cut) :=
  retry policy (fun i => draw (k + i)) fun i =>
    (unstarted cuts (k + i)).elim (.ok (cuts (k + i))) .error

/-- `stream._stream_with_tool_loop` on calls that fail. -/
def failingStreamLoop : Nat → Nat → List Message → FailingStream
  | 0, _, _ => { events := [] }
  | rounds + 1, k, conversation =>
    let asked := askStream policy draw cuts k
    let sent := List.replicate asked.calls conversation
    match asked.outcome with
    | .error err => { sent := sent, events := [], raised := some err }
    | .ok (some cut) =>
      { sent := sent, events := (b.stream conversation).take cut.behind, raised := some cut.err }
    | .ok none =>
      let response := stepResponse b conversation
      if !runsTools tools response || rounds = 0 then
        { sent := sent, events := b.stream conversation }
      else
        let rest := failingStreamLoop rounds (k + asked.calls) (continued tools conversation response)
        { sent := sent ++ rest.sent
          executed := reached tools (toolCallsOf response) ++ rest.executed
          events := b.stream conversation ++ stepFinish response :: rest.events
          raised := rest.raised }

def failingStream (maxToolRounds : Int) (messages : List Message) : FailingStream :=
  failingStreamLoop b tools policy draw cuts (roundsOf maxToolRounds) 0 messages

end Stream

/-! ## One retried call -/

/-- How `retry` ends on calls of which some fail, from the call of number `k` on. -/
inductive Asked (faults : Nat → Option Failure) (k : Nat) {α : Type} (value : Nat → α) :
    Retried α → Prop
  | uncalled {r : Retried α} {err : Failure} (h : policy.maxRetries < 0) (hcalls : r.calls = 0)
    (houtcome : r.outcome = .error err) : Asked faults k value r
  | answered {r : Retried α} {n : Nat} (hn : n < policy.attempts) (hcalls : r.calls = n + 1)
    (hfine : faults (k + n) = none) (houtcome : r.outcome = .ok (value n)) : Asked faults k value r
  | gaveUp {r : Retried α} {n : Nat} {err : Failure} (hn : n < policy.attempts)
    (hcalls : r.calls = n + 1) (h : GaveUp policy faults (k + n) err)
    (houtcome : r.outcome = .error err) : Asked faults k value r

omit [Runtime] [CostTable] in
theorem asked_retry (faults : Nat → Option Failure) (k : Nat) {α : Type} (value : Nat → α)
    (draw : Nat → ℚ) : Asked policy faults k value
      (retry policy draw fun i => (faults (k + i)).elim (.ok (value i)) .error) := by
  rcases Nat.eq_zero_or_pos policy.attempts with hzero | hpos
  · have hnone : retry policy draw (fun i => (faults (k + i)).elim (.ok (value i)) .error) =
        { outcome := .error (.other (.raised "AssertionError")), calls := 0, slept := [] } := by
      rw [retry, hzero, retryFrom]
      rfl
    rw [hnone]
    refine .uncalled ?_ rfl rfl
    rw [RetryPolicy.attempts] at hzero
    omega
  · obtain ⟨n, -, hn, hbefore, hcalls, houtcome, hgivesUp⟩ := retryFrom_spec policy draw
      (fun i => (faults (k + i)).elim (.ok (value i)) .error) none (Nat.zero_add _) hpos
      fun j hj => absurd hj (Nat.not_lt_zero j)
    cases hfault : faults (k + n) with
    | none =>
      refine .answered hn hcalls hfault (houtcome.trans ?_)
      rw [hfault]
      rfl
    | some err =>
      have herr : (faults (k + n)).elim (Except.ok (value n)) .error = .error err := by
        rw [hfault]
        rfl
      refine .gaveUp hn hcalls ⟨hfault, k, n, rfl, hgivesUp err herr, fun i hfirst hlast => ?_⟩
        (houtcome.trans herr)
      by_cases hend : i = k + n
      · rw [hend, hfault]
        rfl
      · obtain ⟨err', herr', -⟩ := hbefore (i - k) (by omega)
        dsimp only at herr'
        rw [Nat.add_sub_cancel' hfirst] at herr'
        cases hi : faults i with
        | some _ => rfl
        | none =>
          rw [hi] at herr'
          cases herr'

/-- As much as there was before the error, and all of it where there was none. -/
structure AsFarAs {α : Type} (raised : Option Failure) (whole part : List α) : Prop where
  begun : part <+: whole
  complete : raised = none → part = whole

omit [Runtime] [CostTable] in
theorem AsFarAs.rfl {α : Type} {raised : Option Failure} {whole : List α} :
    AsFarAs raised whole whole := ⟨List.prefix_rfl, fun _ => Eq.refl _⟩

omit [Runtime] [CostTable] in
theorem AsFarAs.nothing {α : Type} {err : Failure} (whole : List α) :
    AsFarAs (some err) whole [] := ⟨List.nil_prefix, fun h => by cases h⟩

omit [Runtime] [CostTable] in
theorem AsFarAs.append {α : Type} {raised : Option Failure} {whole part : List α}
    (h : AsFarAs raised whole part) (l : List α) : AsFarAs raised (l ++ whole) (l ++ part) :=
  ⟨(List.prefix_append_right_inj l).mpr h.begun, fun hnone => congrArg (l ++ ·) (h.complete hnone)⟩

/-- The requests that were sent are those of the healthy loop, each sent again at most so
often. -/
def SentAsFarAs (raised : Option Failure) (whole sent : List (List Message)) : Prop :=
  ∃ requests, AsFarAs raised whole requests ∧ Resends policy.attempts requests sent

omit [Runtime] [CostTable] in
theorem SentAsFarAs.cons {raised : Option Failure} {whole sent : List (List Message)}
    (h : SentAsFarAs policy raised whole sent) (conversation : List Message) {n : Nat}
    (hn : n < policy.attempts) : SentAsFarAs policy raised (conversation :: whole)
      (List.replicate (n + 1) conversation ++ sent) := by
  obtain ⟨requests, hrequests, hsent⟩ := h
  exact ⟨conversation :: requests, hrequests.append [conversation],
    .cons (Nat.succ_pos n) hn hsent⟩

omit [Runtime] [CostTable] in
theorem sentAsFarAs_nil (raised : Option Failure) : SentAsFarAs policy raised [] [] :=
  ⟨[], .rfl, .nil⟩

omit [Runtime] [CostTable] in
theorem sentAsFarAs_raised (err : Failure) (whole : List (List Message)) :
    SentAsFarAs policy (some err) whole [] := ⟨[], .nothing whole, .nil⟩

omit [Runtime] [CostTable] in
theorem sentAsFarAs_last {raised : Option Failure} (conversation : List Message)
    {whole : List (List Message)} (h : SentAsFarAs policy raised whole []) {n : Nat}
    (hn : n < policy.attempts) : SentAsFarAs policy raised (conversation :: whole)
      (List.replicate (n + 1) conversation) := by
  have hsent := h.cons policy conversation hn
  rwa [List.append_nil] at hsent

/-- Every error is worth another call, and of so many calls in a row one comes through. -/
structure Transient (faults : Nat → Option Failure) : Prop where
  retries : 0 ≤ policy.maxRetries
  retryable : ∀ k err, faults k = some err → ∃ e, err = .sdk e ∧ e.retryable = true ∧
    ∀ retryAfter ∈ e.retryAfter, retryAfter ≤ policy.maxDelay
  comesThrough : ∀ k, ∃ j : Nat, (j : Int) ≤ policy.maxRetries ∧ faults (k + j) = none

omit [Runtime] [CostTable] in
theorem Transient.not_gaveUp {faults : Nat → Option Failure} (h : Transient policy faults) {last : Nat}
    {err : Failure} (hgave : GaveUp policy faults last err) : False := by
  obtain ⟨hraised, first, j, hlast, hgivesUp, hstreak⟩ := hgave
  obtain ⟨e, rfl, hretryable, hafter⟩ := h.retryable last err hraised
  have hlate : policy.maxRetries ≤ j := by
    by_contra hearly
    have hbearable : (e.retryAfter.any fun s => decide (policy.maxDelay < s)) = false := by
      cases hs : e.retryAfter with
      | none => rfl
      | some s => exact decide_eq_false (not_lt.mpr (hafter s hs))
    rw [RetryPolicy.givesUp, hretryable, decide_eq_false hearly, hbearable] at hgivesUp
    cases hgivesUp
  obtain ⟨i, hi, hnone⟩ := h.comesThrough first
  have hsome := hstreak (first + i) (by omega) (by omega)
  rw [hnone] at hsome
  cases hsome

omit [Runtime] [CostTable] in
theorem Transient.not_raises {faults : Nat → Option Failure} (h : Transient policy faults)
    {called : Nat} {raised : Option Failure} (hraises : Raises policy faults called raised) :
    raised = none := by
  cases hraises with
  | no => rfl
  | uncalled err hnegative => exact absurd h.retries (not_le.mpr hnegative)
  | gaveUp _ hgave => exact (h.not_gaveUp policy hgave).elim

omit [Runtime] [CostTable] in
theorem Raises.behind {faults : Nat → Option Failure} {k n : Nat} {raised : Option Failure}
    (conversation : List Message) (sent : List (List Message))
    (h : Raises policy faults (k + (n + 1) + sent.length) raised) :
    Raises policy faults (k + (List.replicate (n + 1) conversation ++ sent).length) raised := by
  rwa [List.length_append, List.length_replicate, ← Nat.add_assoc]

/-! ## `generate` -/

section Generate

variable (faults : Nat → Option Failure) (stopWhen : Option (List StepResult → Bool))

/-- The loop goes as it does where no call fails, as far as it goes. -/
structure UnderFaults (k : Nat) (healthy : GenerateRun) (run : FailingRun) : Prop where
  sent : SentAsFarAs policy run.raised healthy.sent run.sent
  executed : AsFarAs run.raised healthy.executed run.executed
  steps : AsFarAs run.raised healthy.steps run.steps
  raises : Raises policy faults (k + run.sent.length) run.raised

theorem steps_generateLoop (rounds : Nat) (steps : List StepResult) (conversation : List Message) :
    steps <+: (generateLoop b tools stopWhen rounds steps conversation).steps := by
  induction rounds generalizing steps conversation with
  | zero => exact List.prefix_rfl
  | succ rounds ih =>
    rw [generateLoop]
    dsimp only
    split
    · exact List.prefix_append _ _
    · exact (List.prefix_append _ _).trans (ih _ _)

theorem failingLoop_underFaults (rounds k : Nat) (steps : List StepResult)
    (conversation : List Message) : UnderFaults policy faults k
      (generateLoop b tools stopWhen rounds steps conversation)
      (failingLoop b tools policy draw faults stopWhen rounds k steps conversation) := by
  induction rounds generalizing k steps conversation with
  | zero => exact ⟨sentAsFarAs_nil policy none, .rfl, .rfl, .no⟩
  | succ rounds ih =>
    have hsteps := steps_generateLoop b tools stopWhen (rounds + 1) steps conversation
    have hasked : Asked policy faults k (fun _ => b.complete conversation)
        (askComplete b policy draw faults k conversation) := asked_retry policy faults k _ _
    unfold failingLoop
    dsimp only
    generalize askComplete b policy draw faults k conversation = asked at hasked
    cases hasked with
    | @uncalled err h hcalls houtcome =>
      rw [houtcome, hcalls]
      exact ⟨sentAsFarAs_raised policy err _, .nothing _, ⟨hsteps, fun h => by cases h⟩, .uncalled err h⟩
    | @gaveUp n err hn hcalls h houtcome =>
      rw [houtcome, hcalls]
      refine ⟨?_, .nothing _, ⟨hsteps, fun h => by cases h⟩, .gaveUp ?_ h⟩
      · obtain ⟨rest, hrest⟩ : ∃ rest, (generateLoop b tools stopWhen (rounds + 1) steps
            conversation).sent = conversation :: rest := by
          rw [generateLoop]
          dsimp only
          split <;> exact ⟨_, rfl⟩
        rw [hrest]
        exact sentAsFarAs_last policy conversation (sentAsFarAs_raised policy err rest) hn
      · rw [List.length_replicate]
        omega
    | @answered n hn hcalls hfine houtcome =>
      rw [houtcome, hcalls, generateLoop]
      show UnderFaults policy faults k (if _ then _ else _) (if _ then _ else _)
      rw [← generateStep]
      by_cases hstop : (!runsTools tools (b.complete conversation) || decide (rounds = 0) ||
          (stopWhen.map (· (steps ++ [generateStep b tools conversation]))).getD false) = true
      · rw [if_pos hstop, if_pos hstop]
        exact ⟨sentAsFarAs_last policy conversation (sentAsFarAs_nil policy none) hn, .rfl, .rfl, .no⟩
      · rw [if_neg hstop, if_neg hstop]
        have hrest := ih (k + (n + 1)) (steps ++ [generateStep b tools conversation])
          (continued tools conversation (b.complete conversation))
        exact ⟨hrest.sent.cons policy conversation hn, hrest.executed.append _, hrest.steps,
          hrest.raises.behind policy conversation _⟩

/-- What `generate` does where calls fail: no error of a call changes what is asked, which
calls reach a tool or what is returned, and errors that pass do not come out at all. -/
structure SurvivesFaults (maxToolRounds : Int) (messages : List Message) : Prop where
  run : UnderFaults policy faults 0 (generateRun b tools maxToolRounds stopWhen messages)
    (failingGenerate b tools policy draw faults maxToolRounds stopWhen messages)
  returned : ∀ result,
    (failingGenerate b tools policy draw faults maxToolRounds stopWhen messages).result = .ok result →
      generate b tools maxToolRounds stopWhen messages = .ok result
  recovers : Transient policy faults →
    (failingGenerate b tools policy draw faults maxToolRounds stopWhen messages).result =
      (generate b tools maxToolRounds stopWhen messages).mapError .other

theorem generate_survivesFaults (maxToolRounds : Int) (messages : List Message) :
    SurvivesFaults b tools policy draw faults stopWhen maxToolRounds messages := by
  have hrun : UnderFaults policy faults 0 (generateRun b tools maxToolRounds stopWhen messages)
      (failingGenerate b tools policy draw faults maxToolRounds stopWhen messages) :=
    failingLoop_underFaults b tools policy draw faults stopWhen (roundsOf maxToolRounds) 0 [] messages
  have hhealthy : (failingGenerate b tools policy draw faults maxToolRounds stopWhen
      messages).raised = none →
        (failingGenerate b tools policy draw faults maxToolRounds stopWhen messages).result =
          (generate b tools maxToolRounds stopWhen messages).mapError .other := by
    intro hnone
    rw [FailingRun.result, hnone, hrun.steps.complete hnone]
    rfl
  refine ⟨hrun, fun result hresult => ?_, fun h => hhealthy (h.not_raises policy hrun.raises)⟩
  cases hraised : (failingGenerate b tools policy draw faults maxToolRounds stopWhen messages).raised with
  | some err =>
    rw [FailingRun.result, hraised] at hresult
    cases hresult
  | none =>
    rw [hhealthy hraised] at hresult
    cases hgenerate : generate b tools maxToolRounds stopWhen messages with
    | ok result' =>
      rw [hgenerate] at hresult
      exact congrArg _ (Except.ok.inj hresult)
    | error exc =>
      rw [hgenerate] at hresult
      cases hresult

end Generate

/-! ## `stream` -/

section Streams

variable (cuts : Nat → Option Cut)

/-- How a stream ends: as a loop does, or broken off behind its first event. -/
inductive StreamRaises (called : Nat) : Option Failure → Prop
  | unstarted {raised : Option Failure} (h : Raises policy (unstarted cuts) called raised) :
    StreamRaises called raised
  | cut {last : Nat} {c : Cut} (hlast : last + 1 = called) (h : cuts last = some c)
    (hbegun : c.behind ≠ 0) : StreamRaises called (some c.err)

/-- The caller sees the events of the healthy stream, in order and each once, as far as the
stream goes. -/
structure StreamUnderFaults (k : Nat) (healthy : StreamRun) (run : FailingStream) : Prop where
  sent : SentAsFarAs policy run.raised healthy.sent run.sent
  executed : AsFarAs run.raised healthy.executed run.executed
  events : AsFarAs run.raised healthy.events run.events
  raises : StreamRaises policy cuts (k + run.sent.length) run.raised

omit [Runtime] [CostTable] in
theorem StreamRaises.behind {k n : Nat} {raised : Option Failure} (conversation : List Message)
    (sent : List (List Message))
    (h : StreamRaises policy cuts (k + (n + 1) + sent.length) raised) :
    StreamRaises policy cuts (k + (List.replicate (n + 1) conversation ++ sent).length) raised := by
  rwa [List.length_append, List.length_replicate, ← Nat.add_assoc]

theorem events_streamLoop (rounds : Nat) (conversation : List Message) :
    b.stream conversation <+: (streamLoop b tools (rounds + 1) conversation).events := by
  rw [streamLoop]
  dsimp only
  split
  · exact List.prefix_rfl
  · exact List.prefix_append _ _

theorem failingStreamLoop_underFaults (rounds k : Nat) (conversation : List Message) :
    StreamUnderFaults policy cuts k (streamLoop b tools rounds conversation)
      (failingStreamLoop b tools policy draw cuts rounds k conversation) := by
  induction rounds generalizing k conversation with
  | zero => exact ⟨sentAsFarAs_nil policy none, .rfl, .rfl, .unstarted .no⟩
  | succ rounds ih =>
    obtain ⟨rest, hrest⟩ := sent_cons b tools rounds conversation
    have hasked : Asked policy (unstarted cuts) k (fun i => cuts (k + i))
        (askStream policy draw cuts k) := asked_retry policy (unstarted cuts) k _ _
    unfold failingStreamLoop
    dsimp only
    generalize askStream policy draw cuts k = asked at hasked
    cases hasked with
    | @uncalled err h hcalls houtcome =>
      rw [houtcome, hcalls]
      exact ⟨sentAsFarAs_raised policy err _, .nothing _, .nothing _, .unstarted (.uncalled err h)⟩
    | @gaveUp n err hn hcalls h houtcome =>
      rw [houtcome, hcalls]
      refine ⟨?_, .nothing _, .nothing _, .unstarted (.gaveUp ?_ h)⟩
      · rw [hrest]
        exact sentAsFarAs_last policy conversation (sentAsFarAs_raised policy err rest) hn
      · rw [List.length_replicate]
        omega
    | @answered n hn hcalls hfine houtcome =>
      rw [houtcome, hcalls]
      cases hcut : cuts (k + n) with
      | some c =>
        have hbegun : c.behind ≠ 0 := by
          intro hzero
          rw [unstarted, hcut, Option.bind_some, if_pos hzero] at hfine
          cases hfine
        refine ⟨?_, .nothing _, ⟨?_, fun h => by cases h⟩, .cut ?_ hcut hbegun⟩
        · rw [hrest]
          exact sentAsFarAs_last policy conversation (sentAsFarAs_raised policy c.err rest) hn
        · exact (List.take_prefix _ _).trans (events_streamLoop b tools rounds conversation)
        · rw [List.length_replicate]
          omega
      | none =>
        rw [streamLoop]
        dsimp only
        by_cases hstop : (!runsTools tools (stepResponse b conversation) || decide (rounds = 0)) = true
        · rw [if_pos hstop, if_pos hstop]
          exact ⟨sentAsFarAs_last policy conversation (sentAsFarAs_nil policy none) hn, .rfl, .rfl,
            .unstarted .no⟩
        · rw [if_neg hstop, if_neg hstop]
          have hlater := ih (k + (n + 1)) (continued tools conversation (stepResponse b conversation))
          exact ⟨hlater.sent.cons policy conversation hn, hlater.executed.append _,
            (hlater.events.append [_]).append _, hlater.raises.behind policy cuts conversation _⟩

/-- What `stream` does where calls fail. -/
structure StreamSurvivesFaults (maxToolRounds : Int) (messages : List Message) : Prop where
  run : StreamUnderFaults policy cuts 0 (streamRun b tools maxToolRounds messages)
    (failingStream b tools policy draw cuts maxToolRounds messages)
  recovers : Transient policy (unstarted cuts) → (∀ k c, cuts k = some c → c.behind = 0) →
    (failingStream b tools policy draw cuts maxToolRounds messages).raised = none ∧
      (failingStream b tools policy draw cuts maxToolRounds messages).events =
        (streamRun b tools maxToolRounds messages).events

theorem stream_survivesFaults (maxToolRounds : Int) (messages : List Message) :
    StreamSurvivesFaults b tools policy draw cuts maxToolRounds messages := by
  have hrun : StreamUnderFaults policy cuts 0 (streamRun b tools maxToolRounds messages)
      (failingStream b tools policy draw cuts maxToolRounds messages) :=
    failingStreamLoop_underFaults b tools policy draw cuts (roundsOf maxToolRounds) 0 messages
  refine ⟨hrun, fun h hbegins => ?_⟩
  have hnone : (failingStream b tools policy draw cuts maxToolRounds messages).raised = none := by
    have hraises := hrun.raises
    generalize (failingStream b tools policy draw cuts maxToolRounds messages).raised = raised at hraises
    cases hraises with
    | unstarted hraises => exact h.not_raises policy hraises
    | cut _ hcut hbegun => exact absurd (hbegins _ _ hcut) hbegun
  exact ⟨hnone, hrun.events.complete hnone⟩

end Streams

end Faults

end Llm
end DotRunner
