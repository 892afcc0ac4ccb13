import DotRunner.Nested.Joining

/-!
# What a join answers for

`FanInHandler`, the second reader of what a parallel node stored, and what a
success of either says about the branches.
-/

namespace DotRunner

open Py Approx

/-! ## The fan-in handler -/

/-- `_STATUS_RANK.get(status, 99)` -/
def statusRank (status : Value) : Except PyExc Nat :=
  match status with
  | .str s => .ok (
    if s = "success" then 0
    else if s = "partial_success" then 1
    else if s = "retry" then 2
    else if s = "skipped" then 3
    else if s = "fail" then 4
    else 99)
  | v => if v.hashable then .ok 99
    else .error (.typeError ("unhashable type: '" ++ v.typeName ++ "'"))

/-- `r.get(key, fallback)` -/
def resultField (r : Value) (key : String) (fallback : Value) : Except PyExc Value :=
  match r with
  | .dict kvs => .ok ((Dict.lookup key kvs).getD fallback)
  | v => .error (.attributeError ("'" ++ v.typeName ++ "' object has no attribute 'get'"))

/-- The sort key of a candidate: its rank, then its id. -/
def candidateKey (r : Value) : Except PyExc (Nat × Value) := do
  let status ← resultField r "status" (.str "fail")
  let rank ← statusRank status
  let nodeId ← resultField r "node_id" (.str "")
  return (rank, nodeId)

/-- `a < b` on two sort keys. -/
def keyLess (a b : Nat × Value) : Except PyExc Bool :=
  if a.1 ≠ b.1 then .ok (decide (a.1 < b.1))
  else match a.2, b.2 with
    | .str s, .str t => .ok (decide (s < t))
    | v, w => if v.pyEq w then .ok false
      else .error (.typeError ("'<' not supported between instances of '" ++ v.typeName ++ "' and '" ++
        w.typeName ++ "'"))

/-- The head of the sorted list, which is stable: the first of the least. -/
def leastOf (best : Value × (Nat × Value)) :
    List (Value × (Nat × Value)) → Except PyExc (Value × (Nat × Value))
  | [] => .ok best
  | r :: rest => do
    let less ← keyLess r.2 best.2
    leastOf (if less then r else best) rest

def heuristicSelect (candidates : List Value) : Except PyExc (Option Value) := do
  let keyed ← candidates.mapM fun r => do return (r, ← candidateKey r)
  match keyed with
  | [] => return none
  | best :: rest => return some (← leastOf best rest).1

/-- What is asked to choose a candidate. -/
structure FanInBackend where
  evaluate : String → Value → Node → Except PyExc Value

/-- The first result with the chosen id; an exception on the way gives none. -/
def resultWithId (bestId : Value) : List Value → Option Value
  | [] => none
  | r :: rest => match resultField r "node_id" .none with
    | .error _ => none
    | .ok nodeId => if nodeId.pyEq bestId then some r else resultWithId bestId rest

/-- What a `for` loop over the value sees. -/
def iterated : Value → Except PyExc (List Value)
  | .list xs => .ok xs
  | .tuple xs => .ok xs
  | .str s => .ok (s.toList.map fun c => .str (String.ofList [c]))
  | .dict kvs => .ok (kvs.map fun p => .str p.1)
  | v => .error (.typeError ("'" ++ v.typeName ++ "' object is not iterable"))

/-- The candidate the backend chose, where there is one to ask and it chose a
stored one. -/
def backendChoice (backend : Option FanInBackend) (node : Node) (results : Value)
    (candidates : List Value) : Option Value :=
  match backend with
  | some b => if node.prompt = "" then none
    else match b.evaluate node.prompt results node with
      | .error _ => none
      | .ok bestId => resultWithId bestId candidates
  | none => none

/-- The best candidate: the backend's choice, else by rank. -/
def selectCandidate (backend : Option FanInBackend) (node : Node) (results : Value) :
    Except PyExc (Option Value) := do
  let candidates ← iterated results
  match backendChoice backend node results candidates with
  | some r => return some r
  | none => heuristicSelect candidates

def noCandidates : Outcome := failedWith "No parallel results to evaluate"

section Join

variable [Runtime]

/-- A text field of an outcome, from a value of any kind. -/
def notesOf : Value → Option String
  | .none => none
  | v => some v.toStr

def allFailedOutcome (bestId notes : Value) : Outcome where
  status := .fail
  isExplicit := true
  failureReason := some ("All candidates failed. Best: " ++ bestId.toStr)
  notes := notesOf notes

/-- What is recorded of the winner. -/
def winner (bestId bestStatus : Value) : Record :=
  .ofList [("parallel.fan_in.best_id", bestId), ("parallel.fan_in.best_status", bestStatus),
    ("parallel.fan_in.best_outcome", bestStatus)]

def selectedOutcome (bestId bestStatus : Value) : Outcome where
  status := .success
  isExplicit := true
  notes := some ("Selected best candidate: " ++ bestId.toStr ++ " (" ++ bestStatus.toStr ++ ")")
  contextUpdates := some (winner bestId bestStatus)

def fanInVerdict (best : Value) (context : PipelineContext) :
    Except PyExc (Outcome × PipelineContext) := do
  let bestStatus ← resultField best "status" (.str "fail")
  let bestId ← resultField best "node_id" (.str "unknown")
  let recorded := context.update (winner bestId bestStatus)
  if bestStatus.pyEq (.str "fail") then
    let notes ← resultField best "notes" .none
    return (allFailedOutcome bestId notes, recorded)
  else
    return (selectedOutcome bestId bestStatus, recorded)

/-- `FanInHandler.execute` -/
def executeFanIn (backend : Option FanInBackend) (node : Node) (context : PipelineContext) :
    HandlerEnd × PipelineContext :=
  let results := context.get "parallel.results"
  if !results.truthy then (.returned noCandidates, context)
  else match selectCandidate backend node results with
    | .error e => (raisedBy e, context)
    | .ok none => (.returned noCandidates, context)
    | .ok (some best) => match fanInVerdict best context with
      | .error e => (raisedBy e, context)
      | .ok (o, c) => (.returned o, c)

/-! ## What it makes of stored results -/

section Stored

def StageStatus.rank : StageStatus → Nat
  | .success => 0
  | .partialSuccess => 1
  | .retry => 2
  | .skipped => 3
  | .fail => 4

def BranchResult.keyed (r : BranchResult) : Value × (Nat × Value) :=
  (r.record, (r.status.rank, .str r.nodeId))

omit [Runtime]

theorem statusRank_value (s : StageStatus) : statusRank (.str s.value) = .ok s.rank := by
  cases s <;> rfl

theorem candidateKey_record (r : BranchResult) :
    candidateKey r.record = .ok (r.status.rank, .str r.nodeId) := by
  show (do
    let rank ← statusRank (.str r.status.value)
    return (rank, Value.str r.nodeId) : Except PyExc (Nat × Value)) = _
  rw [statusRank_value]
  rfl

theorem keyLess_results (a b : BranchResult) : ∃ less, keyLess a.keyed.2 b.keyed.2 = .ok less ∧
    (less = true → a.status.rank ≤ b.status.rank) ∧
    (less = false → b.status.rank ≤ a.status.rank) := by
  show ∃ less, keyLess (a.status.rank, .str a.nodeId) (b.status.rank, .str b.nodeId) = .ok less ∧ _
  unfold keyLess
  by_cases hrank : a.status.rank = b.status.rank
  · rw [if_neg (by simpa using hrank)]
    exact ⟨_, rfl, fun _ => by omega, fun _ => by omega⟩
  · rw [if_pos (by simpa using hrank)]
    refine ⟨_, rfl, fun hless => ?_, fun hless => ?_⟩
    · have hlt : a.status.rank < b.status.rank := of_decide_eq_true hless
      omega
    · have hge : ¬a.status.rank < b.status.rank := of_decide_eq_false hless
      omega

/-- The winner is a stored result of the best rank. -/
theorem leastOf_results (best : BranchResult) (results : List BranchResult) :
    ∃ m ∈ best :: results, leastOf best.keyed (results.map BranchResult.keyed) = .ok m.keyed ∧
      ∀ r ∈ best :: results, m.status.rank ≤ r.status.rank := by
  induction results generalizing best with
  | nil =>
    refine ⟨best, List.mem_cons_self, rfl, fun r hr => ?_⟩
    rw [List.mem_singleton.mp hr]
  | cons r rest ih =>
    obtain ⟨less, hless, htrue, hfalse⟩ := keyLess_results r best
    have hstep : leastOf best.keyed ((r :: rest).map BranchResult.keyed) =
        leastOf (if less then r.keyed else best.keyed) (rest.map BranchResult.keyed) := by
      rw [List.map_cons, leastOf, hless]
      rfl
    rw [hstep]
    cases less with
    | true =>
      obtain ⟨m, hm, hsame, hmin⟩ := ih r
      refine ⟨m, List.mem_cons_of_mem _ hm, hsame, fun x hx => ?_⟩
      rcases List.mem_cons.mp hx with rfl | hx
      · exact (hmin r List.mem_cons_self).trans (htrue rfl)
      · exact hmin x hx
    | false =>
      obtain ⟨m, hm, hsame, hmin⟩ := ih best
      have hbest := hmin best List.mem_cons_self
      refine ⟨m, ?_, hsame, fun x hx => ?_⟩
      · rcases List.mem_cons.mp hm with rfl | hm
        · exact List.mem_cons_self
        · exact List.mem_cons_of_mem _ (List.mem_cons_of_mem _ hm)
      · rcases List.mem_cons.mp hx with rfl | hx
        · exact hbest
        · rcases List.mem_cons.mp hx with rfl | hx
          · exact hbest.trans (hfalse rfl)
          · exact hmin x (List.mem_cons_of_mem _ hx)

theorem heuristicSelect_results (r : BranchResult) (rest : List BranchResult) :
    ∃ m ∈ r :: rest, heuristicSelect ((r :: rest).map BranchResult.record) = .ok (some m.record) ∧
      ∀ x ∈ r :: rest, m.status.rank ≤ x.status.rank := by
  have hkeyed : ∀ l : List BranchResult,
      ((l.map BranchResult.record).mapM fun v => do return (v, ← candidateKey v) :
        Except PyExc (List (Value × (Nat × Value)))) = .ok (l.map BranchResult.keyed) := by
    intro l
    induction l with
    | nil => rfl
    | cons a l ih =>
      rw [List.map_cons, List.mapM_cons, ih, candidateKey_record]
      rfl
  obtain ⟨m, hm, hleast, hmin⟩ := leastOf_results r rest
  refine ⟨m, hm, ?_, hmin⟩
  unfold heuristicSelect
  rw [hkeyed, List.map_cons]
  show (do return some (← leastOf r.keyed (rest.map BranchResult.keyed)).1 :
    Except PyExc (Option Value)) = _
  rw [hleast]
  rfl

theorem resultWithId_mem {bestId v : Value} {candidates : List Value}
    (h : resultWithId bestId candidates = some v) : v ∈ candidates := by
  induction candidates with
  | nil => cases h
  | cons r rest ih =>
    unfold resultWithId at h
    split at h
    · cases h
    · split at h
      · cases h
        exact List.mem_cons_self
      · exact List.mem_cons_of_mem _ (ih h)

theorem backendChoice_mem {backend : Option FanInBackend} {node : Node} {results v : Value}
    {candidates : List Value} (h : backendChoice backend node results candidates = some v) :
    v ∈ candidates := by
  unfold backendChoice at h
  split at h
  · split at h
    · cases h
    · split at h
      · cases h
      · exact resultWithId_mem h
  · cases h

theorem selectCandidate_results (backend : Option FanInBackend) (node : Node)
    {results : List BranchResult} (hne : results ≠ []) : ∃ m ∈ results,
    selectCandidate backend node (.list (results.map BranchResult.record)) = .ok (some m.record) ∧
      (backend = none → ∀ x ∈ results, m.status.rank ≤ x.status.rank) := by
  obtain ⟨r, rest, rfl⟩ := List.exists_cons_of_ne_nil hne
  obtain ⟨least, hleast, hselect, hmin⟩ := heuristicSelect_results r rest
  have hunfold : selectCandidate backend node (.list ((r :: rest).map BranchResult.record)) =
      match backendChoice backend node (.list ((r :: rest).map BranchResult.record))
        ((r :: rest).map BranchResult.record) with
      | some r => .ok (some r)
      | none => heuristicSelect ((r :: rest).map BranchResult.record) := rfl
  rw [hunfold]
  cases hchoice : backendChoice backend node (.list ((r :: rest).map BranchResult.record))
      ((r :: rest).map BranchResult.record) with
  | none => exact ⟨least, hleast, hselect, fun _ => hmin⟩
  | some v =>
    obtain ⟨m, hm, rfl⟩ := List.mem_map.mp (backendChoice_mem hchoice)
    refine ⟨m, hm, rfl, fun hnone => ?_⟩
    subst hnone
    cases hchoice

end Stored

section Selected

variable {backend : Option FanInBackend} {node : Node} {context : PipelineContext}

omit [Runtime] in
theorem value_beq_fail (s : StageStatus) : (Value.str s.value).pyEq (.str "fail") = (s == .fail) := by
  cases s <;> rfl

theorem fanInVerdict_record (m : BranchResult) (context : PipelineContext) : ∃ o c,
    fanInVerdict m.record context = .ok (o, c) ∧ (o.status = .success ↔ m.status ≠ .fail) := by
  have hverdict : fanInVerdict m.record context =
      if (Value.str m.status.value).pyEq (.str "fail") then
        .ok (allFailedOutcome (.str m.nodeId) (optionText m.notes),
          context.update (winner (.str m.nodeId) (.str m.status.value)))
      else .ok (selectedOutcome (.str m.nodeId) (.str m.status.value),
        context.update (winner (.str m.nodeId) (.str m.status.value))) := rfl
  rw [hverdict, value_beq_fail]
  by_cases hfail : m.status = .fail
  · rw [if_pos (by simpa using hfail)]
    exact ⟨_, _, rfl, by simp [allFailedOutcome, hfail]⟩
  · rw [if_neg (by simpa using hfail)]
    exact ⟨_, _, rfl, by simp [selectedOutcome, hfail]⟩

/-- Over stored results the handler selects one of them, by rank where no backend
chooses, and succeeds unless that one failed. -/
theorem executeFanIn_selected (backend : Option FanInBackend) {results : List BranchResult} (hne : results ≠ [])
    (hstored : context.get "parallel.results" = .list (results.map BranchResult.record)) :
    ∃ m ∈ results, ∃ o c, executeFanIn backend node context = (.returned o, c) ∧
      (o.status = .success ↔ m.status ≠ .fail) ∧
      (backend = none → ∀ x ∈ results, m.status.rank ≤ x.status.rank) := by
  obtain ⟨m, hm, hselect, hmin⟩ := selectCandidate_results backend node hne
  obtain ⟨o, c, hverdict, ho⟩ := fanInVerdict_record m context
  have htruthy : (Value.list (results.map BranchResult.record)).truthy = true := by
    cases results with
    | nil => exact absurd rfl hne
    | cons r rest => rfl
  refine ⟨m, hm, o, c, ?_, ho, hmin⟩
  unfold executeFanIn
  dsimp only
  rw [hstored, if_neg (by simp [htruthy]), hselect]
  dsimp only
  rw [hverdict]

theorem executeFanIn_empty (hstored : context.get "parallel.results" = .list []) :
    executeFanIn backend node context = (.returned noCandidates, context) := by
  unfold executeFanIn
  rw [hstored]
  rfl

end Selected

/-! ## What a success says -/

section Verdicts

/-- The truth of both verdicts over the branches that ran and the results that
were stored of them. -/
def VerdictsTruthful (policy : String) (ran results : List BranchResult) (o : Outcome)
    (c : PipelineContext) : Prop :=
  (policy = "wait_all" → o.isExplicit = true → o.status = .success →
    ∀ r ∈ ran, r.succeeded = true) ∧
  (∀ backend joinNode o' c', executeFanIn backend joinNode c = (.returned o', c') →
    o'.status = .success → ∃ r ∈ results, r.succeeded = true) ∧
  ((∀ r ∈ ran, r.succeeded = false) → o.status ≠ .success ∧
    ∀ backend joinNode o' c', executeFanIn backend joinNode c = (.returned o', c') →
      o'.status ≠ .success)

omit [Runtime]

theorem waitUntil_nil {ends : BranchResult → Bool} {runs : List (List BranchRun)}
    {kept : List BranchResult} (h : waitUntil ends runs = .done kept) (hnil : kept = []) :
    runs.flatten = [] := by
  have hgroup : ∀ (group : List BranchRun) (ended : Bool),
      waitGroup ends group = .done ([], ended) → group = [] := by
    intro group ended hwait
    cases group with
    | nil => rfl
    | cons run rest =>
      unfold waitGroup at hwait
      split at hwait
      · cases hwait
      · split at hwait
        · cases hwait
        · obtain ⟨p, -, hcons⟩ := Finish.map_eq_done hwait
          cases hcons
  induction runs generalizing kept with
  | nil => rfl
  | cons group rest ih =>
    unfold waitUntil at h
    split at h
    · cases h
    · rename_i rs hwait
      cases h
      obtain ⟨rfl, -⟩ := List.append_eq_nil_iff.mp hnil
      rcases waitGroup_done hwait with ⟨hended, -⟩ | ⟨-, hnone, -⟩
      · cases hended
      · cases hnone
    · rename_i rs hwait
      obtain ⟨kept', hrest, rfl⟩ := Finish.map_eq_done h
      obtain ⟨rfl, rfl⟩ := List.append_eq_nil_iff.mp hnil
      rw [List.flatten_cons, hgroup _ _ hwait, List.nil_append]
      exact ih hrest rfl

theorem kept_subset {ends : BranchResult → Bool} {runs : List (List BranchRun)}
    {kept : List BranchResult} (h : waitUntil ends runs = .done kept) : kept ⊆ completedResults runs :=
  fun _ hr => (kept_overlooked_perm h).subset (List.mem_append_left _ hr)

theorem ignoring_subset (errorPolicy : String) (results : List BranchResult) :
    ignoring errorPolicy results ⊆ results := by
  unfold ignoring
  split
  · exact List.filter_sublist.subset
  · exact List.Subset.refl _

theorem recordResults_get (results : List BranchResult) (context : PipelineContext) :
    (recordResults results context).get "parallel.results" =
      .list (results.map BranchResult.record) := by
  simp [recordResults, PipelineContext.get, Dict.getD]

variable [Runtime] {w : World} {r : Runners} {p : PipelineEngine} {place : Place} {node : Node}
  {context c : PipelineContext} {run : HandlerRun} {o : Outcome} {runs : List (List BranchRun)}

/-- The fan-in succeeds over one that did not fail. -/
theorem executeFanIn_success {results : List BranchResult} {backend : Option FanInBackend}
    {joinNode : Node} {o' : Outcome} {c' : PipelineContext}
    (h : executeFanIn backend joinNode (recordResults results context) = (.returned o', c'))
    (ho : o'.status = .success) : ∃ m ∈ results, m.failed = false := by
  by_cases hne : results = []
  · subst hne
    rw [executeFanIn_empty (recordResults_get [] context)] at h
    cases h
    cases ho
  · obtain ⟨m, hm, o, c, hselected, hiff, -⟩ :=
      executeFanIn_selected backend hne (recordResults_get results context)
    rw [hselected] at h
    cases h
    exact ⟨m, hm, by simpa [BranchResult.failed] using hiff.mp ho⟩

omit [Runtime] in
theorem joined_status_eq_success {results : List BranchResult} {policy : String}
    (hne : results ≠ []) (h : (applyJoinPolicy results policy).status = .success) :
    if policy = "first_success" then results.any BranchResult.succeeded = true
    else results.any BranchResult.failed = false := by
  have hempty : results.isEmpty = false := by
    cases results with
    | nil => exact absurd rfl hne
    | cons r rest => rfl
  rw [applyJoinPolicy_status, joinStatus, hempty, if_neg (by decide)] at h
  split
  · rename_i hfirst
    rw [if_pos hfirst] at h
    by_contra hnone
    rw [if_neg hnone] at h
    cases h
  · rename_i hfirst
    rw [if_neg hfirst] at h
    by_contra hsome
    rw [if_pos (Bool.not_eq_false _ ▸ hsome)] at h
    cases h

/-- A success of a parallel node that does not ignore errors rules out failures:
all of them under `wait_all`, that all branches failed under any policy, and that
none succeeded under `first_success`.  A success of the fan-in rules out that
every stored candidate failed.  Where every branch either succeeded or failed,
both verdicts are truthful. -/
theorem successes_rule_out_failures (h : executeParallel w r p place node context = some run)
    (ho : run.ended = .done (.returned o, c)) (hout : p.graph.outgoingEdges node.id ≠ [])
    (hruns : runBranches r p place context (p.graph.outgoingEdges node.id)
      ((w.schedule place (p.graph.outgoingEdges node.id).length).begun (errorPolicy node)
        (joinPolicy node)) = some runs) (hsome : runs.flatten ≠ []) :
    ∃ results, c = recordResults results context ∧ results ⊆ completedResults runs ∧
      (errorPolicy node ≠ "ignore" →
        (joinPolicy node = "wait_all" → o.status = .success →
          ∀ b ∈ completedResults runs, b.failed = false) ∧
        ((∀ b ∈ completedResults runs, b.failed = true) → o.status ≠ .success) ∧
        (joinPolicy node = "first_success" → (∀ b ∈ completedResults runs, b.succeeded = false) →
          o.status ≠ .success)) ∧
      (∀ backend joinNode o' c', executeFanIn backend joinNode c = (.returned o', c') →
        o'.status = .success → (∃ b ∈ results, b.failed = false) ∧
          (errorPolicy node = "ignore" → ∃ b ∈ results, b.succeeded = true)) ∧
      (errorPolicy node ≠ "ignore" →
        (∀ b ∈ completedResults runs, b.succeeded = true ∨ b.failed = true) →
        VerdictsTruthful (joinPolicy node) (completedResults runs) results o c) := by
  obtain ⟨runs', kept, hruns', hwait, hjoin, rfl⟩ := executeParallel_joined h ho hout
  obtain rfl : runs' = runs := Option.some.inj (hruns'.symm.trans hruns)
  have hkept : kept ≠ [] := fun hnil => hsome (waitUntil_nil hwait hnil)
  have hsub := kept_subset hwait
  have hall : errorPolicy node ≠ "ignore" → ignoring (errorPolicy node) kept = kept := fun hne =>
    if_neg hne
  -- where errors count, the verdict is over what was kept
  have hcounted : errorPolicy node ≠ "ignore" → o.status = .success →
      if joinPolicy node = "first_success" then kept.any BranchResult.succeeded = true
      else kept.any BranchResult.failed = false := by
    intro hne hstatus
    rw [hjoin, hall hne] at hstatus
    exact joined_status_eq_success hkept hstatus
  have hwaitAll : errorPolicy node ≠ "ignore" → joinPolicy node = "wait_all" →
      o.status = .success → ∀ b ∈ completedResults runs', b.failed = false := by
    intro hne hpolicy hstatus b hb
    have hfirst : joinPolicy node ≠ "first_success" := hpolicy ▸ by decide
    have hran := status_of_completed hwait fun _ hpolicy' => absurd hpolicy' hfirst
    rw [← hjoin, hstatus, ignoring, if_neg hne] at hran
    have hnone := joined_status_eq_success (List.ne_nil_of_mem hb) hran.symm
    rw [if_neg hfirst, List.any_eq_false] at hnone
    exact Bool.eq_false_iff.mpr (hnone b hb)
  have hallFailed : errorPolicy node ≠ "ignore" → (∀ b ∈ completedResults runs', b.failed = true) →
      o.status ≠ .success := by
    intro hne hfailed hstatus
    obtain ⟨b, rest, rfl⟩ := List.exists_cons_of_ne_nil hkept
    have hb := hfailed b (hsub List.mem_cons_self)
    have hcount := hcounted hne hstatus
    split at hcount
    · obtain ⟨b', hb', hsucceeded⟩ := List.any_eq_true.mp hcount
      have hfail := hfailed b' (hsub hb')
      simp only [BranchResult.failed, beq_iff_eq] at hfail
      simp [BranchResult.succeeded, hfail] at hsucceeded
    · exact List.any_eq_false.mp hcount b List.mem_cons_self hb
  have hnoneSucceeded : errorPolicy node ≠ "ignore" → joinPolicy node = "first_success" →
      (∀ b ∈ completedResults runs', b.succeeded = false) → o.status ≠ .success := by
    intro hne hfirst hnone hstatus
    have hcount := hcounted hne hstatus
    rw [if_pos hfirst] at hcount
    obtain ⟨b, hb, hsucceeded⟩ := List.any_eq_true.mp hcount
    exact Bool.eq_false_iff.mp (hnone b (hsub hb)) hsucceeded
  have hignored : errorPolicy node = "ignore" →
      ∀ b ∈ ignoring (errorPolicy node) kept, b.succeeded = true := by
    intro hignore b hb
    rw [ignoring, if_pos hignore] at hb
    exact (List.mem_filter.mp hb).2
  have hstored := List.Subset.trans (ignoring_subset (errorPolicy node) kept) hsub
  refine ⟨_, rfl, hstored, fun hne => ⟨hwaitAll hne, hallFailed hne, hnoneSucceeded hne⟩,
    fun backend joinNode o' c' hfan ho' => ?_, fun hne hdecided => ⟨?_, ?_, ?_⟩⟩
  · obtain ⟨b, hb, hfailed⟩ := executeFanIn_success hfan ho'
    exact ⟨⟨b, hb, hfailed⟩, fun hignore => ⟨b, hb, hignored hignore b hb⟩⟩
  · intro hpolicy _ hstatus b hb
    exact (hdecided b hb).resolve_right (Bool.eq_false_iff.mp (hwaitAll hne hpolicy hstatus b hb))
  · intro backend joinNode o' c' hfan ho'
    obtain ⟨b, hb, hfailed⟩ := executeFanIn_success hfan ho'
    exact ⟨b, hb, (hdecided b (hstored hb)).resolve_right (Bool.eq_false_iff.mp hfailed)⟩
  · intro hnone
    have hfailed : ∀ b ∈ completedResults runs', b.failed = true := fun b hb =>
      (hdecided b hb).resolve_left (Bool.eq_false_iff.mp (hnone b hb))
    refine ⟨hallFailed hne hfailed, fun backend joinNode o' c' hfan ho' => ?_⟩
    obtain ⟨b, hb, hnot⟩ := executeFanIn_success hfan ho'
    exact Bool.eq_false_iff.mp hnot (hfailed b (hstored hb))

end Verdicts

end Join

section Demo

open Py.Ascii

/-- The status of the fan-in behind a parallel node. -/
def fanInStatus (w : World) (errorPolicy joinPolicy : String) : Option StageStatus :=
  match executeParallel w (runners w 1) forkPipeline [] (forkUnder errorPolicy joinPolicy) {} with
  | some ⟨.done (.returned _, c), _⟩ => match (executeFanIn none { id := "join" } c).1 with
    | .returned o => some o.status
    | _ => none
  | _ => none

theorem successes_rule_out_failures_fork : ∃ (o : Outcome) (c : PipelineContext)
    (results : List BranchResult) (runs : List (List BranchRun)),
    joined (oneFails gateFirst) "continue" "wait_all" = some (o.status, some 2) ∧
      VerdictsTruthful "wait_all" (completedResults runs) results o c := by
  have hjoined : joined (oneFails gateFirst) "continue" "wait_all" =
      some (.partialSuccess, some 2) := by decide +kernel
  have hstatuses : completedStatuses (oneFails gateFirst) "continue" "wait_all" =
      some [.fail, .success] := by decide +kernel
  obtain ⟨run, o, c, hrun, ho, hstatus⟩ := joinOf_eq_some hjoined
  obtain ⟨runs, hruns, hended⟩ := Option.map_eq_some_iff.mp hstatuses
  have hsome : runs.flatten ≠ [] := by
    intro hnil
    rw [completedResults, hnil] at hended
    cases hended
  obtain ⟨results, -, -, -, -, htruthful⟩ :=
    successes_rule_out_failures hrun ho (by decide) hruns hsome
  refine ⟨o, c, results, runs, ?_, htruthful (by decide) fun b hb => ?_⟩
  · rw [hjoined, hstatus]
  · have hmem : b.status ∈ [StageStatus.fail, .success] := hended ▸ List.mem_map_of_mem hb
    simp only [List.mem_cons, List.not_mem_nil, or_false] at hmem
    rcases hmem with hfail | hsuccess
    · exact .inr (by simp [BranchResult.failed, hfail])
    · exact .inl (by simp [BranchResult.succeeded, hsuccess])

/-- Two branches that ask for a retry are two that succeeded, to both handlers;
two that failed are none, where errors are ignored. -/
theorem unfinished_branches_succeed :
    (completedStatuses (branchesEnd (fun _ => .retry) gateFirst) "continue" "wait_all" =
        some [.retry, .retry] ∧
      joined (branchesEnd (fun _ => .retry) gateFirst) "continue" "wait_all" =
        some (.success, some 2) ∧
      fanInStatus (branchesEnd (fun _ => .retry) gateFirst) "continue" "wait_all" =
        some .success) ∧
    (completedStatuses (branchesEnd (fun _ => .fail) gateFirst) "ignore" "wait_all" =
        some [.fail, .fail] ∧
      joined (branchesEnd (fun _ => .fail) gateFirst) "ignore" "wait_all" =
        some (.success, some 0)) := by
  refine ⟨⟨?_, ?_, ?_⟩, ?_, ?_⟩
  · decide +kernel
  · decide +kernel
  · decide +kernel
  · decide +kernel
  · decide +kernel

end Demo

end DotRunner
