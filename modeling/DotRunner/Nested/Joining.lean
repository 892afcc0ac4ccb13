import DotRunner.Nested.Branches
import Mathlib.Data.List.Perm.Subperm

/-!
# Joining the branches

What the wait for the branches of a parallel node keeps of those that ran to
completion, and how far the verdict depends on the order in which branches that
were seen to complete together are looked at.
-/

namespace DotRunner

open Py Approx

section Waiting

/-- The results of the branches that ran to completion. -/
def completedResults (runs : List (List BranchRun)) : List BranchResult :=
  runs.flatten.filterMap fun run => run.ended.done?

def roundResults (group : List BranchRun) : List BranchResult :=
  group.filterMap fun run => run.ended.done?

/-- The results nobody looks at: those of the round that ends the wait, behind
the one that ends it. -/
def overlooked (ends : BranchResult → Bool) : List (List BranchRun) → List BranchResult
  | [] => []
  | group :: rest =>
    if (roundResults group).any ends then ((roundResults group).dropWhile fun r => !ends r).tail
    else overlooked ends rest

/-- The results of the round that ends the wait. -/
def endingRound (ends : BranchResult → Bool) : List (List BranchRun) → List BranchResult
  | [] => []
  | group :: rest =>
    if (roundResults group).any ends then roundResults group else endingRound ends rest

/-- The results of every other round. -/
def otherRounds (ends : BranchResult → Bool) : List (List BranchRun) → List BranchResult
  | [] => []
  | group :: rest =>
    if (roundResults group).any ends then completedResults rest
    else roundResults group ++ otherRounds ends rest

theorem completed_cons (group : List BranchRun) (rest : List (List BranchRun)) :
    completedResults (group :: rest) = roundResults group ++ completedResults rest := by
  simp [completedResults, roundResults]

/-- One round: either nothing in it ends the wait and all of it is kept, or it is
kept up to what ends the wait. -/
theorem waitGroup_done {ends : BranchResult → Bool} {group : List BranchRun}
    {rs : List BranchResult} {ended : Bool} (h : waitGroup ends group = .done (rs, ended)) :
    (ended = false ∧ rs = roundResults group ∧ (roundResults group).any ends = false) ∨
    (ended = true ∧ rs.any ends = true ∧ (roundResults group).any ends = true ∧
      rs ++ ((roundResults group).dropWhile fun r => !ends r).tail = roundResults group) := by
  induction group generalizing rs ended with
  | nil =>
    cases h
    exact .inl ⟨rfl, rfl, rfl⟩
  | cons run rest ih =>
    unfold waitGroup at h
    cases hrun : run.ended with
    | cut =>
      rw [hrun] at h
      cases h
    | done r =>
      have hround : roundResults (run :: rest) = r :: roundResults rest := by
        simp [roundResults, hrun, Finish.done?]
      rw [hrun] at h
      dsimp only at h
      rw [hround]
      by_cases hends : ends r = true
      · rw [if_pos hends] at h
        cases h
        exact .inr ⟨rfl, by simp [hends], by simp [hends], by simp [hends]⟩
      · rw [if_neg hends] at h
        obtain ⟨⟨rs', ended'⟩, hrest, hcons⟩ := Finish.map_eq_done h
        cases hcons
        have hfalse : ends r = false := Bool.eq_false_iff.mpr hends
        rcases ih hrest with ⟨rfl, rfl, hnone⟩ | ⟨rfl, hrs, hsome, happend⟩
        · exact .inl ⟨rfl, rfl, by simp only [List.any_cons, hfalse, hnone, Bool.or_false]⟩
        · refine .inr ⟨rfl, by simp only [List.any_cons, hrs, Bool.or_true],
            by simp only [List.any_cons, hsome, Bool.or_true], ?_⟩
          rw [List.dropWhile_cons_of_pos (by simp [hfalse]), List.cons_append, happend]

variable {ends : BranchResult → Bool} {runs : List (List BranchRun)} {kept : List BranchResult}

/-- Nothing comes from nowhere and nothing counts twice: what was kept and what
was overlooked are the completed branches. -/
theorem kept_overlooked_perm (h : waitUntil ends runs = .done kept) :
    (kept ++ overlooked ends runs).Perm (completedResults runs) := by
  induction runs generalizing kept with
  | nil =>
    cases h
    exact .nil
  | cons group rest ih =>
    unfold waitUntil at h
    split at h
    · cases h
    · rename_i rs hgroup
      cases h
      rcases waitGroup_done hgroup with ⟨hended, -⟩ | ⟨-, -, hsome, happend⟩
      · cases hended
      · have hround : (rs ++ (((roundResults group).dropWhile fun r => !ends r).tail ++
            completedResults rest)).Perm (roundResults group ++ completedResults rest) := by
          rw [← List.append_assoc, happend]
        rw [overlooked, if_pos hsome, completed_cons, List.append_assoc]
        exact (List.perm_append_comm.append_left rs).trans hround
    · rename_i rs hgroup
      obtain ⟨kept', hrest, rfl⟩ := Finish.map_eq_done h
      rcases waitGroup_done hgroup with ⟨-, rfl, hnone⟩ | ⟨hended, -⟩
      · rw [overlooked, if_neg (by simp [hnone]), completed_cons, List.append_assoc]
        exact (ih hrest).append_left _
      · cases hended

/-- A branch that could end the wait did, or one that was kept did before it. -/
theorem kept_any_ends (h : waitUntil ends runs = .done kept) :
    kept.any ends = (completedResults runs).any ends := by
  induction runs generalizing kept with
  | nil =>
    cases h
    rfl
  | cons group rest ih =>
    unfold waitUntil at h
    split at h
    · cases h
    · rename_i rs hgroup
      cases h
      rcases waitGroup_done hgroup with ⟨hended, -⟩ | ⟨-, hrs, hsome, -⟩
      · cases hended
      · rw [completed_cons, List.any_append, List.any_append, hrs, hsome, Bool.true_or,
          Bool.true_or]
    · rename_i rs hgroup
      obtain ⟨kept', hrest, rfl⟩ := Finish.map_eq_done h
      rcases waitGroup_done hgroup with ⟨-, rfl, hnone⟩ | ⟨hended, -⟩
      · rw [completed_cons, List.any_append, List.any_append, ih hrest]
      · cases hended

/-- The rounds that do not end the wait are kept whole. -/
theorem otherRounds_subset (h : waitUntil ends runs = .done kept) : otherRounds ends runs ⊆ kept := by
  induction runs generalizing kept with
  | nil => exact List.nil_subset _
  | cons group rest ih =>
    unfold waitUntil at h
    split at h
    · cases h
    · rename_i rs hgroup
      cases h
      rcases waitGroup_done hgroup with ⟨hended, -⟩ | ⟨-, -, hsome, -⟩
      · cases hended
      · rw [otherRounds, if_pos hsome]
        exact List.subset_append_right _ _
    · rename_i rs hgroup
      obtain ⟨kept', hrest, rfl⟩ := Finish.map_eq_done h
      rcases waitGroup_done hgroup with ⟨-, rfl, hnone⟩ | ⟨hended, -⟩
      · rw [otherRounds, if_neg (by simp [hnone])]
        exact List.append_subset.mpr ⟨List.subset_append_left _ _,
          List.Subset.trans (ih hrest) (List.subset_append_right _ _)⟩
      · cases hended

theorem completed_subset_rounds {r : BranchResult} (h : r ∈ completedResults runs) :
    r ∈ endingRound ends runs ∨ r ∈ otherRounds ends runs := by
  induction runs with
  | nil => cases h
  | cons group rest ih =>
    unfold endingRound otherRounds
    rw [completed_cons, List.mem_append] at h
    split
    · exact h
    · rw [List.mem_append, or_left_comm]
      exact h.imp id ih

/-- A wait that no branch ends keeps them all. -/
theorem overlooked_eq_nil (hnone : (completedResults runs).any ends = false) : overlooked ends runs = [] := by
  induction runs with
  | nil => rfl
  | cons group rest ih =>
    rw [completed_cons, List.any_append, Bool.or_eq_false_iff] at hnone
    rw [overlooked, if_neg (by simp [hnone.1]), ih hnone.2]

/-- The same branches, their rounds looked at in another order. -/
def SameRounds (runs runs' : List (List BranchRun)) : Prop := List.Forall₂ List.Perm runs runs'

variable {runs' : List (List BranchRun)}

theorem SameRounds.completed_perm (h : SameRounds runs runs') :
    (completedResults runs).Perm (completedResults runs') := by
  induction h with
  | nil => exact .nil
  | cons hgroup hrest ih =>
    rw [completed_cons, completed_cons]
    exact (hgroup.filterMap _).append ih

theorem SameRounds.rounds_perm (h : SameRounds runs runs') (ends : BranchResult → Bool) :
    (endingRound ends runs).Perm (endingRound ends runs') ∧
      (otherRounds ends runs).Perm (otherRounds ends runs') := by
  induction h with
  | nil => exact ⟨.nil, .nil⟩
  | @cons group group' rest rest' hgroup hrest ih =>
    have hround : (roundResults group).Perm (roundResults group') := hgroup.filterMap _
    unfold endingRound otherRounds
    rw [hround.any_eq]
    by_cases hends : (roundResults group').any ends = true
    · rw [if_pos hends, if_pos hends, if_pos hends, if_pos hends]
      exact ⟨hround, SameRounds.completed_perm hrest⟩
    · rw [if_neg hends, if_neg hends, if_neg hends, if_neg hends]
      exact ⟨ih.1, hround.append ih.2⟩

end Waiting

section Verdict

/-- The verdict only counts. -/
theorem applyJoinPolicy_perm {results results' : List BranchResult} (policy : String)
    (h : results.Perm results') : applyJoinPolicy results policy = applyJoinPolicy results' policy := by
  unfold applyJoinPolicy
  simp only [h.countP_eq, h.length_eq, h.isEmpty_eq]

/-- The status of the verdict, from which kinds of results there are. -/
def joinStatus (policy : String) (empty someSucceeded someFailed : Bool) : StageStatus :=
  if empty then .success
  else if policy = "first_success" then if someSucceeded then .success else .fail
  else if someFailed then .partialSuccess
  else .success

theorem applyJoinPolicy_status (results : List BranchResult) (policy : String) :
    (applyJoinPolicy results policy).status = joinStatus policy results.isEmpty
      (results.any BranchResult.succeeded) (results.any BranchResult.failed) := by
  have hpositive (f : BranchResult → Bool) : 0 < results.countP f ↔ results.any f = true := by
    rw [List.countP_pos_iff, List.any_eq_true]
  have hzero (f : BranchResult → Bool) : results.countP f = 0 ↔ ¬results.any f = true := by
    rw [← hpositive]
    omega
  unfold applyJoinPolicy joinStatus allSucceeded
  dsimp only
  simp only [hpositive, hzero, apply_ite Outcome.status, explicitly]
  by_cases hfirst : policy = "first_success"
  · subst hfirst
    rw [if_neg (show ¬("first_success" : String) = "wait_all" by decide), if_pos rfl, if_pos rfl]
  · rw [if_neg hfirst, if_neg hfirst]
    cases results.any BranchResult.failed <;> simp

/-- The branches that succeeded were all seen in the round of the first that
failed. -/
def Contested (runs : List (List BranchRun)) : Prop :=
  (∃ r ∈ endingRound BranchResult.failed runs, r.succeeded = true) ∧
    ∀ r ∈ otherRounds BranchResult.failed runs, r.succeeded = false

variable {runs runs' : List (List BranchRun)} {kept : List BranchResult}

theorem SameRounds.contested (h : SameRounds runs runs') (hc : Contested runs') :
    Contested runs := by
  obtain ⟨hending, hothers⟩ := h.rounds_perm BranchResult.failed
  obtain ⟨⟨r, hr, hsucceeded⟩, hnone⟩ := hc
  exact ⟨⟨r, hending.mem_iff.mpr hr, hsucceeded⟩, fun r hr => hnone r (hothers.mem_iff.mp hr)⟩

theorem ignoring_perm {results results' : List BranchResult} (errorPolicy : String)
    (h : results.Perm results') : (ignoring errorPolicy results).Perm (ignoring errorPolicy results') := by
  unfold ignoring
  split
  · exact h.filter _
  · exact h

theorem ignoring_any_succeeded (errorPolicy : String) (results : List BranchResult) :
    (ignoring errorPolicy results).any BranchResult.succeeded =
      results.any BranchResult.succeeded := by
  unfold ignoring
  split
  · rw [List.any_filter]
    simp
  · rfl

theorem isEmpty_of_any {results : List BranchResult} {f : BranchResult → Bool}
    (h : results.any f = true) : results.isEmpty = false := by
  cases results with
  | nil => cases h
  | cons r rest => rfl

theorem kept_any_succeeded (hwait : waitUntil BranchResult.failed runs = .done kept)
    (hc : ¬Contested runs) :
    kept.any BranchResult.succeeded = (completedResults runs).any BranchResult.succeeded := by
  have hperm := kept_overlooked_perm hwait
  rw [Bool.eq_iff_iff, List.any_eq_true, List.any_eq_true]
  constructor
  · rintro ⟨r, hr, hsucceeded⟩
    exact ⟨r, hperm.subset (List.mem_append_left _ hr), hsucceeded⟩
  · rintro ⟨r, hr, hsucceeded⟩
    have hother : r ∈ endingRound BranchResult.failed runs →
        ∃ s ∈ otherRounds BranchResult.failed runs, s.succeeded = true := by
      intro hending
      by_contra hnone
      refine hc ⟨⟨r, hending, hsucceeded⟩, fun s hs => ?_⟩
      exact Bool.eq_false_iff.mpr fun hs' => hnone ⟨s, hs, hs'⟩
    rcases completed_subset_rounds hr with hending | hothers
    · obtain ⟨s, hs, hs'⟩ := hother hending
      exact ⟨s, otherRounds_subset hwait hs, hs'⟩
    · exact ⟨r, otherRounds_subset hwait hothers, hsucceeded⟩

/-- The status is the policy's over all branches that ran to completion. -/
theorem status_of_completed {errorPolicy joinPolicy : String}
    (hwait : waitUntil (endsWait errorPolicy joinPolicy) runs = .done kept)
    (hc : errorPolicy = "fail_fast" → joinPolicy = "first_success" → ¬Contested runs) :
    (applyJoinPolicy (ignoring errorPolicy kept) joinPolicy).status =
      (applyJoinPolicy (ignoring errorPolicy (completedResults runs)) joinPolicy).status := by
  by_cases hends : (completedResults runs).any (endsWait errorPolicy joinPolicy) = true
  · have hkept : kept.any (endsWait errorPolicy joinPolicy) = true :=
      (kept_any_ends hwait).trans hends
    rw [applyJoinPolicy_status, applyJoinPolicy_status]
    by_cases hfast : errorPolicy = "fail_fast"
    · subst hfast
      have hsame (l : List BranchResult) : ignoring "fail_fast" l = l := rfl
      rw [hsame, hsame, isEmpty_of_any hkept, isEmpty_of_any hends]
      have hends' : (completedResults runs).any BranchResult.failed = true := hends
      have hkept' : kept.any BranchResult.failed = true := hkept
      rw [hends', hkept']
      by_cases hfirst : joinPolicy = "first_success"
      · rw [kept_any_succeeded hwait (hc rfl hfirst)]
      · simp only [joinStatus, if_neg hfirst]
    · by_cases hfirst : joinPolicy = "first_success"
      · subst hfirst
        have heq : endsWait errorPolicy "first_success" = BranchResult.succeeded := by
          rw [endsWait, if_neg hfast, if_pos rfl]
        rw [heq] at hends hkept
        have hsome := ignoring_any_succeeded errorPolicy kept
        have hsome' := ignoring_any_succeeded errorPolicy (completedResults runs)
        rw [hkept] at hsome
        rw [hends] at hsome'
        rw [isEmpty_of_any hsome, isEmpty_of_any hsome', hsome, hsome']
        simp [joinStatus]
      · have heq : endsWait errorPolicy joinPolicy = fun _ => false := by
          rw [endsWait, if_neg hfast, if_neg hfirst]
        rw [heq] at hends
        simp at hends
  · have hperm := kept_overlooked_perm hwait
    rw [overlooked_eq_nil (Bool.eq_false_iff.mpr hends), List.append_nil] at hperm
    rw [applyJoinPolicy_perm joinPolicy (ignoring_perm errorPolicy hperm)]

end Verdict

section Handler

/-- The same rounds, each looked at in another order. -/
def Schedule.SameRounds {n : Nat} (s s' : Schedule n) : Prop :=
  List.Forall₂ List.Perm s.groups s'.groups ∧ s.bailed = s'.bailed

theorem Schedule.SameRounds.begun {n : Nat} {s s' : Schedule n} (h : s.SameRounds s')
    (errorPolicy joinPolicy : String) :
    List.Forall₂ List.Perm (s.begun errorPolicy joinPolicy) (s'.begun errorPolicy joinPolicy) := by
  obtain ⟨hgroups, hbailed⟩ := h
  unfold Schedule.begun
  rw [hbailed]
  split
  · rw [List.forall₂_map_left_iff, List.forall₂_map_right_iff]
    exact hgroups.imp fun _ _ hperm => hperm.filter _
  · split
    · exact hgroups
    · exact .cons (.refl _) .nil

theorem map_eq_of_forall₂ {α β : Type} {f : α → Option β} {l : List α} {l' : List β}
    (h : List.Forall₂ (fun a b => f a = some b) l l') : l.map f = l'.map some := by
  induction h with
  | nil => rfl
  | cons hhead htail ih => rw [List.map_cons, List.map_cons, hhead, ih]

variable [Runtime] {w w' : World} {r : Runners} {p : PipelineEngine} {place : Place} {node : Node}
  {context c c' : PipelineContext} {run run' : HandlerRun} {o o' : Outcome}

theorem runBranches_sameRounds {branches : List Edge} {begun begun' : List (List Nat)}
    {runs runs' : List (List BranchRun)} (hbegun : List.Forall₂ List.Perm begun begun')
    (hruns : runBranches r p place context branches begun = some runs)
    (hruns' : runBranches r p place context branches begun' = some runs') :
    SameRounds runs runs' := by
  have hgroups := forall₂_of_mapM hruns
  have hgroups' := forall₂_of_mapM hruns'
  clear hruns hruns'
  induction hbegun generalizing runs runs' with
  | nil =>
    cases hgroups
    cases hgroups'
    exact .nil
  | cons hperm hrest ih =>
    cases hgroups with
    | cons hgroup htail =>
      cases hgroups' with
      | cons hgroup' htail' =>
        refine .cons ?_ (ih htail htail')
        have hsome := hperm.map fun i => (branches[i]?).bind fun e =>
          runBranch r p place context i e.toNode
        rw [map_eq_of_forall₂ (forall₂_of_mapM hgroup), map_eq_of_forall₂ (forall₂_of_mapM hgroup')]
          at hsome
        exact (List.map_perm_map_iff (Option.some_injective _)).mp hsome

/-- What is stored for a parallel node comes from the branches that ran to
completion, none of them twice; and unless some were overlooked in the round that
ended the wait, it is all of them, or all that succeeded where failures are
ignored.  Its status is the join policy's over all of them, whatever order each
round is looked at in, but where failing fast and the first success contest one
round. -/
theorem join_keeps_completed (h : executeParallel w r p place node context = some run)
    (ho : run.ended = .done (.returned o, c)) (hout : p.graph.outgoingEdges node.id ≠ []) :
    ∃ runs results, runBranches r p place context (p.graph.outgoingEdges node.id)
        ((w.schedule place (p.graph.outgoingEdges node.id).length).begun (errorPolicy node)
          (joinPolicy node)) = some runs ∧
      c = recordResults results context ∧ o = applyJoinPolicy results (joinPolicy node) ∧
      results.Subperm (completedResults runs) ∧
      (overlooked (endsWait (errorPolicy node) (joinPolicy node)) runs = [] →
        results.Perm (ignoring (errorPolicy node) (completedResults runs))) ∧
      ((errorPolicy node = "fail_fast" → joinPolicy node = "first_success" → ¬Contested runs) →
        o.status =
          (applyJoinPolicy (ignoring (errorPolicy node) (completedResults runs)) (joinPolicy node)).status ∧
        ∀ w' run' o' c', (w.schedule place (p.graph.outgoingEdges node.id).length).SameRounds
            (w'.schedule place (p.graph.outgoingEdges node.id).length) →
          executeParallel w' r p place node context = some run' →
          run'.ended = .done (.returned o', c') → o'.status = o.status) := by
  obtain ⟨runs, kept, hruns, hwait, hjoin, hc⟩ := executeParallel_joined h ho hout
  have hperm := kept_overlooked_perm hwait
  refine ⟨runs, _, hruns, hc, hjoin, ?_, fun hnone => ?_, fun hcontest => ?_⟩
  · have hkept : (ignoring (errorPolicy node) kept).Sublist kept := by
      unfold ignoring
      split
      · exact List.filter_sublist
      · exact .refl _
    exact hkept.subperm.trans ((List.sublist_append_left _ _).subperm.trans hperm.subperm)
  · rw [hnone, List.append_nil] at hperm
    exact ignoring_perm _ hperm
  · have hstatus := status_of_completed hwait hcontest
    refine ⟨hjoin ▸ hstatus, fun w' run' o' c' hsame h' ho' => ?_⟩
    obtain ⟨runs', kept', hruns', hwait', hjoin', -⟩ := executeParallel_joined h' ho' hout
    have hrounds := runBranches_sameRounds (hsame.begun _ _) hruns hruns'
    have hstatus' := status_of_completed hwait' fun hfast hfirst hcontested =>
      hcontest hfast hfirst (hrounds.contested hcontested)
    rw [hjoin, hjoin', hstatus, hstatus']
    exact congrArg Outcome.status
      (applyJoinPolicy_perm _ (ignoring_perm _ hrounds.completed_perm.symm))

end Handler

section Demo

open Py.Ascii

def forkUnder (errorPolicy joinPolicy : String) : Node where
  id := "fork"
  shape := "component"
  attrs := .ofList [("error_policy", .str errorPolicy), ("join_policy", .str joinPolicy)]

def gateFirst : Schedule 2 := .inOrder 2

def otherFirst : Schedule 2 := ⟨[[1, 0]], [], by decide⟩

/-- The nodes of the branches end so, and both are seen to complete together. -/
def branchesEnd (status : String → StageStatus) (s : Schedule 2) : World :=
  { World.calm fun node => .returned { status := status node.id } with
    schedule := fun _ n => if h : n = 2 then h ▸ s else .inOrder n }

/-- One of the two branches fails. -/
def oneFails : Schedule 2 → World := branchesEnd fun id => if id = "gate" then .fail else .success

/-- The status a parallel node returned, and how many results it stored. -/
def joinOf (x : Option HandlerRun) : Option (StageStatus × Option Int) :=
  match x with
  | some ⟨.done (.returned o, c), _⟩ => some (o.status, match c.get "parallel.count" with
    | .int i => some i
    | _ => none)
  | _ => none

theorem joinOf_eq_some {x : Option HandlerRun} {y : StageStatus × Option Int}
    (h : joinOf x = some y) :
    ∃ run o c, x = some run ∧ run.ended = .done (.returned o, c) ∧ o.status = y.1 := by
  unfold joinOf at h
  split at h
  · cases h
    exact ⟨_, _, _, rfl, rfl, rfl⟩
  · cases h

def joined (w : World) (errorPolicy joinPolicy : String) : Option (StageStatus × Option Int) :=
  joinOf (executeParallel w (runners w 1) forkPipeline [] (forkUnder errorPolicy joinPolicy) {})

/-- How the branches that ran to completion ended. -/
def completedStatuses (w : World) (errorPolicy joinPolicy : String) : Option (List StageStatus) :=
  (runBranches (runners w 1) forkPipeline [] {} (forkPipeline.graph.outgoingEdges "fork")
    ((w.schedule [] 2).begun errorPolicy joinPolicy)).map
    fun runs => (completedResults runs).map BranchResult.status

theorem join_keeps_completed_fork : ∃ (runs : List (List BranchRun)) (results : List BranchResult),
    runBranches (runners (oneFails gateFirst) 1) forkPipeline [] {}
      (forkPipeline.graph.outgoingEdges "fork") [[0, 1]] = some runs ∧
    results.Perm (completedResults runs) := by
  have hjoined : joined (oneFails gateFirst) "continue" "wait_all" = some (.partialSuccess, some 2) := by
    decide +kernel
  obtain ⟨run, o, c, hrun, ho, -⟩ := joinOf_eq_some hjoined
  obtain ⟨runs, results, hruns, -, -, -, hkept, -⟩ := join_keeps_completed hrun ho (by decide)
  have hnone : overlooked (fun _ => false) runs = [] := overlooked_eq_nil (by simp)
  exact ⟨runs, results, hruns, hkept hnone⟩

/-- A failure that is ignored is not stored; a failure seen behind the first
success is not either; and the first of the two that is looked at decides, where
both a failure and a success end the wait. -/
theorem completed_branches_dropped :
    (completedStatuses (oneFails gateFirst) "ignore" "wait_all" = some [.fail, .success] ∧
      joined (oneFails gateFirst) "ignore" "wait_all" = some (.success, some 1)) ∧
    (completedStatuses (oneFails otherFirst) "continue" "first_success" = some [.success, .fail] ∧
      joined (oneFails otherFirst) "continue" "first_success" = some (.success, some 1)) ∧
    (gateFirst.SameRounds otherFirst ∧
      joined (oneFails gateFirst) "fail_fast" "first_success" = some (.fail, some 1) ∧
      joined (oneFails otherFirst) "fail_fast" "first_success" = some (.success, some 2)) := by
  refine ⟨⟨by decide +kernel, by decide +kernel⟩, ⟨by decide +kernel, by decide +kernel⟩,
    ⟨.cons (by decide) .nil, rfl⟩, by decide +kernel, by decide +kernel⟩

end Demo

end DotRunner
