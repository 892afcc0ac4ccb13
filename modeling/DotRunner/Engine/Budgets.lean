import DotRunner.Engine.Positions

/-!
# Budgets

However often a run is killed and resumed, its checkpoints climb in steps, and
the step bound cuts it off.
-/

namespace DotRunner

open Py

/-- The executions a table of visit counts adds up to. -/
def totalExecutions (counts : Dict String Int) : Int := (counts.entries.map Prod.snd).sum

theorem sum_insertEntry {k : String} (a : Int) (l : List (String × Int)) :
    ((Dict.insertEntry k a l).map Prod.snd).sum =
      (l.map Prod.snd).sum + a - (Dict.lookup k l).getD 0 := by
  induction l with
  | nil => simp [Dict.insertEntry, Dict.lookup]
  | cons p rest ih =>
    obtain ⟨k', b⟩ := p
    by_cases hk : k' = k
    · simp only [Dict.insertEntry, Dict.lookup, hk, if_true, List.map_cons, List.sum_cons,
        Option.getD_some]
      omega
    · simp only [Dict.insertEntry, Dict.lookup, hk, if_false, List.map_cons, List.sum_cons, ih]
      omega

/-- One more visit of one node is one more execution in all. -/
theorem totalExecutions_countExecution (node : Node) (s : EngineState) :
    totalExecutions (countExecution node s).nodeExecutionCounts =
      totalExecutions s.nodeExecutionCounts + 1 := by
  have h := sum_insertEntry (k := node.id) (s.nodeExecutionCounts.getD node.id 0 + 1)
    s.nodeExecutionCounts.entries
  have hget : (Dict.lookup node.id s.nodeExecutionCounts.entries).getD 0 =
      s.nodeExecutionCounts.getD node.id 0 := rfl
  rw [hget] at h
  show ((Dict.insertEntry _ _ _).map Prod.snd).sum = _
  rw [h]
  show (s.nodeExecutionCounts.entries.map Prod.snd).sum + _ - _ =
    (s.nodeExecutionCounts.entries.map Prod.snd).sum + 1
  omega

/-- A retry budget that is neither negative nor overdrawn. -/
def WithinBudget (n : Int) : Prop := 0 ≤ n ∧ n ≤ maxGoalGateRetries

theorem withinBudget_zero : WithinBudget 0 := by
  constructor <;> decide

theorem WithinBudget.succ {n : Int} (h : WithinBudget n) (hlt : n < maxGoalGateRetries) :
    WithinBudget (n + 1) := by
  obtain ⟨hpos, -⟩ := h
  constructor <;> omega

structure Budgeted (g : Graph) (w : Walk) : Prop where
  gate : WithinBudget w.goalGateRetries
  failure : WithinBudget w.failureRoutingRetries
  executions : totalExecutions w.engine.nodeExecutionCounts ≤ w.steps
  steps : w.steps ≤ maxSteps g

/-- Only the counters matter. -/
theorem Budgeted.congr {g : Graph} {w w' : Walk} (h : Budgeted g w)
    (hg : w'.goalGateRetries = w.goalGateRetries)
    (hf : w'.failureRoutingRetries = w.failureRoutingRetries)
    (hc : w'.engine.nodeExecutionCounts = w.engine.nodeExecutionCounts)
    (hs : w'.steps = w.steps) : Budgeted g w' := by
  refine ⟨?_, ?_, ?_, ?_⟩
  · rw [hg]
    exact h.gate
  · rw [hf]
    exact h.failure
  · rw [hc, hs]
    exact h.executions
  · rw [hs]
    exact h.steps

theorem maxSteps_nonneg (g : Graph) : 0 ≤ maxSteps g :=
  Int.mul_nonneg (Int.natCast_nonneg _) (by decide)

section Steps

variable [Runtime]

/-- A move spends at most one retry of one kind, and a restart gives all back. -/
theorem Moved.budgets {g : Graph} {w w' : Walk} {m : Move} (h : Moved g w m w')
    (hg : WithinBudget w.goalGateRetries) (hf : WithinBudget w.failureRoutingRetries) :
    WithinBudget w'.goalGateRetries ∧ WithinBudget w'.failureRoutingRetries := by
  cases h with
  | edge hn hr => exact ⟨hg, hf⟩
  | restart hn hr => exact ⟨withinBudget_zero, withinBudget_zero⟩
  | fanIn hn => exact ⟨hg, hf⟩
  | failureRetry hn hb => exact ⟨hg, hf.succ hb⟩
  | skipEdge hn => exact ⟨hg, hf⟩
  | skipRetry hn hb => exact ⟨hg, hf.succ hb⟩
  | gateRetry hn hb => exact ⟨hg.succ hb, hf⟩

theorem Moved.budgeted {g : Graph} {w w' : Walk} {m : Move} (h : Moved g w m w')
    (hw : Budgeted g w) : Budgeted g w' := by
  obtain ⟨hg, hf⟩ := h.budgets hw.gate hw.failure
  refine ⟨hg, hf, ?_, ?_⟩
  · rw [h.counts, h.steps]
    exact hw.executions
  · rw [h.steps]
    exact hw.steps

omit [Runtime] in
theorem executed_counts (w : Walk) (g : Graph) (context : PipelineContext) (armed : Bool)
    (o : Outcome) : (w.executed g context armed o).engine.nodeExecutionCounts =
      (countExecution w.currentNode w.engine).nodeExecutionCounts := by
  simp only [Walk.executed, completeNode]
  split <;> rfl

omit [Runtime] in
theorem budgeted_counted {p : PipelineEngine} {tick : Tick} {w : Walk} (hw : Budgeted p.graph w)
    (hg : guardLoop p tick w.counted = none) : Budgeted p.graph w.counted := by
  refine ⟨hw.gate, hw.failure, ?_, steps_le_of_guardLoop hg⟩
  have h := hw.executions
  show totalExecutions w.engine.nodeExecutionCounts ≤ w.steps + 1
  omega

omit [Runtime] in
theorem budgeted_executed {p : PipelineEngine} {tick : Tick} {w : Walk} (hw : Budgeted p.graph w)
    (hg : guardLoop p tick w.counted = none) (context : PipelineContext) (armed : Bool)
    (o : Outcome) : Budgeted p.graph (w.executed p.graph context armed o) := by
  refine ⟨hw.gate, hw.failure, ?_, steps_le_of_guardLoop hg⟩
  have h := hw.executions
  rw [executed_counts, totalExecutions_countExecution]
  show totalExecutions w.engine.nodeExecutionCounts + 1 ≤ w.steps + 1
  omega

/-- What an iteration writes and where it goes are one step on, within the
budgets. -/
theorem IterCase.budgets {p : PipelineEngine} {tick : Tick} {w : Walk} {r : IterEnd}
    (h : IterCase p tick w r) (hw : Budgeted p.graph w) :
    (∀ s, r.saved = some s → Budgeted p.graph s.walk ∧ s.walk.steps = w.steps + 1 ∧
      totalExecutions w.engine.nodeExecutionCounts ≤
        totalExecutions s.walk.engine.nodeExecutionCounts ∧
      ∀ m w', r.next = .goto m w' →
        w'.engine.nodeExecutionCounts = s.walk.engine.nodeExecutionCounts) ∧
    ∀ m w', r.next = .goto m w' → Budgeted p.graph w' ∧ w'.steps = w.steps + 1 ∧
      totalExecutions w.engine.nodeExecutionCounts ≤
        totalExecutions w'.engine.nodeExecutionCounts := by
  cases h with
  | guarded hg ho => exact ⟨fun _ h => (nomatch h), fun _ _ h => (nomatch h)⟩
  | exit hg hx =>
    have hcounted := budgeted_counted hw hg
    refine ⟨fun s h => ?_, fun m w' h => ?_⟩
    · cases h
      exact ⟨hcounted, rfl, Int.le_refl _, fun m w' h => (leaveExit_moved h).counts⟩
    · have hm := leaveExit_moved h
      refine ⟨hm.budgeted (hcounted.congr rfl rfl rfl rfl), hm.steps, ?_⟩
      rw [hm.counts]
      exact Int.le_refl _
  | hop hg hx ho =>
    have hcounted := budgeted_counted hw hg
    refine ⟨fun _ h => (nomatch h), fun m w' h => ?_⟩
    have hm := route_moved h
    refine ⟨hm.budgeted (hcounted.congr rfl rfl rfl rfl), hm.steps, ?_⟩
    rw [hm.counts]
    exact Int.le_refl _
  | @skip keys hg hx ho hk =>
    have hskipped : Budgeted p.graph (w.skipped p.graph (skipOutcome w.currentNode keys)) :=
      (budgeted_counted hw hg).congr rfl rfl rfl rfl
    refine ⟨fun s h => ?_, fun m w' h => ?_⟩
    · cases h
      exact ⟨hskipped, rfl, Int.le_refl _, fun m w' h => (routeSkipped_moved h).counts⟩
    · have hm := routeSkipped_moved h
      refine ⟨hm.budgeted (hskipped.congr rfl rfl rfl rfl), hm.steps, ?_⟩
      rw [hm.counts]
      exact Int.le_refl _
  | @execute context armed o hg hx ho hk hsw ha =>
    have hexecuted := budgeted_executed hw hg context armed o
    have hcounts : totalExecutions w.engine.nodeExecutionCounts ≤
        totalExecutions (w.executed p.graph context armed o).engine.nodeExecutionCounts := by
      rw [executed_counts, totalExecutions_countExecution]
      omega
    refine ⟨fun s h => ?_, fun m w' h => ?_⟩
    · cases h
      exact ⟨hexecuted, rfl, hcounts, fun m w' h => (route_moved h).counts⟩
    · have hm := route_moved h
      refine ⟨hm.budgeted (hexecuted.congr rfl rfl rfl rfl), hm.steps, ?_⟩
      rw [hm.counts]
      exact hcounts
  | abort hg hx ho hk hu hs => exact ⟨fun _ h => (nomatch h), fun _ _ h => (nomatch h)⟩

/-! ## Documents -/

/-- What a resume reads in a document, where it is one. -/
def readBack {α : Type} (g : Graph) (doc : Value) (f : Walk → α) : Option α :=
  match resume g {} "" doc with
  | .ok w => some (f w)
  | .error _ => none

def checkpointSteps (g : Graph) (doc : Value) : Int := (readBack g doc Walk.steps).getD 0

/-- The node executions a checkpoint records. -/
def checkpointExecutions (g : Graph) (doc : Value) : Int :=
  (readBack g doc fun w => totalExecutions w.engine.nodeExecutionCounts).getD 0

def checkpointGateRetries (g : Graph) (doc : Value) : Int :=
  (readBack g doc Walk.goalGateRetries).getD 0

def checkpointFailureRetries (g : Graph) (doc : Value) : Int :=
  (readBack g doc Walk.failureRoutingRetries).getD 0

theorem readBack_checkpoint {α : Type} {g : Graph} {w : Walk} {node : Node} (h : Snapshot g w node)
    (timestamp : String) (f : Walk → α) :
    readBack g (saveCheckpoint (checkpointOf g w node.id timestamp)) f =
      some (f (w.restored g {} node)) := by
  rw [readBack, resume_saveCheckpoint h.member]

/-- A document some budgeted walk wrote. -/
def BudgetDoc (g : Graph) (doc : Value) : Prop :=
  ∃ w node timestamp, Snapshot g w node ∧ Budgeted g w ∧ 1 ≤ w.steps ∧
    doc = saveCheckpoint (checkpointOf g w node.id timestamp)

theorem budgeted_start {g : Graph} {goal : Option String} {c : PipelineContext} {w : Walk}
    (h : start g goal c = .ok w) : Budgeted g w ∧ 0 ≤ w.steps := by
  obtain ⟨n, -, rfl⟩ := start_ok h
  exact ⟨⟨withinBudget_zero, withinBudget_zero, Int.le_refl 0, maxSteps_nonneg g⟩, Int.le_refl 0⟩

end Steps

section Runs

variable [Runtime] [JsonReader]

theorem budget_invariant (p : PipelineEngine) : Recovery.Invariant (engineSystem p)
    (fun w => Coherent p.graph w ∧ Budgeted p.graph w ∧ 0 ≤ w.steps) (BudgetDoc p.graph) where
  fresh := by
    rintro w ⟨goal, c, h⟩
    exact ⟨coherent_start h, budgeted_start h⟩
  next := by
    rintro w e d w' ⟨hco, hb, hpos⟩ ⟨tick, rfl, hd, hs⟩
    obtain ⟨m, hm⟩ := Next.walk?_eq_some hs.symm
    obtain ⟨hb', hsteps, -⟩ := ((iterate_case p tick w).budgets hb).2 m w' hm
    exact ⟨((iterate_case p tick w).coherent hco).2 m w' hm, hb', by omega⟩
  write := by
    rintro w e d s ⟨hco, hb, hpos⟩ ⟨tick, rfl, hd, hs⟩
    obtain ⟨saved, hsaved, rfl⟩ := Option.map_eq_some_iff.mp hd.symm
    obtain ⟨hsnap, hcp⟩ := ((iterate_case p tick w).coherent hco).1 saved hsaved
    obtain ⟨hb', hsteps, -⟩ := ((iterate_case p tick w).budgets hb).1 saved hsaved
    exact ⟨saved.walk, w.currentNode, tick.timestamp, hsnap, hb', by omega,
      congrArg saveCheckpoint hcp⟩
  restart := by
    rintro d e w ⟨w₁, node, timestamp, hsnap, hb, hpos, rfl⟩ hr
    obtain ⟨-, r, rfl⟩ := resumes_of_snapshot hsnap hr
    have hsteps : (w₁.restored p.graph r node).steps = w₁.steps := rfl
    exact ⟨hsnap.coherent_restored r, ⟨hb.gate, hb.failure, hb.executions, hb.steps⟩, by omega⟩

/-- The steps and the executions of a walk, and how a write raises them. -/
def progress (w : Walk) : Int × Int := (w.steps, totalExecutions w.engine.nodeExecutionCounts)

def docProgress (g : Graph) (doc : Value) : Int × Int :=
  (checkpointSteps g doc, checkpointExecutions g doc)

def Further (a b : Int × Int) : Prop := a.1 < b.1 ∧ a.2 ≤ b.2

omit [JsonReader] in
theorem docProgress_checkpoint {g : Graph} {w : Walk} {node : Node} (h : Snapshot g w node)
    (timestamp : String) :
    docProgress g (saveCheckpoint (checkpointOf g w node.id timestamp)) = progress w := by
  simp only [docProgress, checkpointSteps, checkpointExecutions, readBack_checkpoint h]
  rfl

theorem climbs (p : PipelineEngine) : Recovery.Climbs (engineSystem p)
    (fun w => Coherent p.graph w ∧ Budgeted p.graph w ∧ 0 ≤ w.steps) (BudgetDoc p.graph)
    Further progress (docProgress p.graph) where
  trans := fun hab hbc => ⟨Int.lt_trans hab.1 hbc.1, Int.le_trans hab.2 hbc.2⟩
  write := by
    rintro w e d s ⟨hco, hb, hpos⟩ ⟨tick, rfl, hd, hs⟩
    obtain ⟨saved, hsaved, rfl⟩ := Option.map_eq_some_iff.mp hd.symm
    obtain ⟨hsnap, hcp⟩ := ((iterate_case p tick w).coherent hco).1 saved hsaved
    obtain ⟨-, hsteps, hexec, -⟩ := ((iterate_case p tick w).budgets hb).1 saved hsaved
    rw [Written.doc, hcp, docProgress_checkpoint hsnap]
    refine ⟨?_, hexec⟩
    show w.steps < saved.walk.steps
    omega
  next := by
    rintro w e w' ⟨hco, hb, hpos⟩ ⟨tick, rfl, hd, hs⟩
    obtain ⟨m, hm⟩ := Next.walk?_eq_some hs.symm
    obtain ⟨-, hsteps, hexec⟩ := ((iterate_case p tick w).budgets hb).2 m w' hm
    refine .inr ⟨?_, hexec⟩
    show w.steps < w'.steps
    omega
  nextWrite := by
    rintro w e d w' ⟨hco, hb, hpos⟩ ⟨tick, rfl, hd, hs⟩
    obtain ⟨saved, hsaved, rfl⟩ := Option.map_eq_some_iff.mp hd.symm
    obtain ⟨m, hm⟩ := Next.walk?_eq_some hs.symm
    obtain ⟨hsnap, hcp⟩ := ((iterate_case p tick w).coherent hco).1 saved hsaved
    obtain ⟨-, hsteps, -, hcounts⟩ := ((iterate_case p tick w).budgets hb).1 saved hsaved
    obtain ⟨-, hsteps', -⟩ := ((iterate_case p tick w).budgets hb).2 m w' hm
    rw [Written.doc, hcp, docProgress_checkpoint hsnap, progress, progress, hcounts m w' hm,
      hsteps, hsteps']
  restart := by
    rintro d e w ⟨w₁, node, timestamp, hsnap, hb, hpos, rfl⟩ hr
    obtain ⟨-, r, rfl⟩ := resumes_of_snapshot hsnap hr
    rw [docProgress_checkpoint hsnap]
    rfl

omit [Runtime] [JsonReader] in
/-- Integers that fall from entry to entry, all of them in `1..n`, are at most
`n`. -/
theorem length_le_of_falling {α : Type} {f : α → Int} {n : Int} (hn : 0 ≤ n) {l : List α}
    (hp : l.Pairwise fun a b => f b < f a) (hl : ∀ a ∈ l, 1 ≤ f a ∧ f a ≤ n) :
    (l.length : Int) ≤ n := by
  induction l generalizing n with
  | nil => simpa using hn
  | cons a rest ih =>
    obtain ⟨hhead, htail⟩ := List.pairwise_cons.mp hp
    obtain ⟨hlow, hhigh⟩ := hl a List.mem_cons_self
    have hrest : (rest.length : Int) ≤ f a - 1 := by
      refine ih (by omega) htail fun b hb => ?_
      have hlt := hhead b hb
      exact ⟨(hl b (List.mem_cons_of_mem _ hb)).1, by omega⟩
    rw [List.length_cons, Int.natCast_succ]
    omega

/-- Bounded execution across crashes.  The checkpoints of a run, newest first,
fall in steps and never gain executions going back; there are at most
`len(nodes) * 50` of them, none records more node executions than that, and the
retry budgets in them and in the loop never exceed 50.  A `loop_restart` edge
gives the budgets back and counts its step like any other. -/
theorem bounded_execution {p : PipelineEngine} {h : List Event} {docs : List Value}
    {o : Option Walk} (run : Runs p h docs o) :
    docs.Pairwise (fun new old => checkpointSteps p.graph old < checkpointSteps p.graph new ∧
      checkpointExecutions p.graph old ≤ checkpointExecutions p.graph new) ∧
    (docs.length : Int) ≤ p.graph.nodes.size * 50 ∧
    (∀ doc ∈ docs, checkpointExecutions p.graph doc ≤ p.graph.nodes.size * 50 ∧
      checkpointGateRetries p.graph doc ≤ 50 ∧ checkpointFailureRetries p.graph doc ≤ 50) ∧
    ∀ w tick, .iterated w tick ∈ h → w.goalGateRetries ≤ 50 ∧ w.failureRoutingRetries ≤ 50 ∧
      ∀ e w', (iterate p tick w).next = .goto (.edge e) w' → w'.steps = w.steps + 1 ∧
        (e.restarts = true → w'.goalGateRetries = 0 ∧ w'.failureRoutingRetries = 0) := by
  have hdocs := ((budget_invariant p).run run).1
  have hpair := ((climbs p).run (budget_invariant p) run).1
  have hsteps : ∀ doc ∈ docs, 1 ≤ checkpointSteps p.graph doc ∧
      checkpointSteps p.graph doc ≤ maxSteps p.graph := by
    intro doc hdoc
    obtain ⟨w, node, timestamp, hsnap, hb, hpos, rfl⟩ := hdocs doc hdoc
    simp only [checkpointSteps, readBack_checkpoint hsnap, Option.getD_some]
    exact ⟨hpos, hb.steps⟩
  refine ⟨hpair, length_le_of_falling (maxSteps_nonneg p.graph) (hpair.imp fun h => h.1) hsteps,
    fun doc hdoc => ?_, fun w tick he => ?_⟩
  · obtain ⟨w, node, timestamp, hsnap, hb, hpos, rfl⟩ := hdocs doc hdoc
    simp only [checkpointExecutions, checkpointGateRetries, checkpointFailureRetries,
      readBack_checkpoint hsnap, Option.getD_some]
    exact ⟨Int.le_trans hb.executions hb.steps, hb.gate.2, hb.failure.2⟩
  · obtain ⟨h', docs', hrun⟩ := run.iterated he
    obtain ⟨-, hb, -⟩ := ((budget_invariant p).run hrun).2 w rfl
    have hcase := iterate_case p tick w
    refine ⟨hb.gate.2, hb.failure.2, fun e w' hgo => ⟨((hcase.budgets hb).2 _ w' hgo).2.1, ?_⟩⟩
    intro hrestart
    obtain ⟨w₁, hm⟩ := hcase.moved hgo
    cases hm with
    | edge hn hr =>
      rw [hr] at hrestart
      cases hrestart
    | restart hn hr => exact ⟨rfl, rfl⟩

end Runs

section Demo

open Py.Ascii

theorem bounded_execution_folder : ∃ h docs w, Runs folderPipeline h docs (some w) ∧
    w.currentNode.id = "child" ∧ (docs.length : Int) ≤ 2 * 50 := by
  obtain ⟨w, hw⟩ : ∃ w, walkAfter folderPipeline [succeeds] folderStart = some w :=
    Option.isSome_iff_exists.mp (by decide +kernel)
  have hchild : (walkAfter folderPipeline [succeeds] folderStart).map (fun w => w.currentNode.id) =
      some "child" := by decide +kernel
  rw [hw, Option.map_some, Option.some.injEq] at hchild
  obtain ⟨docs, run⟩ := folderStart_runs.after hw
  exact ⟨_, docs, w, run, hchild, (bounded_execution run).2.1⟩

end Demo

end DotRunner
