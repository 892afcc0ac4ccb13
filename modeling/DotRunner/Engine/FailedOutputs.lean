import DotRunner.Engine.Positions

/-!
# The failed table and its derivation

The live table is built completion by completion, a resume derives it from the
recorded outcomes.  Which completions keep the two the same.
-/

namespace DotRunner

open Py

/-- A node recorded as failed or skipped owes the key. -/
def Owes (g : Graph) (outcomes : Dict String Outcome) (k : String) : Prop :=
  ∃ id o, outcomes.get? id = some o ∧ o.status.failing = true ∧ k ∈ outputsOf g id

/-- The node `id` apart. -/
def OwedBeside (g : Graph) (outcomes : Dict String Outcome) (id k : String) : Prop :=
  ∃ id' o, id' ≠ id ∧ outcomes.get? id' = some o ∧ o.status.failing = true ∧ k ∈ outputsOf g id'

theorem mem_keys_foldl_derive (g : Graph) (l : List (String × Outcome)) (acc : Dict String String)
    (k : String) :
    k ∈ (l.foldl (fun acc p => if p.2.status.failing then populateFailedOutputs g p.1 acc else acc)
      acc).keys ↔ k ∈ acc.keys ∨ ∃ p ∈ l, p.2.status.failing = true ∧ k ∈ outputsOf g p.1 := by
  induction l generalizing acc with
  | nil => simp
  | cons p rest ih =>
    rw [List.foldl_cons, ih]
    by_cases hp : p.2.status.failing = true
    · rw [if_pos hp, mem_keys_populateFailedOutputs]
      simp only [List.mem_cons, or_and_right, exists_or, exists_eq_left, hp, true_and, or_assoc]
    · rw [if_neg hp]
      simp only [List.mem_cons, or_and_right, exists_or, exists_eq_left, hp]
      simp

/-- The derived table has exactly the keys owed. -/
theorem mem_keys_deriveFailedOutputs (g : Graph) (outcomes : Dict String Outcome) (k : String) :
    k ∈ (deriveFailedOutputs g outcomes).keys ↔ Owes g outcomes k := by
  rw [deriveFailedOutputs, mem_keys_foldl_derive, Dict.keys_empty]
  constructor
  · rintro (h | ⟨p, hp, hf, hk⟩)
    · exact absurd h List.not_mem_nil
    · exact ⟨p.1, p.2, (Dict.get?_eq_some_iff _).mpr hp, hf, hk⟩
  · rintro ⟨id, o, ho, hf, hk⟩
    exact .inr ⟨(id, o), (Dict.get?_eq_some_iff _).mp ho, hf, hk⟩

/-- Recording an outcome changes what its own node owes. -/
theorem owes_set (g : Graph) (outcomes : Dict String Outcome) (id : String) (o : Outcome)
    (k : String) : Owes g (outcomes.set id o) k ↔
      (o.status.failing = true ∧ k ∈ outputsOf g id) ∨ OwedBeside g outcomes id k := by
  constructor
  · rintro ⟨id', o', ho', hf, hk⟩
    rw [Dict.get?_set] at ho'
    by_cases he : id = id'
    · rw [if_pos he, Option.some.injEq] at ho'
      subst he
      subst ho'
      exact .inl ⟨hf, hk⟩
    · rw [if_neg he] at ho'
      exact .inr ⟨id', o', Ne.symm he, ho', hf, hk⟩
  · rintro (⟨hf, hk⟩ | ⟨id', o', hne, ho', hf, hk⟩)
    · exact ⟨id, o, Dict.get?_set_self _ _ _, hf, hk⟩
    · exact ⟨id', o', (Dict.get?_set_of_ne _ _ (Ne.symm hne)).trans ho', hf, hk⟩

theorem owes_iff_beside (g : Graph) (outcomes : Dict String Outcome) (id k : String) :
    Owes g outcomes k ↔ (∃ o, outcomes.get? id = some o ∧ o.status.failing = true ∧
      k ∈ outputsOf g id) ∨ OwedBeside g outcomes id k := by
  constructor
  · rintro ⟨id', o, ho, hf, hk⟩
    by_cases he : id' = id
    · subst he
      exact .inl ⟨o, ho, hf, hk⟩
    · exact .inr ⟨id', o, he, ho, hf, hk⟩
  · rintro (⟨o, ho, hf, hk⟩ | ⟨id', o, -, ho, hf, hk⟩)
    · exact ⟨id, o, ho, hf, hk⟩
    · exact ⟨id', o, ho, hf, hk⟩

/-- A node that fails or is skipped owes its outputs from then on. -/
theorem owes_set_failing (g : Graph) (outcomes : Dict String Outcome) (id : String) {o : Outcome}
    (ho : o.status.failing = true) (k : String) :
    Owes g (outcomes.set id o) k ↔ Owes g outcomes k ∨ k ∈ outputsOf g id := by
  rw [owes_set, owes_iff_beside g outcomes id k]
  constructor
  · rintro (⟨-, hk⟩ | hb)
    · exact .inr hk
    · exact .inl (.inr hb)
  · rintro ((⟨_, -, -, hk⟩ | hb) | hk)
    · exact .inl ⟨ho, hk⟩
    · exact .inr hb
    · exact .inl ⟨ho, hk⟩

/-- The keys of the live table are those the records owe. -/
def TableAgrees (g : Graph) (s : EngineState) : Prop :=
  ∀ k, k ∈ s.failedOutputs.keys ↔ Owes g s.nodeOutcomes k

theorem tableAgrees_empty {g : Graph} {s : EngineState} (hn : s.nodeOutcomes = Dict.empty)
    (hf : s.failedOutputs = Dict.empty) : TableAgrees g s := by
  intro k
  rw [hn, hf, Dict.keys_empty]
  constructor
  · intro h
    exact absurd h List.not_mem_nil
  · rintro ⟨_, _, ho, -, -⟩
    cases ho

theorem TableAgrees.congr {g : Graph} {s s' : EngineState} (h : TableAgrees g s)
    (hn : s'.nodeOutcomes = s.nodeOutcomes) (hf : s'.failedOutputs = s.failedOutputs) :
    TableAgrees g s' := by
  intro k
  rw [hn, hf]
  exact h k

/-- What the completion of `id` with `o` must meet for the two tables to stay
the same: a skip by the handler itself owes no key the table lacks, and a node
that comes good owed no key alone. -/
structure TablesFollow (g : Graph) (s : EngineState) (id : String) (o : Outcome) : Prop where
  skipped : o.status = .skipped → ∀ k ∈ outputsOf g id, k ∈ s.failedOutputs.keys
  recovered : o.status.failing = false → ∀ old, s.nodeOutcomes.get? id = some old →
    old.status.failing = true → ∀ k ∈ outputsOf g id, OwedBeside g s.nodeOutcomes id k

/-- Two tables that owe the same keys. -/
def SameKeys (t t' : Dict String String) : Prop := ∀ k, k ∈ t.keys ↔ k ∈ t'.keys

section Steps

variable [Runtime]

omit [Runtime] in
theorem failedOutputs_completeNode (g : Graph) (s : EngineState) (node : Node) (o : Outcome) :
    (completeNode g s node o).failedOutputs =
      if o.status = .fail then populateFailedOutputs g node.id s.failedOutputs
      else s.failedOutputs := by
  simp only [completeNode]
  split <;> rfl

omit [Runtime] in
/-- After a completion the tables agree exactly if it met the condition. -/
theorem tableAgrees_executed {g : Graph} {w : Walk} (h : TableAgrees g w.engine)
    (context : PipelineContext) (armed : Bool) (o : Outcome) :
    TableAgrees g (w.executed g context armed o).engine ↔
      TablesFollow g w.engine w.currentNode.id o := by
  have hn : (w.executed g context armed o).engine.nodeOutcomes =
      w.engine.nodeOutcomes.set w.currentNode.id o := (executed_records w g context armed o).2
  have hf : (w.executed g context armed o).engine.failedOutputs =
      if o.status = .fail then populateFailedOutputs g w.currentNode.id w.engine.failedOutputs
      else w.engine.failedOutputs := failedOutputs_completeNode _ _ _ _
  unfold TableAgrees
  rw [hn, hf]
  cases hs : o.status with
  | fail =>
    have hfailing : o.status.failing = true := by rw [hs]; rfl
    rw [if_pos rfl]
    constructor
    · intro _
      exact ⟨fun hskip => (nomatch hs.symm.trans hskip),
        fun hok => (nomatch hok.symm.trans hfailing)⟩
    · intro _ k
      rw [mem_keys_populateFailedOutputs, h k, owes_set_failing _ _ _ hfailing]
  | skipped =>
    have hfailing : o.status.failing = true := by rw [hs]; rfl
    rw [if_neg (by simp)]
    constructor
    · intro hall
      refine ⟨fun _ k hk => ?_, fun hok => (nomatch hok.symm.trans hfailing)⟩
      exact (hall k).mpr ((owes_set_failing _ _ _ hfailing k).mpr (.inr hk))
    · intro hfollow k
      rw [owes_set_failing _ _ _ hfailing, ← h k]
      exact ⟨.inl, fun hk => hk.elim id (hfollow.skipped hs k)⟩
  | success | partialSuccess | retry =>
    have hok : o.status.failing = false := by rw [hs]; rfl
    rw [if_neg (by simp)]
    have hset : ∀ k, Owes g (w.engine.nodeOutcomes.set w.currentNode.id o) k ↔
        OwedBeside g w.engine.nodeOutcomes w.currentNode.id k := by
      intro k
      rw [owes_set, hok]
      simp
    constructor
    · intro hall
      refine ⟨fun hskip => (nomatch hs.symm.trans hskip), fun _ old hold hof k hk => ?_⟩
      exact (hset k).mp ((hall k).mp ((h k).mpr ⟨_, old, hold, hof, hk⟩))
    · intro hfollow k
      rw [hset, h k, owes_iff_beside g _ w.currentNode.id k]
      constructor
      · rintro (⟨old, hold, hof, hk⟩ | hb)
        · exact hfollow.recovered hok old hold hof k hk
        · exact hb
      · exact .inr

omit [Runtime] in
theorem tableAgrees_skipped {g : Graph} {w : Walk} (h : TableAgrees g w.engine) {o : Outcome}
    (ho : o.status = .skipped) : TableAgrees g (w.skipped g o).engine := by
  intro k
  have hfailing : o.status.failing = true := by rw [ho]; rfl
  have hkeys := mem_keys_populateFailedOutputs g w.currentNode.id w.engine.failedOutputs k
  rw [h k, ← owes_set_failing g w.engine.nodeOutcomes w.currentNode.id hfailing k] at hkeys
  exact hkeys

theorem Moved.tableAgrees {g : Graph} {w w' : Walk} {m : Move} (hm : Moved g w m w')
    (h : TableAgrees g w.engine) : TableAgrees g w'.engine := by
  rcases hm.records with ⟨-, hn, hf⟩ | ⟨-, hn, hf⟩
  · exact h.congr hn hf
  · exact tableAgrees_empty hn hf

omit [Runtime] in
theorem owes_restored (g : Graph) (w : Walk) (r : Resumption) (node : Node) (k : String) :
    Owes g (w.restored g r node).engine.nodeOutcomes k ↔ Owes g w.engine.nodeOutcomes k := by
  constructor
  · rintro ⟨id, o, ho, hf, hk⟩
    rw [get?_restored, Option.map_eq_some_iff] at ho
    obtain ⟨o', ho', rfl⟩ := ho
    exact ⟨id, o', ho', hf, hk⟩
  · rintro ⟨id, o, ho, hf, hk⟩
    refine ⟨id, o.restored, ?_, hf, hk⟩
    rw [get?_restored, ho]
    rfl

omit [Runtime] in
/-- A resume starts with the table its records owe. -/
theorem tableAgrees_restored (g : Graph) (w : Walk) (r : Resumption) (node : Node) :
    TableAgrees g (w.restored g r node).engine :=
  mem_keys_deriveFailedOutputs g _

omit [Runtime] in
theorem sameKeys_restored_iff (g : Graph) (w : Walk) (r : Resumption) (node : Node) :
    SameKeys (w.restored g r node).engine.failedOutputs w.engine.failedOutputs ↔
      TableAgrees g w.engine := by
  have hderived : ∀ k, k ∈ (w.restored g r node).engine.failedOutputs.keys ↔
      Owes g w.engine.nodeOutcomes k := fun k =>
    (tableAgrees_restored g w r node k).trans (owes_restored g w r node k)
  exact ⟨fun h k => (h k).symm.trans (hderived k), fun h k => (hderived k).trans (h k).symm⟩

/-- The table agrees in every checkpoint of an iteration, and in the walk that
goes on, exactly if the completion met the condition. -/
theorem IterCase.tableAgrees {p : PipelineEngine} {tick : Tick} {w : Walk} {r : IterEnd}
    (h : IterCase p tick w r) (hw : TableAgrees p.graph w.engine) :
    ((∀ s, r.saved = some s → TableAgrees p.graph s.walk.engine) ↔
      ∀ id o, r.completion = some ⟨id, o, none⟩ → TablesFollow p.graph w.engine id o) ∧
    ((∀ s, r.saved = some s → TableAgrees p.graph s.walk.engine) →
      ∀ m w', r.next = .goto m w' → TableAgrees p.graph w'.engine) := by
  cases h with
  | guarded hg ho =>
    exact ⟨⟨fun _ _ _ h => (nomatch h), fun _ _ h => (nomatch h)⟩, fun _ _ _ h => (nomatch h)⟩
  | exit hg hx =>
    refine ⟨⟨fun _ _ _ h => (nomatch h), fun _ s h => ?_⟩, fun _ m w' h => ?_⟩
    · cases h
      exact hw
    · exact (leaveExit_moved h).tableAgrees hw
  | hop hg hx ho =>
    refine ⟨⟨fun _ _ _ h => (nomatch h), fun _ _ h => (nomatch h)⟩, fun _ m w' h => ?_⟩
    exact (route_moved h).tableAgrees hw
  | @skip keys hg hx ho hk =>
    have hskipped := tableAgrees_skipped hw (o := skipOutcome w.currentNode keys) rfl
    refine ⟨⟨fun _ _ _ h => (nomatch h), fun _ s h => ?_⟩, fun _ m w' h => ?_⟩
    · cases h
      exact hskipped
    · exact (routeSkipped_moved h).tableAgrees hskipped
  | @execute context armed o hg hx ho hk hsw ha =>
    have hiff := tableAgrees_executed hw context armed o
    refine ⟨⟨fun hall id o' hc => ?_, fun hall s hs => ?_⟩, fun hall m w' hn => ?_⟩
    · cases hc
      exact hiff.mp (hall _ rfl)
    · cases hs
      exact hiff.mpr (hall _ _ rfl)
    · exact (route_moved hn).tableAgrees (hall _ rfl)
  | abort hg hx ho hk hu hs =>
    exact ⟨⟨fun _ _ _ h => (nomatch h), fun _ _ h => (nomatch h)⟩, fun _ _ _ h => (nomatch h)⟩

variable [JsonReader]

/-- Every resume from a checkpoint of this iteration derives the table the engine
had, and skips the nodes it would have skipped. -/
def Rederives (p : PipelineEngine) (w : Walk) (tick : Tick) : Prop :=
  ∀ saved, (iterate p tick w).saved = some saved →
    ∀ r path w', resume p.graph r path saved.doc = .ok w' →
      SameKeys w'.engine.failedOutputs saved.walk.engine.failedOutputs ∧
      ∀ ord ord' node, (checkNodeSkip ord node w'.engine.failedOutputs).isSome =
        (checkNodeSkip ord' node saved.walk.engine.failedOutputs).isSome

/-- The completion of this iteration, if it executed a node, keeps the tables the
same. -/
def Follows (p : PipelineEngine) (w : Walk) (tick : Tick) : Prop :=
  ∀ id o, (iterate p tick w).completion = some ⟨id, o, none⟩ → TablesFollow p.graph w.engine id o

theorem rederives_iff {p : PipelineEngine} {w : Walk} {tick : Tick} (hw : Coherent p.graph w) :
    Rederives p w tick ↔
      ∀ s, (iterate p tick w).saved = some s → TableAgrees p.graph s.walk.engine := by
  have hsaved := ((iterate_case p tick w).coherent hw).1
  constructor
  · intro h s hs
    obtain ⟨hsnap, hcp⟩ := hsaved s hs
    have hres : resume p.graph {} "" s.doc = .ok (s.walk.restored p.graph {} w.currentNode) := by
      rw [Written.doc, hcp]
      exact resume_saveCheckpoint hsnap.member {} "" tick.timestamp s.walk
    exact (sameKeys_restored_iff _ _ _ _).mp (h s hs {} "" _ hres).1
  · intro h s hs r path w' hres
    obtain ⟨hsnap, hcp⟩ := hsaved s hs
    rw [Written.doc, hcp, resume_saveCheckpoint hsnap.member, Except.ok.injEq] at hres
    subst hres
    have hsame := (sameKeys_restored_iff p.graph s.walk r w.currentNode).mpr (h s hs)
    exact ⟨hsame, fun ord ord' node => checkNodeSkip_isSome_congr ord ord' node hsame⟩

/-- A property of the iterations in a history. -/
def Event.Meets (P : Walk → Tick → Prop) : Event → Prop
  | .iterated w tick => P w tick
  | .resumed _ => True

omit [Runtime] [JsonReader] in
theorem forall_meets_iff {P : Walk → Tick → Prop} {h : List Event} :
    (∀ e ∈ h, Event.Meets P e) ↔ ∀ w tick, .iterated w tick ∈ h → P w tick := by
  constructor
  · exact fun hall w tick he => hall _ he
  · intro hall e he
    cases e with
    | iterated w tick => exact hall w tick he
    | resumed w => exact trivial

/-- As long as every checkpoint gives its table back, the tables agree. -/
theorem tables_guarded (p : PipelineEngine) :
    Recovery.Guarded (engineSystem p) (Event.Meets (Rederives p))
      (fun w => Coherent p.graph w ∧ TableAgrees p.graph w.engine) (CoherentDoc p.graph) where
  fresh := by
    rintro w ⟨goal, c, h⟩
    refine ⟨coherent_start h, ?_⟩
    obtain ⟨n, -, rfl⟩ := start_ok h
    exact tableAgrees_empty rfl rfl
  next := by
    rintro w e d w' ⟨hco, hw⟩ hs hgood
    refine ⟨(coherent_invariant p).next hco hs, ?_⟩
    obtain ⟨tick, rfl, -, hnext⟩ := hs
    obtain ⟨m, hm⟩ := Next.walk?_eq_some hnext.symm
    exact ((iterate_case p tick w).tableAgrees hw).2 ((rederives_iff hco).mp hgood) m w' hm
  write := by
    rintro w e d s ⟨hco, -⟩ hs -
    exact (coherent_invariant p).write hco hs
  restart := by
    rintro d e w ⟨w₁, node, timestamp, hsnap, rfl⟩ hr -
    obtain ⟨-, r, rfl⟩ := resumes_of_snapshot hsnap hr
    exact ⟨hsnap.coherent_restored r, tableAgrees_restored p.graph w₁ r node⟩

/-- In a run every checkpoint gives its failed table back exactly if every
completion keeps the two tables the same. -/
theorem failed_outputs_rederived_iff {p : PipelineEngine} {h : List Event} {docs : List Value}
    {o : Option Walk} (run : Runs p h docs o) :
    (∀ w tick, .iterated w tick ∈ h → Rederives p w tick) ↔
      ∀ w tick, .iterated w tick ∈ h → Follows p w tick := by
  rw [← forall_meets_iff, ← forall_meets_iff]
  refine (tables_guarded p).forall_iff ?_ ?_ run
  · rintro w e d s ⟨hco, hw⟩ ⟨tick, rfl, -, -⟩
    exact (rederives_iff hco).trans ((iterate_case p tick w).tableAgrees hw).1
  · rintro d e w - ⟨r, path, -, rfl⟩
    exact Iff.rfl

end Steps

section Demo

open Py.Ascii

/-- Three tool nodes in a row; the last one reads the output of a tool. -/
def toolPipeline : PipelineEngine where
  graph := Graph.ofNodes
    [{ id := "begin", shape := "Mdiamond" }, { id := "fetch", shape := "parallelogram" },
      { id := "mirror", shape := "parallelogram" },
      { id := "report", prompt := "Summarise $tool.output" }, { id := "done", shape := "Msquare" }]
    [{ fromNode := "begin", toNode := "fetch" }, { fromNode := "fetch", toNode := "mirror" },
      { fromNode := "mirror", toNode := "report" }, { fromNode := "report", toNode := "done" }]
  logsRoot := "/logs"
  handlerRegistry := ⟨standardHandlers⟩

def toolStart : Walk where
  engine := { context := initializeContext toolPipeline.graph none 0 {} }
  currentNode := { id := "begin", shape := "Mdiamond" }

theorem toolStart_runs : Runs toolPipeline [] [] (some toolStart) :=
  Recovery.Run.fresh ⟨none, {}, rfl⟩

def endsWith (status : StageStatus) : Tick := Tick.ending (.returned { status := status })

/-- The keys of the live table and of the derived one, in the checkpoint of an
iteration. -/
def tableKeys (r : IterEnd) : Option (List String × List String) :=
  r.saved.map fun s => (s.walk.engine.failedOutputs.keys,
    (deriveFailedOutputs toolPipeline.graph s.walk.engine.nodeOutcomes).keys)

/-- Which node completed in an iteration, and how. -/
def completed (r : IterEnd) : Option (String × StageStatus) :=
  r.completion.map fun c => (c.nodeId, c.outcome.status)

theorem failed_outputs_rederived_begin : ∃ docs w,
    Runs toolPipeline [.iterated toolStart (endsWith .success)] docs (some w) ∧
      Rederives toolPipeline toolStart (endsWith .success) := by
  obtain ⟨w, hw⟩ : ∃ w, (iterate toolPipeline (endsWith .success) toolStart).next.walk? = some w :=
    Option.isSome_iff_exists.mp (by decide +kernel)
  have run : Runs toolPipeline [.iterated toolStart (endsWith .success)] _ (some w) :=
    Recovery.Run.step toolStart_runs ⟨endsWith .success, rfl, rfl, hw.symm⟩
  have hdone : completed (iterate toolPipeline (endsWith .success) toolStart) =
      some ("begin", .success) := by decide +kernel
  refine ⟨_, w, run, (failed_outputs_rederived_iff run).mpr (fun w' tick he id o hc => ?_) _ _
    List.mem_cons_self⟩
  cases List.mem_singleton.mp he
  rw [completed, hc, Option.map_some, Option.some.injEq, Prod.mk.injEq] at hdone
  exact ⟨fun hskip => (nomatch hdone.2.symm.trans hskip), fun _ old hold => (nomatch hold)⟩

/-- A tool node that skips itself: the live table stays empty, the derived one
has its keys. -/
theorem self_skip_not_rederived : ∃ h docs w, Runs toolPipeline h docs (some w) ∧
    ¬ Rederives toolPipeline w (endsWith .skipped) := by
  obtain ⟨w, hw⟩ : ∃ w, walkAfter toolPipeline [endsWith .success] toolStart = some w :=
    Option.isSome_iff_exists.mp (by decide +kernel)
  have hkeys : (walkAfter toolPipeline [endsWith .success] toolStart).map (fun w =>
      tableKeys (iterate toolPipeline (endsWith .skipped) w)) =
        some (some ([], ["tool.output", "tool.last_line"])) := by decide +kernel
  rw [hw, Option.map_some, Option.some.injEq] at hkeys
  obtain ⟨docs, run⟩ := toolStart_runs.after hw
  refine ⟨_, docs, w, run, fun h => ?_⟩
  obtain ⟨saved, hsaved, hpair⟩ := Option.map_eq_some_iff.mp hkeys
  rw [Prod.mk.injEq] at hpair
  have hagrees := (rederives_iff run.coherent).mp h saved hsaved "tool.output"
  rw [← mem_keys_deriveFailedOutputs, hpair.1, hpair.2] at hagrees
  exact absurd (hagrees.mpr (by decide +kernel)) List.not_mem_nil

end Demo

end DotRunner
