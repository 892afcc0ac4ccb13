import DotRunner.Engine.Coherence

/-!
# The ledger of a run

What a history says about the records of the engine: the completions since the
last reset, and those the newest checkpoint holds.
-/

namespace DotRunner

open Py

/-- The part of an outcome the goal gates and the failed table are decided by. -/
def Outcome.verdict (o : Outcome) : StageStatus × Bool := (o.status, o.isExplicit)

/-- The outcome of the last completion of a node. -/
def latest (l : List Completion) (id : String) : Option Outcome :=
  (l.reverse.find? fun c => c.nodeId == id).map Completion.outcome

@[simp] theorem latest_nil (id : String) : latest [] id = none := rfl

theorem latest_concat (l : List Completion) (c : Completion) (id : String) :
    latest (l ++ [c]) id = if c.nodeId = id then some c.outcome else latest l id := by
  rw [latest, List.reverse_append, List.reverse_singleton, List.singleton_append]
  by_cases h : c.nodeId = id
  · rw [List.find?_cons_of_pos (by simpa using h), if_pos h, Option.map_some]
  · rw [List.find?_cons_of_neg (by simpa using h), if_neg h]
    rfl

structure Ledger where
  current : List Completion := []
  saved : List Completion := []

/-- The records of the engine are those the completions make. -/
structure Describes (l : List Completion) (s : EngineState) : Prop where
  completed : s.completedNodes = l.map Completion.nodeId
  verdicts : ∀ id, (s.nodeOutcomes.get? id).map Outcome.verdict = (latest l id).map Outcome.verdict

theorem describes_empty {s : EngineState} (hc : s.completedNodes = [])
    (hn : s.nodeOutcomes = Dict.empty) : Describes [] s := by
  refine ⟨hc, fun id => ?_⟩
  rw [hn]
  rfl

/-- One more completion, recorded and entered. -/
theorem Describes.concat {l : List Completion} {s s' : EngineState} (h : Describes l s)
    {c : Completion} (hc : s'.completedNodes = s.completedNodes ++ [c.nodeId])
    (hn : s'.nodeOutcomes = s.nodeOutcomes.set c.nodeId c.outcome) : Describes (l ++ [c]) s' := by
  refine ⟨?_, fun id => ?_⟩
  · rw [hc, h.completed, List.map_append]
    rfl
  · rw [hn, Dict.get?_set, latest_concat]
    by_cases he : c.nodeId = id
    · rw [if_pos he, if_pos he]
    · rw [if_neg he, if_neg he]
      exact h.verdicts id

theorem Describes.congr {l : List Completion} {s s' : EngineState} (h : Describes l s)
    (hc : s'.completedNodes = s.completedNodes) (hn : s'.nodeOutcomes = s.nodeOutcomes) :
    Describes l s' := by
  refine ⟨hc.trans h.completed, fun id => ?_⟩
  rw [hn]
  exact h.verdicts id

variable [Runtime]

/-- Does the move reset the records of the run? -/
def Move.resets : Move → Bool
  | .edge e => e.restarts
  | .failureRetry _ => true
  | .gateRetry _ => true
  | .fanIn _ => false
  | .skipEdge _ => false
  | .skipRetry _ => false

def Next.resets : Next → Bool
  | .goto m _ => m.resets
  | .halt _ _ => false

theorem Moved.records_of_resets {g : Graph} {w w' : Walk} {m : Move} (h : Moved g w m w')
    (hr : m.resets = true) :
    w'.engine.completedNodes = [] ∧ w'.engine.nodeOutcomes = Dict.empty ∧
      w'.engine.failedOutputs = Dict.empty := by
  cases h with
  | edge hn he =>
    rw [Move.resets, he] at hr
    cases hr
  | restart hn he => exact ⟨rfl, rfl, rfl⟩
  | failureRetry hn hb => exact ⟨rfl, rfl, rfl⟩
  | gateRetry hn hb => exact ⟨rfl, rfl, rfl⟩
  | fanIn hn => cases hr
  | skipEdge hn => cases hr
  | skipRetry hn hb => cases hr

theorem Moved.records_of_not_resets {g : Graph} {w w' : Walk} {m : Move} (h : Moved g w m w')
    (hr : m.resets = false) :
    w'.engine.completedNodes = w.engine.completedNodes ∧
      w'.engine.nodeOutcomes = w.engine.nodeOutcomes ∧
      w'.engine.failedOutputs = w.engine.failedOutputs := by
  cases h with
  | edge hn he => exact ⟨rfl, rfl, rfl⟩
  | restart hn he =>
    rw [Move.resets, he] at hr
    cases hr
  | failureRetry hn hb => cases hr
  | gateRetry hn hb => cases hr
  | fanIn hn => exact ⟨rfl, rfl, rfl⟩
  | skipEdge hn => exact ⟨rfl, rfl, rfl⟩
  | skipRetry hn hb => exact ⟨rfl, rfl, rfl⟩

/-- A move leaves the records its ledger says it leaves. -/
theorem Moved.describes {g : Graph} {w w' : Walk} {m : Move} (h : Moved g w m w')
    {l : List Completion} (hd : Describes l w.engine) :
    Describes (if m.resets then [] else l) w'.engine := by
  cases hr : m.resets with
  | true =>
    obtain ⟨hc, hn, -⟩ := h.records_of_resets hr
    exact describes_empty hc hn
  | false =>
    obtain ⟨hc, hn, -⟩ := h.records_of_not_resets hr
    exact hd.congr hc hn

omit [Runtime] in
/-- A resume restores what the ledger says the checkpoint holds. -/
theorem Describes.restored {l : List Completion} {w : Walk} (h : Describes l w.engine) (g : Graph)
    (r : Resumption) (node : Node) : Describes l (w.restored g r node).engine := by
  refine ⟨h.completed, fun id => ?_⟩
  rw [get?_restored, Option.map_map]
  exact h.verdicts id

/-- The checkpoint of an iteration holds its completion, and so does the walk
that goes on unless it is reset. -/
theorem IterCase.describes {p : PipelineEngine} {tick : Tick} {w : Walk} {r : IterEnd}
    (h : IterCase p tick w r) {l : List Completion} (hd : Describes l w.engine) :
    (∀ s, r.saved = some s → Describes (l ++ r.completion.toList) s.walk.engine) ∧
      ∀ m w', r.next = .goto m w' →
        Describes (if m.resets then [] else l ++ r.completion.toList) w'.engine := by
  cases h with
  | guarded hg ho => exact ⟨fun _ h => (nomatch h), fun _ _ h => (nomatch h)⟩
  | exit hg hx =>
    have hsame : Describes (l ++ []) w.engine := by
      rw [List.append_nil]
      exact hd
    refine ⟨fun s hs => ?_, fun m w' hn => ?_⟩
    · cases hs
      exact hsame
    · exact (leaveExit_moved hn).describes (hsame.congr rfl rfl)
  | hop hg hx ho =>
    refine ⟨fun _ h => (nomatch h), fun m w' hn => ?_⟩
    have hsame : Describes (l ++ []) w.engine := by
      rw [List.append_nil]
      exact hd
    exact (route_moved hn).describes (hsame.congr rfl rfl)
  | @skip keys hg hx ho hk =>
    have hdone : Describes
        (l ++ [⟨w.currentNode.id, skipOutcome w.currentNode keys, some keys⟩])
        (w.skipped p.graph (skipOutcome w.currentNode keys)).engine := hd.concat rfl rfl
    refine ⟨fun s hs => ?_, fun m w' hn => ?_⟩
    · cases hs
      exact hdone
    · exact (routeSkipped_moved hn).describes (hdone.congr rfl rfl)
  | @execute context armed o hg hx ho hk hsw ha =>
    obtain ⟨hc, hn⟩ := executed_records w p.graph context armed o
    have hdone := hd.concat (c := ⟨w.currentNode.id, o, none⟩) hc hn
    refine ⟨fun s hs => ?_, fun m w' hgo => ?_⟩
    · cases hs
      exact hdone
    · exact (route_moved hgo).describes (hdone.congr rfl rfl)
  | abort hg hx ho hk hu hs => exact ⟨fun _ h => (nomatch h), fun _ _ h => (nomatch h)⟩

/-- What is recorded is written to the file. -/
theorem IterCase.completion_of_saved_none {p : PipelineEngine} {tick : Tick} {w : Walk}
    {r : IterEnd} (h : IterCase p tick w r) (hs : r.saved = none) : r.completion = none := by
  cases h with
  | guarded hg ho => rfl
  | exit hg hx => cases hs
  | hop hg hx ho => rfl
  | skip hg hx ho hk => cases hs
  | execute hg hx ho hk hsw ha => cases hs
  | abort hg hx ho hk hu ha => rfl

variable [JsonReader]

/-- One event, entered. -/
def Ledger.after (p : PipelineEngine) (l : Ledger) : Event → Ledger
  | .iterated w tick =>
    let r := iterate p tick w
    let done := l.current ++ r.completion.toList
    { current := if r.next.resets then [] else done
      saved := if r.saved.isSome then done else l.saved }
  | .resumed _ => { l with current := l.saved }

def ledger (p : PipelineEngine) (h : List Event) : Ledger := h.foldl (Ledger.after p) {}

theorem ledger_concat (p : PipelineEngine) (h : List Event) (e : Event) :
    ledger p (h ++ [e]) = (ledger p h).after p e := by
  rw [ledger, List.foldl_append]
  rfl

/-- A document that holds the completions `l`. -/
def Holds (g : Graph) (l : List Completion) (doc : Value) : Prop :=
  ∃ w node timestamp, Snapshot g w node ∧ Describes l w.engine ∧
    doc = saveCheckpoint (checkpointOf g w node.id timestamp)

/-- In every run the ledger describes the engine, and the newest document. -/
theorem ledger_traced (p : PipelineEngine) :
    Recovery.Traced (engineSystem p)
      (fun h w => Coherent p.graph w ∧ Describes (ledger p h).current w.engine)
      (fun h d => Holds p.graph (ledger p h).saved d) where
  fresh := by
    rintro w ⟨goal, c, h⟩
    refine ⟨coherent_start h, ?_⟩
    obtain ⟨n, -, rfl⟩ := start_ok h
    exact describes_empty rfl rfl
  next := by
    rintro h w e d w' ⟨hco, hdesc⟩ ⟨tick, rfl, -, hs⟩
    obtain ⟨m, hm⟩ := Next.walk?_eq_some hs.symm
    have hcase := iterate_case p tick w
    refine ⟨(hcase.coherent hco).2 m w' hm, ?_⟩
    have hnext := (hcase.describes hdesc).2 m w' hm
    rw [ledger_concat, Ledger.after, hm]
    exact hnext
  write := by
    rintro h w e d s ⟨hco, hdesc⟩ ⟨tick, rfl, hd, -⟩
    obtain ⟨saved, hsaved, rfl⟩ := Option.map_eq_some_iff.mp hd.symm
    have hcase := iterate_case p tick w
    obtain ⟨hsnap, hcp⟩ := (hcase.coherent hco).1 saved hsaved
    refine ⟨saved.walk, w.currentNode, tick.timestamp, hsnap, ?_, congrArg saveCheckpoint hcp⟩
    have hsave := (hcase.describes hdesc).1 saved hsaved
    rw [ledger_concat, Ledger.after, hsaved]
    exact hsave
  keep := by
    rintro h w e s d - ⟨tick, rfl, hd, -⟩ hJ
    have hnone : (iterate p tick w).saved = none := Option.map_eq_none_iff.mp hd.symm
    rw [ledger_concat, Ledger.after, hnone]
    exact hJ
  restart := by
    rintro h d e w ⟨w₁, node, timestamp, hsnap, hdesc, rfl⟩ hr
    obtain ⟨rfl, r, rfl⟩ := resumes_of_snapshot hsnap hr
    rw [ledger_concat]
    exact ⟨⟨hsnap.coherent_restored r, hdesc.restored p.graph r node⟩,
      w₁, node, timestamp, hsnap, hdesc, rfl⟩

theorem Runs.describes {p : PipelineEngine} {h : List Event} {docs : List Value} {w : Walk}
    (run : Runs p h docs (some w)) : Describes (ledger p h).current w.engine :=
  (((ledger_traced p).run run).2 w rfl).2

end DotRunner
