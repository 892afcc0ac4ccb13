import DotRunner.Engine.Loop
import DotRunner.Recovery

/-!
# Runs

A run of an engine: started by `run`, killed and resumed any number of times,
each time from the newest checkpoint in the file.
-/

namespace DotRunner

open Py

variable [Runtime]

/-- Mirror the goal, the graph attributes and the loop counters into the
context. -/
def initializeContext (g : Graph) (goal : Option String) (iterationCount : Int)
    (c : PipelineContext) : PipelineContext :=
  let effectiveGoal := if truthyStr goal then goal.getD "" else g.goal
  let c := if effectiveGoal = "" then c else c.set "graph.goal" (.str effectiveGoal)
  let c := g.graphAttrs.entries.foldl (fun c p => c.set ("graph." ++ p.1) p.2) c
  (c.set "iteration" (.str (toString iterationCount))).set "loop_count"
    (.str (toString iterationCount))

def findStartNode (g : Graph) : Except PyExc Node :=
  match ((g.nodes.values.find? fun n => n.shape == "Mdiamond").or
      (g.nodes.values.find? fun n => n.type == "start")).or
      (g.nodes.values.find? fun n => Runtime.lower n.id == "start") with
  | some n => .ok n
  | none => .error (.valueError ("No start node found (no shape=Mdiamond, no type='start', " ++
      "and no id='start'/'Start')"))

/-- The walk a fresh `run` begins with. -/
def start (g : Graph) (goal : Option String) (c : PipelineContext) : Except PyExc Walk := do
  let node ← findStartNode g
  return { engine := { context := initializeContext g goal 0 c }, currentNode := node }

/-- Load the checkpoint and restore it: the walk a `resume` begins with. -/
def resume (g : Graph) (r : Resumption) (path : String) (doc : Value) : Except PyExc Walk := do
  let cp ← loadCheckpoint path doc
  restore g r cp

inductive Event where
  | iterated (w : Walk) (tick : Tick)
  | resumed (w : Walk)

variable [JsonReader]

/-- What the file holds after the write. -/
def Written.doc (s : Written) : Value := saveCheckpoint s.checkpoint

def Next.walk? : Next → Option Walk
  | .goto _ w => some w
  | .halt _ _ => none

/-- One iteration, as a step of a process with a checkpoint file. -/
def Iterates (p : PipelineEngine) (w : Walk) (e : Event) (doc : Option Value)
    (next : Option Walk) : Prop :=
  ∃ tick, e = .iterated w tick ∧ doc = (iterate p tick w).saved.map Written.doc ∧
    next = (iterate p tick w).next.walk?

omit [JsonReader] in
def Resumes (p : PipelineEngine) (doc : Value) (e : Event) (w : Walk) : Prop :=
  ∃ r path, resume p.graph r path doc = .ok w ∧ e = .resumed w

/-- An engine with its checkpoint file: fresh runs, iterations, kills and
resumes. -/
def engineSystem (p : PipelineEngine) : Recovery.System Walk Value Event where
  fresh w := ∃ goal c, start p.graph goal c = .ok w
  step := Iterates p
  restart := Resumes p

/-- `Runs p h docs w`: the engine has come to `w` by the history `h`, and has
written the documents `docs`, the newest first. -/
def Runs (p : PipelineEngine) : List Event → List Value → Option Walk → Prop :=
  Recovery.Run (engineSystem p)

omit [Runtime] [JsonReader] in
theorem Next.walk?_eq_some {n : Next} {w : Walk} (h : n.walk? = some w) : ∃ m, n = .goto m w := by
  cases n with
  | goto m w' =>
    cases h
    exact ⟨m, rfl⟩
  | halt _ _ => cases h

omit [JsonReader] in
theorem mem_values_of_findStartNode {g : Graph} {n : Node} (h : findStartNode g = .ok n) :
    n ∈ g.nodes.values := by
  unfold findStartNode at h
  split at h
  · rename_i m hm
    cases h
    simp only [Option.or_eq_some_iff] at hm
    rcases hm with (hm | ⟨-, hm⟩) | ⟨-, hm⟩ <;> exact List.mem_of_find?_eq_some hm
  · cases h

/-- Iterate once per tick, as long as the run goes on. -/
def walkAfter (p : PipelineEngine) : List Tick → Walk → Option Walk
  | [], w => some w
  | tick :: ticks, w => match (iterate p tick w).next with
    | .goto _ w' => walkAfter p ticks w'
    | .halt _ _ => none

theorem walkAfter_cons {p : PipelineEngine} {tick : Tick} {ticks : List Tick} {w w' : Walk} :
    walkAfter p (tick :: ticks) w = some w' ↔
      ∃ w₁, (iterate p tick w).next.walk? = some w₁ ∧ walkAfter p ticks w₁ = some w' := by
  rw [walkAfter]
  cases (iterate p tick w).next with
  | goto m w₁ => simp [Next.walk?]
  | halt h s => simp [Next.walk?]

/-- The history these iterations make. -/
def eventsAfter (p : PipelineEngine) : List Tick → Walk → List Event
  | [], _ => []
  | tick :: ticks, w => .iterated w tick :: match (iterate p tick w).next with
    | .goto _ w' => eventsAfter p ticks w'
    | .halt _ _ => []

theorem Runs.after {p : PipelineEngine} {ticks : List Tick} {h : List Event} {docs : List Value}
    {w w' : Walk} (run : Runs p h docs (some w)) (ha : walkAfter p ticks w = some w') :
    ∃ docs', Runs p (h ++ eventsAfter p ticks w) docs' (some w') := by
  induction ticks generalizing w h docs with
  | nil =>
    cases ha
    rw [eventsAfter, List.append_nil]
    exact ⟨docs, run⟩
  | cons tick ticks ih =>
    unfold walkAfter at ha
    split at ha
    · rename_i m w₁ hnext
      have hstep : (engineSystem p).step w (.iterated w tick)
          ((iterate p tick w).saved.map Written.doc) (some w₁) :=
        ⟨tick, rfl, rfl, by rw [hnext]; rfl⟩
      have hrest := ih (Recovery.Run.step run hstep) ha
      rw [List.append_assoc, List.singleton_append] at hrest
      rw [eventsAfter, hnext]
      exact hrest
    · cases ha

/-- The walk of an iteration in the history of a run is one the run came to. -/
theorem Runs.iterated {p : PipelineEngine} {h : List Event} {docs : List Value}
    {o : Option Walk} (run : Runs p h docs o) {w : Walk} {tick : Tick}
    (he : .iterated w tick ∈ h) : ∃ h' docs', Runs p h' docs' (some w) := by
  rcases Recovery.Run.mem run he with ⟨h', docs', s, d, s', hrun, hs⟩ | ⟨h', docs', d, o', s', -, hr⟩
  · obtain ⟨tick', heq, -, -⟩ := hs
    cases heq
    exact ⟨h', docs', hrun⟩
  · obtain ⟨r, path, -, heq⟩ := hr
    cases heq

omit [JsonReader] in
/-- A fresh walk stands at the start node with nothing done. -/
theorem start_ok {g : Graph} {goal : Option String} {c : PipelineContext} {w : Walk}
    (h : start g goal c = .ok w) : ∃ n, findStartNode g = .ok n ∧ w =
      { engine := { context := initializeContext g goal 0 c }, currentNode := n } := by
  simp only [start, bind, Except.bind] at h
  split at h
  · cases h
  · rename_i n hn
    cases h
    exact ⟨n, hn, rfl⟩

end DotRunner
