import DotRunner.Engine.Accepted
import DotRunner.Py.Ascii

/-!
# Calls of `run` and `resume`

The calls made in one run directory, one process after the other, each of them
begun afresh or through the ladder, killed, raising or returning.  A call whose
walk came to an outcome flips the checkpoint it holds in memory and returns.
-/

namespace DotRunner

open Py

section Calls

variable [Runtime]

inductive Position where
  | walking (w : Walk)
  | ended (o : Outcome) (s : EngineState)

/-- A process, and the document it found in the file when it began. -/
structure RunCall where
  found : Option Value
  position : Position

def Position.engine : Position → EngineState
  | .walking w => w.engine
  | .ended _ s => s

inductive CallEvent where
  | iterated (w : Walk) (tick : Tick)
  | began (w : Walk)
  | resumed (w : Walk)
  | returned (o : Outcome) (c : RunCall)

variable [JsonReader]

/-- Where an iteration leaves the process; an exception ends it. -/
def advance (p : PipelineEngine) (tick : Tick) (w : Walk) : Option Position :=
  match (iterate p tick w).next with
  | .goto _ w' => some (.walking w')
  | .halt (.returned o) s => some (.ended o s)
  | .halt (.raised _) _ => none

inductive CallStep (p : PipelineEngine) : RunCall → CallEvent → Option Value → Option RunCall → Prop
  | iterates {found : Option Value} {w : Walk} {tick : Tick} :
      CallStep p ⟨found, .walking w⟩ (.iterated w tick)
        ((iterate p tick w).saved.map Written.doc)
        ((advance p tick w).map fun position => ⟨found, position⟩)
  /-- the flip and the return: nothing of the program runs between them -/
  | returns {found : Option Value} {o : Outcome} {s : EngineState} :
      CallStep p ⟨found, .ended o s⟩ (.returned o ⟨found, .ended o s⟩)
        ((markRunCompleted s).map saveCheckpoint) none

/-- A call over a file that holds `doc`: a fresh run never reads it, a resume
takes it through the ladder. -/
inductive CallBegins (p : PipelineEngine) (doc : Value) : CallEvent → RunCall → Prop
  | run {goal : Option String} {c : PipelineContext} {w : Walk} (h : start p.graph goal c = .ok w) :
      CallBegins p doc (.began w) ⟨some doc, .walking w⟩
  | resume {r : Resumption} {path : String} {source : Option String} {cp : Checkpoint} {w : Walk}
      (hload : loadCheckpointForResume path (some (.value doc)) source = .ok cp)
      (hverify : verifyCheckpointStructure cp p.graph = .ok ())
      (hrestore : restore p.graph r cp = .ok w) :
      CallBegins p doc (.resumed w) ⟨some doc, .walking w⟩

def callSystem (p : PipelineEngine) : Recovery.System RunCall Value CallEvent where
  fresh c := ∃ goal context w, start p.graph goal context = .ok w ∧ c = ⟨none, .walking w⟩
  step := CallStep p
  restart := CallBegins p

/-- `CallRuns p h docs c`: by the history `h` of the run directory, the calls
have written `docs`, the newest first, and the last of them is `c` or over. -/
def CallRuns (p : PipelineEngine) : List CallEvent → List Value → Option RunCall → Prop :=
  Recovery.Run (callSystem p)

/-! ## The checkpoint in memory -/

omit [JsonReader] in
theorem Moved.lastCheckpoint {g : Graph} {w w' : Walk} {m : Move} (h : Moved g w m w') :
    w'.engine.lastCheckpoint = w.engine.lastCheckpoint := by
  cases h <;> rfl

omit [JsonReader] in
theorem route_lastCheckpoint (w : Walk) (g : Graph) (ord : SetOrder) (o : Outcome) :
    (w.route g ord o).engine.lastCheckpoint = w.engine.lastCheckpoint := by
  cases hr : w.route g ord o with
  | goto m w' => exact (route_moved hr).lastCheckpoint
  | halt h s =>
    rcases (route_halt hr).1 with rfl | rfl
    · rfl
    · rfl

omit [JsonReader] in
theorem routeSkipped_lastCheckpoint (w : Walk) (g : Graph) (o : Outcome) :
    (w.routeSkipped g o).engine.lastCheckpoint = w.engine.lastCheckpoint := by
  cases hr : w.routeSkipped g o with
  | goto m w' => exact (routeSkipped_moved hr).lastCheckpoint
  | halt h s =>
    obtain ⟨rfl, -⟩ := routeSkipped_halt hr
    rfl

omit [JsonReader] in
theorem leaveExit_lastCheckpoint (w : Walk) (g : Graph) :
    (w.leaveExit g).engine.lastCheckpoint = w.engine.lastCheckpoint := by
  cases hr : w.leaveExit g with
  | goto m w' => exact (leaveExit_moved hr).lastCheckpoint
  | halt h s =>
    obtain ⟨-, rfl⟩ := leaveExit_halt hr
    rfl

/-- The checkpoint an iteration leaves in memory: the one it wrote, or else the
one it found there. -/
def Remembers (w : Walk) (r : IterEnd) : Prop :=
  r.next.engine.lastCheckpoint = (r.saved.map Written.checkpoint).or w.engine.lastCheckpoint

omit [JsonReader] in
theorem finishNode_remembers (p : PipelineEngine) (tick : Tick) (w : Walk)
    (ended : NodeEnd × PipelineContext) : Remembers w (finishNode p tick w ended) := by
  unfold finishNode
  dsimp only
  split
  · rfl
  · rfl
  · rfl
  · split
    · rfl
    · split
      · rfl
      · split
        · rfl
        · show (Walk.route _ _ _ _).engine.lastCheckpoint = _
          rw [route_lastCheckpoint]
          rfl

theorem executeNode_remembers (p : PipelineEngine) (tick : Tick) (w : Walk) :
    Remembers w (executeNode p tick w) := by
  obtain ⟨context, armed, hs⟩ := degrade_eq p.graph w
  unfold executeNode executeNodeIn
  split
  · rfl
  · simp only [hs]
    split
    · rfl
    · rfl
    · exact finishNode_remembers p tick _ _

/-- An iteration remembers what it writes. -/
theorem iterate_remembers (p : PipelineEngine) (tick : Tick) (w : Walk) :
    Remembers w (iterate p tick w) := by
  rw [iterate_eq]
  split
  · rfl
  · rw [visit_eq]
    split
    · show (Walk.leaveExit _ _).engine.lastCheckpoint = _
      rw [leaveExit_lastCheckpoint]
      rfl
    · split
      · show (Walk.route _ _ _ _).engine.lastCheckpoint = _
        rw [route_lastCheckpoint]
        rfl
      · split
        · show (Walk.routeSkipped _ _ _).engine.lastCheckpoint = _
          rw [routeSkipped_lastCheckpoint]
          rfl
        · exact executeNode_remembers p tick _

/-! ## Documents -/

omit [JsonReader] in
theorem IterCase.taken {p : PipelineEngine} {tick : Tick} {w : Walk} {r : IterEnd}
    (h : IterCase p tick w r) {s : Written} (hs : r.saved = some s) : Taken p.graph s.checkpoint := by
  cases h with
  | guarded hg ho => cases hs
  | exit hg hx =>
    cases hs
    exact ⟨_, _, _, rfl⟩
  | hop hg hx ho => cases hs
  | skip hg hx ho hk =>
    cases hs
    exact ⟨_, _, _, rfl⟩
  | execute hg hx ho hk hw ha =>
    cases hs
    exact ⟨_, _, _, rfl⟩
  | abort hg hx ho hk hu hs' => cases hs

omit [JsonReader] in
/-- A killed run whose last checkpoint was taken of `w` can be resumed. -/
theorem Snapshot.begins {p : PipelineEngine} {w : Walk} {node : Node} (h : Snapshot p.graph w node)
    (hs : p.graph.dotSource ≠ "") (timestamp : String) (r : Resumption) :
    CallBegins p (saveCheckpoint (checkpointOf p.graph w node.id timestamp))
      (.resumed (w.restored p.graph r node))
      ⟨some (saveCheckpoint (checkpointOf p.graph w node.id timestamp)),
        .walking (w.restored p.graph r node)⟩ := by
  have ht : Taken p.graph (checkpointOf p.graph w node.id timestamp) := ⟨_, _, _, rfl⟩
  have hrestore : restore p.graph r (checkpointOf p.graph w node.id timestamp).viaJson =
      .ok (w.restored p.graph r node) := by
    have hresume := resume_saveCheckpoint h.member r "" timestamp w
    rw [resume, ht.load ""] at hresume
    exact hresume
  exact .resume (ht.accepted hs "") (h.verified timestamp) hrestore

/-! ## What every history leaves -/

/-- The last word of the file: what the claim of a finished run says of it. -/
structure Settled (h : List CallEvent) (docs : List Value) : Prop where
  returned : ∀ o c, h.getLast? = some (.returned o c) →
    ∀ doc, docs.head? = some doc → NotResumable doc
  inFlight : (∀ o c, .returned o c ∉ h) → ∀ doc, docs.head? = some doc → InFlight doc

/-- A call that returns has written a checkpoint of its own, or it began over no
checkpoint in flight. -/
def CallEvent.Marked : CallEvent → Prop
  | .returned _ c => c.position.engine.lastCheckpoint.isSome ∨
      ∀ doc, c.found = some doc → RunCompleted doc
  | _ => True

/-- Every document is the checkpoint of some walk, flipped only by a call that
returned. -/
def Documented (g : Graph) (h : List CallEvent) (doc : Value) : Prop :=
  ∃ cp, Taken g cp ∧ (doc = saveCheckpoint cp ∨
    doc = saveCheckpoint cp.completed ∧ ∃ o c, .returned o c ∈ h)

/-- The process holds in memory what it wrote last, or has written nothing and
left the file as it found it. -/
def HoldsLast (g : Graph) (docs : List Value) (c : RunCall) : Prop :=
  (c.position.engine.lastCheckpoint = none ∧ docs.head? = c.found) ∨
    ∃ cp, Taken g cp ∧ c.position.engine.lastCheckpoint = some cp ∧
      docs.head? = some (saveCheckpoint cp)

omit [JsonReader] in
theorem Documented.mono {g : Graph} {h : List CallEvent} {doc : Value} (hd : Documented g h doc)
    (e : CallEvent) : Documented g (h ++ [e]) doc := by
  obtain ⟨cp, ht, hdoc | ⟨hdoc, o, c, hmem⟩⟩ := hd
  · exact ⟨cp, ht, .inl hdoc⟩
  · exact ⟨cp, ht, .inr ⟨hdoc, o, c, List.mem_append_left _ hmem⟩⟩

omit [JsonReader] in
theorem start_lastCheckpoint {g : Graph} {goal : Option String} {c : PipelineContext} {w : Walk}
    (h : start g goal c = .ok w) : w.engine.lastCheckpoint = none := by
  obtain ⟨n, -, rfl⟩ := start_ok h
  rfl

omit [JsonReader] in
theorem restore_lastCheckpoint {g : Graph} {r : Resumption} {cp : Checkpoint} {w : Walk}
    (h : restore g r cp = .ok w) : w.engine.lastCheckpoint = none := by
  simp only [restore, bind, Except.bind, pure, Except.pure] at h
  repeat' split at h
  all_goals cases h
  rfl

/-- What an iteration leaves in memory is what its process goes on with. -/
theorem advance_remembers {p : PipelineEngine} {tick : Tick} {w : Walk} {position : Position}
    (h : advance p tick w = some position) : position.engine.lastCheckpoint =
      ((iterate p tick w).saved.map Written.checkpoint).or w.engine.lastCheckpoint := by
  have hengine : position.engine = (iterate p tick w).next.engine := by
    unfold advance at h
    cases hn : (iterate p tick w).next with
    | goto m w' =>
      rw [hn] at h
      cases h
      rfl
    | halt e s =>
      rw [hn] at h
      cases e with
      | returned o =>
        cases h
        rfl
      | raised e => cases h
  exact (congrArg EngineState.lastCheckpoint hengine).trans (iterate_remembers p tick w)

theorem HoldsLast.iterates {p : PipelineEngine} {docs : List Value} {found : Option Value} {w : Walk}
    (hold : HoldsLast p.graph docs ⟨found, .walking w⟩) (tick : Tick) {position : Position}
    (h : advance p tick w = some position) :
    HoldsLast p.graph (((iterate p tick w).saved.map Written.doc).toList ++ docs)
      ⟨found, position⟩ := by
  have hlast := advance_remembers h
  cases hs : (iterate p tick w).saved with
  | none =>
    rw [hs] at hlast
    show HoldsLast p.graph docs ⟨found, position⟩
    rcases hold with ⟨hnone, hfile⟩ | ⟨cp, ht, hcp, hfile⟩
    · exact .inl ⟨hlast.trans hnone, hfile⟩
    · exact .inr ⟨cp, ht, hlast.trans hcp, hfile⟩
  | some written =>
    rw [hs] at hlast
    exact .inr ⟨written.checkpoint, (iterate_case p tick w).taken hs, hlast, rfl⟩

/-- What the documents of a run directory are, and what its process holds. -/
theorem CallRuns.holds {p : PipelineEngine} {h : List CallEvent} {docs : List Value}
    {o : Option RunCall} (run : CallRuns p h docs o) :
    (∀ doc ∈ docs, Documented p.graph h doc) ∧ ∀ c, o = some c → HoldsLast p.graph docs c := by
  induction run with
  | fresh hf =>
    obtain ⟨goal, context, w, hstart, rfl⟩ := hf
    refine ⟨fun doc hd => absurd hd List.not_mem_nil, fun c hc => ?_⟩
    cases hc
    exact .inl ⟨start_lastCheckpoint hstart, rfl⟩
  | @step h docs c e d c' run hs ih =>
    obtain ⟨hdocs, hold⟩ := ih
    have hheld : HoldsLast p.graph docs c := hold c rfl
    have hkept : ∀ doc ∈ docs, Documented p.graph (h ++ [e]) doc := fun doc hd =>
      (hdocs doc hd).mono e
    cases hs with
    | @iterates found w tick =>
      refine ⟨fun doc hd => ?_, fun c hc => ?_⟩
      · rcases List.mem_append.mp hd with hnew | hold
        · obtain ⟨written, hw, rfl⟩ := Option.map_eq_some_iff.mp (Option.mem_toList.mp hnew)
          exact ⟨written.checkpoint, (iterate_case p tick w).taken hw, .inl rfl⟩
        · exact hkept doc hold
      · obtain ⟨position, hp, rfl⟩ := Option.map_eq_some_iff.mp hc
        exact hheld.iterates tick hp
    | @returns found o s =>
      refine ⟨fun doc hd => ?_, fun c hc => by cases hc⟩
      rcases List.mem_append.mp hd with hnew | hold
      · obtain ⟨cp, hcp, rfl⟩ := Option.map_eq_some_iff.mp (Option.mem_toList.mp hnew)
        obtain ⟨last, hlast, rfl⟩ := Option.map_eq_some_iff.mp hcp
        rcases hheld with ⟨hnone, -⟩ | ⟨cp, ht, hsome, -⟩
        · rw [show s.lastCheckpoint = none from hnone] at hlast
          cases hlast
        · rw [show s.lastCheckpoint = some cp from hsome] at hlast
          cases hlast
          exact ⟨_, ht, .inr ⟨rfl, o, _, List.mem_append_right _ List.mem_cons_self⟩⟩
      · exact hkept doc hold
  | @restart h docs c d e c' run hr ih =>
    refine ⟨fun doc hd => (ih.1 doc hd).mono e, fun c hc => ?_⟩
    cases hc
    cases hr with
    | run hstart => exact .inl ⟨start_lastCheckpoint hstart, rfl⟩
    | resume hload hverify hrestore => exact .inl ⟨restore_lastCheckpoint hrestore, rfl⟩

/-- What the last event of a history was, a return: where the process stood. -/
theorem CallRuns.of_returned {p : PipelineEngine} {h : List CallEvent} {docs : List Value}
    {oc : Option RunCall} (run : CallRuns p h docs oc) {o : Outcome} {c : RunCall}
    (hl : h.getLast? = some (.returned o c)) :
    ∃ h' docs' s, CallRuns p h' docs' (some c) ∧ c.position = .ended o s ∧
      docs = ((markRunCompleted s).map saveCheckpoint).toList ++ docs' := by
  cases run with
  | fresh hf => cases hl
  | @step h docs c' e d c'' run hs =>
    rw [List.getLast?_append_of_ne_nil _ (List.cons_ne_nil e [])] at hl
    cases hs with
    | iterates => cases hl
    | @returns found o' s =>
      cases hl
      exact ⟨h, docs, s, run, rfl, rfl⟩
  | @restart h docs c' d e c'' run hr =>
    rw [List.getLast?_append_of_ne_nil _ (List.cons_ne_nil e [])] at hl
    cases hr with
    | run hstart => cases hl
    | resume hload hverify hrestore => cases hl

omit [JsonReader] in
/-- A document that says completed was flipped. -/
theorem Documented.notResumable {g : Graph} {h : List CallEvent} {doc : Value}
    (hd : Documented g h doc) (hc : RunCompleted doc) : NotResumable doc := by
  obtain ⟨cp, ht, rfl | ⟨rfl, -⟩⟩ := hd
  · have hflight : InFlight (saveCheckpoint cp) := ht.inFlight
    rw [InFlight, hc, Option.some.injEq, Value.str.injEq] at hflight
    exact absurd hflight (by decide)
  · exact ht.notResumable

theorem CallRuns.inFlight {p : PipelineEngine} {h : List CallEvent} {docs : List Value}
    {o : Option RunCall} (run : CallRuns p h docs o) (hnone : ∀ o c, .returned o c ∉ h) :
    ∀ doc, docs.head? = some doc → InFlight doc := by
  intro doc hd
  obtain ⟨cp, ht, rfl | ⟨-, o, c, hmem⟩⟩ := run.holds.1 doc (List.mem_of_mem_head? hd)
  · exact ht.inFlight
  · exact absurd hmem (hnone o c)

/-- The file of a directory is settled after every return that leaves its mark,
and after no other. -/
theorem finished_run_settled {p : PipelineEngine} {h : List CallEvent} {docs : List Value}
    {oc : Option RunCall} (run : CallRuns p h docs oc) :
    Settled h docs ↔ ∀ e, h.getLast? = some e → e.Marked := by
  constructor
  · intro settled e he
    cases e with
    | returned o c =>
      obtain ⟨h', docs', s, hrun, hpos, rfl⟩ := run.of_returned he
      rcases hrun.holds.2 c rfl with ⟨hnone, hfile⟩ | ⟨cp, -, hcp, -⟩
      · refine .inr fun doc hd => (settled.returned o c he doc ?_).completed
        rw [hpos] at hnone
        rw [markRunCompleted, show s.lastCheckpoint = none from hnone]
        exact hfile.trans hd
      · exact .inl (by rw [hcp]; rfl)
    | _ => trivial
  · intro hmarked
    refine ⟨fun o c hl doc hd => ?_, run.inFlight⟩
    obtain ⟨h', docs', s, hrun, hpos, rfl⟩ := run.of_returned hl
    rcases hrun.holds.2 c rfl with ⟨hnone, hfile⟩ | ⟨cp, ht, hcp, -⟩
    · have hfound : docs'.head? = some doc := by
        rw [hpos] at hnone
        rw [markRunCompleted, show s.lastCheckpoint = none from hnone] at hd
        exact hd
      rcases hmarked _ hl with hown | hdone
      · rw [hnone] at hown
        cases hown
      · exact (hrun.holds.1 doc (List.mem_of_mem_head? hfound)).notResumable
          (hdone doc (hfile.symm.trans hfound))
    · rw [hpos] at hcp
      rw [markRunCompleted, show s.lastCheckpoint = some cp from hcp] at hd
      cases hd
      exact ht.notResumable

end Calls

section Demo

open Py.Ascii

/-- A pipeline whose start node leads nowhere. -/
def lonePipeline : PipelineEngine where
  graph := { Graph.ofNodes [{ id := "begin", shape := "Mdiamond" }] [] with
    dotSource := "digraph lone \x7b begin [shape=Mdiamond] \x7d" }
  logsRoot := "/logs"
  handlerRegistry := ⟨standardHandlers⟩

def loneStart : Walk where
  engine := { context := initializeContext lonePipeline.graph none 0 {} }
  currentNode := { id := "begin", shape := "Mdiamond" }

def loneTick : Tick := Tick.ending (.returned { status := .success })

theorem loneStart_calls : CallRuns lonePipeline [] [] (some ⟨none, .walking loneStart⟩) :=
  Recovery.Run.fresh ⟨none, {}, loneStart, rfl, rfl⟩

/-- The walk came to an outcome, with or without a checkpoint in memory. -/
def endsHolding (held : Bool) : Option Position → Bool
  | some (.ended _ s) => s.lastCheckpoint.isSome == held
  | _ => false

theorem exists_ended (held : Bool) (position : Option Position)
    (h : endsHolding held position = true) :
    ∃ o s, position = some (.ended o s) ∧ s.lastCheckpoint.isSome = held := by
  match position with
  | some (.ended o s) => exact ⟨o, s, rfl, eq_of_beq h⟩
  | some (.walking w) => cases h
  | none => cases h

/-- The process resumed from what the run wrote. -/
def loneResumed (written : Written) : Walk :=
  written.walk.restored lonePipeline.graph {} loneStart.currentNode

/-- The first call writes its checkpoint and comes to its outcome; the resume of
that checkpoint comes to its own without writing one. -/
theorem loneStart_ends : ∃ written o s o' s',
    (iterate lonePipeline loneTick loneStart).saved = some written ∧
    advance lonePipeline loneTick loneStart = some (.ended o s) ∧
    s.lastCheckpoint.isSome = true ∧
    (iterate lonePipeline loneTick (loneResumed written)).saved = none ∧
    advance lonePipeline loneTick (loneResumed written) = some (.ended o' s') ∧
    s'.lastCheckpoint.isSome = false := by
  obtain ⟨o, s, hended, hheld⟩ := exists_ended true
    (advance lonePipeline loneTick loneStart) (by decide +kernel)
  obtain ⟨written, hw⟩ : ∃ written, (iterate lonePipeline loneTick loneStart).saved = some written :=
    Option.isSome_iff_exists.mp (by decide +kernel)
  have hsaved : ((iterate lonePipeline loneTick loneStart).saved.all fun written =>
      (iterate lonePipeline loneTick (loneResumed written)).saved.isNone) = true := by
    decide +kernel
  have hhop : ((iterate lonePipeline loneTick loneStart).saved.all fun written =>
      endsHolding false (advance lonePipeline loneTick (loneResumed written))) = true := by
    decide +kernel
  rw [hw] at hsaved hhop
  obtain ⟨o', s', hended', hheld'⟩ := exists_ended _ _ hhop
  exact ⟨written, o, s, o', s', hw, hended, hheld, Option.isNone_iff_eq_none.mp hsaved, hended',
    hheld'⟩

theorem loneStart_ended : ∃ written o s, s.lastCheckpoint.isSome = true ∧
    CallRuns lonePipeline [.iterated loneStart loneTick] [Written.doc written]
      (some ⟨none, .ended o s⟩) := by
  obtain ⟨written, o, s, -, -, hw, hended, hheld, -⟩ := loneStart_ends
  have hstep : CallStep lonePipeline ⟨none, .walking loneStart⟩
      (.iterated loneStart loneTick) _ _ := .iterates
  rw [hw, hended] at hstep
  exact ⟨written, o, s, hheld, Recovery.Run.step loneStart_calls hstep⟩

/-- A run that returns after a checkpoint of its own. -/
theorem finished_run_settled_lone : ∃ h o c docs,
    CallRuns lonePipeline (h ++ [.returned o c]) docs none ∧ Settled (h ++ [.returned o c]) docs := by
  obtain ⟨written, o, s, hheld, run⟩ := loneStart_ended
  have hrun := Recovery.Run.step run (CallStep.returns (p := lonePipeline))
  refine ⟨_, o, _, _, hrun, (finished_run_settled hrun).mpr fun e he => ?_⟩
  cases he
  exact .inl hheld

/-- The run is killed between its checkpoint and its return, and the resume ends
at once: when it has returned, the file is still in flight. -/
theorem returned_run_in_flight : ∃ h docs, CallRuns lonePipeline h docs none ∧ ¬ Settled h docs := by
  have hcoherent : Coherent lonePipeline.graph loneStart :=
    Runs.coherent (Recovery.Run.fresh ⟨none, {}, rfl⟩)
  obtain ⟨written, o, s, o', s', hw, hended, -, hnone, hended', hheld⟩ := loneStart_ends
  obtain ⟨hsnap, hcp⟩ := ((iterate_case lonePipeline loneTick loneStart).coherent hcoherent).1 _ hw
  have hdoc : written.doc = saveCheckpoint (checkpointOf lonePipeline.graph written.walk
      loneStart.currentNode.id loneTick.timestamp) := congrArg saveCheckpoint hcp
  have run₁ : CallRuns lonePipeline [.iterated loneStart loneTick] [written.doc]
      (some ⟨none, .ended o s⟩) := by
    have hstep : CallStep lonePipeline ⟨none, .walking loneStart⟩
        (.iterated loneStart loneTick) _ _ := .iterates
    rw [hw, hended] at hstep
    exact Recovery.Run.step loneStart_calls hstep
  have run₂ : CallRuns lonePipeline [.iterated loneStart loneTick, .resumed (loneResumed written)]
      [written.doc] (some ⟨some written.doc, .walking (loneResumed written)⟩) := by
    have hbegins := hsnap.begins (p := lonePipeline) (by decide) loneTick.timestamp {}
    rw [← hdoc] at hbegins
    exact Recovery.Run.restart run₁ hbegins
  have run₃ : CallRuns lonePipeline [.iterated loneStart loneTick, .resumed (loneResumed written),
      .iterated (loneResumed written) loneTick] [written.doc]
      (some ⟨some written.doc, .ended o' s'⟩) := by
    have hstep : CallStep lonePipeline ⟨some written.doc, .walking (loneResumed written)⟩
        (.iterated (loneResumed written) loneTick) _ _ := .iterates
    rw [hnone, hended'] at hstep
    exact Recovery.Run.step run₂ hstep
  have run₄ := Recovery.Run.step run₃ (CallStep.returns (p := lonePipeline))
  have hlast : s'.lastCheckpoint = none := Option.not_isSome_iff_eq_none.mp (by rw [hheld]; decide)
  refine ⟨_, _, run₄, fun settled => ?_⟩
  have hfile : written.doc = saveCheckpoint written.checkpoint := rfl
  have hflight : InFlight written.doc := hfile ▸ ((iterate_case _ _ _).taken hw).inFlight
  have hdone := (settled.returned o' _ rfl written.doc (by rw [markRunCompleted, hlast]; rfl)).completed
  rw [RunCompleted, hflight, Option.some.injEq, Value.str.injEq] at hdone
  exact absurd hdone (by decide)

end Demo

end DotRunner
