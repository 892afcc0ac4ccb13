import DotRunner.Engine.FailedOutputs
import DotRunner.Engine.Ledger

/-!
# Skips and the latest producer

A node is skipped for a key of the failed table.  When the table says about a key
what its latest producer did.
-/

namespace DotRunner

open Py

/-- The last completion of a node contracted to produce `k`. -/
def lastProducer (g : Graph) (l : List Completion) (k : String) : Option Completion :=
  l.reverse.find? fun c => (outputsOf g c.nodeId).contains k

theorem lastProducer_concat (g : Graph) (l : List Completion) (c : Completion) (k : String) :
    lastProducer g (l ++ [c]) k =
      if k ∈ outputsOf g c.nodeId then some c else lastProducer g l k := by
  rw [lastProducer, List.reverse_append, List.reverse_singleton, List.singleton_append]
  by_cases h : k ∈ outputsOf g c.nodeId
  · rw [List.find?_cons_of_pos (by simpa using h), if_pos h]
  · rw [List.find?_cons_of_neg (by simpa using h), if_neg h]
    rfl

/-- What came before a producer does not matter. -/
theorem lastProducer_append {g : Graph} (front : List Completion) {l : List Completion}
    {k : String} {c : Completion} (h : lastProducer g l k = some c) :
    lastProducer g (front ++ l) k = some c := by
  rw [lastProducer, List.reverse_append, List.find?_append]
  rw [lastProducer] at h
  rw [h, Option.some_or]

/-- The last producer of a list of node ids. -/
def lastProducerId (g : Graph) (ids : List String) (k : String) : Option String :=
  ids.reverse.find? fun id => (outputsOf g id).contains k

theorem lastProducer_map (g : Graph) (l : List Completion) (k : String) :
    lastProducerId g (l.map Completion.nodeId) k = (lastProducer g l k).map Completion.nodeId := by
  rw [lastProducerId, lastProducer, ← List.map_reverse, List.find?_map]
  rfl

/-- Of the completions of one node the last producer is the latest. -/
theorem latest_lastProducer {g : Graph} {l : List Completion} {k : String} {c : Completion}
    (h : lastProducer g l k = some c) : latest l c.nodeId = some c.outcome := by
  induction l using List.reverseRecOn with
  | nil => cases h
  | append_singleton l c' ih =>
    rw [lastProducer_concat] at h
    rw [latest_concat]
    by_cases hk : k ∈ outputsOf g c'.nodeId
    · rw [if_pos hk, Option.some.injEq] at h
      rw [h, if_pos rfl]
    · rw [if_neg hk] at h
      have hne : c'.nodeId ≠ c.nodeId := by
        intro heq
        have hfound := List.find?_some h
        rw [List.contains_iff_mem] at hfound
        exact hk (heq ▸ hfound)
      rw [if_neg hne]
      exact ih h

/-- The latest producer of the key did not succeed. -/
def ProducerFailed (g : Graph) (l : List Completion) (k : String) : Prop :=
  ∃ c, lastProducer g l k = some c ∧ c.outcome.status.failing = true

theorem ProducerFailed.concat_failing {g : Graph} {l : List Completion} {c : Completion}
    (hc : c.outcome.status.failing = true) {k : String}
    (h : ProducerFailed g l k ∨ k ∈ outputsOf g c.nodeId) : ProducerFailed g (l ++ [c]) k := by
  rw [ProducerFailed, lastProducer_concat]
  by_cases hk : k ∈ outputsOf g c.nodeId
  · rw [if_pos hk]
    exact ⟨c, rfl, hc⟩
  · rw [if_neg hk]
    exact h.resolve_right hk

theorem ProducerFailed.concat_other {g : Graph} {l : List Completion} {c : Completion}
    {k : String} (h : ProducerFailed g l k) (hk : k ∉ outputsOf g c.nodeId) :
    ProducerFailed g (l ++ [c]) k := by
  rw [ProducerFailed, lastProducer_concat, if_neg hk]
  exact h

section Runs

variable [Runtime] [JsonReader]

/-- The completions a history records, in order. -/
def completionsOf (p : PipelineEngine) (h : List Event) : List Completion :=
  h.flatMap fun e => match e with
    | .iterated w tick => (iterate p tick w).completion.toList
    | .resumed _ => []

theorem completionsOf_iterated (p : PipelineEngine) (h : List Event) (w : Walk) (tick : Tick) :
    completionsOf p (h ++ [.iterated w tick]) =
      completionsOf p h ++ (iterate p tick w).completion.toList := by
  rw [completionsOf, List.flatMap_append]
  simp only [List.flatMap_cons, List.flatMap_nil, List.append_nil]
  rfl

theorem completionsOf_resumed (p : PipelineEngine) (h : List Event) (w : Walk) :
    completionsOf p (h ++ [.resumed w]) = completionsOf p h := by
  rw [completionsOf, List.flatMap_append]
  simp only [List.flatMap_cons, List.flatMap_nil, List.append_nil]
  rfl

/-- The ledger holds the end of the history. -/
theorem ledger_suffix (p : PipelineEngine) (h : List Event) :
    (ledger p h).current <:+ completionsOf p h ∧ (ledger p h).saved <:+ completionsOf p h := by
  induction h using List.reverseRecOn with
  | nil => exact ⟨List.suffix_refl _, List.suffix_refl _⟩
  | append_singleton h e ih =>
    obtain ⟨hcurrent, hsaved⟩ := ih
    rw [ledger_concat]
    cases e with
    | resumed w =>
      rw [completionsOf_resumed]
      exact ⟨hsaved, hsaved⟩
    | iterated w tick =>
      rw [completionsOf_iterated]
      have hdone : (ledger p h).current ++ (iterate p tick w).completion.toList <:+
          completionsOf p h ++ (iterate p tick w).completion.toList := by
        obtain ⟨front, hfront⟩ := hcurrent
        exact ⟨front, by rw [← hfront, List.append_assoc]⟩
      refine ⟨?_, ?_⟩
      · simp only [Ledger.after]
        split
        · exact List.nil_suffix
        · exact hdone
      · simp only [Ledger.after]
        split
        · exact hdone
        · rename_i hnone
          have hcompletion : (iterate p tick w).completion = none :=
            (iterate_case p tick w).completion_of_saved_none (by simpa using hnone)
          rw [hcompletion, Option.toList_none, List.append_nil]
          exact hsaved

/-- The completion of this iteration, if it executed a node and did not fail,
owed no key of the failed table. -/
def OwesNothing (p : PipelineEngine) (w : Walk) (tick : Tick) : Prop :=
  ∀ id o, (iterate p tick w).completion = some ⟨id, o, none⟩ → o.status.failing = false →
    ∀ k ∈ outputsOf p.graph id, k ∉ w.engine.failedOutputs.keys

def owesNothing (p : PipelineEngine) (w : Walk) (tick : Tick) : Bool :=
  match (iterate p tick w).completion with
  | some ⟨id, o, none⟩ => o.status.failing ||
      (outputsOf p.graph id).all fun k => !w.engine.failedOutputs.contains k
  | _ => true

theorem owesNothing_iff {p : PipelineEngine} {w : Walk} {tick : Tick} :
    owesNothing p w tick = true ↔ OwesNothing p w tick := by
  unfold owesNothing OwesNothing
  split
  · rename_i id o hc
    rw [Bool.or_eq_true, List.all_eq_true]
    constructor
    · rintro hall id' o' heq hok k hk hmem
      cases hc.symm.trans heq
      rcases hall with hf | hnone
      · rw [hok] at hf
        cases hf
      · have hnot := hnone k hk
        rw [(Dict.contains_iff _).mpr hmem] at hnot
        cases hnot
    · intro hall
      cases hf : o.status.failing with
      | true => exact .inl rfl
      | false =>
        refine .inr fun k hk => ?_
        have hnot := hall id o hc hf k hk
        rw [← Dict.contains_iff] at hnot
        simpa using hnot
  · rename_i hne
    exact ⟨fun _ id o heq => absurd heq (hne id o), fun _ => rfl⟩

instance (p : PipelineEngine) (w : Walk) (tick : Tick) : Decidable (OwesNothing p w tick) :=
  decidable_of_iff _ owesNothing_iff

omit [Runtime] [JsonReader] in
/-- In the records a resume starts from, the last completed producer of every key
owed is itself recorded as failed or skipped. -/
def LatestOwes (g : Graph) (s : EngineState) : Prop :=
  ∀ k, Owes g s.nodeOutcomes k → ∃ id o, lastProducerId g s.completedNodes k = some id ∧
    s.nodeOutcomes.get? id = some o ∧ o.status.failing = true

/-- The events that keep the failed table sound. -/
def Event.Sound (p : PipelineEngine) : Event → Prop
  | .iterated w tick => OwesNothing p w tick
  | .resumed w => LatestOwes p.graph w.engine

/-- Every key of the table has a latest producer that did not succeed. -/
def SoundTable (p : PipelineEngine) (h : List Event) (w : Walk) : Prop :=
  ∀ k ∈ w.engine.failedOutputs.keys, ProducerFailed p.graph (completionsOf p h) k

omit [JsonReader] in
theorem Moved.sound {g : Graph} {w w' : Walk} {m : Move} (hm : Moved g w m w')
    {l : List Completion} (h : ∀ k ∈ w.engine.failedOutputs.keys, ProducerFailed g l k) :
    ∀ k ∈ w'.engine.failedOutputs.keys, ProducerFailed g l k := by
  intro k hk
  rcases hm.records with ⟨-, -, hf⟩ | ⟨-, -, hf⟩
  · rw [hf] at hk
    exact h k hk
  · rw [hf] at hk
    exact absurd hk List.not_mem_nil

omit [JsonReader] in
/-- One iteration keeps the table sound if its completion owed nothing. -/
theorem IterCase.sound {p : PipelineEngine} {tick : Tick} {w : Walk} {r : IterEnd}
    (h : IterCase p tick w r) {l : List Completion}
    (hw : ∀ k ∈ w.engine.failedOutputs.keys, ProducerFailed p.graph l k)
    (howes : ∀ id o, r.completion = some ⟨id, o, none⟩ → o.status.failing = false →
      ∀ k ∈ outputsOf p.graph id, k ∉ w.engine.failedOutputs.keys) :
    ∀ m w', r.next = .goto m w' → ∀ k ∈ w'.engine.failedOutputs.keys,
      ProducerFailed p.graph (l ++ r.completion.toList) k := by
  intro m w' hn
  cases h with
  | guarded hg ho => cases hn
  | exit hg hx =>
    rw [Option.toList_none, List.append_nil]
    exact (leaveExit_moved hn).sound hw
  | hop hg hx ho =>
    rw [Option.toList_none, List.append_nil]
    exact (route_moved hn).sound hw
  | @skip keys hg hx ho hk =>
    refine (routeSkipped_moved hn).sound fun k hmem => ?_
    have hgrown := (mem_keys_populateFailedOutputs p.graph w.currentNode.id
      w.engine.failedOutputs k).mp hmem
    exact ProducerFailed.concat_failing rfl (hgrown.imp_left (hw k))
  | @execute context armed o hg hx ho hk hsw ha =>
    refine (route_moved hn).sound fun k hmem => ?_
    have hgrown : k ∈ (completeNode p.graph (executing w context armed) w.currentNode
        o).failedOutputs.keys := hmem
    rw [failedOutputs_completeNode] at hgrown
    by_cases hfail : o.status = .fail
    · rw [if_pos hfail, mem_keys_populateFailedOutputs] at hgrown
      exact ProducerFailed.concat_failing (by simp [hfail, StageStatus.failing])
        (hgrown.imp_left (hw k))
    · rw [if_neg hfail] at hgrown
      cases hok : o.status.failing with
      | true => exact ProducerFailed.concat_failing hok (.inl (hw k hgrown))
      | false =>
        have hnot : k ∉ outputsOf p.graph w.currentNode.id := fun hk' =>
          howes _ o rfl hok k hk' hgrown
        exact ProducerFailed.concat_other (hw k hgrown) hnot
  | abort hg hx ho hk hu hs => cases hn

/-- A resume from records whose owed keys have failing last producers starts with
a sound table. -/
theorem sound_resumed {p : PipelineEngine} {h : List Event} {docs : List Value} {w : Walk}
    (run : Runs p (h ++ [.resumed w]) docs (some w)) (htable : TableAgrees p.graph w.engine)
    (hlatest : LatestOwes p.graph w.engine) : SoundTable p (h ++ [.resumed w]) w := by
  intro k hk
  obtain ⟨id, o, hid, ho, hf⟩ := hlatest k ((htable k).mp hk)
  have hdesc := run.describes
  rw [hdesc.completed, lastProducer_map, Option.map_eq_some_iff] at hid
  obtain ⟨c, hc, rfl⟩ := hid
  obtain ⟨front, hfront⟩ := (ledger_suffix p (h ++ [.resumed w])).1
  refine ⟨c, ?_, ?_⟩
  · rw [← hfront]
    exact lastProducer_append front hc
  · have hverdict := hdesc.verdicts c.nodeId
    rw [ho, latest_lastProducer hc, Option.map_some, Option.map_some, Option.some.injEq,
      Outcome.verdict, Outcome.verdict, Prod.mk.injEq] at hverdict
    rw [← hverdict.1]
    exact hf

/-- In a run of sound events every table is sound. -/
theorem Runs.soundTable {p : PipelineEngine} {h : List Event} {docs : List Value}
    {o : Option Walk} (run : Runs p h docs o) (hsound : ∀ e ∈ h, e.Sound p) :
    ∀ w, o = some w → SoundTable p h w := by
  induction run with
  | fresh hf =>
    intro w hw k hk
    cases hw
    obtain ⟨goal, c, hstart⟩ := hf
    obtain ⟨n, -, rfl⟩ := start_ok hstart
    exact absurd hk List.not_mem_nil
  | @step h docs w e d o' run hs ih =>
    intro w' hw'
    subst hw'
    obtain ⟨tick, rfl, -, hnext⟩ := hs
    obtain ⟨m, hm⟩ := Next.walk?_eq_some hnext.symm
    have hw := ih (fun e he => hsound e (List.mem_append_left _ he)) w rfl
    have howes : OwesNothing p w tick := hsound _ (List.mem_append_right _ List.mem_cons_self)
    unfold SoundTable
    rw [completionsOf_iterated]
    exact (iterate_case p tick w).sound hw howes m w' hm
  | @restart h docs o' d e w run hr ih =>
    intro w' hw'
    cases hw'
    have hfull : Runs p (h ++ [e]) (d :: docs) (some w) := Recovery.Run.restart run hr
    obtain ⟨w₁, node, timestamp, hsnap, rfl⟩ :=
      (Runs.coherentDoc run) d List.mem_cons_self
    obtain ⟨rfl, r, rfl⟩ := resumes_of_snapshot hsnap hr
    exact sound_resumed hfull (tableAgrees_restored p.graph w₁ r node)
      (hsound _ (List.mem_append_right _ List.mem_cons_self))

omit [JsonReader] in
/-- A skip reports exactly keys of the failed table. -/
theorem IterCase.mem_missingKeys {p : PipelineEngine} {tick : Tick} {w : Walk} {r : IterEnd}
    (h : IterCase p tick w r) {id : String} {o : Outcome} {keys : List String}
    (hc : r.completion = some ⟨id, o, some keys⟩) : ∀ k ∈ keys, k ∈ w.engine.failedOutputs.keys := by
  intro k hk
  cases h with
  | guarded hg ho => cases hc
  | exit hg hx => cases hc
  | hop hg hx ho => cases hc
  | @skip keys' hg hx ho hskip =>
    cases hc
    obtain ⟨rfl, -⟩ := checkNodeSkip_some hskip
    exact (mem_failedRefs.mp hk).2
  | execute hg hx ho hskip hsw ha => cases hc
  | abort hg hx ho hskip hu hs => cases hc

/-- Skip soundness.  Where no node succeeds while it owes a key of the failed
table, and every resume starts from records whose owed keys have failing last
producers, a node is skipped for a key only if the latest producer of the key
before it failed or was skipped. -/
theorem skip_soundness {p : PipelineEngine} {h₁ h₂ : List Event} {docs : List Value}
    {o : Option Walk} {w : Walk} {tick : Tick}
    (run : Runs p (h₁ ++ .iterated w tick :: h₂) docs o)
    (hsound : ∀ e ∈ h₁, e.Sound p) {id : String} {skip : Outcome} {keys : List String}
    (hc : (iterate p tick w).completion = some ⟨id, skip, some keys⟩) :
    ∀ k ∈ keys, ∃ c, lastProducer p.graph (completionsOf p h₁) k = some c ∧
      c.outcome.status.failing = true := by
  intro k hk
  have hprefix : ∃ docs', Runs p h₁ docs' (some w) := by
    rcases Recovery.Run.split run with ⟨docs', s, d, s', hrun, hs⟩ | ⟨docs', d, o', s', -, hr⟩
    · obtain ⟨tick', heq, -, -⟩ := hs
      cases heq
      exact ⟨docs', hrun⟩
    · obtain ⟨r, path, -, heq⟩ := hr
      cases heq
  obtain ⟨docs', hrun⟩ := hprefix
  exact hrun.soundTable hsound w rfl k ((iterate_case p tick w).mem_missingKeys hc k hk)

end Runs

section Demo

open Py.Ascii

/-- Iterations that owe nothing, and no resume among them. -/
def allOweNothing (p : PipelineEngine) (h : List Event) : Bool :=
  h.all fun e => match e with
    | .iterated w tick => owesNothing p w tick
    | .resumed _ => false

theorem sound_of_allOweNothing {p : PipelineEngine} {h : List Event}
    (hall : allOweNothing p h = true) : ∀ e ∈ h, e.Sound p := by
  intro e he
  have hone := List.all_eq_true.mp hall e he
  cases e with
  | iterated w tick => exact owesNothing_iff.mp hone
  | resumed w => cases hone

/-- The keys an iteration skipped its node for. -/
def skippedFor (r : IterEnd) : Option (List String) := r.completion.bind Completion.missingKeys

theorem completion_of_skippedFor {r : IterEnd} {keys : List String} (h : skippedFor r = some keys) :
    ∃ id o, r.completion = some ⟨id, o, some keys⟩ := by
  obtain ⟨⟨id, o, missing⟩, hc, hkeys⟩ := Option.bind_eq_some_iff.mp h
  cases hkeys
  exact ⟨id, o, hc⟩

/-- Both tools fail, so the report is skipped. -/
theorem skip_soundness_report : ∃ h docs w, Runs toolPipeline h docs (some w) ∧
    skippedFor (iterate toolPipeline (endsWith .success) w) = some ["tool.output"] ∧
    ∃ c, lastProducer toolPipeline.graph (completionsOf toolPipeline h) "tool.output" = some c ∧
      c.outcome.status.failing = true := by
  obtain ⟨w, hw⟩ : ∃ w, walkAfter toolPipeline [endsWith .success, endsWith .fail, endsWith .fail]
      toolStart = some w := Option.isSome_iff_exists.mp (by decide +kernel)
  have hskip : (walkAfter toolPipeline [endsWith .success, endsWith .fail, endsWith .fail]
      toolStart).map (fun w => skippedFor (iterate toolPipeline (endsWith .success) w)) =
        some (some ["tool.output"]) := by decide +kernel
  rw [hw, Option.map_some, Option.some.injEq] at hskip
  obtain ⟨docs, run⟩ := toolStart_runs.after hw
  have hsound : allOweNothing toolPipeline (eventsAfter toolPipeline
      [endsWith .success, endsWith .fail, endsWith .fail] toolStart) = true := by decide +kernel
  obtain ⟨id, o, hc⟩ := completion_of_skippedFor hskip
  rw [List.nil_append] at run
  have hstep := Recovery.Run.step run ⟨endsWith .success, rfl, rfl, rfl⟩
  exact ⟨_, docs, w, run, hskip,
    skip_soundness hstep (sound_of_allOweNothing hsound) hc _ List.mem_cons_self⟩

/-- The second tool repairs the output the first one owed, and the report is
skipped for it all the same. -/
theorem skipped_for_repaired_key : ∃ h docs w, Runs toolPipeline h docs (some w) ∧
    skippedFor (iterate toolPipeline (endsWith .success) w) = some ["tool.output"] ∧
    ∃ c, lastProducer toolPipeline.graph (completionsOf toolPipeline h) "tool.output" = some c ∧
      c.outcome.status = .success := by
  obtain ⟨w, hw⟩ : ∃ w, walkAfter toolPipeline [endsWith .success, endsWith .fail,
      endsWith .success] toolStart = some w := Option.isSome_iff_exists.mp (by decide +kernel)
  have hskip : (walkAfter toolPipeline [endsWith .success, endsWith .fail, endsWith .success]
      toolStart).map (fun w => skippedFor (iterate toolPipeline (endsWith .success) w)) =
        some (some ["tool.output"]) := by decide +kernel
  have hlast : (lastProducer toolPipeline.graph (completionsOf toolPipeline (eventsAfter
      toolPipeline [endsWith .success, endsWith .fail, endsWith .success] toolStart))
        "tool.output").map (fun c => c.outcome.status) = some .success := by decide +kernel
  rw [hw, Option.map_some, Option.some.injEq] at hskip
  obtain ⟨docs, run⟩ := toolStart_runs.after hw
  obtain ⟨c, hc, hstatus⟩ := Option.map_eq_some_iff.mp hlast
  exact ⟨_, docs, w, run, hskip, c, hc, hstatus⟩

end Demo

end DotRunner
