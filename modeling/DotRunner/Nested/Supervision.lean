import DotRunner.Nested.Once

/-!
# Managers and the walk around them

The log of a walk is a sequence of stays, each at one node, and between two of
them the walk goes on.  What a manager executes of its graph during a stay, and
what the walk may still execute of it afterwards.
-/

namespace DotRunner

open Py Approx

/-! ## Stays -/

/-- The log of a walk that begins at the node, each stay with what `Q` says of its
node and its marks. -/
inductive WalkLog (Q : Node → List Mark → Prop) : Node → List Mark → Prop
  | ends {n : Node} {l : List Mark} (h : Q n l) : WalkLog Q n l
  | goes {n n' : Node} {l l' : List Mark} (h : Q n l) (rest : WalkLog Q n' l') :
      WalkLog Q n (l ++ .went n'.id :: l')

/-- The marks between two steps of the walk. -/
def stays : List Mark → List (List Mark)
  | [] => [[]]
  | .went _ :: l => [] :: stays l
  | x :: l => match stays l with
    | [] => [[x]]
    | s :: rest => (x :: s) :: rest

/-- What the executions of the node `m` executed within. -/
def Mark.within (m : String) : Mark → List String
  | .executed nodeId nested => if nodeId = m then nested.flatten else []
  | .went _ => []

/-- `P` holds of every mark after the first execution of `m`. -/
def After (m : String) (P : Mark → Prop) : List Mark → Prop
  | [] => True
  | .executed nodeId _ :: l => (nodeId = m → ∀ x ∈ l, P x) ∧ After m P l
  | .went _ :: l => After m P l

theorem stays_of_executed {l : List Mark} (h : ∀ x ∈ l, ∃ id nested, x = .executed id nested) :
    stays l = [l] := by
  induction l with
  | nil => rfl
  | cons x rest ih =>
    obtain ⟨id, nested, rfl⟩ := h x List.mem_cons_self
    have hrest := ih fun y hy => h y (List.mem_cons_of_mem _ hy)
    simp only [stays, hrest]

theorem stays_append_went {l : List Mark} (h : ∀ x ∈ l, ∃ id nested, x = .executed id nested)
    (nodeId : String) (l' : List Mark) : stays (l ++ .went nodeId :: l') = l :: stays l' := by
  induction l with
  | nil => rfl
  | cons x rest ih =>
    obtain ⟨id, nested, rfl⟩ := h x List.mem_cons_self
    have hrest := ih fun y hy => h y (List.mem_cons_of_mem _ hy)
    simp only [List.cons_append, stays, hrest]

theorem after_append {m : String} {P : Mark → Prop} {l l' : List Mark} :
    After m P (l ++ l') ↔ After m P l ∧ After m P l' ∧
      ((∃ nested, Mark.executed m nested ∈ l) → ∀ x ∈ l', P x) := by
  induction l with
  | nil => simp [After]
  | cons x rest ih =>
    cases x with
    | went id => simp [After, ih]
    | executed id nested =>
      simp only [List.cons_append, After, ih, List.mem_append, List.mem_cons, Mark.executed.injEq]
      constructor
      · rintro ⟨hhere, hrest, hlater, hvisit⟩
        refine ⟨⟨fun hid x hx => hhere hid x (.inl hx), hrest⟩, hlater, ?_⟩
        rintro ⟨nested', ⟨rfl, -⟩ | hmem⟩ x hx
        · exact hhere rfl x (.inr hx)
        · exact hvisit ⟨nested', hmem⟩ x hx
      · rintro ⟨⟨hhere, hrest⟩, hlater, hvisit⟩
        refine ⟨fun hid x hx => ?_, hrest, hlater, ?_⟩
        · rcases hx with hx | hx
          · exact hhere hid x hx
          · exact hvisit ⟨nested, .inl ⟨hid.symm, rfl⟩⟩ x hx
        · rintro ⟨nested', hmem⟩ x hx
          exact hvisit ⟨nested', .inr hmem⟩ x hx

theorem After.of_forall {m : String} {P : Mark → Prop} {l : List Mark} (h : ∀ x ∈ l, P x) :
    After m P l := by
  induction l with
  | nil => trivial
  | cons x rest ih =>
    have hrest := fun y hy => h y (List.mem_cons_of_mem x hy)
    cases x with
    | went id => exact ih hrest
    | executed id nested => exact ⟨fun _ => hrest, ih hrest⟩

theorem after_of_unvisited {m : String} {P : Mark → Prop} {l : List Mark}
    (h : ∀ nested, Mark.executed m nested ∉ l) : After m P l := by
  induction l with
  | nil => trivial
  | cons x rest ih =>
    have hrest := ih fun nested hmem => h nested (List.mem_cons_of_mem x hmem)
    cases x with
    | went id => exact hrest
    | executed id nested =>
      refine ⟨fun hid => absurd ?_ (h nested), hrest⟩
      rw [hid]
      exact List.mem_cons_self

theorem WalkLog.stays {Q : Node → List Mark → Prop} {n : Node} {l : List Mark}
    (hmarks : ∀ n l, Q n l → ∀ x ∈ l, ∃ id nested, x = .executed id nested)
    (h : WalkLog Q n l) : ∀ s ∈ stays l, ∃ n, Q n s := by
  induction h with
  | @ends n l hstay =>
    rw [stays_of_executed (hmarks n l hstay)]
    intro s hs
    rw [List.mem_singleton.mp hs]
    exact ⟨n, hstay⟩
  | @goes n n' l l' hstay rest ih =>
    rw [stays_append_went (hmarks n l hstay)]
    intro s hs
    rcases List.mem_cons.mp hs with rfl | hs
    · exact ⟨n, hstay⟩
    · exact ih s hs

section Walks

variable [Runtime]

/-- What a stay of a walk at the node logs. -/
structure Stay (w : World) (r : Runners) (p : PipelineEngine) (n : Node) (l : List Mark) : Prop where
  stored : p.graph.node? n.id = some n
  executed : ∀ x ∈ l, ExecutedAt w r p n x
  /-- one execution, or one for each attempt of the ladder -/
  attempts : l.length ≤ 1 ∨
    ∃ policy, RetryPolicy.fromNode n p.graph = .ok policy ∧ l.length ≤ policy.maxAttempts

variable {w : World} {r : Runners} {p : PipelineEngine}

theorem subgraphStep_logsMost {place : Place} {node : Node} {last : Option Outcome}
    {context : PipelineContext} : (subgraphStep w r p place node last context).LogsMost 1 := by
  intro e l h
  have hpure : ∀ s : SubgraphStep, (pure s : Nest SubgraphStep) = some (e, l) → l.length ≤ 1 := by
    intro s heq
    exact (Logged.logsMost_pure 0 s e l heq).trans (Nat.zero_le 1)
  unfold subgraphStep at h
  split at h
  · cases h
    exact Nat.zero_le 1
  · split at h
    · exact hpure _ h
    · split at h
      · exact hpure _ h
      · split at h
        · exact hpure _ h
        · split at h
          · exact hpure _ h
          · split at h
            · cases h
            · cases h
              exact Nat.le_refl 1

theorem subgraphSteps_walkLog {place : Place} {left : Nat} {node : Node} {last : Option Outcome}
    {context : PipelineContext} {e : Finish SubgraphEnd} {l : List Mark}
    (hnode : p.graph.node? node.id = some node)
    (h : subgraphSteps w r p place left node last context = some (e, l)) :
    WalkLog (Stay w r p) node l := by
  induction left generalizing node last context e l with
  | zero =>
    cases h
    exact .ends ⟨hnode, fun _ hx => absurd hx List.not_mem_nil, .inl (Nat.zero_le 1)⟩
  | succ left ih =>
    have hhere : ∀ {s l₁}, subgraphStep w r p (left :: place) node last context = some (s, l₁) →
        Stay w r p node l₁ := by
      intro s l₁ hs
      exact ⟨hnode, fun x hx => (subgraphStep_logs s l₁ hs x hx).1,
        .inl (subgraphStep_logsMost s l₁ hs)⟩
    rcases Logged.bind_eq_some h with ⟨-, hcut⟩ | ⟨s, l₁, l₂, hs, hrest, rfl⟩
    · exact .ends (hhere hcut)
    · split at hrest
      · cases hrest
        rw [List.append_nil]
        exact .ends (hhere hs)
      · obtain ⟨-, -, -, e', -, hn⟩ := subgraphStep_goto hs
        rcases Logged.bind_eq_some hrest with ⟨-, hcut⟩ | ⟨_, l₃, l₄, htell, hwalk, rfl⟩
        · cases hcut
        · cases htell
          exact .goes (hhere hs) (ih (node?_id hn) hwalk)

variable [JsonReader]

omit [JsonReader] in
theorem attemptAt_logsMost {place : Place} {node : Node} (attempt : Nat)
    (context : PipelineContext) : (attemptAt w r p place node attempt context).LogsMost 1 := by
  intro e l h
  unfold attemptAt at h
  dsimp only at h
  split at h
  · cases h
    exact Nat.zero_le 1
  · split at h
    · cases h
      exact Nat.zero_le 1
    · split at h
      · cases h
      · cases h
        exact Nat.le_refl 1

section Attempts

variable {perform : Nat → PipelineContext → Nest AttemptEnd}
  (hp : ∀ n c, (perform n c).LogsMost 1)

include hp

theorem runAttempts_logsMost {node : Node} {logsRoot : String} {nodeStartWall : Int}
    {maxAttempts : Nat} (left : Nat) {attempt : Nat} {last : Option Outcome}
    {context : PipelineContext} {disk : Disk} :
    (runAttempts perform node logsRoot nodeStartWall maxAttempts left attempt last context
      disk).LogsMost left := by
  induction left generalizing attempt last context disk with
  | zero => exact Logged.logsMost_pure 0 _
  | succ left ih =>
    refine fun e l h => (Logged.logsMost_bind (n := left) (hp attempt context) (fun a => ?_) e l
      h).trans (by omega)
    split
    · exact Logged.logsMost_pure left _
    · exact ih

theorem awaitNodeIn_logsMost {node : Node} {policy : RetryPolicy} {timeout : Option PyFloat}
    {run : NodeRun} {context : PipelineContext} :
    (awaitNodeIn Logged.abandon p node policy timeout run perform context).LogsMost
      policy.maxAttempts := by
  have hladder : (executeWithRetry perform node context p.logsRoot policy run.ladderWall
      run.disk).LogsMost policy.maxAttempts := runAttempts_logsMost hp policy.maxAttempts
  have hfinished : ∀ {α β : Type} (x : Nest α) (f : α → β), x.LogsMost policy.maxAttempts →
      (do let a ← x; pure (f a) : Nest β).LogsMost policy.maxAttempts := by
    intro α β x f hx
    exact Logged.logsMost_bind hx fun a => Logged.logsMost_pure 0 (f a)
  unfold awaitNodeIn
  dsimp only
  split
  · split
    · exact hfinished _ _ hladder
    · exact hfinished _ _ (Logged.logsMost_abandon hladder)
    · exact hfinished _ _ (Logged.logsMost_abandon hladder)
  · exact hfinished _ _ hladder

end Attempts

/-- An iteration executes its node as often as the ladder attempts it. -/
theorem nestedIterate_attempts {place : Place} {walk : Walk} {it : Finish IterEnd} {l : List Mark}
    (h : nestedIterate w r p place walk = some (it, l)) : l.length ≤ 1 ∨
      ∃ policy, RetryPolicy.fromNode walk.currentNode p.graph = .ok policy ∧
        l.length ≤ policy.maxAttempts := by
  by_cases hl : l = []
  · rw [hl]
    exact .inl (Nat.zero_le 1)
  · obtain ⟨-, hexec⟩ := iterateIn_executes h hl
    unfold executeNodeIn at hexec
    split at hexec
    · cases hexec
      exact absurd rfl hl
    · dsimp only at hexec
      split at hexec
      · cases hexec
        exact absurd rfl hl
      · cases hexec
        exact absurd rfl hl
      · rename_i policy timeout hpolicy _
        exact .inr ⟨policy, hpolicy, Logged.logsMost_bind (awaitNodeIn_logsMost attemptAt_logsMost)
          (fun _ => Logged.logsMost_pure 0 _) it l hexec⟩

theorem runLoop_walkLog {place : Place} {left : Nat} {walk : Walk} {h : List Event}
    {docs : List Value} {e : Finish RunEnd} {l : List Mark} (run : Runs p h docs (some walk))
    (hl : runLoop w r p place left walk = some (e, l)) :
    WalkLog (Stay w r p) walk.currentNode l := by
  induction left generalizing walk h docs e l with
  | zero => cases hl
  | succ left ih =>
    have hhere : ∀ {it l₁}, nestedIterate w r p (left :: place) walk = some (it, l₁) →
        Stay w r p walk.currentNode l₁ := by
      intro it l₁ hit
      exact ⟨run.coherent.current, nestedIterate_logs it l₁ hit, nestedIterate_attempts hit⟩
    rcases Logged.bind_eq_some hl with ⟨-, hcut⟩ | ⟨it, l₁, l₂, hit, hrest, rfl⟩
    · exact .ends (hhere hcut)
    · split at hrest
      · rename_i m next hgoto
        rcases Logged.bind_eq_some hrest with ⟨-, hcut⟩ | ⟨_, l₃, l₄, htell, hloop, rfl⟩
        · cases hcut
        · cases htell
          obtain ⟨tick, htick⟩ := nestedIterate_returns ⟨l₁, hit⟩
          have hstep : (engineSystem p).step walk (.iterated walk tick)
              ((iterate p tick walk).saved.map Written.doc) (some next) :=
            ⟨tick, rfl, rfl, by rw [htick, hgoto]; rfl⟩
          exact .goes (hhere hit) (ih (Recovery.Run.step run hstep) hloop)
      · cases hrest
        rw [List.append_nil]
        exact .ends (hhere hit)
      · cases hrest
        rw [List.append_nil]
        exact .ends (hhere hit)

end Walks

/-! ## Managers -/

section Managers

variable [Runtime]

/-- A manager that supervises a child in its own graph. -/
structure InGraphManager (p : PipelineEngine) where
  node : Node
  stored : p.graph.node? node.id = some node
  handler : p.handlerRegistry.get node = .ok "stack.manager_loop"
  maxCycles : Int
  cycles : (node.attrD "manager.max_cycles" (.int 1000)).toInt = .ok maxCycles
  inGraph : (managerConfig p.graph node maxCycles).childDotfile.truthy = false
  childEdge : Edge
  otherEdges : List Edge
  outgoing : p.graph.outgoingEdges node.id = childEdge :: otherEdges

namespace InGraphManager

variable {w : World} {r : Runners} {p : PipelineEngine} (mgr : InGraphManager p)

def childStart : String := mgr.childEdge.toNode

/-- In every stay at the manager the child starts once a cycle at most, and after it
only in another stay there. -/
structure Supervises (l : List Mark) : Prop where
  cycles : ∀ s ∈ stays l,
    (s.flatMap (Mark.within mgr.node.id)).count mgr.childStart ≤ mgr.maxCycles.toNat
  after : After mgr.node.id (fun x => mgr.childStart ∈ x.executedIds →
    ∃ nested, x = .executed mgr.node.id nested) l

/-- The graph leaves the child to its manager. -/
structure Alone : Prop where
  /-- no walk that begins at the child comes back to its start -/
  noReturn : ∀ n n', p.graph.node? mgr.childStart = some n → Enters p n n' →
    ¬MayExecuteFrom p n' mgr.childStart
  /-- no other node starts a walk that may come to it -/
  noOther : ∀ n n', p.graph.node? n.id = some n → n.id ≠ mgr.node.id → MayStart p n n' →
    ¬MayExecuteFrom p n' mgr.childStart
  /-- the ladder attempts the manager once -/
  once : ∀ policy, RetryPolicy.fromNode mgr.node p.graph = .ok policy → policy.maxAttempts ≤ 1

/-- After a stay at the manager the walk never goes on to the child by itself. -/
def PassesBy (l : List Mark) : Prop := After mgr.node.id (· ≠ .went mgr.childStart) l

variable {mgr}

/-! ## One stay -/

/-- A walk of the child executes its start once. -/
theorem Alone.subgraphSteps_count (alone : mgr.Alone) (hr : r.Confined p) {place : Place}
    {left : Nat} {node : Node} {last : Option Outcome} {context : PipelineContext}
    {e : Finish SubgraphEnd} {l : List Mark} (hnode : p.graph.node? mgr.childStart = some node)
    (h : subgraphSteps w r p place left node last context = some (e, l)) :
    (executedIds l).count mgr.childStart ≤ 1 := by
  cases left with
  | zero =>
    cases h
    exact Nat.zero_le 1
  | succ left =>
    have hhere : ∀ {s l₁}, subgraphStep w r p (left :: place) node last context = some (s, l₁) →
        (executedIds l₁).count mgr.childStart ≤ 1 := by
      intro s l₁ hs
      match l₁, subgraphStep_logs s l₁ hs, subgraphStep_logsMost s l₁ hs with
      | [], _, _ => exact Nat.zero_le 1
      | [x], hlogs, _ =>
        obtain ⟨⟨_, handlerType, _, run, hget, hrun, rfl⟩, hterminal, -⟩ :=
          hlogs x List.mem_cons_self
        have hnested : mgr.childStart ∉ run.nested.flatten := by
          intro hid
          obtain ⟨m, hstart, hfrom⟩ := executeHandler_started hr hget hrun hid
          exact alone.noReturn node m hnode (hstart.enters hterminal) hfrom
        have hzero : run.nested.flatten.count mgr.childStart = 0 := List.count_eq_zero.mpr hnested
        show ((node.id :: run.nested.flatten) ++ []).count mgr.childStart ≤ 1
        rw [List.append_nil, List.count_cons, hzero]
        split <;> omega
      | x :: y :: rest, _, hmost =>
        simp only [List.length_cons] at hmost
        omega
    rcases Logged.bind_eq_some h with ⟨-, hcut⟩ | ⟨s, l₁, l₂, hs, hrest, rfl⟩
    · exact hhere hcut
    · have hfirst := hhere hs
      have hlater : (executedIds l₂).count mgr.childStart = 0 := by
        refine List.count_eq_zero.mpr fun hid => ?_
        split at hrest
        · cases hrest
          exact absurd hid List.not_mem_nil
        · rename_i next context' o
          obtain ⟨hterminal, ho, c, e', he, hn⟩ := subgraphStep_goto hs
          rcases Logged.bind_eq_some hrest with ⟨-, hcut⟩ | ⟨_, l₃, l₄, htell, hnext, rfl⟩
          · cases hcut
          · cases htell
            exact alone.noReturn node next hnode (.edge hterminal ho he hn)
              (subgraphSteps_executed hr hnext hid)
      rw [executedIds, List.flatMap_append, List.count_append]
      show (executedIds l₁).count _ + (executedIds l₂).count _ ≤ 1
      omega

/-- The walks of the level below execute the start of the child once. -/
def StartsOnce (mgr : InGraphManager p) (r : Runners) : Prop :=
  ∀ place context e l, r.subgraph p place mgr.childStart context = some (e, l) →
    (executedIds l).count mgr.childStart ≤ 1

theorem superviseCycles_count (honce : mgr.StartsOnce r) {place : Place} {node : Node}
    {cfg : ManagerConfig} (hdot : cfg.childDotfile.truthy = false)
    (hchild : cfg.childStart = mgr.childStart) {left cycle : Nat} {last : Option Outcome}
    {context : PipelineContext} {run : HandlerRun}
    (h : superviseCycles w r p place node cfg left cycle last context = some run) :
    run.nested.flatten.count mgr.childStart ≤ left := by
  induction left generalizing cycle last context run with
  | zero =>
    cases h
    exact Nat.zero_le 0
  | succ left ih =>
    obtain ⟨child, hrun, h⟩ := Option.bind_eq_some_iff.mp h
    have hone : child.executed.count mgr.childStart ≤ 1 := by
      unfold superviseChild at hrun
      rw [hdot, if_neg Bool.false_ne_true, hchild] at hrun
      obtain ⟨⟨ended, l⟩, hl, rfl⟩ := Option.map_eq_some_iff.mp hrun
      exact honce _ _ _ _ hl
    split at h
    · cases h
      rw [List.flatten_singleton]
      omega
    · dsimp only at h
      split at h
      · cases h
        rw [List.flatten_singleton]
        omega
      · obtain ⟨rest, hrest, rfl⟩ := Option.map_eq_some_iff.mp h
        have hlater := ih hrest
        show (child.executed ++ rest.nested.flatten).count mgr.childStart ≤ left + 1
        rw [List.count_append]
        omega

/-- An execution of the manager starts the child once a cycle. -/
theorem executed_count (honce : mgr.StartsOnce r) {nested : List (List String)} {node : Node}
    (hx : ExecutedAt w r p node (.executed mgr.node.id nested)) (hnode : node = mgr.node) :
    nested.flatten.count mgr.childStart ≤ mgr.maxCycles.toNat := by
  subst hnode
  obtain ⟨place, handlerType, context, run, hget, hrun, hmark⟩ := hx
  cases hmark
  have htype : handlerType = "stack.manager_loop" := Except.ok.inj (hget.symm.trans mgr.handler)
  subst htype
  have hmanager : executeManager w r p place mgr.node context = some run := hrun
  unfold executeManager at hmanager
  rw [mgr.cycles] at hmanager
  dsimp only at hmanager
  rw [mgr.inGraph, mgr.outgoing] at hmanager
  refine superviseCycles_count honce mgr.inGraph ?_ hmanager
  unfold managerConfig
  dsimp only
  rw [mgr.outgoing]
  rfl

end InGraphManager

variable {w : World} {r : Runners} {p : PipelineEngine} {mgr : InGraphManager p}

theorem Stay.within_count (honce : mgr.StartsOnce r) (alone : mgr.Alone) {n : Node}
    {l : List Mark} (h : Stay w r p n l) :
    (l.flatMap (Mark.within mgr.node.id)).count mgr.childStart ≤ mgr.maxCycles.toNat := by
  by_cases hid : n.id = mgr.node.id
  · have hnode : n = mgr.node := by
      have hstored := h.stored
      rw [hid, mgr.stored] at hstored
      exact (Option.some.inj hstored).symm
    have hlength : l.length ≤ 1 := by
      rcases h.attempts with hone | ⟨policy, hpolicy, hattempts⟩
      · exact hone
      · exact hattempts.trans (alone.once policy (hnode ▸ hpolicy))
    match l, hlength, h.executed with
    | [], _, _ => exact Nat.zero_le _
    | [x], _, hexecuted =>
      have hx := hexecuted x List.mem_cons_self
      obtain ⟨place, handlerType, context, run, hget, hrun, rfl⟩ := hx
      have hmark : ExecutedAt w r p n (.executed mgr.node.id run.nested) :=
        ⟨place, handlerType, context, run, hget, hrun, by rw [hid]⟩
      have hcount := InGraphManager.executed_count honce hmark hnode
      show (((if n.id = mgr.node.id then run.nested.flatten else []) ++ []).count _) ≤ _
      rw [if_pos hid, List.append_nil]
      exact hcount
    | x :: y :: rest, hlength, _ =>
      simp only [List.length_cons] at hlength
      omega
  · have hnone : l.flatMap (Mark.within mgr.node.id) = [] := by
      refine List.flatMap_eq_nil_iff.mpr fun x hx => ?_
      obtain ⟨_, _, _, run, _, _, rfl⟩ := h.executed x hx
      exact if_neg hid
    rw [hnone]
    exact Nat.zero_le _

/-- At a node that is not the child, only the manager executes the child. -/
theorem Stay.calm (hr : r.Confined p) (alone : mgr.Alone) {n : Node} {l : List Mark}
    (h : Stay w r p n l) (hn : n.id ≠ mgr.childStart ∨ n.id = mgr.node.id) {x : Mark} (hx : x ∈ l)
    (hmem : mgr.childStart ∈ x.executedIds) : ∃ nested, x = .executed mgr.node.id nested := by
  obtain ⟨_, handlerType, _, run, hget, hrun, rfl⟩ := h.executed x hx
  by_cases hid : n.id = mgr.node.id
  · exact ⟨run.nested, by rw [hid]⟩
  · rcases List.mem_cons.mp hmem with hhere | hnested
    · exact absurd hhere.symm (hn.resolve_right hid)
    · obtain ⟨m, hstart, hfrom⟩ := executeHandler_started hr hget hrun hnested
      exact absurd hfrom (alone.noOther n m h.stored hid hstart)

/-! ## Whole walks -/

theorem WalkLog.calm (hr : r.Confined p) (alone : mgr.Alone) {n : Node} {l : List Mark}
    (h : WalkLog (Stay w r p) n l) (hn : n.id ≠ mgr.childStart ∨ n.id = mgr.node.id)
    (hpasses : ∀ x ∈ l, x ≠ .went mgr.childStart) :
    ∀ x ∈ l, mgr.childStart ∈ x.executedIds → ∃ nested, x = .executed mgr.node.id nested := by
  induction h with
  | ends hstay => exact fun x hx => hstay.calm hr alone hn hx
  | @goes n n' l l' hstay rest ih =>
    have hnext : n'.id ≠ mgr.childStart := by
      intro heq
      exact hpasses (.went n'.id) (List.mem_append_right _ List.mem_cons_self) (by rw [heq])
    intro x hx hmem
    rcases List.mem_append.mp hx with hx | hx
    · exact hstay.calm hr alone hn hx hmem
    · rcases List.mem_cons.mp hx with rfl | hx
      · exact absurd hmem List.not_mem_nil
      · exact ih (.inl hnext) (fun y hy => hpasses y (List.mem_append_right _
          (List.mem_cons_of_mem _ hy))) x hx hmem

theorem WalkLog.after (hr : r.Confined p) (alone : mgr.Alone) {n : Node} {l : List Mark}
    (h : WalkLog (Stay w r p) n l) (hpasses : mgr.PassesBy l) :
    After mgr.node.id (fun x => mgr.childStart ∈ x.executedIds →
      ∃ nested, x = .executed mgr.node.id nested) l := by
  have hstays : ∀ {n l}, Stay w r p n l → After mgr.node.id (fun x => mgr.childStart ∈ x.executedIds →
      ∃ nested, x = .executed mgr.node.id nested) l := by
    intro n l hstay
    by_cases hid : n.id = mgr.node.id
    · exact After.of_forall fun x hx => hstay.calm hr alone (.inr hid) hx
    · exact after_of_unvisited fun nested hvisit => by
        obtain ⟨_, _, _, _, _, _, hmark⟩ := hstay.executed _ hvisit
        exact hid (Mark.executed.inj hmark).1.symm
  induction h with
  | ends hstay => exact hstays hstay
  | @goes n n' l l' hstay rest ih =>
    obtain ⟨-, hlater, hvisited⟩ := after_append.mp hpasses
    refine after_append.mpr ⟨hstays hstay, ih hlater, fun hvisit => ?_⟩
    have hspared := hvisited hvisit
    have hnext : n'.id ≠ mgr.childStart := by
      intro heq
      exact hspared (.went n'.id) List.mem_cons_self (by rw [heq])
    intro x hx hmem
    rcases List.mem_cons.mp hx with rfl | hx
    · exact absurd hmem List.not_mem_nil
    · exact rest.calm hr alone (.inl hnext) (fun y hy => hspared y (List.mem_cons_of_mem _ hy)) x
        hx hmem

theorem WalkLog.supervises (hr : r.Confined p) (honce : mgr.StartsOnce r) (alone : mgr.Alone)
    {n : Node} {l : List Mark} (h : WalkLog (Stay w r p) n l) (hpasses : mgr.PassesBy l) :
    mgr.Supervises l where
  cycles := by
    intro s hs
    have hmarks : ∀ n l, Stay w r p n l → ∀ x ∈ l, ∃ id nested, x = .executed id nested := by
      intro n l hstay x hx
      obtain ⟨_, _, _, run, _, _, rfl⟩ := hstay.executed x hx
      exact ⟨n.id, run.nested, rfl⟩
    obtain ⟨n, hstay⟩ := WalkLog.stays hmarks h s hs
    exact hstay.within_count honce alone
  after := WalkLog.after hr alone h hpasses

theorem InGraphManager.Alone.startsOnce [JsonReader] (alone : mgr.Alone) (w : World) (d : Nat) :
    mgr.StartsOnce (runners w d) := by
  intro place context e l h
  cases d with
  | zero => cases h
  | succ d =>
    have hwalk : runSubgraph w (runners w d) p place mgr.childStart context = some (e, l) := h
    unfold runSubgraph at hwalk
    split at hwalk
    · cases hwalk
      exact Nat.zero_le 1
    · rename_i n hn
      exact alone.subgraphSteps_count (runners_confined w p d) hn hwalk

variable [JsonReader]

end Managers

section Demo

open Py.Ascii

def managerNode : Node where
  id := "mgr"
  shape := "house"
  attrs := Dict.ofList [("manager.max_cycles", .int 1), ("manager.actions", .str "observe")]

/-- A manager, a child, and the edges between them. -/
def managedPipeline (edges : List Edge) : PipelineEngine where
  graph := Graph.ofNodes
    [{ id := "start", shape := "Mdiamond" }, managerNode, { id := "work" },
      { id := "done", shape := "Msquare" }] edges
  logsRoot := "/logs"
  handlerRegistry := ⟨standardHandlers⟩

/-- The only way on from the manager is through its child. -/
def throughChild : PipelineEngine := managedPipeline
  [{ fromNode := "start", toNode := "mgr" }, { fromNode := "mgr", toNode := "work" },
    { fromNode := "work", toNode := "done" }]

/-- The walk enters the child only if its manager fails. -/
def aroundChild : PipelineEngine := managedPipeline
  [{ fromNode := "start", toNode := "mgr" },
    { fromNode := "mgr", toNode := "work", condition := "outcome=fail" },
    { fromNode := "mgr", toNode := "done" }, { fromNode := "work", toNode := "done" }]

def throughManager : InGraphManager throughChild where
  node := managerNode
  stored := rfl
  handler := rfl
  maxCycles := 1
  cycles := rfl
  inGraph := rfl
  childEdge := { fromNode := "mgr", toNode := "work" }
  otherEdges := []
  outgoing := rfl

def aroundManager : InGraphManager aroundChild where
  node := managerNode
  stored := rfl
  handler := rfl
  maxCycles := 1
  cycles := rfl
  inGraph := rfl
  childEdge := { fromNode := "mgr", toNode := "work", condition := "outcome=fail" }
  otherEdges := [{ fromNode := "mgr", toNode := "done" }]
  outgoing := rfl

theorem mem_managedNodes {edges : List Edge} {n : Node}
    (h : (managedPipeline edges).graph.node? n.id = some n) :
    n ∈ [{ id := "start", shape := "Mdiamond" }, managerNode, { id := "work" },
      { id := "done", shape := "Msquare" }] := by
  have hentry : (n.id, n) ∈ (managedPipeline edges).graph.nodes.entries :=
    (Dict.get?_eq_some_iff _).mp h
  obtain ⟨m, hm, heq⟩ := List.mem_map.mp (Dict.mem_of_mem_ofList hentry)
  obtain rfl := (Prod.mk.inj heq).2
  exact hm

theorem aroundManager_alone : aroundManager.Alone where
  noReturn n n' hn henters hfrom := by
    obtain ⟨-, e, he, hnext⟩ := henters.outgoing
    rw [aroundChild.graph.id_of_node? hn] at he
    have hedge : e.toNode = "done" := by
      have hout : aroundChild.graph.outgoingEdges "work" =
        [{ fromNode := "work", toNode := "done" }] := rfl
      have hmem : e ∈ aroundChild.graph.outgoingEdges "work" := he
      rw [hout] at hmem
      rw [List.mem_singleton.mp hmem]
    have hdone : n'.id ∈ ["done"] := by
      rw [aroundChild.graph.id_of_node? hnext, hedge]
      exact List.mem_singleton_self _
    obtain ⟨m, hreach, -, -, hm⟩ := hfrom
    have hstays := mem_of_reach (p := aroundChild) (by decide +kernel) hreach (node?_id hnext) hdone
    rw [hm] at hstays
    exact absurd hstays (by decide)
  noOther n n' hn hother hstart := by
    have hnone : aroundChild.handlerRegistry.get n ≠ .ok "parallel" ∧
        aroundChild.handlerRegistry.get n ≠ .ok "stack.manager_loop" := by
      have hmem := mem_managedNodes hn
      simp only [List.mem_cons, List.not_mem_nil, or_false] at hmem
      rcases hmem with rfl | rfl | rfl | rfl
      · decide +kernel
      · exact absurd rfl hother
      · decide +kernel
      · decide +kernel
    cases hstart with
    | branch ht he hm => exact absurd ht hnone.1
    | child ht hd he hm => exact absurd ht hnone.2
  once policy hpolicy := by
    cases hpolicy
    exact Nat.le_refl 1

/-- What the run around the child logs. -/
def aroundLog : List Mark :=
  [.executed "start" [], .went "mgr", .executed "mgr" [["work"]], .went "done"]

theorem aroundStart_runs : Runs aroundChild [] [] (some
    { engine := { context := initializeContext aroundChild.graph none 0 {} }
      currentNode := { id := "start", shape := "Mdiamond" } }) :=
  Recovery.Run.fresh ⟨none, {}, rfl⟩

/-- What the run through the child logs. -/
def throughLog : List Mark :=
  [.executed "start" [], .went "mgr", .executed "mgr" [["work"]], .went "work",
    .executed "work" [], .went "done"]

end Demo

end DotRunner
