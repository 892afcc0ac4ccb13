import DotRunner.Py.Ascii
import DotRunner.Remote.Materialize

/-!
# The limits of the walk

When the walk over remote references keeps to its limits, for any graph of references and
any order in which the fetches come back.
-/

namespace DotRunner
namespace Remote
namespace Materialize

open Py Behaviour
open Py.PosixPath (normNames)

/-- The same file of the same repository, however its path is spelled. -/
def SameFile (a b : Origin) : Prop :=
  a.host = b.host ∧ a.owner = b.owner ∧ a.repo = b.repo ∧ a.ref = b.ref ∧
    normNames a.path.toList = normNames b.path.toList

def started : List Event → List Origin
  | [] => []
  | .started o _ :: log => o :: started log
  | .received _ :: log => started log

def received : List Event → Nat
  | [] => 0
  | .started _ _ :: log => received log
  | .received size :: log => size + received log

@[simp] theorem started_append (log log' : List Event) :
    started (log ++ log') = started log ++ started log' := by
  induction log with
  | nil => rfl
  | cons e log ih => cases e <;> simp [started, ih]

@[simp] theorem received_append (log log' : List Event) :
    received (log ++ log') = received log + received log' := by
  induction log with
  | nil => simp [received]
  | cons e log ih => cases e <;> simp [received, ih, Nat.add_assoc]

/-- What is to hold when a fetch is started, of what happened before. -/
def StartedWithin (limits : FetchLimits) (earlier : List Event) (e : Event) (_ : List Event) : Prop :=
  match e with
  | .started _ depth => (started earlier).length < limits.maxFiles ∧
      received earlier ≤ limits.maxTotalBytes ∧ depth < limits.maxDepth
  | .received _ => True

def Phase.isOver : Phase → Bool
  | .level => false
  | .gathering => false
  | .returned => true
  | .raised _ => true

/-- The walk has kept to its limits so far. -/
structure Within (limits : FetchLimits) (s : State) : Prop where
  once : (started s.log).Pairwise fun a b => ¬SameFile a b
  fetches : EachAt (StartedWithin limits) s.log
  removed : ∀ e, s.phase = .raised e → s.viewDir = false

/-- How many bytes a fetch brings. -/
def sizeOf (w : World) (o : Origin) : Nat :=
  match w.fetch o with
  | .ok content => content.length
  | .error _ => 0

def sizeOfAll (w : World) (l : List Origin) : Nat := (l.map (sizeOf w)).sum

/-- The files of a level, with those of the levels before, are within the limits. -/
structure Level.Fits (w : World) (l : Level) : Prop where
  apart : (l.seen ++ l.frontier).Pairwise fun a b => ¬SameFile a b
  files : (l.seen ++ l.frontier).length ≤ w.limits.maxFiles
  /-- before the last of its fetches -/
  bytes : (l.totalBytes + sizeOfAll w l.frontier.dropLast : Nat) ≤ w.limits.maxTotalBytes

theorem sizeOfAll_append (w : World) (l l' : List Origin) :
    sizeOfAll w (l ++ l') = sizeOfAll w l + sizeOfAll w l' := by
  simp [sizeOfAll]

theorem sizeOfAll_erase (w : World) {o : Origin} {l : List Origin} (h : o ∈ l) :
    sizeOfAll w l = sizeOf w o + sizeOfAll w (l.erase o) := by
  have hperm := ((List.perm_cons_erase h).map (sizeOf w)).sum_eq
  simpa [sizeOfAll] using hperm

/-- What is found anew has no file yet. -/
theorem not_mem_of_mem_dedupe {seen queued l : List Origin} {o : Origin}
    (h : o ∈ dedupe seen queued l) : o ∉ seen := by
  induction l generalizing queued with
  | nil => cases h
  | cons x l ih =>
    rw [dedupe] at h
    split at h
    · exact ih h
    · rename_i hfresh
      rcases List.mem_cons.mp h with rfl | h
      · exact fun hseen => hfresh (.inl hseen)
      · exact ih h

section Walk

variable [Runtime] (w : World)

abbrev Walks (s : State) (a : Action) (s' : State) : Prop := next w s a = some s'

/-- The walk keeps to its limits, whatever comes back when, and comes to an end. -/
structure StaysInside : Prop where
  within : ∀ {steps s}, Run (Walks w) (begin w) steps s → Within w.limits s
  goesOn : ∀ {steps s}, Run (Walks w) (begin w) steps s → s.phase.isOver = false →
    ∃ a s', a ≠ .cancel ∧ Walks w s a s'
  ends : ¬∃ f : Nat → State, f 0 = begin w ∧ ∀ n, ∃ a, Walks w (f n) a (f (n + 1))

/-! ## The levels of the graph -/

/-- The level so many references from the entry, where every file of the levels before it was
fetched and taken. -/
def levelAt : Nat → Option Level
  | 0 => match parseUri w.entryUri with
    | .ok entry => if w.limits.maxConcurrency < 0 then none else some { frontier := [entry] }
    | .error _ => none
  | n + 1 => (levelAt n).bind fun l =>
    if l.frontier = [] ∨ w.limits.maxDepth ≤ n then none else (nextLevel w l).toOption

/-- The limits let some fetch through, and no level goes beyond them. -/
structure Fits : Prop where
  concurrency : ∀ entry, parseUri w.entryUri = .ok entry →
    0 < w.limits.maxConcurrency ∨ (w.limits.maxConcurrency = 0 ∧ w.limits.maxDepth ≤ 0)
  levels : ∀ n l, levelAt w n = some l → l.frontier ≠ [] → n < w.limits.maxDepth → l.Fits w

variable {w}

theorem settleFile_ok {l l' : Level} {o : Origin} {raw : List UInt8}
    (h : settleFile w l o raw = .ok l') :
    l'.seen = l.seen ++ [o] ∧ l'.totalBytes = l.totalBytes + raw.length := by
  unfold settleFile at h
  simp only at h
  split at h
  · cases h
  · split at h
    · cases h
    · split at h
      · cases h
      · obtain ⟨rawRefs, -, h⟩ := bind_ok_iff.mp h
        obtain ⟨⟨found, rewrites⟩, -, h⟩ := bind_ok_iff.mp h
        obtain ⟨view, -, h⟩ := bind_ok_iff.mp h
        cases h
        exact ⟨rfl, rfl⟩

theorem settleFiles_ok {l l' : Level} {files : List (Origin × List UInt8)}
    (h : settleFiles w l files = .ok l') : l'.seen = l.seen ++ files.map Prod.fst ∧
      l'.totalBytes = l.totalBytes + (files.map fun p => p.2.length).sum := by
  induction files generalizing l with
  | nil =>
    cases h
    simp
  | cons p files ih =>
    obtain ⟨l₁, hfile, hrest⟩ := bind_ok_iff.mp h
    obtain ⟨hseen, hbytes⟩ := settleFile_ok hfile
    obtain ⟨hseen', hbytes'⟩ := ih hrest
    rw [hseen', hseen, hbytes', hbytes]
    exact ⟨by simp, by simp [Nat.add_assoc]⟩

omit [Runtime] in
theorem zip_of_mapM {batch : List Origin} {results : List (List UInt8)}
    (h : batch.mapM w.fetch = .ok results) : (batch.zip results).map Prod.fst = batch ∧
      ((batch.zip results).map fun p => p.2.length).sum = sizeOfAll w batch := by
  induction batch generalizing results with
  | nil => exact ⟨rfl, rfl⟩
  | cons o batch ih =>
    rw [List.mapM_cons] at h
    obtain ⟨content, hfetch, h⟩ := bind_ok_iff.mp h
    obtain ⟨rest, hrest, h⟩ := bind_ok_iff.mp h
    cases h
    obtain ⟨hfst, hsum⟩ := ih hrest
    have hsize : sizeOf w o = content.length := by rw [sizeOf, hfetch]
    rw [List.zip_cons_cons, List.map_cons, List.map_cons, List.sum_cons, hfst, hsum]
    exact ⟨rfl, by simp [sizeOfAll, hsize]⟩

omit [Runtime] in
theorem fetched_of_mapM {batch : List Origin} {results : List (List UInt8)}
    (h : batch.mapM w.fetch = .ok results) : ∀ o ∈ batch, ∃ content, w.fetch o = .ok content := by
  induction batch generalizing results with
  | nil => nofun
  | cons o batch ih =>
    rw [List.mapM_cons] at h
    obtain ⟨content, hfetch, h⟩ := bind_ok_iff.mp h
    obtain ⟨rest, hrest, -⟩ := bind_ok_iff.mp h
    exact List.forall_mem_cons.mpr ⟨⟨content, hfetch⟩, ih hrest⟩

/-- What the level after a level has. -/
theorem nextLevel_ok {l l' : Level} (h : nextLevel w l = .ok l') :
    l'.seen = l.seen ++ l.batch ∧ l'.totalBytes = l.totalBytes + sizeOfAll w l.batch ∧
      (∀ o ∈ l'.frontier, o ∉ l'.seen) ∧ ∃ results, l.batch.mapM w.fetch = .ok results := by
  obtain ⟨results, hresults, h⟩ := bind_ok_iff.mp h
  obtain ⟨l₁, hsettled, h⟩ := bind_ok_iff.mp h
  cases h
  have hfetched : l.batch.mapM w.fetch = .ok results := by
    cases hmap : l.batch.mapM w.fetch with
    | error e =>
      rw [hmap] at hresults
      cases hresults
    | ok contents =>
      rw [hmap] at hresults
      cases hresults
      rfl
  obtain ⟨hseen, hbytes⟩ := settleFiles_ok hsettled
  obtain ⟨hfst, hsum⟩ := zip_of_mapM hfetched
  exact ⟨by rw [hseen, hfst], by rw [hbytes, hsum],
    fun o ho => not_mem_of_mem_dedupe ho, results, hfetched⟩

theorem levelAt_succ_iff {n : Nat} {l' : Level} : levelAt w (n + 1) = some l' ↔
    ∃ l, levelAt w n = some l ∧ l.frontier ≠ [] ∧ n < w.limits.maxDepth ∧ nextLevel w l = .ok l' := by
  rw [levelAt, Option.bind_eq_some_iff]
  refine exists_congr fun l => and_congr_right fun _ => ?_
  split
  · rename_i hstop
    refine iff_of_false nofun fun ⟨hne, hlt, _⟩ => ?_
    rcases hstop with hstop | hstop
    · exact hne hstop
    · omega
  · rename_i hgoes
    rw [not_or, not_le] at hgoes
    cases nextLevel w l <;> simp [Except.toOption, hgoes]

/-- The files of a level are none that were fetched: nothing is filtered out of it. -/
theorem batch_of_levelAt {n : Nat} {l : Level} (h : levelAt w n = some l) : l.batch = l.frontier := by
  have hfresh : ∀ o ∈ l.frontier, o ∉ l.seen := by
    cases n with
    | zero =>
      unfold levelAt at h
      split at h
      · split at h
        · cases h
        · cases h
          exact fun _ _ => List.not_mem_nil
      · cases h
    | succ n =>
      obtain ⟨l₀, -, -, -, hnext⟩ := levelAt_succ_iff.mp h
      exact (nextLevel_ok hnext).2.2.1
  exact List.filter_eq_self.mpr fun o ho => decide_eq_true (hfresh o ho)

/-! ## What a step does -/

theorem walks_cases {s s' : State} {a : Action} (h : Walks w s a s') :
    (a = .enter ∧ s.phase = .level ∧ s' = enter w s) ∨
    (a = .start ∧ ∃ o rest, s.waiting = o :: rest ∧ s.inFlight.length < w.limits.maxConcurrency ∧
      s' = start s o rest) ∨
    (∃ o, a = .receive o ∧ o ∈ s.inFlight ∧ s' = receive w s o) ∨
    (a = .settle ∧ s.phase = .gathering ∧ s.waiting = [] ∧ s.inFlight = [] ∧ s' = settle w s) ∨
    (a = .cancel ∧ s.phase = .gathering ∧ s' = cancel s) := by
  unfold Walks next at h
  cases a with
  | enter =>
    cases hphase : s.phase with
    | level =>
      simp only [hphase, Option.some.injEq] at h
      simp [h]
    | _ => simp [hphase] at h
  | start =>
    cases hwaiting : s.waiting with
    | nil => simp [hwaiting] at h
    | cons o rest =>
      simp only [hwaiting] at h
      split at h
      · rename_i hroom
        cases h
        exact .inr (.inl ⟨rfl, o, rest, rfl, hroom, rfl⟩)
      · cases h
  | receive o =>
    simp only at h
    split at h
    · rename_i ho
      cases h
      exact .inr (.inr (.inl ⟨o, rfl, ho, rfl⟩))
    · cases h
  | settle =>
    simp only at h
    split at h
    · rename_i hphase hwaiting hinFlight
      cases h
      exact .inr (.inr (.inr (.inl ⟨rfl, hphase, hwaiting, hinFlight, rfl⟩)))
    · cases h
  | cancel =>
    cases hphase : s.phase with
    | gathering =>
      simp only [hphase, Option.some.injEq] at h
      simp [h]
    | _ => simp [hphase] at h

/-- Between the levels. -/
structure AtHead (w : World) (s : State) : Prop where
  level : levelAt w s.depth = some s.level
  waiting : s.waiting = []
  inFlight : s.inFlight = []
  started : started s.log = s.level.seen
  received : received s.log ≤ s.level.totalBytes

/-- While the files of a level are fetched, these of them already begun. -/
structure Underway (w : World) (s : State) (begun : List Origin) : Prop where
  level : levelAt w s.depth = some s.level
  nonempty : s.level.frontier ≠ []
  depth : s.depth < w.limits.maxDepth
  frontier : s.level.frontier = begun ++ s.waiting
  started : started s.log = s.level.seen ++ begun
  received : received s.log + sizeOfAll w s.inFlight ≤ s.level.totalBytes + sizeOfAll w begun

/-- Where the walk is in the graph. -/
structure Known (w : World) (s : State) : Prop where
  head : s.phase = .level → AtHead w s
  gathering : s.phase = .gathering → ∃ begun, Underway w s begun
  tasks : s.waiting ≠ [] → ∃ begun, Underway w s begun

theorem Underway.start {s : State} {begun rest : List Origin} {o : Origin} (h : Underway w s begun)
    (hwaiting : s.waiting = o :: rest) : Underway w (start s o rest) (begun ++ [o]) where
  level := h.level
  nonempty := h.nonempty
  depth := h.depth
  frontier := by
    have hold := h.frontier
    rw [hwaiting] at hold
    show s.level.frontier = begun ++ [o] ++ rest
    rw [hold, List.append_assoc]
    rfl
  started := by
    show Materialize.started (s.log ++ [.started o s.depth]) = s.level.seen ++ (begun ++ [o])
    rw [started_append, h.started, List.append_assoc]
    rfl
  received := by
    show Materialize.received (s.log ++ [.started o s.depth]) + sizeOfAll w (s.inFlight ++ [o]) ≤
      s.level.totalBytes + sizeOfAll w (begun ++ [o])
    have hold := h.received
    simp only [received_append, Materialize.received, sizeOfAll_append]
    omega

omit [Runtime] in
/-- What a fetch that comes back changes. -/
theorem receive_cases (s : State) (o : Origin) :
    (∃ content, w.fetch o = .ok content ∧ receive w s o = { s with
      inFlight := s.inFlight.erase o
      log := s.log ++ [.received content.length] }) ∨
    (∃ e, w.fetch o = .error e ∧ s.phase = .gathering ∧
      receive w s o = { s with inFlight := s.inFlight.erase o }.raise (.raised e)) ∨
    (∃ e, w.fetch o = .error e ∧ s.phase ≠ .gathering ∧
      receive w s o = { s with inFlight := s.inFlight.erase o }) := by
  unfold receive
  cases hfetch : w.fetch o with
  | ok content => exact .inl ⟨content, rfl, rfl⟩
  | error e =>
    right
    by_cases hphase : s.phase = .gathering
    · exact .inl ⟨e, rfl, hphase, by simp only [hphase]⟩
    · refine .inr ⟨e, rfl, hphase, ?_⟩
      cases hother : s.phase with
      | gathering => exact absurd hother hphase
      | _ => rfl

theorem Underway.receive {s : State} {begun : List Origin} {o : Origin} (h : Underway w s begun)
    (ho : o ∈ s.inFlight) : Underway w (receive w s o) begun := by
  have hsize := sizeOfAll_erase w ho
  have hold := h.received
  obtain ⟨content, hfetch, heq⟩ | ⟨e, hfetch, -, heq⟩ | ⟨e, hfetch, -, heq⟩ := receive_cases (w := w) s o
  · have hcontent : sizeOf w o = content.length := by rw [sizeOf, hfetch]
    rw [heq]
    refine ⟨h.level, h.nonempty, h.depth, h.frontier, ?_, ?_⟩
    · show Materialize.started (s.log ++ [.received content.length]) = _
      rw [started_append, h.started]
      exact List.append_nil _
    · show Materialize.received (s.log ++ [.received content.length]) +
        sizeOfAll w (s.inFlight.erase o) ≤ s.level.totalBytes + sizeOfAll w begun
      simp only [received_append, Materialize.received]
      omega
  · rw [heq]
    refine ⟨h.level, h.nonempty, h.depth, h.frontier, h.started, ?_⟩
    show Materialize.received s.log + sizeOfAll w (s.inFlight.erase o) ≤
      s.level.totalBytes + sizeOfAll w begun
    omega
  · rw [heq]
    refine ⟨h.level, h.nonempty, h.depth, h.frontier, h.started, ?_⟩
    show Materialize.received s.log + sizeOfAll w (s.inFlight.erase o) ≤
      s.level.totalBytes + sizeOfAll w begun
    omega

theorem known_of_over {s : State} (hphase : s.phase.isOver = true) (hwaiting : s.waiting = []) :
    Known w s where
  head h := by
    rw [h] at hphase
    cases hphase
  gathering h := by
    rw [h] at hphase
    cases hphase
  tasks h := absurd hwaiting h

theorem known_enter {s : State} (h : AtHead w s) : Known w (enter w s) := by
  unfold enter
  cases hfrontier : s.level.frontier with
  | nil => exact known_of_over rfl h.waiting
  | cons o rest =>
    have hne : s.level.frontier ≠ [] := by
      rw [hfrontier]
      exact List.cons_ne_nil _ _
    simp only
    split
    · exact known_of_over rfl h.waiting
    · rename_i hdepth
      have hunderway : Underway w { s with phase := .gathering, waiting := s.level.batch } [] := by
        refine ⟨h.level, hne, not_le.mp hdepth, (batch_of_levelAt h.level).symm, ?_, ?_⟩
        · exact h.started.trans (List.append_nil _).symm
        · show Materialize.received s.log + sizeOfAll w s.inFlight ≤
            s.level.totalBytes + sizeOfAll w []
          rw [h.inFlight]
          exact Nat.add_le_add_right h.received _
      exact ⟨nofun, fun _ => ⟨[], hunderway⟩, fun _ => ⟨[], hunderway⟩⟩

theorem known_settle {s : State} {begun : List Origin} (h : Underway w s begun)
    (hwaiting : s.waiting = []) (hinFlight : s.inFlight = []) : Known w (settle w s) := by
  have hbegun : s.level.frontier = begun := by
    rw [h.frontier, hwaiting, List.append_nil]
  have hbatch := batch_of_levelAt h.level
  unfold settle
  cases hnext : nextLevel w s.level with
  | error e => exact known_of_over rfl hwaiting
  | ok l =>
    obtain ⟨hseen, hbytes, -, -⟩ := nextLevel_ok hnext
    refine ⟨fun _ => ⟨levelAt_succ_iff.mpr ⟨s.level, h.level, h.nonempty, h.depth, hnext⟩,
      hwaiting, hinFlight, ?_, ?_⟩, nofun, fun hsome => absurd hwaiting hsome⟩
    · show Materialize.started s.log = l.seen
      rw [h.started, hseen, hbatch, hbegun]
    · show Materialize.received s.log ≤ l.totalBytes
      have hold := h.received
      rw [hbytes, hbatch, hbegun]
      omega

theorem known_receive {s : State} {o : Origin} (h : Known w s) (ho : o ∈ s.inFlight) :
    Known w (receive w s o) := by
  have hphase : (receive w s o).phase = s.phase ∨ (receive w s o).phase.isOver = true := by
    obtain ⟨_, -, heq⟩ | ⟨_, -, -, heq⟩ | ⟨_, -, -, heq⟩ := receive_cases (w := w) s o <;> rw [heq]
    · exact .inl rfl
    · exact .inr rfl
    · exact .inl rfl
  have hwaiting : (receive w s o).waiting = s.waiting := by
    obtain ⟨_, -, heq⟩ | ⟨_, -, -, heq⟩ | ⟨_, -, -, heq⟩ := receive_cases (w := w) s o <;>
      rw [heq]
    rfl
  constructor
  · intro hhead
    rw [hhead] at hphase
    have hold := h.head (hphase.resolve_right nofun).symm
    rw [hold.inFlight] at ho
    cases ho
  · intro hgathering
    rw [hgathering] at hphase
    obtain ⟨begun, hold⟩ := h.gathering (hphase.resolve_right nofun).symm
    exact ⟨begun, hold.receive ho⟩
  · intro hsome
    rw [hwaiting] at hsome
    obtain ⟨begun, hold⟩ := h.tasks hsome
    exact ⟨begun, hold.receive ho⟩

theorem known_start {s : State} {o : Origin} {rest : List Origin} (h : Known w s)
    (hwaiting : s.waiting = o :: rest) : Known w (start s o rest) := by
  have hsome : s.waiting ≠ [] := by
    rw [hwaiting]
    exact List.cons_ne_nil _ _
  obtain ⟨begun, hold⟩ := h.tasks hsome
  refine ⟨fun hhead => ?_, fun _ => ⟨_, hold.start hwaiting⟩, fun _ => ⟨_, hold.start hwaiting⟩⟩
  exact absurd (h.head hhead).waiting hsome

theorem known_next {s s' : State} {a : Action} (hstep : Walks w s a s') (h : Known w s) :
    Known w s' := by
  obtain ⟨-, hphase, rfl⟩ | ⟨-, o, rest, hwaiting, -, rfl⟩ | ⟨o, -, ho, rfl⟩ |
    ⟨-, hphase, hwaiting, hinFlight, rfl⟩ | ⟨-, -, rfl⟩ := walks_cases hstep
  · exact known_enter (h.head hphase)
  · exact known_start h hwaiting
  · exact known_receive h ho
  · obtain ⟨begun, h⟩ := h.gathering hphase
    exact known_settle h hwaiting hinFlight
  · exact known_of_over rfl rfl

theorem known_begin : Known w (begin w) := by
  unfold begin
  cases hparse : parseUri w.entryUri with
  | error e => exact known_of_over rfl rfl
  | ok entry =>
    simp only
    split
    · exact known_of_over rfl rfl
    · rename_i hconcurrency
      have hlevel : levelAt w 0 = some { frontier := [entry] } := by
        rw [levelAt, hparse]
        exact if_neg hconcurrency
      exact ⟨fun _ => ⟨hlevel, rfl, rfl, rfl, Nat.le_refl _⟩, nofun, fun h => absurd rfl h⟩

/-! ## The limits are kept -/

theorem Underway.startedWithin {s : State} {begun rest : List Origin} {o : Origin}
    (h : Underway w s begun) (hfits : Fits w) (hwaiting : s.waiting = o :: rest) :
    StartedWithin w.limits s.log (.started o s.depth) [] := by
  have hlevel := hfits.levels s.depth s.level h.level h.nonempty h.depth
  have hsplit : s.level.frontier = begun ++ (o :: rest) := by rw [h.frontier, hwaiting]
  have hbegun : sizeOfAll w begun ≤ sizeOfAll w s.level.frontier.dropLast := by
    rw [hsplit, List.dropLast_append_of_ne_nil (List.cons_ne_nil _ _), sizeOfAll_append]
    exact Nat.le_add_right _ _
  have hfiles := hlevel.files
  have hbytes := hlevel.bytes
  have hreceived := h.received
  refine ⟨?_, ?_, h.depth⟩
  · rw [h.started]
    rw [hsplit] at hfiles
    simp only [List.length_append, List.length_cons] at hfiles ⊢
    omega
  · omega

theorem within_start {s : State} {o : Origin} {rest : List Origin} (hknown : Known w s)
    (hfits : Fits w) (h : Within w.limits s) (hwaiting : s.waiting = o :: rest) :
    Within w.limits (start s o rest) := by
  have hsome : s.waiting ≠ [] := by
    rw [hwaiting]
    exact List.cons_ne_nil _ _
  obtain ⟨begun, hold⟩ := hknown.tasks hsome
  have hlevel := hfits.levels s.depth s.level hold.level hold.nonempty hold.depth
  constructor
  · have hstarted := (hold.start hwaiting).started
    rw [hstarted]
    have hfrontier : s.level.frontier = begun ++ [o] ++ rest := (hold.start hwaiting).frontier
    refine hlevel.apart.sublist ?_
    rw [hfrontier]
    exact (List.sublist_append_left (begun ++ [o]) rest).append_left s.level.seen
  · exact eachAt_snoc.mpr ⟨h.fetches.imp fun _ e _ he => by cases e <;> exact he,
      hold.startedWithin hfits hwaiting⟩
  · exact h.removed

omit [Runtime] in
theorem within_receive {s : State} (o : Origin) (h : Within w.limits s) :
    Within w.limits (receive w s o) := by
  obtain ⟨content, -, heq⟩ | ⟨e, -, -, heq⟩ | ⟨e, -, -, heq⟩ := receive_cases (w := w) s o <;> rw [heq]
  · refine ⟨?_, ?_, h.removed⟩
    · show (started (s.log ++ [.received content.length])).Pairwise _
      rw [started_append]
      exact (List.append_nil (started s.log)).symm ▸ h.once
    · exact eachAt_snoc.mpr ⟨h.fetches.imp fun _ e _ he => by cases e <;> exact he, trivial⟩
  · exact ⟨h.once, h.fetches, fun _ _ => rfl⟩
  · exact ⟨h.once, h.fetches, h.removed⟩

theorem within_next {s s' : State} {a : Action} (hstep : Walks w s a s') (hknown : Known w s)
    (hfits : Fits w) (h : Within w.limits s) : Within w.limits s' := by
  obtain ⟨-, hphase, rfl⟩ | ⟨-, o, rest, hwaiting, -, rfl⟩ | ⟨o, -, -, rfl⟩ |
    ⟨-, -, -, -, rfl⟩ | ⟨-, -, rfl⟩ := walks_cases hstep
  · unfold enter
    split
    · exact ⟨h.once, h.fetches, nofun⟩
    · split
      · exact ⟨h.once, h.fetches, fun _ _ => rfl⟩
      · exact ⟨h.once, h.fetches, nofun⟩
  · exact within_start hknown hfits h hwaiting
  · exact within_receive o h
  · unfold settle
    split
    · exact ⟨h.once, h.fetches, nofun⟩
    · exact ⟨h.once, h.fetches, fun _ _ => rfl⟩
  · exact ⟨h.once, h.fetches, fun _ _ => rfl⟩

theorem within_begin (hfits : Fits w) : Within w.limits (begin w) := by
  unfold begin
  cases hparse : parseUri w.entryUri with
  | error e => exact ⟨.nil, eachAt_nil, fun _ _ => rfl⟩
  | ok entry =>
    have hconcurrency : ¬w.limits.maxConcurrency < 0 := by
      have hroom := hfits.concurrency entry hparse
      omega
    simp only [if_neg hconcurrency]
    exact ⟨.nil, eachAt_nil, nofun⟩

/-! ## The walk goes on -/

theorem exists_entry_of_levelAt : ∀ {n : Nat} {l : Level}, levelAt w n = some l →
    ∃ entry, parseUri w.entryUri = .ok entry
  | 0, l, h => by
    unfold levelAt at h
    split at h
    · exact ⟨_, by assumption⟩
    · cases h
  | n + 1, l, h => by
    obtain ⟨l₀, h₀, -⟩ := levelAt_succ_iff.mp h
    exact exists_entry_of_levelAt h₀

theorem Underway.room {s : State} {begun : List Origin} (h : Underway w s begun) (hfits : Fits w) :
    0 < w.limits.maxConcurrency := by
  obtain ⟨entry, hparse⟩ := exists_entry_of_levelAt h.level
  have hdepth := h.depth
  have hroom := hfits.concurrency entry hparse
  omega

theorem Known.goesOn {s : State} (h : Known w s) (hfits : Fits w) (hover : s.phase.isOver = false) :
    ∃ a s', a ≠ .cancel ∧ Walks w s a s' := by
  cases hphase : s.phase with
  | level => exact ⟨.enter, enter w s, nofun, by simp [Walks, next, hphase]⟩
  | gathering =>
    obtain ⟨begun, hunderway⟩ := h.gathering hphase
    cases hinFlight : s.inFlight with
    | cons o rest => exact ⟨.receive o, receive w s o, nofun, by simp [Walks, next, hinFlight]⟩
    | nil =>
      cases hwaiting : s.waiting with
      | nil => exact ⟨.settle, settle w s, nofun, by simp [Walks, next, hphase, hwaiting, hinFlight]⟩
      | cons o rest =>
        have hroom := hunderway.room hfits
        exact ⟨.start, start s o rest, nofun, by simp [Walks, next, hwaiting, hinFlight, hroom]⟩
  | returned =>
    rw [hphase] at hover
    cases hover
  | raised e =>
    rw [hphase] at hover
    cases hover

/-! ## The walk ends -/

/-- Over every level still to come stands the one before its fetches. -/
def phaseRank (limits : FetchLimits) (depth : Nat) : Phase → Nat
  | .level => 2 * (limits.maxDepth - depth).toNat + 1
  | .gathering => 2 * (limits.maxDepth - depth).toNat
  | .returned => 0
  | .raised _ => 0

/-- The levels that may come, and the tasks that are left of this one. -/
def rank (w : World) (s : State) : Nat × Nat :=
  (phaseRank w.limits s.depth s.phase, 2 * s.waiting.length + s.inFlight.length)

omit [Runtime] in
theorem phaseRank_of_over {phase : Phase} (h : phase.isOver = true) (limits : FetchLimits)
    (depth : Nat) : phaseRank limits depth phase = 0 := by
  cases phase with
  | returned => rfl
  | raised e => rfl
  | level => cases h
  | gathering => cases h

theorem phaseRank_enter {s : State} (hphase : s.phase = .level) :
    phaseRank w.limits (enter w s).depth (enter w s).phase < phaseRank w.limits s.depth s.phase := by
  rw [hphase]
  unfold enter
  split
  · exact Nat.succ_pos _
  · split
    · exact Nat.succ_pos _
    · exact Nat.lt_succ_self _

theorem phaseRank_settle {s : State} (hphase : s.phase = .gathering)
    (hdepth : s.depth < w.limits.maxDepth) :
    phaseRank w.limits (settle w s).depth (settle w s).phase < phaseRank w.limits s.depth s.phase := by
  rw [hphase]
  unfold settle
  split
  · simp only [phaseRank, Nat.cast_add, Nat.cast_one]
    omega
  · simp only [phaseRank, State.raise]
    omega

theorem rank_next {s s' : State} {a : Action} (hstep : Walks w s a s') (h : Known w s) :
    Prod.Lex (· < ·) (· < ·) (rank w s') (rank w s) := by
  have hdepth : s.phase = .gathering → s.depth < w.limits.maxDepth := fun hphase => by
    obtain ⟨begun, hunderway⟩ := h.gathering hphase
    exact hunderway.depth
  have hleaves : ∀ s' : State, s.phase = .gathering → s'.phase.isOver = true →
      Prod.Lex (· < ·) (· < ·) (rank w s') (rank w s) := by
    intro s' hphase hover
    apply Prod.Lex.left
    rw [phaseRank_of_over hover, hphase, phaseRank]
    have hlt := hdepth hphase
    omega
  obtain ⟨-, hphase, rfl⟩ | ⟨-, o, rest, hwaiting, -, rfl⟩ | ⟨o, -, ho, rfl⟩ |
    ⟨-, hphase, -, -, rfl⟩ | ⟨-, hphase, rfl⟩ := walks_cases hstep
  · exact Prod.Lex.left _ _ (phaseRank_enter hphase)
  · apply Prod.Lex.right
    simp only [start, hwaiting, List.length_append, List.length_cons, List.length_nil]
    omega
  · have hlength := List.length_erase_of_mem ho
    have hpos := List.length_pos_of_mem ho
    obtain ⟨_, -, heq⟩ | ⟨_, -, hphase, heq⟩ | ⟨_, -, -, heq⟩ := receive_cases (w := w) s o
    · rw [heq]
      apply Prod.Lex.right
      simp only [hlength]
      omega
    · refine hleaves _ hphase ?_
      rw [heq]
      rfl
    · rw [heq]
      apply Prod.Lex.right
      simp only [hlength]
      omega
  · exact Prod.Lex.left _ _ (phaseRank_settle hphase (hdepth hphase))
  · exact hleaves _ hphase rfl

theorem walk_ends :
    ¬∃ f : Nat → State, f 0 = begin w ∧ ∀ n, ∃ a, Walks w (f n) a (f (n + 1)) := by
  have hkept : ∀ s a s', Walks w s a s' → Known w s → Known w s' := fun _ _ _ => known_next
  exact Run.not_endless (rank w) hkept (fun _ _ _ => rank_next) known_begin

/-! ## Every level is reached -/

/-- What has changed where some waiting fetches came back, each before the next was started. -/
structure Passed (w : World) (s s' : State) (passed : List Origin) : Prop where
  depth : s'.depth = s.depth
  level : s'.level = s.level
  inFlight : s'.inFlight = []
  started : started s'.log = started s.log ++ passed
  received : received s'.log = received s.log + sizeOfAll w passed
  phase : (∀ o ∈ passed, ∃ content, w.fetch o = .ok content) → s'.phase = s.phase

theorem walks_start {s : State} {o : Origin} {rest : List Origin}
    (hroom : 0 < w.limits.maxConcurrency) (hwaiting : s.waiting = o :: rest)
    (hinFlight : s.inFlight = []) : Walks w s .start (start s o rest) := by
  simp [Walks, next, hwaiting, hinFlight, hroom]

theorem pass_one {s : State} {o : Origin} {rest : List Origin}
    (hroom : 0 < w.limits.maxConcurrency) (hwaiting : s.waiting = o :: rest)
    (hinFlight : s.inFlight = []) : ∃ steps s', Run (Walks w) s steps s' ∧ s'.waiting = rest ∧
      Passed w s s' [o] := by
  have hflying : (start s o rest).inFlight = [o] := by
    show s.inFlight ++ [o] = [o]
    rw [hinFlight]
    rfl
  have hreceive : Walks w (start s o rest) (.receive o) (receive w (start s o rest) o) := by
    simp [Walks, next, hflying]
  have hgone : (start s o rest).inFlight.erase o = [] := by
    rw [hflying]
    exact List.erase_cons_head _ _
  refine ⟨_, _, .cons (walks_start hroom hwaiting hinFlight) (.cons hreceive .nil), ?_⟩
  obtain ⟨content, hfetch, heq⟩ | ⟨e, hfetch, -, heq⟩ | ⟨e, hfetch, -, heq⟩ :=
    receive_cases (w := w) (start s o rest) o
  all_goals
    rw [heq]
    refine ⟨rfl, rfl, rfl, hgone, ?_, ?_, fun hall => ?_⟩
  · simp [start, started]
  · simp [start, received, sizeOfAll, sizeOf, hfetch]
  · rfl
  · simp [start, started, State.raise]
  · simp [start, received, State.raise, sizeOfAll, sizeOf, hfetch]
  · obtain ⟨content, hcontent⟩ := hall o List.mem_cons_self
    rw [hfetch] at hcontent
    cases hcontent
  · simp [start, started]
  · simp [start, received, sizeOfAll, sizeOf, hfetch]
  · rfl

theorem pass_all (hroom : 0 < w.limits.maxConcurrency) (rest : List Origin) :
    ∀ (passed : List Origin) {s : State}, s.waiting = passed ++ rest → s.inFlight = [] →
      ∃ steps s', Run (Walks w) s steps s' ∧ s'.waiting = rest ∧ Passed w s s' passed
  | [], s, hwaiting, hinFlight => ⟨_, s, .nil, hwaiting, rfl, rfl, hinFlight,
      (List.append_nil _).symm, rfl, fun _ => rfl⟩
  | o :: passed, s, hwaiting, hinFlight => by
    obtain ⟨steps, s₁, hrun, hwaiting₁, hone⟩ := pass_one hroom hwaiting hinFlight
    obtain ⟨steps', s', hrun', hwaiting', hrest⟩ := pass_all hroom rest passed hwaiting₁ hone.inFlight
    refine ⟨_, s', hrun.append hrun', hwaiting', hrest.depth.trans hone.depth,
      hrest.level.trans hone.level, hrest.inFlight, ?_, ?_, fun hall => ?_⟩
    · rw [hrest.started, hone.started, List.append_assoc]
      rfl
    · rw [hrest.received, hone.received, ← List.singleton_append (l := passed), sizeOfAll_append,
        Nat.add_assoc]
    · have hfirst := hone.phase fun x hx => hall x (by rw [List.mem_singleton.mp hx]; exact List.mem_cons_self)
      exact (hrest.phase fun x hx => hall x (List.mem_cons_of_mem _ hx)).trans hfirst

theorem known_of_run {steps : List (Transition State Action)} {s : State}
    (run : Run (Walks w) (begin w) steps s) : Known w s := by
  have hkept : ∀ s a s', Walks w s a s' → Known w s → Known w s' := fun _ _ _ => known_next
  exact run.invariant hkept known_begin

/-- The walk may come to the head of its loop with this level. -/
def Reached (w : World) (n : Nat) (l : Level) (s : State) : Prop :=
  (∃ steps, Run (Walks w) (begin w) steps s) ∧ s.phase = .level ∧ s.depth = n ∧ s.level = l ∧
    received s.log = l.totalBytes

/-- From the head of the loop, with some of the fetches back. -/
theorem Reached.passed {n : Nat} {l : Level} {s : State} (h : Reached w n l s)
    (hroom : 0 < w.limits.maxConcurrency) (hne : l.frontier ≠ []) (hdepth : n < w.limits.maxDepth)
    {passed rest : List Origin} (hfrontier : l.frontier = passed ++ rest) :
    ∃ steps s', Run (Walks w) (begin w) steps s' ∧ s'.waiting = rest ∧ s'.inFlight = [] ∧
      s'.depth = n ∧ s'.level = l ∧ started s'.log = l.seen ++ passed ∧
      received s'.log = l.totalBytes + sizeOfAll w passed ∧
      ((∀ o ∈ passed, ∃ content, w.fetch o = .ok content) → s'.phase = .gathering) := by
  obtain ⟨⟨steps, hrun⟩, hphase, rfl, rfl, hreceived⟩ := h
  have hhead := (known_of_run hrun).head hphase
  have henter : Walks w s .enter { s with phase := .gathering, waiting := s.level.batch } := by
    obtain ⟨o, rest', hcons⟩ := List.exists_cons_of_ne_nil hne
    have hdeep : ¬w.limits.maxDepth ≤ s.depth := not_le.mpr hdepth
    simp [Walks, next, hphase, enter, hcons, hdeep]
  have hwaiting : s.level.batch = passed ++ rest := (batch_of_levelAt hhead.level).trans hfrontier
  obtain ⟨steps', s', hrun', hwaiting', hpassed⟩ :=
    pass_all (s := { s with phase := .gathering, waiting := s.level.batch }) hroom rest passed
      hwaiting hhead.inFlight
  refine ⟨_, s', hrun.append (.cons henter hrun'), hwaiting', hpassed.inFlight, hpassed.depth,
    hpassed.level, ?_, ?_, hpassed.phase⟩
  · rw [hpassed.started]
    exact congrArg (· ++ passed) hhead.started
  · rw [hpassed.received]
    exact congrArg (· + sizeOfAll w passed) hreceived

theorem reached_of_levelAt (hroom : 0 < w.limits.maxConcurrency) :
    ∀ {n : Nat} {l : Level}, levelAt w n = some l → ∃ s, Reached w n l s
  | 0, l, h => by
    unfold levelAt at h
    split at h
    · rename_i entry hparse
      split at h
      · cases h
      · rename_i hconcurrency
        cases h
        refine ⟨_, ⟨_, .nil⟩, ?_⟩
        rw [begin, hparse]
        simp only [if_neg hconcurrency, true_and]
        rfl
    · cases h
  | n + 1, l', h => by
    obtain ⟨l, hlevel, hne, hdepth, hnext⟩ := levelAt_succ_iff.mp h
    obtain ⟨s, hreached⟩ := reached_of_levelAt hroom hlevel
    obtain ⟨-, hbytes, -, results, hresults⟩ := nextLevel_ok hnext
    have hbatch := batch_of_levelAt hlevel
    obtain ⟨steps, s', hrun, hwaiting, hinFlight, hdepth', hlevel', -, hreceived, hphase⟩ :=
      hreached.passed hroom hne hdepth (List.append_nil l.frontier).symm
    have hfetched : ∀ o ∈ l.frontier, ∃ content, w.fetch o = .ok content := by
      rw [hbatch] at hresults
      exact fetched_of_mapM hresults
    have hsettle : Walks w s' .settle { s' with phase := .level, depth := s'.depth + 1, level := l' } := by
      simp [Walks, next, hphase hfetched, hwaiting, hinFlight, settle, hlevel', hnext]
    refine ⟨_, ⟨_, hrun.snoc hsettle⟩, rfl, congrArg (· + 1) hdepth', rfl, ?_⟩
    rw [hbytes, hbatch]
    exact hreceived

/-! ## When the walk keeps to its limits -/

theorem staysInside_of_fits (hfits : Fits w) : StaysInside w where
  within run := by
    have hkept : ∀ s a s', Walks w s a s' → Known w s ∧ Within w.limits s →
        Known w s' ∧ Within w.limits s' := fun _ _ _ hstep h =>
      ⟨known_next hstep h.1, within_next hstep h.1 hfits h.2⟩
    exact (run.invariant hkept ⟨known_begin, within_begin hfits⟩).2
  goesOn run hover := (known_of_run run).goesOn hfits hover
  ends := walk_ends

/-- The last fetch of a level shows that all of them are within the limits. -/
theorem StaysInside.level (h : StaysInside w) (hroom : 0 < w.limits.maxConcurrency) {n : Nat}
    {l : Level} (hlevel : levelAt w n = some l) (hne : l.frontier ≠ [])
    (hdepth : n < w.limits.maxDepth) : l.Fits w := by
  obtain ⟨s, hreached⟩ := reached_of_levelAt hroom hlevel
  obtain ⟨steps, s', hrun, hwaiting, hinFlight, -, hlevel', hstarted, hreceived, -⟩ :=
    hreached.passed hroom hne hdepth (List.dropLast_append_getLast hne).symm
  have hwithin := h.within (hrun.snoc (walks_start hroom hwaiting hinFlight))
  have hlast := (eachAt_snoc.mp hwithin.fetches).2
  have hall : started (start s' (l.frontier.getLast hne) []).log = l.seen ++ l.frontier := by
    show started (s'.log ++ [.started (l.frontier.getLast hne) s'.depth]) = l.seen ++ l.frontier
    rw [started_append, hstarted, List.append_assoc]
    exact congrArg (l.seen ++ ·) (List.dropLast_append_getLast hne)
  constructor
  · have honce := hwithin.once
    rwa [hall] at honce
  · have hlength := l.frontier.length_dropLast
    have hpos := List.length_pos_of_ne_nil hne
    have hfiles := hlast.1
    rw [hstarted, List.length_append] at hfiles
    rw [List.length_append]
    omega
  · have hbytes := hlast.2.1
    rwa [hreceived] at hbytes

theorem StaysInside.concurrency (h : StaysInside w) {entry : Origin}
    (hparse : parseUri w.entryUri = .ok entry) :
    0 < w.limits.maxConcurrency ∨ (w.limits.maxConcurrency = 0 ∧ w.limits.maxDepth ≤ 0) := by
  by_cases hnegative : w.limits.maxConcurrency < 0
  · have hremoved := (h.within .nil).removed
    unfold begin at hremoved
    simp only [hparse, if_pos hnegative] at hremoved
    cases hremoved _ rfl
  · by_cases hdepth : 0 < w.limits.maxDepth
    · left
      have hbegin : begin w = { phase := .level, level := { frontier := [entry] }, viewDir := true } := by
        unfold begin
        simp only [hparse, if_neg hnegative]
      have hdeep : ¬w.limits.maxDepth ≤ 0 := not_le.mpr hdepth
      have henter : Walks w (begin w) .enter { begin w with phase := .gathering, waiting := [entry] } := by
        rw [hbegin]
        simp [Walks, next, enter, hdeep, Level.batch]
      obtain ⟨a, s', hcancel, hstep⟩ := h.goesOn (.snoc .nil henter) rfl
      obtain ⟨-, hphase, -⟩ | ⟨-, o, rest, -, hroom, -⟩ | ⟨o, -, ho, -⟩ |
        ⟨-, -, hwaiting, -, -⟩ | ⟨ha, -⟩ := walks_cases hstep
      · cases hphase
      · rw [hbegin] at hroom
        exact hroom
      · rw [hbegin] at ho
        cases ho
      · cases hwaiting
      · exact absurd ha hcancel
    · omega

/-- The walk keeps to its limits if and only if they let a fetch through and every level that it
comes to is within them before the last of its fetches. -/
theorem staysInside_iff (w : World) : StaysInside w ↔ Fits w := by
  constructor
  · intro h
    refine ⟨fun entry hparse => h.concurrency hparse, fun n l hlevel hne hdepth => ?_⟩
    obtain ⟨entry, hparse⟩ := exists_entry_of_levelAt hlevel
    have hroom := h.concurrency hparse
    exact h.level (by omega) hlevel hne hdepth
  · exact staysInside_of_fits

end Walk

section Demo

open Py.Ascii

/-- An entry with three references. -/
def wideEntry : List Char :=
  "digraph g \x7b a [dot_file=\"b.dot\"]; c [dot_file=\"d.dot\"]; e [dot_file=\"f.dot\"] \x7d".toList

/-- Two files may be fetched. -/
def wide : World where
  limits := { maxFiles := 2 }
  fetch o := .ok (if o.path = "main.dot" then Json.fileBytes wideEntry else [])
  cwd := ['/']
  entryUri := "git+https://github.com/o/r#subdirectory=main.dot".toList

/-- The three are fetched together, when the count is still at one. -/
theorem wide_starts_four : ¬StaysInside wide := by
  intro h
  have hlevel : (levelAt wide 1).map (fun l => ((l.seen ++ l.frontier).length, l.frontier.isEmpty)) =
      some (4, false) := by decide +kernel
  obtain ⟨l, hlevel, hl⟩ := Option.map_eq_some_iff.mp hlevel
  obtain ⟨hlength, hempty⟩ := Prod.mk.inj hl
  have hne : l.frontier ≠ [] := by
    intro hnil
    rw [hnil] at hempty
    cases hempty
  have hfiles := (h.level (by decide) hlevel hne (by decide)).files
  rw [hlength] at hfiles
  exact absurd hfiles (by decide)

end Demo

end Materialize
end Remote
end DotRunner
