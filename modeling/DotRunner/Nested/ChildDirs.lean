import DotRunner.Behaviour
import DotRunner.Py.Dict
import DotRunner.Py.PosixPath
import DotRunner.Py.Text

/-!
# The directories of child runs

Every run of a child graph gets a directory for its logs, named after its node.  The number
in the name of a folder's child is counted on the engine object that runs the folder, that
of a manager's child is the cycle.
-/

namespace DotRunner
namespace ChildDirs

open Py Behaviour
open Py.PosixPath (join names)

/-! ## Engines -/

/-- An engine object, as far as it gives directories to children. -/
structure EngineObject where
  logsRoot : List Char
  /-- `_folder_invocation_counts` -/
  folderInvocationCounts : Dict String Nat := .empty
  isBranchClone : Bool := false

/-- How a child comes to be run. -/
inductive Kind where
  /-- by a folder that the engine ran so often before -/
  | folder (inv : Nat)
  /-- in a cycle of a visit to a manager -/
  | cycle (visit number : Nat)
  deriving DecidableEq

def digits (n : Nat) : List Char := (toString n).toList

@[irreducible] def subgraphWord : List Char := "subgraph_".toList

@[irreducible] def iterWord : List Char := "__iter".toList

@[irreducible] def cycleWord : List Char := "_cycle_".toList

/-- The name of the directory. -/
def childName (node : String) : Kind → List Char
  | .folder 0 => subgraphWord ++ node.toList
  | .folder inv => subgraphWord ++ node.toList ++ iterWord ++ digits inv
  | .cycle _ number => subgraphWord ++ node.toList ++ cycleWord ++ digits number

/-- One run of a child. -/
structure Invocation where
  /-- the engine object that runs the node -/
  engine : Nat
  logsRoot : List Char
  node : String
  kind : Kind

def Invocation.childLogs (i : Invocation) : List Char := join i.logsRoot (childName i.node i.kind)

/-- A manager that supervises a child of its own, and the cycles it has run. -/
structure Visit where
  engine : Nat
  node : String
  cycles : Nat := 0

structure State where
  /-- the directory of the run -/
  logsRoot : List Char
  /-- every engine object there ever was -/
  engines : List EngineObject
  /-- the objects from here on are of the process that runs -/
  process : Nat := 0
  visits : List Visit := []
  log : List Invocation := []

inductive Action where
  /-- an engine runs a folder node -/
  | folder (engine : Nat) (node : String)
  /-- an engine comes to a manager node whose child has a file -/
  | visit (engine : Nat) (node : String)
  /-- the manager runs the next cycle -/
  | cycle (visit : Nat)
  /-- `clone_for_branch` -/
  | clone (engine : Nat)
  /-- another process takes the run up from its checkpoint -/
  | resume
  deriving DecidableEq

def begin (logsRoot : List Char) : State := ⟨logsRoot, [{ logsRoot := logsRoot }], 0, [], []⟩

/-- The object, if it is of this process. -/
def State.engine? (s : State) (e : Nat) : Option EngineObject :=
  if s.process ≤ e then s.engines[e]? else none

/-- `PipelineHandler.execute`, step (7), and the child's engine -/
def runFolder (s : State) (e : Nat) (engine : EngineObject) (node : String) : State :=
  let inv := engine.folderInvocationCounts.getD node 0
  let counted := { engine with
    folderInvocationCounts := engine.folderInvocationCounts.set node (inv + 1) }
  let i : Invocation := ⟨e, engine.logsRoot, node, .folder inv⟩
  { s with engines := s.engines.set e counted ++ [{ logsRoot := i.childLogs }], log := s.log ++ [i] }

/-- `_run_child_dotfile`, in the next cycle -/
def runCycle (s : State) (v : Nat) (visit : Visit) (engine : EngineObject) : State :=
  let i : Invocation := ⟨visit.engine, engine.logsRoot, visit.node, .cycle v (visit.cycles + 1)⟩
  { s with
    engines := s.engines ++ [{ logsRoot := i.childLogs }]
    visits := s.visits.set v { visit with cycles := visit.cycles + 1 }
    log := s.log ++ [i] }

def next (s : State) : Action → Option State
  | .folder e node => (s.engine? e).map fun engine => runFolder s e engine node
  | .visit e node => (s.engine? e).map fun _ => { s with visits := s.visits ++ [⟨e, node, 0⟩] }
  | .cycle v => s.visits[v]?.bind fun visit =>
    (s.engine? visit.engine).map fun engine => runCycle s v visit engine
  | .clone e => (s.engine? e).map fun engine =>
    { s with engines := s.engines ++ [{ logsRoot := engine.logsRoot, isBranchClone := true }] }
  | .resume => some { s with
    engines := s.engines ++ [{ logsRoot := s.logsRoot }]
    process := s.engines.length }

/-! ## What is asked of a run -/

/-- The two paths lead to one directory. -/
def SameDir (a b : List Char) : Prop := names a = names b

/-- No two children were run in one directory. -/
def State.Unshared (s : State) : Prop :=
  s.log.Pairwise fun i j => ¬SameDir i.childLogs j.childLogs

/-- One id is the other with a word and a number behind it. -/
def Numbered (node : String) (word : List Char) (number : Nat) (other : String) : Prop :=
  other.toList = node.toList ++ word ++ digits number

instance (node : String) (word : List Char) (number : Nat) (other : String) :
    Decidable (Numbered node word number other) := inferInstanceAs (Decidable (_ = _))

/-- The name made for a child of the one node is the first one of a folder with the other id. -/
def Mistaken (node : String) (kind : Kind) (other : String) : Prop :=
  match kind with
  | .folder 0 => node = other
  | .folder inv => Numbered node iterWord inv other
  | .cycle _ number => Numbered node cycleWord number other

/-- The folder was not run before by another engine object, and its name is not one that a count
or a cycle has made of another id. -/
structure FolderMeets (s : State) (e : Nat) (engine : EngineObject) (node : String) : Prop where
  slashless : '/' ∉ node.toList
  /-- no other object over this directory ran the folder -/
  counted : ∀ i ∈ s.log, SameDir i.logsRoot engine.logsRoot → i.node = node →
    ∀ inv, i.kind = .folder inv → i.engine = e
  first : engine.folderInvocationCounts.getD node 0 = 0 → ∀ i ∈ s.log,
    SameDir i.logsRoot engine.logsRoot → i.kind ≠ .folder 0 → ¬Mistaken i.node i.kind node
  later : engine.folderInvocationCounts.getD node 0 ≠ 0 → ∀ i ∈ s.log,
    SameDir i.logsRoot engine.logsRoot → i.kind = .folder 0 →
      ¬Mistaken node (.folder (engine.folderInvocationCounts.getD node 0)) i.node

/-- The manager was not visited before over this directory, and no folder has the name of its
cycle. -/
structure CycleMeets (s : State) (v : Nat) (visit : Visit) (engine : EngineObject) : Prop where
  slashless : '/' ∉ visit.node.toList
  visited : ∀ i ∈ s.log, SameDir i.logsRoot engine.logsRoot → i.node = visit.node →
    ∀ w number, i.kind = .cycle w number → w = v
  named : ∀ i ∈ s.log, SameDir i.logsRoot engine.logsRoot → i.kind = .folder 0 →
    ¬Mistaken visit.node (.cycle v (visit.cycles + 1)) i.node

/-- What a step has to meet. -/
def State.Meets (s : State) : Action → Prop
  | .folder e node => ∀ engine, s.engine? e = some engine → FolderMeets s e engine node
  | .cycle v => ∀ visit engine, s.visits[v]? = some visit → s.engine? visit.engine = some engine →
      CycleMeets s v visit engine
  | _ => True

/-! ## Numbered names -/

theorem isDigit_of_mem_digits {n : Nat} {c : Char} (h : c ∈ digits n) : c.isDigit = true := by
  rw [digits, Nat.toString_eq_ofList_toDigits, String.toList_ofList] at h
  exact Nat.isDigit_of_mem_toDigits (by omega) (by omega) h

theorem digits_injective {n m : Nat} (h : digits n = digits m) : n = m := by
  rw [digits, digits, Nat.toString_eq_ofList_toDigits, Nat.toString_eq_ofList_toDigits,
    String.toList_ofList, String.toList_ofList] at h
  rw [← Nat.ofDigitChars_ten_toDigits (n := n), h, Nat.ofDigitChars_ten_toDigits]

/-- The number at the end of a text is all of its last digits. -/
theorem takeWhile_numbered {l : List Char} {c : Char} (hc : c.isDigit = false) (n : Nat) :
    (l ++ [c] ++ digits n).reverse.takeWhile Char.isDigit = (digits n).reverse := by
  have hall : ∀ d ∈ (digits n).reverse, d.isDigit = true := fun d hd =>
    isDigit_of_mem_digits (List.mem_reverse.mp hd)
  have hstop : ((l ++ [c]).reverse).takeWhile Char.isDigit = [] := by
    rw [List.reverse_append]
    exact List.takeWhile_cons_of_neg (by rw [hc]; decide)
  rw [List.reverse_append, List.takeWhile_append_of_pos hall, hstop, List.append_nil]

theorem numbered_inj {l l' : List Char} {c c' : Char} {n m : Nat} (hc : c.isDigit = false)
    (hc' : c'.isDigit = false) (h : l ++ [c] ++ digits n = l' ++ [c'] ++ digits m) :
    l = l' ∧ c = c' ∧ n = m := by
  have hdigits : digits n = digits m := by
    rw [← List.reverse_inj, ← takeWhile_numbered hc n, ← takeWhile_numbered hc' m, h]
  rw [hdigits] at h
  obtain ⟨hl, hlast⟩ := List.append_inj' (List.append_cancel_right h) rfl
  exact ⟨hl, List.singleton_inj.mp hlast, digits_injective hdigits⟩

/-! ## Names of directories -/

theorem not_mem_childName {node : String} (h : '/' ∉ node.toList) (kind : Kind) :
    '/' ∉ childName node kind := by
  have hdigits : ∀ n, '/' ∉ digits n := fun n hmem =>
    absurd (isDigit_of_mem_digits hmem) (by decide)
  have hfront : '/' ∉ subgraphWord := by decide +kernel
  have hiter : '/' ∉ iterWord := by decide +kernel
  have hcycle : '/' ∉ cycleWord := by decide +kernel
  have hplain := List.not_mem_append hfront h
  cases kind with
  | folder inv =>
    cases inv with
    | zero => exact hplain
    | succ inv => exact List.not_mem_append (List.not_mem_append hplain hiter) (hdigits _)
  | cycle visit number =>
    exact List.not_mem_append (List.not_mem_append hplain hcycle) (hdigits _)

/-- A name starts as all of them do. -/
theorem childName_head (node : String) (kind : Kind) : ∃ l, childName node kind = 's' :: l := by
  have hword : subgraphWord = 's' :: subgraphWord.tail := by decide +kernel
  cases kind with
  | folder inv =>
    cases inv with
    | zero => exact ⟨_, congrArg (· ++ node.toList) hword⟩
    | succ inv => exact ⟨_, congrArg (· ++ node.toList ++ iterWord ++ digits (inv + 1)) hword⟩
  | cycle visit number =>
    exact ⟨_, congrArg (· ++ node.toList ++ cycleWord ++ digits number) hword⟩

theorem names_childLogs {i : Invocation} (h : '/' ∉ i.node.toList) :
    names i.childLogs = names i.logsRoot ++ [childName i.node i.kind] := by
  obtain ⟨l, hl⟩ := childName_head i.node i.kind
  have hslash := not_mem_childName h i.kind
  have hname : PosixPath.isName (childName i.node i.kind) = true := by
    rw [hl]
    simp [PosixPath.isName, PosixPath.here]
  have hrelative : (childName i.node i.kind).head? ≠ some '/' := by
    rw [hl]
    simp
  rw [Invocation.childLogs, PosixPath.names_join hrelative, PosixPath.names_of_name hname hslash]

theorem sameDir_childLogs_iff {i j : Invocation} (hi : '/' ∉ i.node.toList)
    (hj : '/' ∉ j.node.toList) : SameDir i.childLogs j.childLogs ↔
      SameDir i.logsRoot j.logsRoot ∧ childName i.node i.kind = childName j.node j.kind := by
  unfold SameDir
  rw [names_childLogs hi, names_childLogs hj]
  constructor
  · intro h
    obtain ⟨hroot, hname⟩ := List.append_inj' h rfl
    exact ⟨hroot, List.singleton_inj.mp hname⟩
  · rintro ⟨hroot, hname⟩
    rw [hroot, hname]

/-- A name with a number, parted before the last character of the words. -/
theorem childName_folder {node : String} {inv : Nat} (h : inv ≠ 0) : childName node (.folder inv) =
    subgraphWord ++ node.toList ++ iterWord.dropLast ++ ['r'] ++ digits inv := by
  have hword : iterWord = iterWord.dropLast ++ ['r'] := by decide +kernel
  cases inv with
  | zero => exact absurd rfl h
  | succ inv =>
    rw [List.append_assoc _ iterWord.dropLast, ← hword]
    rfl

theorem childName_cycle (node : String) (visit number : Nat) : childName node (.cycle visit number) =
    subgraphWord ++ node.toList ++ cycleWord.dropLast ++ ['_'] ++ digits number := by
  have hword : cycleWord = cycleWord.dropLast ++ ['_'] := by decide +kernel
  rw [List.append_assoc _ cycleWord.dropLast, ← hword]
  rfl

theorem node_eq {a b : String} {word : List Char} (h : subgraphWord ++ a.toList ++ word =
    subgraphWord ++ b.toList ++ word) : a = b :=
  String.toList_inj.mp (List.append_cancel_left (List.append_cancel_right h))

/-- With a number in both, two names are of the same node and number. -/
theorem eq_of_childName_later {a b : String} {n m : Nat} (hn : n ≠ 0) (hm : m ≠ 0)
    (h : childName a (.folder n) = childName b (.folder m)) : a = b ∧ n = m := by
  rw [childName_folder hn, childName_folder hm] at h
  obtain ⟨hfront, -, hnumber⟩ := numbered_inj (by decide) (by decide) h
  exact ⟨node_eq hfront, hnumber⟩

/-- The names of cycles tell the manager and the cycle. -/
theorem eq_of_childName_cycle {a b : String} {v w n m : Nat}
    (h : childName a (.cycle v n) = childName b (.cycle w m)) : a = b ∧ n = m := by
  rw [childName_cycle, childName_cycle] at h
  obtain ⟨hfront, -, hnumber⟩ := numbered_inj (by decide) (by decide) h
  exact ⟨node_eq hfront, hnumber⟩

/-- A count is not a cycle. -/
theorem childName_later_ne_cycle {a b : String} {v n m : Nat} (hn : n ≠ 0) :
    childName a (.folder n) ≠ childName b (.cycle v m) := by
  intro h
  rw [childName_folder hn, childName_cycle] at h
  obtain ⟨-, hlast, -⟩ := numbered_inj (by decide) (by decide) h
  exact absurd hlast (by decide)

theorem mistaken_of_childName {a b : String} {kind : Kind}
    (h : childName b kind = childName a (.folder 0)) : Mistaken b kind a := by
  have hnumbered : ∀ {word : List Char} {number : Nat},
      subgraphWord ++ b.toList ++ word ++ digits number = subgraphWord ++ a.toList →
        Numbered b word number a := by
    intro word number heq
    rw [List.append_assoc, List.append_assoc] at heq
    rw [Numbered, ← List.append_cancel_left heq, List.append_assoc]
  cases kind with
  | folder inv =>
    cases inv with
    | zero => exact String.toList_inj.mp (List.append_cancel_left h)
    | succ inv => exact hnumbered h
  | cycle visit number => exact hnumbered h

/-! ## What holds over a run -/

/-- The names so far are below what will be given next. -/
structure Good (s : State) : Prop where
  slashless : ∀ i ∈ s.log, '/' ∉ i.node.toList
  counted : ∀ i ∈ s.log, ∀ inv, i.kind = .folder inv →
    ∃ engine, s.engines[i.engine]? = some engine ∧ inv < engine.folderInvocationCounts.getD i.node 0
  cycled : ∀ i ∈ s.log, ∀ v number, i.kind = .cycle v number →
    ∃ visit, s.visits[v]? = some visit ∧ number ≤ visit.cycles
  unshared : s.Unshared

/-- The next directory of a folder is none that was given. -/
theorem FolderMeets.fresh {s : State} {e : Nat} {engine : EngineObject} {node : String}
    (h : FolderMeets s e engine node) (hgood : Good s) (hengine : s.engines[e]? = some engine)
    {inv : Nat} (hinv : engine.folderInvocationCounts.getD node 0 = inv) {j : Invocation}
    (hj : j ∈ s.log) :
    ¬SameDir j.childLogs (Invocation.childLogs ⟨e, engine.logsRoot, node, .folder inv⟩) := by
  rw [sameDir_childLogs_iff (hgood.slashless j hj) h.slashless]
  rintro ⟨hroot, hname⟩
  have hsame : ∀ m, j.kind = .folder m → j.node = node → m < inv := by
    intro m hkind hnode
    obtain ⟨engine', hengine', hlt⟩ := hgood.counted j hj m hkind
    rw [h.counted j hj hroot hnode m hkind, hengine] at hengine'
    cases hengine'
    rwa [hnode, hinv] at hlt
  have hlater := h.later
  have hfirst := h.first
  rw [hinv] at hlater hfirst
  by_cases hzero : inv = 0
  · rw [hzero] at hname
    have hother := mistaken_of_childName hname
    by_cases hkind : j.kind = .folder 0
    · rw [hkind] at hother
      exact absurd (hsame 0 hkind hother) (by omega)
    · exact hfirst hzero j hj hroot hkind hother
  · cases hkind : j.kind with
    | folder m =>
      rw [hkind] at hname
      by_cases hm : m = 0
      · rw [hm] at hname hkind
        exact hlater hzero j hj hroot hkind (mistaken_of_childName hname.symm)
      · obtain ⟨hnode, rfl⟩ := eq_of_childName_later hm hzero hname
        exact absurd (hsame m hkind hnode) (Nat.lt_irrefl m)
    | cycle v number =>
      rw [hkind] at hname
      exact childName_later_ne_cycle hzero hname.symm

/-- The directory of the next cycle is none that was given. -/
theorem CycleMeets.fresh {s : State} {v : Nat} {visit : Visit} {engine : EngineObject}
    (h : CycleMeets s v visit engine) (hgood : Good s) (hvisit : s.visits[v]? = some visit)
    {j : Invocation} (hj : j ∈ s.log) :
    ¬SameDir j.childLogs (Invocation.childLogs
      ⟨visit.engine, engine.logsRoot, visit.node, .cycle v (visit.cycles + 1)⟩) := by
  rw [sameDir_childLogs_iff (hgood.slashless j hj) h.slashless]
  rintro ⟨hroot, hname⟩
  cases hkind : j.kind with
  | folder m =>
    rw [hkind] at hname
    by_cases hm : m = 0
    · rw [hm] at hname hkind
      exact h.named j hj hroot hkind (mistaken_of_childName hname.symm)
    · exact childName_later_ne_cycle hm hname
  | cycle w number =>
    rw [hkind] at hname
    obtain ⟨hnode, hnumber⟩ := eq_of_childName_cycle hname
    obtain rfl := h.visited j hj hroot hnode w number hkind
    obtain ⟨visit', hvisit', hle⟩ := hgood.cycled j hj w number hkind
    rw [hvisit] at hvisit'
    cases hvisit'
    omega

theorem unshared_snoc {log : List Invocation} {i : Invocation}
    (h : log.Pairwise fun i j => ¬SameDir i.childLogs j.childLogs)
    (hfresh : ∀ j ∈ log, ¬SameDir j.childLogs i.childLogs) :
    (log ++ [i]).Pairwise fun i j => ¬SameDir i.childLogs j.childLogs := by
  rw [List.pairwise_append]
  refine ⟨h, List.pairwise_singleton _ _, fun j hj i' hi' => ?_⟩
  rw [List.mem_singleton.mp hi']
  exact hfresh j hj

theorem engine?_eq_some {s : State} {e : Nat} {engine : EngineObject}
    (h : s.engine? e = some engine) : s.engines[e]? = some engine := by
  rw [State.engine?] at h
  split at h
  · exact h
  · cases h

theorem getElem?_of_prefix {α : Type} {l l' : List α} (h : l <+: l') {k : Nat} {x : α}
    (hx : l[k]? = some x) : l'[k]? = some x := by
  obtain ⟨t, rfl⟩ := h
  rwa [List.getElem?_append_left (List.getElem?_eq_some_iff.mp hx).1]

theorem getElem?_set_append {α : Type} {l l' : List α} {k e : Nat} {x y : α} (h : l[k]? = some x) :
    (l.set e y ++ l')[k]? = some (if e = k then y else x) := by
  have hlt : k < l.length := (List.getElem?_eq_some_iff.mp h).1
  rw [List.getElem?_append_left (by rwa [List.length_set]), List.getElem?_set]
  split
  · exact if_pos (by omega)
  · exact h

theorem Good.runFolder {s : State} {e : Nat} {engine : EngineObject} {node : String} (h : Good s)
    (hengine : s.engines[e]? = some engine) (hmeets : FolderMeets s e engine node) :
    Good (runFolder s e engine node) := by
  constructor
  · intro i hi
    rcases List.mem_append.mp hi with hi | hi
    · exact h.slashless i hi
    · rw [List.mem_singleton.mp hi]
      exact hmeets.slashless
  · intro i hi inv hkind
    rcases List.mem_append.mp hi with hi | hi
    · obtain ⟨engine', hengine', hcount⟩ := h.counted i hi inv hkind
      refine ⟨_, getElem?_set_append hengine', ?_⟩
      split
      · rename_i he
        rw [← he, hengine] at hengine'
        cases hengine'
        simp only [Dict.getD, Dict.get?_set] at hcount ⊢
        split
        · rename_i hnode
          rw [← hnode] at hcount
          show inv < _ + 1
          exact Nat.lt_succ_of_lt hcount
        · exact hcount
      · exact hcount
    · rw [List.mem_singleton.mp hi] at hkind ⊢
      refine ⟨_, getElem?_set_append hengine, ?_⟩
      rw [if_pos rfl]
      cases hkind
      simp [Dict.getD]
  · intro i hi v number hkind
    rcases List.mem_append.mp hi with hi | hi
    · exact h.cycled i hi v number hkind
    · rw [List.mem_singleton.mp hi] at hkind
      cases hkind
  · exact unshared_snoc h.unshared fun j hj => hmeets.fresh h hengine rfl hj

theorem Good.runCycle {s : State} {v : Nat} {visit : Visit} {engine : EngineObject} (h : Good s)
    (hvisit : s.visits[v]? = some visit) (hmeets : CycleMeets s v visit engine) :
    Good (runCycle s v visit engine) := by
  have hlt : v < s.visits.length := (List.getElem?_eq_some_iff.mp hvisit).1
  constructor
  · intro i hi
    rcases List.mem_append.mp hi with hi | hi
    · exact h.slashless i hi
    · rw [List.mem_singleton.mp hi]
      exact hmeets.slashless
  · intro i hi inv hkind
    rcases List.mem_append.mp hi with hi | hi
    · obtain ⟨engine', hengine', hcount⟩ := h.counted i hi inv hkind
      exact ⟨engine', getElem?_of_prefix (List.prefix_append _ _) hengine', hcount⟩
    · rw [List.mem_singleton.mp hi] at hkind
      cases hkind
  · intro i hi w number hkind
    show ∃ visit', (s.visits.set v { visit with cycles := visit.cycles + 1 })[w]? = some visit' ∧ _
    rcases List.mem_append.mp hi with hi | hi
    · obtain ⟨visit', hvisit', hle⟩ := h.cycled i hi w number hkind
      by_cases hw : v = w
      · rw [← hw, hvisit] at hvisit'
        cases hvisit'
        exact ⟨_, by rw [← hw, List.getElem?_set_self hlt], Nat.le_succ_of_le hle⟩
      · exact ⟨visit', by rw [List.getElem?_set_ne hw, hvisit'], hle⟩
    · rw [List.mem_singleton.mp hi] at hkind
      cases hkind
      exact ⟨_, List.getElem?_set_self hlt, Nat.le_refl _⟩
  · exact unshared_snoc h.unshared fun j hj => hmeets.fresh h hvisit hj

/-- Further engines and visits change nothing. -/
theorem Good.extended {s s' : State} (h : Good s) (hlog : s'.log = s.log)
    (hengines : s.engines <+: s'.engines) (hvisits : s.visits <+: s'.visits) : Good s' := by
  refine ⟨?_, ?_, ?_, ?_⟩
  · rw [hlog]
    exact h.slashless
  · rw [hlog]
    intro i hi inv hkind
    obtain ⟨engine, hengine, hcount⟩ := h.counted i hi inv hkind
    exact ⟨engine, getElem?_of_prefix hengines hengine, hcount⟩
  · rw [hlog]
    intro i hi v number hkind
    obtain ⟨visit, hvisit, hle⟩ := h.cycled i hi v number hkind
    exact ⟨visit, getElem?_of_prefix hvisits hvisit, hle⟩
  · rw [State.Unshared, hlog]
    exact h.unshared

theorem good_next {s s' : State} {a : Action} (hstep : next s a = some s') (hmeets : s.Meets a)
    (h : Good s) : Good s' := by
  cases a with
  | folder e node =>
    obtain ⟨engine, hengine, rfl⟩ := Option.map_eq_some_iff.mp hstep
    exact h.runFolder (engine?_eq_some hengine) (hmeets engine hengine)
  | visit e node =>
    obtain ⟨engine, -, rfl⟩ := Option.map_eq_some_iff.mp hstep
    exact h.extended rfl (List.prefix_refl _) (List.prefix_append _ _)
  | cycle v =>
    obtain ⟨visit, hvisit, hstep⟩ := Option.bind_eq_some_iff.mp hstep
    obtain ⟨engine, hengine, rfl⟩ := Option.map_eq_some_iff.mp hstep
    exact h.runCycle hvisit (hmeets visit engine hvisit hengine)
  | clone e =>
    obtain ⟨engine, -, rfl⟩ := Option.map_eq_some_iff.mp hstep
    exact h.extended rfl (List.prefix_append _ _) (List.prefix_refl _)
  | resume =>
    cases hstep
    exact h.extended rfl (List.prefix_append _ _) (List.prefix_refl _)

theorem good_begin (logsRoot : List Char) : Good (begin logsRoot) :=
  ⟨nofun, nofun, nofun, .nil⟩

/-- A run of a pipeline, with its resumes. -/
structure Life (logsRoot : List Char) where
  steps : List (Transition State Action)
  last : State
  run : Run (fun s a s' => next s a = some s') (begin logsRoot) steps last

/-- As long as every step meets its conditions, no directory is given twice. -/
theorem unshared_of_meets {logsRoot : List Char} (life : Life logsRoot)
    (hmeets : ∀ t ∈ life.steps, t.source.Meets t.action) : life.last.Unshared := by
  have hkept : ∀ t : Transition State Action, next t.source t.action = some t.target →
      t.source.Meets t.action → Good t.source → Good t.target := fun _ hstep hmeets h =>
    good_next hstep hmeets h
  exact (life.run.invariant_of hkept (good_begin logsRoot) hmeets).unshared

section Demo

def rootState : State := begin ['/', 'r']

def rootEngine : EngineObject := { logsRoot := ['/', 'r'] }

/-- The folder `F` was run once. -/
def folderState : State := runFolder rootState 0 rootEngine "F"

/-- A branch has an engine of its own. -/
def branchState : State :=
  { folderState with
    engines := folderState.engines ++ [{ logsRoot := ['/', 'r'], isBranchClone := true }] }

/-- The branch ran a folder of its own. -/
def branchFolderState : State :=
  runFolder branchState 2 { logsRoot := ['/', 'r'], isBranchClone := true } "G"

/-- A loop runs `F` again, after a branch ran `G`. -/
def loopLife : Life ['/', 'r'] where
  steps := [⟨rootState, .folder 0 "F", folderState⟩, ⟨folderState, .clone 0, branchState⟩,
    ⟨branchState, .folder 2 "G", branchFolderState⟩,
    ⟨branchFolderState, .folder 0 "F", runFolder branchFolderState 0
      { logsRoot := ['/', 'r'], folderInvocationCounts := Dict.empty.set "F" 1 } "F"⟩]
  last := _
  run := .cons rfl (.cons rfl (.cons rfl (.cons rfl .nil)))

theorem loopLife_unshared : loopLife.last.Unshared := by
  refine unshared_of_meets loopLife fun t ht => ?_
  simp only [loopLife, List.mem_cons, List.not_mem_nil, or_false] at ht
  obtain rfl | rfl | rfl | rfl := ht
  · intro engine hengine
    cases hengine
    exact ⟨by decide +kernel, nofun, fun _ => nofun, fun _ => nofun⟩
  · trivial
  · intro engine hengine
    cases hengine
    refine ⟨by decide +kernel, fun i hi _ hnode => ?_, fun _ i hi _ hkind => ?_, fun hcount => ?_⟩
    · rw [List.mem_singleton.mp hi] at hnode
      exact absurd hnode (by decide)
    · rw [List.mem_singleton.mp hi] at hkind
      exact absurd rfl hkind
    · exact absurd rfl hcount
  · intro engine hengine
    cases hengine
    have hkinds : ∀ i ∈ branchFolderState.log, i.node = "F" → i.engine = 0 := by decide
    have hlater : ∀ i ∈ branchFolderState.log, ¬Numbered "F" iterWord 1 i.node := by decide +kernel
    refine ⟨by decide +kernel, fun i hi _ hnode _ _ => hkinds i hi hnode, fun hcount => ?_,
      fun _ i hi _ _ => hlater i hi⟩
    exact absurd hcount (by decide)

/-- A component with a folder in its branch is executed twice: each time the branch has an engine
that never ran the folder. -/
theorem branches_share : ¬∀ (logsRoot : List Char) (life : Life logsRoot), life.last.Unshared := by
  intro h
  have hlife : ∃ life : Life ['/', 'r'], life.last.log =
      [⟨1, ['/', 'r'], "F", .folder 0⟩, ⟨3, ['/', 'r'], "F", .folder 0⟩] :=
    ⟨⟨_, _, .cons (a := .clone 0) rfl (.cons (a := .folder 1 "F") rfl
      (.cons (a := .clone 0) rfl (.cons (a := .folder 3 "F") rfl .nil)))⟩, rfl⟩
  obtain ⟨life, hlog⟩ := hlife
  have hunshared := h ['/', 'r'] life
  rw [State.Unshared, hlog] at hunshared
  exact List.rel_of_pairwise_cons hunshared List.mem_cons_self rfl

end Demo

end ChildDirs
end DotRunner
