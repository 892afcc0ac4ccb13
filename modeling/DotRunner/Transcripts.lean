import DotRunner.Py.Dict

/-!
# Thread transcripts

The exchanges a backend keeps for `fidelity=full`, thread by thread.  A node that runs
again takes its place back, and what came after it is forgotten.
-/

namespace DotRunner

open Py

structure Turn where
  nodeId : String
  instruction : String
  output : String

/-- `_thread_transcripts` -/
abbrev Transcripts := Dict String (List Turn)

/-- `turns[:i]` for the first turn of the node, all of them where it has none. -/
def truncateTo (nodeId : String) (turns : List Turn) : List Turn :=
  turns.take (turns.findIdx fun turn => turn.nodeId == nodeId)

/-- `_append_to_transcript` -/
def appendToTranscript (t : Transcripts) (threadKey : String) (turn : Turn) : Transcripts :=
  t.set threadKey (truncateTo turn.nodeId (t.getD threadKey []) ++ [turn])

/-- A backend that has seen these exchanges, the first one first. -/
def transcriptsAfter (calls : List (String × Turn)) : Transcripts :=
  calls.foldl (fun t call => appendToTranscript t call.1 call.2) Dict.empty

/-! ## One append -/

theorem truncateTo_eq_takeWhile (nodeId : String) (turns : List Turn) :
    truncateTo nodeId turns = turns.takeWhile fun turn => turn.nodeId != nodeId := by
  rw [truncateTo, List.takeWhile_eq_take_findIdx_not]
  simp only [bne, Bool.not_not]

theorem truncateTo_isPrefix (nodeId : String) (turns : List Turn) :
    truncateTo nodeId turns <+: turns := List.take_prefix _ _

theorem ne_of_mem_truncateTo {nodeId : String} {turns : List Turn} {turn : Turn}
    (h : turn ∈ truncateTo nodeId turns) : turn.nodeId ≠ nodeId := by
  rw [truncateTo_eq_takeWhile] at h
  have hall := List.all_eq_true.mp List.all_takeWhile turn h
  simpa using hall

theorem truncateTo_of_forall_ne {nodeId : String} {turns : List Turn}
    (h : ∀ turn ∈ turns, turn.nodeId ≠ nodeId) : truncateTo nodeId turns = turns := by
  have hnone : turns.findIdx (fun turn => turn.nodeId == nodeId) = turns.length := by
    rw [List.findIdx_eq_length]
    intro turn hturn
    simpa using h turn hturn
  rw [truncateTo, hnone, List.take_length]

theorem truncateTo_append {nodeId : String} {before after : List Turn} {turn : Turn}
    (h : ∀ turn ∈ before, turn.nodeId ≠ nodeId) (hturn : turn.nodeId = nodeId) :
    truncateTo nodeId (before ++ turn :: after) = before := by
  rw [truncateTo_eq_takeWhile, List.takeWhile_append_of_pos fun t ht => by simpa using h t ht]
  simp [hturn]

theorem getD_appendToTranscript (t : Transcripts) (threadKey : String) (turn : Turn) :
    (appendToTranscript t threadKey turn).getD threadKey [] =
      truncateTo turn.nodeId (t.getD threadKey []) ++ [turn] := by
  rw [Dict.getD, appendToTranscript, Dict.get?_set_self]
  rfl

theorem getD_appendToTranscript_of_ne {t : Transcripts} {threadKey other : String}
    (h : other ≠ threadKey) (turn : Turn) :
    (appendToTranscript t threadKey turn).getD other [] = t.getD other [] := by
  rw [Dict.getD, appendToTranscript, Dict.get?_set_of_ne _ _ h.symm]
  rfl

/-- No node has two turns. -/
def AtMostOnce (turns : List Turn) : Prop := (turns.map Turn.nodeId).Nodup

theorem atMostOnce_append {turns : List Turn} (h : AtMostOnce turns) (turn : Turn) :
    AtMostOnce (truncateTo turn.nodeId turns ++ [turn]) := by
  have hkept : (truncateTo turn.nodeId turns).map Turn.nodeId <+: turns.map Turn.nodeId :=
    (truncateTo_isPrefix turn.nodeId turns).map Turn.nodeId
  rw [AtMostOnce, List.map_append, List.nodup_append]
  refine ⟨hkept.sublist.nodup h, List.nodup_singleton _, ?_⟩
  intro a ha b hb hab
  obtain ⟨old, hold, rfl⟩ := List.mem_map.mp ha
  have hne := ne_of_mem_truncateTo hold
  rw [List.map_singleton, List.mem_singleton] at hb
  exact hne (hab.trans hb)

/-! ## All appends -/

/-- What an append makes of the turns of a backend. -/
structure Appended (t t' : Transcripts) (threadKey : String) (turn : Turn) : Prop where
  /-- a node that has run on the thread: what came before it stays, what came after goes -/
  replaces : ∀ before old after, t.getD threadKey [] = before ++ old :: after →
    old.nodeId = turn.nodeId → t'.getD threadKey [] = before ++ [turn]
  /-- a node that has not -/
  appends : (∀ old ∈ t.getD threadKey [], old.nodeId ≠ turn.nodeId) →
    t'.getD threadKey [] = t.getD threadKey [] ++ [turn]
  others : ∀ other, other ≠ threadKey → t'.get? other = t.get? other
  idempotent : appendToTranscript t' threadKey turn = t'

theorem transcriptsAfter_snoc (calls : List (String × Turn)) (call : String × Turn) :
    transcriptsAfter (calls ++ [call]) =
      appendToTranscript (transcriptsAfter calls) call.1 call.2 := List.foldl_append

theorem atMostOnce_transcriptsAfter (calls : List (String × Turn)) (threadKey : String) :
    AtMostOnce ((transcriptsAfter calls).getD threadKey []) := by
  induction calls using List.reverseRecOn with
  | nil => exact List.nodup_nil
  | append_singleton calls call ih =>
    rw [transcriptsAfter_snoc]
    by_cases h : threadKey = call.1
    · subst h
      rw [getD_appendToTranscript]
      exact atMostOnce_append ih call.2
    · rw [getD_appendToTranscript_of_ne h]
      exact ih

/-- In a thread without repetition nothing in front of a turn is of the same node. -/
theorem AtMostOnce.ne_before {before after : List Turn} {old : Turn}
    (h : AtMostOnce (before ++ old :: after)) : ∀ turn ∈ before, turn.nodeId ≠ old.nodeId := by
  intro turn hturn
  rw [AtMostOnce, List.map_append, List.nodup_append] at h
  exact h.2.2 _ (List.mem_map_of_mem hturn) _ (by simp)

theorem appended {t : Transcripts} {threadKey : String} (h : AtMostOnce (t.getD threadKey []))
    (turn : Turn) : Appended t (appendToTranscript t threadKey turn) threadKey turn where
  replaces := by
    intro before old after hturns hold
    have hbefore := (hturns ▸ h).ne_before
    rw [hold] at hbefore
    rw [getD_appendToTranscript, hturns, truncateTo_append hbefore hold]
  appends := by
    intro hnew
    rw [getD_appendToTranscript, truncateTo_of_forall_ne hnew]
  others := fun other hother => Dict.get?_set_of_ne _ _ hother.symm
  idempotent := by
    have hkept : truncateTo turn.nodeId (truncateTo turn.nodeId (t.getD threadKey []) ++ [turn]) =
        truncateTo turn.nodeId (t.getD threadKey []) :=
      truncateTo_append (fun _ hold => ne_of_mem_truncateTo hold) rfl
    have hsame := getD_appendToTranscript t threadKey turn
    rw [appendToTranscript, hsame, hkept]
    apply Dict.set_of_get?
    exact Dict.get?_set_self _ _ _

/-- After any exchanges no node has two turns on a thread, and one more append is as it should
be. -/
theorem transcripts_keep_order (calls : List (String × Turn)) (threadKey : String) (turn : Turn) :
    AtMostOnce ((transcriptsAfter calls).getD threadKey []) ∧
      Appended (transcriptsAfter calls) (transcriptsAfter (calls ++ [(threadKey, turn)])) threadKey
        turn := by
  have honce := atMostOnce_transcriptsAfter calls threadKey
  rw [transcriptsAfter_snoc]
  exact ⟨honce, appended honce turn⟩

end DotRunner
