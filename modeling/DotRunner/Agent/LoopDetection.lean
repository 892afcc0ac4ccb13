import DotRunner.Agent.Session

/-!
# Loop detection

When `LoopDetector.check` warns: what it compares stretch by stretch is whether the
window has a period, but only one that fills the window is looked for.
-/

namespace DotRunner
namespace Agent

/-! ## Periods -/

section Periods

variable {α : Type}

/-- Each entry equals the one `p` places before it. -/
def HasPeriod (p : Nat) (l : List α) : Prop := ∀ i, i + p < l.length → l[i + p]? = l[i]?

instance [DecidableEq α] (p : Nat) (l : List α) : Decidable (HasPeriod p l) :=
  decidable_of_iff (∀ i < l.length, i + p < l.length → l[i + p]? = l[i]?)
    ⟨fun h i hi => h i (by omega) hi, fun h i _ hi => h i hi⟩

/-- Entries `p` places apart are equal, however many times `p`. -/
theorem HasPeriod.mod {p : Nat} {l : List α} (h : HasPeriod p l) (i : Nat) (hi : i < l.length) :
    l[i]? = l[i % p]? := by
  induction i using Nat.strongRecOn with
  | ind i ih =>
    by_cases hsmall : i < p
    · rw [Nat.mod_eq_of_lt hsmall]
    · by_cases hp : p = 0
      · rw [hp, Nat.mod_zero]
      · have hback : l[i]? = l[i - p]? := by
          have hstep := h (i - p) (by omega)
          rwa [Nat.sub_add_cancel (by omega)] at hstep
        rw [hback, ih (i - p) (by omega) (by omega), ← Nat.mod_eq_sub_mod (by omega)]

/-- A period is the repetition of the first stretch of its length. -/
theorem hasPeriod_iff_mod {p : Nat} (hp : 0 < p) (l : List α) :
    HasPeriod p l ↔ ∀ i < l.length, l[i]? = (l.take p)[i % p]? := by
  have htake : ∀ i, (l.take p)[i % p]? = l[i % p]? := fun i =>
    List.getElem?_take_of_lt (Nat.mod_lt i hp)
  simp only [htake]
  constructor
  · exact fun h i hi => h.mod i hi
  · intro h i hi
    rw [h (i + p) hi, h i (by omega), Nat.add_mod_right]

end Periods

namespace LoopDetector

/-- Stretches of `n` that are all the pattern: each entry is that of the pattern at its place. -/
theorem repeats_iff {n : Nat} {pattern : List String} (hn : 0 < n) (hpattern : pattern.length = n) :
    ∀ {fuel : Nat} {recent : List String}, n ∣ recent.length → recent.length ≤ fuel →
      (repeats n pattern fuel recent = true ↔ ∀ i < recent.length, recent[i]? = pattern[i % n]?) := by
  intro fuel
  induction fuel with
  | zero =>
    intro recent _ hfuel
    simp only [repeats, true_iff]
    omega
  | succ fuel ih =>
    intro recent hdvd hfuel
    by_cases hempty : recent = []
    · simp [repeats, hempty]
    · have hpos := List.length_pos_of_ne_nil hempty
      have hle := Nat.le_of_dvd hpos hdvd
      have hdrop : n ∣ (recent.drop n).length := by
        rw [List.length_drop]
        exact Nat.dvd_sub hdvd (Nat.dvd_refl n)
      have hrest := ih hdrop (by simp only [List.length_drop]; omega)
      simp only [repeats, List.isEmpty_eq_false_iff.mpr hempty, Bool.false_or, Bool.and_eq_true,
        beq_iff_eq, hrest]
      constructor
      · intro ⟨hfirst, hlater⟩ i hi
        by_cases hsmall : i < n
        · rw [Nat.mod_eq_of_lt hsmall, ← hfirst, List.getElem?_take_of_lt hsmall]
        · have hstep := hlater (i - n) (by simp only [List.length_drop]; omega)
          rwa [List.getElem?_drop, Nat.add_sub_cancel' (by omega),
            ← Nat.mod_eq_sub_mod (by omega)] at hstep
      · intro h
        constructor
        · apply List.ext_getElem?
          intro i
          by_cases hsmall : i < n
          · rw [List.getElem?_take_of_lt hsmall, h i (by omega), Nat.mod_eq_of_lt hsmall]
          · rw [List.getElem?_eq_none (by simp only [List.length_take]; omega),
              List.getElem?_eq_none (by omega)]
        · intro i hi
          rw [List.length_drop] at hi
          rw [List.getElem?_drop, h (n + i) (by omega), Nat.add_mod_left]

/-- For stretches that fill the window, the comparison is that of a period. -/
theorem repeats_iff_hasPeriod {n : Nat} {recent : List String} (hn : 0 < n)
    (hdvd : n ∣ recent.length) :
    repeats n (recent.take n) recent.length recent = true ↔ HasPeriod n recent := by
  by_cases hempty : recent = []
  · rw [hempty]
    simp [repeats, HasPeriod]
  · have hle := Nat.le_of_dvd (List.length_pos_of_ne_nil hempty) hdvd
    rw [repeats_iff hn (by simp only [List.length_take]; omega) hdvd (Nat.le_refl _),
      hasPeriod_iff_mod hn]

section Runs

variable [Signatures]

/-- `f"{tool_name}:{args_hash}"` -/
def signature (call : ToolCall) : String := call.name ++ ":" ++ Signatures.argsHash call.arguments

/-- The detector after these calls. -/
def recorded (w : Nat) (calls : List ToolCall) : LoopDetector := calls.foldl record ⟨w, []⟩

/-- The last `w` signatures. -/
def window (w : Nat) (calls : List ToolCall) : List String :=
  (calls.map signature).drop (calls.length - w)

omit [Signatures] in
/-- What a window holds is what it held, and the new entry, but for the oldest. -/
theorem drop_append_drop {α : Type} (l : List α) (a : α) (w : Nat) :
    ((l.drop (l.length - w)) ++ [a]).drop ((l.drop (l.length - w) ++ [a]).length - w) =
      (l ++ [a]).drop ((l ++ [a]).length - w) := by
  have hfront : l.drop (l.length - w) ++ [a] = (l ++ [a]).drop (l.length - w) :=
    (List.drop_append_of_le_length (by omega)).symm
  rw [hfront, List.drop_drop]
  congr 1
  simp only [List.length_drop, List.length_append, List.length_singleton]
  omega

theorem recorded_signatures (w : Nat) (calls : List ToolCall) :
    recorded w calls = ⟨w, window w calls⟩ := by
  induction calls using List.reverseRecOn with
  | nil => simp [recorded, window]
  | append_singleton calls call ih =>
    rw [recorded, List.foldl_append, ← recorded, ih]
    have hdrop := drop_append_drop (calls.map signature) (signature call) w
    simp only [List.length_map] at hdrop
    simp only [List.foldl_cons, List.foldl_nil, record, window, List.map_append, List.map_cons,
      List.map_nil]
    congr 1
    simpa [signature] using hdrop

theorem length_window (w : Nat) (calls : List ToolCall) :
    (window w calls).length = min w calls.length := by
  simp only [window, List.length_drop, List.length_map]
  omega

/-- The last `w` calls follow a pattern of at most three calls that fills the window. -/
def Repeating (w : Nat) (calls : List ToolCall) : Prop :=
  w ≤ calls.length ∧ ∃ p ∈ [1, 2, 3], p ∣ w ∧ HasPeriod p (window w calls)

def warningText (w : Nat) : String :=
  "Loop detected: the last " ++ toString w ++
    " tool calls follow a repeating pattern. Try a different approach."

theorem anyRepeats_iff {w : Nat} {calls : List ToolCall} (hlong : w ≤ calls.length) :
    ([1, 2, 3].any fun n =>
      w % n == 0 && repeats n ((window w calls).take n) w (window w calls)) = true ↔
      ∃ p ∈ [1, 2, 3], p ∣ w ∧ HasPeriod p (window w calls) := by
  have hlen : (window w calls).length = w := by
    rw [length_window]
    omega
  simp only [List.any_eq_true, Bool.and_eq_true, beq_iff_eq]
  refine exists_congr fun p => and_congr_right fun hp => ?_
  have hpos : 0 < p := by
    simp only [List.mem_cons, List.not_mem_nil, or_false] at hp
    omega
  rw [← Nat.dvd_iff_mod_eq_zero]
  refine and_congr_right fun hdvd => ?_
  have hdvd' : p ∣ (window w calls).length := by rwa [hlen]
  have hperiod := repeats_iff_hasPeriod hpos hdvd'
  rwa [hlen] at hperiod

theorem check_of_repeating {w : Nat} {calls : List ToolCall} (h : Repeating w calls) :
    (recorded w calls).check = some (warningText w) := by
  rw [recorded_signatures]
  simp only [check, length_window]
  rw [if_neg (by have := h.1; omega), if_pos ((anyRepeats_iff h.1).mpr h.2)]
  rfl

theorem check_of_not_repeating {w : Nat} {calls : List ToolCall} (h : ¬Repeating w calls) :
    (recorded w calls).check = none := by
  rw [recorded_signatures]
  simp only [check, length_window]
  by_cases hlong : w ≤ calls.length
  · rw [if_neg (by omega), if_neg fun hany => h ⟨hlong, (anyRepeats_iff hlong).mp hany⟩]
  · rw [if_pos (by omega)]

/-- The detector warns of a pattern that fills its window, and of nothing else. -/
theorem check_exact (w : Nat) (calls : List ToolCall) :
    ((recorded w calls).check = some (warningText w) ↔ Repeating w calls) ∧
      ((recorded w calls).check = none ↔ ¬Repeating w calls) := by
  by_cases h : Repeating w calls
  · rw [check_of_repeating h]
    simp [h]
  · rw [check_of_not_repeating h]
    simp [h]

end Runs

/-- A call of the tool of this name, without arguments. -/
def callOf (name : String) : ToolCall := ⟨"", name, .dict []⟩

/-- Three calls in turn, ten of them. -/
def threeInTurn : List ToolCall :=
  ["a", "b", "c", "a", "b", "c", "a", "b", "c", "a"].map callOf

theorem signature_callOf [Signatures] {a b : String} (h : signature (callOf a) = signature (callOf b)) :
    a = b := by
  simpa [signature, callOf] using h

/-- A period of three does not fill a window of ten, whatever the hash. -/
theorem thirds_overlooked :
    10 ≤ threeInTurn.length ∧ ∀ _hash : Signatures,
      HasPeriod 3 (window 10 threeInTurn) ∧ (recorded 10 threeInTurn).check = none := by
  refine ⟨by decide, fun _hash => ⟨?_, ?_⟩⟩
  · have hcalls : ∀ i < 7, threeInTurn[i + 3]? = threeInTurn[i]? := by
      intro i hi
      match i, hi with
      | 0, _ | 1, _ | 2, _ | 3, _ | 4, _ | 5, _ | 6, _ => rfl
    intro i hi
    rw [length_window] at hi
    have hlen : threeInTurn.length = 10 := rfl
    show (threeInTurn.map signature)[i + 3]? = (threeInTurn.map signature)[i]?
    rw [List.getElem?_map, List.getElem?_map, hcalls i (by omega)]
  · apply check_of_not_repeating
    intro ⟨_, p, hp, hdvd, hperiod⟩
    have hstep := hperiod 0
    rw [length_window] at hstep
    have hlen : threeInTurn.length = 10 := rfl
    simp only [List.mem_cons, List.not_mem_nil, or_false] at hp
    obtain rfl | rfl | rfl := hp
    · exact absurd (signature_callOf (Option.some.inj (hstep (by omega)))) (by decide)
    · exact absurd (signature_callOf (Option.some.inj (hstep (by omega)))) (by decide)
    · omega

end LoopDetector
end Agent
end DotRunner
