import DotRunner.Outcome
import DotRunner.Py.JsonLine
import DotRunner.Py.Ascii

/-!
# Failed steps

The `failed_step` payloads of a failed tool node and of a failed codergen node, which
are cut down when their JSON text is too long.
-/

namespace DotRunner

open Py Json

/-! ## The builders -/

def totalCapBytes : Nat := 8192

/-- `text[:n]` -/
def firstChars (n : Nat) (text : String) : String := String.ofList (text.toList.take n)

/-- `text[-n:]`, for a positive `n` -/
def lastChars (n : Nat) (text : String) : String :=
  String.ofList (text.toList.drop (text.toList.length - n))

section Builders

variable [Runtime]

/-- `len(json.dumps(failed_step))`, which is also the number of bytes: the text is ASCII. -/
def dumpedSize (failedStep : Record) : Nat := (lineText (.dict failedStep.entries)).length

def dropStdout (failedStep : Record) : Record :=
  if totalCapBytes < dumpedSize failedStep then failedStep.erase "stdout_tail" else failedStep

def cutStderr (stderrText : String) (failedStep : Record) : Record :=
  if totalCapBytes < dumpedSize failedStep then
    failedStep.set "stderr_tail" (.str (lastChars 2048 stderrText))
  else failedStep

def cutCommand (command : String) (failedStep : Record) : Record :=
  if totalCapBytes < dumpedSize failedStep then
    failedStep.set "command" (.str (firstChars 200 (firstChars 500 command)))
  else failedStep

def toolGap : Value :=
  .dict [("log_filtered", .bool true), ("where", .str "tool_handler:8KiB-cap")]

/-- The tool handler's payload before it is cut. -/
def capturedStep (command : String) (exitCode : Int) (durationS : ℚ)
    (stdoutText stderrText : String) : Record :=
  Dict.ofList [("command", .str (firstChars 500 command)), ("exit_code", .int exitCode),
    ("duration_s", .float (.finite durationS)), ("stdout_tail", .str stdoutText),
    ("stderr_tail", .str stderrText)]

/-- `_build_failed_step` of the tool handler. -/
def toolFailedStep (command : String) (exitCode : Int) (durationS : ℚ)
    (stdoutText stderrText : String) : Record :=
  let captured := capturedStep command exitCode durationS stdoutText stderrText
  let cut := cutCommand command (cutStderr stderrText (dropStdout captured))
  if totalCapBytes < dumpedSize captured then cut.set "verification_gap" toolGap else cut

def errorValue : Option String → Value
  | some error => .str error
  | none => .none

/-- The codergen handler's payload before it is cut. -/
def exchangeStep (prompt responseTail : String) (error : Option String) : Record :=
  Dict.ofList [("prompt", .str (firstChars 500 prompt)), ("response_tail", .str responseTail),
    ("error", errorValue error)]

def codergenGap : Value := .dict [("log_filtered", .bool true)]

/-- `_build_failed_step` of the codergen handler. -/
def codergenFailedStep (prompt : String) (responseText error : Option String) : Record :=
  let failedStep := exchangeStep prompt (lastChars 2000 (responseText.getD "")) error
  if totalCapBytes < dumpedSize failedStep then
    (failedStep.erase "response_tail").set "verification_gap" codergenGap
  else failedStep

end Builders

/-! ## Sizes -/

/-- The characters of a text as they are written in JSON. -/
def escapedWidth (s : String) : Nat := (s.toList.flatMap escapeChar).length

theorem length_quote (s : String) : (quote s).length = escapedWidth s + 2 := by
  simp [quote, escapedWidth]

section Sizes

variable [Runtime]

/-- The text of an entry, and the separator in front of it. -/
def entrySize (p : String × Value) : Nat := (quote p.1).length + (lineText p.2).length + 4

theorem length_linePairs (kvs : List (String × Value)) :
    (linePairs [',', ' '] kvs).length = (kvs.map entrySize).sum := by
  induction kvs with
  | nil => rfl
  | cons p kvs ih =>
    obtain ⟨k, v⟩ := p
    rw [linePairs, List.map_cons, List.sum_cons, ← ih, entrySize]
    simp only [List.length_append, List.length_cons, List.length_nil]
    omega

/-- The first entry has no separator, and two braces are around all. -/
theorem dumpedSize_eq {failedStep : Record} {p : String × Value} {kvs : List (String × Value)}
    (h : failedStep.entries = p :: kvs) :
    dumpedSize failedStep = ((p :: kvs).map entrySize).sum := by
  obtain ⟨k, v⟩ := p
  rw [dumpedSize, h, lineText, linePairs, List.map_cons, List.sum_cons, ← length_linePairs,
    entrySize]
  simp only [List.length_append, List.length_cons, List.length_nil]
  omega

theorem entrySize_str (key text : String) :
    entrySize (key, .str text) = escapedWidth key + escapedWidth text + 8 := by
  rw [entrySize, length_quote]
  show escapedWidth key + 2 + (quote text).length + 4 = _
  rw [length_quote]
  omega

/-- The entries that are never cut. -/
def fixedSize (exitCode : Int) (durationS : ℚ) : Nat :=
  entrySize ("exit_code", .int exitCode) + entrySize ("duration_s", .float (.finite durationS))

/-- The payload of the tool handler without its standard output. -/
def toolSize (exitCode : Int) (durationS : ℚ) (command stderrTail : String) : Nat :=
  fixedSize exitCode durationS + escapedWidth command + escapedWidth stderrTail + 34

section Stages

variable (command : String) (exitCode : Int) (durationS : ℚ) (stdoutText stderrText : String)

/-- The payload with these texts in it, standard output apart. -/
def cutStep (command stderrTail : String) : Record :=
  Dict.ofList [("command", .str command), ("exit_code", .int exitCode),
    ("duration_s", .float (.finite durationS)), ("stderr_tail", .str stderrTail)]

omit [Runtime] in
/-- The keys of the texts, as they are written. -/
theorem escapedWidth_keys : escapedWidth "command" = 7 ∧ escapedWidth "stdout_tail" = 11 ∧
    escapedWidth "stderr_tail" = 11 := by decide

omit [Runtime] in
theorem entries_captured :
    (capturedStep command exitCode durationS stdoutText stderrText).entries =
      [("command", .str (firstChars 500 command)), ("exit_code", .int exitCode),
        ("duration_s", .float (.finite durationS)), ("stdout_tail", .str stdoutText),
        ("stderr_tail", .str stderrText)] := rfl

theorem dumpedSize_captured :
    dumpedSize (capturedStep command exitCode durationS stdoutText stderrText) =
      toolSize exitCode durationS (firstChars 500 command) stderrText +
        escapedWidth stdoutText + 19 := by
  obtain ⟨hcommand, hstdout, hstderr⟩ := escapedWidth_keys
  rw [dumpedSize_eq (entries_captured command exitCode durationS stdoutText stderrText)]
  simp only [List.map_cons, List.map_nil, List.sum_cons, List.sum_nil, entrySize_str, toolSize,
    fixedSize]
  omega

omit [Runtime] in
theorem entries_cutStep (command stderrTail : String) :
    (cutStep exitCode durationS command stderrTail).entries =
      [("command", .str command), ("exit_code", .int exitCode),
        ("duration_s", .float (.finite durationS)), ("stderr_tail", .str stderrTail)] := rfl

theorem dumpedSize_cutStep (command stderrTail : String) :
    dumpedSize (cutStep exitCode durationS command stderrTail) =
      toolSize exitCode durationS command stderrTail := by
  obtain ⟨hcommand, -, hstderr⟩ := escapedWidth_keys
  rw [dumpedSize_eq (entries_cutStep exitCode durationS command stderrTail)]
  simp only [List.map_cons, List.map_nil, List.sum_cons, List.sum_nil, entrySize_str, toolSize,
    fixedSize]
  omega

theorem dumpedSize_gap (command stderrTail : String) :
    dumpedSize ((cutStep exitCode durationS command stderrTail).set "verification_gap" toolGap) =
      toolSize exitCode durationS command stderrTail + 78 := by
  have hentries : ((cutStep exitCode durationS command stderrTail).set "verification_gap"
      toolGap).entries = [("command", .str command), ("exit_code", .int exitCode),
        ("duration_s", .float (.finite durationS)), ("stderr_tail", .str stderrTail),
        ("verification_gap", toolGap)] := rfl
  have hgap : entrySize ("verification_gap", toolGap) = 78 := rfl
  obtain ⟨hcommand, -, hstderr⟩ := escapedWidth_keys
  rw [dumpedSize_eq hentries]
  simp only [List.map_cons, List.map_nil, List.sum_cons, List.sum_nil, entrySize_str, toolSize,
    fixedSize]
  omega

/-- What is left at the end is the first payload that fits, and the last one in any case. -/
theorem dumpedSize_toolFailedStep :
    dumpedSize (toolFailedStep command exitCode durationS stdoutText stderrText) =
      if toolSize exitCode durationS (firstChars 500 command) stderrText +
          escapedWidth stdoutText + 19 ≤ totalCapBytes then
        toolSize exitCode durationS (firstChars 500 command) stderrText +
          escapedWidth stdoutText + 19
      else if toolSize exitCode durationS (firstChars 500 command) stderrText ≤ totalCapBytes then
        toolSize exitCode durationS (firstChars 500 command) stderrText + 78
      else if toolSize exitCode durationS (firstChars 500 command) (lastChars 2048 stderrText) ≤
          totalCapBytes then
        toolSize exitCode durationS (firstChars 500 command) (lastChars 2048 stderrText) + 78
      else toolSize exitCode durationS (firstChars 200 (firstChars 500 command))
        (lastChars 2048 stderrText) + 78 := by
  have hdropped : (capturedStep command exitCode durationS stdoutText stderrText).erase
      "stdout_tail" = cutStep exitCode durationS (firstChars 500 command) stderrText :=
    Dict.ext rfl
  have hstderr (stderrTail : String) :
      (cutStep exitCode durationS (firstChars 500 command) stderrText).set "stderr_tail"
        (.str stderrTail) = cutStep exitCode durationS (firstChars 500 command) stderrTail :=
    Dict.ext rfl
  have hcommand (stderrTail : String) :
      (cutStep exitCode durationS (firstChars 500 command) stderrTail).set "command"
        (.str (firstChars 200 (firstChars 500 command))) =
          cutStep exitCode durationS (firstChars 200 (firstChars 500 command)) stderrTail :=
    Dict.ext rfl
  have hcaptured := dumpedSize_captured command exitCode durationS stdoutText stderrText
  by_cases hfull : toolSize exitCode durationS (firstChars 500 command) stderrText +
      escapedWidth stdoutText + 19 ≤ totalCapBytes
  · have hfits : ¬ totalCapBytes <
        dumpedSize (capturedStep command exitCode durationS stdoutText stderrText) := by omega
    rw [if_pos hfull, toolFailedStep, dropStdout, if_neg hfits, cutStderr, if_neg hfits, cutCommand,
      if_neg hfits, if_neg hfits, hcaptured]
  · have hlong : totalCapBytes <
        dumpedSize (capturedStep command exitCode durationS stdoutText stderrText) := by omega
    rw [if_neg hfull, toolFailedStep, dropStdout, if_pos hlong, if_pos hlong, hdropped, cutStderr,
      dumpedSize_cutStep]
    by_cases hrest : toolSize exitCode durationS (firstChars 500 command) stderrText ≤ totalCapBytes
    · rw [if_pos hrest, if_neg (by omega), cutCommand, dumpedSize_cutStep, if_neg (by omega),
        dumpedSize_gap]
    · rw [if_neg hrest, if_pos (by omega), hstderr, cutCommand, dumpedSize_cutStep]
      by_cases htail : toolSize exitCode durationS (firstChars 500 command)
          (lastChars 2048 stderrText) ≤ totalCapBytes
      · rw [if_pos htail, if_neg (by omega), dumpedSize_gap]
      · rw [if_neg htail, if_pos (by omega), hcommand, dumpedSize_gap]

end Stages

/-- An error as it is written. -/
def errorSize : Option String → Nat
  | some error => escapedWidth error + 2
  | none => 4

theorem entrySize_error (error : Option String) :
    entrySize ("error", errorValue error) = errorSize error + 11 := by
  cases error with
  | none => rfl
  | some error =>
    have hkey : escapedWidth "error" = 5 := by decide
    rw [errorValue, entrySize_str, hkey, errorSize]
    omega

/-- The payload of the codergen handler without the response. -/
def codergenSize (prompt : String) (error : Option String) : Nat :=
  escapedWidth (firstChars 500 prompt) + errorSize error + 25

theorem dumpedSize_exchangeStep (prompt responseTail : String) (error : Option String) :
    dumpedSize (exchangeStep prompt responseTail error) =
      codergenSize prompt error + escapedWidth responseTail + 21 := by
  have hentries : (exchangeStep prompt responseTail error).entries =
      [("prompt", .str (firstChars 500 prompt)), ("response_tail", .str responseTail),
        ("error", errorValue error)] := rfl
  have hprompt : escapedWidth "prompt" = 6 := by decide
  have hresponse : escapedWidth "response_tail" = 13 := by decide
  rw [dumpedSize_eq hentries]
  simp only [List.map_cons, List.map_nil, List.sum_cons, List.sum_nil, entrySize_str,
    entrySize_error, codergenSize]
  omega

theorem dumpedSize_exchange_cut (prompt responseTail : String) (error : Option String) :
    dumpedSize (((exchangeStep prompt responseTail error).erase "response_tail").set
      "verification_gap" codergenGap) = codergenSize prompt error + 44 := by
  have hentries : (((exchangeStep prompt responseTail error).erase "response_tail").set
      "verification_gap" codergenGap).entries = [("prompt", .str (firstChars 500 prompt)),
        ("error", errorValue error), ("verification_gap", codergenGap)] := rfl
  have hprompt : escapedWidth "prompt" = 6 := by decide
  have hgap : entrySize ("verification_gap", codergenGap) = 44 := rfl
  rw [dumpedSize_eq hentries]
  simp only [List.map_cons, List.map_nil, List.sum_cons, List.sum_nil, entrySize_str,
    entrySize_error, codergenSize]
  omega

theorem dumpedSize_codergenFailedStep (prompt : String) (responseText error : Option String) :
    dumpedSize (codergenFailedStep prompt responseText error) =
      if codergenSize prompt error + escapedWidth (lastChars 2000 (responseText.getD "")) + 21 ≤
          totalCapBytes then
        codergenSize prompt error + escapedWidth (lastChars 2000 (responseText.getD "")) + 21
      else codergenSize prompt error + 44 := by
  have hsize := dumpedSize_exchangeStep prompt (lastChars 2000 (responseText.getD "")) error
  rw [codergenFailedStep]
  by_cases hlong : totalCapBytes <
      dumpedSize (exchangeStep prompt (lastChars 2000 (responseText.getD "")) error)
  · rw [if_pos hlong, if_neg (by omega), dumpedSize_exchange_cut]
  · rw [if_neg hlong, if_pos (by omega), hsize]

/-- What is kept of the standard error may alone be too long. -/
theorem cap_lt_of_wide_stderr {command stdoutText stderrText : String} {exitCode : Int}
    {durationS : ℚ} (hall : totalCapBytes < escapedWidth stderrText)
    (htail : totalCapBytes < escapedWidth (lastChars 2048 stderrText)) :
    totalCapBytes <
      dumpedSize (toolFailedStep command exitCode durationS stdoutText stderrText) := by
  have hwide (command stderrTail : String) :
      escapedWidth stderrTail ≤ toolSize exitCode durationS command stderrTail := by
    rw [toolSize]
    omega
  have hfull := hwide (firstChars 500 command) stderrText
  have hcut := hwide (firstChars 500 command) (lastChars 2048 stderrText)
  have hshort := hwide (firstChars 200 (firstChars 500 command)) (lastChars 2048 stderrText)
  rw [dumpedSize_toolFailedStep, if_neg (by omega), if_neg (by omega), if_neg (by omega)]
  omega

theorem cap_lt_of_wide_error {prompt error : String} {responseText : Option String}
    (h : totalCapBytes < escapedWidth error) :
    totalCapBytes < dumpedSize (codergenFailedStep prompt responseText (some error)) := by
  have hwide : escapedWidth error ≤ codergenSize prompt (some error) := by
    rw [codergenSize, errorSize]
    omega
  rw [dumpedSize_codergenFailedStep, if_neg (by omega)]
  omega

/-! ## The cap -/

/-- The whole payload fits; or the note about what is gone fits as well, with as much gone as
the texts force. -/
def ToolFits (exitCode : Int) (durationS : ℚ) (command stdoutText stderrText : String) : Prop :=
  let size := toolSize exitCode durationS
  let short := firstChars 500 command
  let tail := lastChars 2048 stderrText
  size short stderrText + escapedWidth stdoutText + 19 ≤ totalCapBytes ∨
  size short stderrText + 78 ≤ totalCapBytes ∨
  totalCapBytes < size short stderrText ∧ size short tail + 78 ≤ totalCapBytes ∨
  totalCapBytes < size short stderrText ∧ totalCapBytes < size short tail ∧
    size (firstChars 200 short) tail + 78 ≤ totalCapBytes

def CodergenFits (prompt : String) (responseText error : Option String) : Prop :=
  codergenSize prompt error + escapedWidth (lastChars 2000 (responseText.getD "")) + 21 ≤
    totalCapBytes ∨ codergenSize prompt error + 44 ≤ totalCapBytes

theorem failedStep_within_cap_iff :
    (∀ (command : String) (exitCode : Int) (durationS : ℚ) (stdoutText stderrText : String),
      dumpedSize (toolFailedStep command exitCode durationS stdoutText stderrText) ≤
        totalCapBytes ↔ ToolFits exitCode durationS command stdoutText stderrText) ∧
    ∀ (prompt : String) (responseText error : Option String),
      dumpedSize (codergenFailedStep prompt responseText error) ≤ totalCapBytes ↔
        CodergenFits prompt responseText error := by
  constructor
  · intro command exitCode durationS stdoutText stderrText
    rw [dumpedSize_toolFailedStep, ToolFits]
    split
    · omega
    · split
      · omega
      · split
        · omega
        · omega
  · intro prompt responseText error
    rw [dumpedSize_codergenFailedStep, CodergenFits]
    split
    · omega
    · omega

end Sizes

theorem escapedWidth_replicate (n : Nat) (c : Char) :
    escapedWidth (String.ofList (List.replicate n c)) = n * (escapeChar c).length := by
  simp [escapedWidth, List.length_flatMap]

theorem lastChars_replicate (n : Nat) (c : Char) :
    lastChars n (String.ofList (List.replicate n c)) = String.ofList (List.replicate n c) := by
  simp [lastChars]

/-- A character outside the first plane. -/
def grinning : Char := Char.ofNat 0x1F600

section Demo

open Py.Ascii

/-- Two thousand characters are kept of the standard error, and each may take twelve bytes; of
an exception nothing is cut. -/
theorem long_payloads :
    totalCapBytes < dumpedSize (toolFailedStep "make" 2 1 ""
      (String.ofList (List.replicate 2048 grinning))) ∧
    totalCapBytes < dumpedSize (codergenFailedStep "" none
      (some (String.ofList (List.replicate 9000 'x')))) := by
  have hwide := escapedWidth_replicate 2048 grinning
  have htwelve : (escapeChar grinning).length = 12 := by decide
  have hlong := escapedWidth_replicate 9000 'x'
  have hone : (escapeChar 'x').length = 1 := by decide
  have hcap : totalCapBytes = 8192 := rfl
  constructor
  · apply cap_lt_of_wide_stderr
    · omega
    · rw [lastChars_replicate]
      omega
  · apply cap_lt_of_wide_error
    omega

end Demo

end DotRunner
