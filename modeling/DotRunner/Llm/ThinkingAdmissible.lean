import DotRunner.Llm.AnthropicThinking

/-!
# What goes out with thinking on

Anthropic takes a request with extended thinking only with a budget within limits,
a temperature of 1 and the beta header.  The adapter sees to all of it; the caller's
options may put something else in its place.
-/

namespace DotRunner
namespace Llm
namespace Anthropic

open Py Gathering

/-! ## On the wire -/

/-- The entries of `extra_body`, which go out over the other parameters. -/
def bodyOf (kwargs : Record) : Record :=
  match extraBodyOf kwargs with
  | .ok body => body
  | .error _ => Dict.empty

/-- A parameter as it goes out. -/
def wire (kwargs : Record) (key : String) : Option Value :=
  ((bodyOf kwargs).get? key).or (kwargs.get? key)

def entryOf (v : Option Value) (key : String) : Option Value :=
  (v.bind entriesOf).bind fun entries => entries.get? key

def numberOf (v : Option Value) : Option ℚ := v.bind Value.number

def Enabled (thinking : Option Value) : Prop := entryOf thinking "type" = some (.str "enabled")

/-- A budget of 1024 at least, and strictly below the limit. -/
def InLimits (thinking maxTokens : Option Value) : Prop :=
  ∃ budget limit, numberOf (entryOf thinking "budget_tokens") = some budget ∧
    numberOf maxTokens = some limit ∧ 1024 ≤ budget ∧ budget < limit

def HasFlag [Runtime] (flag : String) (headers : Record) : Prop :=
  ∃ v, headers.get? betaHeader = some v ∧ containsFlag flag v = .ok true

/-- The header of the request has the flag. -/
def Flagged [Runtime] (flag : String) (kwargs : Record) : Prop :=
  ∃ headers, headersOf kwargs = .ok headers ∧ HasFlag flag headers

/-- What Anthropic asks of a request with thinking on. -/
structure Admissible [Runtime] (kwargs : Record) (breakpoint : Bool) : Prop where
  limits : InLimits (wire kwargs "thinking") (wire kwargs "max_tokens")
  temperature : numberOf (wire kwargs "temperature") = some 1
  thinkingFlag : Flagged thinkingBeta kwargs
  cacheFlag : breakpoint = true → Flagged cacheBeta kwargs

/-! ## Moving parameters into the body -/

theorem bodyOf_extraBody {kwargs body : Record} (h : extraBodyOf kwargs = .ok body) :
    bodyOf kwargs = body := by
  rw [bodyOf, h]

theorem bodyOf_congr {kwargs kwargs' : Record}
    (h : kwargs'.get? "extra_body" = kwargs.get? "extra_body") : bodyOf kwargs' = bodyOf kwargs := by
  rw [bodyOf, bodyOf, extraBodyOf, extraBodyOf, h]

theorem extraBodyOf_set (kwargs body : Record) :
    extraBodyOf (kwargs.set "extra_body" (.dict body.entries)) = .ok body := by
  have hof : dictOf (.dict body.entries) = .ok body := by
    rw [dictOf.eq_def, entriesOf_dict]
  rw [extraBodyOf, Dict.get?_set_self]
  dsimp only
  split
  · exact hof
  · rename_i hempty
    have hnil : body.entries = [] := by simpa [Value.truthy] using hempty
    have hbody : body = Dict.empty := Dict.ext hnil
    rw [hbody]

theorem bodyOf_set_extraBody (kwargs body : Record) :
    bodyOf (kwargs.set "extra_body" (.dict body.entries)) = body :=
  bodyOf_extraBody (extraBodyOf_set kwargs body)

/-- A parameter moved into the body goes out as it did before. -/
theorem wire_relocate {kwargs kwargs' : Record} {key : String} (h : relocate kwargs key = .ok kwargs')
    {k : String} (hk : k ≠ "extra_body") : wire kwargs' k = wire kwargs k := by
  rw [relocate] at h
  split at h
  · cases h
    rfl
  · rename_i value hvalue
    obtain ⟨body, hbody, h⟩ := bind_ok_iff.mp h
    cases h
    rw [wire, wire, bodyOf_set_extraBody, bodyOf_extraBody hbody,
      Dict.get?_set_of_ne _ _ (Ne.symm hk), Dict.get?_erase]
    by_cases hkey : key = k
    · subst hkey
      by_cases hthere : body.contains key = true
      · obtain ⟨v, hv⟩ := Option.isSome_iff_exists.mp hthere
        simp [hthere, hv]
      · have hnone : body.get? key = none := by
          simpa [Dict.contains] using hthere
        simp [hthere, hnone, hvalue]
    · by_cases hthere : body.contains key = true
      · simp [hthere, hkey]
      · simp [hthere, hkey]

theorem wire_relocateAll {keys : List String} {kwargs kwargs' : Record}
    (h : keys.foldlM relocate kwargs = .ok kwargs') {k : String} (hk : k ≠ "extra_body") :
    wire kwargs' k = wire kwargs k := by
  induction keys generalizing kwargs with
  | nil =>
    cases h
    rfl
  | cons key keys ih =>
    rw [List.foldlM_cons] at h
    obtain ⟨kwargs₁, hstep, h⟩ := bind_ok_iff.mp h
    rw [ih h, wire_relocate hstep hk]

theorem relocate_other {kwargs kwargs' : Record} {key : String}
    (h : relocate kwargs key = .ok kwargs') {k : String} (hk : k ≠ "extra_body") (hkey : key ≠ k) :
    kwargs'.get? k = kwargs.get? k := by
  rw [relocate] at h
  split at h
  · cases h
    rfl
  · obtain ⟨body, _, h⟩ := bind_ok_iff.mp h
    cases h
    rw [Dict.get?_set_of_ne _ _ (Ne.symm hk), Dict.get?_erase, if_neg hkey]

theorem relocateAll_other {keys : List String} {kwargs kwargs' : Record}
    (h : keys.foldlM relocate kwargs = .ok kwargs') {k : String} (hk : k ≠ "extra_body")
    (hkeys : k ∉ keys) : kwargs'.get? k = kwargs.get? k := by
  induction keys generalizing kwargs with
  | nil =>
    cases h
    rfl
  | cons key keys ih =>
    rw [List.foldlM_cons] at h
    obtain ⟨kwargs₁, hstep, h⟩ := bind_ok_iff.mp h
    have hne : key ≠ k := fun heq => hkeys (by rw [heq]; exact List.mem_cons_self)
    rw [ih h (fun hmem => hkeys (List.mem_cons_of_mem key hmem)), relocate_other hstep hk hne]

/-! ## The adapter's own parameters -/

section Own

variable [Runtime] (messagesValue : List WireMessage → Value) (request : GenerationRequest)
  (payload : Payload)

omit [Runtime] in
theorem get?_setUnless {skip : Prop} [Decidable skip] (kwargs : Record) {key k : String} (v : Value)
    (h : key ≠ k) : (setUnless skip kwargs key v).get? k = kwargs.get? k := by
  rw [setUnless]
  split
  · rfl
  · rw [Dict.get?_set_of_ne _ _ h]

omit [Runtime] in
theorem get?_applyToolChoice (kwargs : Record) (choice : ToolChoice) {k : String}
    (htools : "tools" ≠ k) (hchoice : "tool_choice" ≠ k) :
    (applyToolChoice kwargs choice).get? k = kwargs.get? k := by
  rw [applyToolChoice]
  repeat' split
  all_goals simp [htools, hchoice]

omit [Runtime] in
theorem get?_applyResponseFormat (kwargs : Record) {k : String} (htools : "tools" ≠ k)
    (hchoice : "tool_choice" ≠ k) :
    (applyResponseFormat kwargs request).get? k = kwargs.get? k := by
  rw [applyResponseFormat]
  repeat' split
  all_goals simp [htools, hchoice]

omit [Runtime] in
/-- The parameters no generation parameter touches. -/
theorem get?_generationParams {k : String}
    (hk : k ∉ ["system", "tools", "tool_choice", "temperature", "top_p", "stop_sequences"]) :
    (generationParams messagesValue request payload).get? k =
      (Dict.ofList [("model", .str request.model), ("messages", messagesValue payload.messages),
        ("max_tokens", .int (maxTokensOf request))] : Record).get? k := by
  simp only [List.mem_cons, List.not_mem_nil, or_false, not_or] at hk
  obtain ⟨hsystem, htools, hchoice, htemperature, htopP, hstop⟩ := hk
  rw [generationParams, get?_applyResponseFormat _ _ (Ne.symm htools) (Ne.symm hchoice),
    get?_setUnless _ _ (Ne.symm hstop), get?_setUnless _ _ (Ne.symm htopP),
    get?_setUnless _ _ (Ne.symm htemperature)]
  split
  · rw [get?_applyToolChoice _ _ (Ne.symm htools) (Ne.symm hchoice),
      get?_setUnless _ _ (Ne.symm htools), get?_setUnless _ _ (Ne.symm hsystem)]
  · rw [get?_setUnless _ _ (Ne.symm htools), get?_setUnless _ _ (Ne.symm hsystem)]

omit [Runtime] in
theorem asksForThinking_iff :
    asksForThinking request = true ↔
      ∃ effort, request.reasoningEffort = some effort ∧ 1024 < maxTokensOf request := by
  rw [asksForThinking]
  cases request.reasoningEffort <;> simp

theorem applyThinking_off (kwargs : Record) (h : asksForThinking request = false) :
    applyThinking kwargs request = kwargs := by
  rw [applyThinking]
  rw [asksForThinking] at h
  split
  · rfl
  · rename_i effort heffort
    rw [heffort] at h
    rw [if_neg (by simpa using h)]

theorem applyThinking_on (kwargs : Record) {effort : String}
    (heffort : request.reasoningEffort = some effort) (hmax : 1024 < maxTokensOf request) :
    applyThinking kwargs request =
      ((kwargs.set "thinking" (thinkingOf (clampBudget (effortToBudget effort)
        (maxTokensOf request)))).set "temperature" (.float (.finite 1))).set
        "extra_headers" (object [(betaHeader, .str thinkingBeta)]) := by
  rw [applyThinking, heffort]
  exact if_pos hmax

theorem own_maxTokens :
    (ownKwargs messagesValue request payload).get? "max_tokens" =
      some (.int (maxTokensOf request)) := by
  have hparams := get?_generationParams messagesValue request payload (k := "max_tokens")
    (by decide)
  have hlookup : (Dict.ofList [("model", .str request.model),
      ("messages", messagesValue payload.messages),
      ("max_tokens", .int (maxTokensOf request))] : Record).get? "max_tokens" =
      some (.int (maxTokensOf request)) := rfl
  rw [ownKwargs]
  cases hasks : asksForThinking request with
  | false => rw [applyThinking_off request _ hasks, hparams, hlookup]
  | true =>
    obtain ⟨effort, heffort, hmax⟩ := (asksForThinking_iff request).mp hasks
    rw [applyThinking_on request _ heffort hmax]
    simp [hparams, hlookup]

theorem own_unset {k : String}
    (hk : k ∉ ["model", "messages", "max_tokens", "system", "tools", "tool_choice", "temperature",
      "top_p", "stop_sequences", "thinking", "extra_headers"]) :
    (ownKwargs messagesValue request payload).get? k = none := by
  simp only [List.mem_cons, List.not_mem_nil, or_false, not_or] at hk
  obtain ⟨hmodel, hmessages, hmax, hsystem, htools, hchoice, htemperature, htopP, hstop, hthinking,
    hheaders⟩ := hk
  have hparams := get?_generationParams messagesValue request payload (k := k)
    (by simp [hsystem, htools, hchoice, htemperature, htopP, hstop])
  have hlookup : (Dict.ofList [("model", .str request.model),
      ("messages", messagesValue payload.messages),
      ("max_tokens", .int (maxTokensOf request))] : Record).get? k = none := by
    have hget := Dict.get?_setAll (Dict.empty : Record) [("model", .str request.model),
      ("messages", messagesValue payload.messages), ("max_tokens", .int (maxTokensOf request))]
      (show (["model", "messages", "max_tokens"] : List String).Nodup by decide) k
    rw [Dict.ofList, hget]
    simp [Dict.lookup, Ne.symm hmodel, Ne.symm hmessages, Ne.symm hmax]
  rw [ownKwargs]
  cases hasks : asksForThinking request with
  | false => rw [applyThinking_off request _ hasks, hparams, hlookup]
  | true =>
    obtain ⟨effort, heffort, hlimit⟩ := (asksForThinking_iff request).mp hasks
    rw [applyThinking_on request _ heffort hlimit]
    simp [hparams, hlookup, Ne.symm hthinking, Ne.symm htemperature, Ne.symm hheaders]

/-- The thinking the adapter turns on itself. -/
def ownThinking : Option Value :=
  match request.reasoningEffort with
  | none => none
  | some effort =>
    if 1024 < maxTokensOf request then
      some (thinkingOf (clampBudget (effortToBudget effort) (maxTokensOf request)))
    else none

theorem own_thinking :
    (ownKwargs messagesValue request payload).get? "thinking" = ownThinking request := by
  have hparams : (generationParams messagesValue request payload).get? "thinking" = none :=
    get?_generationParams messagesValue request payload (by decide)
  rw [ownKwargs, applyThinking, ownThinking]
  cases request.reasoningEffort with
  | none => exact hparams
  | some effort =>
    by_cases hmax : 1024 < maxTokensOf request
    · simp [hmax]
    · simp [hmax, hparams]

theorem own_headers :
    (ownKwargs messagesValue request payload).get? "extra_headers" =
      if asksForThinking request then some (object [(betaHeader, .str thinkingBeta)]) else none := by
  rw [ownKwargs]
  cases hasks : asksForThinking request with
  | false =>
    rw [applyThinking_off request _ hasks]
    exact get?_generationParams messagesValue request payload (by decide)
  | true =>
    obtain ⟨effort, heffort, hmax⟩ := (asksForThinking_iff request).mp hasks
    rw [applyThinking_on request _ heffort hmax]
    simp

theorem own_on_temperature (h : asksForThinking request = true) :
    numberOf ((ownKwargs messagesValue request payload).get? "temperature") = some 1 := by
  obtain ⟨effort, heffort, hmax⟩ := (asksForThinking_iff request).mp h
  rw [ownKwargs, applyThinking_on request _ heffort hmax]
  simp [numberOf, Value.number]

omit [Runtime] in
theorem entryOf_thinkingOf (budget : Int) :
    entryOf (some (thinkingOf budget)) "type" = some (.str "enabled") ∧
      entryOf (some (thinkingOf budget)) "budget_tokens" = some (.int budget) :=
  ⟨rfl, rfl⟩

theorem enabled_ownThinking : Enabled (ownThinking request) ↔ asksForThinking request = true := by
  rw [asksForThinking_iff, ownThinking]
  constructor
  · intro h
    split at h
    · cases h
    · rename_i effort heffort
      split at h
      · rename_i hmax
        exact ⟨effort, heffort, hmax⟩
      · cases h
  · rintro ⟨effort, heffort, hmax⟩
    rw [heffort]
    dsimp only
    rw [if_pos hmax]
    exact (entryOf_thinkingOf _).1

/-- The adapter's own budget is within limits. -/
theorem ownThinking_inLimits (h : asksForThinking request = true) :
    InLimits (ownThinking request) (some (.int (maxTokensOf request))) := by
  obtain ⟨effort, heffort, hmax⟩ := (asksForThinking_iff request).mp h
  rw [ownThinking, heffort]
  dsimp only
  rw [if_pos hmax]
  refine ⟨(clampBudget (effortToBudget effort) (maxTokensOf request) : Int),
    (maxTokensOf request : Int), ?_, rfl, ?_, ?_⟩
  · rw [(entryOf_thinkingOf _).2]
    rfl
  · have hle : (1024 : Int) ≤ clampBudget (effortToBudget effort) (maxTokensOf request) :=
      le_max_right _ _
    exact_mod_cast hle
  · have hlt : clampBudget (effortToBudget effort) (maxTokensOf request) <
        maxTokensOf request := by
      rw [clampBudget]
      omega
    exact_mod_cast hlt

omit [Runtime] in
theorem get?_setUnless_self {skip : Prop} [Decidable skip] (kwargs : Record) (key : String)
    (v : Value) : (setUnless skip kwargs key v).get? key =
      if skip then kwargs.get? key else some v := by
  rw [setUnless]
  split
  · rfl
  · rw [Dict.get?_set_self]

omit [Runtime] in
theorem number_of_isNone {v : Value} (h : isNone v = true) : v.number = none := by
  cases v with
  | none => rfl
  | _ => cases h

/-- Without thinking of its own the adapter sends the caller's temperature. -/
theorem own_off_temperature (h : asksForThinking request = false) :
    numberOf ((ownKwargs messagesValue request payload).get? "temperature") =
      request.temperature.number := by
  have hbase : (Dict.ofList [("model", .str request.model),
      ("messages", messagesValue payload.messages),
      ("max_tokens", .int (maxTokensOf request))] : Record).get? "temperature" = none := rfl
  have hbefore : ∀ kwargs : Record, kwargs.get? "temperature" = none →
      numberOf ((setUnless (isNone request.temperature) kwargs "temperature"
        request.temperature).get? "temperature") = request.temperature.number := by
    intro kwargs hkwargs
    rw [get?_setUnless_self]
    split
    · rename_i hisNone
      rw [hkwargs, number_of_isNone hisNone]
      rfl
    · rfl
  rw [ownKwargs, applyThinking_off request _ h, generationParams,
    get?_applyResponseFormat _ _ (by decide) (by decide), get?_setUnless _ _ (by decide),
    get?_setUnless _ _ (by decide)]
  refine hbefore _ ?_
  split
  · rw [get?_applyToolChoice _ _ (by decide) (by decide), get?_setUnless _ _ (by decide),
      get?_setUnless _ _ (by decide), hbase]
  · rw [get?_setUnless _ _ (by decide), get?_setUnless _ _ (by decide), hbase]

end Own

/-! ## The caller's options -/

theorem lookup_filter_key {α : Type} (q : String → Bool) (k : String) (l : List (String × α)) :
    Dict.lookup k (l.filter fun p => q p.1) = if q k then Dict.lookup k l else none := by
  induction l with
  | nil => simp [Dict.lookup]
  | cons p l ih =>
    obtain ⟨k', a⟩ := p
    by_cases hq : q k' = true
    · rw [List.filter_cons, if_pos (show q (k', a).1 = true from hq), Dict.lookup, Dict.lookup, ih]
      by_cases hk : k' = k
      · subst hk
        simp [hq]
      · simp [hk]
    · rw [List.filter_cons, if_neg (show ¬ q (k', a).1 = true from hq), ih, Dict.lookup]
      by_cases hk : k' = k
      · subst hk
        simp [hq]
      · simp [hk]

/-- The options go over the adapter's own parameters. -/
theorem get?_applyOptions (own options : Record) {k : String} (hk : k ≠ "auto_cache") :
    (applyOptions own options).get? k = (options.get? k).or (own.get? k) := by
  have hnodup : ((options.entries.filter fun p =>
      p.1 != "extra_headers" && p.1 != "auto_cache").map Prod.fst).Nodup :=
    options.nodup.sublist (List.filter_sublist.map Prod.fst)
  rw [applyOptions, Dict.get?_setAll _ _ hnodup,
    lookup_filter_key fun key => key != "extra_headers" && key != "auto_cache"]
  by_cases hheaders : k = "extra_headers"
  · subst hheaders
    cases hoption : options.get? "extra_headers" with
    | none => simp
    | some headers => simp
  · have hkeep : (k != "extra_headers" && k != "auto_cache") = true := by simp [hheaders, hk]
    rw [if_pos hkeep]
    cases hoption : options.get? "extra_headers" with
    | none => rfl
    | some headers =>
      dsimp only
      rw [Dict.get?_set_of_ne _ _ (Ne.symm hheaders)]
      rfl

/-- A parameter as the caller's options and the adapter give it. -/
def sent (own options : Record) (key : String) : Option Value :=
  ((bodyOf options).get? key).or ((options.get? key).or (own.get? key))

theorem wire_applyOptions {own options : Record} (hown : own.get? "extra_body" = none) {k : String}
    (hk : k ≠ "auto_cache") : wire (applyOptions own options) k = sent own options k := by
  have hbody : bodyOf (applyOptions own options) = bodyOf options := by
    refine bodyOf_congr ?_
    rw [get?_applyOptions own options (by decide), hown, Option.or_none]
  rw [wire, hbody, get?_applyOptions own options hk, sent]

/-! ## Cache breakpoints -/

section Cache

variable [Runtime]

omit [Runtime] in
theorem markLast_other {kwargs kwargs' : Record} {key : String} {b : Bool}
    (h : markLast kwargs key = .ok (kwargs', b)) {k : String} (hk : key ≠ k) :
    kwargs'.get? k = kwargs.get? k := by
  rw [markLast] at h
  split at h
  · split at h
    · cases h
      rfl
    · split at h
      · cases h
        rw [Dict.get?_set_of_ne _ _ hk]
      · cases h
  · cases h
    rfl

omit [Runtime] in
theorem markBreakpoints_other {kwargs kwargs' : Record} {b : Bool}
    (h : markBreakpoints kwargs = .ok (kwargs', b)) {k : String} (hsystem : "system" ≠ k)
    (htools : "tools" ≠ k) : kwargs'.get? k = kwargs.get? k := by
  rw [markBreakpoints] at h
  obtain ⟨⟨kwargs₁, onSystem⟩, h₁, h⟩ := bind_ok_iff.mp h
  obtain ⟨⟨kwargs₂, onTools⟩, h₂, h⟩ := bind_ok_iff.mp h
  cases h
  rw [markLast_other h₂ htools, markLast_other h₁ hsystem]

/-- Is a breakpoint put in? -/
def breakpointOf (kwargs options : Record) : Bool :=
  autoCache options && match markBreakpoints kwargs with
    | .ok (_, hasCacheable) => hasCacheable
    | .error _ => false

/-- The headers that go out, with the flag for caching where there is a breakpoint. -/
def headersWith (breakpoint : Bool) (headers : Option Value) : Except PyExc Record := do
  let headers ← headersFrom headers
  if breakpoint then flagHeaders headers else return headers

/-- What the end of the translation does to the arguments. -/
structure Finished (kwargs : Record) (breakpoint : Bool) (kwargs' : Record) : Prop where
  wire : ∀ k, k ≠ "system" → k ≠ "tools" → k ≠ "extra_headers" → k ≠ "extra_body" →
    wire kwargs' k = wire kwargs k
  flagged : breakpoint = true → ∃ headers, headersOf kwargs' = .ok headers ∧
    headersWith true (kwargs.get? "extra_headers") = .ok headers
  plain : breakpoint = false → kwargs'.get? "extra_headers" = kwargs.get? "extra_headers"

omit [Runtime] in
theorem wire_of_get? {kwargs kwargs' : Record} {k : String}
    (hbody : kwargs'.get? "extra_body" = kwargs.get? "extra_body")
    (hk : kwargs'.get? k = kwargs.get? k) : wire kwargs' k = wire kwargs k := by
  rw [wire, wire, bodyOf_congr hbody, hk]

theorem injectCacheControl_finished {kwargs kwargs' : Record}
    (h : injectCacheControl kwargs = .ok kwargs') :
    ∃ marked b, markBreakpoints kwargs = .ok (marked, b) ∧ Finished kwargs b kwargs' := by
  rw [injectCacheControl] at h
  obtain ⟨⟨marked, b⟩, hmark, h⟩ := bind_ok_iff.mp h
  refine ⟨marked, b, hmark, ?_⟩
  have hheaders : marked.get? "extra_headers" = kwargs.get? "extra_headers" :=
    markBreakpoints_other hmark (by decide) (by decide)
  have hbody : marked.get? "extra_body" = kwargs.get? "extra_body" :=
    markBreakpoints_other hmark (by decide) (by decide)
  cases b with
  | false =>
    cases h
    exact ⟨fun k hs ht _ _ => wire_of_get? hbody (markBreakpoints_other hmark (Ne.symm hs)
      (Ne.symm ht)), nofun, fun _ => hheaders⟩
  | true =>
    obtain ⟨headers, hfrom, h⟩ := bind_ok_iff.mp h
    obtain ⟨headers', hflag, h⟩ := bind_ok_iff.mp h
    cases h
    refine ⟨fun k hs ht hh _ => wire_of_get? ?_ ?_, fun _ => ⟨headers', ?_, ?_⟩, nofun⟩
    · rw [Dict.get?_set_of_ne _ _ (by decide), hbody]
    · rw [Dict.get?_set_of_ne _ _ (Ne.symm hh), markBreakpoints_other hmark (Ne.symm hs)
        (Ne.symm ht)]
    · rw [headersOf, Dict.get?_set_self, headersFrom, entriesOf_dict]
    · rw [headersOf, hheaders] at hfrom
      rw [headersWith, hfrom]
      exact hflag

theorem finishKwargs_finished {own options kwargs : Record}
    (h : finishKwargs own options = .ok kwargs) :
    Finished (applyOptions own options) (breakpointOf (applyOptions own options) options) kwargs := by
  rw [finishKwargs] at h
  obtain ⟨cached, hcache, h⟩ := bind_ok_iff.mp h
  have hwire : ∀ k, k ≠ "extra_body" → wire kwargs k = wire cached k :=
    fun k hk => wire_relocateAll h hk
  have hheaders : kwargs.get? "extra_headers" = cached.get? "extra_headers" :=
    relocateAll_other h (by decide) (by decide)
  rw [breakpointOf]
  rw [cacheControl] at hcache
  cases hauto : autoCache options with
  | false =>
    rw [hauto] at hcache
    cases hcache
    exact ⟨fun k _ _ _ hk => hwire k hk, nofun, fun _ => hheaders⟩
  | true =>
    rw [hauto] at hcache
    obtain ⟨marked, b, hmark, hfinished⟩ := injectCacheControl_finished hcache
    rw [hmark]
    refine ⟨fun k hs ht hh hk => ?_, fun hb => ?_, fun hb => ?_⟩
    · rw [hwire k hk, hfinished.wire k hs ht hh hk]
    · obtain ⟨headers, hout, hwith⟩ := hfinished.flagged hb
      refine ⟨headers, ?_, hwith⟩
      rw [headersOf, hheaders]
      exact hout
    · rw [hheaders, hfinished.plain hb]

/-! ## The headers -/

omit [Runtime] in
theorem containsFlag_text {flag s : String} :
    containsFlag flag (.str s) = .ok true ↔ flag.toList <:+: s.toList := by
  rw [containsFlag, Except.ok.injEq, Text.occurs_iff_infix]

theorem hasFlag_of_get? {flag : String} {headers : Record} {v : Value}
    (h : headers.get? betaHeader = some v) :
    HasFlag flag headers ↔ containsFlag flag v = .ok true := by
  rw [HasFlag, h]
  constructor
  · rintro ⟨w, hw, hflag⟩
    cases hw
    exact hflag
  · exact fun hflag => ⟨v, rfl, hflag⟩

/-- The header with the flag for caching behind what it holds. -/
def withCacheBeta (existing : Value) : String :=
  if existing.truthy then existing.toStr ++ "," ++ cacheBeta else cacheBeta

theorem flagHeaders_cases {headers headers' : Record} (h : flagHeaders headers = .ok headers') :
    containsFlag cacheBeta (headers.getD betaHeader (.str "")) = .ok true ∧ headers' = headers ∨
      headers' = headers.set betaHeader
        (.str (withCacheBeta (headers.getD betaHeader (.str "")))) := by
  rw [flagHeaders] at h
  obtain ⟨there, hthere, h⟩ := bind_ok_iff.mp h
  cases there with
  | true => exact .inl ⟨hthere, (Except.ok.inj h).symm⟩
  | false => exact .inr (Except.ok.inj h).symm

/-- The headers come out with the flag for caching. -/
theorem flagHeaders_hasFlag {headers headers' : Record} (h : flagHeaders headers = .ok headers') :
    HasFlag cacheBeta headers' := by
  obtain ⟨hthere, rfl⟩ | rfl := flagHeaders_cases h
  · cases hget : headers'.get? betaHeader with
    | none =>
      rw [Dict.getD, hget] at hthere
      exact absurd (containsFlag_text.mp hthere) (by simp [cacheBeta])
    | some v =>
      rw [Dict.getD, hget] at hthere
      exact (hasFlag_of_get? hget).mpr hthere
  · rw [hasFlag_of_get? (Dict.get?_set_self _ _ _), containsFlag_text, withCacheBeta]
    split
    · rw [String.toList_append]
      exact (List.suffix_append _ _).isInfix
    · exact List.infix_rfl

/-- A flag that stands in a text stays there, and none comes in but the one for caching. -/
theorem flagHeaders_keeps {headers headers' : Record} {flag s : String}
    (hs : headers.get? betaHeader = some (.str s)) (hempty : flag.toList ≠ [])
    (hcomma : ',' ∉ flag.toList) (hcache : ¬ flag.toList <:+: cacheBeta.toList)
    (h : flagHeaders headers = .ok headers') :
    HasFlag flag headers' ↔ flag.toList <:+: s.toList := by
  have hexisting : headers.getD betaHeader (.str "") = .str s := by rw [Dict.getD, hs]; rfl
  obtain ⟨-, rfl⟩ | rfl := flagHeaders_cases h
  · rw [hasFlag_of_get? hs, containsFlag_text]
  · rw [hasFlag_of_get? (Dict.get?_set_self _ _ _), containsFlag_text, hexisting, withCacheBeta]
    by_cases hs : s = ""
    · have hnil : ¬ flag.toList <:+: ([] : List Char) := fun hinfix =>
        hempty (List.infix_nil.mp hinfix)
      subst hs
      exact ⟨fun hinfix => absurd hinfix hcache, fun hinfix => absurd hinfix hnil⟩
    · have htruthy : (Value.str s).truthy = true := by simpa [Value.truthy] using hs
      have hjoin : ((Value.str s).toStr ++ "," ++ cacheBeta).toList =
          s.toList ++ ',' :: cacheBeta.toList := by
        simp [Value.toStr]
      rw [if_pos htruthy, hjoin, Text.infix_append_cons_iff hcomma]
      exact or_iff_left hcache

/-- Headers of the caller with which the flag for thinking goes out. -/
def KeepsFlag (breakpoint : Bool) (headers : Value) : Prop :=
  ∃ headers', headersWith breakpoint (some headers) = .ok headers' ∧ HasFlag thinkingBeta headers'

theorem headersWith_eq {breakpoint : Bool} {headers : Option Value} {entries : Record}
    (h : headersFrom headers = .ok entries) :
    headersWith breakpoint headers =
      if breakpoint = true then flagHeaders entries else .ok entries := by
  rw [headersWith, h]
  rfl

/-- A header that is text has to have the flag itself. -/
theorem keepsFlag_text {headers : Value} {entries : Record} {s : String} (breakpoint : Bool)
    (hentries : entriesOf headers = some entries) (hs : entries.get? betaHeader = some (.str s)) :
    KeepsFlag breakpoint headers ↔ thinkingBeta.toList <:+: s.toList := by
  have hfrom : headersFrom (some headers) = .ok entries := by rw [headersFrom, hentries]
  rw [KeepsFlag, headersWith_eq hfrom]
  cases breakpoint with
  | false =>
    rw [if_neg (by decide)]
    constructor
    · rintro ⟨headers', h, hflag⟩
      cases h
      exact containsFlag_text.mp ((hasFlag_of_get? hs).mp hflag)
    · exact fun hflag => ⟨entries, rfl, (hasFlag_of_get? hs).mpr (containsFlag_text.mpr hflag)⟩
  | true =>
    rw [if_pos rfl]
    have hok : ∃ headers', flagHeaders entries = .ok headers' := by
      rw [flagHeaders, Dict.getD, hs]
      exact ⟨_, rfl⟩
    obtain ⟨headers', hheaders'⟩ := hok
    have hempty : thinkingBeta.toList ≠ [] := by decide +kernel
    have hcomma : ',' ∉ thinkingBeta.toList := by decide +kernel
    have hcache : ¬ thinkingBeta.toList <:+: cacheBeta.toList := by decide +kernel
    have hkeeps := flagHeaders_keeps hs hempty hcomma hcache hheaders'
    constructor
    · rintro ⟨headers'', h, hflag⟩
      rw [hheaders'] at h
      cases h
      exact hkeeps.mp hflag
    · exact fun hflag => ⟨headers', hheaders', hkeeps.mpr hflag⟩

/-- Where nobody has set the header, the flag for thinking is not there. -/
theorem not_flag_of_unset {breakpoint : Bool} {headers : Option Value} {entries headers' : Record}
    (hfrom : headersFrom headers = .ok entries) (hunset : entries.get? betaHeader = none)
    (h : headersWith breakpoint headers = .ok headers') : ¬ HasFlag thinkingBeta headers' := by
  rw [headersWith_eq hfrom] at h
  cases breakpoint with
  | false =>
    cases h
    rintro ⟨v, hv, -⟩
    rw [hunset] at hv
    cases hv
  | true =>
    have hcache : ¬ thinkingBeta.toList <:+: cacheBeta.toList := by decide +kernel
    have hexisting : entries.getD betaHeader (.str "") = .str "" := by rw [Dict.getD, hunset]; rfl
    obtain ⟨hthere, -⟩ | rfl := flagHeaders_cases h
    · rw [hexisting] at hthere
      exact absurd (containsFlag_text.mp hthere) (by simp [cacheBeta])
    · rw [hasFlag_of_get? (Dict.get?_set_self _ _ _), containsFlag_text, hexisting]
      exact hcache

theorem Finished.headersOf_eq {kwargs kwargs' : Record} {breakpoint : Bool}
    (h : Finished kwargs breakpoint kwargs') :
    headersOf kwargs' = headersWith breakpoint (kwargs.get? "extra_headers") := by
  cases breakpoint with
  | false =>
    rw [headersOf, h.plain rfl, headersWith]
    cases headersFrom (kwargs.get? "extra_headers") <;> rfl
  | true =>
    obtain ⟨headers, hout, hwith⟩ := h.flagged rfl
    rw [hout, hwith]

end Cache

/-! ## Admissible requests -/

section Requests

variable [Runtime] (messagesValue : List WireMessage → Value) (request : GenerationRequest)

/-- A translation that goes through. -/
structure Translated where
  payload : Payload
  options : Record
  kwargs : Record
  messages_read : translateRequest request.toRequest = .ok payload
  options_read : optionsOf request = .ok options
  finished : finishKwargs (ownKwargs messagesValue request payload) options = .ok kwargs

variable {messagesValue request}

namespace Translated

def own (t : Translated messagesValue request) : Record :=
  ownKwargs messagesValue request t.payload

/-- Has a cache breakpoint been put in? -/
def breakpoint (t : Translated messagesValue request) : Bool :=
  breakpointOf (applyOptions t.own t.options) t.options

theorem translateKwargs_eq (t : Translated messagesValue request) :
    translateKwargs messagesValue request = .ok t.kwargs := by
  rw [translateKwargs, t.messages_read, t.options_read]
  show liftRaised (finishKwargs (ownKwargs messagesValue request t.payload) t.options) = _
  rw [t.finished, liftRaised]

end Translated

omit [Runtime] in
theorem liftRaised_ok {α : Type} {r : Except PyExc α} {a : α} (h : liftRaised r = .ok a) :
    r = .ok a := by
  cases r with
  | ok b => exact congrArg Except.ok (Except.ok.inj h)
  | error e => cases h

/-- What the adapter translates, it translates so. -/
theorem translated_of_ok {kwargs : Record} (h : translateKwargs messagesValue request = .ok kwargs) :
    ∃ t : Translated messagesValue request, t.kwargs = kwargs := by
  rw [translateKwargs] at h
  cases hread : translateRequest request.toRequest with
  | error e =>
    rw [hread] at h
    cases h
  | ok payload =>
    rw [hread] at h
    obtain ⟨payload', hpayload, h⟩ := bind_ok_iff.mp h
    cases hpayload
    obtain ⟨options, hoptions, h⟩ := bind_ok_iff.mp h
    exact ⟨⟨payload, options, kwargs, hread, liftRaised_ok hoptions, liftRaised_ok h⟩, rfl⟩

/-- What the caller's options put in the place of a parameter. -/
def callers (options : Record) (key : String) : Option Value :=
  ((bodyOf options).get? key).or (options.get? key)

/-- The caller's options leave the request admissible. -/
structure LeavesAdmissible (request : GenerationRequest) (options : Record) (breakpoint : Bool) :
    Prop where
  limits : (callers options "thinking").isSome ∨ (callers options "max_tokens").isSome →
    InLimits ((callers options "thinking").or (ownThinking request))
      ((callers options "max_tokens").or (some (.int (maxTokensOf request))))
  temperature : match callers options "temperature" with
    | some v => v.number = some 1
    | none => asksForThinking request = true ∨ request.temperature.number = some 1
  header : match options.get? "extra_headers" with
    | some headers => KeepsFlag breakpoint headers
    | none => asksForThinking request = true

namespace Translated

variable (t : Translated messagesValue request)

theorem wire_kwargs {k : String} (hsystem : k ≠ "system") (htools : k ≠ "tools")
    (hheaders : k ≠ "extra_headers") (hbody : k ≠ "extra_body") (hcache : k ≠ "auto_cache") :
    wire t.kwargs k = (callers t.options k).or (t.own.get? k) := by
  have hown : t.own.get? "extra_body" = none := own_unset messagesValue request t.payload (by decide)
  have hfinished := (finishKwargs_finished t.finished).wire k hsystem htools hheaders hbody
  have hsent : wire (applyOptions t.own t.options) k = sent t.own t.options k :=
    wire_applyOptions hown hcache
  rw [hfinished]
  exact hsent.trans (by rw [sent, callers, Option.or_assoc])

theorem wire_thinking :
    wire t.kwargs "thinking" = (callers t.options "thinking").or (ownThinking request) := by
  rw [t.wire_kwargs (by decide) (by decide) (by decide) (by decide) (by decide), own,
    own_thinking]

theorem wire_maxTokens :
    wire t.kwargs "max_tokens" =
      (callers t.options "max_tokens").or (some (.int (maxTokensOf request))) := by
  rw [t.wire_kwargs (by decide) (by decide) (by decide) (by decide) (by decide), own,
    own_maxTokens]

theorem temperature_iff :
    numberOf (wire t.kwargs "temperature") = some 1 ↔
      match callers t.options "temperature" with
      | some v => v.number = some 1
      | none => asksForThinking request = true ∨ request.temperature.number = some 1 := by
  rw [t.wire_kwargs (by decide) (by decide) (by decide) (by decide) (by decide), own]
  cases callers t.options "temperature" with
  | some v => exact Iff.rfl
  | none =>
    rw [Option.none_or]
    cases hasks : asksForThinking request with
    | true => simp [own_on_temperature messagesValue request t.payload hasks]
    | false => simp [own_off_temperature messagesValue request t.payload hasks]

theorem flagged_iff {flag : String} :
    Flagged flag t.kwargs ↔ ∃ headers, headersWith t.breakpoint
      ((t.options.get? "extra_headers").or (t.own.get? "extra_headers")) = .ok headers ∧
        HasFlag flag headers := by
  have hheaders := (finishKwargs_finished t.finished).headersOf_eq
  rw [get?_applyOptions _ _ (by decide)] at hheaders
  rw [Flagged, hheaders]
  rfl

theorem thinkingFlag_iff :
    Flagged thinkingBeta t.kwargs ↔
      match t.options.get? "extra_headers" with
      | some headers => KeepsFlag t.breakpoint headers
      | none => asksForThinking request = true := by
  rw [flagged_iff]
  cases t.options.get? "extra_headers" with
  | some headers => exact Iff.rfl
  | none =>
    rw [Option.none_or, own, own_headers]
    cases hasks : asksForThinking request with
    | true =>
      have hkeeps : KeepsFlag t.breakpoint (object [(betaHeader, .str thinkingBeta)]) ↔ _ :=
        keepsFlag_text t.breakpoint rfl rfl
      exact ⟨fun _ => rfl, fun _ => hkeeps.mpr List.infix_rfl⟩
    | false =>
      constructor
      · rintro ⟨headers, hwith, hflag⟩
        exact absurd hflag (not_flag_of_unset rfl rfl hwith)
      · nofun

/-- The flag for caching goes out with every breakpoint. -/
theorem cacheFlag (h : t.breakpoint = true) : Flagged cacheBeta t.kwargs := by
  obtain ⟨headers, hout, hwith⟩ := (finishKwargs_finished t.finished).flagged h
  rw [headersWith] at hwith
  obtain ⟨headers', _, hflag⟩ := bind_ok_iff.mp hwith
  exact ⟨headers, hout, flagHeaders_hasFlag hflag⟩

theorem limits_iff (h : Enabled (wire t.kwargs "thinking")) :
    InLimits (wire t.kwargs "thinking") (wire t.kwargs "max_tokens") ↔
      ((callers t.options "thinking").isSome ∨ (callers t.options "max_tokens").isSome →
        InLimits ((callers t.options "thinking").or (ownThinking request))
          ((callers t.options "max_tokens").or (some (.int (maxTokensOf request))))) := by
  rw [wire_thinking] at h
  rw [wire_thinking, wire_maxTokens]
  refine ⟨fun hlimits _ => hlimits, fun hlimits => ?_⟩
  by_cases hset : (callers t.options "thinking").isSome ∨ (callers t.options "max_tokens").isSome
  · exact hlimits hset
  · obtain ⟨hthinking, hmax⟩ := not_or.mp hset
    rw [Option.not_isSome_iff_eq_none] at hthinking hmax
    rw [hthinking, Option.none_or] at h
    rw [hthinking, hmax, Option.none_or, Option.none_or]
    exact ownThinking_inLimits request ((enabled_ownThinking request).mp h)

end Translated

/-- A request goes out admissible with thinking on, unless the caller's options put an
inadmissible limit, temperature or header in the place of the adapter's. -/
theorem thinking_admissible_iff (t : Translated messagesValue request) :
    (Enabled (wire t.kwargs "thinking") → Admissible t.kwargs t.breakpoint) ↔
      (Enabled ((callers t.options "thinking").or (ownThinking request)) →
        LeavesAdmissible request t.options t.breakpoint) := by
  rw [← t.wire_thinking]
  refine forall_congr' fun henabled => ?_
  constructor
  · intro h
    exact ⟨(t.limits_iff henabled).mp h.limits, t.temperature_iff.mp h.temperature,
      t.thinkingFlag_iff.mp h.thinkingFlag⟩
  · intro h
    exact ⟨(t.limits_iff henabled).mpr h.limits, t.temperature_iff.mpr h.temperature,
      t.thinkingFlag_iff.mpr h.header, t.cacheFlag⟩

end Requests

section Demo

open Py.Ascii

/-- Thinking with a header of the caller's own. -/
def traced : GenerationRequest where
  messages := []
  model := "claude"
  reasoningEffort := some "high"
  maxTokens := some 32000
  providerOptions := Dict.ofList [("anthropic", object [("extra_headers",
    object [("x-trace", .str "1")])])]

/-- Its own header drives the flag for thinking out. -/
theorem thinking_flag_dropped :
    ¬ ∀ t : Translated (fun _ => .list []) traced,
      Enabled (wire t.kwargs "thinking") → Admissible t.kwargs t.breakpoint := by
  intro h
  have hfinish : ∃ kwargs, finishKwargs (ownKwargs (fun _ => .list []) traced ⟨[], []⟩)
      (Dict.ofList [("extra_headers", object [("x-trace", .str "1")])]) = .ok kwargs := ⟨_, rfl⟩
  obtain ⟨kwargs, hkwargs⟩ := hfinish
  let t : Translated (fun _ => .list []) traced := ⟨⟨[], []⟩, _, kwargs, rfl, rfl, hkwargs⟩
  have henabled : Enabled (wire t.kwargs "thinking") := by
    rw [t.wire_thinking]
    exact rfl
  obtain ⟨headers, hwith, hflag⟩ : KeepsFlag t.breakpoint (object [("x-trace", .str "1")]) :=
    t.thinkingFlag_iff.mp (h t henabled).thinkingFlag
  exact not_flag_of_unset rfl rfl hwith hflag

end Demo

end Anthropic
end Llm
end DotRunner
