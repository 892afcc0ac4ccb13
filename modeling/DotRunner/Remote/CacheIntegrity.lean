import DotRunner.Remote.BlobCache
import DotRunner.Py.Ascii

/-!
# Integrity of the cache

What a call returns is to have the sha returned with it, and to have been served
for its own origin.  An entry is read under a path, and a blob is served from the
disk without a check where the ref cannot change; so no two origins may share a
path, and such a blob must be intact.
-/

namespace DotRunner
namespace Remote

open Behaviour Py
open Py.PosixPath (names segments isName)

/-! ## Paths of entries -/

theorem names_of_segment {l : List Char} (h : Segment l) : names l = [l] := by
  have hone : segments l = [l] := List.splitOn_eq_singleton h.slash
  rw [names, hone]
  simp [isName, PosixPath.here, h.nonempty, h.here]

/-- Neither the ref nor a segment of the path is lost in the path of the entry. -/
structure Origin.Plain (o : Origin) : Prop where
  ref : o.ref.toList ≠ ['.']
  path : ∀ part ∈ segments (o.path.toList ++ jsonSuffix), part ≠ [] ∧ part ≠ ['.']

theorem refPath_of_plain {o : Origin} (hcontained : o.Contained) (h : o.Plain) :
    refPath o = "refs".toList :: o.host.toList :: o.owner.toList :: o.repo.toList ::
      o.ref.toList :: segments (o.path.toList ++ jsonSuffix) := by
  have href : Segment o.ref.toList := by
    refine ⟨hcontained.ref.nonempty, h.ref, ?_, hcontained.refSlash⟩
    intro habove
    apply hcontained.ref.above
    rw [habove]
    decide +kernel
  have hpath :
      names (o.path.toList ++ jsonSuffix) = segments (o.path.toList ++ jsonSuffix) := by
    apply List.filter_eq_self.mpr
    intro part hpart
    have hplain := h.path part hpart
    simp [isName, PosixPath.here, hplain]
  rw [refPath, names_of_segment hcontained.host, names_of_segment hcontained.owner,
    names_of_segment hcontained.repo, names_of_segment href, hpath]
  rfl

/-- Plain origins do not share the path of an entry. -/
theorem refPath_injective {o o' : Origin} (hcontained : o.Contained) (h : o.Plain)
    (hcontained' : o'.Contained) (h' : o'.Plain) (heq : refPath o = refPath o') : o = o' := by
  rw [refPath_of_plain hcontained h, refPath_of_plain hcontained' h'] at heq
  simp only [List.cons.injEq, String.toList_inj, true_and] at heq
  obtain ⟨hhost, howner, hrepo, href, hsegments⟩ := heq
  have hpath : o.path = o'.path := by
    have hjoined := congrArg (List.intercalate ['/']) hsegments
    rw [segments, segments, List.intercalate_splitOn, List.intercalate_splitOn] at hjoined
    exact String.toList_inj.mp (List.append_cancel_right hjoined)
  cases o
  cases o'
  subst hhost howner hrepo href hpath
  rfl

/-- The path of an entry never leads upwards. -/
theorem above_not_mem_refPath {o : Origin} (h : o.Contained) : ['.', '.'] ∉ refPath o := by
  have hsegment : ∀ {l : List Char}, Segment l → ['.', '.'] ∉ names l := by
    intro l hl hmem
    rw [names_of_segment hl, List.mem_singleton] at hmem
    exact hl.above hmem.symm
  have hparts : ∀ {l : List Char}, ['.', '.'] ∉ segments l → ['.', '.'] ∉ names l :=
    fun hl hmem => hl (List.mem_of_mem_filter hmem)
  have hpath : ['.', '.'] ∉ segments (o.path.toList ++ jsonSuffix) := by
    have hslash : '/' ∉ jsonSuffix := by decide +kernel
    obtain ⟨init, last, hsegments, happend⟩ := PosixPath.segments_append hslash o.path.toList
    have habove := h.path.above
    rw [hsegments] at habove
    rw [happend]
    intro hmem
    rcases List.mem_append.mp hmem with hmem | hmem
    · exact habove (List.mem_append_left _ hmem)
    · have hlength := congrArg List.length (List.mem_singleton.mp hmem)
      have hsuffix : jsonSuffix.length = 5 := by decide +kernel
      rw [List.length_append, hsuffix] at hlength
      simp only [List.length_cons, List.length_nil] at hlength
      omega
  have hrefs : ['.', '.'] ≠ "refs".toList := by decide +kernel
  unfold refPath
  simp only [List.mem_cons, List.mem_append, not_or]
  exact ⟨hrefs, ⟨⟨⟨hsegment h.host, hsegment h.owner⟩, hsegment h.repo⟩, hparts h.ref.above⟩,
    hparts hpath⟩

section Integrity

variable [Runtime]

namespace Traffic

/-! ## What is promised -/

/-- The content came in an answer to a fetch for the origin. -/
def Served (log : List Event) (o : Origin) (content : Bytes) : Prop :=
  ∃ r, .answered o r ∈ log ∧ r.content = some content

/-- What is promised of a reply, by what happened before it. -/
def Genuine (earlier : List Event) (o : Origin) (reply : Reply) : Prop :=
  ∀ content blobSha, reply = .returned content blobSha →
    gitBlobSha content = blobSha ∧ Served earlier o content

def Event.Promised (earlier : List Event) (e : Event) (_later : List Event) : Prop :=
  match e with
  | .replied o reply => Genuine earlier o reply
  | _ => True

def Sound (log : List Event) : Prop := EachAt Event.Promised log

/-! ## What must not happen -/

def Asked (log : List Event) (o : Origin) : Prop := ∃ etag, .asked o etag ∈ log

/-- The bytes that are served, or put into a file of the cache. -/
def Event.brings : Event → Option Bytes
  | .answered _ r => r.content
  | .damaged _ content => some content
  | _ => none

def InPlay (log : List Event) (content : Bytes) : Prop := ∃ e ∈ log, e.brings = some content

/-- No other bytes in play have the sha of these. -/
def Unmistakable (log : List Event) (content : Bytes) : Prop :=
  ∀ other, InPlay log other → gitBlobSha other = gitBlobSha content → other = content

/-- The blob a call finds for an immutable ref is intact. -/
def Intact (cache : BlobCache) (o : Origin) : Prop :=
  ∀ entry blob, cache.readRef o = some entry → cache.readBlob entry.blobSha = some blob →
    gitBlobSha blob = entry.blobSha

/-- A call asks for an origin that shares the path of its entry with no other one asked for
before, and finds an intact blob where it does not check it; bytes that come in are not
mistaken for others by their sha. -/
def Careful (t : Transition Traffic Action) : Prop :=
  match t.action with
  | .get source reload =>
    (∀ o, Asked t.source.log o → refPath o = refPath source.origin → o = source.origin) ∧
      (reload = false → isImmutable source.origin.ref = true →
        Intact t.source.cache source.origin)
  | .answer _ r => ∀ content, r.content = some content → Unmistakable t.source.log content
  | .damage _ content => Unmistakable t.source.log content
  | _ => True

/-! ## What the log says of the cache -/

/-- The content the entry names was served for the origin. -/
def Backed (log : List Event) (o : Origin) (entry : RefEntry) : Prop :=
  ∃ content, Served log o content ∧ gitBlobSha content = entry.blobSha

structure Cached (log : List Event) (cache : BlobCache) : Prop where
  blobs : ∀ name blob, cache.readBlob name = some blob → InPlay log blob
  refs : ∀ o entry, cache.readRef o = some entry →
    ∃ owner, Asked log owner ∧ refPath owner = refPath o ∧ Backed log owner entry

structure Awaiting (log : List Event) (call : Call) : Prop where
  asked : Asked log call.source.origin
  entry : ∀ entry, call.entry = some entry → Backed log call.source.origin entry

structure Consistent (t : Traffic) : Prop where
  paths : ∀ o o', Asked t.log o → Asked t.log o' → refPath o = refPath o' → o = o'
  contents : ∀ content, InPlay t.log content → Unmistakable t.log content
  cache : Cached t.log t.cache
  calls : ∀ call ∈ t.calls, Awaiting t.log call

section Later

variable {log : List Event} {o : Origin} {content : Bytes} (events : List Event)

omit [Runtime] in
theorem Served.append (h : Served log o content) : Served (log ++ events) o content := by
  obtain ⟨r, hanswered, hcontent⟩ := h
  exact ⟨r, List.mem_append_left _ hanswered, hcontent⟩

omit [Runtime] in
theorem Asked.append (h : Asked log o) : Asked (log ++ events) o := by
  obtain ⟨etag, hasked⟩ := h
  exact ⟨etag, List.mem_append_left _ hasked⟩

omit [Runtime] in
theorem InPlay.append (h : InPlay log content) : InPlay (log ++ events) content := by
  obtain ⟨e, he, hbrings⟩ := h
  exact ⟨e, List.mem_append_left _ he, hbrings⟩

omit [Runtime] in
theorem Backed.append {entry : RefEntry} (h : Backed log o entry) :
    Backed (log ++ events) o entry := by
  obtain ⟨content, hserved, hsha⟩ := h
  exact ⟨content, hserved.append events, hsha⟩

omit [Runtime] in
theorem Cached.append {cache : BlobCache} (h : Cached log cache) :
    Cached (log ++ events) cache where
  blobs name blob hblob := (h.blobs name blob hblob).append events
  refs o entry hentry := by
    obtain ⟨owner, hasked, hpath, hbacked⟩ := h.refs o entry hentry
    exact ⟨owner, hasked.append events, hpath, hbacked.append events⟩

theorem Awaiting.append {call : Call} (h : Awaiting log call) :
    Awaiting (log ++ events) call :=
  ⟨h.asked.append events, fun entry hentry => (h.entry entry hentry).append events⟩

end Later

omit [Runtime] in
theorem Served.inPlay {log : List Event} {o : Origin} {content : Bytes}
    (h : Served log o content) : InPlay log content := by
  obtain ⟨r, hanswered, hcontent⟩ := h
  exact ⟨.answered o r, hanswered, hcontent⟩

/-- One thing more happens, after which the cache and the calls are these. -/
theorem Consistent.snoc {t : Traffic} (h : Consistent t) {e : Event} {cache : BlobCache}
    {calls : List Call}
    (hasks : ∀ o etag, e = .asked o etag →
      ∀ o', Asked t.log o' → refPath o' = refPath o → o' = o)
    (hbrings : ∀ content, e.brings = some content → Unmistakable t.log content)
    (hcache : Cached (t.log ++ [e]) cache)
    (hcalls : ∀ call ∈ calls, Awaiting (t.log ++ [e]) call) :
    Consistent ⟨cache, calls, t.log ++ [e]⟩ where
  paths o o' := by
    rintro ⟨etag, hasked⟩ ⟨etag', hasked'⟩ hpath
    simp only [List.mem_append, List.mem_singleton] at hasked hasked'
    rcases hasked with hasked | hnew <;> rcases hasked' with hasked' | hnew'
    · exact h.paths o o' ⟨etag, hasked⟩ ⟨etag', hasked'⟩ hpath
    · exact hasks o' etag' hnew'.symm o ⟨etag, hasked⟩ hpath
    · exact (hasks o etag hnew.symm o' ⟨etag', hasked'⟩ hpath.symm).symm
    · rw [← hnew] at hnew'
      exact (Event.asked.inj hnew').1.symm
  contents content := by
    rintro ⟨e₁, he₁, hcontent⟩ other ⟨e₂, he₂, hother⟩ hsha
    simp only [List.mem_append, List.mem_singleton] at he₁ he₂
    rcases he₁ with he₁ | rfl <;> rcases he₂ with he₂ | rfl
    · exact h.contents content ⟨e₁, he₁, hcontent⟩ other ⟨e₂, he₂, hother⟩ hsha
    · exact (hbrings other hother content ⟨e₁, he₁, hcontent⟩ hsha.symm).symm
    · exact hbrings content hcontent other ⟨e₂, he₂, hother⟩ hsha
    · exact Option.some.inj (hother.symm.trans hcontent)
  cache := hcache
  calls := hcalls

/-! ## What a call does -/

/-- What a call may come to: a reply as promised, or a fetch for its own origin. -/
def Supported (log : List Event) (o : Origin) : Progress → Prop
  | .done reply => Genuine log o reply
  | .fetching call =>
    call.source.origin = o ∧ ∀ entry, call.entry = some entry → Backed log o entry

omit [Runtime] in
/-- An intact blob under an entry of the origin was served for it. -/
theorem genuine_of_backed {log : List Event} {cache : BlobCache} {o : Origin} {entry : RefEntry}
    {blob : Bytes} (hcontents : ∀ content, InPlay log content → Unmistakable log content)
    (hcache : Cached log cache) (hbacked : Backed log o entry)
    (hblob : cache.readBlob entry.blobSha = some blob)
    (hsha : gitBlobSha blob = entry.blobSha) : Genuine log o (.returned blob entry.blobSha) := by
  rintro content blobSha ⟨⟩
  obtain ⟨content, hserved, hcontent⟩ := hbacked
  have hsame : content = blob :=
    hcontents blob (hcache.blobs _ _ hblob) content hserved.inPlay (hcontent.trans hsha.symm)
  rw [← hsame]
  exact ⟨hcontent, hserved⟩

theorem supported_get {t : Traffic} (h : Consistent t) {source : Source} {reload : Bool}
    (hpaths : ∀ o, Asked t.log o → refPath o = refPath source.origin → o = source.origin)
    (hintact : reload = false → isImmutable source.origin.ref = true →
      Intact t.cache source.origin) :
    Supported t.log source.origin (t.cache.get source reload) := by
  unfold BlobCache.get
  cases hentry : t.cache.readRef source.origin with
  | none => exact ⟨rfl, nofun⟩
  | some entry =>
    have hbacked : Backed t.log source.origin entry := by
      obtain ⟨owner, hasked, hpath, hbacked⟩ := h.cache.refs source.origin entry hentry
      rw [← hpaths owner hasked hpath]
      exact hbacked
    have hfetching : Supported t.log source.origin (.fetching ⟨source, some entry, false⟩) := by
      refine ⟨rfl, ?_⟩
      rintro _ ⟨⟩
      exact hbacked
    dsimp only
    split
    · rename_i hfast
      cases hblob : t.cache.readBlob entry.blobSha with
      | none => exact hfetching
      | some blob =>
        have hsha := hintact hfast.1 hfast.2 entry blob hentry hblob
        exact genuine_of_backed h.contents h.cache hbacked hblob hsha
    · exact hfetching

/-- What is kept was served, and its reply is as promised. -/
theorem cached_accept {log : List Event} {cache : BlobCache} {o : Origin} {r : FetchResult}
    (h : Cached log cache) (hasked : Asked log o) (hanswered : .answered o r ∈ log) :
    Cached log (cache.accept o r).1 ∧ Genuine log o (cache.accept o r).2 := by
  unfold BlobCache.accept
  split
  · rename_i content blobSha hcontent _
    have hserved : Served log o content := ⟨r, hanswered, hcontent⟩
    have hstored : Cached log (cache.writeBlob blobSha content) := by
      constructor
      · intro name blob hblob
        rw [BlobCache.readBlob_writeBlob] at hblob
        split at hblob
        · obtain rfl := Option.some.inj hblob
          exact hserved.inPlay
        · exact h.blobs name blob hblob
      · intro other entry hentry
        rw [BlobCache.readRef_writeBlob] at hentry
        exact h.refs other entry hentry
    unfold BlobCache.keep
    dsimp only
    split
    · exact ⟨h, nofun⟩
    split
    · exact ⟨h, nofun⟩
    rename_i hsha
    rw [not_not] at hsha
    split
    · exact ⟨hstored, nofun⟩
    cases hwritten : (cache.writeBlob blobSha content).writeRef o blobSha r.etag with
    | none => exact ⟨hstored, nofun⟩
    | some written =>
      constructor
      · constructor
        · intro name blob hblob
          rw [BlobCache.readBlob_writeRef hwritten] at hblob
          exact hstored.blobs name blob hblob
        · intro other entry hentry
          rw [BlobCache.readRef_writeRef hwritten] at hentry
          split at hentry
          · rename_i hpath
            obtain rfl := Option.some.inj hentry
            exact ⟨o, hasked, hpath, content, hserved, hsha⟩
          · exact hstored.refs other entry hentry
      · rintro _ _ ⟨⟩
        exact ⟨hsha, hserved⟩
  · exact ⟨h, nofun⟩

theorem supported_answer {log : List Event} {cache : BlobCache} {call : Call} {r : FetchResult}
    (hcontents : ∀ content, InPlay log content → Unmistakable log content)
    (hcache : Cached log cache) (hcall : Awaiting log call)
    (hanswered : .answered call.source.origin r ∈ log) :
    Cached log (cache.answer call r).1 ∧
      Supported log call.source.origin (cache.answer call r).2 := by
  have haccept := cached_accept hcache hcall.asked hanswered
  obtain ⟨source, entry, healing⟩ := call
  unfold BlobCache.answer
  dsimp only
  split
  · cases entry with
    | none => exact haccept
    | some entry =>
      have hbacked := hcall.entry entry rfl
      have hhealing : Supported log source.origin (.fetching ⟨source, some entry, true⟩) :=
        ⟨rfl, hcall.entry⟩
      dsimp only
      cases hblob : cache.readBlob entry.blobSha with
      | none => exact ⟨hcache, hhealing⟩
      | some blob =>
        dsimp only
        split
        · rename_i hsha
          exact ⟨hcache, genuine_of_backed hcontents hcache hbacked hblob hsha⟩
        · exact ⟨hcache, hhealing⟩
  · exact haccept

/-! ## What a step keeps -/

structure Good (t : Traffic) : Prop where
  consistent : Consistent t
  sound : Sound t.log

omit [Runtime] in
theorem Sound.snoc {log : List Event} (h : Sound log) {e : Event} (he : e.Promised log []) :
    Sound (log ++ [e]) :=
  eachAt_snoc.mpr ⟨h, he⟩

theorem good_start : Good start where
  consistent := by
    refine ⟨?_, ?_, ⟨?_, ?_⟩, ?_⟩
    · rintro o o' ⟨etag, hasked⟩
      cases hasked
    · rintro content ⟨e, he, _⟩
      cases he
    · exact fun _ _ => nofun
    · exact fun _ _ => nofun
    · exact fun _ => nofun
  sound := eachAt_nil

/-- A call that returns as promised, or fetches for its own origin, keeps everything right. -/
theorem Good.proceed {t : Traffic} (h : Good t) {o : Origin} {progress : Progress}
    (hsupported : Supported t.log o progress)
    (hpaths : ∀ o', Asked t.log o' → refPath o' = refPath o → o' = o) :
    Good (t.proceed o progress) := by
  cases progress with
  | done reply =>
    constructor
    · apply h.consistent.snoc
      · exact fun _ _ => nofun
      · exact fun _ => nofun
      · exact h.consistent.cache.append _
      · exact fun call hcall => (h.consistent.calls call hcall).append _
    · exact h.sound.snoc hsupported
  | fetching call =>
    obtain ⟨horigin, hentry⟩ := hsupported
    constructor
    · apply h.consistent.snoc
      · rintro _ _ ⟨⟩
        exact hpaths
      · exact fun _ => nofun
      · exact h.consistent.cache.append _
      · intro call' hcall'
        rcases List.mem_append.mp hcall' with hold | hnew
        · exact (h.consistent.calls call' hold).append _
        · obtain rfl := List.mem_singleton.mp hnew
          rw [← horigin] at hentry ⊢
          refine ⟨⟨call'.etag, ?_⟩, fun entry he => (hentry entry he).append _⟩
          exact List.mem_append_right _ List.mem_cons_self
    · exact h.sound.snoc trivial

/-- An answer comes in, with contents no others are mistaken for. -/
theorem Good.received {t : Traffic} (h : Good t) (place : Nat) {call : Call} {r : FetchResult}
    (hcall : call ∈ t.calls)
    (hfresh : ∀ content, r.content = some content → Unmistakable t.log content) :
    Good (t.received place call (t.cache.answer call r).1 r) ∧
      Supported (t.log ++ [.answered call.source.origin r]) call.source.origin
        (t.cache.answer call r).2 := by
  have hsame : Consistent ⟨t.cache, t.calls.eraseIdx place,
      t.log ++ [.answered call.source.origin r]⟩ := by
    apply h.consistent.snoc
    · exact fun _ _ => nofun
    · exact hfresh
    · exact h.consistent.cache.append _
    · intro call' hcall'
      exact (h.consistent.calls call' (List.mem_of_mem_eraseIdx hcall')).append _
  obtain ⟨hcache, hsupported⟩ := supported_answer hsame.contents hsame.cache
    ((h.consistent.calls call hcall).append _) (List.mem_append_right _ List.mem_cons_self)
  exact ⟨⟨⟨hsame.paths, hsame.contents, hcache, hsame.calls⟩, h.sound.snoc trivial⟩, hsupported⟩

theorem Good.damaged {t : Traffic} (h : Good t) {name : String} {content : Bytes}
    (hfresh : Unmistakable t.log content) :
    Good { t with
      cache := { t.cache with blobs := t.cache.blobs.set name content }
      log := t.log ++ [.damaged name content] } where
  consistent := by
    apply h.consistent.snoc
    · exact fun _ _ => nofun
    · rintro _ ⟨⟩
      exact hfresh
    · constructor
      · intro other blob hblob
        unfold BlobCache.readBlob at hblob
        rw [Dict.get?_set] at hblob
        split at hblob
        · obtain rfl := Option.some.inj hblob
          exact ⟨_, List.mem_append_right _ List.mem_cons_self, rfl⟩
        · exact (h.consistent.cache.blobs other blob hblob).append _
      · exact (h.consistent.cache.append _).refs
    · exact fun call hcall => (h.consistent.calls call hcall).append _
  sound := h.sound.snoc trivial

theorem Good.deleted {t : Traffic} (h : Good t) (name : String) :
    Good { t with
      cache := { t.cache with blobs := t.cache.blobs.erase name }
      log := t.log ++ [.deleted name] } where
  consistent := by
    apply h.consistent.snoc
    · exact fun _ _ => nofun
    · exact fun _ => nofun
    · constructor
      · intro other blob hblob
        unfold BlobCache.readBlob at hblob
        rw [Dict.get?_erase] at hblob
        split at hblob
        · cases hblob
        · exact (h.consistent.cache.blobs other blob hblob).append _
      · exact (h.consistent.cache.append _).refs
    · exact fun call hcall => (h.consistent.calls call hcall).append _
  sound := h.sound.snoc trivial

theorem good_step {t : Transition Traffic Action} (hstep : t.source.next t.action = some t.target)
    (hcareful : Careful t) (h : Good t.source) : Good t.target := by
  obtain ⟨before, action, after⟩ := t
  dsimp only at hstep h ⊢
  cases action with
  | get source reload =>
    obtain rfl := Option.some.inj hstep
    exact h.proceed (supported_get h.consistent hcareful.1 hcareful.2) hcareful.1
  | answer place r =>
    obtain ⟨call, hplace, rfl⟩ := Option.map_eq_some_iff.mp hstep
    have hcall : call ∈ before.calls := List.mem_of_getElem? hplace
    obtain ⟨hgood, hsupported⟩ := h.received place hcall hcareful
    apply hgood.proceed hsupported
    intro o hasked hpath
    exact hgood.consistent.paths _ _ hasked ((h.consistent.calls call hcall).asked.append _) hpath
  | fail place =>
    obtain ⟨call, hplace, rfl⟩ := Option.map_eq_some_iff.mp hstep
    have hcall : call ∈ before.calls := List.mem_of_getElem? hplace
    have hleft : Good { before with calls := before.calls.eraseIdx place } := by
      refine ⟨⟨h.consistent.paths, h.consistent.contents, h.consistent.cache, ?_⟩, h.sound⟩
      exact fun call' hcall' => h.consistent.calls call' (List.mem_of_mem_eraseIdx hcall')
    have hraised : Supported before.log call.source.origin (.done (.raised .fetchFailed)) :=
      fun _ _ => nofun
    apply hleft.proceed hraised
    intro o hasked hpath
    exact h.consistent.paths _ _ hasked (h.consistent.calls call hcall).asked hpath
  | damage name content =>
    unfold next at hstep
    dsimp only at hstep
    split at hstep
    · obtain rfl := Option.some.inj hstep
      exact h.damaged hcareful
    · cases hstep
  | delete name =>
    obtain rfl := Option.some.inj hstep
    exact h.deleted name

/-! ## Whole lives -/

/-- The calls of `get`, the answers and the damage in any order they can come in. -/
structure Life where
  steps : List (Transition Traffic Action)
  last : Traffic
  run : Run (fun t action t' => t.next action = some t') start steps last

def Life.play (actions : List Action) (h : (Behaviour.play next start actions).isSome) : Life where
  steps := ((Behaviour.play next start actions).get h).1
  last := ((Behaviour.play next start actions).get h).2
  run := run_of_play (Option.some_get h).symm

/-- As long as nothing is careless, every call returns what was served for its origin, under
the sha it has. -/
theorem sound_of_careful (life : Life) (hcareful : ∀ t ∈ life.steps, Careful t) :
    Sound life.last.log :=
  (life.run.invariant_of (P := Good) (Q := Careful)
    (fun _ hstep ht h => good_step hstep ht h) good_start hcareful).sound

end Traffic

end Integrity

section Demo

open Py.Ascii Traffic

def pinned : Source where
  uri := ("git+https://github.com/o/r@0123456789012345678901234567890123456789" ++
    "#subdirectory=x.dot").toList
  origin := ⟨"github.com", "o", "r", "0123456789012345678901234567890123456789", "x.dot"⟩
  parsed := by decide +kernel

def original : Bytes := [0x67]

def fresh : FetchResult := ⟨some original, some (gitBlobSha original), none, none, false⟩

def returned : Event → Option (Bytes × String)
  | .replied _ (.returned content blobSha) => some (content, blobSha)
  | _ => none

def firstAsked : Traffic := start.proceed pinned.origin (start.cache.get pinned false)

def firstReturned : Traffic := (firstAsked.next (.answer 0 fresh)).get (by decide +kernel)

def readOnce : Life where
  steps := [⟨start, .get pinned false, firstAsked⟩, ⟨firstAsked, .answer 0 fresh, firstReturned⟩]
  last := firstReturned
  run := .cons rfl (.cons (Option.some_get _).symm .nil)

theorem careful_readOnce : ∀ t ∈ readOnce.steps, Careful t := by
  have hget : Careful ⟨start, .get pinned false, firstAsked⟩ := by
    constructor
    · rintro o ⟨etag, hasked⟩
      cases hasked
    · exact fun _ _ _ _ => nofun
  have hanswer : Careful ⟨firstAsked, .answer 0 fresh, firstReturned⟩ := by
    rintro content - other ⟨e, he, hbrings⟩
    obtain rfl := List.mem_singleton.mp he
    cases hbrings
  exact List.forall_mem_cons.mpr ⟨hget, List.forall_mem_singleton.mpr hanswer⟩

theorem sound_readOnce :
    Sound readOnce.last.log ∧
      readOnce.last.log.filterMap returned = [(original, gitBlobSha original)] :=
  ⟨sound_of_careful readOnce careful_readOnce, by decide +kernel⟩

/-- The file of a blob changes between two calls for a ref that cannot change. -/
def damagedBetween : Life :=
  .play [.get pinned false, .answer 0 fresh, .damage (gitBlobSha original) [0x68],
    .get pinned false] (by decide +kernel)

theorem damagedBetween_returned :
    damagedBetween.last.log.filterMap returned =
      [(original, gitBlobSha original), ([0x68], gitBlobSha original)] := by
  decide +kernel

theorem sha_of_returned {log : List Event} (h : Sound log) {p : Bytes × String}
    (hp : p ∈ log.filterMap returned) : gitBlobSha p.1 = p.2 := by
  obtain ⟨e, he, hreturned⟩ := List.mem_filterMap.mp hp
  obtain ⟨earlier, later, hsplit⟩ := List.append_of_mem he
  have hpromised : e.Promised earlier later := h earlier e later hsplit
  unfold returned at hreturned
  split at hreturned
  · cases hreturned
    exact (hpromised _ _ rfl).1
  · cases hreturned

/-- The second call hands the damaged bytes over. -/
theorem damaged_blob_returned : ¬∀ life : Life, Sound life.last.log := by
  intro h
  have hsha := sha_of_returned (h damagedBetween) (p := ([0x68], gitBlobSha original)) (by
    rw [damagedBetween_returned]
    exact List.mem_cons_of_mem _ List.mem_cons_self)
  exact absurd hsha (by decide +kernel)

end Demo

end Remote
end DotRunner
