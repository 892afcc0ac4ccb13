import DotRunner.Remote.Uri
import DotRunner.Py.Sha1
import DotRunner.Behaviour

/-!
# The blob cache

Contents are kept under their blob sha, and for each origin an entry says which
content was fetched last.  A call of `get` is here in two parts: what it does up
to a fetch, and what it does with the answer.  Between the two other calls run,
and the files of the cache may change.
-/

namespace DotRunner
namespace Remote

open Py
open Py.PosixPath (names)

abbrev Bytes := List UInt8

/-- `git_blob_sha` -/
def gitBlobSha (data : Bytes) : String :=
  let header := "blob " ++ toString data.length
  sha1 (header.toList.map (fun c => UInt8.ofNat c.toNat) ++ 0 :: data)

example : gitBlobSha [] = "e69de29bb2d1d6434b8b29ae775ad8c2e48c5391" := by decide +kernel

structure FetchResult where
  content : Option Bytes
  blobSha : Option String
  serverSha : Option String
  etag : Option String
  notModified : Bool

def isLowerHex (c : Char) : Bool := ('0' ≤ c ∧ c ≤ '9') ∨ ('a' ≤ c ∧ c ≤ 'f')

/-- `is_immutable`; the `$` of the pattern lets a line end follow. -/
def isImmutable (ref : String) : Bool :=
  let digits := ref.toList.takeWhile isLowerHex
  let rest := ref.toList.dropWhile isLowerHex
  digits.length == 40 && (rest == [] || rest == ['\n'])

/-! ## Files -/

structure RefEntry where
  blobSha : String
  etag : Option String

def jsonSuffix : List Char := ".json".toList

/-- `_ref_path`, below the root: the names it leads through, as `pathlib` reads it. -/
def refPath (o : Origin) : List (List Char) :=
  "refs".toList :: (names o.host.toList ++ names o.owner.toList ++ names o.repo.toList ++
    names o.ref.toList ++ names (o.path.toList ++ jsonSuffix))

/-- The files of the cache: the blobs by their name, the entries by their path. -/
structure BlobCache where
  blobs : Dict String Bytes
  refs : Dict (List (List Char)) RefEntry

namespace BlobCache

/-- `_read_ref` -/
def readRef (cache : BlobCache) (o : Origin) : Option RefEntry := cache.refs.get? (refPath o)

/-- `_read_blob` -/
def readBlob (cache : BlobCache) (blobSha : String) : Option Bytes := cache.blobs.get? blobSha

/-- `_write_blob` -/
def writeBlob (cache : BlobCache) (blobSha : String) (content : Bytes) : BlobCache :=
  if cache.readBlob blobSha = some content then cache
  else { cache with blobs := cache.blobs.set blobSha content }

/-- A file stands where the path needs a directory, or a directory where it ends. -/
def isBlocked (cache : BlobCache) (path : List (List Char)) : Bool :=
  cache.refs.keys.any fun other =>
    other != path && (other.isPrefixOf path || path.isPrefixOf other)

/-- `_write_ref`, where the file system lets it. -/
def writeRef (cache : BlobCache) (o : Origin) (blobSha : String) (etag : Option String) :
    Option BlobCache :=
  if cache.isBlocked (refPath o) then none
  else some { cache with refs := cache.refs.set (refPath o) ⟨blobSha, etag⟩ }

@[simp] theorem readBlob_writeBlob (cache : BlobCache) (blobSha name : String) (content : Bytes) :
    (cache.writeBlob blobSha content).readBlob name =
      if blobSha = name then some content else cache.readBlob name := by
  unfold writeBlob
  split
  · rename_i hsame
    split
    · rename_i heq
      rw [← heq, hsame]
    · rfl
  · exact Dict.get?_set _ _ _ _

@[simp] theorem readRef_writeBlob (cache : BlobCache) (blobSha : String) (content : Bytes)
    (o : Origin) : (cache.writeBlob blobSha content).readRef o = cache.readRef o := by
  unfold writeBlob
  split <;> rfl

theorem readRef_writeRef {cache written : BlobCache} {o : Origin} {blobSha : String}
    {etag : Option String} (h : cache.writeRef o blobSha etag = some written) (other : Origin) :
    written.readRef other =
      if refPath o = refPath other then some ⟨blobSha, etag⟩ else cache.readRef other := by
  unfold writeRef at h
  split at h
  · cases h
  · obtain rfl := Option.some.inj h
    exact Dict.get?_set _ _ _ _

theorem readBlob_writeRef {cache written : BlobCache} {o : Origin} {blobSha : String}
    {etag : Option String} (h : cache.writeRef o blobSha etag = some written) (name : String) :
    written.readBlob name = cache.readBlob name := by
  unfold writeRef at h
  split at h
  · cases h
  · obtain rfl := Option.some.inj h
    rfl

end BlobCache

/-! ## A call -/

section Calls

variable [Runtime]

/-- An origin, with the URI that names it. -/
structure Source where
  uri : List Char
  origin : Origin
  parsed : parseUri uri = .ok origin

inductive GetError where
  | remoteFetchError (text : String)
  | osError
  /-- what the fetch raised -/
  | fetchFailed

inductive Reply where
  | returned (content : Bytes) (blobSha : String)
  | raised (error : GetError)

/-- A call that awaits a fetch, for the second time when it is to heal the cache. -/
structure Call where
  source : Source
  entry : Option RefEntry
  healing : Bool

/-- What the fetch sends as `If-None-Match`. -/
def Call.etag (call : Call) : Option String :=
  if call.healing then none else call.entry.bind RefEntry.etag

inductive Progress where
  | done (reply : Reply)
  | fetching (call : Call)

/-- `origin.key()`, formatted. -/
def Origin.keyText (o : Origin) : String :=
  "(" ++ ", ".intercalate ([o.host, o.owner, o.repo, o.ref, o.path].map Value.reprStr) ++ ")"

namespace BlobCache

/-- `get`, up to the fetch. -/
def get (cache : BlobCache) (source : Source) (reload : Bool) : Progress :=
  match cache.readRef source.origin with
  | none => .fetching ⟨source, none, false⟩
  | some entry =>
    if reload = false ∧ isImmutable source.origin.ref then
      match cache.readBlob entry.blobSha with
      | some blob => .done (.returned blob entry.blobSha)
      | none => .fetching ⟨source, some entry, false⟩
    else .fetching ⟨source, some entry, false⟩

def emptyResult (o : Origin) : GetError :=
  .remoteFetchError ("empty fetch result for " ++ o.keyText)

def integrityFailure (o : Origin) (blobSha serverSha : String) : GetError :=
  .remoteFetchError ("integrity check failed for " ++ o.owner ++ "/" ++ o.repo ++ "#" ++ o.path ++
    ": local " ++ blobSha ++ " != server " ++ serverSha)

def recomputeMismatch (o : Origin) : GetError :=
  .remoteFetchError ("blob-sha recompute mismatch for " ++ o.keyText)

def danglingRef (o : Origin) (blobSha : String) : GetError :=
  .remoteFetchError ("blob " ++ blobSha ++ " missing on disk after write for " ++ o.keyText ++
    "; refusing to write a dangling ref")

/-- Keep what was fetched, once its sha is what the server and the result say. -/
def keep (cache : BlobCache) (o : Origin) (r : FetchResult) (content : Bytes) (blobSha : String) :
    BlobCache × Reply :=
  let declared := r.serverSha.getD ""
  if declared ≠ "" ∧ blobSha ≠ declared then
    (cache, .raised (integrityFailure o blobSha declared))
  else if gitBlobSha content ≠ blobSha then (cache, .raised (recomputeMismatch o))
  else
    let stored := cache.writeBlob blobSha content
    if stored.readBlob blobSha = none then (stored, .raised (danglingRef o blobSha))
    else match stored.writeRef o blobSha r.etag with
      | some written => (written, .returned content blobSha)
      | none => (stored, .raised .osError)

/-- `get`, from the result of the last fetch. -/
def accept (cache : BlobCache) (o : Origin) (r : FetchResult) : BlobCache × Reply :=
  match r.content, r.blobSha with
  | some content, some blobSha => cache.keep o r content blobSha
  | _, _ => (cache, .raised (emptyResult o))

/-- `get`, from the result of a fetch. -/
def answer (cache : BlobCache) (call : Call) (r : FetchResult) : BlobCache × Progress :=
  let accepted := cache.accept call.source.origin r
  if call.healing = false ∧ r.notModified then
    match call.entry with
    | none => (accepted.1, .done accepted.2)
    | some entry =>
      match cache.readBlob entry.blobSha with
      | some blob =>
        if gitBlobSha blob = entry.blobSha then (cache, .done (.returned blob entry.blobSha))
        else (cache, .fetching { call with healing := true })
      | none => (cache, .fetching { call with healing := true })
  else (accepted.1, .done accepted.2)

end BlobCache

/-! ## Calls together -/

namespace Traffic

inductive Event where
  | asked (o : Origin) (etag : Option String)
  | answered (o : Origin) (result : FetchResult)
  | replied (o : Origin) (reply : Reply)
  | damaged (name : String) (content : Bytes)
  | deleted (name : String)

inductive Action where
  | get (source : Source) (reload : Bool)
  /-- the answer to the fetch that the call at this place awaits -/
  | answer (place : Nat) (result : FetchResult)
  | fail (place : Nat)
  /-- a blob's file is damaged -/
  | damage (name : String) (content : Bytes)
  | delete (name : String)

end Traffic

/-- The cache, the calls that await a fetch, and what has happened. -/
structure Traffic where
  cache : BlobCache
  calls : List Call
  log : List Traffic.Event

namespace Traffic

def start : Traffic := ⟨⟨.empty, .empty⟩, [], []⟩

/-- A call returns, or goes on to a fetch. -/
def proceed (t : Traffic) (o : Origin) : Progress → Traffic
  | .done reply => { t with log := t.log ++ [.replied o reply] }
  | .fetching call =>
    { t with calls := t.calls ++ [call], log := t.log ++ [.asked o call.etag] }

/-- The call at this place has its answer. -/
def received (t : Traffic) (place : Nat) (call : Call) (cache : BlobCache) (r : FetchResult) :
    Traffic :=
  ⟨cache, t.calls.eraseIdx place, t.log ++ [.answered call.source.origin r]⟩

def next (t : Traffic) : Action → Option Traffic
  | .get source reload => some (t.proceed source.origin (t.cache.get source reload))
  | .answer place r => t.calls[place]?.map fun call =>
    let answered := t.cache.answer call r
    (t.received place call answered.1 r).proceed call.source.origin answered.2
  | .fail place => t.calls[place]?.map fun call =>
    let left := { t with calls := t.calls.eraseIdx place }
    left.proceed call.source.origin (.done (.raised .fetchFailed))
  | .damage name content =>
    if t.cache.blobs.contains name then
      some { t with
        cache := { t.cache with blobs := t.cache.blobs.set name content }
        log := t.log ++ [.damaged name content] }
    else none
  | .delete name =>
    some { t with
      cache := { t.cache with blobs := t.cache.blobs.erase name }
      log := t.log ++ [.deleted name] }

end Traffic

end Calls

end Remote
end DotRunner
