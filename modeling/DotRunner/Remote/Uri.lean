import DotRunner.Py.PosixPath
import DotRunner.Py.Utf8
import DotRunner.Py.Value

/-!
# Origins

`parse_uri`: from `git+https://<host>/<owner>/<repo>[@<ref>]#subdirectory=<path>`
to the file it names.
-/

namespace DotRunner
namespace Remote

open Py
open Py.PosixPath (segments)

/-! ## Percent-encoding -/

def hexVal (c : Char) : Option Nat :=
  if '0' ≤ c ∧ c ≤ '9' then some (c.toNat - 48)
  else if 'a' ≤ c ∧ c ≤ 'f' then some (c.toNat - 87)
  else if 'A' ≤ c ∧ c ≤ 'F' then some (c.toNat - 55)
  else none

def isAscii (c : Char) : Bool := c.toNat < 128

def hexPair (a b : Char) : Option UInt8 :=
  (hexVal a).bind fun x => (hexVal b).map fun y => UInt8.ofNat (16 * x + y)

/-- `unquote_to_bytes`: a `%` that no two hex digits follow stands for itself. -/
def unquoteToBytes : List Char → List UInt8
  | '%' :: a :: b :: rest => match hexPair a b with
    | some byte => byte :: unquoteToBytes rest
    | none => UInt8.ofNat '%'.toNat :: unquoteToBytes (a :: b :: rest)
  | c :: rest => UInt8.ofNat c.toNat :: unquoteToBytes rest
  | [] => []

/-- `unquote`: the runs of ASCII characters are decoded one by one. -/
def unquote (l : List Char) : List Char :=
  if l.contains '%' then
    (l.splitBy fun a b => isAscii a == isAscii b).flatMap fun run =>
      if run.all isAscii then decodeUtf8Replacing (unquoteToBytes run) else run
  else l

/-! ## Parsing -/

/-- The file path within a repository at a ref. -/
structure Origin where
  host : String
  owner : String
  repo : String
  ref : String
  path : String
  deriving DecidableEq

/-- `RemoteFetchPathError` -/
structure PathError where
  text : String
  deriving DecidableEq

/-- `s.partition(sep)`, what follows only where `sep` occurs. -/
def partition (sep : Char) (l : List Char) : List Char × Option (List Char) :=
  match Text.splitOnce [sep] l with
  | some (before, after) => (before, some after)
  | none => (l, none)

def rejected {α : Type} (text : String) : Except PathError α := .error ⟨text⟩

def hasForbidden (value : List Char) : Bool := value.contains '\x00' || value.contains '\\'

def gitHttpsPrefix : List Char := "git+https://".toList

variable [Runtime]

/-- `{uri!r}` -/
def quoted (l : List Char) : String := Value.reprStr (String.ofList l)

/-- `_reject_single_segment_traversal` -/
def rejectSingleSegmentTraversal (uri : List Char) (name : String) (value : List Char) :
    Except PathError Unit :=
  if value = [] ∨ value = ['.'] ∨ value = ['.', '.'] then
    rejected ("Invalid " ++ name ++ " segment " ++ quoted value ++ " in " ++ quoted uri)
  else if hasForbidden value then
    rejected ("Invalid characters in " ++ name ++ " " ++ quoted value ++ " in " ++ quoted uri)
  else .ok ()

/-- `_reject_multi_segment_traversal` -/
def rejectMultiSegmentTraversal (uri : List Char) (name : String) (value : List Char) :
    Except PathError Unit :=
  if value = [] then rejected ("Missing " ++ name ++ " in " ++ quoted uri)
  else if Text.startsWith value ['/'] then
    rejected (name ++ " must be relative, got " ++ quoted value ++ " in " ++ quoted uri)
  else if hasForbidden value then
    rejected ("Invalid characters in " ++ name ++ " " ++ quoted value ++ " in " ++ quoted uri)
  else if (segments value).contains ['.', '.'] then
    rejected ("Path traversal ('..') rejected in " ++ name ++ " " ++ quoted value ++ " of " ++
      quoted uri)
  else .ok ()

/-- What `#subdirectory=` names. -/
def parseFragment (uri fragment : List Char) : Except PathError (List Char) :=
  if fragment = [] then .ok []
  else
    let (key, value) := partition '=' fragment
    if key ≠ "subdirectory".toList then
      rejected ("Only #subdirectory= is supported, got " ++ quoted fragment ++ " in " ++ quoted uri)
    else
      let rawPath := unquote (value.getD [])
      if Text.startsWith rawPath ['/'] then
        rejected ("subdirectory path must be relative, got " ++ quoted rawPath ++ " in " ++
          quoted uri)
      else .ok (rawPath.dropWhile (· == '/'))

/-- `parse_uri` -/
def parseUri (uri : List Char) : Except PathError Origin :=
  match Text.dropPrefix? gitHttpsPrefix uri with
  | none => rejected ("Not a git+https:// URI: " ++ quoted uri)
  | some rest =>
    let (base, fragment) := partition '#' rest
    match segments base with
    | [host, owner, repoAndRef] =>
      if host = [] ∨ owner = [] ∨ repoAndRef = [] then
        rejected ("Malformed git+https:// URI (need exactly host/owner/repo): " ++ quoted uri)
      else do
        let (repo, given) := partition '@' repoAndRef
        let ref := given.getD "main".toList
        if repo = [] then
          rejected ("Missing repo in git+https:// URI: " ++ quoted uri)
        else
          let path ← parseFragment uri (fragment.getD [])
          if path = [] then
            rejected ("Entry URI must name a file via #subdirectory=: " ++ quoted uri)
          else
            rejectSingleSegmentTraversal uri "host" host
            rejectSingleSegmentTraversal uri "owner" owner
            rejectSingleSegmentTraversal uri "repo" repo
            rejectMultiSegmentTraversal uri "ref" ref
            rejectMultiSegmentTraversal uri "path" path
            return ⟨String.ofList host, String.ofList owner, String.ofList repo,
              String.ofList ref, String.ofList path⟩
    | _ => rejected ("Malformed git+https:// URI (need exactly host/owner/repo): " ++ quoted uri)

/-! ## What an origin that was parsed is like -/

/-- A single segment of a path, that stays where it is put. -/
structure Segment (l : List Char) : Prop where
  nonempty : l ≠ []
  here : l ≠ ['.']
  above : l ≠ ['.', '.']
  slash : '/' ∉ l

/-- A path that starts where it is put and never leads above it. -/
structure Descending (l : List Char) : Prop where
  nonempty : l ≠ []
  relative : l.head? ≠ some '/'
  above : ['.', '.'] ∉ segments l

structure Origin.Contained (o : Origin) : Prop where
  host : Segment o.host.toList
  owner : Segment o.owner.toList
  repo : Segment o.repo.toList
  ref : Descending o.ref.toList
  refSlash : '/' ∉ o.ref.toList
  path : Descending o.path.toList

theorem segment_of_accepted {uri value : List Char} {name : String} (hslash : '/' ∉ value)
    (h : rejectSingleSegmentTraversal uri name value = .ok ()) : Segment value := by
  unfold rejectSingleSegmentTraversal at h
  split at h
  · cases h
  · rename_i hvalue
    push Not at hvalue
    exact ⟨hvalue.1, hvalue.2.1, hvalue.2.2, hslash⟩

theorem descending_of_accepted {uri value : List Char} {name : String}
    (h : rejectMultiSegmentTraversal uri name value = .ok ()) : Descending value := by
  unfold rejectMultiSegmentTraversal at h
  split at h
  · cases h
  split at h
  · cases h
  split at h
  · cases h
  split at h
  · cases h
  rename_i hne hstart _ habove
  refine ⟨hne, ?_, ?_⟩
  · intro hhead
    obtain ⟨rest, rfl⟩ := List.head?_eq_some_iff.mp hhead
    exact hstart (by simp [Text.startsWith, Text.dropPrefix?])
  · rwa [List.contains_iff_mem] at habove

omit [Runtime] in
theorem mem_of_partition {sep c : Char} {l : List Char} :
    (c ∈ (partition sep l).1 → c ∈ l) ∧
      ∀ after, (partition sep l).2 = some after → c ∈ after → c ∈ l := by
  unfold partition
  split
  · rename_i before after hsplit
    have hl := Text.append_of_splitOnce hsplit
    rw [hl]
    constructor
    · intro h
      simp [h]
    · rintro _ ⟨⟩ h
      simp [h]
  · exact ⟨id, nofun⟩

theorem contained_of_parseUri {uri : List Char} {o : Origin} (h : parseUri uri = .ok o) :
    o.Contained := by
  unfold parseUri at h
  split at h
  · cases h
  rename_i rest _
  dsimp only at h
  split at h
  · rename_i host owner repoAndRef hsegments
    have hpieces : ∀ piece ∈ [host, owner, repoAndRef], '/' ∉ piece := by
      intro piece hpiece
      rw [← hsegments] at hpiece
      exact PosixPath.slash_not_mem_segments hpiece
    split at h
    · cases h
    rename_i hgiven
    push Not at hgiven
    split at h
    · cases h
    simp only [bind_ok_iff] at h
    obtain ⟨path, -, h⟩ := h
    split at h
    · cases h
    simp only [bind_ok_iff] at h
    obtain ⟨_, hhost, _, howner, _, hrepo, _, href, _, hpath, h⟩ := h
    obtain rfl := Except.ok.inj h
    have hslash : '/' ∉ repoAndRef := hpieces repoAndRef (by simp)
    have hpartition := @mem_of_partition '@' '/' repoAndRef
    constructor
    all_goals simp only [String.toList_ofList]
    · exact segment_of_accepted (hpieces host (by simp)) hhost
    · exact segment_of_accepted (hpieces owner (by simp)) howner
    · exact segment_of_accepted (fun h => hslash (hpartition.1 h)) hrepo
    · exact descending_of_accepted href
    · cases hafter : (partition '@' repoAndRef).2 with
      | none => decide +kernel
      | some after => exact fun h => hslash (hpartition.2 after hafter h)
    · exact descending_of_accepted hpath
  · cases h
end Remote
end DotRunner
