import DotRunner.Behaviour
import DotRunner.Py.FileTree
import DotRunner.Py.JsonDefault

/-!
# The artifact store

`ArtifactStore`: data under names, those above a threshold in files.  The calls of one
store, one after another, on the file tree it lives in.
-/

namespace DotRunner
namespace Artifacts

open Py Py.FileTree

abbrev Bytes := List UInt8

/-- What is stored: `bytes`, a `bytearray`, or any other value. -/
inductive Data where
  | bytes (mutable : Bool) (content : Bytes)
  | value (v : Value)

/-- `d == d'` -/
def Data.pyEq : Data → Data → Bool
  | bytes _ content, bytes _ content' => content == content'
  | value v, value w => v.pyEq w
  | _, _ => false

def fileBackingThreshold : Nat := 102400

structure Artifact where
  name : String
  artifactType : String
  /-- the data, or the path of the file that holds it -/
  data : Data
  size : Nat
  isFileBacked : Bool := false

structure ArtifactStore where
  baseDir : List Char
  artifacts : Dict String Artifact

/-- `os.path.join(self._base_dir, "artifacts", f"{name}.json")` -/
def artifactPath (baseDir : List Char) (name : String) : List Char :=
  PosixPath.join (PosixPath.join baseDir "artifacts".toList) (name.toList ++ ".json".toList)

section Calls

variable [Runtime]

/-! ## Files -/

/-- `_byte_size` -/
def byteSize : Data → Except PyExc Nat
  | .value (.str s) => .ok s.utf8ByteSize
  | .bytes _ content => .ok content.length
  | .value v => (Json.dumpsCompact v).map List.length

/-- Is the data beyond the threshold? -/
def isLarge (data : Data) : Bool :=
  match byteSize data with
  | .ok size => decide (fileBackingThreshold < size)
  | .error _ => false

/-- What `_write_json` makes a JSON text of. -/
def Data.payload : Data → Value
  | .bytes _ content => .dict [("__bytes__", .list (content.map fun b => .int b.toNat))]
  | .value v => v

def Data.text (d : Data) : List Char := Json.compactText d.payload

/-- One item of `bytes(iterable)` -/
def byteOf : Value → Except PyExc UInt8
  | .int i =>
    if 0 ≤ i ∧ i < 256 then .ok (UInt8.ofNat i.toNat)
    else .error (.valueError "bytes must be in range(0, 256)")
  | .bool b => .ok (if b then 1 else 0)
  | v => .error (.typeError ("'" ++ v.typeName ++ "' object cannot be interpreted as an integer"))

/-- `bytes(v)`, of what a JSON text can hold -/
def bytesOf : Value → Except PyExc Bytes
  | .int i =>
    if 0 ≤ i then .ok (List.replicate i.toNat 0) else .error (.valueError "negative count")
  | .bool b => .ok (if b then [0] else [])
  | .list xs => xs.mapM byteOf
  | .dict kvs => (kvs.map fun p => Value.str p.1).mapM byteOf
  | .str _ => .error (.typeError "string argument without an encoding")
  | v => .error (.typeError ("cannot convert '" ++ v.typeName ++ "' object to bytes"))

/-- What `_read_json` makes of a JSON value. -/
def decode (payload : Value) : Except PyExc Data :=
  match payload with
  | .dict kvs => match Dict.lookup "__bytes__" kvs with
    | some w => (bytesOf w).map (Data.bytes false)
    | none => .ok (.value payload)
  | _ => .ok (.value payload)

/-- What `_read_json` makes of the text of a file. -/
def parse (text : List Char) : Except PyExc Data :=
  match Json.loads text with
  | some payload => decode payload
  | none => .error (.raised "JSONDecodeError")

def writeJson (path : List Char) (data : Data) : Io Unit := writeText path data.text

def readJson (path : List Char) : Io Data :=
  andThen (readText path) fun text t => (parse text, t)

/-! ## The store -/

/-- A store and the files around it. -/
structure Shelf where
  store : ArtifactStore
  tree : Tree

/-- `name = artifact_id or name`, for each of the methods -/
def nameOf (method : String) (name artifactId : Option String) : Except PyExc String :=
  match orStr artifactId name with
  | some name => .ok name
  | none => .error (.typeError (method ++ "() requires 'name' or 'artifact_id'"))

namespace ArtifactStore

/-- What `store` leaves in the file system, and the data it keeps in memory. -/
def back (baseDir : List Char) (name : String) (data : Data) : Io Data :=
  let path := artifactPath baseDir name
  andThen (andThen (mkdirParent path) fun _ => writeJson path data) fun _ =>
    done (.value (.str (String.ofList path)))

/-- `store`, with the name resolved -/
def store (s : ArtifactStore) (name : String) (data : Data) (artifactType : String) (t : Tree) :
    Except PyExc Artifact × Shelf :=
  match byteSize data with
  | .error e => (.error e, ⟨s, t⟩)
  | .ok size =>
    let isFileBacked := decide (fileBackingThreshold < size)
    match (if isFileBacked then back s.baseDir name data else done data) t with
    | (.error e, t) => (.error e, ⟨s, t⟩)
    | (.ok stored, t) =>
      let artifact := ⟨name, artifactType, stored, size, isFileBacked⟩
      (.ok artifact, ⟨{ s with artifacts := s.artifacts.set name artifact }, t⟩)

/-- The path that a file-backed artifact keeps in place of its data. -/
def pathOf (a : Artifact) : List Char :=
  match a.data with
  | .value (.str path) => path.toList
  | _ => []

/-- `get`, with the name resolved -/
def get (s : ArtifactStore) (name : String) : Io (Option Artifact) :=
  match s.artifacts.get? name with
  | none => done none
  | some a =>
    if a.isFileBacked then andThen (readJson (pathOf a)) fun data => done (some { a with data := data })
    else done (some a)

/-- `if artifact.is_file_backed: ... os.remove(path)` -/
def discard (a : Artifact) : Io Unit :=
  if a.isFileBacked then
    andThen (pathExists (pathOf a)) fun there => if there then unlink (pathOf a) else done ()
  else done ()

/-- `remove`, with the name resolved -/
def remove (s : ArtifactStore) (name : String) (t : Tree) : Except PyExc Unit × Shelf :=
  let popped := { s with artifacts := s.artifacts.erase name }
  match s.artifacts.get? name with
  | some a => let (result, t) := discard a t; (result, ⟨popped, t⟩)
  | none => (.ok (), ⟨popped, t⟩)

def discardAll : List Artifact → Io Unit
  | [] => done ()
  | a :: as => andThen (discard a) fun _ => discardAll as

def clear (s : ArtifactStore) (t : Tree) : Except PyExc Unit × Shelf :=
  match discardAll s.artifacts.values t with
  | (.ok (), t) => (.ok (), ⟨{ s with artifacts := .empty }, t⟩)
  | (.error e, t) => (.error e, ⟨s, t⟩)

end ArtifactStore

/-! ## Calls -/

inductive Call where
  | store (name artifactId : Option String) (data : Data) (artifactType : String)
  | get (name artifactId : Option String)
  | remove (name artifactId : Option String)
  | clear

/-- A store in use: what it should hold, and the places it has written files at. -/
structure Use where
  shelf : Shelf
  /-- the data last stored under a name, unless it was removed since -/
  values : String → Option Data
  written : List Place

namespace Use

def artifact? (u : Use) (name : String) : Option Artifact := u.shelf.store.artifacts.get? name

/-- The name holds a value kept in a file. -/
def Backed (u : Use) (name : String) : Prop :=
  ∃ a, u.artifact? name = some a ∧ a.isFileBacked = true

def path (u : Use) (name : String) : List Char := artifactPath u.shelf.store.baseDir name

/-- Where the file of a name is. -/
def place (u : Use) (name : String) : Place := placeOf u.shelf.tree.cwd (u.path name)

def start (baseDir : List Char) (t : Tree) : Use := ⟨⟨⟨baseDir, .empty⟩, t⟩, fun _ => none, []⟩

/-- A call is made. -/
def next (u : Use) : Call → Use
  | .store name artifactId data artifactType => match nameOf "store" name artifactId with
    | .error _ => u
    | .ok name => match u.shelf.store.store name data artifactType u.shelf.tree with
      | (.error _, shelf) => { u with shelf := shelf }
      | (.ok _, shelf) => ⟨shelf, Function.update u.values name (some data),
          if isLarge data then u.place name :: u.written else u.written⟩
  | .get name artifactId => match nameOf "get" name artifactId with
    | .error _ => u
    | .ok name => { u with shelf := ⟨u.shelf.store, (u.shelf.store.get name u.shelf.tree).2⟩ }
  | .remove name artifactId => match nameOf "remove" name artifactId with
    | .error _ => u
    | .ok name => ⟨(u.shelf.store.remove name u.shelf.tree).2, Function.update u.values name none,
        u.written⟩
  | .clear => match u.shelf.store.clear u.shelf.tree with
    | (.error _, shelf) => { u with shelf := shelf }
    | (.ok _, shelf) => ⟨shelf, fun _ => none, u.written⟩

/-- What `get` gives for a name. -/
def got (u : Use) (name : String) : Except PyExc (Option Artifact) :=
  (u.shelf.store.get name u.shelf.tree).1

end Use

end Calls

end Artifacts
end DotRunner
