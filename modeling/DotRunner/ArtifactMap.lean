import DotRunner.ArtifactStore
import DotRunner.Py.Ascii

/-!
# The artifact store as a map

Over any run of calls the store gives back what was last stored, as long as what goes to
a file can be read back from JSON, keeps to a place of its own below the directory, and is not
replaced by something small.
-/

namespace DotRunner
namespace Artifacts

open Py Py.FileTree Behaviour

/-- Further down than the directory. -/
def Below (top p : Place) : Prop := ∃ names, names ≠ [] ∧ p = names ++ top

section Map

variable [Runtime]

/-- What is read back from the file is equal to what was written. -/
def Reproduced (d : Data) : Prop :=
  ∃ d', parse (universalNewlines d.text) = .ok d' ∧ d'.pyEq d = true

/-- Of data whose floats read back, what counts is what `viaJson` makes of it. -/
theorem reproduced_iff {d : Data} (h : Json.Exact d.payload) :
    Reproduced d ↔ ∃ d', decode d.payload.viaJson = .ok d' ∧ d'.pyEq d = true := by
  have hread : universalNewlines d.text = d.text :=
    universalNewlines_of_no_return (Json.return_not_mem_compactText _ h)
  rw [Reproduced, hread, parse, Data.text, Json.loads_compactText h]

omit [Runtime] in
theorem byteOf_toNat (b : UInt8) : byteOf (.int b.toNat) = .ok b := by
  have hrange : (0 : Int) ≤ b.toNat ∧ (b.toNat : Int) < 256 := by
    have hlt := b.toNat_lt
    omega
  simp only [byteOf, hrange, and_self, if_true, Int.toNat_natCast, UInt8.ofNat_toNat]

omit [Runtime] in
theorem bytesOf_content (content : Bytes) :
    bytesOf (.list (content.map fun b => .int b.toNat)) = .ok content := by
  show (content.map fun b => Value.int b.toNat).mapM byteOf = .ok content
  induction content with
  | nil => rfl
  | cons b content ih =>
    rw [List.map_cons, List.mapM_cons, byteOf_toNat, ih]
    rfl

theorem exactAll_ints (content : Bytes) :
    Json.ExactAll (content.map fun b => .int b.toNat) := by
  induction content with
  | nil => exact trivial
  | cons b content ih => exact ⟨trivial, ih⟩

omit [Runtime] in
theorem viaJson_payload_bytes (mutable : Bool) (content : Bytes) :
    (Data.bytes mutable content).payload.viaJson = (Data.bytes mutable content).payload := by
  rw [Data.payload, Value.viaJson, Value.viaJsonPairs_eq_map, List.map_singleton, Value.viaJson,
    Value.viaJsonAll_eq_map, List.map_map]
  rfl

theorem reproduced_bytes (mutable : Bool) (content : Bytes) :
    Reproduced (.bytes mutable content) := by
  have hexact : Json.Exact (Data.bytes mutable content).payload :=
    ⟨List.nodup_singleton _, exactAll_ints content, trivial⟩
  refine (reproduced_iff hexact).mpr ⟨.bytes false content, ?_, beq_self_eq_true content⟩
  rw [viaJson_payload_bytes]
  show (bytesOf (.list (content.map fun b => .int b.toNat))).map (Data.bytes false) = _
  rw [bytesOf_content]
  rfl

/-- A value that JSON keeps as it is comes back, unless it looks like packed bytes. -/
theorem reproduced_value {v : Value} (h : Json.Exact v) (hequal : v.viaJson.pyEq v = true)
    (hplain : ∀ kvs, v.viaJson = .dict kvs → Dict.lookup "__bytes__" kvs = none) :
    Reproduced (.value v) := by
  have hdecode : decode v.viaJson = .ok (.value v.viaJson) := by
    cases hv : v.viaJson with
    | dict kvs =>
      unfold decode
      dsimp only
      rw [hplain kvs hv]
    | _ => rfl
  exact (reproduced_iff (d := .value v) h).mpr ⟨.value v.viaJson, hdecode, hequal⟩

theorem reproduced_str (s : String) : Reproduced (.value (.str s)) :=
  reproduced_value (v := .str s) trivial (beq_self_eq_true s) nofun

namespace Use

def top (u : Use) : Place :=
  placeOf u.shelf.tree.cwd (PosixPath.join u.shelf.store.baseDir "artifacts".toList)

/-- The data may go to the file of the name. -/
structure Backable (u : Use) (name : String) (data : Data) : Prop where
  inside : Below u.top (u.place name)
  alone : ∀ other, u.Backed other → other ≠ name → u.place other ≠ u.place name
  legible : u.shelf.tree.Legible (u.place name)
  reproduced : Reproduced data

/-- The file system lets the file of the name go. -/
def Removable (u : Use) (name : String) : Prop :=
  u.Backed name → u.shelf.tree.open? (u.place name).tail = true

/-- What a call has to meet. -/
def Meets (u : Use) : Call → Prop
  | .store name artifactId data _ => ∀ resolved, nameOf "store" name artifactId = .ok resolved →
      if isLarge data then u.Backable resolved data else ¬u.Backed resolved
  | .get _ _ => True
  | .remove name artifactId => ∀ resolved, nameOf "remove" name artifactId = .ok resolved →
      u.Removable resolved
  | .clear => ∀ name, u.Removable name

end Use

/-- The call is on another name. -/
def Call.Leaves (name : String) : Call → Prop
  | .store n artifactId _ _ => nameOf "store" n artifactId ≠ .ok name
  | .get _ _ => True
  | .remove n artifactId => nameOf "remove" n artifactId ≠ .ok name
  | .clear => False

namespace Use

/-- `get` gives what should be held under the name, or nothing where nothing should. -/
def Returns (u : Use) (name : String) : Prop :=
  match u.values name with
  | none => u.got name = .ok none
  | some d => ∃ a, u.got name = .ok (some a) ∧ (a.data = d ∨ a.data.pyEq d = true)

/-- The store is a map, its files where they belong and no longer there than they are needed. -/
structure ActsAsMap (t₀ : Tree) (u : Use) : Prop where
  returned : ∀ name, u.Returns name
  others : ∀ c, u.Meets c → ∀ name, c.Leaves name → (u.next c).got name = u.got name
  inside : ∀ p, u.shelf.tree.files p ≠ t₀.files p → Below u.top p
  current : ∀ p ∈ u.written, u.shelf.tree.files p ≠ none → ∃ name, u.Backed name ∧ u.place name = p

/-- What is held under a name is what should be. -/
inductive Settled (u : Use) (name : String) : Prop where
  | absent (entry : u.artifact? name = none) (value : u.values name = none)
  | plain (a : Artifact) (entry : u.artifact? name = some a) (inMemory : a.isFileBacked = false)
      (value : u.values name = some a.data)
  | backed (a : Artifact) (d : Data) (entry : u.artifact? name = some a)
      (inFile : a.isFileBacked = true) (path : ArtifactStore.pathOf a = u.path name)
      (value : u.values name = some d) (reproduced : Reproduced d)
      (holds : u.shelf.tree.Holds (u.path name) (Json.fileBytes d.text))

/-- What carries it from call to call. -/
structure Good (t₀ : Tree) (u : Use) : Prop where
  settled : ∀ name, u.Settled name
  below : ∀ name, u.Backed name → Below u.top (u.place name)
  apart : ∀ name other, u.Backed name → u.Backed other → name ≠ other →
    u.place name ≠ u.place other
  inside : ∀ p, u.shelf.tree.files p ≠ t₀.files p → Below u.top p
  current : ∀ p ∈ u.written, u.shelf.tree.files p ≠ none → ∃ name, u.Backed name ∧ u.place name = p

/-! ## Reading -/

theorem got_absent {u : Use} {name : String} (h : u.artifact? name = none) :
    u.got name = .ok none := by
  rw [got, ArtifactStore.get, show u.shelf.store.artifacts.get? name = none from h]
  rfl

theorem got_plain {u : Use} {name : String} {a : Artifact} (h : u.artifact? name = some a)
    (hplain : a.isFileBacked = false) : u.got name = .ok (some a) := by
  rw [got, ArtifactStore.get, show u.shelf.store.artifacts.get? name = some a from h]
  simp only [hplain, Bool.false_eq_true, if_false]
  rfl

/-- A file-backed value is what its file is parsed to. -/
theorem got_backed {u : Use} {name : String} {a : Artifact} {d : Data}
    (h : u.artifact? name = some a) (hbacked : a.isFileBacked = true)
    (hpath : ArtifactStore.pathOf a = u.path name)
    (hholds : u.shelf.tree.Holds (u.path name) (Json.fileBytes d.text)) :
    u.got name = (parse (universalNewlines d.text)).map fun data => some { a with data := data } := by
  rw [got, ArtifactStore.get, show u.shelf.store.artifacts.get? name = some a from h]
  simp only [hbacked, if_true, hpath]
  rw [readJson, andThen, andThen, readText_of_holds hholds]
  simp only
  cases parse (universalNewlines d.text) <;> rfl

theorem Settled.returns {u : Use} {name : String} (h : u.Settled name) : u.Returns name := by
  unfold Returns
  cases h with
  | absent entry value =>
    rw [value]
    exact got_absent entry
  | plain a entry inMemory value =>
    rw [value]
    exact ⟨a, got_plain entry inMemory, .inl rfl⟩
  | backed a d entry inFile path value reproduced holds =>
    obtain ⟨d', hparse, hequal⟩ := reproduced
    rw [value]
    refine ⟨{ a with data := d' }, ?_, .inr hequal⟩
    rw [got_backed entry inFile path holds, hparse]
    rfl

/-- A call leaves a name alone. -/
structure Spares (u u' : Use) (name : String) : Prop where
  base : u'.shelf.store.baseDir = u.shelf.store.baseDir
  entry : u'.artifact? name = u.artifact? name
  value : u'.values name = u.values name
  holds : ∀ bytes, u.Backed name → u.shelf.tree.Holds (u.path name) bytes →
    u'.shelf.tree.Holds (u.path name) bytes

omit [Runtime] in
theorem Spares.path {u u' : Use} {name : String} (h : Spares u u' name) :
    u'.path name = u.path name := by
  rw [Use.path, Use.path, h.base]

omit [Runtime] in
theorem Spares.backed_iff {u u' : Use} {name : String} (h : Spares u u' name) :
    u'.Backed name ↔ u.Backed name := by
  rw [Backed, Backed, h.entry]

theorem Settled.spared {u u' : Use} {name : String} (hsettled : u.Settled name)
    (h : Spares u u' name) : u'.Settled name := by
  cases hsettled with
  | absent entry value => exact .absent (h.entry.trans entry) (h.value.trans value)
  | plain a entry inMemory value =>
    exact .plain a (h.entry.trans entry) inMemory (h.value.trans value)
  | backed a d entry inFile path value reproduced holds =>
    refine .backed a d (h.entry.trans entry) inFile (path.trans h.path.symm) (h.value.trans value)
      reproduced ?_
    rw [h.path]
    exact h.holds _ ⟨a, entry, inFile⟩ holds

theorem Settled.got_eq {u u' : Use} {name : String} (hsettled : u.Settled name)
    (h : Spares u u' name) : u'.got name = u.got name := by
  cases hsettled with
  | absent entry value => rw [got_absent entry, got_absent (h.entry.trans entry)]
  | plain a entry inMemory value =>
    rw [got_plain entry inMemory, got_plain (h.entry.trans entry) inMemory]
  | backed a d entry inFile path value reproduced holds =>
    have hholds := h.holds _ ⟨a, entry, inFile⟩ holds
    rw [got_backed entry inFile path holds,
      got_backed (h.entry.trans entry) inFile (path.trans h.path.symm) (h.path ▸ hholds)]

end Use

/-! ## What a call does -/

namespace ArtifactStore

/-- `store` raises and no file changes; or it keeps the data in memory; or it keeps it in the file. -/
theorem store_cases {s : ArtifactStore} {name : String} {data : Data} {artifactType : String}
    {t : Tree} {r : Except PyExc Artifact} {shelf : Shelf}
    (h : s.store name data artifactType t = (r, shelf)) :
    (∃ e t', r = .error e ∧ shelf = ⟨s, t'⟩ ∧ Grows t t' ∧ t'.files = t.files) ∨
    (isLarge data = false ∧ ∃ a, r = .ok a ∧ a.isFileBacked = false ∧ a.data = data ∧
      shelf = ⟨{ s with artifacts := s.artifacts.set name a }, t⟩) ∨
    (isLarge data = true ∧ ∃ a t', r = .ok a ∧ a.isFileBacked = true ∧
      pathOf a = artifactPath s.baseDir name ∧
      shelf = ⟨{ s with artifacts := s.artifacts.set name a }, t'⟩ ∧
      Written t t' (artifactPath s.baseDir name) data.text) := by
  unfold store at h
  cases hsize : byteSize data with
  | error e =>
    rw [hsize] at h
    cases h
    exact .inl ⟨e, t, rfl, rfl, ⟨rfl, fun _ _ => rfl⟩, rfl⟩
  | ok size =>
    rw [hsize] at h
    have hlarge : isLarge data = decide (fileBackingThreshold < size) := by
      rw [isLarge, hsize]
    by_cases hover : fileBackingThreshold < size
    · simp only [decide_eq_true hover, if_true] at h
      cases hback : back s.baseDir name data t with
      | mk stored t' =>
        rw [hback] at h
        cases stored with
        | error e =>
          cases h
          obtain hfailed | ⟨_, t₁, -, hdone⟩ := andThen_error_iff.mp hback
          · obtain ⟨hgrows, hfiles⟩ := grows_of_error hfailed
            exact .inl ⟨e, t', rfl, rfl, hgrows, hfiles⟩
          · cases hdone
        | ok stored =>
          cases h
          obtain ⟨_, t₁, hdone, hstored⟩ := andThen_ok_iff.mp hback
          cases hstored
          rw [hlarge, decide_eq_true hover]
          exact .inr (.inr ⟨rfl, _, _, rfl, rfl, String.toList_ofList, rfl, written_of_ok hdone⟩)
    · simp only [decide_eq_false hover, Bool.false_eq_true, if_false] at h
      cases h
      rw [hlarge, decide_eq_false hover]
      exact .inr (.inl ⟨rfl, _, rfl, rfl, rfl, rfl⟩)

/-- Beyond the threshold the entry keeps the path. -/
theorem store_of_back {s : ArtifactStore} {name : String} {data stored : Data}
    {artifactType : String} {t t' : Tree} {size : Nat} (hsize : byteSize data = .ok size)
    (hover : fileBackingThreshold < size) (hback : back s.baseDir name data t = (.ok stored, t')) :
    s.store name data artifactType t =
      (.ok ⟨name, artifactType, stored, size, true⟩,
        ⟨{ s with artifacts := s.artifacts.set name ⟨name, artifactType, stored, size, true⟩ }, t'⟩) := by
  rw [store, hsize]
  simp only [decide_eq_true hover, if_true, hback]

end ArtifactStore

/-! ## What a call keeps -/

namespace Use

/-- What a call on one name is to leave. -/
structure Change (u u' : Use) (name : String) : Prop where
  base : u'.shelf.store.baseDir = u.shelf.store.baseDir
  cwd : u'.shelf.tree.cwd = u.shelf.tree.cwd
  spares : ∀ x, x ≠ name → Spares u u' x
  settled : u'.Settled name
  below : u'.Backed name → Below u.top (u.place name)
  apart : u'.Backed name → ∀ other, u.Backed other → other ≠ name → u.place other ≠ u.place name
  files : ∀ p, p ≠ u.place name → u'.shelf.tree.files p = u.shelf.tree.files p
  inside : u'.shelf.tree.files (u.place name) ≠ u.shelf.tree.files (u.place name) →
    Below u.top (u.place name)
  written : ∀ p ∈ u'.written, p ≠ u.place name → p ∈ u.written
  current : u.place name ∈ u'.written → u'.shelf.tree.files (u.place name) ≠ none →
    ∃ x, u'.Backed x ∧ u.place x = u.place name

theorem Change.good {t₀ : Tree} {u u' : Use} {name : String} (hgood : u.Good t₀)
    (h : Change u u' name) : u'.Good t₀ := by
  have htop : u'.top = u.top := by rw [Use.top, Use.top, h.base, h.cwd]
  have hplace : ∀ x, u'.place x = u.place x := fun x => by
    rw [Use.place, Use.place, Use.path, Use.path, h.base, h.cwd]
  have hold : ∀ {x}, x ≠ name → (u'.Backed x ↔ u.Backed x) := fun hx => (h.spares _ hx).backed_iff
  constructor
  · intro x
    by_cases hx : x = name
    · exact hx ▸ h.settled
    · exact (hgood.settled x).spared (h.spares x hx)
  · intro x hbacked
    rw [htop, hplace]
    by_cases hx : x = name
    · rw [hx] at hbacked ⊢
      exact h.below hbacked
    · exact hgood.below x ((hold hx).mp hbacked)
  · intro x y hxbacked hybacked hne
    rw [hplace, hplace]
    by_cases hx : x = name
    · rw [hx] at hxbacked hne ⊢
      exact (h.apart hxbacked y ((hold hne.symm).mp hybacked) hne.symm).symm
    · by_cases hy : y = name
      · rw [hy] at hybacked ⊢
        exact h.apart hybacked x ((hold hx).mp hxbacked) hx
      · exact hgood.apart x y ((hold hx).mp hxbacked) ((hold hy).mp hybacked) hne
  · intro p hchanged
    rw [htop]
    by_cases hp : p = u.place name
    · by_cases hsame : u'.shelf.tree.files (u.place name) = u.shelf.tree.files (u.place name)
      · rw [hp] at hchanged ⊢
        exact hgood.inside _ (hsame ▸ hchanged)
      · exact hp ▸ h.inside hsame
    · rw [h.files p hp] at hchanged
      exact hgood.inside p hchanged
  · intro p hwritten hthere
    by_cases hp : p = u.place name
    · rw [hp] at hwritten hthere ⊢
      obtain ⟨x, hbacked, hx⟩ := h.current hwritten hthere
      exact ⟨x, hbacked, (hplace x).trans hx⟩
    · rw [h.files p hp] at hthere
      obtain ⟨x, hbacked, hx⟩ := hgood.current p (h.written p hwritten hp) hthere
      have hne : x ≠ name := fun heq => hp (by rw [← hx, heq])
      exact ⟨x, (hold hne).mpr hbacked, (hplace x).trans hx⟩

section Effects

variable {t₀ : Tree} {u : Use} {name : String}

/-- Without a file of its own a name has none to leave behind. -/
theorem Change.of_unbacked {u' : Use} (hgood : u.Good t₀) (hunbacked : ¬u.Backed name)
    (hbase : u'.shelf.store.baseDir = u.shelf.store.baseDir)
    (htree : u'.shelf.tree = u.shelf.tree) (hwritten : u'.written = u.written)
    (hspares : ∀ x, x ≠ name → Spares u u' x) (hsettled : u'.Settled name)
    (hplain : ¬u'.Backed name) : Change u u' name where
  base := hbase
  cwd := by rw [htree]
  spares := hspares
  settled := hsettled
  below hbacked := absurd hbacked hplain
  apart hbacked := absurd hbacked hplain
  files _ _ := by rw [htree]
  inside hchanged := absurd (by rw [htree]) hchanged
  written p hp _ := hwritten ▸ hp
  current hp hthere := by
    rw [hwritten] at hp
    rw [htree] at hthere
    obtain ⟨x, hbacked, hx⟩ := hgood.current _ hp hthere
    have hne : x ≠ name := fun heq => hunbacked (heq ▸ hbacked)
    exact ⟨x, (hspares x hne).backed_iff.mpr hbacked, hx⟩

/-- Where another entry is kept. -/
def withArtifact (u : Use) (name : String) (a : Artifact) (t : Tree) (data : Data)
    (written : List Place) : Use :=
  ⟨⟨{ u.shelf.store with artifacts := u.shelf.store.artifacts.set name a }, t⟩,
    Function.update u.values name (some data), written⟩

omit [Runtime] in
theorem artifact?_withArtifact (a : Artifact) (t : Tree) (data : Data) (written : List Place) :
    (u.withArtifact name a t data written).artifact? name = some a :=
  Dict.get?_set_self _ _ _

omit [Runtime] in
theorem artifact?_withArtifact_of_ne {x : String} (hx : x ≠ name) (a : Artifact) (t : Tree)
    (data : Data) (written : List Place) :
    (u.withArtifact name a t data written).artifact? x = u.artifact? x :=
  Dict.get?_set_of_ne _ _ hx.symm

theorem change_inMemory (hgood : u.Good t₀) (hunbacked : ¬u.Backed name) {a : Artifact}
    {data : Data} (hplain : a.isFileBacked = false) (hdata : a.data = data) :
    Change u (u.withArtifact name a u.shelf.tree data u.written) name := by
  have hentry : (u.withArtifact name a u.shelf.tree data u.written).artifact? name = some a :=
    artifact?_withArtifact a u.shelf.tree data u.written
  refine .of_unbacked hgood hunbacked rfl rfl rfl (fun x hx => ?_) ?_ ?_
  · exact ⟨rfl, artifact?_withArtifact_of_ne hx _ _ _ _, Function.update_of_ne hx _ _,
      fun _ _ hholds => hholds⟩
  · exact .plain a hentry hplain (by rw [hdata]; exact Function.update_self _ _ _)
  · rintro ⟨a', hentry', hbacked⟩
    rw [hentry] at hentry'
    cases hentry'
    rw [hplain] at hbacked
    cases hbacked

theorem change_inFile {a : Artifact} {data : Data} {t' : Tree}
    (hbackable : u.Backable name data) (hbacked : a.isFileBacked = true)
    (hpath : ArtifactStore.pathOf a = u.path name)
    (hwritten : Written u.shelf.tree t' (u.path name) data.text) :
    Change u (u.withArtifact name a t' data (u.place name :: u.written)) name where
  base := rfl
  cwd := hwritten.undisturbed.cwd
  spares x hx := ⟨rfl, artifact?_withArtifact_of_ne hx _ _ _ _, Function.update_of_ne hx _ _,
    fun _ hx' hholds => hholds.undisturbed hwritten.undisturbed (hbackable.alone x hx' hx)⟩
  settled := .backed a data (artifact?_withArtifact _ _ _ _) hbacked hpath
    (Function.update_self _ _ _) hbackable.reproduced (hwritten.holds hbackable.legible)
  below _ := hbackable.inside
  apart _ := hbackable.alone
  files p hp := by
    show t'.files p = u.shelf.tree.files p
    rw [hwritten.files]
    exact if_neg hp
  inside _ := hbackable.inside
  written p hp hne := (List.mem_cons.mp hp).resolve_left hne
  current _ _ := ⟨name, ⟨a, artifact?_withArtifact _ _ _ _, hbacked⟩, rfl⟩

/-- Where an entry is dropped. -/
def withoutArtifact (u : Use) (name : String) (t : Tree) : Use :=
  ⟨⟨{ u.shelf.store with artifacts := u.shelf.store.artifacts.erase name }, t⟩,
    Function.update u.values name none, u.written⟩

omit [Runtime] in
theorem artifact?_withoutArtifact (t : Tree) :
    (u.withoutArtifact name t).artifact? name = none :=
  (Dict.get?_erase _ _ _).trans (if_pos rfl)

omit [Runtime] in
theorem artifact?_withoutArtifact_of_ne {x : String} (hx : x ≠ name) (t : Tree) :
    (u.withoutArtifact name t).artifact? x = u.artifact? x :=
  (Dict.get?_erase _ _ _).trans (if_neg hx.symm)

theorem settled_withoutArtifact (t : Tree) : (u.withoutArtifact name t).Settled name :=
  .absent (artifact?_withoutArtifact t) (Function.update_self _ _ _)

omit [Runtime] in
theorem unbacked_withoutArtifact (t : Tree) : ¬(u.withoutArtifact name t).Backed name := by
  rintro ⟨a, hentry, -⟩
  rw [artifact?_withoutArtifact] at hentry
  cases hentry

theorem change_dropped (hgood : u.Good t₀) (hunbacked : ¬u.Backed name) :
    Change u (u.withoutArtifact name u.shelf.tree) name :=
  .of_unbacked hgood hunbacked rfl rfl rfl
    (fun _ hx => ⟨rfl, artifact?_withoutArtifact_of_ne hx _, Function.update_of_ne hx _ _,
      fun _ _ hholds => hholds⟩)
    (settled_withoutArtifact _) (unbacked_withoutArtifact _)

theorem change_deleted (hgood : u.Good t₀) (hbacked : u.Backed name)
    (hgone : Undisturbed u.shelf.tree (u.shelf.tree.put (u.place name) none) (u.place name)) :
    Change u (u.withoutArtifact name (u.shelf.tree.put (u.place name) none)) name where
  base := rfl
  cwd := rfl
  spares x hx := ⟨rfl, artifact?_withoutArtifact_of_ne hx _, Function.update_of_ne hx _ _,
    fun _ hx' hholds => hholds.undisturbed hgone (hgood.apart x name hx' hbacked hx)⟩
  settled := settled_withoutArtifact _
  below h := absurd h (unbacked_withoutArtifact _)
  apart h := absurd h (unbacked_withoutArtifact _)
  files p hp := by
    show (u.shelf.tree.put (u.place name) none).files p = u.shelf.tree.files p
    rw [Tree.put_files]
    exact if_neg hp
  inside _ := hgood.below name hbacked
  written p hp _ := hp
  current _ hthere := by
    refine absurd ?_ hthere
    show (u.shelf.tree.put (u.place name) none).files (u.place name) = none
    rw [Tree.put_files]
    exact if_pos rfl

/-- A call that raises may leave directories behind. -/
theorem change_failed (hgood : u.Good t₀) {t' : Tree} (hgrows : Grows u.shelf.tree t')
    (hfiles : t'.files = u.shelf.tree.files) (name : String) :
    Change u { u with shelf := ⟨u.shelf.store, t'⟩ } name := by
  have hspares : ∀ x, Spares u { u with shelf := ⟨u.shelf.store, t'⟩ } x := fun x =>
    ⟨rfl, rfl, rfl, fun _ _ hholds => hholds.grows hgrows⟩
  exact {
    base := rfl
    cwd := hgrows.cwd
    spares := fun x _ => hspares x
    settled := (hgood.settled name).spared (hspares name)
    below := hgood.below name
    apart := fun hbacked other hother hne => hgood.apart other name hother hbacked hne
    files := fun p _ => congrFun hfiles p
    inside := fun hchanged => absurd (congrFun hfiles _) hchanged
    written := fun p hp _ => hp
    current := fun hp hthere => hgood.current _ hp fun hnone => hthere ((congrFun hfiles _).trans hnone) }

end Effects

/-! ## All files go -/

theorem discard_plain {a : Artifact} (h : a.isFileBacked = false) (t : Tree) :
    ArtifactStore.discard a t = (.ok (), t) := by
  simp [ArtifactStore.discard, h, done]

theorem discard_backed {a : Artifact} {bytes : Bytes} {t : Tree} {path : List Char}
    (h : a.isFileBacked = true) (hpath : ArtifactStore.pathOf a = path) (hholds : t.Holds path bytes)
    (hopen : t.open? (placeOf t.cwd path).tail = true) :
    ArtifactStore.discard a t = (.ok (), t.put (placeOf t.cwd path) none) := by
  rw [ArtifactStore.discard, if_pos h, hpath, andThen, pathExists_of_holds hholds]
  exact (unlink_of_holds hholds hopen).1

/-- A file-backed entry whose file can be deleted. -/
structure Deletable (u : Use) (t : Tree) (p : String × Artifact) : Prop where
  path : ArtifactStore.pathOf p.2 = u.path p.1
  holds : ∃ bytes, t.Holds (u.path p.1) bytes
  isOpen : t.open? (u.place p.1).tail = true

theorem discardAll_entries {u : Use} : ∀ {entries : List (String × Artifact)} {t : Tree},
    t.cwd = u.shelf.tree.cwd →
    (∀ p ∈ entries, p.2.isFileBacked = true → Deletable u t p) →
    entries.Pairwise (fun p q => p.2.isFileBacked = true → q.2.isFileBacked = true →
      u.place p.1 ≠ u.place q.1) →
    ∃ t', ArtifactStore.discardAll (entries.map Prod.snd) t = (.ok (), t') ∧ t'.cwd = t.cwd ∧
      (∀ p ∈ entries, p.2.isFileBacked = true → t'.files (u.place p.1) = none) ∧
      (∀ place, (∀ p ∈ entries, p.2.isFileBacked = true → u.place p.1 ≠ place) →
        t'.files place = t.files place)
  | [], t, _, _, _ => ⟨t, rfl, rfl, fun _ h => (nomatch h), fun _ _ => rfl⟩
  | (name, a) :: entries, t, hcwd, hdeletable, hapart => by
    obtain ⟨hfirst, hrest⟩ := List.pairwise_cons.mp hapart
    cases hbacked : a.isFileBacked with
    | false =>
      obtain ⟨t', hall, hcwd', hgone, hstay⟩ := discardAll_entries hcwd
        (fun p hp => hdeletable p (List.mem_cons_of_mem _ hp)) hrest
      refine ⟨t', ?_, hcwd', ?_, ?_⟩
      · rw [List.map_cons, ArtifactStore.discardAll, andThen, discard_plain hbacked]
        exact hall
      · intro p hp hp'
        obtain rfl | hp := List.mem_cons.mp hp
        · rw [hbacked] at hp'
          cases hp'
        · exact hgone p hp hp'
      · exact fun place hplace => hstay place fun p hp => hplace p (List.mem_cons_of_mem _ hp)
    | true =>
      obtain ⟨hpath, ⟨bytes, hholds⟩, hopen⟩ := hdeletable (name, a) List.mem_cons_self hbacked
      have hplace : placeOf t.cwd (u.path name) = u.place name := by rw [hcwd]; rfl
      have hopen' : t.open? (placeOf t.cwd (u.path name)).tail = true := by rw [hplace]; exact hopen
      have hdisc := discard_backed hbacked hpath hholds hopen'
      have hgone := (unlink_of_holds hholds hopen').2
      rw [hplace] at hdisc hgone
      have hdeletable' : ∀ p ∈ entries, p.2.isFileBacked = true →
          Deletable u (t.put (u.place name) none) p := by
        intro p hp hp'
        have hold := hdeletable p (List.mem_cons_of_mem _ hp) hp'
        obtain ⟨bytes', hholds'⟩ := hold.holds
        refine ⟨hold.path, ⟨bytes', hholds'.undisturbed hgone ?_⟩, open?_undisturbed hgone hold.isOpen⟩
        rw [hcwd]
        exact (hfirst p hp hbacked hp').symm
      have hput : (t.put (u.place name) none).cwd = u.shelf.tree.cwd := hcwd
      obtain ⟨t', hall, hcwd', hgone', hstay⟩ := discardAll_entries hput hdeletable' hrest
      refine ⟨t', ?_, hcwd', ?_, ?_⟩
      · rw [List.map_cons, ArtifactStore.discardAll, andThen, hdisc]
        exact hall
      · intro p hp hp'
        obtain rfl | hp := List.mem_cons.mp hp
        · rw [hstay _ fun q hq hq' => (hfirst q hq hbacked hq').symm, Tree.put_files]
          exact if_pos rfl
        · exact hgone' p hp hp'
      · intro place hne
        rw [hstay place fun p hp => hne p (List.mem_cons_of_mem _ hp), Tree.put_files]
        exact if_neg (hne (name, a) List.mem_cons_self hbacked).symm

theorem Good.deletable {t₀ : Tree} {u : Use} (hgood : u.Good t₀) {name : String} {a : Artifact}
    (hentry : u.artifact? name = some a) (hbacked : a.isFileBacked = true)
    (hremovable : u.Removable name) : Deletable u u.shelf.tree (name, a) := by
  cases hgood.settled name with
  | absent entry value =>
    rw [hentry] at entry
    cases entry
  | plain a' entry inMemory value =>
    rw [hentry] at entry
    cases entry
    rw [hbacked] at inMemory
    cases inMemory
  | backed a' d entry inFile path value reproduced holds =>
    rw [hentry] at entry
    cases entry
    exact ⟨path, ⟨_, holds⟩, hremovable ⟨a, hentry, hbacked⟩⟩

/-- Nothing is left to be held, and no file of what was. -/
theorem good_cleared {t₀ : Tree} {u : Use} (hgood : u.Good t₀)
    (hremovable : ∀ name, u.Removable name) : (u.next .clear).Good t₀ := by
  have hentries : ∀ p ∈ u.shelf.store.artifacts.entries, u.artifact? p.1 = some p.2 := fun p hp =>
    (Dict.get?_eq_some_iff _).mpr hp
  have hnodup : u.shelf.store.artifacts.entries.Pairwise fun p q => p.1 ≠ q.1 :=
    List.pairwise_map.mp u.shelf.store.artifacts.nodup
  have hdeletable : ∀ p ∈ u.shelf.store.artifacts.entries, p.2.isFileBacked = true →
      Deletable u u.shelf.tree p := fun p hp hbacked =>
    hgood.deletable (hentries p hp) hbacked (hremovable p.1)
  obtain ⟨t', hall, hcwd, hgone, hstay⟩ := discardAll_entries rfl hdeletable
    (hnodup.imp_of_mem fun {p q} hp hq hne hpb hqb =>
      hgood.apart p.1 q.1 ⟨p.2, hentries p hp, hpb⟩ ⟨q.2, hentries q hq, hqb⟩ hne)
  have hclear : u.shelf.store.clear u.shelf.tree =
      (.ok (), ⟨{ u.shelf.store with artifacts := .empty }, t'⟩) := by
    rw [ArtifactStore.clear, Dict.values, hall]
  have hnext : u.next .clear = ⟨⟨{ u.shelf.store with artifacts := .empty }, t'⟩, fun _ => none,
      u.written⟩ := by
    rw [next, hclear]
  have hunbacked : ∀ name, ¬(u.next .clear).Backed name := by
    rintro name ⟨a, hentry, -⟩
    rw [hnext] at hentry
    cases hentry
  have htop : (u.next .clear).top = u.top := by
    rw [hnext, Use.top, Use.top, hcwd]
  have htree : (u.next .clear).shelf.tree = t' := by rw [hnext]
  constructor
  · intro name
    rw [hnext]
    exact .absent rfl rfl
  · exact fun name hbacked => absurd hbacked (hunbacked name)
  · exact fun name _ hbacked => absurd hbacked (hunbacked name)
  · intro p hchanged
    rw [htop]
    rw [htree] at hchanged
    by_cases hfile : ∃ q ∈ u.shelf.store.artifacts.entries, q.2.isFileBacked = true ∧ u.place q.1 = p
    · obtain ⟨q, hq, hbacked, rfl⟩ := hfile
      exact hgood.below q.1 ⟨q.2, hentries q hq, hbacked⟩
    · rw [hstay p fun q hq hbacked hplace => hfile ⟨q, hq, hbacked, hplace⟩] at hchanged
      exact hgood.inside p hchanged
  · intro p hwritten hthere
    rw [htree] at hthere
    rw [hnext] at hwritten
    have hkept : t'.files p = u.shelf.tree.files p := by
      refine hstay p fun q hq hbacked hplace => hthere ?_
      rw [← hplace]
      exact hgone q hq hbacked
    rw [hkept] at hthere
    obtain ⟨name, ⟨a, hentry, hbacked⟩, rfl⟩ := hgood.current p hwritten hthere
    have hmem : (name, a) ∈ u.shelf.store.artifacts.entries := (Dict.get?_eq_some_iff _).mp hentry
    exact absurd (hkept.symm.trans (hgone (name, a) hmem hbacked)) hthere

/-! ## Runs -/

theorem readJson_looks (path : List Char) : Looks (readJson path) :=
  looks_andThen (readText_looks path) fun _ _ => rfl

theorem get_looks (s : ArtifactStore) (name : String) : Looks (s.get name) := by
  rw [ArtifactStore.get]
  split
  · exact looks_done _
  · split
    · exact looks_andThen (readJson_looks _) fun _ => looks_done _
    · exact looks_done _

theorem next_get (u : Use) (name artifactId : Option String) :
    u.next (.get name artifactId) = u := by
  rw [next]
  split
  · rfl
  · rw [get_looks]

/-- A call on one name changes nothing but what it is on. -/
theorem change_next {t₀ : Tree} {u : Use} (hgood : u.Good t₀) {c : Call} (hmeets : u.Meets c) :
    u.next c = u ∨ c = .clear ∨ ∃ name, Change u (u.next c) name ∧ ¬c.Leaves name := by
  cases c with
  | get name artifactId => exact .inl (next_get u name artifactId)
  | clear => exact .inr (.inl rfl)
  | store name artifactId data artifactType =>
    cases hname : nameOf "store" name artifactId with
    | error e =>
      left
      rw [next, hname]
    | ok resolved =>
      have hmeets := hmeets resolved hname
      refine .inr (.inr ⟨resolved, ?_, fun h => h hname⟩)
      cases hstore : u.shelf.store.store resolved data artifactType u.shelf.tree with
      | mk r shelf =>
        obtain ⟨e, t', rfl, rfl, hgrows, hfiles⟩ | ⟨hlarge, a, rfl, hplain, hdata, rfl⟩ |
          ⟨hlarge, a, t', rfl, hbacked, hpath, rfl, hwritten⟩ := ArtifactStore.store_cases hstore
        · have hnext : u.next (.store name artifactId data artifactType) =
              { u with shelf := ⟨u.shelf.store, t'⟩ } := by
            simp only [next, hname, hstore]
          rw [hnext]
          exact change_failed hgood hgrows hfiles resolved
        · have hnext : u.next (.store name artifactId data artifactType) =
              u.withArtifact resolved a u.shelf.tree data u.written := by
            simp only [next, hname, hstore, hlarge]
            rfl
          rw [hlarge] at hmeets
          rw [hnext]
          exact change_inMemory hgood hmeets hplain hdata
        · have hnext : u.next (.store name artifactId data artifactType) =
              u.withArtifact resolved a t' data (u.place resolved :: u.written) := by
            simp only [next, hname, hstore, hlarge]
            rfl
          rw [hlarge] at hmeets
          rw [hnext]
          exact change_inFile hmeets hbacked hpath hwritten
  | remove name artifactId =>
    cases hname : nameOf "remove" name artifactId with
    | error e =>
      left
      rw [next, hname]
    | ok resolved =>
      have hremovable := hmeets resolved hname
      refine .inr (.inr ⟨resolved, ?_, fun h => h hname⟩)
      have hnext : ∀ t', (u.shelf.store.remove resolved u.shelf.tree).2 =
          ⟨{ u.shelf.store with artifacts := u.shelf.store.artifacts.erase resolved }, t'⟩ →
          u.next (.remove name artifactId) = u.withoutArtifact resolved t' := by
        intro t' hremove
        simp only [next, hname, hremove]
        rfl
      cases hentry : u.artifact? resolved with
      | none =>
        rw [hnext u.shelf.tree (by rw [ArtifactStore.remove,
          show u.shelf.store.artifacts.get? resolved = none from hentry])]
        exact change_dropped hgood fun ⟨a, ha, _⟩ => nomatch hentry.symm.trans ha
      | some a =>
        have hget : u.shelf.store.artifacts.get? resolved = some a := hentry
        cases hbacked : a.isFileBacked with
        | false =>
          rw [hnext u.shelf.tree (by simp only [ArtifactStore.remove, hget, discard_plain hbacked])]
          refine change_dropped hgood fun ⟨a', ha, hbacked'⟩ => ?_
          rw [hentry] at ha
          cases ha
          rw [hbacked] at hbacked'
          cases hbacked'
        | true =>
          have hbacked' : u.Backed resolved := ⟨a, hentry, hbacked⟩
          obtain ⟨hpath, ⟨bytes, hholds⟩, hopen⟩ := hgood.deletable hentry hbacked hremovable
          rw [hnext (u.shelf.tree.put (u.place resolved) none)
            (by simp only [ArtifactStore.remove, hget, discard_backed hbacked hpath hholds hopen]; rfl)]
          exact change_deleted hgood hbacked' (unlink_of_holds hholds hopen).2

theorem good_next {t₀ : Tree} {u : Use} (hgood : u.Good t₀) {c : Call} (hmeets : u.Meets c) :
    (u.next c).Good t₀ := by
  obtain hsame | rfl | ⟨name, hchange, -⟩ := change_next hgood hmeets
  · rw [hsame]
    exact hgood
  · exact good_cleared hgood hmeets
  · exact hchange.good hgood

theorem Good.actsAsMap {t₀ : Tree} {u : Use} (hgood : u.Good t₀) : u.ActsAsMap t₀ where
  returned name := (hgood.settled name).returns
  others c hmeets name hleaves := by
    obtain hsame | rfl | ⟨other, hchange, hother⟩ := change_next hgood hmeets
    · rw [hsame]
    · cases hleaves
    · have hne : name ≠ other := fun heq => hother (heq ▸ hleaves)
      exact (hgood.settled name).got_eq (hchange.spares name hne)
  inside := hgood.inside
  current := hgood.current

theorem good_start (baseDir : List Char) (t : Tree) : (start baseDir t).Good t where
  settled _ := .absent rfl rfl
  below _ := fun ⟨_, h, _⟩ => nomatch h
  apart _ _ := fun ⟨_, h, _⟩ => nomatch h
  inside _ h := absurd rfl h
  current _ h := nomatch h

/-- The calls of one store, from its making on. -/
structure Life (baseDir : List Char) (t₀ : Tree) where
  steps : List (Transition Use Call)
  last : Use
  run : Run (fun u c u' => u.next c = u') (start baseDir t₀) steps last

/-- As long as every call meets its conditions, the store is a map. -/
theorem acts_as_map {baseDir : List Char} {t₀ : Tree} (life : Life baseDir t₀)
    (hmeets : ∀ t ∈ life.steps, t.source.Meets t.action) : life.last.ActsAsMap t₀ := by
  have hkept : ∀ t : Transition Use Call, t.source.next t.action = t.target →
      t.source.Meets t.action → t.source.Good t₀ → t.target.Good t₀ := by
    intro t hstep hmeets hgood
    rw [← hstep]
    exact good_next hgood hmeets
  exact (life.run.invariant_of hkept (good_start baseDir t₀) hmeets).actsAsMap

end Use

end Map

section Demo

open Py.Ascii

def artifactsDir : Place := ["artifacts".toList, ['r']]

/-- `/r/artifacts`, with nothing in it. -/
def shelfDir : Tree where
  node p := if p ∈ [[], [['r']], artifactsDir] then some (.dir true) else none
  cwd := []

def emptyShelf : Use := .start ['/', 'r'] shelfDir

def bigPlace : Place := "big.json".toList :: artifactsDir

/-- With the file of the content. -/
def filed (content : Bytes) : Tree :=
  shelfDir.put bigPlace (some (.file (Json.fileBytes (Data.bytes false content).text) true true))

def bigArtifact (content : Bytes) : Artifact where
  name := "big"
  artifactType := "file"
  data := .value (.str (String.ofList (artifactPath ['/', 'r'] "big")))
  size := content.length
  isFileBacked := true

def storeBig (content : Bytes) : Call := .store (some "big") none (.bytes false content) "file"

/-- After the content was stored. -/
def stocked (content : Bytes) : Use :=
  emptyShelf.withArtifact "big" (bigArtifact content) (filed content) (.bytes false content) [bigPlace]

theorem isLarge_bytes {content : Bytes} (h : fileBackingThreshold < content.length) :
    isLarge (.bytes false content) = true :=
  decide_eq_true h

theorem next_storeBig {content : Bytes} (h : fileBackingThreshold < content.length) :
    emptyShelf.next (storeBig content) = stocked content := by
  have hname : nameOf "store" (some "big") none = .ok "big" := by decide +kernel
  have hstore : emptyShelf.shelf.store.store "big" (.bytes false content) "file" shelfDir =
      (.ok (bigArtifact content), (stocked content).shelf) := ArtifactStore.store_of_back rfl h rfl
  have htree : emptyShelf.shelf.tree = shelfDir := rfl
  simp only [storeBig, Use.next, hname, htree, hstore, isLarge_bytes h, if_true]
  rfl

/-- Nothing, under a name. -/
def storeNone (name : String) : Call := .store (some name) none (.value .none) "text"

def noneArtifact (name : String) : Artifact := ⟨name, "text", .value .none, 4, false⟩

/-- After nothing was stored under a name. -/
def noted (content : Bytes) (name : String) : Use :=
  (stocked content).withArtifact name (noneArtifact name) (filed content) (.value .none) [bigPlace]

theorem next_storeNone (content : Bytes) {name : String}
    (hname : nameOf "store" (some name) none = .ok name) :
    (stocked content).next (storeNone name) = noted content name := by
  have hlarge : isLarge (.value .none) = false := rfl
  have hstore : (stocked content).shelf.store.store name (.value .none) "text" (filed content) =
      (.ok (noneArtifact name), (noted content name).shelf) := rfl
  have htree : (stocked content).shelf.tree = filed content := rfl
  simp only [storeNone, Use.next, hname, htree, hstore, hlarge, Bool.false_eq_true, if_false]
  rfl

theorem unbacked_stocked (content : Bytes) {name : String} (h : name ≠ "big") :
    ¬(stocked content).Backed name := by
  rintro ⟨a, hentry, -⟩
  rw [stocked, Use.artifact?_withArtifact_of_ne h] at hentry
  cases hentry

def largeContent : Bytes := List.replicate 102401 0

theorem largeContent_large : fileBackingThreshold < largeContent.length := by
  rw [largeContent, List.length_replicate]
  decide

/-- Where something small replaces the content, its file stays. -/
theorem replaced_file_stays : ¬∀ (baseDir : List Char) (t₀ : Tree) (life : Use.Life baseDir t₀),
    life.last.ActsAsMap t₀ := by
  intro hall
  have hname : nameOf "store" (some "big") none = .ok "big" := by decide +kernel
  have hmap := hall ['/', 'r'] shelfDir
    { steps := [⟨emptyShelf, storeBig largeContent, stocked largeContent⟩,
        ⟨stocked largeContent, storeNone "big", noted largeContent "big"⟩]
      last := noted largeContent "big"
      run := .cons (next_storeBig largeContent_large) (.cons (next_storeNone largeContent hname) .nil) }
  have hfile : (filed largeContent).files bigPlace ≠ none := by
    rw [filed, Tree.put_files, Files.put, if_pos rfl]
    exact Option.some_ne_none _
  obtain ⟨name, ⟨a, hentry, hbacked⟩, -⟩ := hmap.current bigPlace List.mem_cons_self hfile
  have hentry : (noted largeContent "big").artifact? name = some a := hentry
  by_cases hbig : name = "big"
  · rw [hbig, noted, Use.artifact?_withArtifact] at hentry
    cases hentry
    cases hbacked
  · rw [noted, Use.artifact?_withArtifact_of_ne hbig] at hentry
    exact unbacked_stocked largeContent hbig ⟨a, hentry, hbacked⟩

theorem backable_big (content : Bytes) : emptyShelf.Backable "big" (.bytes false content) where
  inside := ⟨["big.json".toList], by decide, by decide +kernel⟩
  alone _ := fun ⟨_, hentry, _⟩ => nomatch hentry
  legible _ _ _ hnode := nomatch (show none = _ from hnode)
  reproduced := reproduced_bytes false content

/-- A large content, and nothing under another name; the content is asked for and removed. -/
def shelfLife {content : Bytes} (h : fileBackingThreshold < content.length) :
    Use.Life ['/', 'r'] shelfDir where
  steps := [⟨emptyShelf, storeBig content, stocked content⟩,
    ⟨stocked content, storeNone "note", noted content "note"⟩,
    ⟨noted content "note", .get (some "big") none, noted content "note"⟩,
    ⟨noted content "note", .remove (some "big") none,
      (noted content "note").next (.remove (some "big") none)⟩]
  last := (noted content "note").next (.remove (some "big") none)
  run := .cons (next_storeBig h) (.cons (next_storeNone content (by decide +kernel))
    (.cons (Use.next_get _ _ _) (.cons rfl .nil)))

theorem shelfLife_acts_as_map : (shelfLife largeContent_large).last.ActsAsMap shelfDir := by
  refine Use.acts_as_map (shelfLife largeContent_large) fun t ht => ?_
  simp only [shelfLife, List.mem_cons, List.not_mem_nil, or_false] at ht
  obtain rfl | rfl | rfl | rfl := ht
  · intro resolved hname
    have hbig : nameOf "store" (some "big") none = .ok "big" := by decide +kernel
    obtain rfl : "big" = resolved := Except.ok.inj (hbig.symm.trans hname)
    rw [if_pos (isLarge_bytes largeContent_large)]
    exact backable_big largeContent
  · intro resolved hname
    have hnote : nameOf "store" (some "note") none = .ok "note" := by decide +kernel
    obtain rfl : "note" = resolved := Except.ok.inj (hnote.symm.trans hname)
    exact unbacked_stocked largeContent (by decide)
  · trivial
  · intro resolved hname _
    have hbig : nameOf "remove" (some "big") none = .ok "big" := by decide +kernel
    obtain rfl : "big" = resolved := Except.ok.inj (hbig.symm.trans hname)
    rfl

end Demo

end Artifacts
end DotRunner
