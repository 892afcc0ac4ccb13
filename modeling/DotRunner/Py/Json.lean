import DotRunner.Py.Value

/-!
# JSON texts

What `json.dump(v, f, indent=2, default=str)` writes.  The encoder hands its text
to the file piece by piece, so an exception raised on some value leaves the
pieces before it behind.
-/

namespace Py
namespace Json

/-! ## Writing -/

/-- The characters with an escape of their own. -/
def shortEscapes : List (Char × Char) :=
  [('"', '"'), ('\\', '\\'), ('\n', 'n'), ('\r', 'r'), ('\t', 't'), ('\x0c', 'f'), ('\x08', 'b')]

def hex4 (n : Nat) : List Char :=
  [Nat.digitChar (n / 4096 % 16), Nat.digitChar (n / 256 % 16), Nat.digitChar (n / 16 % 16),
    Nat.digitChar (n % 16)]

def uEscape (n : Nat) : List Char := '\\' :: 'u' :: hex4 n

/-- One character of a quoted text, in ASCII; one beyond the first plane is a
surrogate pair. -/
def escapeChar (c : Char) : List Char :=
  match shortEscapes.lookup c with
  | some e => ['\\', e]
  | none =>
    if 0x20 ≤ c.toNat ∧ c.toNat ≤ 0x7e then [c]
    else if c.toNat < 0x10000 then uEscape c.toNat
    else
      let n := c.toNat - 0x10000
      uEscape (0xd800 + n / 0x400) ++ uEscape (0xdc00 + n % 0x400)

def quote (s : String) : List Char := '"' :: (s.toList.flatMap escapeChar ++ ['"'])

/-- A line break and the indentation after it. -/
def newline (indent : Nat) : List Char := '\n' :: List.replicate (2 * indent) ' '

def separator (indent : Nat) : List Char := ',' :: newline indent

def floatText [Runtime] : PyFloat → List Char
  | .finite q => (Runtime.reprFloat q).toList
  | .inf false => "Infinity".toList
  | .inf true => "-Infinity".toList
  | .nan _ => "NaN".toList

/-- The text of a value JSON has a form for, brackets apart. -/
def atomText [Runtime] : Value → List Char
  | .none => "null".toList
  | .bool true => "true".toList
  | .bool false => "false".toList
  | .int i => (toString i).toList
  | .float f => floatText f
  | .str s => quote s
  | _ => []

/-- What has been handed to the file, and what was raised then. -/
structure Emitted where
  text : List Char
  raised : Option PyExc := none

namespace Emitted

/-- Nothing is emitted after an exception. -/
def andThen (a b : Emitted) : Emitted :=
  match a.raised with
  | some _ => a
  | none => { text := a.text ++ b.text, raised := b.raised }

/-- `before`, in one piece with what `e` emits. -/
def joined (before : List Char) (e : Emitted) : Emitted :=
  match e.raised with
  | some _ => e
  | none => { text := before ++ e.text }

/-- Nothing at all is emitted of a value that raises. -/
def guarded (raised : Option PyExc) (e : Emitted) : Emitted :=
  match raised with
  | some exc => { text := [], raised := some exc }
  | none => e

end Emitted

/-- A list hands an atom to the file together with what stands before it. -/
def isAtom : Value → Bool
  | .none | .bool _ | .int _ | .float _ | .str _ => true
  | _ => false

/-- What is raised for the first key, where it is of a kind without a text. -/
def refusal (kinds : List KeyKind) : Option PyExc :=
  match kinds.headD .str with
  | .refused typeName => some (.typeError
      ("keys must be str, int, float, bool or None, not " ++ typeName))
  | _ => none

section Encoder

-- What is raised when the encoder comes to a value, at some depth.
variable [Runtime] (fault : Nat → Value → Option PyExc)

mutual

/-- The pieces of a value, at a depth of `indent`. -/
def encode (indent : Nat) : Value → Emitted
  | .list xs => Emitted.guarded (fault indent (.list xs)) <|
    if xs.isEmpty then { text := "[]".toList }
    else (encodeItems (indent + 1) ('[' :: newline (indent + 1)) xs).andThen
      { text := newline indent ++ [']'] }
  | .tuple xs => Emitted.guarded (fault indent (.tuple xs)) <|
    if xs.isEmpty then { text := "[]".toList }
    else (encodeItems (indent + 1) ('[' :: newline (indent + 1)) xs).andThen
      { text := newline indent ++ [']'] }
  | .dict kvs => Emitted.guarded (fault indent (.dict kvs)) <|
    if kvs.isEmpty then { text := "\x7b\x7d".toList }
    else (encodePairs (indent + 1) ('\x7b' :: newline (indent + 1)) kvs []).andThen
      { text := newline indent ++ ['\x7d'] }
  | .keyed kinds kvs => Emitted.guarded (fault indent (.keyed kinds kvs)) <|
    if kvs.isEmpty then { text := "\x7b\x7d".toList }
    else (Emitted.andThen { text := '\x7b' :: newline (indent + 1) }
      (encodePairs (indent + 1) [] kvs kinds)).andThen { text := newline indent ++ ['\x7d'] }
  | .other s r => Emitted.guarded (fault indent (.other s r)) { text := quote s }
  | v => Emitted.guarded (fault indent v) { text := atomText v }

/-- What stands before an item that is no atom is emitted before the item is
encoded. -/
def encodeItems (indent : Nat) (before : List Char) : List Value → Emitted
  | [] => { text := [] }
  | v :: vs => Emitted.andThen
      (if isAtom v then (encode indent v).joined before
      else Emitted.andThen { text := before } (encode indent v))
      (encodeItems indent (separator indent) vs)

/-- A key without a text is refused before anything of its entry is emitted. -/
def encodePairs (indent : Nat) (before : List Char) :
    List (String × Value) → List KeyKind → Emitted
  | [], _ => { text := [] }
  | (k, v) :: kvs, kinds => Emitted.guarded (refusal kinds) <|
      (Emitted.andThen { text := before ++ (quote k ++ [':', ' ']) } (encode indent v)).andThen
        (encodePairs indent (separator indent) kvs kinds.tail)

end

end Encoder

section Texts

variable [Runtime]

mutual

/-- The whole text of `v`. -/
def text (indent : Nat) : Value → List Char
  | .list xs =>
    if xs.isEmpty then "[]".toList
    else itemsText (indent + 1) ('[' :: newline (indent + 1)) xs ++ (newline indent ++ [']'])
  | .tuple xs =>
    if xs.isEmpty then "[]".toList
    else itemsText (indent + 1) ('[' :: newline (indent + 1)) xs ++ (newline indent ++ [']'])
  | .dict kvs =>
    if kvs.isEmpty then "\x7b\x7d".toList
    else pairsText (indent + 1) ('\x7b' :: newline (indent + 1)) kvs ++ (newline indent ++ ['\x7d'])
  | .keyed _ kvs =>
    if kvs.isEmpty then "\x7b\x7d".toList
    else ('\x7b' :: newline (indent + 1)) ++ pairsText (indent + 1) [] kvs ++
      (newline indent ++ ['\x7d'])
  | .other s _ => quote s
  | v => atomText v

def itemsText (indent : Nat) (before : List Char) : List Value → List Char
  | [] => []
  | v :: vs => before ++ text indent v ++ itemsText indent (separator indent) vs

def pairsText (indent : Nat) (before : List Char) : List (String × Value) → List Char
  | [] => []
  | (k, v) :: kvs => before ++ (quote k ++ [':', ' ']) ++ text indent v ++
      pairsText indent (separator indent) kvs

end

/-- What was emitted is `t`, or a part of it where an exception was raised. -/
structure Emitted.Of (e : Emitted) (t : List Char) : Prop where
  isPart : e.text <+: t
  whole : e.raised = none → e.text = t

omit [Runtime] in
theorem Emitted.of_text (t : List Char) : Emitted.Of { text := t } t where
  isPart := List.prefix_rfl
  whole _ := rfl

omit [Runtime] in
theorem Emitted.Of.guarded {e : Emitted} {t : List Char} (h : e.Of t) (raised : Option PyExc) :
    (Emitted.guarded raised e).Of t := by
  cases raised with
  | none => exact h
  | some exc => exact ⟨List.nil_prefix, nofun⟩

omit [Runtime] in
theorem Emitted.Of.andThen {a b : Emitted} {t u : List Char} (ha : a.Of t) (hb : b.Of u) :
    (a.andThen b).Of (t ++ u) := by
  unfold Emitted.andThen
  cases hraised : a.raised with
  | some e =>
    refine ⟨ha.isPart.trans (List.prefix_append t u), fun hnone => ?_⟩
    rw [hraised] at hnone
    cases hnone
  | none =>
    have htext := ha.whole hraised
    refine ⟨?_, fun hnone => ?_⟩
    · show a.text ++ b.text <+: t ++ u
      rw [htext]
      exact (List.prefix_append_right_inj t).mpr hb.isPart
    · show a.text ++ b.text = t ++ u
      rw [htext, hb.whole hnone]

omit [Runtime] in
theorem Emitted.Of.joined {e : Emitted} {t : List Char} (he : e.Of t) (hpart : e.raised ≠ none →
    e.text = []) (before : List Char) : (e.joined before).Of (before ++ t) := by
  unfold Emitted.joined
  cases hraised : e.raised with
  | some e' =>
    have hempty := hpart (by rw [hraised]; nofun)
    refine ⟨?_, fun hnone => ?_⟩
    · show e.text <+: before ++ t
      rw [hempty]
      exact List.nil_prefix
    · rw [hraised] at hnone
      cases hnone
  | none =>
    have htext := he.whole hraised
    refine ⟨?_, fun _ => ?_⟩
    · exact (List.prefix_append_right_inj before).mpr he.isPart
    · show before ++ e.text = before ++ t
      rw [htext]

variable (fault : Nat → Value → Option PyExc)

/-- An atom comes whole or not at all. -/
theorem encode_atom {v : Value} (h : isAtom v = true) (indent : Nat)
    (hraised : (encode fault indent v).raised ≠ none) : (encode fault indent v).text = [] := by
  have hguarded : ∀ (f : Option PyExc) (t : List Char),
      (Emitted.guarded f { text := t }).raised ≠ none → (Emitted.guarded f { text := t }).text = [] := by
    intro f t hr
    cases f with
    | none => exact absurd rfl hr
    | some e => rfl
  cases v <;> first | exact hguarded _ _ hraised | cases h

mutual

/-- The encoder emits the text, or stops inside it. -/
theorem encode_of (indent : Nat) : ∀ v : Value, (encode fault indent v).Of (text indent v)
  | .none | .bool _ | .int _ | .float _ | .str _ | .other _ _ => (Emitted.of_text _).guarded _
  | .list xs => by
    rw [encode, text]
    apply Emitted.Of.guarded
    by_cases hempty : xs.isEmpty = true
    · rw [if_pos hempty, if_pos hempty]
      exact Emitted.of_text _
    · rw [if_neg hempty, if_neg hempty]
      exact (encodeItems_of _ _ xs).andThen (Emitted.of_text _)
  | .tuple xs => by
    rw [encode, text]
    apply Emitted.Of.guarded
    by_cases hempty : xs.isEmpty = true
    · rw [if_pos hempty, if_pos hempty]
      exact Emitted.of_text _
    · rw [if_neg hempty, if_neg hempty]
      exact (encodeItems_of _ _ xs).andThen (Emitted.of_text _)
  | .dict kvs => by
    rw [encode, text]
    apply Emitted.Of.guarded
    by_cases hempty : kvs.isEmpty = true
    · rw [if_pos hempty, if_pos hempty]
      exact Emitted.of_text _
    · rw [if_neg hempty, if_neg hempty]
      exact (encodePairs_of _ _ kvs []).andThen (Emitted.of_text _)
  | .keyed kinds kvs => by
    rw [encode, text]
    apply Emitted.Of.guarded
    by_cases hempty : kvs.isEmpty = true
    · rw [if_pos hempty, if_pos hempty]
      exact Emitted.of_text _
    · rw [if_neg hempty, if_neg hempty]
      exact ((Emitted.of_text _).andThen (encodePairs_of _ _ kvs kinds)).andThen (Emitted.of_text _)

theorem encodeItems_of (indent : Nat) (before : List Char) :
    ∀ vs : List Value, (encodeItems fault indent before vs).Of (itemsText indent before vs)
  | [] => Emitted.of_text _
  | v :: vs => by
    rw [encodeItems, itemsText]
    apply Emitted.Of.andThen _ (encodeItems_of indent (separator indent) vs)
    by_cases hatom : isAtom v = true
    · rw [if_pos hatom]
      exact (encode_of indent v).joined (encode_atom fault hatom indent) before
    · rw [if_neg hatom]
      exact (Emitted.of_text before).andThen (encode_of indent v)

theorem encodePairs_of (indent : Nat) (before : List Char) :
    ∀ (kvs : List (String × Value)) (kinds : List KeyKind),
      (encodePairs fault indent before kvs kinds).Of (pairsText indent before kvs)
  | [], _ => Emitted.of_text _
  | (k, v) :: kvs, kinds => (((Emitted.of_text (before ++ (quote k ++ [':', ' ']))).andThen
      (encode_of indent v)).andThen
        (encodePairs_of indent (separator indent) kvs kinds.tail)).guarded _

end

/-- An object that raises is not emitted to its last brace. -/
theorem encode_dict_raised {kvs : List (String × Value)} (hne : kvs.isEmpty ≠ true) (indent : Nat)
    (h : (encode fault indent (.dict kvs)).raised ≠ none) :
    (encode fault indent (.dict kvs)).text.length < (text indent (.dict kvs)).length := by
  rw [encode, if_neg hne] at h ⊢
  rw [text, if_neg hne, List.length_append]
  have hpairs := encodePairs_of fault (indent + 1) ('\x7b' :: newline (indent + 1)) kvs []
  have hbrace : 0 < (newline indent ++ ['\x7d']).length := by simp
  cases hf : fault indent (.dict kvs) with
  | some e =>
    show 0 < _
    omega
  | none =>
    rw [hf] at h
    unfold Emitted.guarded Emitted.andThen at h ⊢
    cases hr : (encodePairs fault (indent + 1) ('\x7b' :: newline (indent + 1)) kvs []).raised with
    | none =>
      rw [hr] at h
      exact absurd rfl h
    | some e =>
      have hle := hpairs.isPart.length_le
      show (encodePairs fault (indent + 1) ('\x7b' :: newline (indent + 1)) kvs []).text.length < _
      omega

/-! ## Values that raise nothing -/

mutual

/-- Nothing is raised on the value or on any part of it. -/
def Faultless (indent : Nat) : Value → Prop
  | .list xs => fault indent (.list xs) = none ∧ FaultlessAll (indent + 1) xs
  | .tuple xs => fault indent (.tuple xs) = none ∧ FaultlessAll (indent + 1) xs
  | .dict kvs => fault indent (.dict kvs) = none ∧ FaultlessPairs (indent + 1) kvs []
  | .keyed kinds kvs => fault indent (.keyed kinds kvs) = none ∧ FaultlessPairs (indent + 1) kvs kinds
  | v => fault indent v = none

def FaultlessAll (indent : Nat) : List Value → Prop
  | [] => True
  | v :: vs => Faultless indent v ∧ FaultlessAll indent vs

def FaultlessPairs (indent : Nat) : List (String × Value) → List KeyKind → Prop
  | [], _ => True
  | (_, v) :: kvs, kinds =>
    refusal kinds = none ∧ Faultless indent v ∧ FaultlessPairs indent kvs kinds.tail

end

omit [Runtime] in
theorem Emitted.andThen_raised (a b : Emitted) :
    (a.andThen b).raised = none ↔ a.raised = none ∧ b.raised = none := by
  unfold Emitted.andThen
  cases ha : a.raised with
  | none => exact ⟨fun h => ⟨rfl, h⟩, fun h => h.2⟩
  | some e =>
    rw [ha]
    exact ⟨nofun, fun h => nomatch h.1⟩

omit [Runtime] in
theorem Emitted.joined_raised (before : List Char) (e : Emitted) :
    (e.joined before).raised = none ↔ e.raised = none := by
  unfold Emitted.joined
  cases he : e.raised with
  | none => exact ⟨fun _ => rfl, fun _ => rfl⟩
  | some exc => rw [he]

omit [Runtime] in
theorem Emitted.guarded_raised (raised : Option PyExc) (e : Emitted) :
    (Emitted.guarded raised e).raised = none ↔ raised = none ∧ e.raised = none := by
  cases raised with
  | none => exact ⟨fun h => ⟨rfl, h⟩, fun h => h.2⟩
  | some exc => exact ⟨nofun, fun h => nomatch h.1⟩

mutual

theorem encode_raised (indent : Nat) : ∀ v : Value,
    (encode fault indent v).raised = none ↔ Faultless fault indent v
  | .none | .bool _ | .int _ | .float _ | .str _ | .other _ _ =>
    (Emitted.guarded_raised _ _).trans (and_iff_left rfl)
  | .list xs => by
    rw [encode, Emitted.guarded_raised, Faultless]
    apply and_congr_right
    intro _
    cases xs with
    | nil => exact ⟨fun _ => trivial, fun _ => rfl⟩
    | cons v vs =>
      rw [if_neg (by simp), Emitted.andThen_raised, encodeItems_raised]
      exact and_iff_left rfl
  | .tuple xs => by
    rw [encode, Emitted.guarded_raised, Faultless]
    apply and_congr_right
    intro _
    cases xs with
    | nil => exact ⟨fun _ => trivial, fun _ => rfl⟩
    | cons v vs =>
      rw [if_neg (by simp), Emitted.andThen_raised, encodeItems_raised]
      exact and_iff_left rfl
  | .dict kvs => by
    rw [encode, Emitted.guarded_raised, Faultless]
    apply and_congr_right
    intro _
    cases kvs with
    | nil => exact ⟨fun _ => trivial, fun _ => rfl⟩
    | cons p kvs =>
      rw [if_neg (by simp), Emitted.andThen_raised, encodePairs_raised]
      exact and_iff_left rfl
  | .keyed kinds kvs => by
    rw [encode, Emitted.guarded_raised, Faultless]
    apply and_congr_right
    intro _
    cases kvs with
    | nil => exact ⟨fun _ => trivial, fun _ => rfl⟩
    | cons p kvs =>
      rw [if_neg (by simp), Emitted.andThen_raised, Emitted.andThen_raised, encodePairs_raised]
      exact (and_iff_left rfl).trans (and_iff_right rfl)

theorem encodeItems_raised (indent : Nat) (before : List Char) : ∀ vs : List Value,
    (encodeItems fault indent before vs).raised = none ↔ FaultlessAll fault indent vs
  | [] => ⟨fun _ => trivial, fun _ => rfl⟩
  | v :: vs => by
    rw [encodeItems, Emitted.andThen_raised, encodeItems_raised, FaultlessAll]
    apply and_congr_left
    intro _
    by_cases hatom : isAtom v = true
    · rw [if_pos hatom, Emitted.joined_raised, encode_raised]
    · rw [if_neg hatom, Emitted.andThen_raised, encode_raised]
      exact and_iff_right rfl

theorem encodePairs_raised (indent : Nat) (before : List Char) :
    ∀ (kvs : List (String × Value)) (kinds : List KeyKind),
      (encodePairs fault indent before kvs kinds).raised = none ↔
        FaultlessPairs fault indent kvs kinds
  | [], _ => ⟨fun _ => trivial, fun _ => rfl⟩
  | (k, v) :: kvs, kinds => by
    rw [encodePairs, Emitted.guarded_raised, Emitted.andThen_raised, Emitted.andThen_raised,
      encode_raised, encodePairs_raised, FaultlessPairs]
    apply and_congr_right
    intro _
    apply and_congr_left
    intro _
    exact and_iff_right rfl

end

/-- What `json.dumps` raises on a value without a `default` to fall back on. -/
def strictFault (_ : Nat) : Value → Option PyExc
  | .other _ _ => some (.typeError "Object of type object is not JSON serializable")
  | _ => none

/-- `json.dumps(v, indent=2)` -/
def dumps (v : Value) : Except PyExc (List Char) :=
  match (encode strictFault 0 v).raised with
  | some e => .error e
  | none => .ok (encode strictFault 0 v).text

theorem dumps_of_faultless {v : Value} (h : Faultless strictFault 0 v) : dumps v = .ok (text 0 v) := by
  have hnone := (encode_raised strictFault 0 v).mpr h
  rw [dumps, hnone, (encode_of strictFault 0 v).whole hnone]

theorem dumps_raises {v : Value} (h : ¬Faultless strictFault 0 v) : ∃ e, dumps v = .error e := by
  unfold dumps
  cases hraised : (encode strictFault 0 v).raised with
  | none => exact absurd ((encode_raised strictFault 0 v).mp hraised) h
  | some e => exact ⟨e, rfl⟩

end Texts

end Json
end Py
