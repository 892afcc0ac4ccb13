import Mathlib.Data.List.Basic
import Mathlib.Data.List.Induction
import Mathlib.Data.List.Nodup

/-!
# Insertion-ordered dictionaries

A `Dict` holds its entries in the order their keys were first set, as Python's
`dict` does: overwriting a key keeps its place, removing it forgets the place.
The absence of duplicate keys is a field, so a lookup never has to choose
between two entries.
-/

namespace Py

universe u v w

structure Dict (κ : Type u) (α : Type v) where
  entries : List (κ × α)
  nodup : (entries.map Prod.fst).Nodup

namespace Dict

variable {κ : Type u} {α : Type v} {β : Type w}

theorem ext {d d' : Dict κ α} (h : d.entries = d'.entries) : d = d' := by
  cases d
  cases d'
  subst h
  rfl

def empty : Dict κ α := ⟨[], List.nodup_nil⟩

instance : Inhabited (Dict κ α) := ⟨empty⟩

def keys (d : Dict κ α) : List κ := d.entries.map Prod.fst

def values (d : Dict κ α) : List α := d.entries.map Prod.snd

def size (d : Dict κ α) : Nat := d.entries.length

/-- Rewrite every value, key by key. -/
def mapVals (f : κ → α → β) (d : Dict κ α) : Dict κ β where
  entries := d.entries.map fun p => (p.1, f p.1 p.2)
  nodup := by
    rw [List.map_map]
    exact d.nodup

@[simp] theorem keys_empty : (empty : Dict κ α).keys = [] := rfl

@[simp] theorem entries_empty : (empty : Dict κ α).entries = [] := rfl

@[simp] theorem keys_mapVals (f : κ → α → β) (d : Dict κ α) :
    (d.mapVals f).keys = d.keys := by
  simp only [keys, mapVals, List.map_map]
  rfl

section Lookup

variable [DecidableEq κ]

/-- First entry under `k`; by `nodup` the only one. -/
def lookup (k : κ) : List (κ × α) → Option α
  | [] => none
  | (k', a) :: rest => if k' = k then some a else lookup k rest

def get? (d : Dict κ α) (k : κ) : Option α := lookup k d.entries

def contains (d : Dict κ α) (k : κ) : Bool := (d.get? k).isSome

def getD (d : Dict κ α) (k : κ) (fallback : α) : α := (d.get? k).getD fallback

/-- Overwrite in place, or append when the key is new. -/
def insertEntry (k : κ) (a : α) : List (κ × α) → List (κ × α)
  | [] => [(k, a)]
  | (k', b) :: rest => if k' = k then (k', a) :: rest else (k', b) :: insertEntry k a rest

theorem mem_keys_insertEntry (k : κ) (a : α) (l : List (κ × α)) (x : κ) :
    x ∈ (insertEntry k a l).map Prod.fst ↔ x = k ∨ x ∈ l.map Prod.fst := by
  induction l with
  | nil => simp [insertEntry]
  | cons p rest ih =>
    obtain ⟨k', b⟩ := p
    by_cases h : k' = k
    · simp [insertEntry, h]
    · simp only [insertEntry, h, if_false, List.map_cons, List.mem_cons, ih]
      tauto

theorem nodup_insertEntry (k : κ) (a : α) (l : List (κ × α))
    (h : (l.map Prod.fst).Nodup) : ((insertEntry k a l).map Prod.fst).Nodup := by
  induction l with
  | nil => simp [insertEntry]
  | cons p rest ih =>
    obtain ⟨k', b⟩ := p
    rw [List.map_cons, List.nodup_cons] at h
    by_cases hk : k' = k
    · rw [insertEntry, if_pos hk, List.map_cons, List.nodup_cons]
      exact h
    · simp only [insertEntry, hk, if_false, List.map_cons, List.nodup_cons]
      refine ⟨fun hm => ?_, ih h.2⟩
      rcases (mem_keys_insertEntry k a rest k').mp hm with he | hr
      · exact hk he
      · exact h.1 hr

def set (d : Dict κ α) (k : κ) (a : α) : Dict κ α :=
  ⟨insertEntry k a d.entries, nodup_insertEntry k a d.entries d.nodup⟩

/-- `dict.pop(key, None)`: forget the key. -/
def erase (d : Dict κ α) (k : κ) : Dict κ α where
  entries := d.entries.filter fun p => !(p.1 == k)
  nodup := (d.nodup.sublist (List.filter_sublist.map Prod.fst))

/-- Set the listed entries one after the other. -/
def setAll (d : Dict κ α) (l : List (κ × α)) : Dict κ α :=
  l.foldl (fun acc p => acc.set p.1 p.2) d

/-- `dict.update`. -/
def update (d e : Dict κ α) : Dict κ α := d.setAll e.entries

/-- `dict(pairs)`: a later pair wins. -/
def ofList (l : List (κ × α)) : Dict κ α := empty.setAll l

@[simp] theorem get?_empty (k : κ) : (empty : Dict κ α).get? k = none := rfl

theorem lookup_insertEntry (k : κ) (a : α) (l : List (κ × α)) (x : κ) :
    lookup x (insertEntry k a l) = if k = x then some a else lookup x l := by
  induction l with
  | nil => simp [insertEntry, lookup]
  | cons p rest ih =>
    obtain ⟨k', b⟩ := p
    by_cases hk : k' = k
    · subst hk
      by_cases hx : k' = x <;> simp [insertEntry, lookup, hx]
    · by_cases hx : k = x
      · subst hx
        simp [insertEntry, hk, lookup, ih]
      · rw [insertEntry, if_neg hk, lookup, lookup, ih]
        simp [hx]

@[simp] theorem get?_set (d : Dict κ α) (k : κ) (a : α) (x : κ) :
    (d.set k a).get? x = if k = x then some a else d.get? x :=
  lookup_insertEntry k a d.entries x

theorem get?_set_self (d : Dict κ α) (k : κ) (a : α) : (d.set k a).get? k = some a := by
  simp

theorem get?_set_of_ne (d : Dict κ α) {k x : κ} (a : α) (h : k ≠ x) :
    (d.set k a).get? x = d.get? x := by
  simp [h]

theorem insertEntry_of_lookup {k : κ} {a : α} {l : List (κ × α)} (h : lookup k l = some a) :
    insertEntry k a l = l := by
  induction l with
  | nil => cases h
  | cons p rest ih =>
    obtain ⟨k', b⟩ := p
    rw [lookup] at h
    rw [insertEntry]
    by_cases hk : k' = k
    · rw [if_pos hk] at h
      rw [if_pos hk, Option.some.inj h]
    · rw [if_neg hk] at h
      rw [if_neg hk, ih h]

/-- Setting a key to the value it has changes nothing. -/
theorem set_of_get? {d : Dict κ α} {k : κ} {a : α} (h : d.get? k = some a) : d.set k a = d :=
  ext (insertEntry_of_lookup h)

@[simp] theorem mem_keys_set (d : Dict κ α) (k : κ) (a : α) (x : κ) :
    x ∈ (d.set k a).keys ↔ x = k ∨ x ∈ d.keys :=
  mem_keys_insertEntry k a d.entries x

theorem lookup_eq_some_iff {l : List (κ × α)} (h : (l.map Prod.fst).Nodup) {k : κ} {a : α} :
    lookup k l = some a ↔ (k, a) ∈ l := by
  induction l with
  | nil => simp [lookup]
  | cons p rest ih =>
    obtain ⟨k', b⟩ := p
    rw [List.map_cons, List.nodup_cons] at h
    by_cases hk : k' = k
    · subst hk
      have hrest : (k', a) ∉ rest := fun hm => h.1 (List.mem_map.mpr ⟨_, hm, rfl⟩)
      simp [lookup, hrest, eq_comm]
    · simp [lookup, hk, ih h.2, Ne.symm hk]

/-- A lookup finds exactly the entries. -/
theorem get?_eq_some_iff (d : Dict κ α) {k : κ} {a : α} :
    d.get? k = some a ↔ (k, a) ∈ d.entries :=
  lookup_eq_some_iff d.nodup

theorem lookup_isSome_iff {l : List (κ × α)} {k : κ} :
    (lookup k l).isSome ↔ k ∈ l.map Prod.fst := by
  induction l with
  | nil => simp [lookup]
  | cons p rest ih =>
    obtain ⟨k', b⟩ := p
    by_cases hk : k' = k
    · simp [lookup, hk]
    · rw [lookup, if_neg hk, ih, List.map_cons, List.mem_cons]
      simp [Ne.symm hk]

theorem contains_iff (d : Dict κ α) {k : κ} : d.contains k = true ↔ k ∈ d.keys :=
  lookup_isSome_iff

theorem get?_eq_none_iff (d : Dict κ α) {k : κ} : d.get? k = none ↔ k ∉ d.keys := by
  rw [← contains_iff, contains]
  cases d.get? k <;> simp

theorem exists_get?_of_mem_keys (d : Dict κ α) {k : κ} (h : k ∈ d.keys) :
    ∃ a, d.get? k = some a := by
  rw [← contains_iff, contains] at h
  exact Option.isSome_iff_exists.mp h

theorem mem_keys_of_get? (d : Dict κ α) {k : κ} {a : α} (h : d.get? k = some a) :
    k ∈ d.keys := by
  rw [← contains_iff, contains, h]
  rfl

@[simp] theorem get?_mapVals (f : κ → α → β) (d : Dict κ α) (k : κ) :
    (d.mapVals f).get? k = (d.get? k).map (f k) := by
  obtain ⟨l, hl⟩ := d
  simp only [get?, mapVals]
  clear hl
  induction l with
  | nil => rfl
  | cons p rest ih =>
    obtain ⟨k', b⟩ := p
    by_cases hk : k' = k
    · subst hk
      simp [lookup]
    · simp only [List.map_cons, lookup, hk, if_false, ih]

theorem lookup_filter_ne (k x : κ) (l : List (κ × α)) :
    lookup x (l.filter fun p => !(p.1 == k)) = if k = x then none else lookup x l := by
  induction l with
  | nil => simp [lookup]
  | cons p rest ih =>
    obtain ⟨k', b⟩ := p
    by_cases hk : k' = k
    · subst hk
      rw [List.filter_cons_of_neg (by simp), ih]
      by_cases hx : k' = x <;> simp [lookup, hx]
    · rw [List.filter_cons_of_pos (by simpa using hk), lookup, ih, lookup]
      by_cases hkx : k' = x
      · subst hkx
        simp [Ne.symm hk]
      · simp [hkx]

@[simp] theorem get?_erase (d : Dict κ α) (k x : κ) :
    (d.erase k).get? x = if k = x then none else d.get? x :=
  lookup_filter_ne k x d.entries

theorem forall_mem_insertEntry {P : κ × α → Prop} {k : κ} {a : α} {l : List (κ × α)}
    (hp : P (k, a)) (hl : ∀ p ∈ l, P p) : ∀ p ∈ insertEntry k a l, P p := by
  induction l with
  | nil =>
    intro p hmem
    rw [insertEntry, List.mem_singleton] at hmem
    exact hmem ▸ hp
  | cons q rest ih =>
    obtain ⟨k', b⟩ := q
    intro p hmem
    by_cases hk : k' = k
    · subst hk
      rw [insertEntry, if_pos rfl] at hmem
      rcases List.mem_cons.mp hmem with rfl | hr
      · exact hp
      · exact hl p (List.mem_cons_of_mem _ hr)
    · rw [insertEntry, if_neg hk] at hmem
      rcases List.mem_cons.mp hmem with rfl | hr
      · exact hl _ List.mem_cons_self
      · exact ih (fun q hq => hl q (List.mem_cons_of_mem _ hq)) p hr

/-- What holds of the old entries and of the new ones holds of all. -/
theorem forall_mem_setAll {P : κ × α → Prop} {d : Dict κ α} {l : List (κ × α)}
    (hd : ∀ p ∈ d.entries, P p) (hl : ∀ p ∈ l, P p) : ∀ p ∈ (d.setAll l).entries, P p := by
  induction l generalizing d with
  | nil => exact hd
  | cons q rest ih =>
    have hq : ∀ p ∈ (d.set q.1 q.2).entries, P p :=
      forall_mem_insertEntry (hl q List.mem_cons_self) hd
    exact ih hq fun p hp => hl p (List.mem_cons_of_mem _ hp)

theorem insertEntry_of_not_mem {k : κ} {l : List (κ × α)} (a : α)
    (h : k ∉ l.map Prod.fst) : insertEntry k a l = l ++ [(k, a)] := by
  induction l with
  | nil => rfl
  | cons p rest ih =>
    obtain ⟨k', b⟩ := p
    rw [List.map_cons, List.mem_cons, not_or] at h
    simp [insertEntry, Ne.symm h.1, ih h.2]

/-- Setting fresh keys in order appends them. -/
theorem entries_setAll_of_disjoint (d : Dict κ α) (l : List (κ × α))
    (hl : (l.map Prod.fst).Nodup) (hd : ∀ k ∈ l.map Prod.fst, k ∉ d.keys) :
    (d.setAll l).entries = d.entries ++ l := by
  induction l generalizing d with
  | nil => simp [setAll]
  | cons p rest ih =>
    rw [List.map_cons, List.nodup_cons] at hl
    have hp : p.1 ∉ d.keys := hd _ (by simp)
    have hset : (d.set p.1 p.2).entries = d.entries ++ [p] :=
      insertEntry_of_not_mem p.2 hp
    have hrest : ∀ k ∈ rest.map Prod.fst, k ∉ (d.set p.1 p.2).keys := by
      intro k hk hmem
      rcases (mem_keys_set d p.1 p.2 k).mp hmem with rfl | hm
      · exact hl.1 hk
      · exact hd k (by simp [hk]) hm
    have h := ih (d.set p.1 p.2) hl.2 hrest
    rw [hset] at h
    simpa [setAll] using h

/-- A list without duplicate keys is read back as it stands. -/
theorem entries_ofList {l : List (κ × α)} (h : (l.map Prod.fst).Nodup) :
    (ofList l).entries = l := by
  have hd : ∀ k ∈ l.map Prod.fst, k ∉ (empty : Dict κ α).keys := by simp
  simpa [ofList] using entries_setAll_of_disjoint empty l h hd

@[simp] theorem ofList_entries (d : Dict κ α) : ofList d.entries = d :=
  ext (entries_ofList d.nodup)

@[simp] theorem empty_update (d : Dict κ α) : empty.update d = d := ofList_entries d

theorem get?_setAll (d : Dict κ α) (l : List (κ × α)) (hl : (l.map Prod.fst).Nodup) (k : κ) :
    (d.setAll l).get? k = (lookup k l).or (d.get? k) := by
  induction l generalizing d with
  | nil => rfl
  | cons p rest ih =>
    obtain ⟨k', b⟩ := p
    rw [List.map_cons, List.nodup_cons] at hl
    have h := ih (d.set k' b) hl.2
    have hrec : (d.setAll ((k', b) :: rest)) = (d.set k' b).setAll rest := rfl
    rw [hrec, h, get?_set, lookup]
    by_cases hk : k' = k
    · subst hk
      have hnone : lookup k' rest = none := by
        have hi := lookup_isSome_iff (l := rest) (k := k')
        cases hr : lookup k' rest with
        | none => rfl
        | some a => exact absurd (hi.mp (by rw [hr]; rfl)) hl.1
      simp [hnone]
    · simp [hk]

/-- The updating dictionary wins where it has the key. -/
@[simp] theorem get?_update (d e : Dict κ α) (k : κ) :
    (d.update e).get? k = (e.get? k).or (d.get? k) :=
  get?_setAll d e.entries e.nodup k

theorem setAll_append (d : Dict κ α) (l l' : List (κ × α)) :
    d.setAll (l ++ l') = (d.setAll l).setAll l' := List.foldl_append

/-- What is set last wins, and what is not set stays. -/
theorem get?_setAll_or (d : Dict κ α) (l : List (κ × α)) (k : κ) :
    (d.setAll l).get? k = ((ofList l).get? k).or (d.get? k) := by
  induction l using List.reverseRecOn with
  | nil => rfl
  | append_singleton l p ih =>
    have hset : ∀ d : Dict κ α, d.setAll (l ++ [p]) = (d.setAll l).set p.1 p.2 := fun d =>
      setAll_append d l [p]
    rw [hset, ofList, hset, get?_set, get?_set, ih, ofList]
    by_cases hk : p.1 = k
    · simp [hk]
    · simp [hk]

/-- An entry was set, or was there before. -/
theorem mem_of_mem_setAll {d : Dict κ α} {l : List (κ × α)} {p : κ × α}
    (h : p ∈ (d.setAll l).entries) : p ∈ l ∨ p ∈ d.entries := by
  induction l generalizing d with
  | nil => exact .inr h
  | cons q l ih =>
    rcases ih (d := d.set q.1 q.2) h with hl | hd
    · exact .inl (List.mem_cons_of_mem _ hl)
    · have hset := (get?_eq_some_iff _).mpr hd
      rw [get?_set] at hset
      split at hset
      · rename_i hk
        exact .inl (List.mem_cons.mpr (.inl (Prod.ext hk.symm (Option.some.inj hset).symm)))
      · exact .inr ((get?_eq_some_iff d).mp hset)

theorem mem_of_mem_ofList {l : List (κ × α)} {p : κ × α} (h : p ∈ (ofList l).entries) : p ∈ l :=
  (mem_of_mem_setAll h).resolve_right List.not_mem_nil

theorem get?_ofList_append (l l' : List (κ × α)) (k : κ) :
    (ofList (l ++ l')).get? k = ((ofList l').get? k).or ((ofList l).get? k) := by
  rw [ofList, setAll_append, get?_setAll_or]
  rfl

theorem mem_keys_setAll (d : Dict κ α) (l : List (κ × α)) (k : κ) :
    k ∈ (d.setAll l).keys ↔ k ∈ d.keys ∨ k ∈ l.map Prod.fst := by
  induction l generalizing d with
  | nil => simp [setAll]
  | cons p l ih =>
    have hset : d.setAll (p :: l) = (d.set p.1 p.2).setAll l := rfl
    rw [hset, ih, mem_keys_set, List.map_cons, List.mem_cons]
    tauto

theorem mem_keys_update (d e : Dict κ α) (k : κ) :
    k ∈ (d.update e).keys ↔ k ∈ d.keys ∨ k ∈ e.keys := by
  rw [← contains_iff, ← contains_iff, ← contains_iff, contains, contains, contains,
    get?_update]
  cases e.get? k <;> simp

end Lookup

end Dict

end Py
