import DotRunner.Py.JsonScan

/-!
# Where a value ends

What is left after a value is the end of the text, and in front of it, after an
object, stands the object's brace.
-/

namespace Py
namespace Json

variable {l r : List Char}

theorem skipBlank_suffix (l : List Char) : skipBlank l <:+ l := List.dropWhile_suffix _

theorem dropPrefix?_suffix {pat : List Char} (h : Text.dropPrefix? pat l = some r) : r <:+ l := by
  rw [Text.dropPrefix?_eq_some_iff.mp h]
  exact List.suffix_append pat r

theorem scanHex4_suffix {n : Nat} (h : scanHex4 l = some (n, r)) : r <:+ l := by
  rw [scanHex4.eq_def] at h
  split at h
  · simp only [bind, pure, Option.bind_eq_some_iff, Option.some.injEq, Prod.mk.injEq] at h
    obtain ⟨_, _, _, _, _, _, _, _, _, hr⟩ := h
    rw [← hr]
    exact List.suffix_append [_, _, _, _] _
  · cases h

theorem scanEscape_suffix {c : Char} (h : scanEscape l = some (c, r)) : r <:+ l := by
  rw [scanEscape.eq_def] at h
  split at h
  · cases h
  · rename_i l'
    simp only [bind, pure, Option.bind_eq_some_iff, Prod.exists] at h
    obtain ⟨n, r₁, hhex, h⟩ := h
    have h₁ : r₁ <:+ 'u' :: l' := (scanHex4_suffix hhex).trans (List.suffix_cons 'u' l')
    split at h
    · simp only [Option.bind_eq_some_iff, Prod.exists] at h
      obtain ⟨r₂, hdrop, m, r₃, hhex', h⟩ := h
      split at h
      · have hr : r₃ = r := congrArg Prod.snd (Option.some.inj h)
        rw [← hr]
        exact ((scanHex4_suffix hhex').trans (dropPrefix?_suffix hdrop)).trans h₁
      · cases h
    · split at h
      · cases h
      · cases h
        exact h₁
  · obtain ⟨e, -, heq⟩ := Option.map_eq_some_iff.mp h
    cases heq
    exact List.suffix_cons _ _

theorem scanString_suffix {f : Nat} {s : List Char} (h : scanString f l = some (s, r)) :
    r <:+ l := by
  induction f generalizing l s with
  | zero => cases h
  | succ f ih =>
    cases l with
    | nil => cases h
    | cons c l =>
      rw [scanString] at h
      split at h
      · cases h
        exact List.suffix_cons c r
      · split at h
        · simp only [bind, pure, Option.bind_eq_some_iff, Prod.exists] at h
          obtain ⟨e, r₁, hescape, s', r₂, hrest, h⟩ := h
          cases h
          exact ((ih hrest).trans (scanEscape_suffix hescape)).trans (List.suffix_cons c l)
        · split at h
          · cases h
          · simp only [bind, pure, Option.bind_eq_some_iff, Prod.exists] at h
            obtain ⟨s', r₁, hrest, h⟩ := h
            cases h
            exact (ih hrest).trans (List.suffix_cons c l)

/-- What follows the character after the blanks. -/
theorem tail_skipBlank {c : Char} (h : (skipBlank l).head? = some c) :
    c :: (skipBlank l).tail <:+ l := by
  have hcons : c :: (skipBlank l).tail = skipBlank l := List.cons_head?_tail h
  rw [hcons]
  exact skipBlank_suffix l

theorem scanWord_suffix {word : String} {v w : Value} (h : scanWord word v l = some (w, r)) :
    r <:+ l := by
  obtain ⟨r', hdrop, heq⟩ := Option.map_eq_some_iff.mp h
  cases heq
  exact dropPrefix?_suffix hdrop

variable [Runtime]

theorem scanNumber_suffix {v : Value} (h : scanNumber l = some (v, r)) : r <:+ l := by
  obtain ⟨v', -, heq⟩ := Option.map_eq_some_iff.mp h
  cases heq
  exact List.dropWhile_suffix _

/-- What the scanners leave of a text. -/
structure Consumes (f : Nat) : Prop where
  once : ∀ {l r v}, scanOnce f l = some (v, r) → r <:+ l
  items : ∀ {l r vs}, scanItems f l = some (vs, r) → r <:+ l
  pairs : ∀ {l r kvs}, scanPairs f l = some (kvs, r) → '\x7d' :: r <:+ l

theorem Consumes.succ_items {f : Nat} (h : Consumes f) {vs : List Value}
    (hl : scanItems (f + 1) l = some (vs, r)) : r <:+ l := by
  rw [scanItems] at hl
  simp only [bind, pure, Option.bind_eq_some_iff, Prod.exists] at hl
  obtain ⟨v, r₁, honce, hl⟩ := hl
  have h₁ : r₁ <:+ l := h.once honce
  split at hl
  · rename_i hclose
    cases hl
    exact ((List.suffix_cons _ _).trans (tail_skipBlank hclose)).trans h₁
  · split at hl
    · rename_i hcomma
      simp only [Option.bind_eq_some_iff, Prod.exists] at hl
      obtain ⟨vs', r₂, hitems, hl⟩ := hl
      cases hl
      have hnext : r <:+ (skipBlank r₁).tail := (h.items hitems).trans (skipBlank_suffix _)
      exact ((hnext.trans (List.suffix_cons _ _)).trans (tail_skipBlank hcomma)).trans h₁
    · cases hl

theorem Consumes.succ_pairs {f : Nat} (h : Consumes f) {kvs : List (String × Value)}
    (hl : scanPairs (f + 1) l = some (kvs, r)) : '\x7d' :: r <:+ l := by
  rw [scanPairs] at hl
  simp only [bind, pure, Option.bind_eq_some_iff, Prod.exists] at hl
  obtain ⟨l₁, hquote, k, l₂, hkey, l₃, hcolon, v, l₄, honce, hl⟩ := hl
  have h₁ : l₄ <:+ l :=
    ((((h.once honce).trans (skipBlank_suffix l₃)).trans (dropPrefix?_suffix hcolon)).trans
      (skipBlank_suffix l₂)).trans ((scanString_suffix hkey).trans (dropPrefix?_suffix hquote))
  split at hl
  · rename_i hclose
    cases hl
    exact (tail_skipBlank hclose).trans h₁
  · split at hl
    · rename_i hcomma
      simp only [Option.bind_eq_some_iff, Prod.exists] at hl
      obtain ⟨kvs', r₂, hpairs, hl⟩ := hl
      cases hl
      have hnext : '\x7d' :: r <:+ (skipBlank l₄).tail :=
        (h.pairs hpairs).trans (skipBlank_suffix _)
      exact ((hnext.trans (List.suffix_cons _ _)).trans (tail_skipBlank hcomma)).trans h₁
    · cases hl

/-- After an object stands what follows its brace. -/
theorem Consumes.object {f : Nat} (h : Consumes f) {v : Value}
    (hl : (if (skipBlank l).head? = some '\x7d' then some (.dict [], (skipBlank l).tail)
      else (scanPairs f (skipBlank l)).map fun p => (.dict (Dict.ofList p.1).entries, p.2)) =
        some (v, r)) : '\x7d' :: r <:+ l := by
  split at hl
  · rename_i hclose
    cases hl
    exact tail_skipBlank hclose
  · obtain ⟨⟨kvs, l₁⟩, hpairs, heq⟩ := Option.map_eq_some_iff.mp hl
    cases heq
    exact (h.pairs hpairs).trans (skipBlank_suffix l)

theorem Consumes.succ_once {f : Nat} (h : Consumes f) {v : Value}
    (hl : scanOnce (f + 1) l = some (v, r)) : r <:+ l := by
  cases l with
  | nil => cases hl
  | cons c l =>
    rw [scanOnce] at hl
    by_cases hquote : c = '"'
    · rw [if_pos hquote] at hl
      obtain ⟨⟨s, r'⟩, hstring, heq⟩ := Option.map_eq_some_iff.mp hl
      cases heq
      exact (scanString_suffix hstring).trans (List.suffix_cons c l)
    · rw [if_neg hquote] at hl
      by_cases harray : c = '['
      · rw [if_pos harray] at hl
        split at hl
        · rename_i hclose
          cases hl
          exact ((List.suffix_cons _ _).trans (tail_skipBlank hclose)).trans (List.suffix_cons c l)
        · obtain ⟨⟨vs, r'⟩, hitems, heq⟩ := Option.map_eq_some_iff.mp hl
          cases heq
          exact ((h.items hitems).trans (skipBlank_suffix l)).trans (List.suffix_cons c l)
      · rw [if_neg harray] at hl
        by_cases hobject : c = '\x7b'
        · rw [if_pos hobject] at hl
          exact ((List.suffix_cons _ _).trans (h.object hl)).trans (List.suffix_cons c l)
        · rw [if_neg hobject] at hl
          -- a word or a number
          repeat' split at hl
          all_goals first
            | exact scanWord_suffix hl
            | exact scanNumber_suffix hl

theorem consumes (f : Nat) : Consumes f := by
  induction f with
  | zero => exact ⟨fun h => (nomatch h), fun h => (nomatch h), fun h => (nomatch h)⟩
  | succ f ih => exact ⟨ih.succ_once, ih.succ_items, ih.succ_pairs⟩

/-- A text that `json.loads` takes for an object is one from brace to brace, and
blanks after it. -/
theorem loads_brace {v : Value} (h : loads ('\x7b' :: l) = some v) :
    ∃ p r, l = p ++ '\x7d' :: r ∧ skipBlank r = [] := by
  rw [loads] at h
  simp only [bind, pure, Option.bind_eq_some_iff, Prod.exists] at h
  obtain ⟨v', r, honce, h⟩ := h
  have hblank : skipBlank ('\x7b' :: l) = '\x7b' :: l := rfl
  rw [hblank] at honce
  split at h
  · rename_i hr
    rw [scanOnce, if_neg (by decide), if_neg (by decide), if_pos rfl] at honce
    obtain ⟨p, hp⟩ := (consumes _).object honce
    exact ⟨p, r, hp.symm, hr⟩
  · cases h

end Json
end Py
