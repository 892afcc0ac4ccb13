/-
Runs of a process that can be killed and started again from stable storage.

A system is given by its fresh states, by what one step may do and by the states
a restart may build from a stored document.  A step may write one document; a
kill loses the state and keeps the documents, and the next process starts from
the newest.  A kill in the middle of a step is a kill before or after its write,
so runs need steps and restarts only.

`Run S h docs s` says that the history `h`, oldest event first, is a history of
the system, that it wrote `docs`, newest first, and that it has come to the
state `s`, or has stopped where `s` is `none`.
-/
import Mathlib.Data.List.Basic
import Mathlib.Data.List.Pairwise

namespace Recovery

universe u v w

structure System (σ : Type u) (δ : Type v) (ε : Type w) where
  fresh : σ → Prop
  step : σ → ε → Option δ → Option σ → Prop
  restart : δ → ε → σ → Prop

variable {σ : Type u} {δ : Type v} {ε : Type w}

inductive Run (S : System σ δ ε) : List ε → List δ → Option σ → Prop
  | fresh {s : σ} (h : S.fresh s) : Run S [] [] (some s)
  | step {h : List ε} {docs : List δ} {s : σ} {e : ε} {d : Option δ} {s' : Option σ}
      (run : Run S h docs (some s)) (hs : S.step s e d s') : Run S (h ++ [e]) (d.toList ++ docs) s'
  | restart {h : List ε} {docs : List δ} {s : Option σ} {d : δ} {e : ε} {s' : σ}
      (run : Run S h (d :: docs) s) (hr : S.restart d e s') : Run S (h ++ [e]) (d :: docs) (some s')

/-- Every event of a history happened in the run the history before it tells. -/
theorem Run.split {S : System σ δ ε} {h₁ h₂ : List ε} {e : ε} {docs : List δ} {o : Option σ}
    (run : Run S (h₁ ++ e :: h₂) docs o) :
    (∃ docs' s d s', Run S h₁ docs' (some s) ∧ S.step s e d s') ∨
      ∃ docs' d o' s', Run S h₁ (d :: docs') o' ∧ S.restart d e s' := by
  generalize hh : h₁ ++ e :: h₂ = h at run
  induction run generalizing h₂ with
  | fresh hf => exact absurd hh (by simp)
  | @step h docs s e' d s' run hs ih =>
    rcases List.eq_nil_or_concat h₂ with rfl | ⟨front, last, rfl⟩
    · obtain ⟨rfl, heq⟩ := List.append_inj' hh rfl
      cases heq
      exact .inl ⟨docs, s, d, s', run, hs⟩
    · have hsplit : (h₁ ++ e :: front) ++ [last] = h ++ [e'] := by
        rw [← hh]
        simp
      exact ih (List.append_inj' hsplit rfl).1
  | @restart h docs s d e' s' run hr ih =>
    rcases List.eq_nil_or_concat h₂ with rfl | ⟨front, last, rfl⟩
    · obtain ⟨rfl, heq⟩ := List.append_inj' hh rfl
      cases heq
      exact .inr ⟨docs, d, s, s', run, hr⟩
    · have hsplit : (h₁ ++ e :: front) ++ [last] = h ++ [e'] := by
        rw [← hh]
        simp
      exact ih (List.append_inj' hsplit rfl).1

/-- Every event of a history happened in a run that had come that far. -/
theorem Run.mem {S : System σ δ ε} {h : List ε} {docs : List δ} {o : Option σ}
    (run : Run S h docs o) {e : ε} (he : e ∈ h) :
    (∃ h' docs' s d s', Run S h' docs' (some s) ∧ S.step s e d s') ∨
      ∃ h' docs' d o' s', Run S h' (d :: docs') o' ∧ S.restart d e s' := by
  obtain ⟨h₁, h₂, rfl⟩ := List.append_of_mem he
  rcases run.split with ⟨docs', s, d, s', hrun, hs⟩ | ⟨docs', d, o', s', hrun, hr⟩
  · exact .inl ⟨h₁, docs', s, d, s', hrun, hs⟩
  · exact .inr ⟨h₁, docs', d, o', s', hrun, hr⟩

/-- What an invariant of the states, with one of the documents that carries it
over a restart, must satisfy. -/
structure Invariant (S : System σ δ ε) (I : σ → Prop) (J : δ → Prop) : Prop where
  fresh : ∀ {s}, S.fresh s → I s
  next : ∀ {s e d s'}, I s → S.step s e d (some s') → I s'
  write : ∀ {s e d s'}, I s → S.step s e (some d) s' → J d
  restart : ∀ {d e s}, J d → S.restart d e s → I s

/-- An invariant holds of the state and of every document of every run. -/
theorem Invariant.run {S : System σ δ ε} {I : σ → Prop} {J : δ → Prop} (inv : Invariant S I J)
    {h : List ε} {docs : List δ} {o : Option σ} (run : Run S h docs o) :
    (∀ d ∈ docs, J d) ∧ ∀ s, o = some s → I s := by
  induction run with
  | fresh hf =>
    refine ⟨fun d hd => absurd hd List.not_mem_nil, fun s hs => ?_⟩
    cases hs
    exact inv.fresh hf
  | @step h docs s e d s' run hs ih =>
    obtain ⟨hdocs, hstate⟩ := ih
    have hI : I s := hstate s rfl
    refine ⟨fun d' hd' => ?_, fun s'' hs'' => ?_⟩
    · rcases List.mem_append.mp hd' with hnew | hold
      · have hd : d = some d' := Option.mem_toList.mp hnew
        subst hd
        exact inv.write hI hs
      · exact hdocs d' hold
    · subst hs''
      exact inv.next hI hs
  | @restart h docs s d e s' run hr ih =>
    refine ⟨ih.1, fun s'' hs'' => ?_⟩
    cases hs''
    exact inv.restart (ih.1 d List.mem_cons_self) hr

/-- An invariant that the good events preserve. -/
structure Guarded (S : System σ δ ε) (good : ε → Prop) (I : σ → Prop) (J : δ → Prop) : Prop where
  fresh : ∀ {s}, S.fresh s → I s
  next : ∀ {s e d s'}, I s → S.step s e d (some s') → good e → I s'
  write : ∀ {s e d s'}, I s → S.step s e (some d) s' → good e → J d
  restart : ∀ {d e s}, J d → S.restart d e s → good e → I s

theorem Guarded.run {S : System σ δ ε} {good : ε → Prop} {I : σ → Prop} {J : δ → Prop}
    (inv : Guarded S good I J) {h : List ε} {docs : List δ} {o : Option σ} (run : Run S h docs o)
    (hgood : ∀ e ∈ h, good e) : (∀ d ∈ docs, J d) ∧ ∀ s, o = some s → I s := by
  induction run with
  | fresh hf =>
    refine ⟨fun d hd => absurd hd List.not_mem_nil, fun s hs => ?_⟩
    cases hs
    exact inv.fresh hf
  | @step h docs s e d s' run hs ih =>
    have hold : ∀ e' ∈ h, good e' := fun e' he' => hgood e' (List.mem_append_left _ he')
    have he : good e := hgood e (List.mem_append_right _ List.mem_cons_self)
    obtain ⟨hdocs, hstate⟩ := ih hold
    refine ⟨fun d' hd' => ?_, fun s'' hs'' => ?_⟩
    · rcases List.mem_append.mp hd' with hnew | hmem
      · have hd : d = some d' := Option.mem_toList.mp hnew
        subst hd
        exact inv.write (hstate s rfl) hs he
      · exact hdocs d' hmem
    · subst hs''
      exact inv.next (hstate s rfl) hs he
  | @restart h docs s d e s' run hr ih =>
    have hold : ∀ e' ∈ h, good e' := fun e' he' => hgood e' (List.mem_append_left _ he')
    have he : good e := hgood e (List.mem_append_right _ List.mem_cons_self)
    obtain ⟨hdocs, -⟩ := ih hold
    refine ⟨hdocs, fun s'' hs'' => ?_⟩
    cases hs''
    exact inv.restart (hdocs d List.mem_cons_self) hr he

/-- Where two conditions on an event agree as long as all went well, all events
meet the one exactly when all meet the other. -/
theorem Guarded.forall_iff {S : System σ δ ε} {good good' : ε → Prop} {I : σ → Prop} {J : δ → Prop}
    (inv : Guarded S good I J)
    (hstep : ∀ {s e d s'}, I s → S.step s e d s' → (good e ↔ good' e))
    (hrestart : ∀ {d e s}, J d → S.restart d e s → (good e ↔ good' e))
    {h : List ε} {docs : List δ} {o : Option σ} (run : Run S h docs o) :
    (∀ e ∈ h, good e) ↔ ∀ e ∈ h, good' e := by
  have hconcat : ∀ {P : ε → Prop} {h : List ε} {e : ε},
      (∀ e' ∈ h ++ [e], P e') ↔ (∀ e' ∈ h, P e') ∧ P e := by
    intro P h e
    simp only [List.mem_append, List.mem_singleton, or_imp, forall_and, forall_eq]
  induction run with
  | fresh hf => exact ⟨fun _ e he => absurd he List.not_mem_nil,
      fun _ e he => absurd he List.not_mem_nil⟩
  | @step h docs s e d s' run hs ih =>
    have hlast : (∀ e' ∈ h, good e') → (good e ↔ good' e) := fun hold =>
      hstep ((inv.run run hold).2 s rfl) hs
    rw [hconcat, hconcat]
    exact ⟨fun hall => ⟨ih.mp hall.1, (hlast hall.1).mp hall.2⟩,
      fun hall => ⟨ih.mpr hall.1, (hlast (ih.mpr hall.1)).mpr hall.2⟩⟩
  | @restart h docs s d e s' run hr ih =>
    have hlast : (∀ e' ∈ h, good e') → (good e ↔ good' e) := fun hold =>
      hrestart ((inv.run run hold).1 d List.mem_cons_self) hr
    rw [hconcat, hconcat]
    exact ⟨fun hall => ⟨ih.mp hall.1, (hlast hall.1).mp hall.2⟩,
      fun hall => ⟨ih.mpr hall.1, (hlast (ih.mpr hall.1)).mpr hall.2⟩⟩

/-- An invariant that relates the state, and the newest document, to the history
so far.  `J` has to survive the steps that write nothing. -/
structure Traced (S : System σ δ ε) (I : List ε → σ → Prop) (J : List ε → δ → Prop) : Prop where
  fresh : ∀ {s}, S.fresh s → I [] s
  next : ∀ {h s e d s'}, I h s → S.step s e d (some s') → I (h ++ [e]) s'
  write : ∀ {h s e d s'}, I h s → S.step s e (some d) s' → J (h ++ [e]) d
  keep : ∀ {h s e s' d}, I h s → S.step s e none s' → J h d → J (h ++ [e]) d
  restart : ∀ {h d e s}, J h d → S.restart d e s → I (h ++ [e]) s ∧ J (h ++ [e]) d

theorem Traced.run {S : System σ δ ε} {I : List ε → σ → Prop} {J : List ε → δ → Prop}
    (inv : Traced S I J) {h : List ε} {docs : List δ} {o : Option σ} (run : Run S h docs o) :
    (∀ d, docs.head? = some d → J h d) ∧ ∀ s, o = some s → I h s := by
  induction run with
  | fresh hf =>
    refine ⟨fun d hd => by simp at hd, fun s hs => ?_⟩
    cases hs
    exact inv.fresh hf
  | @step h docs s e d s' run hs ih =>
    have hI : I h s := ih.2 s rfl
    refine ⟨fun d' hd' => ?_, fun s'' hs'' => ?_⟩
    · cases d with
      | none => exact inv.keep hI hs (ih.1 d' (by simpa using hd'))
      | some d =>
        have hd : d = d' := by simpa using hd'
        subst hd
        exact inv.write hI hs
    · subst hs''
      exact inv.next hI hs
  | @restart h docs s d e s' run hr ih =>
    have hJ := inv.restart (ih.1 d rfl) hr
    refine ⟨fun d' hd' => ?_, fun s'' hs'' => ?_⟩
    · have hd : d = d' := by simpa using hd'
      exact hd ▸ hJ.2
    · cases hs''
      exact hJ.1

/-- A rank of states and documents that every write climbs in the transitive
relation `R` and nothing else lowers.  A restart takes the rank of its document,
so the documents of a run climb however often the run is killed. -/
structure Climbs (S : System σ δ ε) (I : σ → Prop) (J : δ → Prop) {ρ : Type*}
    (R : ρ → ρ → Prop) (rank : σ → ρ) (docRank : δ → ρ) : Prop where
  trans : ∀ {a b c}, R a b → R b c → R a c
  write : ∀ {s e d s'}, I s → S.step s e (some d) s' → R (rank s) (docRank d)
  next : ∀ {s e s'}, I s → S.step s e none (some s') → rank s = rank s' ∨ R (rank s) (rank s')
  nextWrite : ∀ {s e d s'}, I s → S.step s e (some d) (some s') → docRank d = rank s'
  restart : ∀ {d e s}, J d → S.restart d e s → docRank d = rank s

theorem Climbs.run {S : System σ δ ε} {I : σ → Prop} {J : δ → Prop} {ρ : Type*} {R : ρ → ρ → Prop}
    {rank : σ → ρ} {docRank : δ → ρ} (c : Climbs S I J R rank docRank) (inv : Invariant S I J)
    {h : List ε} {docs : List δ} {o : Option σ} (run : Run S h docs o) :
    docs.Pairwise (fun new old => R (docRank old) (docRank new)) ∧
      ∀ s, o = some s → ∀ d ∈ docs, docRank d = rank s ∨ R (docRank d) (rank s) := by
  induction run with
  | fresh hf => exact ⟨List.Pairwise.nil, fun s _ d hd => absurd hd List.not_mem_nil⟩
  | @step h docs s e d s' run hs ih =>
    have hI : I s := (inv.run run).2 s rfl
    obtain ⟨hpair, hle⟩ := ih
    have hold : ∀ d' ∈ docs, docRank d' = rank s ∨ R (docRank d') (rank s) := hle s rfl
    cases d with
    | none =>
      refine ⟨hpair, fun s'' hs'' d' hd' => ?_⟩
      subst hs''
      have hnext := c.next hI hs
      rcases hold d' hd' with heq | hlt
      · rw [heq]
        exact hnext
      · rcases hnext with heq' | hlt'
        · exact .inr (heq' ▸ hlt)
        · exact .inr (c.trans hlt hlt')
    | some d =>
      have hwrite : R (rank s) (docRank d) := c.write hI hs
      have hnew : ∀ d' ∈ docs, R (docRank d') (docRank d) := by
        intro d' hd'
        rcases hold d' hd' with heq | hlt
        · rw [heq]
          exact hwrite
        · exact c.trans hlt hwrite
      refine ⟨List.pairwise_cons.mpr ⟨hnew, hpair⟩, fun s'' hs'' d' hd' => ?_⟩
      subst hs''
      have hd : docRank d = rank s'' := c.nextWrite hI hs
      rcases List.mem_cons.mp hd' with rfl | hrest
      · exact .inl hd
      · exact .inr (hd ▸ hnew d' hrest)
  | @restart h docs s d e s' run hr ih =>
    have hJ : J d := (inv.run run).1 d List.mem_cons_self
    refine ⟨ih.1, fun s'' hs'' d' hd' => ?_⟩
    cases hs''
    have hd : docRank d = rank s' := c.restart hJ hr
    rcases List.mem_cons.mp hd' with rfl | hrest
    · exact .inl hd
    · exact .inr (hd ▸ (List.pairwise_cons.mp ih.1).1 d' hrest)

end Recovery
