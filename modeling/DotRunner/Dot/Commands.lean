import DotRunner.Dot.Parser

/-!
# A body as a list of commands

Which statements a list of tokens holds does not depend on what they do.  The
commands are read off first and run afterwards, a subgraph as a pair of brackets
around its own.
-/

namespace DotRunner
namespace Dot

open Py

inductive Command where
  | graphAttrs (attrs : List (String × Value))
  | nodeDefaults (attrs : Record)
  | edgeDefaults (attrs : Record)
  /-- `first -> rest` -/
  | chain (first : String) (rest : List String) (attrs : Record)
  | graphAttr (key : String) (v : Value)
  /-- `key =` at the end of the tokens -/
  | truncated
  | node (id : String) (attrs : Record)
  | enter
  | leave

/-- What a subgraph comes back to. -/
structure Frame where
  savedDefaults : Record
  nodesBefore : List String

/-- The context and the subgraphs that are open, the innermost first. -/
structure Machine where
  ctx : ParseContext
  frames : List Frame := []

section Commands

variable [Runtime]

/-- The commands of a list of tokens, recognised as the parser does. -/
def commands : Nat → List String → List Command
  | 0, _ => []
  | _ + 1, [] => []
  | fuel + 1, t :: ts =>
    if t = ";" then commands fuel ts
    else if t = "subgraph" then
      match skipName ts with
      | [] => []
      | b :: body =>
        if b = "\x7b" then
          let block := takeBlock "\x7b" "\x7d" 1 body
          .enter :: (commands fuel block.1.dropLast ++ .leave :: commands fuel block.2)
        else commands fuel (b :: body)
    else if t = "graph" ∧ startsWith "[" ts then
      .graphAttrs (attrBlock ts.tail).1.entries :: commands fuel (attrBlock ts.tail).2
    else if t = "node" ∧ startsWith "[" ts then
      .nodeDefaults (attrBlock ts.tail).1 :: commands fuel (attrBlock ts.tail).2
    else if t = "edge" ∧ startsWith "[" ts then
      .edgeDefaults (attrBlock ts.tail).1 :: commands fuel (attrBlock ts.tail).2
    else if isIdentifier t then
      if startsWith "->" ts then
        let chain := takeChain ts
        let block := optionalBlock chain.2
        .chain t chain.1 block.1 :: commands fuel block.2
      else if startsWith "=" ts then
        match ts.tail with
        | [] => [.truncated]
        | raw :: rest => .graphAttr t (parseValue raw) :: commands fuel rest
      else .node t (optionalBlock ts).1 :: commands fuel (optionalBlock ts).2
    else commands fuel ts

namespace Machine

def run (m : Machine) : Command → Except PyExc Machine
  | .graphAttrs attrs => do
    let ctx ← m.ctx.setGraphAttrs attrs
    return { m with ctx := ctx }
  | .nodeDefaults attrs =>
    .ok { m with ctx := { m.ctx with nodeDefaults := m.ctx.nodeDefaults.update attrs } }
  | .edgeDefaults attrs =>
    .ok { m with ctx := { m.ctx with edgeDefaults := m.ctx.edgeDefaults.update attrs } }
  | .chain first rest attrs => do
    let ctx ← m.ctx.addChain first attrs rest
    return { m with ctx := ctx }
  | .graphAttr key v => do
    let ctx ← m.ctx.setGraphAttr key v
    return { m with ctx := ctx }
  | .truncated => .error (.indexError "list index out of range")
  | .node id attrs => .ok { m with ctx := m.ctx.applyNode id attrs }
  | .enter => .ok { m with frames := ⟨m.ctx.nodeDefaults, m.ctx.nodes.keys⟩ :: m.frames }
  | .leave => match m.frames with
    | [] => .ok m
    | f :: frames => .ok ⟨m.ctx.closeSubgraph f.savedDefaults f.nodesBefore, frames⟩

def runAll (m : Machine) : List Command → Except PyExc Machine
  | [] => .ok m
  | c :: cs => do
    let m ← m.run c
    runAll m cs

theorem runAll_append (m : Machine) (cs cs' : List Command) :
    m.runAll (cs ++ cs') = m.runAll cs >>= fun m => m.runAll cs' := by
  induction cs generalizing m with
  | nil => rfl
  | cons c cs ih =>
    rw [List.cons_append, runAll, runAll, bind_assoc]
    exact congrArg _ (funext fun m => ih m)

end Machine

section Induction

variable {fuel : Nat} (ih : ∀ ts ctx frames, (Machine.mk ctx frames).runAll (commands fuel ts) =
  (parseTokenList fuel ts ctx).map fun ctx => ⟨ctx, frames⟩)

include ih

theorem runAll_cons {c : Command} {ts : List String} {ctx : ParseContext} {frames : List Frame}
    {r : Except PyExc ParseContext}
    (h : (Machine.mk ctx frames).run c = r.map fun ctx => ⟨ctx, frames⟩) :
    (Machine.mk ctx frames).runAll (c :: commands fuel ts) =
      (r >>= fun ctx => parseTokenList fuel ts ctx).map fun ctx => ⟨ctx, frames⟩ := by
  rw [Machine.runAll, h]
  cases r with
  | error e => rfl
  | ok ctx' => exact ih ts ctx' frames

theorem runAll_subgraph (body rest : List String) (ctx : ParseContext) (frames : List Frame) :
    (Machine.mk ctx frames).runAll (.enter :: (commands fuel body ++ .leave :: commands fuel rest)) =
      (parseTokenList fuel body ctx >>= fun inner => parseTokenList fuel rest
        (inner.closeSubgraph ctx.nodeDefaults ctx.nodes.keys)).map fun ctx => ⟨ctx, frames⟩ := by
  have henter : (Machine.mk ctx frames).run .enter =
      .ok ⟨ctx, ⟨ctx.nodeDefaults, ctx.nodes.keys⟩ :: frames⟩ := rfl
  rw [Machine.runAll, henter]
  show Machine.runAll _ _ = _
  rw [Machine.runAll_append, ih]
  cases parseTokenList fuel body ctx with
  | error e => rfl
  | ok inner => exact ih rest _ frames

end Induction

/-- The parser runs the commands it recognises, and closes what it opens. -/
theorem runAll_commands (fuel : Nat) (ts : List String) (ctx : ParseContext) (frames : List Frame) :
    (Machine.mk ctx frames).runAll (commands fuel ts) =
      (parseTokenList fuel ts ctx).map fun ctx => ⟨ctx, frames⟩ := by
  induction fuel generalizing ts ctx frames with
  | zero => rfl
  | succ fuel ih =>
    cases ts with
    | nil => rfl
    | cons t ts =>
      unfold commands parseTokenList
      by_cases hsemi : t = ";"
      · rw [if_pos hsemi, if_pos hsemi]
        exact ih ts ctx frames
      rw [if_neg hsemi, if_neg hsemi]
      by_cases hsub : t = "subgraph"
      · rw [if_pos hsub, if_pos hsub]
        cases skipName ts with
        | nil => rfl
        | cons b body =>
          by_cases hb : b = "\x7b"
          · simp only [hb, if_true]
            exact runAll_subgraph ih _ _ ctx frames
          · simp only [hb, if_false]
            exact ih (b :: body) ctx frames
      rw [if_neg hsub, if_neg hsub]
      by_cases hgraph : t = "graph" ∧ startsWith "[" ts
      · rw [if_pos hgraph, if_pos hgraph]
        refine runAll_cons ih ?_
        show (_ >>= _) = Except.map _ _
        cases ctx.setGraphAttrs (attrBlock ts.tail).1.entries <;> rfl
      rw [if_neg hgraph, if_neg hgraph]
      by_cases hnode : t = "node" ∧ startsWith "[" ts
      · rw [if_pos hnode, if_pos hnode]
        exact ih _ _ frames
      rw [if_neg hnode, if_neg hnode]
      by_cases hedge : t = "edge" ∧ startsWith "[" ts
      · rw [if_pos hedge, if_pos hedge]
        exact ih _ _ frames
      rw [if_neg hedge, if_neg hedge]
      by_cases hident : isIdentifier t = true
      · rw [if_pos hident, if_pos hident]
        by_cases harrow : startsWith "->" ts = true
        · rw [if_pos harrow, if_pos harrow]
          refine runAll_cons ih ?_
          show (_ >>= _) = Except.map _ _
          cases ctx.addChain t (optionalBlock (takeChain ts).2).1 (takeChain ts).1 <;> rfl
        rw [if_neg harrow, if_neg harrow]
        by_cases hequals : startsWith "=" ts = true
        · rw [if_pos hequals, if_pos hequals]
          cases ts.tail with
          | nil => rfl
          | cons raw rest =>
            refine runAll_cons ih ?_
            show (_ >>= _) = Except.map _ _
            cases ctx.setGraphAttr t (parseValue raw) <;> rfl
        rw [if_neg hequals, if_neg hequals]
        exact ih _ _ frames
      rw [if_neg hident, if_neg hident]
      exact ih ts ctx frames

/-! ## The bound on the statements -/

omit [Runtime] in
theorem length_takeBlock (opening closing : String) (depth : Nat) (ts : List String) :
    (takeBlock opening closing depth ts).1.length +
      (takeBlock opening closing depth ts).2.length = ts.length := by
  induction ts generalizing depth with
  | nil => rfl
  | cons t ts ih =>
    unfold takeBlock
    split
    · simp only [List.length_cons, List.length_nil]
      omega
    · simp only [List.length_cons]
      have hrest := ih (if t = opening then depth + 1 else if t = closing then depth - 1 else depth)
      omega

omit [Runtime] in
theorem length_takeChain (ts : List String) : (takeChain ts).2.length ≤ ts.length := by
  fun_induction takeChain ts with
  | case1 t ts more ih =>
    show more.2.length ≤ _
    simp only [List.length_cons]
    exact Nat.le_trans ih (Nat.le_add_right ts.length 2)
  | case2 => exact Nat.le_refl _
  | case3 => exact Nat.le_refl _

theorem length_attrBlock (ts : List String) : (attrBlock ts).2.length ≤ ts.length := by
  have h := length_takeBlock "[" "]" 1 ts
  unfold attrBlock
  dsimp only
  omega

theorem length_optionalBlock (ts : List String) : (optionalBlock ts).2.length ≤ ts.length := by
  unfold optionalBlock
  split
  · exact Nat.le_refl _
  · split
    · have h := length_attrBlock ‹_›
      simp only [List.length_cons]
      omega
    · exact Nat.le_refl _

omit [Runtime] in
theorem length_skipName (ts : List String) : (skipName ts).length ≤ ts.length := by
  unfold skipName
  split
  · exact Nat.le_refl _
  · split
    · simp
    · exact Nat.le_refl _

/-- Beyond the number of tokens the bound makes no difference. -/
theorem commands_succ (fuel : Nat) (ts : List String) (h : ts.length < fuel) :
    commands (fuel + 1) ts = commands fuel ts := by
  induction fuel generalizing ts with
  | zero => omega
  | succ fuel ih =>
    cases ts with
    | nil => rfl
    | cons t ts =>
      rw [List.length_cons] at h
      have htail : ts.tail.length ≤ ts.length := by simp
      have hblock := length_attrBlock ts.tail
      have hopt := length_optionalBlock ts
      unfold commands
      split
      · exact ih ts (by omega)
      · split
        · have hname := length_skipName ts
          split
          · rfl
          · rename_i b body hskip
            rw [hskip, List.length_cons] at hname
            split
            · have htake := length_takeBlock "\x7b" "\x7d" 1 body
              have hdrop : (takeBlock "\x7b" "\x7d" 1 body).1.dropLast.length ≤
                  (takeBlock "\x7b" "\x7d" 1 body).1.length := by simp
              dsimp only
              rw [ih _ (by omega), ih (takeBlock "\x7b" "\x7d" 1 body).2 (by omega)]
            · exact ih _ (by simp only [List.length_cons]; omega)
        · split
          · rw [ih _ (by omega)]
          · split
            · rw [ih _ (by omega)]
            · split
              · rw [ih _ (by omega)]
              · split
                · split
                  · have hchain := length_takeChain ts
                    have hrest := length_optionalBlock (takeChain ts).2
                    dsimp only
                    rw [ih _ (by omega)]
                  · split
                    · split
                      · rfl
                      · rename_i raw rest hts
                        rw [hts, List.length_cons] at htail
                        rw [ih _ (by omega)]
                    · rw [ih _ (by omega)]
                · exact ih ts (by omega)

/-- The commands of a list of tokens. -/
def statements (ts : List String) : List Command := commands (ts.length + 1) ts

theorem commands_eq_statements {fuel : Nat} {ts : List String} (h : ts.length < fuel) :
    commands fuel ts = statements ts := by
  induction fuel with
  | zero => omega
  | succ fuel ih =>
    by_cases hlt : ts.length < fuel
    · rw [commands_succ fuel ts hlt]
      exact ih hlt
    · have heq : fuel = ts.length := by omega
      rw [heq]
      rfl

end Commands

end Dot
end DotRunner
