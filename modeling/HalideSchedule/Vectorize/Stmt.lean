import HalideSchedule.Vectorize.VectorSubs

/-!
# HalideSchedule.Vectorize.Stmt

**The statements `VectorizeLoops` rewrites, and what they do.** `VectorSubs` visits the
body of a vectorized loop statement by statement; this module gives those statements and
their meaning, for the visitors of `Vectorize.Loops`:

* `VStmt` — `LetStmt`, `AssertStmt`, `Store`, `For`, `Block` and `IfThenElse`, with
  `Stmt()`, the undefined statement, as the `else_case` of an `if` without one. The
  condition of an `IfThenElse` or `AssertStmt` is a boolean expression: comparisons under
  `And`, `Or`, `Not` and `likely`;
* `substitute` and `replaceShuffleVectors` — Halide's `substitute` (`Substitute.cpp`, not
  under `src/`) and the `ReplaceShuffleVectors` mutator of `VectorizeLoops.cpp`;
* `VStmt.exec` — the writes a statement makes, in order, or `none` when an assertion
  fails; `Mem.run` plays a list of writes on a memory.

A store writes one location per lane whose predicate is true. Loops run their iterations
in order whatever their `ForType`: a parallel or vectorized loop means what the serial one
does when its iterations write different locations, which is what the vectorizer relies
on.
-/

namespace HalideSchedule.Vectorize

namespace VExpr

/-- `substitute(name, replacement, e)`: every free `name` becomes `replacement`; a `Let`
of `name` hides it in its body. -/
def substitute (name : String) (r : VExpr) : VExpr → VExpr
  | var t n => if n = name then r else var t n
  | intImm v => intImm v
  | boolImm v => boolImm v
  | add a b => add (substitute name r a) (substitute name r b)
  | sub a b => sub (substitute name r a) (substitute name r b)
  | mul a b => mul (substitute name r a) (substitute name r b)
  | div a b => div (substitute name r a) (substitute name r b)
  | min a b => min (substitute name r a) (substitute name r b)
  | max a b => max (substitute name r a) (substitute name r b)
  | and a b => and (substitute name r a) (substitute name r b)
  | or a b => or (substitute name r a) (substitute name r b)
  | cmp op a b => cmp op (substitute name r a) (substitute name r b)
  | not a => not (substitute name r a)
  | likely a => likely (substitute name r a)
  | ramp a b n => ramp (substitute name r a) (substitute name r b) n
  | broadcast a n => broadcast (substitute name r a) n
  | letIn n v b => letIn n (substitute name r v) (if n = name then b else substitute name r b)
  | extractLane a i => extractLane (substitute name r a) i

/-- `ReplaceShuffleVectors(name)`: `extract_lane` of lane `i` of the variable `name` becomes
the scalar variable `name.lane.i`. -/
def replaceShuffleVectors (name : String) : VExpr → VExpr
  | extractLane a i =>
    match a with
    | var t n =>
      if n = name then var ⟨t.elem, 1⟩ (name ++ ".lane." ++ toString i) else extractLane a i
    | _ => extractLane (a.replaceShuffleVectors name) i
  | var t n => var t n
  | intImm v => intImm v
  | boolImm v => boolImm v
  | add a b => add (a.replaceShuffleVectors name) (b.replaceShuffleVectors name)
  | sub a b => sub (a.replaceShuffleVectors name) (b.replaceShuffleVectors name)
  | mul a b => mul (a.replaceShuffleVectors name) (b.replaceShuffleVectors name)
  | div a b => div (a.replaceShuffleVectors name) (b.replaceShuffleVectors name)
  | min a b => min (a.replaceShuffleVectors name) (b.replaceShuffleVectors name)
  | max a b => max (a.replaceShuffleVectors name) (b.replaceShuffleVectors name)
  | and a b => and (a.replaceShuffleVectors name) (b.replaceShuffleVectors name)
  | or a b => or (a.replaceShuffleVectors name) (b.replaceShuffleVectors name)
  | cmp op a b => cmp op (a.replaceShuffleVectors name) (b.replaceShuffleVectors name)
  | not a => not (a.replaceShuffleVectors name)
  | likely a => likely (a.replaceShuffleVectors name)
  | ramp a b n => ramp (a.replaceShuffleVectors name) (b.replaceShuffleVectors name) n
  | broadcast a n => broadcast (a.replaceShuffleVectors name) n
  | letIn n v b => letIn n (v.replaceShuffleVectors name) (b.replaceShuffleVectors name)

end VExpr

/-- The `ForType`s the vectorizer reads or makes. -/
inductive ForType
  | serial
  | parallel
  | vectorized
  | unrolled
  deriving Repr, DecidableEq

/-- The statement nodes `VectorSubs` visits. `undef` is `Stmt()`, which an `IfThenElse`
without an `else` branch holds as its `else_case`. -/
inductive VStmt
  | letStmt (name : String) (value : VExpr) (body : VStmt)
  | assertStmt (condition : VExpr)
  | store (name : String) (value index predicate : VExpr)
  | forLoop (name : String) (min extent : VExpr) (forType : ForType) (body : VStmt)
  | block (first rest : VStmt)
  | ifThenElse (condition : VExpr) (thenCase elseCase : VStmt)
  | undef
  deriving Repr, DecidableEq

namespace VStmt

/-- The number of statement nodes, a `For` counting twice. The recursion of `VectorSubs`
decreases it, with one exception (see `rebaseRank`). -/
def size : VStmt → Nat
  | letStmt _ _ body => body.size + 1
  | forLoop _ _ _ _ body => body.size + 2
  | block a b | ifThenElse _ a b => a.size + b.size + 1
  | assertStmt _ | store _ _ _ _ => 1
  | undef => 0

/-- `1` for a `For` whose `min` is not `0`: the `For` visitor rebases such a loop to `0`
and visits it again, a statement of the same size. -/
def rebaseRank : VStmt → Nat
  | forLoop _ min _ _ _ => if min = .intImm 0 then 0 else 1
  | _ => 0

@[simp] theorem rebaseRank_ifThenElse (c : VExpr) (a b : VStmt) :
    (ifThenElse c a b).rebaseRank = 0 := rfl

@[simp] theorem rebaseRank_zero (name : String) (extent : VExpr) (forType : ForType)
    (body : VStmt) :
    (forLoop name (.intImm 0) extent forType body).rebaseRank = 0 := rfl

/-- `stmt_uses_var(s, name)`: a free occurrence of `name`. -/
def usesVar (name : String) : VStmt → Bool
  | letStmt n v body => v.usesVar name || (n != name && body.usesVar name)
  | assertStmt c => c.usesVar name
  | store _ v i p => v.usesVar name || i.usesVar name || p.usesVar name
  | forLoop n min extent _ body =>
    min.usesVar name || extent.usesVar name || (n != name && body.usesVar name)
  | block a b => a.usesVar name || b.usesVar name
  | ifThenElse c a b => c.usesVar name || a.usesVar name || b.usesVar name
  | undef => false

/-- `substitute(name, replacement, s)`: a `LetStmt` or `For` of `name` hides it in its
body. -/
def substitute (name : String) (r : VExpr) : VStmt → VStmt
  | letStmt n v body =>
    letStmt n (VExpr.substitute name r v) (if n = name then body else body.substitute name r)
  | assertStmt c => assertStmt (VExpr.substitute name r c)
  | store b v i p =>
    store b (VExpr.substitute name r v) (VExpr.substitute name r i) (VExpr.substitute name r p)
  | forLoop n min extent ft body =>
    forLoop n (VExpr.substitute name r min) (VExpr.substitute name r extent) ft
      (if n = name then body else body.substitute name r)
  | block a b => block (a.substitute name r) (b.substitute name r)
  | ifThenElse c a b =>
    ifThenElse (VExpr.substitute name r c) (a.substitute name r) (b.substitute name r)
  | undef => undef

/-- `ReplaceShuffleVectors(name)` on a statement. -/
def replaceShuffleVectors (name : String) : VStmt → VStmt
  | letStmt n v body => letStmt n (v.replaceShuffleVectors name) (body.replaceShuffleVectors name)
  | assertStmt c => assertStmt (c.replaceShuffleVectors name)
  | store b v i p => store b (v.replaceShuffleVectors name) (i.replaceShuffleVectors name)
      (p.replaceShuffleVectors name)
  | forLoop n min extent ft body => forLoop n (min.replaceShuffleVectors name)
      (extent.replaceShuffleVectors name) ft (body.replaceShuffleVectors name)
  | block a b => block (a.replaceShuffleVectors name) (b.replaceShuffleVectors name)
  | ifThenElse c a b => ifThenElse (c.replaceShuffleVectors name) (a.replaceShuffleVectors name)
      (b.replaceShuffleVectors name)
  | undef => undef

theorem size_substitute (name : String) (r : VExpr) (s : VStmt) :
    (s.substitute name r).size = s.size := by
  induction s with
  | letStmt n _ _ ih | forLoop n _ _ _ _ ih =>
    by_cases h : n = name <;> simp [substitute, size, h, ih]
  | block _ _ iha ihb | ifThenElse _ _ _ iha ihb => simp [substitute, size, iha, ihb]
  | assertStmt _ | store _ _ _ _ | undef => rfl

end VStmt

/-! ### What a statement does -/

/-- A write: `buffer[index] = value`. -/
structure Write where
  buffer : String
  index : Int
  value : Val
  deriving Repr, DecidableEq

/-- The location a write hits. -/
def Write.loc (w : Write) : String × Int := (w.buffer, w.index)

/-- The writes of `t` then those of `u`; a failure of either is a failure. -/
def seqW (t u : Option (List Write)) : Option (List Write) := do
  let a ← t
  let b ← u
  return a ++ b

/-- A loop of `count` iterations, iteration `j` making the writes `body j`, in order. -/
def forExec (body : Nat → Option (List Write)) : Nat → Option (List Write)
  | 0 => some []
  | count + 1 => seqW (forExec body count) (body count)

/-- The write of lane `i` of a `Store`, when its predicate holds there. -/
def storeLane (env : Env) (name : String) (value index predicate : VExpr) (i : Nat) :
    List Write :=
  if predicate.eval env i = .bool true then [⟨name, (index.eval env i).toInt, value.eval env i⟩]
  else []

/-- The writes of a statement in `env`, in order, or `none` when an `AssertStmt` fails. A
condition holds when lane 0 is `true`; a store has the lanes of its value; a loop variable
is `min + j` at iteration `j`. -/
def VStmt.exec (env : Env) : VStmt → Option (List Write)
  | .letStmt n v body => exec (env.bind n (v.eval env)) body
  | .assertStmt c => if c.eval env 0 = .bool true then some [] else none
  | .store name value index predicate =>
    some ((List.range value.type.lanes).flatMap (storeLane env name value index predicate))
  | .forLoop n min extent _ body =>
    forExec (fun j => exec (env.bind n fun _ => Val.intOp (· + ·) (min.eval env 0) (.int j)) body)
      (extent.eval env 0).toInt.toNat
  | .block a b => seqW (exec env a) (exec env b)
  | .ifThenElse c a b => if c.eval env 0 = .bool true then exec env a else exec env b
  | .undef => some []

/-- A memory: the value at each location. -/
abbrev Mem := String → Int → Val

/-- `m` after the write `w`. -/
def Mem.store (m : Mem) (w : Write) : Mem :=
  fun b i => if b = w.buffer ∧ i = w.index then w.value else m b i

/-- `m` after the writes `ws`, in order. -/
def Mem.run (m : Mem) (ws : List Write) : Mem := ws.foldl Mem.store m

end HalideSchedule.Vectorize
