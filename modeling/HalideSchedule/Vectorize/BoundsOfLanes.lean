import Mathlib.Data.List.Basic

/-!
# HalideSchedule.Vectorize.BoundsOfLanes

**`bounds_of_lanes` of `VectorizeLoops.cpp`.** Given a vector expression, it builds
two scalar expressions for its least and greatest lane: by a rule per node kind
where one operand is a `Broadcast`, and otherwise by extracting every lane and
folding them with `Min`/`Max` (`And`/`Or` for booleans). Vector variables defined
outside are read through their `.min_lane` and `.max_lane` companions. The
vectorizer sizes vectorized loops and allocations by the greatest lane of their
extents, and decides the all-lanes-true fast path of a `likely` by the least.

The lane semantics (`VExpr.eval`) evaluates lane `i` of an expression over integers and
booleans (`false < true`); integer division is Euclidean, as Halide's. The integer lanes
are those of `Int(32)` index arithmetic, taken as unbounded: Halide assumes that signed
32-bit arithmetic does not overflow. The narrow and unsigned integer types, whose
arithmetic wraps, are not modelled, and neither are floats.
-/

namespace HalideSchedule.Vectorize

/-- The element type of a vector expression. -/
inductive ElemType
  | int
  | bool
  deriving Repr, DecidableEq

/-- `Type`: an element type and a lane count. -/
structure VType where
  elem : ElemType
  lanes : Nat
  deriving Repr, DecidableEq

/-- The comparison nodes `EQ`, `NE`, `LT`, `LE`, `GT` and `GE`. -/
inductive CmpOp
  | eq
  | ne
  | lt
  | le
  | gt
  | ge
  deriving Repr, DecidableEq

/-- What a comparison computes. -/
def CmpOp.test : CmpOp → Int → Int → Bool
  | eq, a, b => a == b
  | ne, a, b => a != b
  | lt, a, b => decide (a < b)
  | le, a, b => decide (a ≤ b)
  | gt, a, b => decide (b < a)
  | ge, a, b => decide (b ≤ a)

/-- The vector IR nodes `bounds_of_lanes` and `VectorSubs` read. `likely a` is the call
of the `likely` intrinsic, and `extractLane e i` the scalar `extract_lane(e, i)`
builds. -/
inductive VExpr
  | intImm (v : Int)
  | boolImm (v : Bool)
  | var (t : VType) (name : String)
  | add (a b : VExpr)
  | sub (a b : VExpr)
  | mul (a b : VExpr)
  | div (a b : VExpr)
  | min (a b : VExpr)
  | max (a b : VExpr)
  | and (a b : VExpr)
  | or (a b : VExpr)
  | not (a : VExpr)
  | cmp (op : CmpOp) (a b : VExpr)
  | likely (a : VExpr)
  | ramp (base stride : VExpr) (lanes : Nat)
  | broadcast (value : VExpr) (lanes : Nat)
  | letIn (name : String) (value body : VExpr)
  | extractLane (e : VExpr) (lane : Nat)
  deriving Repr, DecidableEq

namespace VExpr

/-- `e.type()`. -/
def type : VExpr → VType
  | intImm _ => ⟨.int, 1⟩
  | boolImm _ => ⟨.bool, 1⟩
  | var t _ => t
  | add a _ | sub a _ | mul a _ | div a _ | min a _ | max a _ => a.type
  | and a _ | or a _ | not a | cmp _ a _ => ⟨.bool, a.type.lanes⟩
  | likely a => a.type
  | ramp base _ n | broadcast base n => ⟨base.type.elem, n⟩
  | letIn _ _ body => body.type
  | extractLane e _ => ⟨e.type.elem, 1⟩

/-- `expr_uses_var(e, name)`: a free occurrence of `name`. -/
def usesVar (name : String) : VExpr → Bool
  | intImm _ | boolImm _ => false
  | var _ n => n == name
  | add a b | sub a b | mul a b | div a b | min a b | max a b | and a b | or a b
  | cmp _ a b | ramp a b _ => a.usesVar name || b.usesVar name
  | not a | likely a | broadcast a _ | extractLane a _ => a.usesVar name
  | letIn n v body => v.usesVar name || (n != name && body.usesVar name)

/-- `is_positive_const`: a positive integer constant (through `Broadcast`). -/
def isPositiveConst : VExpr → Bool
  | intImm v => 0 < v
  | broadcast v _ => v.isPositiveConst
  | _ => false

/-- `is_negative_const`: a negative integer constant (through `Broadcast`). -/
def isNegativeConst : VExpr → Bool
  | intImm v => v < 0
  | broadcast v _ => v.isNegativeConst
  | _ => false

/-- `e.as<Broadcast>()`: the broadcast value, if `e` is a `Broadcast`. -/
def asBroadcast : VExpr → Option VExpr
  | broadcast v _ => some v
  | _ => none

end VExpr

/-- `Interval`: a least and a greatest value. -/
structure Interval where
  min : VExpr
  max : VExpr
  deriving Repr

/-- One step of the fall-back of `bounds_of_lanes`: lane `i` extracted and combined
into both ends, with `And`/`Or` for a boolean vector and `Min`/`Max` otherwise. -/
def foldLanesStep (e : VExpr) (acc : Interval) (i : Nat) : Interval :=
  let next := .extractLane e i
  if e.type.elem = .bool then ⟨.and acc.min next, .or acc.max next⟩
  else ⟨.min acc.min next, .max acc.max next⟩

/-- The fall-back of `bounds_of_lanes`: every lane extracted and folded. -/
def foldLanes (e : VExpr) : Interval :=
  (List.range' 1 (e.type.lanes - 1)).foldl (foldLanesStep e) ⟨.extractLane e 0, .extractLane e 0⟩

/-- The `Let` rule of `bounds_of_lanes`: the body's bounds, wrapped in the bindings
of `name.min_lane`, `name.max_lane` and `name` that they use. -/
def letBounds (name : String) (value : VExpr) (ia ib : Interval) : Interval :=
  let wrap (n : String) (v e : VExpr) : VExpr := if e.usesVar n then .letIn n v e else e
  let ib : Interval :=
    ⟨wrap (name ++ ".min_lane") ia.min ib.min, wrap (name ++ ".min_lane") ia.min ib.max⟩
  let ib : Interval :=
    ⟨wrap (name ++ ".max_lane") ia.max ib.min, wrap (name ++ ".max_lane") ia.max ib.max⟩
  ⟨wrap name value ib.min, wrap name value ib.max⟩

/-- `bounds_of_lanes(e)`. A binary rule looks for a `Broadcast` on the right first and on
the left only when there is none on the right; a node whose rule does not apply, a
comparison or a call such as `likely` among them, falls through to `foldLanes`. -/
def boundsOfLanes : VExpr → Interval
  | e@(.add a b) => match b.asBroadcast, a.asBroadcast with
    | some v, _ => let ia := boundsOfLanes a; ⟨.add ia.min v, .add ia.max v⟩
    | none, some v => let ia := boundsOfLanes b; ⟨.add v ia.min, .add v ia.max⟩
    | none, none => foldLanes e
  | e@(.sub a b) => match b.asBroadcast, a.asBroadcast with
    | some v, _ => let ia := boundsOfLanes a; ⟨.sub ia.min v, .sub ia.max v⟩
    | none, some v => let ia := boundsOfLanes b; ⟨.sub v ia.max, .sub v ia.max⟩
    | none, none => foldLanes e
  | e@(.mul a b) => match b.asBroadcast, a.asBroadcast with
    | some v, _ =>
      if v.isPositiveConst then let ia := boundsOfLanes a; ⟨.mul ia.min v, .mul ia.max v⟩
      else if v.isNegativeConst then let ia := boundsOfLanes a; ⟨.mul ia.max v, .mul ia.min v⟩
      else foldLanes e
    | none, some v =>
      if v.isPositiveConst then let ia := boundsOfLanes b; ⟨.mul v ia.min, .mul v ia.max⟩
      else if v.isNegativeConst then let ia := boundsOfLanes b; ⟨.mul v ia.max, .mul v ia.min⟩
      else foldLanes e
    | none, none => foldLanes e
  | e@(.div a b) => match b.asBroadcast with
    | some v =>
      if v.isPositiveConst then let ia := boundsOfLanes a; ⟨.div ia.min v, .div ia.max v⟩
      else if v.isNegativeConst then let ia := boundsOfLanes a; ⟨.div ia.max v, .div ia.min v⟩
      else foldLanes e
    | none => foldLanes e
  | e@(.and a b) => match b.asBroadcast, a.asBroadcast with
    | some v, _ => let ia := boundsOfLanes a; ⟨.and ia.min v, .and ia.max v⟩
    | none, some v => let ia := boundsOfLanes b; ⟨.and ia.min v, .and ia.max v⟩
    | none, none => foldLanes e
  | e@(.or a b) => match b.asBroadcast, a.asBroadcast with
    | some v, _ => let ia := boundsOfLanes a; ⟨.and ia.min v, .and ia.max v⟩
    | none, some v => let ia := boundsOfLanes b; ⟨.and ia.min v, .and ia.max v⟩
    | none, none => foldLanes e
  | e@(.min a b) => match b.asBroadcast, a.asBroadcast with
    | some v, _ => let ia := boundsOfLanes a; ⟨.min ia.min v, .min ia.max v⟩
    | none, some v => let ia := boundsOfLanes b; ⟨.min ia.min v, .min ia.max v⟩
    | none, none => foldLanes e
  | e@(.max a b) => match b.asBroadcast, a.asBroadcast with
    | some v, _ => let ia := boundsOfLanes a; ⟨.max ia.min v, .max ia.max v⟩
    | none, some v => let ia := boundsOfLanes b; ⟨.max ia.min v, .max ia.max v⟩
    | none, none => foldLanes e
  | .not a => let ia := boundsOfLanes a; ⟨.not ia.max, .not ia.min⟩
  | e@(.ramp base stride n) =>
    let last := .mul (.intImm (n - 1 : Nat)) stride
    if stride.isPositiveConst then ⟨base, .add base last⟩
    else if stride.isNegativeConst then ⟨.add base last, base⟩
    else foldLanes e
  | .broadcast v _ => ⟨v, v⟩
  | .var t n => ⟨.var ⟨t.elem, 1⟩ (n ++ ".min_lane"), .var ⟨t.elem, 1⟩ (n ++ ".max_lane")⟩
  | .letIn n v body => letBounds n v (boundsOfLanes v) (boundsOfLanes body)
  | e@(.intImm _) | e@(.boolImm _) | e@(.cmp _ _ _) | e@(.likely _) | e@(.extractLane _ _) =>
    foldLanes e

/-! ### Lane semantics -/

/-- A lane's value. -/
inductive Val
  | int (v : Int)
  | bool (b : Bool)
  deriving Repr, DecidableEq

namespace Val

/-- An integer operation lane by lane; an ill-typed lane is `0`. -/
def intOp (f : Int → Int → Int) : Val → Val → Val
  | int a, int b => int (f a b)
  | _, _ => int 0

/-- `Min` and `Max` also order booleans, `false < true`. -/
def minV : Val → Val → Val
  | bool a, bool b => bool (a && b)
  | a, b => intOp Min.min a b

/-- See `minV`. -/
def maxV : Val → Val → Val
  | bool a, bool b => bool (a || b)
  | a, b => intOp Max.max a b

/-- A boolean operation lane by lane; an ill-typed lane is `false`. -/
def boolOp (f : Bool → Bool → Bool) : Val → Val → Val
  | bool a, bool b => bool (f a b)
  | _, _ => bool false

/-- `Not`. -/
def notV : Val → Val
  | bool a => bool !a
  | _ => bool false

end Val

/-- A lane as an integer, for comparisons, loop bounds and store indices: a boolean is
`0` or `1`. -/
def Val.toInt : Val → Int
  | .int a => a
  | .bool b => if b then 1 else 0

/-- An environment: the lanes of each variable. -/
abbrev Env := String → Nat → Val

/-- `env` with `name` bound to `v`. -/
def Env.bind (env : Env) (name : String) (v : Nat → Val) : Env :=
  fun n => if n = name then v else env n

namespace VExpr

/-- Lane `i` of `e`. -/
def eval (env : Env) : VExpr → Nat → Val
  | intImm v, _ => .int v
  | boolImm b, _ => .bool b
  | var _ n, i => env n i
  | add a b, i => Val.intOp (· + ·) (a.eval env i) (b.eval env i)
  | sub a b, i => Val.intOp (· - ·) (a.eval env i) (b.eval env i)
  | mul a b, i => Val.intOp (· * ·) (a.eval env i) (b.eval env i)
  | div a b, i => Val.intOp (· / ·) (a.eval env i) (b.eval env i)
  | min a b, i => Val.minV (a.eval env i) (b.eval env i)
  | max a b, i => Val.maxV (a.eval env i) (b.eval env i)
  | and a b, i => Val.boolOp (· && ·) (a.eval env i) (b.eval env i)
  | or a b, i => Val.boolOp (· || ·) (a.eval env i) (b.eval env i)
  | not a, i => Val.notV (a.eval env i)
  | cmp op a b, i => .bool (op.test (a.eval env i).toInt (b.eval env i).toInt)
  | likely a, i => a.eval env i
  | ramp base stride _, i =>
    Val.intOp (· + ·) (base.eval env 0) (Val.intOp (· * ·) (.int i) (stride.eval env 0))
  | broadcast v _, _ => v.eval env 0
  | letIn n v body, i => body.eval (env.bind n (v.eval env)) i
  | extractLane e j, _ => e.eval env j

/-- The least lane of `e`, over its `n` lanes. -/
def laneMin (env : Env) (e : VExpr) (n : Nat) : Val :=
  (List.range' 1 (n - 1)).foldl (fun m i => Val.minV m (e.eval env i)) (e.eval env 0)

/-- The greatest lane of `e`, over its `n` lanes. -/
def laneMax (env : Env) (e : VExpr) (n : Nat) : Val :=
  (List.range' 1 (n - 1)).foldl (fun m i => Val.maxV m (e.eval env i)) (e.eval env 0)

end VExpr

/-- Two rules of `bounds_of_lanes` that are not exact. `Broadcast(0) - Ramp(0, 1)` over
two lanes has lanes `0` and `-1`, but the rule for a broadcast on the left gives
`0 - ramp.max` as the greatest lane. `v || Broadcast(true)`, with `v`'s lanes
`false, true` and its `.min_lane`, `.max_lane` bound to them, is `true` in every
lane, but the `Or` rule combines with `&&` and gives `false` as the least lane. -/
theorem bounds_of_lanes_inexact :
    (VExpr.laneMax (fun _ _ => .int 0)
        (.sub (.broadcast (.intImm 0) 2) (.ramp (.intImm 0) (.intImm 1) 2)) 2 = .int 0 ∧
      (boundsOfLanes (.sub (.broadcast (.intImm 0) 2) (.ramp (.intImm 0) (.intImm 1) 2))).max.eval
        (fun _ _ => .int 0) 0 = .int (-1)) ∧
    (VExpr.laneMin (fun n i => if n = "v" then .bool (i = 1) else .bool (n = "v.max_lane"))
        (.or (.var ⟨.bool, 2⟩ "v") (.broadcast (.boolImm true) 2)) 2 = .bool true ∧
      (boundsOfLanes (.or (.var ⟨.bool, 2⟩ "v") (.broadcast (.boolImm true) 2))).min.eval
        (fun n i => if n = "v" then .bool (i = 1) else .bool (n = "v.max_lane")) 0 = .bool false) := by
  decide

end HalideSchedule.Vectorize
