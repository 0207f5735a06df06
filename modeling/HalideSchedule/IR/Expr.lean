import Mathlib.Data.List.Basic

/-!
# HalideSchedule.IR.Expr

The **expressions the scheduling core builds and rewrites.** Halide's IR is an
external collaborator of `Func.cpp`; what the scheduling directives need of it is
the syntax (to build self-loads, calls to the intermediate `Func` of `rfactor`,
split factors and extents), name-based substitution, the variable-use test of
`expr_uses_vars`, structural equality (`equal`, used by `specialize`), and the
two small mutators written in `Func.cpp` itself: `SubstituteSelfReference` and
`CheckForFreeVars`.

Halide expressions are nullable handles; `Expr.undef` is the null handle
`Expr()` that `fuse` stores as the factor of its history entry.

All traversals are structural recursion over the syntax (with a mutual function
for argument lists), so every definition here evaluates by `decide`.
-/

namespace HalideSchedule

/-- Element types the core distinguishes: `specialize` asks whether its
condition is boolean, and nothing else looks at types. -/
inductive ScalarType
  | int
  | bool
  deriving Repr, DecidableEq

/-- `Call::CallType`: only `Halide` calls (to a `Func`) are redirected by
`SubstituteSelfReference`. -/
inductive CallType
  | halide
  | externCall
  | intrinsic
  deriving Repr, DecidableEq

/-- The Halide IR expressions. `var` is a `Variable` naming a `Var` or an `RVar`;
`param` is a `Variable` bound to a `Parameter` (which `CheckForFreeVars` lets
through). -/
inductive Expr
  /-- The null handle `Expr()`. -/
  | undef
  | intImm (value : Int)
  | boolImm (value : Bool)
  | var (type : ScalarType) (name : String)
  | param (type : ScalarType) (name : String)
  | add (a b : Expr)
  | sub (a b : Expr)
  | mul (a b : Expr)
  | div (a b : Expr)
  | min (a b : Expr)
  | max (a b : Expr)
  | eq (a b : Expr)
  | lt (a b : Expr)
  | le (a b : Expr)
  | ge (a b : Expr)
  | and (a b : Expr)
  | or (a b : Expr)
  | not (a : Expr)
  | select (cond t f : Expr)
  /-- `Call::make(type, name, args, call_type, func, value_index)`. -/
  | call (type : ScalarType) (callType : CallType) (name : String) (args : List Expr)
      (valueIndex : Nat)
  deriving Repr

namespace Expr

/-- An integer `Var` (or `RVar`) reference: how `Expr(Var)` and `Expr(RVar)` read. -/
def ofVar (name : String) : Expr := .var .int name

/-- The type of an expression, as Halide's node constructors assign it. -/
def type : Expr → ScalarType
  | undef | intImm _ | add _ _ | sub _ _ | mul _ _ | div _ _ | min _ _ | max _ _ => .int
  | boolImm _ | eq _ _ | lt _ _ | le _ _ | ge _ _ | and _ _ | or _ _ | not _ => .bool
  | var t _ | param t _ | call t _ _ _ _ => t
  | select _ t _ => t.type

mutual
/-- `substitute(map, e)`: replace every `Variable` named in `m` (first binding
wins, as a lookup in `std::map` does). -/
def substitute (m : List (String × Expr)) : Expr → Expr
  | undef => undef
  | intImm v => intImm v
  | boolImm v => boolImm v
  | var t n => (m.lookup n).getD (var t n)
  | param t n => (m.lookup n).getD (param t n)
  | add a b => add (a.substitute m) (b.substitute m)
  | sub a b => sub (a.substitute m) (b.substitute m)
  | mul a b => mul (a.substitute m) (b.substitute m)
  | div a b => div (a.substitute m) (b.substitute m)
  | min a b => min (a.substitute m) (b.substitute m)
  | max a b => max (a.substitute m) (b.substitute m)
  | eq a b => eq (a.substitute m) (b.substitute m)
  | lt a b => lt (a.substitute m) (b.substitute m)
  | le a b => le (a.substitute m) (b.substitute m)
  | ge a b => ge (a.substitute m) (b.substitute m)
  | and a b => and (a.substitute m) (b.substitute m)
  | or a b => or (a.substitute m) (b.substitute m)
  | not a => not (a.substitute m)
  | select c t f => select (c.substitute m) (t.substitute m) (f.substitute m)
  | call t ct n args i => call t ct n (substituteList m args) i
/-- `substitute` over an argument list. -/
def substituteList (m : List (String × Expr)) : List Expr → List Expr
  | [] => []
  | e :: es => e.substitute m :: substituteList m es
end

mutual
/-- `expr_uses_vars(e, scope)`: some `Variable` of `e` is named in the scope. -/
def usesVars (scope : String → Bool) : Expr → Bool
  | undef | intImm _ | boolImm _ => false
  | var _ n | param _ n => scope n
  | add a b | sub a b | mul a b | div a b | min a b | max a b
  | eq a b | lt a b | le a b | ge a b | and a b | or a b => a.usesVars scope || b.usesVars scope
  | not a => a.usesVars scope
  | select c t f => c.usesVars scope || t.usesVars scope || f.usesVars scope
  | call _ _ _ args _ => usesVarsList scope args
/-- `usesVars` over an argument list. -/
def usesVarsList (scope : String → Bool) : List Expr → Bool
  | [] => false
  | e :: es => e.usesVars scope || usesVarsList scope es
end

mutual
/-- `SubstituteSelfReference`: every `Halide` call to `func` becomes a call to
`target` with `newArgs` appended to its (already rewritten) arguments. -/
def substituteSelfReference (func target : String) (newArgs : List String) : Expr → Expr
  | undef => undef
  | intImm v => intImm v
  | boolImm v => boolImm v
  | var t n => var t n
  | param t n => param t n
  | add a b => add (a.substituteSelfReference func target newArgs)
      (b.substituteSelfReference func target newArgs)
  | sub a b => sub (a.substituteSelfReference func target newArgs)
      (b.substituteSelfReference func target newArgs)
  | mul a b => mul (a.substituteSelfReference func target newArgs)
      (b.substituteSelfReference func target newArgs)
  | div a b => div (a.substituteSelfReference func target newArgs)
      (b.substituteSelfReference func target newArgs)
  | min a b => min (a.substituteSelfReference func target newArgs)
      (b.substituteSelfReference func target newArgs)
  | max a b => max (a.substituteSelfReference func target newArgs)
      (b.substituteSelfReference func target newArgs)
  | eq a b => eq (a.substituteSelfReference func target newArgs)
      (b.substituteSelfReference func target newArgs)
  | lt a b => lt (a.substituteSelfReference func target newArgs)
      (b.substituteSelfReference func target newArgs)
  | le a b => le (a.substituteSelfReference func target newArgs)
      (b.substituteSelfReference func target newArgs)
  | ge a b => ge (a.substituteSelfReference func target newArgs)
      (b.substituteSelfReference func target newArgs)
  | and a b => and (a.substituteSelfReference func target newArgs)
      (b.substituteSelfReference func target newArgs)
  | or a b => or (a.substituteSelfReference func target newArgs)
      (b.substituteSelfReference func target newArgs)
  | not a => not (a.substituteSelfReference func target newArgs)
  | select c t f => select (c.substituteSelfReference func target newArgs)
      (t.substituteSelfReference func target newArgs)
      (f.substituteSelfReference func target newArgs)
  | call t ct n args i =>
      let args' := substituteSelfReferenceList func target newArgs args
      if ct = .halide ∧ n = func then call t .halide target (args' ++ newArgs.map ofVar) i
      else call t ct n args' i
/-- `substituteSelfReference` over an argument list. -/
def substituteSelfReferenceList (func target : String) (newArgs : List String) :
    List Expr → List Expr
  | [] => []
  | e :: es => e.substituteSelfReference func target newArgs ::
      substituteSelfReferenceList func target newArgs es
end

mutual
/-- `CheckForFreeVars`: the names of the `Variable`s that are not parameters, in
visiting order; the checker reports the last one. -/
def freeVars : Expr → List String
  | undef | intImm _ | boolImm _ | param _ _ => []
  | var _ n => [n]
  | add a b | sub a b | mul a b | div a b | min a b | max a b
  | eq a b | lt a b | le a b | ge a b | and a b | or a b => a.freeVars ++ b.freeVars
  | not a => a.freeVars
  | select c t f => c.freeVars ++ t.freeVars ++ f.freeVars
  | call _ _ _ args _ => freeVarsList args
/-- `freeVars` over an argument list. -/
def freeVarsList : List Expr → List String
  | [] => []
  | e :: es => e.freeVars ++ freeVarsList es
end

mutual
/-- `equal(a, b)`: structural equality of IR trees (`IREquality`). -/
def equal : Expr → Expr → Bool
  | undef, undef => true
  | intImm a, intImm b => a == b
  | boolImm a, boolImm b => a == b
  | var t n, var t' n' | param t n, param t' n' => t == t' && n == n'
  | add a b, add a' b' | sub a b, sub a' b' | mul a b, mul a' b' | div a b, div a' b'
  | min a b, min a' b' | max a b, max a' b' | eq a b, eq a' b' | lt a b, lt a' b'
  | le a b, le a' b' | ge a b, ge a' b' | and a b, and a' b' | or a b, or a' b' =>
      equal a a' && equal b b'
  | not a, not a' => equal a a'
  | select c t f, select c' t' f' => equal c c' && equal t t' && equal f f'
  | call t ct n args i, call t' ct' n' args' i' =>
      t == t' && ct == ct' && n == n' && i == i' && equalList args args'
  | _, _ => false
/-- `equal` over argument lists. -/
def equalList : List Expr → List Expr → Bool
  | [], [] => true
  | e :: es, e' :: es' => equal e e' && equalList es es'
  | _, _ => false
end

theorem substituteList_eq_map (m : List (String × Expr)) (es : List Expr) :
    substituteList m es = es.map (substitute m) := by
  induction es with
  | nil => rfl
  | cons e es ih => simp [substituteList, ih]

theorem substituteSelfReferenceList_eq_map (func target : String) (newArgs : List String)
    (es : List Expr) :
    substituteSelfReferenceList func target newArgs es =
      es.map (substituteSelfReference func target newArgs) := by
  induction es with
  | nil => rfl
  | cons e es ih => simp [substituteSelfReferenceList, ih]

end Expr

end HalideSchedule
