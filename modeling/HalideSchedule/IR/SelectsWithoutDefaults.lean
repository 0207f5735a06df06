import HalideSchedule.IR.Expr

/-!
# HalideSchedule.IR.SelectsWithoutDefaults

**`check_selects_without_defaults`**, the check `FuncRef::operator=` makes on every
value of a definition before it builds the definition. In this fork `select(c, t)`
may omit its false value: the `Select` node then holds the null handle there, and
where `c` fails the definition provides no value at that point. Such a `Select` may
stand for the whole value, but, as the class's comment and its error say, not
"INSIDE another expression".

The checker is an `IRMutator` with one flag, `in_an_expr`. Its `mutate` leaves the
flag as it is on a `Select` or a `Let` and sets it on every other node; its
`visit(const Select *)` refuses a missing false value under the flag, then visits the
true value (and the false value, when there is one) with the flag set, and its
`visit(const Let *)` visits the value with the flag set and the body with the flag it
found. It reads nothing else of a node, so `ExprShape` keeps the IR at that
resolution, and `Expr.shape` maps the expressions of `IR.Expr` onto it.

`visit(const Select *)` never visits the condition. The exact law of the checker
(`checkSelectsWithoutDefaults_eq`) is therefore `nestedSelectWithoutDefault false`:
a `Select` without a default value outside the root and the bodies of the `Let`s
that stand there, searched everywhere except in conditions. Searched in conditions
too (`nestedSelectWithoutDefault true`), the same positions are what the class
comment describes, and a `Select` without a default value used as the condition of
another `Select` is accepted (`select_condition_unchecked`).
-/

namespace HalideSchedule

/-- A Halide expression as `CheckSelectsWithoutDefaults` sees it: the null handle, a
`Select` (whose false value may be the null handle), a `Let`, and any other node
with its children in visiting order. The checker reads no name, type or operator. -/
inductive ExprShape
  | undef
  | select (condition trueValue falseValue : ExprShape)
  | letE (value body : ExprShape)
  | node (children : List ExprShape)
  deriving Repr

namespace ExprShape

/-- `Expr::defined()`. -/
def isDefined : ExprShape → Bool
  | undef => false
  | _ => true

end ExprShape

mutual
/-- The shape of an expression of `IR.Expr`: a `Select` and the null handle are kept,
every other node keeps only its children. -/
def Expr.shape : Expr → ExprShape
  | .undef => .undef
  | .intImm _ | .boolImm _ | .var _ _ | .param _ _ => .node []
  | .add a b | .sub a b | .mul a b | .div a b | .min a b | .max a b
  | .eq a b | .lt a b | .le a b | .ge a b | .and a b | .or a b => .node [a.shape, b.shape]
  | .not a => .node [a.shape]
  | .select c t f => .select c.shape t.shape f.shape
  | .call _ _ _ args _ => .node (Expr.shapeList args)
/-- `Expr.shape` over an argument list. -/
def Expr.shapeList : List Expr → List ExprShape
  | [] => []
  | e :: es => e.shape :: Expr.shapeList es
end

/-! ### The checker -/

/-- The message of the `user_assert` in `visit(const Select *)`. -/
def selectWithoutDefaultMessage : String :=
  "Select without a default value cannot be used INSIDE another expression, " ++
    "because it must provide a value for that expression in any case.\n"

namespace CheckSelectsWithoutDefaults

mutual
/-- `mutate(const Expr &)` under the flag `in_an_expr` it finds, with
`visit(const Select *)` and `visit(const Let *)` written in place. The null handle is
not visited; any node other than a `Select` or a `Let` has its children visited with
the flag set. -/
def mutate (inAnExpr : Bool) : ExprShape → Except String Unit
  | .undef => pure ()
  | .select _ t f => do
      unless f.isDefined || !inAnExpr do throw selectWithoutDefaultMessage
      mutate true t
      if f.isDefined then mutate true f
  | .letE v b => do
      mutate true v
      mutate inAnExpr b
  | .node cs => mutateChildren cs
/-- The default `IRMutator` visit of any other node: each child, the flag set. -/
def mutateChildren : List ExprShape → Except String Unit
  | [] => pure ()
  | e :: es => do
      mutate true e
      mutateChildren es
end

end CheckSelectsWithoutDefaults

/-- `check_selects_without_defaults(e)`: a fresh checker, `in_an_expr = false`. -/
def checkSelectsWithoutDefaults (e : ExprShape) : Except String Unit :=
  CheckSelectsWithoutDefaults.mutate false e

/-! ### Where a `Select` without a default value sits -/

namespace ExprShape

mutual
/-- Some `Select` of `e` has the null handle as its false value; the conditions of
`Select`s are searched when `inConditions`. -/
def selectWithoutDefault (inConditions : Bool) : ExprShape → Bool
  | undef => false
  | select c t f => !f.isDefined || (inConditions && c.selectWithoutDefault inConditions) ||
      t.selectWithoutDefault inConditions || f.selectWithoutDefault inConditions
  | letE v b => v.selectWithoutDefault inConditions || b.selectWithoutDefault inConditions
  | node cs => selectWithoutDefaultList inConditions cs
/-- `selectWithoutDefault` over a list of children. -/
def selectWithoutDefaultList (inConditions : Bool) : List ExprShape → Bool
  | [] => false
  | e :: es => e.selectWithoutDefault inConditions || selectWithoutDefaultList inConditions es
end

/-- A `Select` without a default value sits in `e` somewhere other than the root and
the bodies of the `Let`s at such a position; conditions are searched when
`inConditions`. -/
def nestedSelectWithoutDefault (inConditions : Bool) : ExprShape → Bool
  | select c t f => (inConditions && c.selectWithoutDefault inConditions) ||
      t.selectWithoutDefault inConditions || f.selectWithoutDefault inConditions
  | letE v b => v.selectWithoutDefault inConditions || b.nestedSelectWithoutDefault inConditions
  | e => e.selectWithoutDefault inConditions

end ExprShape

/-! ### The law of the checker -/

namespace CheckSelectsWithoutDefaults

open ExprShape

/-- The outcome of a check that refuses exactly when `p`, followed by more checks. -/
theorem bind_refuse {p : Bool} {k : Unit → Except String Unit} :
    ((if p then .error selectWithoutDefaultMessage else .ok ()) >>= k) =
      if p then .error selectWithoutDefaultMessage else k () := by
  cases p <;> rfl

/-- A failed `user_assert` ends the check. -/
theorem throw_bind {k : Unit → Except String Unit} :
    ((throw selectWithoutDefaultMessage : Except String Unit) >>= k) =
      .error selectWithoutDefaultMessage :=
  rfl

/-- The `user_assert` of `visit(const Select *)`: the checks after it run when its
condition holds. -/
theorem assert_refuse {c p : Bool} :
    (if c then (if p then .error selectWithoutDefaultMessage else .ok ()) else
      .error selectWithoutDefaultMessage) =
      (if !c || p then .error selectWithoutDefaultMessage else .ok () : Except String Unit) := by
  cases c <;> rfl

/-- Two checks in a row refuse when either does. -/
theorem refuse_or {p q : Bool} :
    (if p then .error selectWithoutDefaultMessage else
      if q then .error selectWithoutDefaultMessage else .ok ()) =
      (if p || q then .error selectWithoutDefaultMessage else .ok () : Except String Unit) := by
  cases p <;> rfl

/-- Visiting the false value only when it is defined is visiting it: the null handle
is not visited. -/
theorem mutate_ifDefined (b : Bool) (f : ExprShape) :
    (if f.isDefined then mutate b f else pure ()) = mutate b f := by
  cases f <;> rfl

mutual
/-- Under the flag, the checker refuses exactly the trees holding a `Select` without a
default value outside the conditions of `Select`s. -/
theorem mutate_true_eq : ∀ e : ExprShape, mutate true e =
    if e.selectWithoutDefault false then .error selectWithoutDefaultMessage else .ok ()
  | .undef => rfl
  | .select _ t f => by
      rw [mutate, mutate_ifDefined, mutate_true_eq t, mutate_true_eq f]
      simp only [pure_bind, throw_bind, bind_refuse, refuse_or, assert_refuse,
        selectWithoutDefault, Bool.not_true, Bool.or_false, Bool.false_and, Bool.or_assoc]
  | .letE v b => by
      simp only [mutate, mutate_true_eq v, mutate_true_eq b, selectWithoutDefault, bind_refuse,
        refuse_or]
  | .node cs => by simpa only [mutate, selectWithoutDefault] using mutateChildren_eq cs
/-- The children of a node are refused exactly when one of them is. -/
theorem mutateChildren_eq : ∀ es : List ExprShape, mutateChildren es =
    if selectWithoutDefaultList false es then .error selectWithoutDefaultMessage else .ok ()
  | [] => rfl
  | e :: es => by
      simp only [mutateChildren, mutate_true_eq e, mutateChildren_eq es,
        selectWithoutDefaultList, bind_refuse, refuse_or]
end

/-- At the root, the checker refuses exactly the trees holding a `Select` without a
default value below the root and the `Let` bodies standing there, outside the
conditions of `Select`s. -/
theorem mutate_false_eq : ∀ e : ExprShape, mutate false e =
    if e.nestedSelectWithoutDefault false then .error selectWithoutDefaultMessage else .ok ()
  | .undef => rfl
  | .select _ t f => by
      rw [mutate, mutate_ifDefined, mutate_true_eq t, mutate_true_eq f]
      simp only [pure_bind, throw_bind, bind_refuse, refuse_or, assert_refuse,
        nestedSelectWithoutDefault, Bool.not_false, Bool.or_true, Bool.not_true,
        Bool.false_and, Bool.false_or, ite_true]
  | .letE v b => by
      simp only [mutate, mutate_true_eq v, mutate_false_eq b, nestedSelectWithoutDefault,
        bind_refuse, refuse_or]
  | .node cs => mutate_true_eq (.node cs)

end CheckSelectsWithoutDefaults

/-- **The law of `check_selects_without_defaults`.** It fails, with its one message,
exactly when a `Select` without a default value sits below the root and the bodies of
the `Let`s standing there, in a position its traversal reaches: anywhere but the
condition of a `Select`. -/
theorem checkSelectsWithoutDefaults_eq (e : ExprShape) : checkSelectsWithoutDefaults e =
    if e.nestedSelectWithoutDefault false then .error selectWithoutDefaultMessage else .ok () :=
  CheckSelectsWithoutDefaults.mutate_false_eq e

/-- `select(select(c, true), 2, 3)`: a `Select` without a default value is the condition
of another `Select`. -/
def selectInCondition : Expr :=
  .select (.select (.var .bool "c") (.boolImm true) .undef) (.intImm 2) (.intImm 3)

/-- In `selectInCondition` a `Select` without a default value sits at a position other
than the root, and the check accepts it. -/
theorem select_condition_unchecked :
    selectInCondition.shape.nestedSelectWithoutDefault true = true ∧
      checkSelectsWithoutDefaults selectInCondition.shape = .ok () :=
  ⟨rfl, rfl⟩

end HalideSchedule
