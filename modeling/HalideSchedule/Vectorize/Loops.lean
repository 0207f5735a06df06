import HalideSchedule.Vectorize.Stmt

/-!
# HalideSchedule.Vectorize.Loops

**`VectorizeLoops` and the statement visitors of `VectorSubs`.** `VectorizeLoops` replaces
a loop marked `Vectorized`, of constant extent `n > 1`, by its body with the loop variable
`x` substituted by `Ramp(min, 1, n)` (`VectorSubs`); an extent that is not such a constant
is a user error. On statements, `VectorSubs`:

* `LetStmt` — widens the value; a value that became a vector renames the `LetStmt` with
  the widening suffix, enters `scope` (so uses of the name are renamed) and
  `containing_lets` (so code that is scalarized can rebind the original), and afterwards
  defines the lanes and the bounds its body asks for (`laneLets`);
* `Store` — widens the value, the index and the predicate to the widest of the three;
* `AssertStmt` — scalarizes an assertion whose condition is a vector, and keeps any other
  as it is;
* `IfThenElse` — a vector condition is control flow that diverges across lanes: under
  `likely`, the vectorized `then` branch runs when the least lane of the condition,
  `bounds_of_lanes(c).min`, is true, and otherwise the statement without `likely`,
  scalarized; without `likely`, the statement is scalarized;
* `For` — an inner vectorized loop becomes serial; a loop whose `min` became a vector is
  rebased to `0` and visited again; a loop whose extent became a vector runs to the
  greatest lane of the extent, its body guarded by `likely(var < min + extent)`.

`scalarize` runs a statement once per lane, in an unrolled loop over `x`, under the
original `LetStmt`s of the widened ones around it. The predicated path of `IfThenElse`
(`PredicateLoadStore`) predicates stores only on Hexagon and Intel GPU targets; on every
other target `is_vectorized()` is false, which is the target modelled here.
-/

namespace HalideSchedule.Vectorize

namespace VectorSubs

/-- `LetStmt`s of `lets` around `s`, the first outermost. -/
def wrapLets (lets : List (String × VExpr)) (s : VStmt) : VStmt :=
  lets.foldr (fun l s => .letStmt l.1 l.2 s) s

/-- `scalarize(s)`: `s` under the original `LetStmt`s of the widened ones around it
(`containing_lets`, the first outermost), in a loop `Unrolled` over the loop variable
from the replacement's base for the replacement's lanes. A replacement that is not a
`Ramp` is the internal error "Expected replacement in VectorSubs to be a ramp". -/
def scalarize (vs : VectorSubs) (containing : List (String × VExpr)) (s : VStmt) :
    Option VStmt :=
  match vs.replacement with
  | .ramp base _ lanes =>
    some (.forLoop vs.var base (.intImm lanes) .unrolled (wrapLets containing s))
  | _ => none

/-- The end of the `LetStmt` visitor for a value that was widened to `value` and renamed
`name`: a `LetStmt` of `name.lane.i` to `extract_lane(value, i)` around the body for each
lane `i` it uses, then of `name.min_lane` and `name.max_lane` to the ends of
`bounds_of_lanes(value)` if the body uses them. -/
def laneLets (name : String) (value : VExpr) (body : VStmt) : VStmt :=
  let body := (List.range value.type.lanes).foldl (fun body i =>
    let laneName := name ++ ".lane." ++ toString i
    if body.usesVar laneName then .letStmt laneName (.extractLane value i) body else body) body
  let usesMin := body.usesVar (name ++ ".min_lane")
  let usesMax := body.usesVar (name ++ ".max_lane")
  let bounds := boundsOfLanes value
  let body := if usesMin then .letStmt (name ++ ".min_lane") bounds.min body else body
  if usesMax then .letStmt (name ++ ".max_lane") bounds.max body else body

theorem rebaseRank_le (s : VStmt) : s.rebaseRank ≤ 1 := by
  unfold VStmt.rebaseRank
  split
  · split <;> omega
  · omega

/-- A loop whose `min` became a vector does not start at `0`. -/
theorem rebaseRank_rebase {vs : VectorSubs} {scope : List (String × VExpr)} {name : String}
    {min min' extent : VExpr} {forType : ForType} {body : VStmt}
    (hm : vs.mutate scope min = some min') (hv : min'.type.lanes ≠ 1) :
    (VStmt.forLoop name min extent forType body).rebaseRank = 1 := by
  have : min ≠ .intImm 0 := by
    rintro rfl
    exact hv (Option.some.inj hm ▸ rfl)
  simp [VStmt.rebaseRank, this]

/-- The statement visitors of `VectorSubs`, with `scope` the `LetStmt`s and `Let`s whose
value was widened (innermost first) and `containing` their original bindings (outermost
first). A statement whose parts did not change is returned as it was (`same_as`). -/
def mutateStmt (vs : VectorSubs) (scope containing : List (String × VExpr)) (s : VStmt) :
    Option VStmt :=
  match s with
  | .letStmt n v body => do
    let v' ← vs.mutate scope v
    let widened := decide (v.type.lanes = 1 ∧ v'.type.lanes ≠ 1)
    let name := if widened then n ++ vs.wideningSuffix else n
    let body' ← vs.mutateStmt (if widened then (n, v') :: scope else scope)
      (if widened then containing ++ [(n, v)] else containing) body
    let body' := if widened then laneLets name v' (body'.replaceShuffleVectors name) else body'
    if v' = v ∧ body' = body then return s else return .letStmt name v' body'
  | .store name value index predicate => do
    let predicate' ← vs.mutate scope predicate
    let value' ← vs.mutate scope value
    let index' ← vs.mutate scope index
    if predicate' = predicate ∧ value' = value ∧ index' = index then return s
    else
      let lanes := Max.max predicate'.type.lanes (Max.max value'.type.lanes index'.type.lanes)
      return .store name (← widen value' lanes) (← widen index' lanes)
        (← widen predicate' lanes)
  | .assertStmt c => if 1 < c.type.lanes then vs.scalarize containing s else some s
  | .ifThenElse c a b => do
    let c' ← vs.mutate scope c
    let a' ← vs.mutateStmt scope containing a
    let b' ← vs.mutateStmt scope containing b
    if 1 < c'.type.lanes then
      match c, c' with
      | .likely l, .likely l' =>
        let allTrue := VExpr.likely (boundsOfLanes l').min
        return .ifThenElse allTrue a' (← vs.scalarize containing (.ifThenElse l a b))
      | _, _ => vs.scalarize containing s
    else if c' = c ∧ a' = a ∧ b' = b then return s
    else return .ifThenElse c' a' b'
  | .forLoop name min extent forType body =>
    let forType' := if forType = .vectorized then .serial else forType
    match _hm : vs.mutate scope min with
    | none => none
    | some min' =>
      match vs.mutate scope extent with
      | none => none
      | some extent' =>
        if _hv : min'.type.lanes ≠ 1 then
          vs.mutateStmt scope containing (.forLoop name (.intImm 0) extent forType'
            (body.substitute name (.add (.var ⟨.int, 1⟩ name) min)))
        else if extent'.type.lanes ≠ 1 then do
          let guard := VExpr.likely (.cmp .lt (.var ⟨.int, 1⟩ name) (.add min extent))
          let body' ← vs.mutateStmt scope containing (.ifThenElse guard body .undef)
          return .forLoop name min' (boundsOfLanes extent').max forType' body'
        else do
          let body' ← vs.mutateStmt scope containing body
          if min' = min ∧ extent' = extent ∧ body' = body ∧ forType' = forType then return s
          else return .forLoop name min' extent' forType' body'
  | .block a b => do
    return .block (← vs.mutateStmt scope containing a) (← vs.mutateStmt scope containing b)
  | .undef => some .undef
termination_by 2 * s.size + s.rebaseRank
decreasing_by
  all_goals simp_wf
  all_goals first
    | have h := rebaseRank_le body; simp only [VStmt.size]; omega
    | have h := rebaseRank_le a; simp only [VStmt.size]; omega
    | have h := rebaseRank_le b; simp only [VStmt.size]; omega
    | simp only [VStmt.size, VStmt.rebaseRank_ifThenElse]; omega
    | have h := @rebaseRank_rebase vs scope name min min' extent forType body _hm _hv
      simp only [VStmt.size, VStmt.size_substitute, VStmt.rebaseRank_zero] at h ⊢
      omega

end VectorSubs

/-- The errors of `VectorizeLoops`. -/
inductive VectorizeError
  /-- The `user_error` "Loop over `name` has extent `extent`. Can only vectorize loops over
  a constant extent > 1". -/
  | extentNotConstant (name : String) (extent : VExpr)
  /-- An internal error of `VectorSubs`: `widen`'s "Mismatched vector lanes in VectorSubs",
  the scalar operands `Ramp::make` and `Broadcast::make` assert, or `scalarize`'s ramp. -/
  | internal
  deriving Repr, DecidableEq

/-- `vectorize_loops`: each loop marked `Vectorized` is replaced by its body vectorized over
`Ramp(min, 1, extent)`, which needs a constant extent greater than one; every other
statement is rebuilt on its visited children (`IRMutator`). The body of a vectorized loop
is not visited by this pass first: a vectorized loop inside it is made serial by
`VectorSubs`. -/
def vectorizeLoops : VStmt → Except VectorizeError VStmt
  | .forLoop name min extent forType body =>
    if forType = .vectorized then
      match extent with
      | .intImm e =>
        if e ≤ 1 then .error (.extentNotConstant name extent)
        else match (VectorSubs.ofLoop name min e.toNat).mutateStmt [] [] body with
          | some s => .ok s
          | none => .error .internal
      | _ => .error (.extentNotConstant name extent)
    else do return .forLoop name min extent forType (← vectorizeLoops body)
  | .letStmt n v body => do return .letStmt n v (← vectorizeLoops body)
  | .block a b => do return .block (← vectorizeLoops a) (← vectorizeLoops b)
  | .ifThenElse c a b => do return .ifThenElse c (← vectorizeLoops a) (← vectorizeLoops b)
  | s@(.assertStmt _) | s@(.store _ _ _ _) | s@.undef => .ok s

end HalideSchedule.Vectorize
