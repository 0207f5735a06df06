import HalideSchedule.Schedule.Run

/-!
# HalideSchedule.Properties.SplitFuse

**`split` followed by `fuse` of its two halves.** `split(v, vo, vi, f)` replaces the
first dimension matching `v` by `v.vi` and `v.vo`, in that order, both copies of it
(except that an `Extern` outer half is `Serial`). `fuse(vi, vo, w)` then erases `v.vo`
and renames `v.vi` to `v.vi.w`, keeping the inner half's fields and giving it the kind
both halves had. So the Dimension List comes back with one entry renamed in place
(`split_then_fuse`).

On the reduction domain the two history entries replay differently:
`apply_split` puts the inner variable over `[0, f)` and the outer one over
`[0, (E - 1 + f) / f)` right after it, and `apply_fuse` writes the fused variable over
their product into the outer one's slot and erases the inner one
(`replay_split_then_fuse`). The fused extent is `f * ceil(E / f)`, the least multiple of
`f` not below `E`, and is `E` exactly when `f` divides `E` (`ceilExtent_eq_iff`).
Values are read with `Expr.evalInt`, under a simplifier that keeps the value of every
expression that has one, as constant folding does.
-/

namespace HalideSchedule

/-- The value of an integer expression built from constants, in Halide's integer
arithmetic: division is Euclidean, as `Int` division is. Anything else has none. -/
def Expr.evalInt : Expr → Option Int
  | .intImm v => some v
  | .add a b => return (← a.evalInt) + (← b.evalInt)
  | .sub a b => return (← a.evalInt) - (← b.evalInt)
  | .mul a b => return (← a.evalInt) * (← b.evalInt)
  | .div a b => return (← a.evalInt) / (← b.evalInt)
  | _ => none

/-! ### The Dimension List -/

namespace Stage

theorem fusedDimType_self (t : DimType) : fusedDimType t t = t := by
  cases t <;> rfl

theorem splitHandleError_eq_none {old outer inner : VarOrRVar} (ho : outer.isRVar = old.isRVar)
    (hi : inner.isRVar = old.isRVar) : splitHandleError old outer inner = none := by
  unfold splitHandleError
  cases h : old.isRVar <;> simp_all

theorem fuseHandleError_eq_none {inner outer fused : VarOrRVar} (ho : outer.isRVar = inner.isRVar)
    (hf : fused.isRVar = inner.isRVar) : fuseHandleError inner outer fused = none := by
  unfold fuseHandleError
  cases h : inner.isRVar <;> simp_all

end Stage

/-- A name qualified by `x` matches no unqualified name but `x`. -/
theorem qualified_ne {a : String} {x y : VarOrRVar} (h : x.name ≠ y.name) :
    varNameMatch (a ++ "." ++ x.name) y.name = false := by
  simpa using fun hm => h (varNameMatch_inj (varNameMatch_qualified a x.name) hm)

/-- **`split(v, vo, vi, f)` then `fuse(vi, vo, w)`.** On any stage whose first dimension
matching `v` is `d`, with `vo` and `vi` distinct and matching no dimension, and handles
of one kind, both calls succeed; the Dimension List is the old one with `d` renamed
`d.vi.w` in its slot, and the history gains the split entry and the fuse entry. -/
theorem split_then_fuse (c : Collaborators) (s : Stage) (v vo vi w : VarOrRVar) (factor : Expr)
    {pre post : List Dim} {d : Dim}
    (hkind : vo.isRVar = v.isRVar ∧ vi.isRVar = v.isRVar ∧ w.isRVar = v.isRVar)
    (hdims : s.dims = pre ++ d :: post) (hpre : ∀ e ∈ pre, varNameMatch e.var v.name = false)
    (hd : varNameMatch d.var v.name)
    (hfresh : ∀ e ∈ s.dims, varNameMatch e.var vo.name = false ∧ varNameMatch e.var vi.name = false)
    (hne : vo.name ≠ vi.name) :
    ∃ t s1 s2, Stage.split c v vo vi factor .auto s = .ok () s1 ∧
      Stage.fuse vi vo w s1 = .ok () s2 ∧
      s2 = { s with
        dims := pre ++ { d with var := d.var ++ "." ++ vi.name ++ "." ++ w.name } :: post,
        splits := s.splits ++
          [⟨d.var, d.var ++ "." ++ vo.name, d.var ++ "." ++ vi.name, factor, v.isRVar, t, .splitVar⟩,
           ⟨d.var ++ "." ++ vi.name ++ "." ++ w.name, d.var ++ "." ++ vo.name,
             d.var ++ "." ++ vi.name, .undef, true, .roundUp, .fuseVars⟩] } := by
  obtain ⟨t, ht⟩ := Stage.splitTail_auto c s d.var factor v.isRVar
  have hfpre : ∀ e ∈ pre, varNameMatch e.var vo.name = false ∧ varNameMatch e.var vi.name = false :=
    fun e he => hfresh e (hdims ▸ List.mem_append_left _ he)
  refine ⟨t, { s with
    dims := pre ++ { d with var := d.var ++ "." ++ vi.name } ::
      { d with var := d.var ++ "." ++ vo.name,
               forType := if d.forType = .externLoop then .serial else d.forType } :: post,
    splits := s.splits ++
      [⟨d.var, d.var ++ "." ++ vo.name, d.var ++ "." ++ vi.name, factor, v.isRVar, t, .splitVar⟩] },
    _, ?_, ?_, rfl⟩
  · rw [Stage.split, Stage.splitHandleError_eq_none hkind.1 hkind.2.1]
    dsimp only
    rw [Stage.splitNamed, Stage.splitCollision_eq_none hfresh, hdims,
      Stage.splitDims_append hpre hd]
    dsimp only
    rw [ht]
  · rw [Stage.fuse, Stage.fuseHandleError_eq_none (hkind.1.trans hkind.2.1.symm)
      (hkind.2.2.trans hkind.2.1.symm)]
    dsimp only
    rw [List.append_cons pre, Stage.eraseFirstMatch_append ?_ (varNameMatch_qualified _ _)]
    · dsimp only
      rw [List.append_assoc, List.singleton_append,
        Stage.updateFirstMatch_append (fun e he => (hfpre e he).2) (varNameMatch_qualified _ _)]
      simp [Stage.fuseInner, Stage.fusedDimType_self, Dim.isRVar]
    · intro e he
      rcases List.mem_append.1 he with he | he
      · exact (hfpre e he).1
      · rw [List.mem_singleton.1 he]
        exact qualified_ne (Ne.symm hne)

/-! ### The reduction domain -/

/-- **Replaying the two entries on the reduction variables.** With `d`'s variable over
`[rmin, rmin + extent)` and no earlier variable named `d`, `d.vo` or `d.vi`, the split
entry and then the fuse entry both apply, and leave one variable `d.vi.w` over
`[0, outer extent * factor)` in its slot. -/
theorem replay_split_then_fuse (c : Collaborators) {dv vo vi wn : String} {factor : Expr}
    {exact : Bool} {t : TailStrategy} {rpre rpost : List ReductionVariable} {rmin extent : Expr}
    (e : SplitExprs) (hne : vo ≠ vi)
    (hpre : ∀ r ∈ rpre, r.var ≠ dv ∧ r.var ≠ dv ++ "." ++ vo ∧ r.var ≠ dv ++ "." ++ vi) :
    ∃ e', ApplySplit.replay c
        [⟨dv, dv ++ "." ++ vo, dv ++ "." ++ vi, factor, exact, t, .splitVar⟩,
         ⟨dv ++ "." ++ vi ++ "." ++ wn, dv ++ "." ++ vo, dv ++ "." ++ vi, .undef, true, .roundUp,
           .fuseVars⟩]
        (rpre ++ ⟨dv, rmin, extent⟩ :: rpost) e =
      (rpre ++ ⟨dv ++ "." ++ vi ++ "." ++ wn, .intImm 0,
        .mul (c.simplify (.div (.add (.sub extent (.intImm 1)) factor) factor)) factor⟩ :: rpost,
        e', []) := by
  have hqual : dv ++ "." ++ vi ≠ dv ++ "." ++ vo := fun h =>
    hne (String.ext (List.append_cancel_left (congrArg String.data h)).symm)
  simp only [ApplySplit.replay, ApplySplit.applySplitDirective, ApplySplit.updateRVars]
  rw [ApplySplit.splitRVars_append c (fun r hr => (hpre r hr).1) ?_]
  · simp only [Option.map_some']
    rw [ApplySplit.fuseRVars_adjacent (fun r hr => (hpre r hr).2) ?_ ?_ hqual]
    · exact ⟨_, rfl⟩
    all_goals rfl
  · rfl

/-! ### The fused extent -/

section CeilExtent

variable {E f : Int}

/-- The fused extent `f * ((E - 1 + f) / f)` is the least multiple of `f` not below
`E`, that is `f * ceil(E / f)`. -/
theorem ceilExtent_bounds (hf : 1 ≤ f) :
    E ≤ f * ((E - 1 + f) / f) ∧ f * ((E - 1 + f) / f) < E + f := by
  have h := Int.emod_add_ediv (E - 1 + f) f
  have h0 := Int.emod_nonneg (E - 1 + f) (by omega : f ≠ 0)
  have h1 := Int.emod_lt_of_pos (E - 1 + f) (by omega : 0 < f)
  omega

/-- The fused extent is `E` exactly when `f` divides `E`. -/
theorem ceilExtent_eq_iff (hf : 1 ≤ f) : f * ((E - 1 + f) / f) = E ↔ f ∣ E := by
  refine ⟨fun h => ⟨_, h.symm⟩, fun ⟨k, hk⟩ => ?_⟩
  subst hk
  rw [show f * k - 1 + f = f - 1 + k * f by rw [Int.mul_comm k f]; omega, Int.add_mul_ediv_right _ _ (by omega),
    Int.ediv_eq_zero_of_lt (by omega) (by omega), Int.zero_add]

end CeilExtent

/-! ### The law -/

end HalideSchedule
