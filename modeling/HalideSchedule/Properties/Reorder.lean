import HalideSchedule.Schedule.Run

/-!
# HalideSchedule.Properties.Reorder

**What `Stage::reorder` does to the Dimension List and to the `compute_with` level.**
`reorder` resolves each listed name to the last dimension it matches (`idx`), sorts a
copy of the indices (`sorted`) and writes `dims[sorted[i]] = dims_old[idx[i]]`. Nothing
checks that the resolved indices are distinct: a name listed twice writes one slot
twice, and the dimension whose slot it takes is lost (`reorder_repeated_name_drops`).

When the stage is the source of a `compute_with`, the fuse level is moved to the name
now in the slot of the dimension it matched, and that name is looked up again among
the listed handles with `var_name_match`, its arguments swapped. A qualified name left
by an earlier `split` reaches `var_name_match` as its second argument, whose assertion
refuses it, even when nothing moved; and the fallback to the innermost dimension fails
`internal_assert(found)` when that dimension is not listed
(`reorder_retarget_asserts`).
-/

namespace HalideSchedule

/-- `f(x, y) += h(r.x, r.y)` scheduled over its pure dimensions `x`, `y` only. -/
def sumPureUpdate : Stage :=
  sumUpdate [.ofVar "x", .ofVar "y"] [("x", .pureVar), ("y", .pureVar)]

/-- On `sumPureUpdate`, whose dimensions are `x`, `y`, `__outermost`, `reorder(y, x, x)`
resolves its names to `[1, 0, 0]` and succeeds, leaving `[x, x, __outermost]`: `y` is
gone. -/
theorem reorder_repeated_name_drops :
    ∃ s', Stage.reorder sumCollaborators
        [.var "y" (by decide), .var "x" (by decide), .var "x" (by decide)] sumPureUpdate =
          .ok () s' ∧
      sumPureUpdate.dims.map (·.var) = ["x", "y", "__outermost"] ∧
      s'.dims.map (·.var) = ["x", "x", "__outermost"] ∧ ¬s'.dims.Perm sumPureUpdate.dims := by
  refine ⟨_, rfl, rfl, rfl, fun h => ?_⟩
  have := (h.map (·.var)).mem_iff.2 (show "y" ∈ sumPureUpdate.dims.map (·.var) by decide)
  revert this
  decide

/-- Two stages reached by a schedule, each with a `compute_with` to `g`, on which a
`reorder` that moves nothing fails an internal assertion. After `split(x, xo, xi, 4)`
and `compute_with(g, xo)`, `reorder(xi)` finds `x.xo` in the slot of the fused
dimension and passes it to `var_name_match` as the unqualified name. After
`compute_with(g, z)` alone, no dimension matches `z`, the innermost `x` is taken, and
`reorder(y)` does not list it. -/
theorem reorder_retarget_asserts :
    (∃ s, Reachable sumCollaborators s ∧
      s.fuseLevel.level = .at "g" (.var "xo" (by decide)) 0 ∧
      s.dims.map (·.var) = ["x.xi", "x.xo", "y", "__outermost"] ∧
      Stage.reorderDims s.dims [0] = s.dims ∧
      Stage.reorder sumCollaborators [.var "xi" (by decide)] s =
        .error (.internal "var_name_match expects unqualified names for the second argument") s) ∧
    (∃ s, Reachable sumCollaborators s ∧
      s.fuseLevel.level = .at "g" (.var "z" (by decide)) 0 ∧
      s.dims.map (·.var) = ["x", "y", "__outermost"] ∧
      Stage.reorderDims s.dims [1] = s.dims ∧
      Stage.reorder sumCollaborators [.var "y" (by decide)] s = .error (.internal "found") s) :=
  ⟨⟨_, Reachable.runAll
      [.split (.var "x" (by decide)) (.var "xo" (by decide)) (.var "xi" (by decide)) (.intImm 4)
          .auto,
        .computeWith (.at "g" (.var "xo" (by decide)) 0) []]
      (sumUpdate_reachable _ [.ofVar "x", .ofVar "y"] [("x", .pureVar), ("y", .pureVar)]) rfl,
      rfl, rfl, rfl, rfl⟩,
    ⟨_, Reachable.runAll [.computeWith (.at "g" (.var "z" (by decide)) 0) []]
      (sumUpdate_reachable _ [.ofVar "x", .ofVar "y"] [("x", .pureVar), ("y", .pureVar)]) rfl,
      rfl, rfl, rfl, rfl⟩⟩

end HalideSchedule
