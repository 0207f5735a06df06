import HalideSchedule.Schedule.Run

/-!
# HalideSchedule.Properties.DimensionList

**What the directives keep of the Dimension List between calls.** Each check of a
directive looks at the list as it stands at that call, and nothing re-checks it
afterwards:

* `set_dim_type(v, Vectorized)` refuses when a dimension not matching `v` is already
  `Vectorized` and then marks every dimension matching `v`, so right after it the
  vectorized entries are exactly the ones `v` names (`vectorize_marks_exactly`); but
  `split` copies the loop type into both halves (`split_copies_vectorized`);
* only `split` checks its new names against the list, and it accepts equal inner and
  outer names; `rename`, `purify` and `fuse` check none (`names_collide`);
* `reorder` asks the prover about pairs of listed impure reduction variables only,
  while the permutation moves listed dimensions across unlisted ones
  (`reorder_moves_unlisted_rvar`).
-/

namespace HalideSchedule

/-! ### Vectorized loops -/

/-- Right after a successful `set_dim_type(v, Vectorized)`, an entry of the Dimension
List is `Vectorized` exactly when it matches `v`. -/
theorem vectorize_marks_exactly {c : Collaborators} {var : VarOrRVar} {s s' : Stage}
    (h : Stage.setDimType c var .vectorized s = .ok () s') :
    ∀ d ∈ s'.dims, d.forType = .vectorized ↔ varNameMatch d.var var.name = true := by
  obtain ⟨rfl, -, hvec⟩ := Stage.setDimType_ok h
  intro e he
  obtain ⟨d, hd, rfl⟩ := List.mem_map.1 he
  by_cases hm : varNameMatch d.var var.name = true
  · simp [hm]
  · simp only [hm, if_false, Bool.false_eq_true, iff_false]
    exact hvec rfl d hd (by simpa using hm)

theorem vectorize_marks_exactly_sumUpdate :
    ∃ s', Stage.setDimType sumCollaborators (.var "x" (by decide)) .vectorized
        (sumUpdate [.ofVar "x", .intImm 0] [("x", .pureVar)]) = .ok () s' ∧
      ∀ d ∈ s'.dims, d.forType = .vectorized ↔ varNameMatch d.var "x" = true :=
  ⟨_, rfl, @vectorize_marks_exactly sumCollaborators (.var "x" (by decide))
    (sumUpdate [.ofVar "x", .intImm 0] [("x", .pureVar)]) _ rfl⟩

/-- `vectorize(x)` then `split(x, o, i, 4)` on `f(x, 0) += h(r.x, r.y)` leaves both
halves of `x` vectorized. -/
theorem split_copies_vectorized :
    ∃ s, Reachable sumCollaborators s ∧ 1 < s.dims.countP (·.forType = .vectorized) :=
  ⟨_, Reachable.runAll
    [.setDimType (.var "x" (by decide)) .vectorized,
      .split (.var "x" (by decide)) (.var "o" (by decide)) (.var "i" (by decide)) (.intImm 4)
        .roundUp]
    (sumUpdate_reachable _ [.ofVar "x", .intImm 0] [("x", .pureVar)]) rfl, by decide⟩

/-! ### Names -/

/-- From `f(x, y) += h(r.x, r.y)` with the distinct names `x`, `y`, `__outermost`:
`split(x, a, a, 4)` passes the collision check and leaves `x.a` twice, and
`rename(x, y)` leaves `x.y` beside `y`; in both, one name matches two dimensions. -/
theorem names_collide :
    (∃ s, Reachable sumCollaborators s ∧ 1 < s.dims.countP (varNameMatch ·.var "a")) ∧
    (∃ s, Reachable sumCollaborators s ∧ 1 < s.dims.countP (varNameMatch ·.var "y")) :=
  ⟨⟨_, Reachable.runAll
      [.split (.var "x" (by decide)) (.var "a" (by decide)) (.var "a" (by decide)) (.intImm 4)
        .roundUp]
      (sumUpdate_reachable _ [.ofVar "x", .ofVar "y"] [("x", .pureVar), ("y", .pureVar)]) rfl,
      by decide⟩,
    ⟨_, Reachable.runAll [.rename (.var "x" (by decide)) (.var "y" (by decide))]
      (sumUpdate_reachable _ [.ofVar "x", .ofVar "y"] [("x", .pureVar), ("y", .pureVar)]) rfl,
      by decide⟩⟩

/-! ### Reduction order under `reorder` -/

/-- On `f(x, 0) += h(x, r.x, r.y)`, whose dimensions are `r$x`, `r$y` (impure) and `x`,
`reorder(x, r.x)` asks the prover nothing, since `x` is pure, and succeeds with a
prover that certifies nothing; yet it swaps `r$x` past `r$y`. -/
theorem reorder_moves_unlisted_rvar :
    ∃ s s', Reachable unprovenCollaborators s ∧
      Stage.reorder unprovenCollaborators [.var "x" (by decide), .rvar "r$x" (by decide)] s =
        .ok () s' ∧
      (s.dims.filter (·.dimType = .impureRVar)).map (·.var) = ["r$x", "r$y"] ∧
      (s'.dims.filter (·.dimType = .impureRVar)).map (·.var) = ["r$y", "r$x"] :=
  ⟨_, _, sumUpdate_reachable _ [.ofVar "x", .intImm 0]
    [("r$x", .impureRVar), ("r$y", .impureRVar), ("x", .pureVar)], rfl, by decide, by decide⟩

end HalideSchedule
