import HalideSchedule.Schedule.Run

/-!
# HalideSchedule.Properties.Replay

**The two views of the reduction domain that `rfactor` relies on.** The directives
edit the Dimension List by name matching (`var_name_match`, first or last match),
while `rfactor` rebuilds the reduction variables by replaying the Split History with
`apply_split_directive`, which finds variables by exact name. `rfactor` checks the
preserved names against the Dimension List, then looks them up in the replayed
domain, and asserts that the counts agree. The two views part once one name stands
for two dimensions, which `split` and `rename` allow (`names_collide`):

* after `rename(r.x, r.y)` the name `r$y` matches two reduction dimensions, both are
  kept, and `f_load_args.size() == init_args.size()` fails;
* after `split(r.x, a, a)` and `fuse(a, a, w)`, `apply_fuse` finds the inner and the
  outer variable at one position, writes the fused one there and then erases it: the
  replayed domain keeps `r$x.a` where the Dimension List has `r$x.a.w`, and the kept
  `w` that the checks accepted is not found (`rfactor_lookup_asserts`,
  `replay_disagrees`).
-/

namespace HalideSchedule

/-- `f(x, y) += h(r.x, r.y)` with the reduction dimensions `r$x`, `r$y` (pure) inside
`x` and `y`. -/
def sumRUpdate : Stage :=
  sumUpdate [.ofVar "x", .ofVar "y"]
    [("r$x", .pureRVar), ("r$y", .pureRVar), ("x", .pureVar), ("y", .pureVar)]

theorem sumRUpdate_reachable (c : Collaborators) : Reachable c sumRUpdate :=
  sumUpdate_reachable _ _ _

/-- The schedule `split(r.x, a, a, 2)`, `fuse(a, a, w)` on `sumRUpdate`. -/
def splitFuseSame : List Directive :=
  [.split (.rvar "r$x" (by decide)) (.rvar "a" (by decide)) (.rvar "a" (by decide)) (.intImm 2)
      .auto,
    .fuse (.rvar "a" (by decide)) (.rvar "a" (by decide)) (.rvar "w" (by decide))]

/-- Two reachable stages and a preserved list that pass every user-level check of
`rfactor`, on which `rfactor` fails an internal assertion. After `rename(r.x, r.y)`,
`rfactor(r.y, u)` keeps both reduction variables matching `r$y` for one preserved
pair, and `f_load_args` is one longer than `init_args`. After `split(r.x, a, a)` and
`fuse(a, a, w)`, `rfactor(w, u)` finds `w` in the Dimension List but not in the
replayed domain: the C++ dereferences the iterator `find` returned at the end. -/
theorem rfactor_lookup_asserts :
    (∃ s, Reachable sumCollaborators s ∧
      Stage.rfactorChecks sumCollaborators [(.rvar "r$y" (by decide), .var "u" (by decide))] s =
        .ok sumOp ∧
      ∃ s', Stage.rfactor sumCollaborators [(.rvar "r$y" (by decide), .var "u" (by decide))] s =
        .error (.internal "f_load_args.size()") s') ∧
    (∃ s, Reachable sumCollaborators s ∧
      Stage.rfactorChecks sumCollaborators [(.rvar "w" (by decide), .var "u" (by decide))] s =
        .ok sumOp ∧
      ∃ s', Stage.rfactor sumCollaborators [(.rvar "w" (by decide), .var "u" (by decide))] s =
        .error (.internal "iterator into rvars_kept not found") s') :=
  ⟨⟨_, Reachable.runAll [.rename (.rvar "r$x" (by decide)) (.rvar "r$y" (by decide))]
      (sumRUpdate_reachable _) rfl, rfl, _, rfl⟩,
    ⟨_, Reachable.runAll splitFuseSame (sumRUpdate_reachable _) rfl, rfl, _, rfl⟩⟩

/-- After `split(r.x, a, a)` and `fuse(a, a, w)` on `sumRUpdate`, replaying the Split
History on the reduction domain gives the names `r$x.a`, `r$y`, while the reduction
dimensions are `r$x.a.w`, `r$y`; no replayed variable matches `w`. -/
theorem replay_disagrees :
    ∃ s, Reachable sumCollaborators s ∧
      (ApplySplit.replay sumCollaborators s.splits s.rvars ⟨s.predicate, s.args, s.values⟩).1.map
          (·.var) = ["r$x.a", "r$y"] ∧
      (s.dims.filter (·.isRVar)).map (·.var) = ["r$x.a.w", "r$y"] ∧
      ¬((ApplySplit.replay sumCollaborators s.splits s.rvars
          ⟨s.predicate, s.args, s.values⟩).1.map (·.var)).Perm
        ((s.dims.filter (·.isRVar)).map (·.var)) ∧
      (ApplySplit.replay sumCollaborators s.splits s.rvars
          ⟨s.predicate, s.args, s.values⟩).1.all (!varNameMatch ·.var "w") :=
  ⟨_, Reachable.runAll splitFuseSame (sumRUpdate_reachable _) rfl, rfl, rfl, by decide, rfl⟩

end HalideSchedule
