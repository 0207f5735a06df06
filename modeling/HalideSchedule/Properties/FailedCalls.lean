import HalideSchedule.Schedule.Run

/-!
# HalideSchedule.Properties.FailedCalls

**What a failed directive leaves behind.** No directive rolls back: each writes as
it goes, and a user error raised after a write leaves that write on the stage. Most
checks run before any write; the late ones are

* the three tail-strategy checks of `split`, after the Dimension List was rewritten;
* the inner lookup of `fuse`, after the outer dimension was erased;
* the history scan of `rename`, after the dimension was renamed;
* the race gate and the vectorization check of `set_dim_type`, after the dimensions
  before the failing one were marked;
* the `purify` on the intermediate and the `remove_dimension` calls of `rfactor`,
  after the replay rewrote the domain, the history, the arguments, the values and
  the predicate.

Outside `rfactor`, a late error leaves only the Dimension List written.
-/

namespace HalideSchedule

namespace Directive

/-- The user errors `d` can raise after it has written to the stage. -/
def LateError : Directive → UserError → Prop
  | split .., u => (∃ n, u = .splitRoundUpInUpdate n) ∨ (∃ n, u = .splitShiftInwardsInUpdate n) ∨
      ∃ n, u = .splitExactNeedsGuardWithIf n
  | fuse inner _ _, u => u = .fuseInnerNotFound inner.name
  | rename .., u => (∃ o f, u = .renameAlreadyFused o f) ∨ ∃ o, u = .renameAlreadySplit o
  | setDimType var _, u => u = .atomicNotAssociative ∨ u = .raceCondition var.name ∨
      ∃ n, u = .multipleVectorization var.name n
  | rfactor _, u => (∃ n, u = .purifyNotFound n) ∨ (∃ n, u = .removeNotFound n) ∨
      (∃ n f, u = .removeAlreadyFused n f) ∨ ∃ n, u = .removeAlreadySplit n
  | _, _ => False

/-- A failed directive left the stage as it was, or failed in one of its late checks;
outside `rfactor` it then wrote the Dimension List only. -/
theorem run_user_error {c : Collaborators} {s s' : Stage} {u : UserError} (d : Directive)
    (h : d.run c s = .error (.user u) s') :
    s' = s ∨ (d.LateError u ∧ ((∀ p, d ≠ .rfactor p) → s' = { s with dims := s'.dims })) := by
  cases d with
  | split old outer inner factor tail =>
    rcases Stage.split_error h with rfl | h
    · exact .inl rfl
    rcases Stage.splitNamed_error h with rfl | ⟨dims, n, u', -, hu, he, rfl⟩
    · exact .inl rfl
    cases he
    exact .inr ⟨(Stage.splitTail_error hu).imp (⟨n, ·⟩) (Or.imp (⟨n, ·⟩) (⟨n, ·⟩)),
      fun _ => rfl⟩
  | fuse inner outer fused =>
    obtain ⟨hd, rfl | hu⟩ := Stage.fuse_error h
    · exact .inl rfl
    · exact .inr ⟨hu, fun _ => hd⟩
  | rename old new =>
    obtain ⟨hd, rfl | hu⟩ := Stage.rename_error h
    · exact .inl rfl
    · exact .inr ⟨hu, fun _ => hd⟩
  | purify old new => exact .inl (Stage.purify_error h)
  | reorder vars => exact .inl (Stage.reorder_error h)
  | setDimType var t =>
    obtain ⟨hd, rfl | hu⟩ := Stage.setDimType_error h
    · exact .inl rfl
    · exact .inr ⟨hu, fun _ => hd⟩
  | setDimDeviceApi var api => exact .inl (Stage.setDimDeviceApi_error h)
  | allowRaceConditions => cases h
  | atomic override => cases h
  | rfactor preserved =>
    rcases Stage.rfactor_error (run_rfactor_error h) with rfl | hu
    · exact .inl rfl
    · exact .inr ⟨hu, fun hne => absurd rfl (hne preserved)⟩
  | specialize condition => exact .inl (Stage.specialize_error h)
  | specializeFail message => exact .inl (Stage.specializeFail_error h)
  | computeWith level align => exact .inl (Stage.computeWith_error h)

theorem run_user_error_parallel :
    ∃ s', (setDimType (.rvar "r$x" (by decide)) .parallel).run sumCollaborators
        (sumUpdate [.intImm 0, .intImm 0] [("r$x", .impureRVar)]) =
        .error (.user (.raceCondition "r$x")) s' ∧
      (s' = sumUpdate [.intImm 0, .intImm 0] [("r$x", .impureRVar)] ∨
        ((setDimType (.rvar "r$x" (by decide)) .parallel).LateError (.raceCondition "r$x") ∧
          ((∀ p, setDimType (.rvar "r$x" (by decide)) .parallel ≠ .rfactor p) →
            s' = { sumUpdate [.intImm 0, .intImm 0] [("r$x", .impureRVar)] with dims := s'.dims }))) :=
  ⟨_, rfl, run_user_error (c := sumCollaborators) _ rfl⟩

end Directive

/-- Two failed calls that leave their writes behind, on `f(0, 0) += h(r.x, r.y)`:
`parallel(r.x)` without `allow_race_conditions` or `atomic` fails in the race gate
with `r$x` already marked `Parallel`, and `split(r.x, o, i, ShiftInwards)` fails as
an update with the Dimension List already split. -/
theorem failed_calls_keep_writes :
    (∃ s', Stage.setDimType sumCollaborators (.rvar "r$x" (by decide)) .parallel
        (sumUpdate [.intImm 0, .intImm 0] [("r$x", .impureRVar)]) =
        .error (.user (.raceCondition "r$x")) s' ∧
      s'.dims ≠ (sumUpdate [.intImm 0, .intImm 0] [("r$x", .impureRVar)]).dims) ∧
    (∃ s', Stage.split sumCollaborators (.rvar "r$x" (by decide)) (.rvar "o" (by decide))
        (.rvar "i" (by decide)) (.intImm 2) .shiftInwards
        (sumUpdate [.intImm 0, .intImm 0] [("r$x", .impureRVar)]) =
        .error (.user (.splitShiftInwardsInUpdate "r$x")) s' ∧
      s'.dims ≠ (sumUpdate [.intImm 0, .intImm 0] [("r$x", .impureRVar)]).dims) :=
  ⟨⟨_, rfl, by decide⟩, ⟨_, rfl, by decide⟩⟩

end HalideSchedule
