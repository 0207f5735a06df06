import HalideSchedule.Schedule.Run

/-!
# HalideSchedule.Properties.Algorithm

**Scheduling does not change the algorithm.** An update definition says what is
computed: its arguments (the left-hand side), its values, its predicate and its
reduction domain. The directives say how: they write the Dimension List, the Split
History, the two escape hatches, the fuse level and the specializations. Every
directive but `rfactor` leaves the first group as it is (`Directive.run_frame`), so a
schedule without `rfactor` ends on a definition that computes what the one it started
from computes. `rfactor` is the directive that rewrites the definition itself: it moves
part of the reduction into a new function.
-/

namespace HalideSchedule

/-- What an update definition computes: its arguments, values, predicate and reduction
domain. -/
def Stage.algorithm (s : Stage) : List Expr × List Expr × List Expr × List ReductionVariable :=
  (s.args, s.values, s.predicate, s.rvars)

/-- A directive other than `rfactor` writes only the schedule. -/
theorem Directive.run_frame {c : Collaborators} {s s' : Stage} (d : Directive)
    (hd : ∀ p, d ≠ .rfactor p) (h : d.run c s = .ok () s') :
    s' = { s with dims := s'.dims, splits := s'.splits,
                  allowRaceConditions := s'.allowRaceConditions, atomic := s'.atomic,
                  overrideAtomicAssociativityTest := s'.overrideAtomicAssociativityTest,
                  fuseLevel := s'.fuseLevel, specializations := s'.specializations } := by
  cases d with
  | split old outer inner factor tail =>
    obtain ⟨_, _, _, -, -, rfl⟩ := Stage.splitNamed_ok (Stage.split_ok h)
    rfl
  | fuse inner outer fused =>
    obtain ⟨-, -, -, -, -, -, -, rfl⟩ := Stage.fuse_ok h
    rfl
  | rename old new =>
    obtain ⟨_, _, _, -, rfl, -⟩ := Stage.rename_ok h
    rfl
  | purify old new =>
    obtain ⟨_, _, -, rfl⟩ := Stage.purify_ok h
    rfl
  | reorder vars =>
    obtain ⟨_, _, rfl⟩ := Stage.reorder_ok h
    rfl
  | setDimType var t =>
    obtain ⟨rfl, -⟩ := Stage.setDimType_ok h
    rfl
  | setDimDeviceApi var api =>
    cases Stage.setDimDeviceApi_ok h
    rfl
  | allowRaceConditions | atomic _ => cases h; rfl
  | rfactor preserved => exact absurd rfl (hd preserved)
  | specialize condition => rcases Stage.specialize_ok h with rfl | ⟨-, rfl⟩ <;> rfl
  | specializeFail message =>
    obtain ⟨-, rfl⟩ := Stage.specializeFail_ok h
    rfl
  | computeWith level align =>
    obtain ⟨-, rfl⟩ := Stage.computeWith_ok h
    rfl

/-- A successful schedule without `rfactor` ends on a definition that computes what the
one it started from computes. -/
theorem schedule_keeps_algorithm {c : Collaborators} :
    ∀ (ds : List Directive) {s s' : Stage}, (∀ d ∈ ds, ∀ p, d ≠ .rfactor p) →
      Directive.runAll c ds s = .ok () s' → s'.algorithm = s.algorithm
  | [], _, _, _, h => by cases h; rfl
  | d :: ds, s, s', hds, h => by
    simp only [Directive.runAll] at h
    split at h
    · next s1 hd =>
      calc s'.algorithm = s1.algorithm :=
            schedule_keeps_algorithm ds (fun d' hd' => hds d' (.tail _ hd')) h
        _ = s.algorithm := by rw [d.run_frame (hds d (.head _)) hd]; rfl
    · cases h

/-- `tile(x, y, xo, yo, xi, yi, 4, 4)` on `f(x, y) += h(r.x, r.y)`. -/
theorem schedule_keeps_algorithm_tile :
    let ds := Directive.tile (.var "x" (by decide)) (.var "y" (by decide))
      (.var "xo" (by decide)) (.var "yo" (by decide)) (.var "xi" (by decide))
      (.var "yi" (by decide)) (.intImm 4) (.intImm 4) .guardWithIf
    let s := sumUpdate [.ofVar "x", .ofVar "y"] [("x", .pureVar), ("y", .pureVar)]
    ∃ s', Directive.runAll sumCollaborators ds s = .ok () s' ∧ s'.algorithm = s.algorithm := by
  intro ds s
  exact ⟨_, rfl, schedule_keeps_algorithm ds (by simp [ds, Directive.tile]) rfl⟩

end HalideSchedule
