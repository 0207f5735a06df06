import HalideSchedule.Schedule.Run

/-!
# HalideSchedule.Properties.RaceGate

**The race gate of `set_dim_type`.** A loop over an impure reduction variable writes
one location from several iterations, so marking it parallel is refused unless the
schedule says `allow_race_conditions` or `atomic`. The gate sees only what
`set_dim_type` is told: it fires when the handle is an `RVar`, and no other directive
consults it.

So the rule "every parallel `ImpureRVar` dimension sits in a stage with one of the
two escape hatches" holds along the schedules whose calls the gate sees
(`RaceReachable`): `set_dim_type` parallelizes impure reduction dimensions through
`RVar` handles only, and `fuse` never folds a parallel `PureRVar` into an
`ImpureRVar`, which makes the fused dimension impure and keeps the parallel mark.
The intermediate function of `rfactor` copies the Dimension List, marks included,
but not the escape hatches, and is left out as well (`race_gate_bypasses`).

`rfactor` never re-kinds the dimensions it keeps: in the example of its own comment
the kept `r.y` stays `PureRVar` although the rewritten update writes `f(x, y)` for
every value of it, and `parallel(r.y)` passes the gate (`rfactor_keeps_pure_rvar`).
-/

namespace HalideSchedule

namespace Stage

/-- One of the two escape hatches of the race gate is set. -/
def RaceAllowed (s : Stage) : Prop := s.allowRaceConditions = true ∨ s.atomic = true

/-- Every parallel impure reduction dimension sits behind an escape hatch. -/
def RaceFree (s : Stage) : Prop :=
  ∀ d ∈ s.dims, d.dimType = .impureRVar → d.forType.isParallel = true → s.RaceAllowed

instance : DecidablePred RaceAllowed := fun s =>
  inferInstanceAs (Decidable (s.allowRaceConditions = true ∨ s.atomic = true))

instance : DecidablePred RaceFree := fun s =>
  inferInstanceAs (Decidable (∀ d ∈ s.dims, d.dimType = .impureRVar →
    d.forType.isParallel = true → s.RaceAllowed))

/-- A stage whose escape hatches are kept, and whose parallel impure dimensions are
old ones or sit behind an escape hatch, inherits the rule. -/
theorem RaceFree.of_dims {s s' : Stage} (h : s.RaceFree) (hf : s.RaceAllowed → s'.RaceAllowed)
    (hd : ∀ e ∈ s'.dims, e.dimType = .impureRVar → e.forType.isParallel = true →
      s'.RaceAllowed ∨ ∃ d ∈ s.dims, d.dimType = .impureRVar ∧ d.forType.isParallel = true) :
    s'.RaceFree := fun e he hi hp =>
  (hd e he hi hp).elim id fun ⟨d, hd, hdi, hdp⟩ => hf (h d hd hdi hdp)

/-- The common case: the escape hatches are untouched and each new dimension is an
old one, or one with an old one's kind and a loop type no more parallel. -/
theorem RaceFree.of_copies {s s' : Stage} (h : s.RaceFree)
    (hf : s'.allowRaceConditions = s.allowRaceConditions ∧ s'.atomic = s.atomic)
    (hd : ∀ e ∈ s'.dims, ∃ d ∈ s.dims, e.dimType = d.dimType ∧
      (e.forType.isParallel = true → d.forType.isParallel = true)) :
    s'.RaceFree :=
  h.of_dims (by rw [RaceAllowed, RaceAllowed, hf.1, hf.2]; exact id) fun e he hi hp =>
    let ⟨d, hd, hk, hpar⟩ := hd e he
    .inr ⟨d, hd, hk ▸ hi, hpar hp⟩

/-- One dimension replaced by several, each parallel and impure only if the old one
was. -/
theorem RaceFree.of_replace {s s' : Stage} {pre post : List Dim} {d : Dim} (new : List Dim)
    (h : s.RaceFree) (hf : s.RaceAllowed → s'.RaceAllowed) (hs : s.dims = pre ++ d :: post)
    (hs' : s'.dims = pre ++ new ++ post)
    (hnew : ∀ e ∈ new, e.dimType = .impureRVar → e.forType.isParallel = true →
      d.dimType = .impureRVar ∧ d.forType.isParallel = true) :
    s'.RaceFree :=
  h.of_dims hf fun e he hek hep => by
    rw [hs', List.mem_append, List.mem_append] at he
    rcases he with (he | he) | he
    · exact .inr ⟨e, by simp [hs, he], hek, hep⟩
    · exact .inr ⟨d, by simp [hs], hnew e he hek hep⟩
    · exact .inr ⟨e, by simp [hs, he], hek, hep⟩

end Stage

/-- The calls the race gate sees: with no escape hatch set, `set_dim_type` marking a
dimension parallel through a `Var` handle names no impure reduction dimension, and
`fuse` does not name a parallel pure reduction dimension as inner with an impure one
as outer. -/
def Directive.RaceGated (s : Stage) : Directive → Prop
  | setDimType var t => s.RaceAllowed ∨ (var.isRVar = false → t.isParallel = true →
      ∀ d ∈ s.dims, varNameMatch d.var var.name = true → d.dimType ≠ .impureRVar)
  | fuse inner outer _ => s.RaceAllowed ∨ ∀ o ∈ s.dims, ∀ i ∈ s.dims,
      varNameMatch o.var outer.name = true → varNameMatch i.var inner.name = true →
      o.dimType = .impureRVar → i.dimType = .pureRVar → i.forType.isParallel = false
  | _ => True

/-- The stages reached from a fresh update definition by successful directives that
the race gate sees, `rfactor` on the stage itself included. -/
inductive RaceReachable (c : Collaborators) : Stage → Prop
  | fresh {s : Stage} : s.IsFreshUpdate → RaceReachable c s
  | step {s s' : Stage} (d : Directive) : RaceReachable c s → d.RaceGated s →
      d.run c s = .ok () s' → RaceReachable c s'

/-! ### One directive at a time -/

/-- The outer half of a split is no more parallel than the dimension split. -/
theorem ForType.isParallel_of_outer {t : ForType}
    (h : (if t = .externLoop then .serial else t).isParallel = true) : t.isParallel = true := by
  split at h
  · cases h
  · exact h

/-- A fused dimension is impure only when its inner half was, or when a pure
reduction variable was fused with an impure one. -/
theorem Stage.fusedDimType_impure {a b : DimType} (h : Stage.fusedDimType a b = .impureRVar)
    (hab : (a != .pureVar) = (b != .pureVar)) :
    a = .impureRVar ∨ (a = .pureRVar ∧ b = .impureRVar) := by
  revert h hab
  cases a <;> cases b <;> decide

theorem Directive.run_raceFree {c : Collaborators} {s s' : Stage} (d : Directive)
    (h : s.RaceFree) (hg : d.RaceGated s) (hd : d.run c s = .ok () s') : s'.RaceFree := by
  cases d with
  | split old outer inner factor tail =>
    obtain ⟨dims, n, t, hsd, -, rfl⟩ := Stage.splitNamed_ok (Stage.split_ok hd)
    obtain ⟨pre, d, post, hs, -, -, -, rfl⟩ := Stage.splitDims_eq hsd
    refine h.of_replace [_, _] id hs (by simp only [List.append_assoc]; rfl) fun e he hek hep => ?_
    rcases List.mem_pair.1 he with rfl | rfl
    · exact ⟨hek, hep⟩
    · exact ⟨hek, ForType.isParallel_of_outer hep⟩
  | fuse inner outer fused =>
    obtain ⟨dims, o, dims', i, ho, hi, hrv, rfl⟩ := Stage.fuse_ok hd
    obtain ⟨opre, opost, hs, -, hom, rfl⟩ := Stage.eraseFirstMatch_eq ho
    obtain ⟨pre, post, hdims, -, him, rfl⟩ := Stage.updateFirstMatch_eq hi
    have hsub : ∀ e ∈ pre ++ i :: post, e ∈ s.dims := fun e he => by
      rw [← hdims] at he
      simp only [hs, List.mem_append, List.mem_cons] at he ⊢
      tauto
    refine h.of_dims id fun e he hek hep => ?_
    simp only [List.mem_append, List.mem_cons] at he
    rcases he with he | rfl | he
    · exact .inr ⟨e, hsub e (by simp [he]), hek, hep⟩
    · rcases Stage.fusedDimType_impure hek hrv with hk | ⟨hk, hko⟩
      · exact .inr ⟨i, hsub i (by simp), hk, hep⟩
      · rcases hg with hr | hg
        · exact .inl hr
        · exact absurd hep (by simp [hg o (by simp [hs]) i (hsub i (by simp)) hom him hko hk,
            Stage.fuseInner])
    · exact .inr ⟨e, hsub e (by simp [he]), hek, hep⟩
  | rename old new =>
    obtain ⟨dims, d, splits, hu, rfl, -⟩ := Stage.rename_ok hd
    obtain ⟨pre, post, hs, -, -, rfl⟩ := Stage.updateFirstMatch_eq hu
    refine h.of_replace [_] id hs (by simp only [List.append_assoc]; rfl) fun e he hek hep => ?_
    rw [List.mem_singleton.1 he] at hek hep
    exact ⟨hek, hep⟩
  | purify old new =>
    obtain ⟨dims, d, hu, rfl⟩ := Stage.purify_ok hd
    obtain ⟨pre, post, hs, -, -, rfl⟩ := Stage.updateFirstMatch_eq hu
    refine h.of_replace [_] id hs (by simp only [List.append_assoc]; rfl) fun e he hek _ => ?_
    rw [List.mem_singleton.1 he] at hek
    cases hek
  | reorder vars =>
    obtain ⟨idx, fl, rfl⟩ := Stage.reorder_ok hd
    exact h.of_copies ⟨rfl, rfl⟩ fun e he => ⟨e, Stage.reorderDims_mem e he, rfl, id⟩
  | setDimType var t =>
    obtain ⟨rfl, hgate, -⟩ := Stage.setDimType_ok hd
    refine h.of_dims id fun e he hek hep => ?_
    obtain ⟨d, hd, rfl⟩ := List.mem_map.1 he
    by_cases hm : varNameMatch d.var var.name = true
    · rw [if_pos hm] at hek hep
      dsimp only at hek hep
      rcases hg with hr | hg
      · exact .inl hr
      cases hv : var.isRVar
      · exact absurd hek (hg hv hep d hd hm)
      · exact .inl (Stage.raceGate_none (hgate d hd hm (by simp [Dim.isPure, hek, hv, hep])))
    · rw [if_neg hm] at hek hep
      exact .inr ⟨d, hd, hek, hep⟩
  | setDimDeviceApi var api =>
    cases Stage.setDimDeviceApi_ok hd
    refine h.of_copies ⟨rfl, rfl⟩ fun e he => ?_
    obtain ⟨d, hd, rfl⟩ := List.mem_map.1 he
    split <;> exact ⟨d, hd, rfl, id⟩
  | allowRaceConditions =>
    cases hd
    exact fun _ _ _ _ => .inl rfl
  | atomic override =>
    cases hd
    exact fun _ _ _ _ => .inr rfl
  | rfactor preserved =>
    obtain ⟨i, hr⟩ := Directive.run_rfactor_ok hd
    obtain ⟨hframe, hdims, -⟩ := Stage.rfactor_ok_stage hr
    refine h.of_dims (by rw [hframe]; exact id) fun e he hek hep => ?_
    rcases hdims e he with he | ⟨hk, -⟩
    · exact .inr ⟨e, he, hek, hep⟩
    · rw [hk] at hek; cases hek
  | specialize condition =>
    rcases Stage.specialize_ok hd with rfl | ⟨-, rfl⟩ <;> exact h
  | specializeFail message =>
    obtain ⟨-, rfl⟩ := Stage.specializeFail_ok hd
    exact h
  | computeWith level align =>
    obtain ⟨-, rfl⟩ := Stage.computeWith_ok hd
    exact h

/-- Along every schedule whose calls the race gate sees, each parallel impure
reduction dimension sits in a stage with `allow_race_conditions` or `atomic` set. -/
theorem race_gate_holds {c : Collaborators} {s : Stage} (h : RaceReachable c s) :
    ∀ d ∈ s.dims, d.dimType = .impureRVar → d.forType.isParallel = true →
      s.allowRaceConditions = true ∨ s.atomic = true := by
  induction h with
  | fresh hf =>
    intro d hd _ hp
    simp [hf.serial d hd, ForType.isParallel] at hp
  | step d _ hg hd ih => exact d.run_raceFree ih hg hd

/-- `allow_race_conditions()` then `parallel(RVar r.x)` on `f(0, 0) += h(r.x, r.y)` passes
the gate and leaves a parallel impure reduction dimension, behind the escape hatch. -/
theorem race_gate_holds_parallel :
    ∃ s, RaceReachable sumCollaborators s ∧
      (∃ d ∈ s.dims, d.dimType = .impureRVar ∧ d.forType.isParallel = true) ∧
      ∀ d ∈ s.dims, d.dimType = .impureRVar → d.forType.isParallel = true →
        s.allowRaceConditions = true ∨ s.atomic = true := by
  have h := RaceReachable.step (c := sumCollaborators)
    (.setDimType (.rvar "r$x" (by decide)) .parallel)
    (.step .allowRaceConditions
      (.fresh (sumUpdate_isFreshUpdate [.intImm 0, .intImm 0] [("r$x", .impureRVar)])) trivial rfl)
    (.inl (.inl rfl)) rfl
  exact ⟨_, h, by decide, race_gate_holds h⟩

/-- Three reachable stages with a parallel impure reduction dimension and neither
escape hatch: on `f(0, 0) += h(r.x, r.y)`, `parallel(Var r.x)`; on
`f(r.x, 0) += h(r.x, r.y)`, `parallel(r.x)` then `fuse(r.x, r.y, t)`; and the
intermediate of `rfactor({r.y, u})` after `allow_race_conditions()` and
`parallel(r.x)` on `f(0, 0) += h(r.x, r.y)`. -/
theorem race_gate_bypasses :
    (∃ s, Reachable sumCollaborators s ∧ ¬ s.RaceFree) ∧
    (∃ s, Reachable sumCollaborators s ∧ ¬ s.RaceFree) ∧
    (∃ s, Reachable sumCollaborators s ∧ ¬ s.RaceFree) := by
  refine ⟨⟨_, Reachable.runAll [.setDimType (.var "r$x" (by decide)) .parallel]
      (sumUpdate_reachable _ [.intImm 0, .intImm 0] [("r$x", .impureRVar)]) rfl, by decide⟩,
    ⟨_, Reachable.runAll [.setDimType (.rvar "r$x" (by decide)) .parallel,
        .fuse (.rvar "r$x" (by decide)) (.rvar "r$y" (by decide)) (.rvar "t" (by decide))]
      (sumUpdate_reachable _ [.ofVar "r$x", .intImm 0] [("r$x", .pureRVar), ("r$y", .impureRVar)])
      rfl, by decide⟩,
    ⟨_, Reachable.intermediate [(.rvar "r$y" (by decide), .var "u" (by decide))]
      (Reachable.runAll [.allowRaceConditions, .setDimType (.rvar "r$x" (by decide)) .parallel]
        (sumUpdate_reachable _ [.intImm 0, .intImm 0] [("r$x", .impureRVar), ("r$y", .impureRVar)])
        rfl) rfl, by decide⟩⟩

/-- `rfactor({r.y, u})` on `f(r.x, r.y) += h(r.x, r.y)`, the example of its own
comment, rewrites the update to store `f(x, y)` but keeps `r.y` a `PureRVar`, and
`parallel(r.y)` then passes with neither escape hatch set. -/
theorem rfactor_keeps_pure_rvar :
    ∃ i s', Stage.rfactor sumCollaborators [(.rvar "r$y" (by decide), .var "u" (by decide))]
        (sumUpdate [.ofVar "r$x", .ofVar "r$y"] [("r$x", .pureRVar), ("r$y", .pureRVar)]) =
        .ok i s' ∧
      s'.args = [.ofVar "x", .ofVar "y"] ∧ (∃ d ∈ s'.dims, d.var = "r$y" ∧ d.dimType = .pureRVar) ∧
      ∃ s'', Stage.setDimType sumCollaborators (.rvar "r$y" (by decide)) .parallel s' = .ok () s'' ∧
        ¬ s''.RaceAllowed ∧ ∃ d ∈ s''.dims, d.var = "r$y" ∧ d.forType = .parallel :=
  ⟨_, _, rfl, rfl, by decide, _, rfl, by decide, by decide⟩

end HalideSchedule
