import HalideSchedule.Schedule.Run

/-!
# HalideSchedule.Properties.Specializations

**The specialization list and `compute_with`.** `specialize` and `specialize_fail`
append to the list only when its last entry is not a failure, and only
`specialize_fail` writes a message, so each entry but the last has an empty message:
at most one `specialize_fail` entry, and it is last. This holds of every stage the
directives reach from a definition without specializations (`SpecReachable`): the
pure definition, on which `Func::specialize` and `Func::specialize_fail` act, as well
as an update definition or the intermediate of `rfactor`.

`compute_with` refuses a definition with specializations, but `specialize` never
looks at the fuse level, so `compute_with` followed by `specialize` reaches a stage
with both (`compute_with_then_specialize`).
-/

namespace HalideSchedule

namespace Stage

/-- Every specialization but the last has no failure message. -/
def FailLast (s : Stage) : Prop := ∀ sp ∈ s.specializations.dropLast, sp.failureMessage = ""

/-- Appending after a last entry that is not a failure keeps every entry but the new
one without a message. -/
theorem failLast_append {specs : List Specialization}
    (h : ∀ sp ∈ specs.dropLast, sp.failureMessage = "") (hl : lastNotFailed specs = true)
    (x : Specialization) : ∀ sp ∈ (specs ++ [x]).dropLast, sp.failureMessage = "" := by
  rw [List.dropLast_concat]
  obtain rfl | ⟨init, l, rfl⟩ := List.eq_nil_or_concat specs
  · simp
  · rw [List.concat_eq_append] at h hl ⊢
    rw [List.dropLast_concat] at h
    simp only [lastNotFailed, List.getLast?_concat, Option.all_some, beq_iff_eq] at hl
    intro sp hsp
    rcases List.mem_append.1 hsp with hsp | hsp
    · exact h sp hsp
    · rw [List.mem_singleton.1 hsp, hl]

end Stage

theorem Directive.run_failLast {c : Collaborators} {s s' : Stage} (d : Directive)
    (h : s.FailLast) (hd : d.run c s = .ok () s') : s'.FailLast := by
  cases d with
  | split old outer inner factor tail =>
    obtain ⟨_, _, _, -, -, rfl⟩ := Stage.splitNamed_ok (Stage.split_ok hd)
    exact h
  | fuse inner outer fused =>
    obtain ⟨-, -, -, -, -, -, -, rfl⟩ := Stage.fuse_ok hd
    exact h
  | rename old new =>
    obtain ⟨_, _, _, -, rfl, -⟩ := Stage.rename_ok hd
    exact h
  | purify old new =>
    obtain ⟨_, _, -, rfl⟩ := Stage.purify_ok hd
    exact h
  | reorder vars =>
    obtain ⟨_, _, rfl⟩ := Stage.reorder_ok hd
    exact h
  | setDimType var t =>
    obtain ⟨rfl, -⟩ := Stage.setDimType_ok hd
    exact h
  | setDimDeviceApi var api =>
    cases Stage.setDimDeviceApi_ok hd
    exact h
  | allowRaceConditions => cases hd; exact h
  | atomic override => cases hd; exact h
  | rfactor preserved =>
    obtain ⟨i, hr⟩ := Directive.run_rfactor_ok hd
    rw [(Stage.rfactor_ok_stage hr).1]
    exact h
  | specialize condition =>
    rcases Stage.specialize_ok hd with rfl | ⟨hl, rfl⟩
    · exact h
    · exact Stage.failLast_append h hl _
  | specializeFail message =>
    obtain ⟨hl, rfl⟩ := Stage.specializeFail_ok hd
    exact Stage.failLast_append h hl _
  | computeWith level align =>
    obtain ⟨-, rfl⟩ := Stage.computeWith_ok hd
    exact h

/-- The stages successful directives reach from one without specializations: a freshly
defined pure definition (`Function::define`, the definition `Func::specialize` acts on)
or update definition, and the update of `rfactor`'s intermediate function. -/
inductive SpecReachable (c : Collaborators) : Stage → Prop
  | fresh {s : Stage} : s.specializations = [] → SpecReachable c s
  | step {s s' : Stage} (d : Directive) : SpecReachable c s → d.run c s = .ok () s' →
      SpecReachable c s'

/-- In every stage reached from a definition without specializations, each
specialization but the last has an empty failure message, so there is at most one
`specialize_fail` entry and it is last. -/
theorem specializations_fail_last {c : Collaborators} {s : Stage} (h : SpecReachable c s) :
    ∀ sp ∈ s.specializations.dropLast, sp.failureMessage = "" := by
  induction h with
  | fresh hs => simp [hs]
  | step d _ hd ih => exact d.run_failLast ih hd

/-- The pure definition `f(x, y) = h(x, y)`, freshly defined: the dimensions `x`, `y` and
`__outermost`, all serial, and no specialization. -/
def pureDefinition : Stage :=
  { funcName := "f", dimVars := ["x", "y"], storageDims := ["x", "y"],
    hasExternDefinition := false, stageIndex := 0, isInit := true,
    args := [.ofVar "x", .ofVar "y"], values := [.call .int .halide "h" [.ofVar "x", .ofVar "y"] 0],
    predicate := [],
    dims := ["x", "y", "__outermost"].map fun n => ⟨n, .serial, .none, .pureVar⟩,
    splits := [], rvars := [], allowRaceConditions := false, atomic := false,
    overrideAtomicAssociativityTest := false, fuseLevel := .none, specializations := [] }

/-- `f.specialize(p)` then `f.specialize_fail("unsupported")` on the pure definition: two
entries, the failure last and the one before it without a message. -/
theorem specializations_fail_last_pure :
    ∃ s, SpecReachable sumCollaborators s ∧ s.isInit = true ∧ s.specializations.length = 2 ∧
      ∀ sp ∈ s.specializations.dropLast, sp.failureMessage = "" := by
  have h := SpecReachable.step (c := sumCollaborators) (.specializeFail "unsupported")
    (.step (.specialize (.param .bool "p")) (.fresh (s := pureDefinition) rfl) rfl) rfl
  exact ⟨_, h, rfl, rfl, specializations_fail_last h⟩

/-- `compute_with(g, x)` then `specialize(p)` on `f(x, 0) += h(r.x, r.y)` leaves a
fuse level and a specialization on the same definition. -/
theorem compute_with_then_specialize :
    ∃ s, Reachable sumCollaborators s ∧ s.fuseLevel.level.isInlined = false ∧
      s.specializations.length = 1 :=
  ⟨_, Reachable.runAll
    [.computeWith (.at "g" (.var "x" (by decide)) 0) [], .specialize (.param .bool "p")]
    (sumUpdate_reachable _ [.ofVar "x", .intImm 0] [("x", .pureVar)]) rfl, rfl, rfl⟩

end HalideSchedule
