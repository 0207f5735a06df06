import HalideSchedule.Schedule.Run

/-!
# HalideSchedule.Properties.TailStrategy

**The tail strategies an update definition's Split History records.** `Stage::split`
refuses `ShiftInwards` on an update and any tail but `GuardWithIf` for an exact split,
so every `SplitVar` entry of a reachable stage keeps that rule: no other directive
writes a tail, and `rename`, the only one that rewrites earlier entries, changes
names only (`renameHistory_ok`).

Two things the history does not record are fixed at the call instead. Exactness is
the `is_rvar` of the handle passed to `split`, not the kind of the dimension split;
and `RoundUp` is checked against `inner_vars` of the history as it stands at the
call, which a later `rename` may rewrite (`split_history_breaks_tail_rules`).
-/

namespace HalideSchedule

/-- The tail-strategy rule for one history entry of an update definition: a `SplitVar`
entry is never `ShiftInwards`, and is `GuardWithIf` when exact. -/
def Split.TailOk (sp : Split) : Prop :=
  sp.splitType = .splitVar → sp.tail ≠ .shiftInwards ∧ (sp.exact = true → sp.tail = .guardWithIf)

theorem Split.tailOk_of_ne {sp : Split} (h : sp.splitType ≠ .splitVar) : sp.TailOk :=
  fun h' => absurd h' h

/-- The rule reads only an entry's kind, tail and exactness, which `rename` keeps. -/
theorem Split.tailOk_of_key {sp sp' : Split}
    (h : (sp'.splitType, sp'.tail, sp'.exact) = (sp.splitType, sp.tail, sp.exact))
    (h' : sp'.TailOk) : sp.TailOk := by
  simp only [Prod.mk.injEq] at h
  obtain ⟨h1, h2, h3⟩ := h
  unfold Split.TailOk
  rw [← h1, ← h2, ← h3]
  exact h'

/-- An update definition whose Split History keeps the tail-strategy rule. -/
structure Stage.TailsOk (s : Stage) : Prop where
  update : s.isInit = false
  tails : ∀ sp ∈ s.splits, sp.TailOk

namespace Stage.TailsOk

/-- The invariant passes to an update definition whose entries are old ones or keep
the rule. -/
theorem of_splits {s s' : Stage} (h : s.TailsOk) (hi : s'.isInit = false)
    (hs : ∀ sp ∈ s'.splits, sp ∈ s.splits ∨ sp.TailOk) : s'.TailsOk :=
  ⟨hi, fun sp hsp => (hs sp hsp).elim (h.tails sp) id⟩

/-- Appending an entry that keeps the rule. -/
theorem append {s : Stage} (h : s.TailsOk) {sp : Split} (hsp : sp.TailOk) {dims : List Dim} :
    ({ s with dims := dims, splits := s.splits ++ [sp] } : Stage).TailsOk :=
  h.of_splits h.update fun sp' hsp' =>
    (List.mem_append.1 hsp').imp_right fun h1 => by rw [List.mem_singleton.1 h1]; exact hsp

end Stage.TailsOk

/-! ### One directive at a time -/

/-- A successful `split` on an update definition appends one `SplitVar` entry, exact
exactly when the handle is an `RVar`, keeping the rule, and recording `RoundUp`
only for a variable outside `inner_vars` of the history before it. -/
theorem Stage.split_entry {c : Collaborators} {old outer inner : VarOrRVar} {factor : Expr}
    {tail : TailStrategy} {s s' : Stage} (hi : s.isInit = false)
    (h : Stage.split c old outer inner factor tail s = .ok () s') :
    ∃ sp dims, s' = { s with dims := dims, splits := s.splits ++ [sp] } ∧
      sp.splitType = .splitVar ∧ sp.exact = old.isRVar ∧ sp.TailOk ∧
      (sp.tail = .roundUp → sp.oldVar ∉ Stage.innerVars s.splits) := by
  obtain ⟨dims, n, t, -, ht, rfl⟩ := Stage.splitNamed_ok (Stage.split_ok h)
  obtain ⟨h1, h2, h3⟩ := Stage.splitTail_ok ht
  refine ⟨_, dims, rfl, rfl, rfl, fun _ => ⟨h1 hi, h2⟩, fun hr => ?_⟩
  have hok := h3 hi hr
  simp only [Stage.roundUpOk, hi, Bool.and_eq_true, Bool.false_or, Bool.not_eq_true',
    decide_eq_false_iff_not] at hok
  exact hok.2

theorem Directive.run_tailsOk {c : Collaborators} {s s' : Stage} (d : Directive)
    (h : s.TailsOk) (hd : d.run c s = .ok () s') : s'.TailsOk := by
  cases d with
  | split old outer inner factor tail =>
    obtain ⟨sp, dims, rfl, -, -, hsp, -⟩ := Stage.split_entry h.update hd
    exact h.append hsp
  | fuse inner outer fused =>
    obtain ⟨-, -, dims, -, -, -, -, rfl⟩ := Stage.fuse_ok hd
    exact h.append (Split.tailOk_of_ne (by simp))
  | rename old new =>
    obtain ⟨dims, d, splits, -, rfl, hr | rfl⟩ := Stage.rename_ok hd
    · refine h.of_splits h.update fun sp hsp => .inr ?_
      have hk := Stage.renameHistory_ok hr ▸
        List.mem_map_of_mem (fun sp : Split => (sp.splitType, sp.tail, sp.exact))
          (List.mem_reverse.2 hsp)
      obtain ⟨sp0, hsp0, hk0⟩ := List.mem_map.1 hk
      exact Split.tailOk_of_key hk0 (h.tails sp0 (List.mem_reverse.1 hsp0))
    · exact h.append (Split.tailOk_of_ne (by simp))
  | purify old new =>
    obtain ⟨dims, d, -, rfl⟩ := Stage.purify_ok hd
    exact h.append (Split.tailOk_of_ne (by simp))
  | reorder vars =>
    obtain ⟨idx, fl, rfl⟩ := Stage.reorder_ok hd
    exact ⟨h.update, h.tails⟩
  | setDimType var t =>
    obtain ⟨rfl, -⟩ := Stage.setDimType_ok hd
    exact ⟨h.update, h.tails⟩
  | setDimDeviceApi var api =>
    cases Stage.setDimDeviceApi_ok hd
    exact ⟨h.update, h.tails⟩
  | allowRaceConditions => cases hd; exact ⟨h.update, h.tails⟩
  | atomic override => cases hd; exact ⟨h.update, h.tails⟩
  | rfactor preserved =>
    obtain ⟨i, hr⟩ := Directive.run_rfactor_ok hd
    obtain ⟨hframe, -, hs⟩ := Stage.rfactor_ok_stage hr
    exact h.of_splits ((congrArg Stage.isInit hframe).trans h.update) fun sp hsp =>
      .inl (hs.subset hsp)
  | specialize condition =>
    rcases Stage.specialize_ok hd with rfl | ⟨-, rfl⟩
    · exact h
    · exact ⟨h.update, h.tails⟩
  | specializeFail message =>
    obtain ⟨-, rfl⟩ := Stage.specializeFail_ok hd
    exact ⟨h.update, h.tails⟩
  | computeWith level align =>
    obtain ⟨-, rfl⟩ := Stage.computeWith_ok hd
    exact ⟨h.update, h.tails⟩

/-- Every reachable stage is an update definition whose Split History keeps the
tail-strategy rule, and a `split` on it appends one `SplitVar` entry whose exactness
is the handle's `is_rvar` and whose `RoundUp`, if any, was allowed by `inner_vars` of
the history at that call. -/
theorem reachable_split_tail_rules {c : Collaborators} {s : Stage} (h : Reachable c s) :
    s.isInit = false ∧
      (∀ sp ∈ s.splits, sp.splitType = .splitVar →
        sp.tail ≠ .shiftInwards ∧ (sp.exact = true → sp.tail = .guardWithIf)) ∧
      ∀ (old outer inner : VarOrRVar) (factor : Expr) (tail : TailStrategy) (s' : Stage),
        Stage.split c old outer inner factor tail s = .ok () s' →
        ∃ sp, s'.splits = s.splits ++ [sp] ∧ sp.splitType = .splitVar ∧ sp.exact = old.isRVar ∧
          (sp.tail = .roundUp → sp.oldVar ∉ Stage.innerVars s.splits) := by
  have hinv : s.TailsOk := by
    induction h with
    | fresh hf => exact ⟨hf.update, by simp [hf.noSplits]⟩
    | step d _ hd ih => exact d.run_tailsOk ih hd
    | intermediate preserved _ hr ih =>
      obtain ⟨hi, -, -, -, hs⟩ := Stage.rfactor_ok_intermediate hr
      exact ih.of_splits hi fun sp hsp =>
        (hs sp hsp).imp_right fun hp => Split.tailOk_of_ne (by rw [hp]; decide)
  refine ⟨hinv.update, hinv.tails, fun old outer inner factor tail s' hs => ?_⟩
  obtain ⟨sp, dims, rfl, h1, h2, -, h3⟩ := Stage.split_entry hinv.update hs
  exact ⟨sp, rfl, h1, h2, h3⟩

/-- `split(r.x, o, i, 2, GuardWithIf)` on `f(r.x, x) += h(r.x, r.y)` records an exact
`GuardWithIf` entry, and `split(x, p, q, 2, RoundUp)` after it appends an inexact `RoundUp`
entry of `x`, which no earlier entry's inner variable produces. -/
theorem reachable_split_tail_rules_split :
    ∃ s s', Reachable sumCollaborators s ∧ s.isInit = false ∧ s.splits.length = 1 ∧
      (∀ sp ∈ s.splits, sp.splitType = .splitVar →
        sp.tail ≠ .shiftInwards ∧ (sp.exact = true → sp.tail = .guardWithIf)) ∧
      Stage.split sumCollaborators (.var "x" (by decide)) (.var "p" (by decide))
        (.var "q" (by decide)) (.intImm 2) .roundUp s = .ok () s' ∧
      ∃ sp, s'.splits = s.splits ++ [sp] ∧ sp.splitType = .splitVar ∧ sp.exact = false ∧
        (sp.tail = .roundUp → sp.oldVar ∉ Stage.innerVars s.splits) := by
  have h := Reachable.runAll
    [.split (.rvar "r$x" (by decide)) (.rvar "o" (by decide)) (.rvar "i" (by decide))
      (.intImm 2) .guardWithIf]
    (sumUpdate_reachable sumCollaborators [.ofVar "r$x", .ofVar "x"]
      [("r$x", .pureRVar), ("x", .pureVar)]) rfl
  obtain ⟨hi, ht, hs⟩ := reachable_split_tail_rules h
  obtain ⟨sp, hsp⟩ := hs (.var "x" (by decide)) (.var "p" (by decide)) (.var "q" (by decide))
    (.intImm 2) .roundUp _ rfl
  exact ⟨_, _, h, hi, rfl, ht, rfl, sp, hsp⟩

/-- Exactness and `inner_vars` are not properties of the history. Splitting the
impure reduction variable `r$x` of `f(0, 0) += h(r.x, r.y)` through a `Var` handle
records an inexact `RoundUp` split of a reduction dimension. And on
`f(r.x, x) += h(r.x, r.y)`, `split(r.x, o, i)`, `rename(x, n)`, `purify(i, x)`,
`split(n, p, q, RoundUp)`, `rename(x, n)` leaves the purify entry producing `x.n`
before the `RoundUp` split of `x.n`: the last `rename` rewrote it after the check. -/
theorem split_history_breaks_tail_rules :
    (∃ s, Reachable sumCollaborators s ∧ ∃ sp ∈ s.splits, sp.splitType = .splitVar ∧
      sp.exact = false ∧ ∃ d ∈ s.dims, d.var = sp.inner ∧ d.isRVar = true) ∧
    (∃ s, Reachable sumCollaborators s ∧ ∃ pre sp post, s.splits = pre ++ sp :: post ∧
      sp.splitType = .splitVar ∧ sp.tail = .roundUp ∧ sp.oldVar ∈ Stage.innerVars pre) := by
  refine ⟨⟨_, Reachable.runAll
      [.split (.var "r$x" (by decide)) (.var "o" (by decide)) (.var "i" (by decide))
        (.intImm 2) .roundUp]
      (sumUpdate_reachable _ [.intImm 0, .intImm 0] [("r$x", .impureRVar)]) rfl, ?_⟩,
    ⟨_, Reachable.runAll
      [.split (.rvar "r$x" (by decide)) (.rvar "o" (by decide)) (.rvar "i" (by decide))
          (.intImm 2) .guardWithIf,
        .rename (.var "x" (by decide)) (.var "n" (by decide)),
        .purify (.rvar "i" (by decide)) (.var "x" (by decide)),
        .split (.var "n" (by decide)) (.var "p" (by decide)) (.var "q" (by decide))
          (.intImm 2) .roundUp,
        .rename (.var "x" (by decide)) (.var "n" (by decide))]
      (sumUpdate_reachable _ [.ofVar "r$x", .ofVar "x"] [("r$x", .pureRVar), ("x", .pureVar)])
      rfl, ?_⟩⟩
  · exact ⟨_, List.mem_singleton_self _, rfl, rfl, _, List.mem_cons_self _ _, rfl, rfl⟩
  · exact ⟨[_, _, _], _, [], rfl, rfl, rfl, by decide⟩

/-! ### When `split` with `Auto` succeeds -/

/-- `Auto` never fails a check: a `split` with `TailStrategy::Auto` succeeds exactly when
the handles are of one kind, neither new name is taken, and `old` names a dimension. -/
theorem split_auto_ok_iff {c : Collaborators} {old outer inner : VarOrRVar} {factor : Expr}
    {s : Stage} :
    (∃ s', Stage.split c old outer inner factor .auto s = .ok () s') ↔
      Stage.splitHandleError old outer inner = none ∧
      Stage.splitCollision s.dims old.name outer.name inner.name = none ∧
      ∃ d ∈ s.dims, varNameMatch d.var old.name = true := by
  rw [← List.any_eq_true, ← @Stage.splitDims_isSome old.name outer.name inner.name s.dims]
  unfold Stage.split Stage.splitNamed
  cases Stage.splitHandleError old outer inner with
  | some e => simp
  | none =>
    cases Stage.splitCollision s.dims old.name outer.name inner.name with
    | some n => simp
    | none =>
      cases Stage.splitDims old.name outer.name inner.name s.dims with
      | none => simp
      | some r =>
        obtain ⟨t, ht⟩ := Stage.splitTail_auto c s r.2 factor old.isRVar
        simp [ht]

end HalideSchedule
