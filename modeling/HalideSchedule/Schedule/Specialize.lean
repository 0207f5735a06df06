import HalideSchedule.Schedule.Stage

/-!
# HalideSchedule.Schedule.Specialize

**`Stage::specialize`, `Stage::specialize_fail` and `Stage::compute_with`.** The
specializations of a definition form a list whose last entry may be a failure
(`specialize_fail`, the only kind with a message); neither call adds an entry after
one. `compute_with` records a fuse level on the original definition and refuses a
definition that has specializations; `specialize` does not look at the fuse level.
-/

namespace HalideSchedule

namespace Stage

/-- `CheckForFreeVars`: the `Var` the visitor met last, if any. -/
def offendingVar (e : Expr) : Option String := e.freeVars.getLast?

/-- The check of `specialize` and `specialize_fail` that no specialization follows a
failure: the list is empty or its last entry has no message. -/
def lastNotFailed (specs : List Specialization) : Bool :=
  specs.getLast?.all (·.failureMessage == "")

/-- `Stage::specialize(condition)`: a specialization with an equal condition is
returned as it is; otherwise a new one is appended. -/
def specialize (condition : Expr) (s : Stage) : Result Unit :=
  if condition.type ≠ .bool then .error (.user .specializeNotBool) s
  else match offendingVar condition with
    | some v => .error (.user (.specializeFreeVar v)) s
    | none =>
      if s.specializations.any (fun sp => condition.equal sp.condition) then .ok () s
      else if !lastNotFailed s.specializations then .error (.user .specializeAfterFail) s
      else .ok () { s with specializations := s.specializations ++ [⟨condition, ""⟩] }

/-- `Stage::specialize_fail(message)`: a last specialization on `true` that reports
`message`. -/
def specializeFail (message : String) (s : Stage) : Result Unit :=
  if message = "" then .error (.user .specializeFailEmptyMessage) s
  else if !lastNotFailed s.specializations then .error (.user .specializeFailTwice) s
  else .ok () { s with specializations := s.specializations ++ [⟨.boolImm true, message⟩] }

/-- `Stage::compute_with(loop_level, align)` on the original definition. -/
def computeWith (level : LoopLevel) (align : List (String × LoopAlignStrategy)) (s : Stage) :
    Result Unit :=
  match level with
  | .inlined | .root => .error (.user .computeWithUndefinedLevel) s
  | .at func _ _ =>
    if func = s.funcName then .error (.user .computeWithSelf) s
    else if s.hasExternDefinition then .error (.user .computeWithExtern) s
    else if !s.specializations.isEmpty then .error (.user .computeWithSpecialized) s
    else .ok () { s with fuseLevel := ⟨level, align⟩ }

/-! ### What each call can do -/

theorem specialize_ok {condition : Expr} {s s' : Stage} (h : specialize condition s = .ok () s') :
    s' = s ∨ (lastNotFailed s.specializations = true ∧
      s' = { s with specializations := s.specializations ++ [⟨condition, ""⟩] }) := by
  unfold specialize at h
  split at h
  · cases h
  split at h
  · cases h
  split at h
  · cases h; exact .inl rfl
  split at h
  · cases h
  · next hl => cases h; exact .inr ⟨by simpa using hl, rfl⟩

theorem specialize_error {condition : Expr} {s s' : Stage} {e : Error}
    (h : specialize condition s = .error e s') : s' = s := by
  unfold specialize at h
  split at h
  · cases h; rfl
  split at h
  · cases h; rfl
  split at h
  · cases h
  split at h <;> cases h; rfl

theorem specializeFail_ok {message : String} {s s' : Stage}
    (h : specializeFail message s = .ok () s') :
    lastNotFailed s.specializations = true ∧
      s' = { s with specializations := s.specializations ++ [⟨.boolImm true, message⟩] } := by
  unfold specializeFail at h
  split at h
  · cases h
  split at h
  · cases h
  · next hl => cases h; exact ⟨by simpa using hl, rfl⟩

theorem specializeFail_error {message : String} {s s' : Stage} {e : Error}
    (h : specializeFail message s = .error e s') : s' = s := by
  unfold specializeFail at h
  split at h
  · cases h; rfl
  split at h <;> cases h; rfl

theorem computeWith_ok {level : LoopLevel} {align : List (String × LoopAlignStrategy)}
    {s s' : Stage} (h : computeWith level align s = .ok () s') :
    s.specializations = [] ∧ s' = { s with fuseLevel := ⟨level, align⟩ } := by
  unfold computeWith at h
  split at h
  · cases h
  · cases h
  split at h
  · cases h
  split at h
  · cases h
  split at h
  · cases h
  · next hs => cases h; exact ⟨by simpa using hs, rfl⟩

theorem computeWith_error {level : LoopLevel} {align : List (String × LoopAlignStrategy)}
    {s s' : Stage} {e : Error} (h : computeWith level align s = .error e s') : s' = s := by
  unfold computeWith at h
  split at h
  · cases h; rfl
  · cases h; rfl
  split at h
  · cases h; rfl
  split at h
  · cases h; rfl
  split at h <;> cases h; rfl

end Stage

end HalideSchedule
