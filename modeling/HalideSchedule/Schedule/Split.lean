import HalideSchedule.Schedule.Stage

/-!
# HalideSchedule.Schedule.Split

**`Stage::split`.** The old dimension is replaced in place by its inner and outer
halves, and a `SplitVar` entry is appended to the Split History. Before the entry
is written the tail strategy is resolved and checked:

* on an update definition `RoundUp` is refused for a variable that descends from
  the inner half of an earlier split (`innerVars`), since it could recompute values;
* `Auto` becomes `GuardWithIf` for an exact split, `RoundUp` or `GuardWithIf` on an
  update, and `ShiftInwards` on the pure definition unless an earlier, larger
  `ShiftInwards` split already covers the variable (`shiftInwardsOuter`);
* `ShiftInwards` is refused on an update, and an exact split must be `GuardWithIf`.

The three checks run after the Dimension List has been rewritten, so their errors
leave the rewritten list behind (`splitNamed_error`).
-/

namespace HalideSchedule

namespace Stage

/-- The name check of `Stage::split`: the first of `inner`, `outer` (per dimension,
in list order) that already names a dimension and differs from `old`. -/
def splitCollision (dims : List Dim) (old outer inner : String) : Option String :=
  dims.findSome? fun d => [inner, outer].find? fun n => varNameMatch d.var n && n != old

/-- The Dimension List update of `Stage::split`: the first dimension matching `old`
becomes `old.inner` followed by `old.outer`, both copies of it, except that the
outer half of an `Extern` loop is `Serial`. Returns the qualified old name too. -/
def splitDims (old outer inner : String) : List Dim → Option (List Dim × String)
  | [] => none
  | d :: ds =>
      if varNameMatch d.var old then
        some ({ d with var := d.var ++ "." ++ inner } ::
          { d with var := d.var ++ "." ++ outer,
                   forType := if d.forType = .externLoop then .serial else d.forType } :: ds,
          d.var)
      else (splitDims old outer inner ds).map fun r => (d :: r.1, r.2)

/-- One history entry of the walk collecting the variables that descend from the
inner half of a split (`inner_vars`). -/
def innerVarsStep (vs : List String) (s : Split) : List String :=
  match s.splitType with
  | .splitVar =>
      let vs := vs.insert s.inner
      if s.oldVar ∈ vs then vs.insert s.outer else vs
  | .renameVar | .purifyRVar => if s.oldVar ∈ vs then vs.insert s.outer else vs
  | .fuseVars => if s.inner ∈ vs ∨ s.outer ∈ vs then vs.insert s.oldVar else vs

/-- `inner_vars` after the whole history. -/
def innerVars (splits : List Split) : List String := splits.foldl innerVarsStep []

/-- One history entry of the walk recording, for every variable that descends from
the outer half of a `ShiftInwards` split, that split's factor
(`descends_from_shiftinwards_outer`; a new binding shadows an older one). -/
def shiftInwardsStep (m : List (String × Expr)) (s : Split) : List (String × Expr) :=
  if s.isSplit ∧ s.tail = .shiftInwards then (s.outer, s.factor) :: m
  else match m.lookup s.oldVar with
    | some f =>
        if s.isSplit then (s.outer, f) :: (s.inner, f) :: m
        else if s.isRename ∨ s.isPurify then (s.outer, f) :: m
        else m
    | none => m

/-- `descends_from_shiftinwards_outer` after the whole history. -/
def shiftInwardsOuter (splits : List Split) : List (String × Expr) :=
  splits.foldl shiftInwardsStep []

/-- The resolution of `TailStrategy::Auto` in `Stage::split`. -/
def autoTail (c : Collaborators) (isInit exact roundUpOk : Bool) (covering : Option Expr)
    (factor : Expr) : TailStrategy :=
  if exact then .guardWithIf
  else if !isInit then (if roundUpOk then .roundUp else .guardWithIf)
  else match covering with
    | some f => if c.canProve (.ge f factor) then .roundUp else .shiftInwards
    | none => .shiftInwards

/-- `round_up_ok` of `Stage::split`: never for an exact split, and on an update only
for a variable that does not descend from the inner half of an earlier split. -/
def roundUpOk (s : Stage) (oldName : String) (exact : Bool) : Bool :=
  !exact && (s.isInit || !decide (oldName ∈ innerVars s.splits))

/-- The tail strategy `Stage::split` records: `tail`, or what `Auto` resolves to. -/
def resolveTail (c : Collaborators) (s : Stage) (oldName : String) (factor : Expr)
    (exact : Bool) (tail : TailStrategy) : TailStrategy :=
  if tail = .auto then
    autoTail c s.isInit exact (roundUpOk s oldName exact)
      ((shiftInwardsOuter s.splits).lookup oldName) factor
  else tail

/-- The tail strategy checks of `Stage::split` for the qualified old name `oldName`:
the strategy the new entry records, or the check that refuses it. -/
def splitTail (c : Collaborators) (s : Stage) (oldName : String) (factor : Expr) (exact : Bool)
    (tail : TailStrategy) : Except UserError TailStrategy :=
  if !exact && !s.isInit && !roundUpOk s oldName exact && tail = .roundUp then
    .error (.splitRoundUpInUpdate oldName)
  else
    let t := resolveTail c s oldName factor exact tail
    if !s.isInit ∧ t = .shiftInwards then .error (.splitShiftInwardsInUpdate oldName)
    else if exact ∧ t ≠ .guardWithIf then .error (.splitExactNeedsGuardWithIf oldName)
    else .ok t

/-- `Stage::split(old, outer, inner, factor, exact, tail)`, the overload on names. -/
def splitNamed (c : Collaborators) (old outer inner : String) (factor : Expr) (exact : Bool)
    (tail : TailStrategy) (s : Stage) : Result Unit :=
  match splitCollision s.dims old outer inner with
  | some n => .error (.user (.splitNameCollision n)) s
  | none =>
    match splitDims old outer inner s.dims with
    | none => .error (.user (.splitDimNotFound old)) s
    | some (dims, oldName) =>
      match splitTail c s oldName factor exact tail with
      | .error e => .error (.user e) { s with dims := dims }
      | .ok t => .ok () { s with dims := dims, splits := s.splits ++
          [⟨oldName, oldName ++ "." ++ outer, oldName ++ "." ++ inner, factor, exact, t, .splitVar⟩] }

/-- The handle checks of `Stage::split(VarOrRVar ...)`: the halves are of the same
kind as `old`. -/
def splitHandleError (old outer inner : VarOrRVar) : Option UserError :=
  if old.isRVar then
    if !outer.isRVar then some (.splitRVarIntoVar old.name outer.name)
    else if !inner.isRVar then some (.splitRVarIntoVar old.name inner.name)
    else none
  else if outer.isRVar then some (.splitVarIntoRVar old.name outer.name)
  else if inner.isRVar then some (.splitVarIntoRVar old.name inner.name)
  else none

/-- `Stage::split(VarOrRVar old, outer, inner, factor, tail)`: the split is exact
exactly when `old` is an `RVar`. -/
def split (c : Collaborators) (old outer inner : VarOrRVar) (factor : Expr)
    (tail : TailStrategy) (s : Stage) : Result Unit :=
  match splitHandleError old outer inner with
  | some e => .error (.user e) s
  | none => splitNamed c old.name outer.name inner.name factor old.isRVar tail s

/-! ### What a `split` call can do -/

theorem splitDims_eq {old outer inner : String} :
    ∀ {dims dims' : List Dim} {n : String}, splitDims old outer inner dims = some (dims', n) →
    ∃ pre d post, dims = pre ++ d :: post ∧ (∀ e ∈ pre, varNameMatch e.var old = false) ∧
      varNameMatch d.var old = true ∧ n = d.var ∧
      dims' = pre ++ { d with var := d.var ++ "." ++ inner } ::
        { d with var := d.var ++ "." ++ outer,
                 forType := if d.forType = .externLoop then .serial else d.forType } :: post
  | [], _, _, h => by simp [splitDims] at h
  | d :: ds, dims', n, h => by
    unfold splitDims at h
    split at h
    · next hm =>
      simp only [Option.some.injEq, Prod.mk.injEq] at h
      obtain ⟨rfl, rfl⟩ := h
      exact ⟨[], d, ds, rfl, by simp, hm, rfl, rfl⟩
    · next hm =>
      obtain ⟨⟨r1, r2⟩, hr, hrr⟩ := Option.map_eq_some'.1 h
      obtain ⟨pre, e, post, rfl, hpre, he, rfl, rfl⟩ := splitDims_eq hr
      simp only [Prod.mk.injEq] at hrr
      obtain ⟨rfl, rfl⟩ := hrr
      refine ⟨d :: pre, e, post, rfl, ?_, he, rfl, rfl⟩
      simpa [hm] using hpre

/-- The lookup of `Stage::split` finds a dimension exactly when one matches `old`. -/
theorem splitDims_isSome {old outer inner : String} :
    ∀ dims : List Dim,
      (splitDims old outer inner dims).isSome = dims.any fun d => varNameMatch d.var old
  | [] => rfl
  | d :: ds => by
    unfold splitDims
    split <;> simp [*, splitDims_isSome ds]

/-- `split` rewrites the first dimension matching `old`. -/
theorem splitDims_append {old outer inner : String} {d : Dim} {post : List Dim} :
    ∀ {pre : List Dim}, (∀ e ∈ pre, varNameMatch e.var old = false) → varNameMatch d.var old →
      splitDims old outer inner (pre ++ d :: post) =
        some (pre ++ { d with var := d.var ++ "." ++ inner } ::
          { d with var := d.var ++ "." ++ outer,
                   forType := if d.forType = .externLoop then .serial else d.forType } :: post,
          d.var)
  | [], _, hd => by simp [splitDims, hd]
  | e :: pre, hpre, hd => by
    simp [splitDims, hpre e (List.mem_cons_self _ _),
      splitDims_append (fun x hx => hpre x (List.mem_cons_of_mem _ hx)) hd]

/-- New names that match no dimension do not collide. -/
theorem splitCollision_eq_none {dims : List Dim} {old outer inner : String}
    (h : ∀ e ∈ dims, varNameMatch e.var outer = false ∧ varNameMatch e.var inner = false) :
    splitCollision dims old outer inner = none := by
  simp only [splitCollision, List.findSome?_eq_none_iff]
  exact fun e he => by simp [(h e he).1, (h e he).2]

/-- `TailStrategy::Auto` resolves to a strategy that the checks accept. -/
theorem splitTail_auto (c : Collaborators) (s : Stage) (n : String) (factor : Expr)
    (exact : Bool) : ∃ t, splitTail c s n factor exact .auto = .ok t := by
  unfold splitTail resolveTail autoTail
  cases exact <;> cases s.isInit <;> simp
  -- the pure definition, inexact: `RoundUp` or `ShiftInwards` after the covering split
  split <;> simp

/-- What a recorded tail strategy satisfies: never `ShiftInwards` on an update,
`GuardWithIf` when exact, and on an update `RoundUp` only where `round_up_ok`
allowed it. -/
theorem splitTail_ok {c : Collaborators} {s : Stage} {n : String} {factor : Expr} {exact : Bool}
    {tail t : TailStrategy} (h : splitTail c s n factor exact tail = .ok t) :
    (s.isInit = false → t ≠ .shiftInwards) ∧ (exact = true → t = .guardWithIf) ∧
      (s.isInit = false → t = .roundUp → roundUpOk s n exact = true) := by
  unfold splitTail at h
  dsimp only at h
  split_ifs at h with h1 h2 h3
  cases h
  refine ⟨fun hi ht => h2 ⟨by simp [hi], ht⟩, fun he => by simpa [he] using h3, fun hi ht => ?_⟩
  unfold resolveTail at ht h3
  split at ht
  · cases hr : roundUpOk s n exact
    · cases exact <;> simp [autoTail, hi, hr] at ht
    · rfl
  · subst ht
    cases exact <;> simp_all

theorem splitNamed_ok {c : Collaborators} {old outer inner : String} {factor : Expr}
    {exact : Bool} {tail : TailStrategy} {s s' : Stage} {u : Unit}
    (h : splitNamed c old outer inner factor exact tail s = .ok u s') :
    ∃ dims n t, splitDims old outer inner s.dims = some (dims, n) ∧
      splitTail c s n factor exact tail = .ok t ∧
      s' = { s with dims := dims, splits := s.splits ++
        [⟨n, n ++ "." ++ outer, n ++ "." ++ inner, factor, exact, t, .splitVar⟩] } := by
  unfold splitNamed at h
  split at h
  · cases h
  split at h
  · cases h
  next dims n hsd =>
  split at h
  · cases h
  next t ht =>
  cases h
  exact ⟨dims, n, t, hsd, ht, rfl⟩

theorem splitTail_error {c : Collaborators} {s : Stage} {n : String} {factor : Expr}
    {exact : Bool} {tail : TailStrategy} {u : UserError}
    (h : splitTail c s n factor exact tail = .error u) :
    u = .splitRoundUpInUpdate n ∨ u = .splitShiftInwardsInUpdate n ∨
      u = .splitExactNeedsGuardWithIf n := by
  unfold splitTail at h
  dsimp only at h
  split_ifs at h <;> cases h <;> simp

/-- A failed `split` either wrote nothing, or failed in a tail-strategy check after
rewriting the Dimension List. -/
theorem splitNamed_error {c : Collaborators} {old outer inner : String} {factor : Expr}
    {exact : Bool} {tail : TailStrategy} {s s' : Stage} {e : Error}
    (h : splitNamed c old outer inner factor exact tail s = .error e s') :
    s' = s ∨ ∃ dims n u, splitDims old outer inner s.dims = some (dims, n) ∧
      splitTail c s n factor exact tail = .error u ∧ e = .user u ∧ s' = { s with dims := dims } := by
  unfold splitNamed at h
  split at h
  · cases h; exact .inl rfl
  split at h
  · cases h; exact .inl rfl
  next dims n hsd =>
  split at h
  · next u hu => cases h; exact .inr ⟨dims, n, u, hsd, hu, rfl, rfl⟩
  · cases h

theorem split_ok {c : Collaborators} {old outer inner : VarOrRVar} {factor : Expr}
    {tail : TailStrategy} {s s' : Stage} {u : Unit}
    (h : split c old outer inner factor tail s = .ok u s') :
    splitNamed c old.name outer.name inner.name factor old.isRVar tail s = .ok u s' := by
  unfold split at h
  split at h
  · cases h
  · exact h

theorem split_error {c : Collaborators} {old outer inner : VarOrRVar} {factor : Expr}
    {tail : TailStrategy} {s s' : Stage} {e : Error}
    (h : split c old outer inner factor tail s = .error e s') :
    s' = s ∨ splitNamed c old.name outer.name inner.name factor old.isRVar tail s = .error e s' := by
  unfold split at h
  split at h
  · cases h; exact .inl rfl
  · exact .inr h

end Stage

end HalideSchedule
