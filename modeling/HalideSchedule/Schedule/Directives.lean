import Mathlib.Data.List.Sort
import HalideSchedule.Schedule.Split

/-!
# HalideSchedule.Schedule.Directives

**The directives that edit the Dimension List and the Split History** other than
`split`: `fuse`, `rename`, `purify`, `remove_dimension`, `set_dim_type` (behind
`serial`, `parallel`, `vectorize`, `unroll` and the `gpu_*` family), `reorder`,
`allow_race_conditions` and `atomic`.

Names resolve through `var_name_match`, and all but `set_dim_type` act on the
*first* match; `updateFirstMatch` is that lookup-and-rewrite, shared by `fuse`,
`rename` and `purify`. Writes happen where the C++ code makes them: `fuse` erases
the outer dimension before it looks for the inner one, `rename` renames the
dimension before it scans the history, and `set_dim_type` marks each match before
its race check.
-/

namespace HalideSchedule

namespace Stage

/-- Rewrite the first dimension matching `name` by `f`, returning the new list and
the entry as it was. -/
def updateFirstMatch (name : String) (f : Dim → Dim) : List Dim → Option (List Dim × Dim)
  | [] => none
  | d :: ds =>
      if varNameMatch d.var name then some (f d :: ds, d)
      else (updateFirstMatch name f ds).map fun r => (d :: r.1, r.2)

/-- Erase the first dimension matching `name`, returning the rest and the entry. -/
def eraseFirstMatch (name : String) : List Dim → Option (List Dim × Dim)
  | [] => none
  | d :: ds =>
      if varNameMatch d.var name then some (ds, d)
      else (eraseFirstMatch name ds).map fun r => (d :: r.1, r.2)

/-! ### `fuse` -/

/-- The kind of a fused dimension: a reduction variable stays `PureRVar` only when
both halves were. -/
def fusedDimType (inner outer : DimType) : DimType :=
  if inner = .pureVar then inner
  else if inner = .pureRVar ∧ outer = .pureRVar then .pureRVar else .impureRVar

/-- The inner dimension of a fuse, renamed `inner.fused` and re-kinded. -/
def fuseInner (fused : String) (outerType : DimType) (d : Dim) : Dim :=
  { d with var := d.var ++ "." ++ fused, dimType := fusedDimType d.dimType outerType }

/-- The handle checks of `Stage::fuse`: the three names are all `RVar`s or all `Var`s. -/
def fuseHandleError (inner outer fused : VarOrRVar) : Option UserError :=
  if inner.isRVar then
    if !outer.isRVar then some (.fuseRVarWithVar inner.name outer.name)
    else if !fused.isRVar then some (.fuseRVarIntoVar inner.name fused.name)
    else none
  else if outer.isRVar then some (.fuseVarWithRVar inner.name outer.name)
  else if fused.isRVar then some (.fuseVarIntoRVar inner.name fused.name)
  else none

/-- `Stage::fuse(inner, outer, fused)`: the outer dimension is erased and the inner
one becomes `inner.fused`; a `FuseVars` entry records both names. -/
def fuse (inner outer fused : VarOrRVar) (s : Stage) : Result Unit :=
  match fuseHandleError inner outer fused with
  | some e => .error (.user e) s
  | none =>
    match eraseFirstMatch outer.name s.dims with
    | none => .error (.user (.fuseOuterNotFound outer.name)) s
    | some (dims, o) =>
      let s1 := { s with dims := dims }
      match updateFirstMatch inner.name (fuseInner fused.name o.dimType) dims with
      | none => .error (.user (.fuseInnerNotFound inner.name)) s1
      | some (dims', i) =>
        if i.isRVar ≠ o.isRVar then
          .error (.internal "fuse of a Var with an RVar")
            { s1 with dims := ((updateFirstMatch inner.name
              (fun d => { d with var := d.var ++ "." ++ fused.name }) dims).map (·.1)).getD dims }
        else
          .ok () { s1 with dims := dims', splits := s.splits ++
            [⟨i.var ++ "." ++ fused.name, o.var, i.var, .undef, true, .roundUp, .fuseVars⟩] }

/-! ### `rename` and `purify` -/

/-- The backward history scan of `Stage::rename`, over the history in reverse: the
latest entry that produced `oldName` is rewritten to produce `newName` (`none` when
there is none). Meeting a fuse of `oldName`, or an entry that already split or
renamed it, is an error. -/
def renameHistory (oldName newName : String) : List Split → Except UserError (Option (List Split))
  | [] => .ok none
  | sp :: rest =>
      if sp.isFuse then
        if sp.inner = oldName ∨ sp.outer = oldName then .error (.renameAlreadyFused oldName sp.oldVar)
        else if sp.oldVar = oldName then .ok (some ({ sp with oldVar := newName } :: rest))
        else (renameHistory oldName newName rest).map (Option.map (sp :: ·))
      else if sp.inner = oldName then .ok (some ({ sp with inner := newName } :: rest))
      else if sp.outer = oldName then .ok (some ({ sp with outer := newName } :: rest))
      else if sp.oldVar = oldName then .error (.renameAlreadySplit oldName)
      else (renameHistory oldName newName rest).map (Option.map (sp :: ·))

/-- The handle check of `Stage::rename`: both names are `RVar`s or both `Var`s. -/
def renameHandleError (old new : VarOrRVar) : Option UserError :=
  if old.isRVar then
    if !new.isRVar then some (.renameRVarToVar old.name new.name) else none
  else if new.isRVar then some (.renameVarToRVar old.name new.name)
  else none

/-- `Stage::rename(old, new)`: the dimension becomes `old.new`; the history entry
that defines it is rewritten in place when there is one, and a `RenameVar` entry is
appended otherwise. -/
def rename (old new : VarOrRVar) (s : Stage) : Result Unit :=
  match renameHandleError old new with
  | some e => .error (.user e) s
  | none =>
    match updateFirstMatch old.name (fun d => { d with var := d.var ++ "." ++ new.name }) s.dims with
    | none => .error (.user (.renameNotFound old.name)) s
    | some (dims, d) =>
      let s1 := { s with dims := dims }
      let newName := d.var ++ "." ++ new.name
      match renameHistory d.var newName s.splits.reverse with
      | .error e => .error (.user e) s1
      | .ok (some rev) => .ok () { s1 with splits := rev.reverse }
      | .ok none => .ok () { s1 with splits := s.splits ++
          [⟨d.var, newName, "", .intImm 1, old.isRVar, .roundUp, .renameVar⟩] }

/-- `Stage::purify(old, new)`: the reduction dimension `old` becomes the pure `Var`
`new`, and a `PurifyRVar` entry is appended. -/
def purify (old new : VarOrRVar) (s : Stage) : Result Unit :=
  if !(old.isRVar && !new.isRVar) then .error (.user (.purifyNeedsRVarToVar old.name new.name)) s
  else
    match updateFirstMatch old.name (fun d => { d with var := new.name, dimType := .pureVar })
        s.dims with
    | none => .error (.user (.purifyNotFound old.name)) s
    | some (dims, d) => .ok () { s with dims := dims, splits := s.splits ++
        [⟨d.var, new.name, "", .intImm 1, false, .roundUp, .purifyRVar⟩] }

/-! ### `remove_dimension` -/

/-- Erase the first dimension named exactly `var`. -/
def eraseExact (var : String) : List Dim → Option (List Dim)
  | [] => none
  | d :: ds => if d.var = var then some ds else (eraseExact var ds).map (d :: ·)

/-- The backward history walk of `remove_dimension`, over the history in reverse,
with the set of removed names: drops every entry that only produced removed names
(adding what it consumed to the set) and refuses a variable that was already fused,
split or renamed. Returns the kept entries in history order. -/
def removeHistory (oldName : String) : List String → List Split → Except UserError (List Split)
  | _, [] => .ok []
  | removed, sp :: rest =>
      if sp.isFuse then
        if sp.inner = oldName ∨ sp.outer = oldName then .error (.removeAlreadyFused oldName sp.oldVar)
        else if sp.oldVar ∈ removed then removeHistory oldName (sp.outer :: sp.inner :: removed) rest
        else (removeHistory oldName removed rest).map (· ++ [sp])
      else if sp.isSplit then
        if sp.oldVar = oldName then .error (.removeAlreadySplit oldName)
        else if sp.inner ∈ removed ∨ sp.outer ∈ removed then
          removeHistory oldName (sp.oldVar :: removed) rest
        else (removeHistory oldName removed rest).map (· ++ [sp])
      else if sp.oldVar = oldName then .error (.removeAlreadySplit oldName)
      else if sp.outer ∈ removed then removeHistory oldName (sp.oldVar :: removed) rest
      else (removeHistory oldName removed rest).map (· ++ [sp])

/-- `remove_dimension(stage, definition, var)`: used by `rfactor` to drop a lifted
reduction variable and the history that only concerned it. -/
def removeDimension (var : String) (s : Stage) : Result Unit :=
  match eraseExact var s.dims with
  | none => .error (.user (.removeNotFound var)) s
  | some dims =>
    let s1 := { s with dims := dims }
    match removeHistory var [var] s.splits.reverse with
    | .error e => .error (.user e) s1
    | .ok kept => .ok () { s1 with splits := kept }

/-! ### `set_dim_type` -/

/-- The race gate of `Stage::set_dim_type`, met when a matched dimension is an
impure reduction variable, named through an `RVar`, and `t` is parallel: without
`allow_race_conditions` or `atomic` it fails, and `atomic` without the override
asks the prover for associativity first. -/
def raceGate (c : Collaborators) (s : Stage) (var : String) : Option Error :=
  if !s.allowRaceConditions && s.atomic && !s.overrideAtomicAssociativityTest then
    let p := c.proveAssociativity s.funcName s.args s.values
    if !p.associative then some (.user .atomicNotAssociative)
    else if p.size ≠ s.values.length then some (.internal "prover_result.size() == values.size()")
    else none
  else if s.allowRaceConditions || s.atomic then none
  else some (.user (.raceCondition var))

/-- The loop of `Stage::set_dim_type`: every dimension matching `var` gets `t`
(then meets the race gate), and marking `Vectorized` fails at any other dimension
already `Vectorized`. Returns the list and whether `var` matched, or the error and
the list as written up to it. -/
def setDimTypeLoop (gate : Option Error) (var : VarOrRVar) (t : ForType) :
    List Dim → Except (Error × List Dim) (List Dim × Bool)
  | [] => .ok ([], false)
  | d :: ds =>
      if varNameMatch d.var var.name then
        match (if !d.isPure && var.isRVar && t.isParallel then gate else none) with
        | some e => .error (e, { d with forType := t } :: ds)
        | none => match setDimTypeLoop gate var t ds with
          | .ok (ds', _) => .ok ({ d with forType := t } :: ds', true)
          | .error (e, ds') => .error (e, { d with forType := t } :: ds')
      else if t = .vectorized ∧ d.forType = .vectorized then
        .error (.user (.multipleVectorization var.name d.var), d :: ds)
      else match setDimTypeLoop gate var t ds with
        | .ok (ds', found) => .ok (d :: ds', found)
        | .error (e, ds') => .error (e, d :: ds')

/-- `Stage::set_dim_type(var, t)`. -/
def setDimType (c : Collaborators) (var : VarOrRVar) (t : ForType) (s : Stage) : Result Unit :=
  match setDimTypeLoop (raceGate c s var.name) var t s.dims with
  | .error (e, dims) => .error e { s with dims := dims }
  | .ok (dims, found) =>
    if found then .ok () { s with dims := dims }
    else .error (.user (.setDimTypeNotFound var.name)) { s with dims := dims }

/-- `Stage::set_dim_device_api(var, device_api)`: every dimension matching `var`. -/
def setDimDeviceApi (var : VarOrRVar) (api : DeviceAPI) (s : Stage) : Result Unit :=
  if s.dims.any (fun d => varNameMatch d.var var.name) then
    .ok () { s with dims := s.dims.map fun d =>
      if varNameMatch d.var var.name then { d with deviceApi := api } else d }
  else .error (.user (.setDeviceApiNotFound var.name)) s

/-- `Stage::allow_race_conditions()`. -/
def allowRaceConditionsOn (s : Stage) : Stage := { s with allowRaceConditions := true }

/-- `Stage::atomic(override_associativity_test)`. -/
def atomicOn (override : Bool) (s : Stage) : Stage :=
  { s with atomic := true, overrideAtomicAssociativityTest := override }

/-! ### `reorder` -/

/-- The position of the last dimension matching `name` (`idx[i]` of `reorder`). -/
def lastMatch (name : String) : List Dim → Option Nat
  | [] => none
  | d :: ds => match lastMatch name ds with
    | some j => some (j + 1)
    | none => if varNameMatch d.var name then some 0 else none

/-- The indices `reorder` resolves its names to, or the first name that does not
resolve. -/
def reorderIndices (dims : List Dim) : List VarOrRVar → Except String (List Nat)
  | [] => .ok []
  | v :: vs => match lastMatch v.name dims with
    | none => .error v.name
    | some j => (reorderIndices dims vs).map (j :: ·)

/-- Whether the dimension at index `k` is an impure reduction variable. -/
def impureAt (dims : List Dim) (k : Nat) : Bool := (dims[k]?).any (!·.isPure)

/-- The first pair of listed names, in list order, that `reorder` sends to the
prover: two impure reduction variables listed against their current order
(`idx[i] > idx[j]` for `i < j`). -/
def reorderCheckedPair (dims : List Dim) : List (VarOrRVar × Nat) → Option (String × String)
  | [] => none
  | (v, i) :: rest =>
      let later := if impureAt dims i then
        rest.find? (fun w => impureAt dims w.2 && decide (i > w.2)) else none
      match later with
      | some (w, _) => some (v.name, w.name)
      | none => reorderCheckedPair dims rest

/-- The permutation step of `reorder`: `dims[sorted[i]] = dims_old[idx[i]]`. -/
def reorderDims (dimsOld : List Dim) (idx : List Nat) : List Dim :=
  ((idx.insertionSort (· ≤ ·)).zip idx).foldl
    (fun ds p => match dimsOld[p.2]? with
      | some d => ds.set p.1 d
      | none => ds) dimsOld

/-- The `compute_with` re-targeting of `reorder`: the fuse level moves to the
dimension that now holds the slot of the one it named (the innermost one when none
matched), resolved back to a listed name. Returns the new fuse level, or the
internal error `var_name_match` and `internal_assert(found)` raise. -/
def retargetFuseLevel (fl : FuseLoopLevel) (dimsOld dims : List Dim)
    (vars : List VarOrRVar) : Except Error FuseLoopLevel :=
  match fl.level with
  | .at func v stageIndex =>
    let newVarName := match (dimsOld.zip dims).find? (fun p => varNameMatch p.1.var v.name) with
      | some p => p.2.var
      | none => ((dims.head?).map (·.var)).getD ""
    if newVarName = v.name then .ok fl
    else if '.' ∈ newVarName.toList ∧ !vars.isEmpty then
      .error (.internal "var_name_match expects unqualified names for the second argument")
    else match vars.find? (fun w => varNameMatch w.name newVarName) with
      | some w => .ok { fl with level := .at func w stageIndex }
      | none => .error (.internal "found")
  | _ => .ok fl

/-- `Stage::reorder(vars)`: the listed dimensions are permuted among the slots they
hold, first name innermost; a pair of impure reduction variables listed against
their current order needs the prover to certify the update associative and
commutative. -/
def reorder (c : Collaborators) (vars : List VarOrRVar) (s : Stage) : Result Unit :=
  match reorderIndices s.dims vars with
  | .error n => .error (.user (.reorderNotFound n)) s
  | .ok idx =>
    let proven := match reorderCheckedPair s.dims (vars.zip idx) with
      | none => none
      | some (a, b) =>
        let p := c.proveAssociativity s.funcName s.args s.values
        if p.associative && p.commutative then none else some (a, b)
    match proven with
    | some (a, b) => .error (.user (.reorderUnsafe a b)) s
    | none =>
      let dims := reorderDims s.dims idx
      if s.fuseLevel.level.isInlined then .ok () { s with dims := dims }
      else match retargetFuseLevel s.fuseLevel s.dims dims vars with
        | .error e => .error e s
        | .ok fl => .ok () { s with dims := dims, fuseLevel := fl }

/-! ### What each directive can do

One inversion lemma per directive for a successful call (`*_ok`) and one for a
failed call (`*_error`); the properties are proved from these, never by unfolding
the directives again. -/


theorem updateFirstMatch_eq {name : String} {f : Dim → Dim} :
    ∀ {dims dims' : List Dim} {d : Dim}, updateFirstMatch name f dims = some (dims', d) →
    ∃ pre post, dims = pre ++ d :: post ∧ (∀ e ∈ pre, varNameMatch e.var name = false) ∧
      varNameMatch d.var name = true ∧ dims' = pre ++ f d :: post
  | [], _, _, h => by simp [updateFirstMatch] at h
  | e :: es, dims', d, h => by
    unfold updateFirstMatch at h
    split at h
    · next hm =>
      simp only [Option.some.injEq, Prod.mk.injEq] at h
      obtain ⟨rfl, rfl⟩ := h
      exact ⟨[], es, rfl, by simp, hm, rfl⟩
    · next hm =>
      obtain ⟨⟨r1, r2⟩, hr, hrr⟩ := Option.map_eq_some'.1 h
      obtain ⟨pre, post, rfl, hpre, hd, rfl⟩ := updateFirstMatch_eq hr
      simp only [Prod.mk.injEq] at hrr
      obtain ⟨rfl, rfl⟩ := hrr
      exact ⟨e :: pre, post, rfl, by simpa [hm] using hpre, hd, rfl⟩

theorem updateFirstMatch_none {name : String} {f : Dim → Dim} :
    ∀ {dims : List Dim}, updateFirstMatch name f dims = none →
      ∀ d ∈ dims, varNameMatch d.var name = false
  | [], _ => by simp
  | e :: es, h => by
    unfold updateFirstMatch at h
    split at h
    · cases h
    · next hm =>
      simp only [Option.map_eq_none'] at h
      simpa [hm] using updateFirstMatch_none h

theorem eraseFirstMatch_eq {name : String} :
    ∀ {dims dims' : List Dim} {d : Dim}, eraseFirstMatch name dims = some (dims', d) →
    ∃ pre post, dims = pre ++ d :: post ∧ (∀ e ∈ pre, varNameMatch e.var name = false) ∧
      varNameMatch d.var name = true ∧ dims' = pre ++ post
  | [], _, _, h => by simp [eraseFirstMatch] at h
  | e :: es, dims', d, h => by
    unfold eraseFirstMatch at h
    split at h
    · next hm =>
      simp only [Option.some.injEq, Prod.mk.injEq] at h
      obtain ⟨rfl, rfl⟩ := h
      exact ⟨[], es, rfl, by simp, hm, rfl⟩
    · next hm =>
      obtain ⟨⟨r1, r2⟩, hr, hrr⟩ := Option.map_eq_some'.1 h
      obtain ⟨pre, post, rfl, hpre, hd, rfl⟩ := eraseFirstMatch_eq hr
      simp only [Prod.mk.injEq] at hrr
      obtain ⟨rfl, rfl⟩ := hrr
      exact ⟨e :: pre, post, rfl, by simpa [hm] using hpre, hd, rfl⟩

/-- The lookup-and-rewrite finds the first dimension matching `name`. -/
theorem updateFirstMatch_append {name : String} {f : Dim → Dim} {d : Dim} {post : List Dim} :
    ∀ {pre : List Dim}, (∀ e ∈ pre, varNameMatch e.var name = false) → varNameMatch d.var name →
      updateFirstMatch name f (pre ++ d :: post) = some (pre ++ f d :: post, d)
  | [], _, hd => by simp [updateFirstMatch, hd]
  | e :: pre, hpre, hd => by
    simp [updateFirstMatch, hpre e (List.mem_cons_self _ _),
      updateFirstMatch_append (fun x hx => hpre x (List.mem_cons_of_mem _ hx)) hd]

/-- The lookup-and-erase finds the first dimension matching `name`. -/
theorem eraseFirstMatch_append {name : String} {d : Dim} {post : List Dim} :
    ∀ {pre : List Dim}, (∀ e ∈ pre, varNameMatch e.var name = false) → varNameMatch d.var name →
      eraseFirstMatch name (pre ++ d :: post) = some (pre ++ post, d)
  | [], _, hd => by simp [eraseFirstMatch, hd]
  | e :: pre, hpre, hd => by
    simp [eraseFirstMatch, hpre e (List.mem_cons_self _ _),
      eraseFirstMatch_append (fun x hx => hpre x (List.mem_cons_of_mem _ hx)) hd]

theorem fuse_ok {inner outer fused : VarOrRVar} {s s' : Stage} {u : Unit}
    (h : fuse inner outer fused s = .ok u s') :
    ∃ dims o dims' i, eraseFirstMatch outer.name s.dims = some (dims, o) ∧
      updateFirstMatch inner.name (fuseInner fused.name o.dimType) dims = some (dims', i) ∧
      i.isRVar = o.isRVar ∧
      s' = { s with dims := dims', splits := s.splits ++
        [⟨i.var ++ "." ++ fused.name, o.var, i.var, .undef, true, .roundUp, .fuseVars⟩] } := by
  unfold fuse at h
  split at h
  · cases h
  split at h
  · cases h
  next dims o he =>
  split at h
  · cases h
  next dims' i hu =>
  split at h
  · cases h
  next hk =>
  cases h
  exact ⟨dims, o, dims', i, he, hu, not_not.1 hk, rfl⟩

/-- A failed `fuse` wrote at most the Dimension List, and nothing unless the inner
lookup failed after the outer dimension was erased. -/
theorem fuse_error {inner outer fused : VarOrRVar} {s s' : Stage} {u : UserError}
    (h : fuse inner outer fused s = .error (.user u) s') :
    s' = { s with dims := s'.dims } ∧ (s' = s ∨ u = .fuseInnerNotFound inner.name) := by
  unfold fuse at h
  split at h
  · cases h; exact ⟨rfl, .inl rfl⟩
  split at h
  · cases h; exact ⟨rfl, .inl rfl⟩
  split at h
  · cases h; exact ⟨rfl, .inr rfl⟩
  split at h <;> cases h

/-- One entry of `rename`'s history walk: it is refused, rewritten in place (keeping its
kind, tail strategy and exactness), or passed over. -/
theorem renameHistory_cons (o n : String) (sp : Split) (rest : List Split) :
    (renameHistory o n (sp :: rest) = .error (.renameAlreadyFused o sp.oldVar) ∨
      renameHistory o n (sp :: rest) = .error (.renameAlreadySplit o)) ∨
    (∃ sp', renameHistory o n (sp :: rest) = .ok (some (sp' :: rest)) ∧
      (sp'.splitType, sp'.tail, sp'.exact) = (sp.splitType, sp.tail, sp.exact)) ∨
    renameHistory o n (sp :: rest) = (renameHistory o n rest).map (Option.map (sp :: ·)) := by
  generalize hr : renameHistory o n (sp :: rest) = r
  rw [renameHistory] at hr
  split_ifs at hr <;> subst hr
  all_goals first
    | exact .inl (.inl rfl) | exact .inl (.inr rfl) | exact .inr (.inl ⟨_, rfl, rfl⟩)
    | exact .inr (.inr rfl)

/-- The history scan of `rename` rewrites names only: kinds, tails and exactness stay. -/
theorem renameHistory_ok {o n : String} :
    ∀ {rev rev' : List Split}, renameHistory o n rev = .ok (some rev') →
      rev'.map (fun sp => (sp.splitType, sp.tail, sp.exact)) =
        rev.map (fun sp => (sp.splitType, sp.tail, sp.exact))
  | [], _, h => by cases h
  | sp :: rest, rev', h => by
    rcases renameHistory_cons o n sp rest with (he | he) | ⟨sp', he, hsp⟩ | he <;> rw [he] at h
    · cases h
    · cases h
    · cases h
      simp only [List.map_cons, hsp]
    · obtain ⟨r, hr, hrr⟩ := except_map_eq_ok.1 h
      obtain ⟨r, rfl, rfl⟩ := Option.map_eq_some'.1 hrr
      simp [renameHistory_ok hr]

theorem renameHistory_error {o n : String} :
    ∀ {rev : List Split} {u : UserError}, renameHistory o n rev = .error u →
      (∃ f, u = .renameAlreadyFused o f) ∨ u = .renameAlreadySplit o
  | [], _, h => by cases h
  | sp :: rest, u, h => by
    rcases renameHistory_cons o n sp rest with (he | he) | ⟨sp', he, -⟩ | he <;> rw [he] at h
    · cases h; exact .inl ⟨_, rfl⟩
    · cases h; exact .inr rfl
    · cases h
    · exact renameHistory_error (except_map_eq_error.1 h)

theorem rename_ok {old new : VarOrRVar} {s s' : Stage} {u : Unit}
    (h : rename old new s = .ok u s') :
    ∃ dims d splits, updateFirstMatch old.name (fun d => { d with var := d.var ++ "." ++ new.name })
        s.dims = some (dims, d) ∧
      s' = { s with dims := dims, splits := splits } ∧
      (renameHistory d.var (d.var ++ "." ++ new.name) s.splits.reverse = .ok (some splits.reverse) ∨
        splits = s.splits ++ [⟨d.var, d.var ++ "." ++ new.name, "", .intImm 1, old.isRVar, .roundUp,
          .renameVar⟩]) := by
  unfold rename at h
  split at h
  · cases h
  split at h
  · cases h
  next dims d hu =>
  dsimp only at h
  split at h
  · cases h
  · next rev hr => cases h; exact ⟨dims, d, _, hu, rfl, .inl (by simpa using hr)⟩
  · cases h; exact ⟨dims, d, _, hu, rfl, .inr rfl⟩

/-- A failed `rename` wrote at most the Dimension List, and nothing unless the
history scan refused it after the dimension was renamed. -/
theorem rename_error {old new : VarOrRVar} {s s' : Stage} {u : UserError}
    (h : rename old new s = .error (.user u) s') :
    s' = { s with dims := s'.dims } ∧
      (s' = s ∨ (∃ o f, u = .renameAlreadyFused o f) ∨ ∃ o, u = .renameAlreadySplit o) := by
  unfold rename at h
  split at h
  · cases h; exact ⟨rfl, .inl rfl⟩
  split at h
  · cases h; exact ⟨rfl, .inl rfl⟩
  dsimp only at h
  split at h
  · next e he =>
    cases h
    refine ⟨rfl, .inr ?_⟩
    rcases renameHistory_error he with ⟨f, rfl⟩ | rfl
    · exact .inl ⟨_, f, rfl⟩
    · exact .inr ⟨_, rfl⟩
  all_goals cases h

theorem purify_ok {old new : VarOrRVar} {s s' : Stage} {u : Unit}
    (h : purify old new s = .ok u s') :
    ∃ dims d, updateFirstMatch old.name (fun d => { d with var := new.name, dimType := .pureVar })
        s.dims = some (dims, d) ∧
      s' = { s with dims := dims, splits := s.splits ++
        [⟨d.var, new.name, "", .intImm 1, false, .roundUp, .purifyRVar⟩] } := by
  unfold purify at h
  split at h
  · cases h
  split at h
  · cases h
  · next dims d hu => cases h; exact ⟨dims, d, hu, rfl⟩

/-- A failed `purify` wrote nothing. -/
theorem purify_error {old new : VarOrRVar} {s s' : Stage} {e : Error}
    (h : purify old new s = .error e s') : s' = s := by
  unfold purify at h
  split at h
  · cases h; rfl
  split at h <;> cases h; rfl

theorem eraseExact_sublist {var : String} :
    ∀ {dims dims' : List Dim}, eraseExact var dims = some dims' → dims'.Sublist dims
  | [], _, h => by cases h
  | d :: ds, dims', h => by
    unfold eraseExact at h
    split at h
    · cases h; exact List.sublist_cons_self d ds
    · obtain ⟨r, hr, rfl⟩ := Option.map_eq_some'.1 h
      exact (eraseExact_sublist hr).cons₂ d

/-- One entry of `remove_dimension`'s history walk: it is refused, dropped (the walk goes
on with a larger removed set) or kept. -/
theorem removeHistory_cons (o : String) (removed : List String) (sp : Split) (rest : List Split) :
    (removeHistory o removed (sp :: rest) = .error (.removeAlreadyFused o sp.oldVar) ∨
      removeHistory o removed (sp :: rest) = .error (.removeAlreadySplit o)) ∨
    (∃ r, removeHistory o removed (sp :: rest) = removeHistory o r rest) ∨
    removeHistory o removed (sp :: rest) = (removeHistory o removed rest).map (· ++ [sp]) := by
  generalize hr : removeHistory o removed (sp :: rest) = r
  rw [removeHistory] at hr
  split_ifs at hr <;> subst hr
  all_goals first
    | exact .inl (.inl rfl) | exact .inl (.inr rfl) | exact .inr (.inl ⟨_, rfl⟩)
    | exact .inr (.inr rfl)

/-- `remove_dimension`'s history walk only drops entries. -/
theorem removeHistory_sublist {o : String} :
    ∀ {removed : List String} {rev kept : List Split}, removeHistory o removed rev = .ok kept →
      kept.Sublist rev.reverse
  | _, [], _, h => by cases h; exact List.nil_sublist _
  | removed, sp :: rest, kept, h => by
    rcases removeHistory_cons o removed sp rest with (he | he) | ⟨r, he⟩ | he <;> rw [he] at h
    · cases h
    · cases h
    · simpa using (removeHistory_sublist h).trans (List.sublist_append_left _ [sp])
    · obtain ⟨k, hk, rfl⟩ := except_map_eq_ok.1 h
      simpa using (removeHistory_sublist hk).append_right [sp]

theorem removeHistory_error {o : String} :
    ∀ {removed : List String} {rev : List Split} {u : UserError},
      removeHistory o removed rev = .error u →
      (∃ f, u = .removeAlreadyFused o f) ∨ u = .removeAlreadySplit o
  | _, [], _, h => by cases h
  | removed, sp :: rest, u, h => by
    rcases removeHistory_cons o removed sp rest with (he | he) | ⟨r, he⟩ | he <;> rw [he] at h
    · cases h; exact .inl ⟨_, rfl⟩
    · cases h; exact .inr rfl
    · exact removeHistory_error h
    · exact removeHistory_error (except_map_eq_error.1 h)

theorem removeDimension_ok {var : String} {s s' : Stage} {u : Unit}
    (h : removeDimension var s = .ok u s') :
    ∃ dims kept, eraseExact var s.dims = some dims ∧
      removeHistory var [var] s.splits.reverse = .ok kept ∧
      s' = { s with dims := dims, splits := kept } := by
  unfold removeDimension at h
  split at h
  · cases h
  next dims hd =>
  dsimp only at h
  split at h
  · cases h
  · next kept hk => cases h; exact ⟨dims, kept, hd, hk, rfl⟩

theorem removeDimension_error {var : String} {s s' : Stage} {e : Error}
    (h : removeDimension var s = .error e s') :
    e = .user (.removeNotFound var) ∨ (∃ f, e = .user (.removeAlreadyFused var f)) ∨
      e = .user (.removeAlreadySplit var) := by
  unfold removeDimension at h
  split at h
  · cases h; exact .inl rfl
  dsimp only at h
  split at h
  · next u hu =>
    cases h
    rcases removeHistory_error hu with ⟨f, rfl⟩ | rfl
    · exact .inr (.inl ⟨f, rfl⟩)
    · exact .inr (.inr rfl)
  · cases h

/-- The Dimension List after `set_dim_type(var, t)`: every match marked `t`. -/
def markDims (var : VarOrRVar) (t : ForType) (dims : List Dim) : List Dim :=
  dims.map fun d => if varNameMatch d.var var.name then { d with forType := t } else d

/-- What a successful pass of the `set_dim_type` loop did and checked. -/
theorem setDimTypeLoop_ok {gate : Option Error} {var : VarOrRVar} {t : ForType} :
    ∀ {dims dims' : List Dim} {found : Bool},
      setDimTypeLoop gate var t dims = .ok (dims', found) →
      dims' = markDims var t dims ∧ found = dims.any (fun d => varNameMatch d.var var.name) ∧
      (∀ d ∈ dims, varNameMatch d.var var.name = true →
        (!d.isPure && var.isRVar && t.isParallel) = true → gate = none) ∧
      (t = .vectorized → ∀ d ∈ dims, varNameMatch d.var var.name = false → d.forType ≠ .vectorized)
  | [], _, _, h => by cases h; simp [markDims]
  | d :: ds, dims', found, h => by
    unfold setDimTypeLoop at h
    split at h
    · next hm =>
      split at h
      · cases h
      next hg =>
      split at h
      · next ds' f hr =>
        cases h
        obtain ⟨rfl, -, hgate, hvec⟩ := setDimTypeLoop_ok hr
        exact ⟨by simp [markDims, hm], by simp [hm],
          List.forall_mem_cons.2 ⟨fun _ hp => by simpa [hp] using hg, hgate⟩,
          fun ht => List.forall_mem_cons.2 ⟨by simp [hm], hvec ht⟩⟩
      · cases h
    · next hm =>
      split at h
      · cases h
      split at h
      · next ds' f hr =>
        cases h
        obtain ⟨rfl, rfl, hgate, hvec⟩ := setDimTypeLoop_ok hr
        exact ⟨by simp [markDims, hm], by simp [hm], List.forall_mem_cons.2 ⟨by simp [hm], hgate⟩,
          fun ht => List.forall_mem_cons.2 ⟨fun _ hv => ‹¬(t = .vectorized ∧ _)› ⟨ht, hv⟩, hvec ht⟩⟩
      · cases h

theorem setDimTypeLoop_error {gate : Option Error} {var : VarOrRVar} {t : ForType} :
    ∀ {dims dims' : List Dim} {e : Error}, setDimTypeLoop gate var t dims = .error (e, dims') →
      gate = some e ∨ ∃ n, e = .user (.multipleVectorization var.name n)
  | [], _, _, h => by cases h
  | d :: ds, dims', e, h => by
    unfold setDimTypeLoop at h
    split at h
    · split at h
      · next e' hg =>
        cases h
        split at hg
        · exact .inl hg
        · cases hg
      split at h
      · cases h
      · cases h; exact setDimTypeLoop_error ‹_›
    split at h
    · cases h; exact .inr ⟨_, rfl⟩
    split at h
    · cases h
    · cases h; exact setDimTypeLoop_error ‹_›

theorem raceGate_none {c : Collaborators} {s : Stage} {var : String}
    (h : raceGate c s var = none) : s.allowRaceConditions = true ∨ s.atomic = true := by
  unfold raceGate at h
  split at h
  · next hc =>
    simp only [Bool.and_eq_true, Bool.not_eq_true'] at hc
    exact .inr hc.1.2
  split at h
  · next hc => simpa using hc
  · cases h

theorem raceGate_user {c : Collaborators} {s : Stage} {var : String} {u : UserError}
    (h : raceGate c s var = some (.user u)) : u = .atomicNotAssociative ∨ u = .raceCondition var := by
  unfold raceGate at h
  split at h
  · dsimp only at h
    split at h
    · cases h; exact .inl rfl
    split at h <;> cases h
  split at h
  · cases h
  · cases h; exact .inr rfl

theorem setDimType_ok {c : Collaborators} {var : VarOrRVar} {t : ForType} {s s' : Stage} {u : Unit}
    (h : setDimType c var t s = .ok u s') :
    s' = { s with dims := markDims var t s.dims } ∧
      (∀ d ∈ s.dims, varNameMatch d.var var.name = true →
        (!d.isPure && var.isRVar && t.isParallel) = true → raceGate c s var.name = none) ∧
      (t = .vectorized → ∀ d ∈ s.dims, varNameMatch d.var var.name = false → d.forType ≠ .vectorized) := by
  unfold setDimType at h
  split at h
  · cases h
  · next dims found hl =>
    obtain ⟨rfl, -, hgate, hvec⟩ := setDimTypeLoop_ok hl
    split at h
    · cases h; exact ⟨rfl, hgate, hvec⟩
    · cases h

/-- A failed `set_dim_type` wrote at most the Dimension List, and nothing unless it
failed in its race gate or its vectorization check, after marking the dimensions
before. -/
theorem setDimType_error {c : Collaborators} {var : VarOrRVar} {t : ForType} {s s' : Stage}
    {u : UserError} (h : setDimType c var t s = .error (.user u) s') :
    s' = { s with dims := s'.dims } ∧ (s' = s ∨ u = .atomicNotAssociative ∨
      u = .raceCondition var.name ∨ ∃ n, u = .multipleVectorization var.name n) := by
  unfold setDimType at h
  split at h
  · next e dims hl =>
    cases h
    refine ⟨rfl, .inr ?_⟩
    rcases setDimTypeLoop_error hl with hg | ⟨n, hn⟩
    · rcases raceGate_user hg with rfl | rfl
      · exact .inl rfl
      · exact .inr (.inl rfl)
    · cases hn; exact .inr (.inr ⟨n, rfl⟩)
  · next dims found hl =>
    obtain ⟨rfl, rfl, -⟩ := setDimTypeLoop_ok hl
    split at h
    · cases h
    · next hf =>
      cases h
      refine ⟨rfl, .inl ?_⟩
      have : markDims var t s.dims = s.dims := by
        simp only [List.any_eq_true, not_exists, not_and, Bool.not_eq_true] at hf
        exact (List.map_congr_left fun d hd => by simp [hf d hd]).trans (List.map_id _)
      simp [this]

theorem setDimDeviceApi_ok {var : VarOrRVar} {api : DeviceAPI} {s s' : Stage} {u : Unit}
    (h : setDimDeviceApi var api s = .ok u s') :
    s' = { s with dims := s.dims.map fun d =>
      if varNameMatch d.var var.name then { d with deviceApi := api } else d } := by
  unfold setDimDeviceApi at h
  split at h
  · cases h; rfl
  · cases h

theorem setDimDeviceApi_error {var : VarOrRVar} {api : DeviceAPI} {s s' : Stage} {e : Error}
    (h : setDimDeviceApi var api s = .error e s') : s' = s := by
  unfold setDimDeviceApi at h
  split at h <;> cases h; rfl

/-- `reorder` only permutes: every entry of the new list is an old one. -/
theorem reorderDims_mem {dimsOld : List Dim} {idx : List Nat} :
    ∀ d ∈ reorderDims dimsOld idx, d ∈ dimsOld := by
  suffices h : ∀ (ps : List (Nat × Nat)) (ds : List Dim), (∀ d ∈ ds, d ∈ dimsOld) →
      ∀ d ∈ ps.foldl (fun ds p => match dimsOld[p.2]? with
        | some d => ds.set p.1 d
        | none => ds) ds, d ∈ dimsOld from h _ _ fun _ => id
  intro ps
  induction ps with
  | nil => exact fun ds hds => hds
  | cons p ps ih =>
    intro ds hds
    apply ih
    intro d hd
    dsimp only at hd
    split at hd
    · next d' hd' =>
      rcases List.mem_or_eq_of_mem_set hd with hd | rfl
      · exact hds d hd
      · exact List.getElem?_mem hd'
    · exact hds d hd

theorem reorder_ok {c : Collaborators} {vars : List VarOrRVar} {s s' : Stage} {u : Unit}
    (h : reorder c vars s = .ok u s') :
    ∃ idx fl, s' = { s with dims := reorderDims s.dims idx, fuseLevel := fl } := by
  unfold reorder at h
  split at h
  · cases h
  next idx _ =>
  dsimp only at h
  split at h
  · cases h
  split at h
  · cases h; exact ⟨idx, s.fuseLevel, rfl⟩
  split at h
  · cases h
  · cases h; exact ⟨idx, _, rfl⟩

/-- A failed `reorder` wrote nothing: it permutes a copy and checks before the swap. -/
theorem reorder_error {c : Collaborators} {vars : List VarOrRVar} {s s' : Stage} {e : Error}
    (h : reorder c vars s = .error e s') : s' = s := by
  unfold reorder at h
  split at h
  · cases h; rfl
  dsimp only at h
  split at h
  · cases h; rfl
  split at h
  · cases h
  split at h
  · cases h; rfl
  · cases h

end Stage

end HalideSchedule
