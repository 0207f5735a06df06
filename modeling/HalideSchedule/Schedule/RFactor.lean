import HalideSchedule.Schedule.Directives
import HalideSchedule.Schedule.ApplySplit
import Mathlib.Data.List.InsertIdx

/-!
# HalideSchedule.Schedule.RFactor

**`Stage::rfactor(preserved)`.** Given reduction variables to keep, each paired with
a fresh pure `Var`, `rfactor` splits an associative update in two:

* a new intermediate function `f_intm(x, u)` whose pure definition is the prover's
  identity and whose update runs over the *lifted* reduction variables, with each
  kept one replaced by its `Var` and every self-reference redirected to `f_intm`;
* the original update, rewritten to run over the kept variables only and to combine
  `f(x)` with `f_intm(x, kept)` through the prover's operator.

The checks (`rfactorChecks`) run before any write. From the replay of the pending
splits on (`rfactorApply`) the stage is rewritten in place, and the errors that can
still occur there (`remove_dimension`'s, the `purify` on the intermediate's update,
and the internal assertions) leave those writes behind.
-/

namespace HalideSchedule

/-- The `Func` that `rfactor` returns: its name, pure arguments, pure definition, and
its update definition as a stage. -/
structure Intermediate where
  name : String
  args : List String
  initValues : List Expr
  update : Stage

namespace Stage

/-- The per-pair checks of `rfactor`: the first dimension matching the `RVar` must be
a reduction variable, and the `Var` must match no dimension. Returns the positions
of the matched dimensions (`is_rfactored`). -/
def rfactorValidate (dims : List Dim) : List (VarOrRVar × VarOrRVar) → Except UserError (List Nat)
  | [] => .ok []
  | (rv, v) :: rest =>
    match dims.findIdx? (fun d => varNameMatch d.var rv.name) with
    | some i =>
      if !(dims[i]?).any Dim.isRVar then .error (.rfactorNotInDomain rv.name)
      else if dims.any (fun d => varNameMatch d.var v.name) then .error (.rfactorNameUsed rv.name v.name)
      else (rfactorValidate dims rest).map (i :: ·)
    | none => .error (.rfactorNotInDomain rv.name)

/-- The non-commutative check of `rfactor`, walking the dimensions from the outermost
in with the last reduction variable seen: a marked dimension just inside an unmarked
reduction variable is refused (the name is the one the message prints). -/
def nonCommutativeViolation (marked : List Nat) : List (Nat × Dim) → Option Nat → Option String
  | [], _ => none
  | (i, d) :: rest, last =>
    if i ∈ marked ∧ last.any (· ∉ marked) then some d.var
    else nonCommutativeViolation marked rest (if d.isRVar then some i else last)

/-- The position of the first reduction variable matching `name` (the sort key of
`rfactor`). -/
def rvarPosition (rvars : List ReductionVariable) (name : String) : Nat :=
  (rvars.findIdx? (fun rv => varNameMatch rv.var name)).getD rvars.length

/-- The replacement of the kept variables in the intermediate's update: each one's
full name (looked up in the kept domain) maps to its new `Var`. `none` is the
dereference of a not-found iterator. -/
def keptSubstitution (kept : List ReductionVariable) :
    List (VarOrRVar × VarOrRVar) → Option (List (String × Expr))
  | [] => some []
  | (rv, v) :: rest =>
    match kept.find? (fun k => varNameMatch k.var rv.name) with
    | some k => (keptSubstitution kept rest).map ((k.var, Expr.ofVar v.name) :: ·)
    | none => none

/-- Add the function's pure `Var`s missing from the Dimension List, just before the
outermost entry (`dims.insert(dims.end() - 1, d)`). -/
def addPureDims (dims : List Dim) : List String → List Dim
  | [] => dims
  | v :: vs =>
    let dims := if dims.any (fun d => varNameMatch d.var v) then dims
      else dims.insertIdx (dims.length - 1) ⟨v, .serial, .none, .pureVar⟩
    addPureDims dims vs

/-- Run a directive for each element of a list, stopping at the first error. -/
def forEachM {β : Type} (f : β → Stage → Result Unit) : List β → Stage → Result Unit
  | [], s => .ok () s
  | b :: bs, s => match f b s with
    | .ok () s' => forEachM f bs s'
    | .error e s' => .error e s'

/-- The combining values of the rewritten update: each element's operator with the
accumulator operand replaced by the self-load `f(x)` and the new contribution by
the call `f_intm(x, kept)` (the first binding of an operand name wins, as
`std::map::emplace` keeps it). -/
def mergeValues (p : AssociativeOp) (funcName intmName : String) (nValues : Nat)
    (storeArgs loadArgs : List Expr) : List Expr :=
  let replacements := (List.range nValues).foldl (fun m i =>
    let t := ((p.pattern.identities[i]?).map Expr.type).getD .int
    let m := match p.ys[i]? with
      | some y => if y.var = "" ∨ (m.lookup y.var).isSome then m
          else m ++ [(y.var, .call t .halide intmName loadArgs (if nValues = 1 then 0 else i))]
      | none => m
    match p.xs[i]? with
    | some x => if x.var = "" ∨ (m.lookup x.var).isSome then m
        else m ++ [(x.var, .call t .halide funcName storeArgs i)]
    | none => m) []
  (p.pattern.ops.take nValues).map (·.substitute replacements)

/-- The checks of `rfactor`, all before any write: an update definition, an
associative operator with one pattern per value, the per-pair checks, and, for a
non-commutative operator, that no kept reduction variable sits inside a lifted one. -/
def rfactorChecks (c : Collaborators) (preserved : List (VarOrRVar × VarOrRVar)) (s : Stage) :
    Except Error AssociativeOp :=
  if s.isInit then .error (.user .rfactorOnInit)
  else
    let p := c.proveAssociativity s.funcName s.args s.values
    if !p.associative then .error (.user .rfactorNotAssociative)
    else if p.size ≠ s.values.length then .error (.internal "prover_result.size() == values.size()")
    else match rfactorValidate s.dims preserved with
      | .error e => .error (.user e)
      | .ok marked =>
        match (if p.commutative then none
            else nonCommutativeViolation marked s.dims.enum.reverse none) with
        | some d => .error (.user (.rfactorNonCommutative d))
        | none => .ok p

/-- The rewriting part of `rfactor`, after its checks passed with prover answer `p`. -/
def rfactorApply (c : Collaborators) (p : AssociativeOp)
    (preserved : List (VarOrRVar × VarOrRVar)) (s : Stage) : Result Intermediate :=
  -- Replay the pending splits on the reduction domain; the ones that applied leave
  -- the history. `args`, `values` and `rvars` are the definition's own.
  let (rvars, e, pending) := ApplySplit.replay c s.splits s.rvars ⟨s.predicate, s.args, s.values⟩
  let s1 := { s with rvars := rvars, args := e.args, values := e.values, splits := pending }
  let lifted := rvars.filter fun rv => !preserved.any fun pr => varNameMatch rv.var pr.1.name
  let preserved := preserved.insertionSort fun a b =>
    rvarPosition rvars a.1.name ≤ rvarPosition rvars b.1.name
  let kept := rvars.filter fun rv => preserved.any fun pr => varNameMatch rv.var pr.1.name
  -- `rvars_removed`: the lifted variables, collected again by a second loop.
  let removed := lifted.map (·.var)
  let s2 := { s1 with rvars := kept }
  let renames := preserved.map (·.2.name)
  let intmName := s.funcName ++ "_intm"
  let initArgs := s.dimVars ++ renames
  match keptSubstitution kept preserved with
  | none => .error (.internal "iterator into rvars_kept not found") s2
  | some keptMap =>
    -- `substitution_map[...] = ...` overwrites: a later kept pair shadows an earlier one.
    let substitution := lifted.map (fun rv => (rv.var, Expr.ofVar rv.var)) ++ keptMap.reverse
    let isLifted := fun n => lifted.any (·.var = n)
    let s3 := { s2 with predicate := e.predicates.filter fun pr => !pr.usesVars isLifted }
    let intmUpdate : Stage :=
      { funcName := intmName, dimVars := initArgs, storageDims := s.storageDims ++ renames,
        hasExternDefinition := false, stageIndex := 1, isInit := false,
        args := e.args.map (·.substitute substitution) ++ renames.map Expr.ofVar,
        values := e.values.map fun v =>
          (v.substitute substitution).substituteSelfReference s.funcName intmName renames,
        predicate := e.predicates.map (·.substitute substitution),
        dims := s.dims, splits := pending, rvars := lifted,
        allowRaceConditions := false, atomic := false, overrideAtomicAssociativityTest := false,
        fuseLevel := .none, specializations := [] }
    if initArgs.length ≠ s.storageDims.length + renames.length then
      .error (.internal "intm_storage_dims.size()") s3
    else
      match forEachM (fun pr => purify ⟨pr.1.name, true, pr.1.unqualified⟩
          ⟨pr.2.name, false, pr.2.unqualified⟩) preserved intmUpdate with
      | .error e _ => .error e s3
      | .ok () intmUpdate =>
        match forEachM removeDimension removed { s3 with dims := addPureDims s.dims s.dimVars } with
        | .error e s4 => .error e s4
        | .ok () s4 =>
          let storeArgs := s.dimVars.map Expr.ofVar
          let loadArgs := storeArgs ++ kept.map (Expr.ofVar ·.var)
          if loadArgs.length ≠ initArgs.length then .error (.internal "f_load_args.size()") s4
          else
            .ok ⟨intmName, initArgs, p.pattern.identities.take s.values.length, intmUpdate⟩
              { s4 with args := storeArgs,
                        values := mergeValues p s.funcName intmName s.values.length storeArgs loadArgs }

/-- `Stage::rfactor(preserved)`. -/
def rfactor (c : Collaborators) (preserved : List (VarOrRVar × VarOrRVar)) (s : Stage) :
    Result Intermediate :=
  match rfactorChecks c preserved s with
  | .error e => .error e s
  | .ok p => rfactorApply c p preserved s

/-! ### What an `rfactor` call can do -/

theorem forEachM_error {β : Type} {f : β → Stage → Result Unit} :
    ∀ {bs : List β} {s s' : Stage} {e : Error}, forEachM f bs s = .error e s' →
      ∃ b ∈ bs, ∃ s0, f b s0 = .error e s'
  | [], _, _, _, h => by cases h
  | b :: bs, s, s', e, h => by
    unfold forEachM at h
    split at h
    · obtain ⟨b', hb', s0, h0⟩ := forEachM_error h
      exact ⟨b', List.mem_cons_of_mem b hb', s0, h0⟩
    · next s1 h1 => cases h; exact ⟨b, List.mem_cons_self b bs, s, h1⟩

theorem forEachM_ok {β : Type} {f : β → Stage → Result Unit} (P : Stage → Prop)
    (hf : ∀ b s s', P s → f b s = .ok () s' → P s') :
    ∀ {bs : List β} {s s' : Stage}, P s → forEachM f bs s = .ok () s' → P s'
  | [], _, _, hs, h => by cases h; exact hs
  | b :: bs, s, s', hs, h => by
    unfold forEachM at h
    split at h
    · next s1 h1 => exact forEachM_ok P hf (hf b s s1 hs h1) h
    · cases h

theorem purify_user_error {old new : VarOrRVar} {s s' : Stage} {u : UserError}
    (h : purify old new s = .error (.user u) s') :
    (old.isRVar && !new.isRVar) = false ∨ u = .purifyNotFound old.name := by
  unfold purify at h
  split at h
  · next hc => exact .inl (by revert hc; cases old.isRVar <;> cases new.isRVar <;> decide)
  split at h
  · cases h; exact .inr rfl
  · cases h

/-- A failed `rfactor` wrote nothing, unless it failed after its checks: in the
`purify` of a kept variable on the intermediate function or in `remove_dimension`. -/
theorem rfactor_error {c : Collaborators} {preserved : List (VarOrRVar × VarOrRVar)}
    {s s' : Stage} {u : UserError} (h : rfactor c preserved s = .error (.user u) s') :
    s' = s ∨ (∃ n, u = .purifyNotFound n) ∨ (∃ n, u = .removeNotFound n) ∨
      (∃ n f, u = .removeAlreadyFused n f) ∨ ∃ n, u = .removeAlreadySplit n := by
  unfold rfactor at h
  split at h
  · cases h; exact .inl rfl
  unfold rfactorApply at h
  dsimp only at h
  split at h
  · cases h
  split at h
  · cases h
  split at h
  · next e _ hp =>
    cases h
    obtain ⟨pr, -, s0, h0⟩ := forEachM_error hp
    rcases purify_user_error h0 with hc | rfl
    · simp at hc
    · exact .inr (.inl ⟨_, rfl⟩)
  split at h
  · next e _ hr =>
    cases h
    obtain ⟨n, -, s0, h0⟩ := forEachM_error hr
    rcases removeDimension_error h0 with h1 | ⟨f, h1⟩ | h1 <;> cases h1
    · exact .inr (.inr (.inl ⟨_, rfl⟩))
    · exact .inr (.inr (.inr (.inl ⟨_, _, rfl⟩)))
    · exact .inr (.inr (.inr (.inr ⟨_, rfl⟩)))
  split at h
  · cases h
  · cases h

theorem addPureDims_mem : ∀ {dims : List Dim} {vs : List String},
    ∀ d ∈ addPureDims dims vs, d ∈ dims ∨ (d.dimType = .pureVar ∧ d.forType = .serial)
  | _, [], d, hd => .inl hd
  | dims, v :: vs, d, hd => by
    unfold addPureDims at hd
    rcases addPureDims_mem d hd with hd | hd
    · split at hd
      · exact .inl hd
      · rcases (List.mem_insertIdx (Nat.sub_le _ _)).1 hd with rfl | hd
        · exact .inr ⟨rfl, rfl⟩
        · exact .inl hd
    · exact .inr hd

/-- A loop of calls that each write only the Dimension List and the Split History
writes only those. -/
theorem forEachM_frame {β : Type} {f : β → Stage → Result Unit}
    (hf : ∀ b s s', f b s = .ok () s' → s' = { s with dims := s'.dims, splits := s'.splits }) :
    ∀ {bs : List β} {s s' : Stage}, forEachM f bs s = .ok () s' →
      s' = { s with dims := s'.dims, splits := s'.splits }
  | [], _, _, h => by cases h; rfl
  | b :: bs, s, s', h => by
    unfold forEachM at h
    split at h
    · next s1 h1 =>
      have h2 := forEachM_frame hf h
      rw [hf b s s1 h1] at h2
      exact h2
    · cases h

/-- What a successful `rfactor` leaves on the stage it rewrites: only the Dimension
List, the history, the domain, the arguments, the values and the predicate change;
the new list holds old dimensions and new serial pure ones, and the history is a
sub-history of the old one. -/
theorem rfactor_ok_stage {c : Collaborators} {preserved : List (VarOrRVar × VarOrRVar)}
    {s s' : Stage} {i : Intermediate} (h : rfactor c preserved s = .ok i s') :
    s' = { s with dims := s'.dims, splits := s'.splits, rvars := s'.rvars,
                  args := s'.args, values := s'.values, predicate := s'.predicate } ∧
      (∀ d ∈ s'.dims, d ∈ s.dims ∨ (d.dimType = .pureVar ∧ d.forType = .serial)) ∧
      s'.splits.Sublist s.splits := by
  unfold rfactor at h
  split at h
  · cases h
  unfold rfactorApply at h
  dsimp only at h
  split at h
  · cases h
  split at h
  · cases h
  split at h
  · cases h
  split at h
  · cases h
  next s4 hr =>
  split at h
  · cases h
  cases h
  have hframe := forEachM_frame (fun _ _ _ hst => by
    obtain ⟨_, _, -, -, rfl⟩ := removeDimension_ok hst; rfl) hr
  have key : (∀ d ∈ s4.dims, d ∈ s.dims ∨ (d.dimType = .pureVar ∧ d.forType = .serial)) ∧
      s4.splits.Sublist s.splits := by
    refine forEachM_ok (fun st =>
      (∀ d ∈ st.dims, d ∈ s.dims ∨ (d.dimType = .pureVar ∧ d.forType = .serial)) ∧
      st.splits.Sublist s.splits) ?_ ?_ hr
    · rintro n st st' ⟨h4, h5⟩ hst
      obtain ⟨dims, kept, hd, hk, rfl⟩ := removeDimension_ok hst
      exact ⟨fun d hd' => h4 d ((eraseExact_sublist hd).subset hd'),
        (by simpa using removeHistory_sublist hk : kept.Sublist st.splits).trans h5⟩
    · exact ⟨addPureDims_mem, ApplySplit.replay_pending_sublist⟩
  refine ⟨?_, key⟩
  rw [hframe]

/-- The update of the intermediate function `rfactor` returns is an update
definition with neither escape hatch and no specialization, whose history is old
entries and purifies. -/
theorem rfactor_ok_intermediate {c : Collaborators} {preserved : List (VarOrRVar × VarOrRVar)}
    {s s' : Stage} {i : Intermediate} (h : rfactor c preserved s = .ok i s') :
    i.update.isInit = false ∧ i.update.allowRaceConditions = false ∧ i.update.atomic = false ∧
      i.update.specializations = [] ∧
      ∀ sp ∈ i.update.splits, sp ∈ s.splits ∨ sp.splitType = .purifyRVar := by
  unfold rfactor at h
  split at h
  · cases h
  unfold rfactorApply at h
  dsimp only at h
  split at h
  · cases h
  split at h
  · cases h
  split at h
  · cases h
  next intm hp =>
  split at h
  · cases h
  split at h
  · cases h
  cases h
  have hframe := forEachM_frame (fun _ _ _ hst => by
    obtain ⟨_, _, -, rfl⟩ := purify_ok hst; rfl) hp
  refine ⟨by rw [hframe], by rw [hframe], by rw [hframe], by rw [hframe], ?_⟩
  refine forEachM_ok (fun st => ∀ sp ∈ st.splits, sp ∈ s.splits ∨ sp.splitType = .purifyRVar)
    ?_ (fun sp hsp => .inl (ApplySplit.replay_pending_sublist.subset hsp)) hp
  rintro pr st st' h4 hst
  obtain ⟨dims, d, -, rfl⟩ := purify_ok hst
  intro sp hsp
  rcases List.mem_append.1 hsp with hsp | hsp
  · exact h4 sp hsp
  · simp at hsp; exact .inr (by rw [hsp])

end Stage

end HalideSchedule
