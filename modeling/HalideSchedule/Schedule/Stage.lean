import HalideSchedule.IR.Expr

/-!
# HalideSchedule.Schedule.Stage

The **data model of one stage's schedule**: the Dimension List (`Dim`), the Split
History (`Split`), the reduction domain (`ReductionVariable`), the schedule flags
and the fuse level, gathered into one flat `Stage` record, together with the
errors the directives raise and the external collaborators they consult.

`Stage` flattens what `Func.cpp` reaches through `definition.schedule()`,
`definition` and `function`: a directive reads the function's name, its pure
`Var`s and storage dimensions, and reads and writes the definition and its
schedule. Only the fields some modelled directive uses are kept.

A directive is a function `Stage → EStateM.Result Error Stage α`. The C++ code
mutates the stage in place and reports a user error by throwing, so an error
result carries the stage *as written up to the throw*, not the stage the call
started from.
-/

namespace HalideSchedule

/-- `ForType`: how a loop dimension is iterated. -/
inductive ForType
  | serial
  | parallel
  | vectorized
  | unrolled
  | externLoop
  | gpuBlock
  | gpuThread
  | gpuLane
  deriving Repr, DecidableEq

/-- `is_parallel`: the loop types whose iterations may run concurrently. -/
def ForType.isParallel : ForType → Bool
  | .parallel | .vectorized | .gpuBlock | .gpuThread | .gpuLane => true
  | .serial | .unrolled | .externLoop => false

/-- `DeviceAPI`: where a loop runs. Copied along by the directives, never inspected. -/
inductive DeviceAPI
  | none
  | host
  | defaultGPU
  | cuda
  | openCL
  | glsl
  | openGLCompute
  | metal
  | hexagon
  | hexagonDma
  | d3d12Compute
  deriving Repr, DecidableEq

/-- `Dim::Type`. A `pureRVar` is a reduction variable whose distinct values write
distinct locations, so it may be parallelized without a race check. -/
inductive DimType
  | pureVar
  | pureRVar
  | impureRVar
  deriving Repr, DecidableEq

/-- An entry of the Dimension List: the qualified loop name and its kind. -/
structure Dim where
  var : String
  forType : ForType
  deviceApi : DeviceAPI
  dimType : DimType
  deriving Repr, DecidableEq

namespace Dim

/-- `Dim::is_pure`. -/
def isPure (d : Dim) : Bool := d.dimType != .impureRVar

/-- `Dim::is_rvar`. -/
def isRVar (d : Dim) : Bool := d.dimType != .pureVar

end Dim

/-- `TailStrategy`. -/
inductive TailStrategy
  | roundUp
  | guardWithIf
  | shiftInwards
  | auto
  deriving Repr, DecidableEq

/-- `Split::SplitType`: the closed set of history-entry kinds. -/
inductive SplitType
  | splitVar
  | renameVar
  | fuseVars
  | purifyRVar
  deriving Repr, DecidableEq

/-- An entry of the Split History. A split writes `oldVar` as `outer * factor +
inner`; a fuse entry records the fused name in `oldVar`; rename and purify
entries record the new name in `outer`. -/
structure Split where
  oldVar : String
  outer : String
  inner : String
  factor : Expr
  exact : Bool
  tail : TailStrategy
  splitType : SplitType
  deriving Repr

namespace Split

/-- `Split::is_split`. -/
def isSplit (s : Split) : Bool := s.splitType == .splitVar
/-- `Split::is_fuse`. -/
def isFuse (s : Split) : Bool := s.splitType == .fuseVars
/-- `Split::is_rename`. -/
def isRename (s : Split) : Bool := s.splitType == .renameVar
/-- `Split::is_purify`. -/
def isPurify (s : Split) : Bool := s.splitType == .purifyRVar

end Split

/-- `ReductionVariable`: one dimension of a reduction domain. -/
structure ReductionVariable where
  var : String
  min : Expr
  extent : Expr
  deriving Repr

/-- A user-facing `Var`, `RVar` or `VarOrRVar`. `var_name_match` asserts that the
name it resolves is unqualified, so the names that reach it carry that as a
field. -/
structure VarOrRVar where
  name : String
  isRVar : Bool
  unqualified : '.' ∉ name.toList

/-- The handle `Var(name)`. -/
def VarOrRVar.var (name : String) (h : '.' ∉ name.toList) : VarOrRVar := ⟨name, false, h⟩

/-- The handle `RVar(name)`. -/
def VarOrRVar.rvar (name : String) (h : '.' ∉ name.toList) : VarOrRVar := ⟨name, true, h⟩

/-- `LoopLevel`, as far as `compute_with` and `reorder` read it. -/
inductive LoopLevel
  | inlined
  | root
  | at (func : String) (var : VarOrRVar) (stageIndex : Nat)

/-- `LoopLevel::is_inlined`. -/
def LoopLevel.isInlined : LoopLevel → Bool
  | .inlined => true
  | _ => false

/-- `LoopAlignStrategy`. -/
inductive LoopAlignStrategy
  | alignStart
  | alignEnd
  | noAlign
  | auto
  deriving Repr, DecidableEq

/-- `FuseLoopLevel`: where this stage is computed with another one. -/
structure FuseLoopLevel where
  level : LoopLevel
  align : List (String × LoopAlignStrategy)

/-- `FuseLoopLevel()`: no `compute_with`. -/
def FuseLoopLevel.none : FuseLoopLevel := ⟨.inlined, []⟩

/-- A `Specialization` of a definition. Its own copy of the definition is left
out: the directives modelled here never schedule through it. -/
structure Specialization where
  condition : Expr
  failureMessage : String

/-- One stage: the parts of `Function`, `Definition` and `StageSchedule` the
directives read or write. -/
structure Stage where
  /-- `function.name()`. -/
  funcName : String
  /-- `dim_vars`: the pure `Var`s of the function. -/
  dimVars : List String
  /-- `function.schedule().storage_dims()`. -/
  storageDims : List String
  /-- `function.has_extern_definition()`. -/
  hasExternDefinition : Bool
  stageIndex : Nat
  /-- `definition.is_init()`: the pure definition rather than an update. -/
  isInit : Bool
  args : List Expr
  values : List Expr
  /-- The conjuncts of the reduction domain's predicate (`split_predicate()`). -/
  predicate : List Expr
  dims : List Dim
  splits : List Split
  rvars : List ReductionVariable
  allowRaceConditions : Bool
  atomic : Bool
  overrideAtomicAssociativityTest : Bool
  fuseLevel : FuseLoopLevel
  specializations : List Specialization

/-- `var_name_match(candidate, var)`: `var` names `candidate` exactly or as its
last qualified component. -/
def varNameMatch (candidate var : String) : Bool :=
  candidate == var || ("." ++ var).toList.isSuffixOf candidate.toList

theorem dot_toList (x : String) : ("." ++ x).toList = '.' :: x.toList := rfl

/-- A qualified name matches its last component. -/
theorem varNameMatch_qualified (a x : String) : varNameMatch (a ++ "." ++ x) x := by
  simp only [varNameMatch, Bool.or_eq_true, List.isSuffixOf_iff_suffix, dot_toList]
  exact .inr ⟨a.toList, show a.data ++ '.' :: x.data = a.data ++ ['.'] ++ x.data by simp⟩

/-- Two unqualified names that match one entry are equal: each is the entry or its
last component. -/
theorem varNameMatch_inj {d : String} {x y : VarOrRVar} (hx : varNameMatch d x.name)
    (hy : varNameMatch d y.name) : x.name = y.name := by
  have key : ∀ {a b : String}, '.' ∉ b.toList → '.' :: a.toList <:+ '.' :: b.toList → a = b :=
    fun hb h => (List.suffix_cons_iff.1 h).elim (fun h => String.ext (List.cons.inj h).2)
      fun h => absurd (h.subset (List.mem_cons_self _ _)) hb
  simp only [varNameMatch, Bool.or_eq_true, beq_iff_eq, List.isSuffixOf_iff_suffix,
    dot_toList] at hx hy
  rcases hx with rfl | hx <;> rcases hy with h | hy
  · exact h
  · exact absurd (hy.subset (List.mem_cons_self _ _)) x.unqualified
  · exact absurd (h ▸ hx.subset (List.mem_cons_self _ _)) y.unqualified
  · exact (List.suffix_or_suffix_of_suffix hx hy).elim (key y.unqualified)
      fun h => (key x.unqualified h).symm

/-! ### Errors -/

/-- The user errors of the directives, each with the names its message prints. -/
inductive UserError
  | splitNameCollision (newName : String)
  | splitDimNotFound (old : String)
  | splitRoundUpInUpdate (oldName : String)
  | splitShiftInwardsInUpdate (oldName : String)
  | splitExactNeedsGuardWithIf (oldName : String)
  | splitRVarIntoVar (old new : String)
  | splitVarIntoRVar (old new : String)
  | fuseRVarWithVar (inner outer : String)
  | fuseRVarIntoVar (inner fused : String)
  | fuseVarWithRVar (inner outer : String)
  | fuseVarIntoRVar (inner fused : String)
  | fuseOuterNotFound (outer : String)
  | fuseInnerNotFound (inner : String)
  | renameRVarToVar (old new : String)
  | renameVarToRVar (old new : String)
  | renameNotFound (old : String)
  | renameAlreadyFused (oldName fused : String)
  | renameAlreadySplit (oldName : String)
  | purifyNeedsRVarToVar (old new : String)
  | purifyNotFound (old : String)
  | reorderNotFound (var : String)
  | reorderUnsafe (a b : String)
  | atomicNotAssociative
  | raceCondition (var : String)
  | multipleVectorization (var existing : String)
  | setDimTypeNotFound (var : String)
  | setDeviceApiNotFound (var : String)
  | rfactorOnInit
  | rfactorNotAssociative
  | rfactorNotInDomain (rvar : String)
  | rfactorNameUsed (rvar var : String)
  | rfactorNonCommutative (dim : String)
  | removeNotFound (var : String)
  | removeAlreadyFused (oldName fused : String)
  | removeAlreadySplit (oldName : String)
  | specializeNotBool
  | specializeFreeVar (var : String)
  | specializeAfterFail
  | specializeFailEmptyMessage
  | specializeFailTwice
  | computeWithUndefinedLevel
  | computeWithSelf
  | computeWithExtern
  | computeWithSpecialized

/-- A directive fails with a user error (`user_assert`, `user_error`) or an
internal one (`internal_assert`: an engine bug, outside the public taxonomy). -/
inductive Error
  | user (e : UserError)
  | internal (what : String)

/-- The outcome of a directive on a stage. -/
abbrev Result (α : Type) := EStateM.Result Error Stage α

theorem except_map_eq_ok {ε α β : Type} {f : α → β} {x : Except ε α} {b : β} :
    x.map f = .ok b ↔ ∃ a, x = .ok a ∧ f a = b := by
  cases x <;> simp [Except.map]

theorem except_map_eq_error {ε α β : Type} {f : α → β} {x : Except ε α} {e : ε} :
    x.map f = .error e ↔ x = .error e := by
  cases x <;> simp [Except.map]

/-! ### External collaborators -/

/-- `AssociativePattern`: the combining operator of each tuple element, written
over the operand names of `AssociativeOp.xs` and `ys`, with its identities. -/
structure AssociativePattern where
  ops : List Expr
  identities : List Expr
  isCommutative : Bool

/-- `AssociativeOp::Replacement`: an operand name and what it stands for. -/
structure Replacement where
  var : String
  expr : Expr

/-- `AssociativeOp`: the associativity prover's answer. -/
structure AssociativeOp where
  pattern : AssociativePattern
  xs : List Replacement
  ys : List Replacement
  isAssociative : Bool

namespace AssociativeOp

/-- `AssociativeOp::associative`. -/
def associative (p : AssociativeOp) : Bool := p.isAssociative
/-- `AssociativeOp::commutative`. -/
def commutative (p : AssociativeOp) : Bool := p.pattern.isCommutative
/-- `AssociativeOp::size`. -/
def size (p : AssociativeOp) : Nat := p.pattern.ops.length

end AssociativeOp

/-- `ApplySplitResult`: what `apply_split` asks the caller to do to the
predicates, arguments and values. -/
inductive ApplySplitResult
  | substitution (name : String) (value : Expr)
  | letStmt (name : String) (value : Expr)
  | predicate (value : Expr)

/-- The collaborators `Func.cpp` consults and does not implement: the
associativity prover, `can_prove`, the simplifier, and `apply_split` /
`compute_loop_bounds_after_split` of `ApplySplit.cpp`. -/
structure Collaborators where
  proveAssociativity : String → List Expr → List Expr → AssociativeOp
  canProve : Expr → Bool
  simplify : Expr → Expr
  applySplit : Split → List (String × Expr) → List ApplySplitResult
  computeLoopBoundsAfterSplit : Split → List (String × Expr)

end HalideSchedule
