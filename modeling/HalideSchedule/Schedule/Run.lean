import HalideSchedule.Schedule.RFactor
import HalideSchedule.Schedule.Specialize

/-!
# HalideSchedule.Schedule.Run

**Directive sequences and the reachable stages.** `Directive` is the closed set of
single `Stage` calls of `Func.cpp` modelled here; the scheduling shorthands (`tile`,
`vectorize(var, factor)`, `gpu_threads`, ...) are sequences of them, as the source
defines them. `Reachable` is the set of stages a schedule can produce: a freshly
defined update definition, closed under every successful directive and under taking
the update of the intermediate function `rfactor` returns.

A failed directive is not a step: by default a Halide user error ends the
compilation, and what a failed call leaves behind is stated on its own
(`HalideSchedule.Properties.FailedCalls`).
-/

namespace HalideSchedule

/-- The single-call scheduling directives on a stage. -/
inductive Directive
  | split (old outer inner : VarOrRVar) (factor : Expr) (tail : TailStrategy)
  | fuse (inner outer fused : VarOrRVar)
  | rename (old new : VarOrRVar)
  | purify (old new : VarOrRVar)
  | reorder (vars : List VarOrRVar)
  | setDimType (var : VarOrRVar) (t : ForType)
  | setDimDeviceApi (var : VarOrRVar) (api : DeviceAPI)
  | allowRaceConditions
  | atomic (override : Bool)
  | rfactor (preserved : List (VarOrRVar × VarOrRVar))
  | specialize (condition : Expr)
  | specializeFail (message : String)
  | computeWith (level : LoopLevel) (align : List (String × LoopAlignStrategy))

namespace Directive

/-- One directive on a stage. The function `rfactor` returns is dropped here; the
stages it reaches are added by `Reachable.intermediate`. -/
def run (c : Collaborators) : Directive → Stage → Result Unit
  | split old outer inner factor tail => Stage.split c old outer inner factor tail
  | fuse inner outer fused => Stage.fuse inner outer fused
  | rename old new => Stage.rename old new
  | purify old new => Stage.purify old new
  | reorder vars => Stage.reorder c vars
  | setDimType var t => Stage.setDimType c var t
  | setDimDeviceApi var api => Stage.setDimDeviceApi var api
  | allowRaceConditions => fun s => .ok () (Stage.allowRaceConditionsOn s)
  | atomic override => fun s => .ok () (Stage.atomicOn override s)
  | rfactor preserved => fun s =>
    match Stage.rfactor c preserved s with
    | .ok _ s' => .ok () s'
    | .error e s' => .error e s'
  | specialize condition => Stage.specialize condition
  | specializeFail message => Stage.specializeFail message
  | computeWith level align => Stage.computeWith level align

theorem run_rfactor_ok {c : Collaborators} {preserved : List (VarOrRVar × VarOrRVar)}
    {s s' : Stage} (h : (rfactor preserved).run c s = .ok () s') :
    ∃ i, Stage.rfactor c preserved s = .ok i s' := by
  simp only [run] at h
  split at h
  · next i _ hr => cases h; exact ⟨i, hr⟩
  · cases h

theorem run_rfactor_error {c : Collaborators} {preserved : List (VarOrRVar × VarOrRVar)}
    {s s' : Stage} {e : Error} (h : (rfactor preserved).run c s = .error e s') :
    Stage.rfactor c preserved s = .error e s' := by
  simp only [run] at h
  split at h
  · cases h
  · next e' _ hr => cases h; exact hr

/-- A sequence of directives, stopping at the first error. -/
def runAll (c : Collaborators) : List Directive → Stage → Result Unit
  | [], s => .ok () s
  | d :: ds, s =>
    match d.run c s with
    | .ok () s' => runAll c ds s'
    | .error e s' => .error e s'

/-! ### The shorthands of `Func.cpp` -/

/-- `Stage::vectorize(var, factor, tail)`: split off an inner loop and vectorize it.
`tmp` is the fresh `Var` or `RVar` (of `var`'s kind) that Halide names. -/
def vectorizeBy (var tmp : VarOrRVar) (factor : Expr) (tail : TailStrategy) : List Directive :=
  let tmp := { tmp with isRVar := var.isRVar }
  [split var var tmp factor tail, setDimType tmp .vectorized]

/-- `Stage::parallel(var, factor, tail)`: split off an inner loop, and parallelize
the outer one. -/
def parallelBy (var tmp : VarOrRVar) (factor : Expr) (tail : TailStrategy) : List Directive :=
  [split var var { tmp with isRVar := var.isRVar } factor tail, setDimType var .parallel]

/-- `Stage::unroll(var, factor, tail)`: split off an inner loop and unroll it. -/
def unrollBy (var tmp : VarOrRVar) (factor : Expr) (tail : TailStrategy) : List Directive :=
  let tmp := { tmp with isRVar := var.isRVar }
  [split var var tmp factor tail, setDimType tmp .unrolled]

/-- `Stage::tile(x, y, xo, yo, xi, yi, xfactor, yfactor, tail)`. -/
def tile (x y xo yo xi yi : VarOrRVar) (xfactor yfactor : Expr) (tail : TailStrategy) :
    List Directive :=
  [split x xo xi xfactor tail, split y yo yi yfactor tail, reorder [xi, yi, xo, yo]]

/-- `Stage::gpu_threads(tx, device_api)`. -/
def gpuThreads (tx : VarOrRVar) (api : DeviceAPI) : List Directive :=
  [setDimDeviceApi tx api, setDimType tx .gpuThread]

/-- `Stage::gpu_blocks(bx, device_api)`. -/
def gpuBlocks (bx : VarOrRVar) (api : DeviceAPI) : List Directive :=
  [setDimDeviceApi bx api, setDimType bx .gpuBlock]

/-- `Stage::gpu_lanes(tx, device_api)`. -/
def gpuLanes (tx : VarOrRVar) (api : DeviceAPI) : List Directive :=
  [setDimDeviceApi tx api, setDimType tx .gpuLane]

/-- `Stage::gpu_tile(x, bx, tx, x_size, tail, device_api)`. -/
def gpuTile (x bx tx : VarOrRVar) (size : Expr) (tail : TailStrategy) (api : DeviceAPI) :
    List Directive :=
  [split x bx tx size tail, setDimDeviceApi bx api, setDimDeviceApi tx api,
    setDimType bx .gpuBlock, setDimType tx .gpuThread]

end Directive

/-- A freshly defined update definition (`Function::define_update`): every loop
serial, an empty Split History, neither escape hatch set and no specialization. The
kinds of the dimensions and the names are left free. -/
structure Stage.IsFreshUpdate (s : Stage) : Prop where
  update : s.isInit = false
  serial : ∀ d ∈ s.dims, d.forType = .serial
  noSplits : s.splits = []
  noRaceConditions : s.allowRaceConditions = false
  notAtomic : s.atomic = false
  noSpecializations : s.specializations = []

/-- The stages a schedule can reach: a freshly defined update definition, any stage a
successful directive makes from a reachable one, and the update definition of the
intermediate function of a successful `rfactor`. -/
inductive Reachable (c : Collaborators) : Stage → Prop
  | fresh {s : Stage} : s.IsFreshUpdate → Reachable c s
  | step {s s' : Stage} (d : Directive) : Reachable c s → d.run c s = .ok () s' → Reachable c s'
  | intermediate {s s' : Stage} {i : Intermediate} (preserved : List (VarOrRVar × VarOrRVar)) :
      Reachable c s → Stage.rfactor c preserved s = .ok i s' → Reachable c i.update

/-- A successful directive sequence (a shorthand included) stays reachable. -/
theorem Reachable.runAll {c : Collaborators} {s s' : Stage} :
    ∀ (ds : List Directive), Reachable c s → Directive.runAll c ds s = .ok () s' → Reachable c s'
  | [], h, hr => by cases hr; exact h
  | d :: ds, h, hr => by
    simp only [Directive.runAll] at hr
    split at hr
    · next s1 hd => exact Reachable.runAll ds (Reachable.step d h hd) hr
    · cases hr

/-! ### A schedule to run directives on

The update of `Stage::rfactor`'s own comment, `f(x, y)` updated over the reduction
domain `r` (`r$x`, `r$y`) by `h(r.x, r.y)`, with the collaborators answering as
Halide's do for a sum. The concrete schedules of the properties start here. -/

/-- The associativity prover's answer for a sum: `x + y`, identity `0`, commutative. -/
def sumOp : AssociativeOp :=
  ⟨⟨[.add (.var .int "_x_0") (.var .int "_y_0")], [.intImm 0], true⟩,
   [⟨"_x_0", .undef⟩], [⟨"_y_0", .undef⟩], true⟩

/-- Collaborators for a sum: every update is proved a sum, `can_prove` proves nothing,
the simplifier is the identity and `apply_split` has nothing to substitute. -/
def sumCollaborators : Collaborators :=
  ⟨fun _ _ _ => sumOp, fun _ => false, id, fun _ _ => [], fun _ => []⟩

/-- Collaborators whose prover certifies nothing. -/
def unprovenCollaborators : Collaborators :=
  ⟨fun _ _ _ => ⟨⟨[], [], false⟩, [], [], false⟩, fun _ => false, id, fun _ _ => [], fun _ => []⟩

/-- The freshly defined update `f(args) = f(args) + h(r.x, r.y)` of `f(x, y)`, `r` over
`[0, 4) × [0, 4)`, whose Dimension List is `dims` (all serial) with `__outermost`
outside. -/
def sumUpdate (args : List Expr) (dims : List (String × DimType)) : Stage :=
  { funcName := "f", dimVars := ["x", "y"], storageDims := ["x", "y"],
    hasExternDefinition := false, stageIndex := 1, isInit := false, args := args,
    values := [.add (.call .int .halide "f" args 0)
      (.call .int .halide "h" [.ofVar "r$x", .ofVar "r$y"] 0)],
    predicate := [],
    dims := (dims ++ [("__outermost", DimType.pureVar)]).map fun (n, t) => ⟨n, .serial, .none, t⟩,
    splits := [], rvars := [⟨"r$x", .intImm 0, .intImm 4⟩, ⟨"r$y", .intImm 0, .intImm 4⟩],
    allowRaceConditions := false, atomic := false, overrideAtomicAssociativityTest := false,
    fuseLevel := .none, specializations := [] }

theorem sumUpdate_isFreshUpdate (args : List Expr) (dims : List (String × DimType)) :
    (sumUpdate args dims).IsFreshUpdate :=
  ⟨rfl, by simp only [sumUpdate, List.mem_map]; rintro d ⟨_, -, rfl⟩; rfl, rfl, rfl, rfl, rfl⟩

theorem sumUpdate_reachable (c : Collaborators) (args : List Expr) (dims : List (String × DimType)) :
    Reachable c (sumUpdate args dims) :=
  .fresh (sumUpdate_isFreshUpdate args dims)

end HalideSchedule
