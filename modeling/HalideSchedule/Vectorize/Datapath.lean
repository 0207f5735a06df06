import Mathlib.Data.List.Basic

/-!
# HalideSchedule.Vectorize.Datapath

**The IntelFPGA tail of `vectorize_loops`:** after `VectorizeLoops` and `simplify`,
`RecordVectorLength` walks the statement and records, for every channel, the least lane
count it is read with and the least it is written with (`vec_len`, a new entry starting
from `INT32_MAX`), and for every shift register the greatest (`vec_shreg_len`, a new
entry starting from `1`). `VecDatapath` then rewrites each `read_channel`/`write_channel`
call against its channel's aim length `min(read, write)`, and each shift-register call
against its register's aim length `max(read, write)`. A call with fewer lanes than a
channel's aim, or more than a register's, is the user error "Impossible case happens".

Both passes read a call only through its intrinsic, its lane count, its name (a string
immediate as first argument) and, in `VecDatapath`, which arguments are `Ramp`s; `DNode`
keeps the statement at that resolution. `VecDatapath` is modelled by the branch it takes
at each call (`Rewrite`) and every error it raises; the nodes it builds are not.

## Proof shape

Recording is a fold. One call moves each entry only one way, down for channels and up
for shift registers (`Grows`), and leaves the call's own side no wider than the call for
a channel and no narrower for a register (`Fits`); a whole walk therefore leaves every
call it visited fitting the final maps (`record_spec`). `VecDatapath` visits a subset of
those calls (`Realize` bounds are not visited), so every aim length sits on the right side
of every lane count it is compared with, and the aim length of a channel is at least one
(`PosMap`). The errors that remain are the "No support" ones and those of the `Ramp`
scans (`datapath_error`); the law is `datapath_lanes_fit`.
-/

namespace HalideSchedule.Vectorize

/-- The intrinsics the two passes tell apart (`Call::is_intrinsic`). -/
inductive Intrinsic
  | readChannel
  | writeChannel
  | readChannelNb
  | writeChannelNb
  | readMemChannel
  | writeMemChannel
  | readShiftReg
  | writeShiftReg
  | other
  deriving Repr, DecidableEq

namespace Intrinsic

/-- The side of a channel's `vec_len` entry a call records: the first (`false`) for
reads, the second (`true`) for writes. -/
def channelSide : Intrinsic → Option Bool
  | readChannel | readMemChannel => some false
  | writeChannel | writeMemChannel => some true
  | _ => none

/-- The side of a register's `vec_shreg_len` entry a call records. -/
def shregSide : Intrinsic → Option Bool
  | readShiftReg => some false
  | writeShiftReg => some true
  | _ => none

end Intrinsic

/-- A lowered statement as `RecordVectorLength` and `VecDatapath` see it: string
immediates, calls with their intrinsic, lane count and arguments, `Ramp`s (the
vectorized index of a channel or register access), `Realize` with its bounds, condition
and body, and any other node with its children in visiting order. -/
inductive DNode
  | stringImm (value : String)
  | call (intrinsic : Intrinsic) (lanes : Nat) (args : List DNode)
  | ramp (base stride : DNode)
  | realize (bounds : List DNode) (condition body : DNode)
  | node (children : List DNode)
  deriving Repr

/-- The errors of the two passes, each with what its message prints. -/
inductive DatapathError
  /-- `user_assert(name_string != nullptr)`: the first argument is not a string. -/
  | nameNotString
  /-- The `internal_assert` of both passes against `read_channel_nb` and
  `write_channel_nb`. -/
  | channelNb
  /-- The `internal_assert` of `record_shreg_lanes`: two different lane counts, neither
  of them `1`. -/
  | shregLanesDiffer (lanes recorded : Nat)
  /-- The `user_error` of a channel whose aim length does not divide the lane count. -/
  | noSupportChannel (real aim : Nat) (name : String)
  /-- The `user_error` of a register whose lane count does not divide the aim length. -/
  | noSupportShreg (real aim : Nat) (name : String)
  /-- The `user_assert` of `channel_vectorized_arg`: two `Ramp` arguments. -/
  | multipleVectorizedDims (name : String)
  /-- The `user_assert` of `channel_vectorized_arg`: a `Ramp` before the last argument. -/
  | channelNotInnermost (name : String)
  /-- The `user_error` of the shift-register branch: a `Ramp` index other than the first. -/
  | shregNotInnermost
  /-- The `user_error` of the shift-register branch: two `Ramp` indices; `what` names the
  access. -/
  | multipleRamp (what name : String)
  /-- The `internal_assert(num_args > 1)` of a narrowed `read_shift_reg`. -/
  | shregReadArgs
  /-- The `internal_assert(split_dim < 0)` of a narrowed `read_shift_reg` (`false`) or
  `write_shift_reg` (`true`). -/
  | unexpectedRamp (write : Bool)
  /-- The last `user_error` of both branches of `VecDatapath::visit(const Call *)`. -/
  | impossibleCase
  deriving Repr, DecidableEq

/-- The message an error prints. -/
def DatapathError.message : DatapathError → String
  | nameNotString => "Condition failed: name_string != nullptr"
  | channelNb => "TODO: vectorize read/write_channel_nb"
  | shregLanesDiffer lanes recorded =>
    "Vectorizing shift registers with different vector length: " ++ toString lanes ++ " vs. " ++
      toString recorded ++ ".\n"
  | noSupportChannel real aim name =>
    "No support for real/aim pair <real:" ++ toString real ++ ", aim:" ++ toString aim ++
      "> on channel: " ++ name ++ "\n"
  | noSupportShreg real aim name =>
    "No support for real/aim pair <read:" ++ toString real ++ ", aim:" ++ toString aim ++
      "> on shreg: " ++ name ++ "\n"
  | multipleVectorizedDims name => "Channel " ++ name ++ " has multiple vectorized dimensions\n"
  | channelNotInnermost name =>
    "Channel " ++ name ++ " can only be vectorized at the innermost level\n"
  | shregNotInnermost =>
    "You want to vectorize a space loop which is not inner-most loop, which is not supported.\n"
  | multipleRamp what name => "Multiple Ramp in one " ++ what ++ ": " ++ name ++ "\n"
  | shregReadArgs => "Condition failed: num_args > 1"
  | unexpectedRamp false => "Unexpected ramp in read shift register.\n"
  | unexpectedRamp true => "Unexpected vector write of shift register.\n"
  | impossibleCase => "Impossible case happens, please check internel\n"

/-- A call as both passes read it. -/
abbrev CallSite := Intrinsic × Nat × List DNode

namespace DNode

mutual
/-- The calls `RecordVectorLength` visits, in order: every call of the statement. -/
def calls : DNode → List CallSite
  | stringImm _ => []
  | call i lanes args => (i, lanes, args) :: callsAll args
  | ramp base stride => base.calls ++ stride.calls
  | realize bounds condition body => callsAll bounds ++ condition.calls ++ body.calls
  | node cs => callsAll cs
/-- `calls` over a list of children. -/
def callsAll : List DNode → List CallSite
  | [] => []
  | e :: es => e.calls ++ callsAll es
end

mutual
/-- The calls `VecDatapath` visits: every call except those in `Realize` bounds. -/
def visitedCalls : DNode → List CallSite
  | stringImm _ => []
  | call i lanes args => visitedCallsAll args ++ [(i, lanes, args)]
  | ramp base stride => base.visitedCalls ++ stride.visitedCalls
  | realize _ condition body => condition.visitedCalls ++ body.visitedCalls
  | node cs => visitedCallsAll cs
/-- `visitedCalls` over a list of children. -/
def visitedCallsAll : List DNode → List CallSite
  | [] => []
  | e :: es => e.visitedCalls ++ visitedCallsAll es
end

/-- `as<Ramp>()`. -/
def isRamp : DNode → Bool
  | ramp _ _ => true
  | _ => false

/-- Every call has at least one lane, as every Halide type does. -/
def WellLaned (s : DNode) : Prop := ∀ c ∈ s.calls, 1 ≤ c.2.1

instance (s : DNode) : Decidable s.WellLaned := inferInstanceAs (Decidable (∀ c ∈ s.calls, _))

end DNode

/-! ### `RecordVectorLength` -/

/-- A `vec_len` or `vec_shreg_len` map: name to (read lanes, write lanes). -/
abbrev LaneMap := String → Option (Nat × Nat)

/-- The two maps `RecordVectorLength` fills. -/
structure LaneMaps where
  vecLen : LaneMap
  vecShregLen : LaneMap

/-- The maps before the walk. -/
def LaneMaps.empty : LaneMaps := ⟨fun _ => none, fun _ => none⟩

/-- `.first` (`false`) or `.second` (`true`) of an entry. -/
def side (p : Nat × Nat) (write : Bool) : Nat := if write then p.2 else p.1

/-- `INT32_MAX`, the initial lane counts of a channel's entry. -/
def int32Max : Nat := 2147483647

/-- `op->args[0].as<StringImm>()`, under `user_assert(name_string != nullptr)`. -/
def nameOf : List DNode → Except DatapathError String
  | .stringImm v :: _ => pure v
  | _ => throw .nameNotString

/-- Record `lanes` on one side of `name`'s entry: a new entry is `init` with that side
set to `lanes`, and an existing side becomes `combine lanes` of what it held. -/
def recordSide (m : LaneMap) (name : String) (write : Bool) (init : Nat × Nat)
    (combine : Nat → Nat → Nat) (lanes : Nat) : LaneMap :=
  let p := match m name with
    | none => if write then (init.1, lanes) else (lanes, init.2)
    | some (r, w) => if write then (r, combine lanes w) else (combine lanes r, w)
  fun n => if n = name then some p else m n

/-- `record_channel_lanes(op)`: reads and writes of a channel, memory channels
included, keep the least lane count. -/
def recordChannelLanes (vecLen : LaneMap) (i : Intrinsic) (lanes : Nat) (args : List DNode) :
    Except DatapathError LaneMap := do
  if i = .readChannelNb ∨ i = .writeChannelNb then throw .channelNb
  match i.channelSide with
  | some write => return recordSide vecLen (← nameOf args) write (int32Max, int32Max) min lanes
  | none => return vecLen

/-- `record_shreg_lanes(op)`: reads and writes of a shift register keep the greatest
lane count, and a second lane count must equal the first unless one of them is `1`. -/
def recordShregLanes (vecShregLen : LaneMap) (i : Intrinsic) (lanes : Nat) (args : List DNode) :
    Except DatapathError LaneMap := do
  match i.shregSide with
  | some write =>
    let name ← nameOf args
    if let some p := vecShregLen name then
      unless lanes = side p write ∨ lanes = 1 ∨ side p write = 1 do
        throw (.shregLanesDiffer lanes (side p write))
    return recordSide vecShregLen name write (1, 1) max lanes
  | none => return vecShregLen

/-- `RecordVectorLength::visit(const Call *)` before it visits the arguments. -/
def recordCall (m : LaneMaps) (i : Intrinsic) (lanes : Nat) (args : List DNode) :
    Except DatapathError LaneMaps := do
  let vecLen ← recordChannelLanes m.vecLen i lanes args
  let vecShregLen ← recordShregLanes m.vecShregLen i lanes args
  return ⟨vecLen, vecShregLen⟩

mutual
/-- The walk of `RecordVectorLength` (an `IRVisitor`): a call is recorded, then its
arguments are visited; `Realize` visits its bounds, condition and body. -/
def record (m : LaneMaps) : DNode → Except DatapathError LaneMaps
  | .stringImm _ => pure m
  | .call i lanes args => do recordAll (← recordCall m i lanes args) args
  | .ramp base stride => do record (← record m base) stride
  | .realize bounds condition body => do record (← record (← recordAll m bounds) condition) body
  | .node cs => recordAll m cs
/-- `record` over a list of children, in order. -/
def recordAll (m : LaneMaps) : List DNode → Except DatapathError LaneMaps
  | [] => pure m
  | e :: es => do recordAll (← record m e) es
end

/-- `s.accept(&rvl)` on a fresh `RecordVectorLength`. -/
def recordVectorLength (s : DNode) : Except DatapathError LaneMaps := record .empty s

/-! ### `VecDatapath` -/

/-- The branch `VecDatapath::visit(const Call *)` takes at a call. -/
inductive Rewrite
  /-- Any other call, or a channel or register with no entry: rebuilt on the new
  arguments. -/
  | rebuild
  /-- The lane count is the aim length: the vectorized argument is dropped. -/
  | sameLanes
  /-- A channel call wider than the aim length: `times` calls of the aim length. -/
  | splitChannel (times : Nat)
  /-- A register call narrower than the aim length: the index is reordered. -/
  | narrowShreg
  deriving Repr, DecidableEq

/-- The scan of `channel_vectorized_arg(read, name, args)` over the positions
`begin ≤ i < args.size()` (`begin` is 1 for a read, 2 for a write): at most one `Ramp`,
and that one last. -/
def channelVectorizedArg (read : Bool) (name : String) (args : List DNode) :
    Except DatapathError (Option Nat) := do
  let start := if read then 1 else 2
  let dim ← (List.range' start (args.length - start)).foldlM (fun dim i =>
    if (args.getD i (.node [])).isRamp then
      if dim.isSome then throw (.multipleVectorizedDims name) else pure (some i)
    else pure dim) none
  if dim = none ∨ dim = some (args.length - 1) then pure dim
  else throw (.channelNotInnermost name)

/-- The scan of the shift-register branches over the positions `1 ≤ i < stop`: every
`Ramp` must be the first index, and there must be at most one (`what` names the access
in the message). -/
def shregSplitDim (what name : String) (args : List DNode) (stop : Nat) :
    Except DatapathError (Option Nat) :=
  (List.range' 1 (stop - 1)).foldlM (fun dim i =>
    if (args.getD i (.node [])).isRamp then
      if i ≠ 1 then throw .shregNotInnermost
      else if dim.isSome then throw (.multipleRamp what name) else pure (some i)
    else pure dim) none

/-- The channel branch: `real_len` against `aim_len = min(read_len, write_len)`, on the
mutated arguments. -/
def channelRewrite (read : Bool) (name : String) (args : List DNode) (real aim : Nat) :
    Except DatapathError Rewrite :=
  if real = aim then do
    let _ ← channelVectorizedArg read name args
    pure .sameLanes
  else if real > aim then
    if real % aim ≠ 0 then throw (.noSupportChannel real aim name)
    else do
      let _ ← channelVectorizedArg read name args
      pure (.splitChannel (real / aim))
  else throw .impossibleCase

/-- The shift-register branch: `real_len` against `aim_len = max(read_len, write_len)`,
on the mutated arguments. -/
def shregRewrite (read : Bool) (name : String) (args : List DNode) (real aim : Nat) :
    Except DatapathError Rewrite :=
  if real = aim then do
    let _ ← shregSplitDim "shreg index" name args (if read then args.length else args.length - 1)
    pure .sameLanes
  else if real < aim then
    if aim % real ≠ 0 then throw (.noSupportShreg real aim name)
    else if read then
      if args.length > 1 then do
        let dim ← shregSplitDim "shreg read index" name args args.length
        if dim = none then pure .narrowShreg else throw (.unexpectedRamp false)
      else throw .shregReadArgs
    else do
      let dim ← shregSplitDim "channel write index" name args (args.length - 1)
      if dim = none then pure .narrowShreg else throw (.unexpectedRamp true)
  else throw .impossibleCase

/-- `VecDatapath::visit(const Call *)` after the arguments: the branch taken. A mutated
argument is a `Ramp` exactly when the argument is (`VecDatapath` has no `Ramp` visitor
and turns no other node into one), so the scans read the arguments as they were. The
`annotate` branch rebuilds the call and raises nothing. -/
def visitCall (m : LaneMaps) (i : Intrinsic) (lanes : Nat) (args : List DNode) :
    Except DatapathError Rewrite := do
  if i = .readChannelNb ∨ i = .writeChannelNb then throw .channelNb
  if i = .readChannel ∨ i = .writeChannel then
    let name ← nameOf args
    match m.vecLen name with
    | some (r, w) => channelRewrite (i = .readChannel) name args lanes (min r w)
    | none => pure .rebuild
  else if i = .readShiftReg ∨ i = .writeShiftReg then
    let name ← nameOf args
    match m.vecShregLen name with
    | some (r, w) => shregRewrite (i = .readShiftReg) name args lanes (max r w)
    | none => pure .rebuild
  else pure .rebuild

mutual
/-- The walk of `VecDatapath` (an `IRMutator`): the arguments of a call first, then the
call; `Realize` mutates its condition and body, not its bounds. The branches taken, in
order. -/
def datapath (m : LaneMaps) : DNode → Except DatapathError (List Rewrite)
  | .stringImm _ => pure []
  | .call i lanes args => do
      let inner ← datapathAll m args
      return inner ++ [← visitCall m i lanes args]
  | .ramp base stride => do
      let b ← datapath m base
      return b ++ (← datapath m stride)
  | .realize _ condition body => do
      let c ← datapath m condition
      return c ++ (← datapath m body)
  | .node cs => datapathAll m cs
/-- `datapath` over a list of children, in order. -/
def datapathAll (m : LaneMaps) : List DNode → Except DatapathError (List Rewrite)
  | [] => pure []
  | e :: es => do
      let r ← datapath m e
      return r ++ (← datapathAll m es)
end

/-- The IntelFPGA tail of `vectorize_loops` on the simplified statement:
`RecordVectorLength`, then `VecDatapath` with the maps it recorded. -/
def vectorizeDatapath (s : DNode) : Except DatapathError (List Rewrite) := do
  datapath (← recordVectorLength s) s

/-! ### Recording moves each entry one way -/

/-- `m'` keeps every entry of `m`, each side moved only as `R` allows. -/
def Grows (R : Nat → Nat → Prop) (m m' : LaneMap) : Prop :=
  ∀ n p, m n = some p → ∃ p', m' n = some p' ∧ R p.1 p'.1 ∧ R p.2 p'.2

/-- Every entry of a channel map has at least one lane on each side. -/
def PosMap (m : LaneMap) : Prop := ∀ n p, m n = some p → 1 ≤ p.1 ∧ 1 ≤ p.2

/-- `m'` is `m` after more recording: channel sides only shrink, register sides only
grow. -/
structure LaneMaps.Le (m m' : LaneMaps) : Prop where
  vecLen : Grows (· ≥ ·) m.vecLen m'.vecLen
  vecShregLen : Grows (· ≤ ·) m.vecShregLen m'.vecShregLen

/-- What `VecDatapath` needs of the maps at a call: it is no `_nb` call, and a channel
or register call names an entry whose side is no wider (channel) or no narrower
(register) than the call. -/
def Fits (m : LaneMaps) (c : CallSite) : Prop :=
  c.1 ≠ .readChannelNb ∧ c.1 ≠ .writeChannelNb ∧
  (∀ write, c.1.channelSide = some write →
    ∃ n p, nameOf c.2.2 = .ok n ∧ m.vecLen n = some p ∧ side p write ≤ c.2.1) ∧
  (∀ write, c.1.shregSide = some write →
    ∃ n p, nameOf c.2.2 = .ok n ∧ m.vecShregLen n = some p ∧ c.2.1 ≤ side p write)

theorem Grows.refl {R : Nat → Nat → Prop} (hR : ∀ a, R a a) (m : LaneMap) : Grows R m m :=
  fun _ p hp => ⟨p, hp, hR _, hR _⟩

theorem Grows.trans {R : Nat → Nat → Prop} (hR : ∀ a b c, R a b → R b c → R a c)
    {m m' m'' : LaneMap} (h : Grows R m m') (h' : Grows R m' m'') : Grows R m m'' := by
  intro n p hp
  obtain ⟨p', hp', h1, h2⟩ := h n p hp
  obtain ⟨p'', hp'', h1', h2'⟩ := h' n p' hp'
  exact ⟨p'', hp'', hR _ _ _ h1 h1', hR _ _ _ h2 h2'⟩

theorem Grows.side {R : Nat → Nat → Prop} {m m' : LaneMap} (h : Grows R m m') {n : String}
    {p : Nat × Nat} (hp : m n = some p) (write : Bool) :
    ∃ p', m' n = some p' ∧ R (side p write) (side p' write) := by
  obtain ⟨p', hp', h1, h2⟩ := h n p hp
  exact ⟨p', hp', by cases write <;> assumption⟩

theorem LaneMaps.Le.refl (m : LaneMaps) : m.Le m :=
  ⟨Grows.refl (R := (· ≥ ·)) Nat.le_refl _, Grows.refl Nat.le_refl _⟩

theorem LaneMaps.Le.trans {m m' m'' : LaneMaps} (h : m.Le m') (h' : m'.Le m'') : m.Le m'' :=
  ⟨h.vecLen.trans (R := (· ≥ ·)) (fun _ _ _ h1 h2 => Nat.le_trans h2 h1) h'.vecLen,
    h.vecShregLen.trans (R := (· ≤ ·)) (fun _ _ _ => Nat.le_trans) h'.vecShregLen⟩

/-- A call that fits keeps fitting as recording goes on. -/
theorem Fits.mono {m m' : LaneMaps} (h : m.Le m') {c : CallSite} (hc : Fits m c) : Fits m' c := by
  obtain ⟨h1, h2, hch, hsh⟩ := hc
  refine ⟨h1, h2, fun write hw => ?_, fun write hw => ?_⟩
  · obtain ⟨n, p, hn, hp, hle⟩ := hch write hw
    obtain ⟨p', hp', hle'⟩ := h.vecLen.side hp write
    exact ⟨n, p', hn, hp', Nat.le_trans hle' hle⟩
  · obtain ⟨n, p, hn, hp, hle⟩ := hsh write hw
    obtain ⟨p', hp', hle'⟩ := h.vecShregLen.side hp write
    exact ⟨n, p', hn, hp', Nat.le_trans hle hle'⟩

/-! ### One recorded side -/

section RecordSide

variable {m : LaneMap} {name : String} {write : Bool} {init : Nat × Nat}
  {combine : Nat → Nat → Nat} {lanes : Nat}

/-- Recording one side moves the entry only as `combine` does. -/
theorem recordSide_grows {R : Nat → Nat → Prop} (hR : ∀ a, R a a)
    (hc : ∀ a, R a (combine lanes a)) : Grows R m (recordSide m name write init combine lanes) := by
  intro n p hp
  by_cases hn : n = name
  · subst hn
    simp only [recordSide, if_pos, hp]
    exact ⟨_, rfl, by cases write <;> simp [hR, hc]⟩
  · exact ⟨p, by simp [recordSide, hn, hp], hR _, hR _⟩

/-- The recorded side of the entry is `lanes` or `combine lanes` of the old side. -/
theorem recordSide_side {P : Nat → Prop} (hl : P lanes) (hc : ∀ a, P (combine lanes a)) :
    ∃ p, recordSide m name write init combine lanes name = some p ∧ P (side p write) := by
  refine ⟨_, if_pos rfl, ?_⟩
  cases hm : m name <;> cases write <;> simp [side, hl, hc]

/-- Recording keeps every side of a channel map at least one. -/
theorem recordSide_pos (hm : PosMap m) (hinit : 1 ≤ init.1 ∧ 1 ≤ init.2) (hl : 1 ≤ lanes)
    (hc : ∀ a, 1 ≤ a → 1 ≤ combine lanes a) : PosMap (recordSide m name write init combine lanes) := by
  intro n p hp
  by_cases hn : n = name
  · subst hn
    simp only [recordSide, if_pos, Option.some.injEq] at hp
    subst hp
    cases h : m n with
    | none => cases write <;> simp [hl, hinit]
    | some q =>
      have := hm n q h
      cases write <;> simp [hc, this]
  · exact hm n p (by simpa [recordSide, hn] using hp)

end RecordSide

/-! ### One call -/

@[simp] theorem ok_bind {ε α β : Type} (a : α) (f : α → Except ε β) :
    (Except.ok a >>= f) = f a := rfl

@[simp] theorem error_bind {ε α β : Type} (e : ε) (f : α → Except ε β) :
    (Except.error e >>= f) = .error e := rfl

/-- A bind that fails failed first or in its continuation. -/
theorem bind_eq_error {ε α β : Type} {x : Except ε α} {f : α → Except ε β} {e : ε}
    (h : (x >>= f) = .error e) : x = .error e ∨ ∃ a, x = .ok a ∧ f a = .error e := by
  cases x with
  | error e' => cases h; exact .inl rfl
  | ok a => exact .inr ⟨a, rfl, h⟩

/-- A bind that succeeds is a success followed by a success. -/
theorem bind_eq_ok {ε α β : Type} {x : Except ε α} {f : α → Except ε β} {b : β}
    (h : (x >>= f) = .ok b) : ∃ a, x = .ok a ∧ f a = .ok b := by
  cases x with
  | error e => cases h
  | ok a => exact ⟨a, rfl, h⟩

@[simp] theorem except_pure {ε α : Type} (a : α) : (pure a : Except ε α) = .ok a := rfl

@[simp] theorem except_throw {ε α : Type} (e : ε) : (throw e : Except ε α) = .error e := rfl

@[simp] theorem map_error {ε α β : Type} (f : α → β) (e : ε) :
    (f <$> Except.error e : Except ε β) = .error e := rfl

theorem recordChannelLanes_spec {v v' : LaneMap} {i : Intrinsic} {lanes : Nat} {args : List DNode}
    (h : recordChannelLanes v i lanes args = .ok v') :
    i ≠ .readChannelNb ∧ i ≠ .writeChannelNb ∧ Grows (· ≥ ·) v v' ∧
      (∀ write, i.channelSide = some write →
        ∃ n p, nameOf args = .ok n ∧ v' n = some p ∧ side p write ≤ lanes) ∧
      (PosMap v → 1 ≤ lanes → PosMap v') := by
  unfold recordChannelLanes at h
  split_ifs at h with hnb
  · cases h
  push_neg at hnb
  refine ⟨hnb.1, hnb.2, ?_⟩
  cases hs : i.channelSide with
  | none =>
    simp only [hs] at h
    cases h
    exact ⟨Grows.refl (R := (· ≥ ·)) Nat.le_refl _, nofun, fun hv _ => hv⟩
  | some write =>
    simp only [hs] at h
    cases hn : nameOf args with
    | error e => simp [hn] at h
    | ok n =>
      simp only [hn] at h
      cases h
      refine ⟨recordSide_grows (R := (· ≥ ·)) Nat.le_refl (fun a => Nat.min_le_right _ _),
        fun write' hw => ?_, fun hv hl => recordSide_pos hv (by decide) hl
          (fun a ha => Nat.le_min.2 ⟨hl, ha⟩)⟩
      cases hw
      obtain ⟨p, hp, hle⟩ := @recordSide_side v n write (int32Max, int32Max) min lanes
        (· ≤ lanes) (Nat.le_refl _) (fun a => Nat.min_le_left _ _)
      exact ⟨n, p, rfl, hp, hle⟩

theorem recordShregLanes_spec {v v' : LaneMap} {i : Intrinsic} {lanes : Nat} {args : List DNode}
    (h : recordShregLanes v i lanes args = .ok v') :
    Grows (· ≤ ·) v v' ∧
      ∀ write, i.shregSide = some write →
        ∃ n p, nameOf args = .ok n ∧ v' n = some p ∧ lanes ≤ side p write := by
  unfold recordShregLanes at h
  cases hs : i.shregSide with
  | none =>
    simp only [hs] at h
    cases h
    exact ⟨Grows.refl Nat.le_refl _, nofun⟩
  | some write =>
    rw [hs] at h
    obtain ⟨n, hn, h⟩ := bind_eq_ok h
    have hv' : v' = recordSide v n write (1, 1) max lanes := by
      cases hp : v n with
      | none => simpa only [hp, ok_bind, except_pure, Except.ok.injEq] using h.symm
      | some p =>
        by_cases hc : lanes = side p write ∨ lanes = 1 ∨ side p write = 1
        · simpa only [hp, hc, ok_bind, if_true, except_pure, Except.ok.injEq] using h.symm
        · simp only [hp, hc, if_false, except_throw, error_bind] at h
          cases h
    subst hv'
    refine ⟨recordSide_grows Nat.le_refl (fun a => Nat.le_max_right _ _), fun write' hw => ?_⟩
    cases hw
    obtain ⟨p, hp, hle⟩ := @recordSide_side v n write (1, 1) max lanes (lanes ≤ ·)
      (Nat.le_refl _) (fun a => Nat.le_max_left _ _)
    exact ⟨n, p, hn, hp, hle⟩

/-- **One recorded call.** The maps move only the allowed way, the call fits them, and
a positive channel map stays positive. -/
theorem recordCall_spec {m m' : LaneMaps} {i : Intrinsic} {lanes : Nat} {args : List DNode}
    (h : recordCall m i lanes args = .ok m') :
    m.Le m' ∧ Fits m' (i, lanes, args) ∧ (PosMap m.vecLen → 1 ≤ lanes → PosMap m'.vecLen) := by
  obtain ⟨v1, hc, h⟩ := bind_eq_ok h
  obtain ⟨v2, hs, h⟩ := bind_eq_ok h
  cases h
  obtain ⟨h1, h2, hg1, hch, hpos⟩ := recordChannelLanes_spec hc
  obtain ⟨hg2, hsh⟩ := recordShregLanes_spec hs
  exact ⟨⟨hg1, hg2⟩, ⟨h1, h2, hch, hsh⟩, hpos⟩

/-! ### The walk -/

/-- What a walk over the calls `cs` guarantees from the maps `m` to the maps `m'`. -/
structure Recorded (m m' : LaneMaps) (cs : List CallSite) : Prop where
  le : m.Le m'
  fits : ∀ c ∈ cs, Fits m' c
  pos : PosMap m.vecLen → (∀ c ∈ cs, 1 ≤ c.2.1) → PosMap m'.vecLen

theorem Recorded.nil (m : LaneMaps) : Recorded m m [] :=
  ⟨.refl m, by simp, fun h _ => h⟩

theorem Recorded.call {m m' : LaneMaps} {i : Intrinsic} {lanes : Nat} {args : List DNode}
    (h : recordCall m i lanes args = .ok m') : Recorded m m' [(i, lanes, args)] :=
  let ⟨hle, hfit, hpos⟩ := recordCall_spec h
  ⟨hle, by simpa using hfit, fun hm hl => hpos hm (hl _ (List.mem_singleton_self _))⟩

/-- Walks compose. -/
theorem Recorded.append {m m1 m2 : LaneMaps} {cs1 cs2 : List CallSite} (h1 : Recorded m m1 cs1)
    (h2 : Recorded m1 m2 cs2) : Recorded m m2 (cs1 ++ cs2) where
  le := h1.le.trans h2.le
  fits c hc := (List.mem_append.1 hc).elim (fun hc => (h1.fits c hc).mono h2.le) (h2.fits c)
  pos hm hl := h2.pos (h1.pos hm fun c hc => hl c (List.mem_append_left _ hc))
    fun c hc => hl c (List.mem_append_right _ hc)

mutual
/-- **The walk of `RecordVectorLength`.** Every call of the statement fits the maps the
walk ends with. -/
theorem record_spec : ∀ {m m' : LaneMaps} (s : DNode), record m s = .ok m' → Recorded m m' s.calls
  | m, _, .stringImm _, h => by cases h; exact .nil m
  | _, _, .call _ _ args, h => by
    rw [record] at h
    obtain ⟨m1, h1, h⟩ := bind_eq_ok h
    exact (Recorded.call h1).append (recordAll_spec args h)
  | _, _, .ramp base stride, h => by
    rw [record] at h
    obtain ⟨m1, h1, h⟩ := bind_eq_ok h
    exact (record_spec base h1).append (record_spec stride h)
  | _, _, .realize bounds condition body, h => by
    rw [record] at h
    obtain ⟨m1, h1, h⟩ := bind_eq_ok h
    obtain ⟨m2, h2, h⟩ := bind_eq_ok h
    exact ((recordAll_spec bounds h1).append (record_spec condition h2)).append (record_spec body h)
  | _, _, .node cs, h => recordAll_spec cs h
/-- `record_spec` over a list of children. -/
theorem recordAll_spec : ∀ {m m' : LaneMaps} (es : List DNode), recordAll m es = .ok m' →
    Recorded m m' (DNode.callsAll es)
  | m, _, [], h => by cases h; exact .nil m
  | _, _, e :: es, h => by
    rw [recordAll] at h
    obtain ⟨m1, h1, h⟩ := bind_eq_ok h
    exact (record_spec e h1).append (recordAll_spec es h)
end

theorem append_subset_append {α : Type} {l₁ l₂ l₃ l₄ : List α} (h₁ : l₁ ⊆ l₃) (h₂ : l₂ ⊆ l₄) :
    l₁ ++ l₂ ⊆ l₃ ++ l₄ :=
  List.append_subset.2 ⟨List.Subset.trans h₁ (List.subset_append_left _ _),
    List.Subset.trans h₂ (List.subset_append_right _ _)⟩

mutual
/-- `VecDatapath` visits a call only where `RecordVectorLength` does. -/
theorem visitedCalls_subset : ∀ s : DNode, s.visitedCalls ⊆ s.calls
  | .stringImm _ => List.Subset.refl _
  | .call _ _ args => List.append_subset.2 ⟨List.Subset.trans (visitedCallsAll_subset args)
      (List.subset_cons_self _ _), by simp [DNode.calls]⟩
  | .ramp base stride => append_subset_append (visitedCalls_subset base) (visitedCalls_subset stride)
  | .realize bounds condition body => List.append_subset.2
      ⟨fun _ hc => by simp [DNode.calls, visitedCalls_subset condition hc],
        fun _ hc => by simp [DNode.calls, visitedCalls_subset body hc]⟩
  | .node cs => visitedCallsAll_subset cs
/-- `visitedCalls_subset` over a list of children. -/
theorem visitedCallsAll_subset : ∀ es : List DNode, DNode.visitedCallsAll es ⊆ DNode.callsAll es
  | [] => List.Subset.refl _
  | e :: es => append_subset_append (visitedCalls_subset e) (visitedCallsAll_subset es)
end

/-! ### `VecDatapath` at calls that fit -/

/-- A fold fails only as one of its steps does. -/
theorem foldlM_error {ε α β : Type} {P : ε → Prop} {f : β → α → Except ε β}
    (hf : ∀ b a e, f b a = .error e → P e) :
    ∀ (xs : List α) (init : β) {e : ε}, xs.foldlM f init = .error e → P e
  | [], _, _, h => by cases h
  | x :: xs, init, _, h => by
    rw [List.foldlM_cons] at h
    rcases bind_eq_error h with h | ⟨_, -, h⟩
    · exact hf _ _ _ h
    · exact foldlM_error hf xs _ h

/-- A computation whose result is only returned fails only as the computation does. -/
theorem error_of_bind_pure {ε α β : Type} {x : Except ε α} {g : α → β} {e : ε}
    (h : (x >>= fun a => pure (g a)) = .error e) : x = .error e := by
  rcases bind_eq_error h with h | ⟨_, -, h⟩
  · exact h
  · cases h

/-- Two computations whose results are combined fail only as one of them does. -/
theorem error_of_bind₂ {ε α β γ : Type} {x : Except ε α} {y : Except ε β} {g : α → β → γ}
    {e : ε} (h : (x >>= fun a => y >>= fun b => pure (g a b)) = .error e) :
    x = .error e ∨ y = .error e := by
  rcases bind_eq_error h with h | ⟨_, -, h⟩
  · exact .inl h
  · exact .inr (error_of_bind_pure h)

theorem channelVectorizedArg_error {read : Bool} {name : String} {args : List DNode}
    {e : DatapathError} (h : channelVectorizedArg read name args = .error e) :
    e ≠ .impossibleCase := by
  unfold channelVectorizedArg at h
  rcases bind_eq_error h with h | ⟨dim, -, h⟩
  · refine foldlM_error (P := (· ≠ .impossibleCase)) (fun b a e h => ?_) _ _ h
    split_ifs at h <;> cases h
    nofun
  · split_ifs at h <;> cases h
    nofun

theorem shregSplitDim_error {what name : String} {args : List DNode} {stop : Nat}
    {e : DatapathError} (h : shregSplitDim what name args stop = .error e) :
    e ≠ .impossibleCase := by
  refine foldlM_error (P := (· ≠ .impossibleCase)) (fun b a e h => ?_) _ _ h
  split_ifs at h <;> cases h <;> nofun

theorem channelRewrite_error {read : Bool} {name : String} {args : List DNode} {real aim : Nat}
    {e : DatapathError} (hle : aim ≤ real) (h : channelRewrite read name args real aim = .error e) :
    e ≠ .impossibleCase := by
  unfold channelRewrite at h
  split_ifs at h with h1 h2 h3
  · exact channelVectorizedArg_error (error_of_bind_pure h)
  · cases h
    nofun
  · exact channelVectorizedArg_error (error_of_bind_pure h)
  · omega

/-- A narrowed register access fails only in its scan or in the assertion after it. -/
theorem narrowScan_error {what name : String} {args : List DNode} {stop : Nat} {write : Bool}
    {e : DatapathError}
    (h : (shregSplitDim what name args stop >>= fun dim => if dim = none then pure Rewrite.narrowShreg
      else throw (DatapathError.unexpectedRamp write)) = .error e) : e ≠ .impossibleCase := by
  rcases bind_eq_error h with h | ⟨dim, -, h⟩
  · exact shregSplitDim_error h
  · by_cases hd : dim = none <;> simp only [hd, if_true, if_false] at h <;> cases h
    nofun

theorem shregRewrite_error {read : Bool} {name : String} {args : List DNode} {real aim : Nat}
    {e : DatapathError} (hle : real ≤ aim) (h : shregRewrite read name args real aim = .error e) :
    e ≠ .impossibleCase := by
  unfold shregRewrite at h
  by_cases h1 : real = aim
  · rw [if_pos h1] at h
    exact shregSplitDim_error (error_of_bind_pure h)
  rw [if_neg h1, if_pos (by omega)] at h
  by_cases h2 : aim % real ≠ 0
  · rw [if_pos h2] at h
    cases h
    nofun
  rw [if_neg h2] at h
  cases read
  · exact narrowScan_error h
  · by_cases h3 : args.length > 1
    · exact narrowScan_error (by rwa [if_pos rfl, if_pos h3] at h)
    · rw [if_pos rfl, if_neg h3] at h
      cases h
      nofun

theorem Intrinsic.channelSide_of_channel {i : Intrinsic}
    (h : i = .readChannel ∨ i = .writeChannel) : ∃ write, i.channelSide = some write := by
  rcases h with rfl | rfl <;> exact ⟨_, rfl⟩

theorem Intrinsic.shregSide_of_shreg {i : Intrinsic}
    (h : i = .readShiftReg ∨ i = .writeShiftReg) : ∃ write, i.shregSide = some write := by
  rcases h with rfl | rfl <;> exact ⟨_, rfl⟩

theorem min_le_side (p : Nat × Nat) (write : Bool) : min p.1 p.2 ≤ side p write := by
  cases write
  · exact Nat.min_le_left _ _
  · exact Nat.min_le_right _ _

theorem side_le_max (p : Nat × Nat) (write : Bool) : side p write ≤ max p.1 p.2 := by
  cases write
  · exact Nat.le_max_left _ _
  · exact Nat.le_max_right _ _

/-- **One call that fits.** Its channel's aim length is no wider, and its register's
aim length no narrower, than the call, so "Impossible case happens" cannot stop it. -/
theorem visitCall_error {m : LaneMaps} {i : Intrinsic} {lanes : Nat} {args : List DNode}
    (hc : Fits m (i, lanes, args)) {e : DatapathError}
    (h : visitCall m i lanes args = .error e) : e ≠ .impossibleCase := by
  obtain ⟨hnb1, hnb2, hch, hsh⟩ := hc
  unfold visitCall at h
  rw [if_neg (by rintro (h | h) <;> contradiction)] at h
  split_ifs at h with hchan hshreg
  · obtain ⟨write, hw⟩ := Intrinsic.channelSide_of_channel hchan
    obtain ⟨n, ⟨r, w⟩, hn, hp, hle⟩ := hch write hw
    simp only [hn, hp, ok_bind] at h
    exact channelRewrite_error ((min_le_side (r, w) write).trans hle) h
  · obtain ⟨write, hw⟩ := Intrinsic.shregSide_of_shreg hshreg
    obtain ⟨n, ⟨r, w⟩, hn, hp, hle⟩ := hsh write hw
    simp only [hn, hp, ok_bind] at h
    exact shregRewrite_error (hle.trans (side_le_max (r, w) write)) h
  · cases h

mutual
/-- **The walk of `VecDatapath`.** Over a statement whose visited calls all fit,
"Impossible case happens" is never raised. -/
theorem datapath_error {m : LaneMaps} : ∀ (s : DNode), (∀ c ∈ s.visitedCalls, Fits m c) →
    ∀ {e}, datapath m s = .error e → e ≠ .impossibleCase
  | .stringImm _, _, _, h => by cases h
  | .call _ _ args, hfit, _, h => by
    rw [datapath] at h
    rcases error_of_bind₂ h with h | h
    · exact datapathAll_error args (fun c hc => hfit c (List.mem_append_left _ hc)) h
    · exact visitCall_error (hfit _ (List.mem_append_right _ (List.mem_singleton_self _))) h
  | .ramp base stride, hfit, _, h => by
    rw [datapath] at h
    rcases error_of_bind₂ h with h | h
    · exact datapath_error base (fun c hc => hfit c (List.mem_append_left _ hc)) h
    · exact datapath_error stride (fun c hc => hfit c (List.mem_append_right _ hc)) h
  | .realize _ condition body, hfit, _, h => by
    rw [datapath] at h
    rcases error_of_bind₂ h with h | h
    · exact datapath_error condition (fun c hc => hfit c (List.mem_append_left _ hc)) h
    · exact datapath_error body (fun c hc => hfit c (List.mem_append_right _ hc)) h
  | .node cs, hfit, _, h => datapathAll_error cs hfit h
/-- `datapath_error` over a list of children. -/
theorem datapathAll_error {m : LaneMaps} : ∀ (es : List DNode),
    (∀ c ∈ DNode.visitedCallsAll es, Fits m c) → ∀ {e}, datapathAll m es = .error e →
      e ≠ .impossibleCase
  | [], _, _, h => by cases h
  | e :: es, hfit, _, h => by
    rw [datapathAll] at h
    rcases error_of_bind₂ h with h | h
    · exact datapath_error e (fun c hc => hfit c (List.mem_append_left _ hc)) h
    · exact datapathAll_error es (fun c hc => hfit c (List.mem_append_right _ hc)) h
end

/-! ### The two passes agree -/

/-- **`VecDatapath` against the maps `RecordVectorLength` recorded over the same
statement.** Every `read_channel`/`write_channel` call it visits has an entry whose aim
length `min(read_len, write_len)` is at least one and at most the call's lane count,
every `read_shift_reg`/`write_shift_reg` call has an entry whose aim length
`max(read_len, write_len)` is at least its lane count, and "Impossible case happens" is
never raised. -/
theorem datapath_lanes_fit (s : DNode) (hs : s.WellLaned) {m : LaneMaps}
    (hm : recordVectorLength s = .ok m) :
    (∀ c ∈ s.visitedCalls, c.1 = .readChannel ∨ c.1 = .writeChannel →
      ∃ n r w, nameOf c.2.2 = .ok n ∧ m.vecLen n = some (r, w) ∧ 1 ≤ min r w ∧
        min r w ≤ c.2.1) ∧
    (∀ c ∈ s.visitedCalls, c.1 = .readShiftReg ∨ c.1 = .writeShiftReg →
      ∃ n r w, nameOf c.2.2 = .ok n ∧ m.vecShregLen n = some (r, w) ∧ c.2.1 ≤ max r w) ∧
    vectorizeDatapath s ≠ .error .impossibleCase := by
  have hrec := record_spec s hm
  have hfit : ∀ c ∈ s.visitedCalls, Fits m c := fun c hc => hrec.fits c (visitedCalls_subset s hc)
  have hpos : PosMap m.vecLen := hrec.pos (fun _ _ h => by cases h) hs
  refine ⟨fun ⟨i, lanes, args⟩ hc hi => ?channel, fun ⟨i, lanes, args⟩ hc hi => ?shreg, fun h => ?_⟩
  case channel =>
    obtain ⟨write, hw⟩ := Intrinsic.channelSide_of_channel hi
    obtain ⟨n, ⟨r, w⟩, hn, hp, hle⟩ := (hfit _ hc).2.2.1 write hw
    exact ⟨n, r, w, hn, hp, Nat.le_min.2 (hpos n _ hp), (min_le_side (r, w) write).trans hle⟩
  case shreg =>
    obtain ⟨write, hw⟩ := Intrinsic.shregSide_of_shreg hi
    obtain ⟨n, ⟨r, w⟩, hn, hp, hle⟩ := (hfit _ hc).2.2.2 write hw
    exact ⟨n, r, w, hn, hp, hle.trans (side_le_max (r, w) write)⟩
  simp only [vectorizeDatapath, hm, ok_bind] at h
  exact datapath_error s hfit h rfl

/-- A channel written with four lanes and read with eight, each with its `Ramp` index
last, inside a `Realize` whose bounds read it with two: the bounds are recorded but not
visited, so the aim length is two and both visited calls are wider than it; a register
written with two lanes at a `Ramp` first index and read with one. -/
theorem datapath_lanes_fit_realize :
    let s : DNode := .realize [.call .readChannel 2 [.stringImm "ch"]] (.node [])
      (.node [.call .writeChannel 4 [.stringImm "ch", .node [], .ramp (.node []) (.node [])],
        .call .readChannel 8 [.stringImm "ch", .ramp (.node []) (.node [])],
        .call .writeShiftReg 2 [.stringImm "r", .ramp (.node []) (.node []), .node []],
        .call .readShiftReg 1 [.stringImm "r", .node []]])
    s.WellLaned ∧ ∃ m, recordVectorLength s = .ok m ∧
      ((∀ c ∈ s.visitedCalls, c.1 = .readChannel ∨ c.1 = .writeChannel →
        ∃ n r w, nameOf c.2.2 = .ok n ∧ m.vecLen n = some (r, w) ∧ 1 ≤ min r w ∧
          min r w ≤ c.2.1) ∧
      (∀ c ∈ s.visitedCalls, c.1 = .readShiftReg ∨ c.1 = .writeShiftReg →
        ∃ n r w, nameOf c.2.2 = .ok n ∧ m.vecShregLen n = some (r, w) ∧ c.2.1 ≤ max r w) ∧
      vectorizeDatapath s ≠ .error .impossibleCase) :=
  ⟨by decide, _, rfl, datapath_lanes_fit _ (by decide) rfl⟩

example : vectorizeDatapath (.realize [.call .readChannel 2 [.stringImm "ch"]] (.node [])
    (.node [.call .writeChannel 4 [.stringImm "ch", .node [], .ramp (.node []) (.node [])],
      .call .readChannel 8 [.stringImm "ch", .ramp (.node []) (.node [])],
      .call .writeShiftReg 2 [.stringImm "r", .ramp (.node []) (.node []), .node []],
      .call .readShiftReg 1 [.stringImm "r", .node []]])) =
    .ok [.splitChannel 2, .splitChannel 4, .sameLanes, .narrowShreg] := rfl

end HalideSchedule.Vectorize
