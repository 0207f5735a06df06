import HalideSchedule.Vectorize.Datapath
import HalideSchedule.Vectorize.LoopsSound

/-!
# HalideSchedule.Vectorize.Pass

**`VectorizeLoops` over a whole statement.** `VectorizeLoops` is an `IRMutator`: it
rebuilds every statement on its visited children and replaces each loop marked
`Vectorized` by that loop's body vectorized (`vectorizeLoops_sim`, for one loop). Over a
whole statement whose vectorized loops are ones that theorem covers (`VecReady`):

* the vectorized statement fails exactly when the original does, whatever the loops
  write;
* when every vectorized loop that a run reaches has iterations writing pairwise different
  locations (`VecSeparate`, the promise a `Vectorized` loop makes), the vectorized
  statement leaves every memory as the original does.

Both follow from the one-loop theorem by congruence: sequencing and loops keep failing
alike (`seqW_eq_none_congr`, `forExec_eq_none_congr`) and leaving memory alike
(`map_run_seqW`, `map_run_forExec`).

Both hold from every environment that gives the names the statement reads lanes of their
types in a context the statement is well typed in (`VStmt.typeOk`). The `For` visitor runs
an inner loop whose extent reads the vectorized variable up to `bounds_of_lanes` of the
widened extent, and the `IfThenElse` visitor takes the vectorized branch of a `likely`
condition when `bounds_of_lanes` gives it a true least lane. `VecReady` asks, through the
naming discipline, that such extents and conditions be bounded (`VExpr.boundedBy`): the
bounds are then exact (`VectorSubs.mutate_bounds`), as on `growStore`. Without it the
rule for a `Broadcast` minus a vector misses a write of `triangleStore`
(`vectorizeLoops_drops_write`), the `Or` rule runs the vectorized branch of a `likely`
condition that is false at a lane (`vectorizeLoops_likely_writes`), and an assertion on
the loop variable is left reading it (`vectorizeLoops_keeps_assert`).

The pass leaves no loop marked `Vectorized` behind when no such loop sits inside another
(`vectorizeLoops_vectorizedFree`, from `mutateStmt_vectorizedFree`). One that does can keep
its mark: a branch on a vector condition is scalarized as it was before the visit
(`vectorizeLoops_keeps_vectorized`).
-/

namespace HalideSchedule.Vectorize

/-! ### Runs that agree -/

theorem seqW_eq_none_congr {t t' u u' : Option (List Write)} (ht : t = none ↔ t' = none)
    (hu : u = none ↔ u' = none) : seqW t u = none ↔ seqW t' u' = none := by
  simp only [seqW_eq_none, ht, hu]

theorem forExec_eq_none_congr {T T' : Nat → Option (List Write)} {E : Nat}
    (h : ∀ j < E, (T j = none ↔ T' j = none)) : forExec T E = none ↔ forExec T' E = none := by
  simp only [forExec_eq_none]
  exact ⟨fun ⟨j, hj, hT⟩ => ⟨j, hj, (h j hj).1 hT⟩, fun ⟨j, hj, hT⟩ => ⟨j, hj, (h j hj).2 hT⟩⟩

/-- Writes after the writes `a` run on the memory `a` leaves. -/
theorem map_run_seqW_some (a : List Write) (u : Option (List Write)) (m : Mem) :
    (seqW (some a) u).map m.run = u.map (m.run a).run := by
  cases u with
  | none => rfl
  | some b => exact congrArg some (Mem.run_append m a b)

/-- Runs that leave every memory alike, one after the other, leave every memory alike. -/
theorem map_run_seqW {t t' u u' : Option (List Write)}
    (ht : ∀ m : Mem, t.map m.run = t'.map m.run) (hu : ∀ m : Mem, u.map m.run = u'.map m.run)
    (m : Mem) : (seqW t u).map m.run = (seqW t' u').map m.run := by
  cases t with
  | none => cases t' with
    | none => rfl
    | some _ => exact absurd (ht m) (by simp)
  | some a => cases t' with
    | none => exact absurd (ht m) (by simp)
    | some a' =>
      have ha : m.run a = m.run a' := by simpa using ht m
      rw [map_run_seqW_some, map_run_seqW_some, ha]
      exact hu (m.run a')

theorem map_run_forExec {T T' : Nat → Option (List Write)} {E : Nat}
    (h : ∀ j < E, ∀ m : Mem, (T j).map m.run = (T' j).map m.run) (m : Mem) :
    (forExec T E).map m.run = (forExec T' E).map m.run := by
  induction E generalizing m with
  | zero => rfl
  | succ E ih =>
    exact map_run_seqW (ih fun j hj => h j (by omega)) (h E (by omega)) m

/-! ### The pass -/

/-- Every loop marked `Vectorized` that `VectorizeLoops` replaces in `s` is one that
`vectorizeLoops_sim` covers: a constant extent greater than one, a scalar `min` that does
not read the loop variable, and a scalar body that keeps the naming discipline, whose inner
loop extents and `likely` conditions are bounded. -/
def VecReady : VStmt → Prop
  | .forLoop name min extent ft body =>
    if ft = .vectorized then
      ∃ n : Int, extent = .intImm n ∧ 1 < n ∧ min.scalarBody = true ∧ min.usesVar name = false ∧
        body.scalarBody = true ∧ (VectorSubs.ofLoop name min n.toNat).StmtHygienic [] [] body
    else VecReady body
  | .letStmt _ _ body => VecReady body
  | .block a b | .ifThenElse _ a b => VecReady a ∧ VecReady b
  | .assertStmt _ | .store _ _ _ _ | .undef => True

/-- Every loop marked `Vectorized` that a run of `s` from `env` reaches has iterations that,
when they all run through, write pairwise different locations. -/
def VecSeparate (env : Env) : VStmt → Prop
  | .forLoop name min extent ft body =>
    if ft = .vectorized then
      ∀ ws, (∀ i < (extent.eval env 0).toInt.toNat, body.exec (env.bind name fun _ =>
        Val.intOp (· + ·) (min.eval env 0) (.int i)) = some (ws i)) →
          Separate ws (extent.eval env 0).toInt.toNat
    else ∀ j < (extent.eval env 0).toInt.toNat,
      VecSeparate (env.bind name fun _ => Val.intOp (· + ·) (min.eval env 0) (.int j)) body
  | .letStmt n v body => VecSeparate (env.bind n (v.eval env)) body
  | .block a b => VecSeparate env a ∧ VecSeparate env b
  | .ifThenElse c a b =>
    if c.eval env 0 = .bool true then VecSeparate env a else VecSeparate env b
  | .assertStmt _ | .store _ _ _ _ | .undef => True

/-- Rows of a table written by a vectorized loop inside a serial one:
`for y in [0, 3): for x in [0, 4) vectorized: f[y * 4 + x] = x + y`. -/
def rowsStore : VStmt :=
  .forLoop "y" (.intImm 0) (.intImm 3) .serial
    (.forLoop "x" (.intImm 0) (.intImm 4) .vectorized
      (.store "f" (.add (.var ⟨.int, 1⟩ "x") (.var ⟨.int, 1⟩ "y"))
        (.add (.mul (.var ⟨.int, 1⟩ "y") (.intImm 4)) (.var ⟨.int, 1⟩ "x")) (.boolImm true)))

/-- A vectorized loop over a growing triangle:
`for x in [0, 2) vectorized: for y in [0, x + 1): f[y * 2 + x] = 1`. The inner extent
becomes `Ramp(0, 1, 2) + Broadcast(1, 2)`, whose `bounds_of_lanes` is `0 + 1 * 1 + 1`, the
greatest lane. -/
def growStore : VStmt :=
  .forLoop "x" (.intImm 0) (.intImm 2) .vectorized
    (.forLoop "y" (.intImm 0) (.add (.var ⟨.int, 1⟩ "x") (.intImm 1)) .serial
      (.store "f" (.intImm 1)
        (.add (.mul (.var ⟨.int, 1⟩ "y") (.intImm 2)) (.var ⟨.int, 1⟩ "x")) (.boolImm true)))

/-- A vectorized loop over a shrinking triangle:
`for x in [0, 2) vectorized: for y in [0, 2 - x): f[y * 2 + x] = 1`. -/
def triangleStore : VStmt :=
  .forLoop "x" (.intImm 0) (.intImm 2) .vectorized
    (.forLoop "y" (.intImm 0) (.sub (.intImm 2) (.var ⟨.int, 1⟩ "x")) .serial
      (.store "f" (.intImm 1)
        (.add (.mul (.var ⟨.int, 1⟩ "y") (.intImm 2)) (.var ⟨.int, 1⟩ "x")) (.boolImm true)))

/-- The inner extent of `triangleStore` becomes the vector `2 - Ramp(0, 1, 2)`, of lanes 2
and 1. The `For` visitor loops up to `bounds_of_lanes(extent).max`, which the rule for a
`Broadcast` minus a vector makes `2 - (0 + 1 * 1) = 1`, not 2: the vectorized loop runs once
and never writes `f[2]`, the write of `x = 0, y = 1`. The two lanes write different
locations, so the result should leave every memory as the loop does; it does not. The
extent is not bounded (`VExpr.exactOver` rejects a `Sub` whose right operand alone reads
`x`): `vectorizeLoops_sound` needs the hypothesis of `VecReady` that asks it. -/
theorem vectorizeLoops_drops_write : ∃ s', vectorizeLoops triangleStore = .ok s' ∧
    VecSeparate (fun _ _ => .int 0) triangleStore ∧
      (s'.exec fun _ _ => .int 0).map (Mem.run fun _ _ => .int 0) ≠
        (triangleStore.exec fun _ _ => .int 0).map (Mem.run fun _ _ => .int 0) := by
  have hm : (VectorSubs.ofLoop "x" (.intImm 0) 2).mutate [] (.intImm 0) = some (.intImm 0) := rfl
  have he : (VectorSubs.ofLoop "x" (.intImm 0) 2).mutate [] (.sub (.intImm 2) (.var ⟨.int, 1⟩ "x"))
      = some (.sub (.broadcast (.intImm 2) 2) (.ramp (.intImm 0) (.intImm 1) 2)) := rfl
  apply Exists.intro
  refine ⟨?_, fun ws hws => ?_, fun h => ?_⟩
  · rw [triangleStore, vectorizeLoops, if_pos rfl]
    simp only [show ¬(2 : Int) ≤ 1 by decide, if_false, show Int.toNat 2 = 2 from rfl]
    rw [VectorSubs.mutateStmt_forLoop hm he, if_neg (by decide), if_pos (by decide),
      VectorSubs.mutateStmt, VectorSubs.mutateStmt, VectorSubs.mutateStmt]
    rfl
  · -- the iterations `x = 0` and `x = 1` write `f[0], f[2]` and `f[1]`
    have h0 : ws 0 = [⟨"f", 0, .int 1⟩, ⟨"f", 2, .int 1⟩] :=
      Option.some.inj ((hws 0 (by decide)).symm.trans (by decide))
    have h1 : ws 1 = [⟨"f", 1, .int 1⟩] :=
      Option.some.inj ((hws 1 (by decide)).symm.trans (by decide))
    intro i j (hi : i < 2) (hj : j < 2) hij
    obtain rfl | rfl : i = 0 ∨ i = 1 := by omega
    all_goals obtain rfl | rfl : j = 0 ∨ j = 1 := by omega
    all_goals first | exact absurd rfl hij | (rw [h0, h1]; decide)
  · exact absurd (congrArg (Option.map fun m : Mem => m "f" 2) h) (by decide)

/-- An assertion on the vectorized variable:
`for x in [0, 2) vectorized: assert(x < 1)`. -/
def assertLoop : VStmt :=
  .forLoop "x" (.intImm 0) (.intImm 2) .vectorized
    (.assertStmt (.cmp .lt (.var ⟨.int, 1⟩ "x") (.intImm 1)))

/-- The `AssertStmt` visitor returns an assertion whose condition has one lane as it is,
without visiting the condition: the vectorized statement still reads `x`, which no binder
defines once the loop is gone. The loop fails at `x = 1` from every environment; the
vectorized statement passes where the environment's `x` is `0`. `vectorizeLoops_sound`
needs the naming discipline of `VecReady`, under which no assertion reads the loop
variable. -/
theorem vectorizeLoops_keeps_assert : ∃ s', vectorizeLoops assertLoop = .ok s' ∧
    s'.usesVar "x" = true ∧ (∀ env, assertLoop.exec env = none) ∧
    s'.exec (fun _ _ => .int 0) = some [] := by
  apply Exists.intro
  refine ⟨?_, ?_, fun _ => rfl, ?_⟩
  · rw [assertLoop, vectorizeLoops, if_pos rfl]
    simp only [show ¬(2 : Int) ≤ 1 by decide, if_false, show Int.toNat 2 = 2 from rfl]
    rw [VectorSubs.mutateStmt, if_neg (by decide)]
  all_goals rfl

/-- A branch on a `likely` condition whose `Or` has a constant operand:
`for x in [0, 2) vectorized: if (likely(!(x < 1 || false))) f[x] = 1`. -/
def likelyStore : VStmt :=
  .forLoop "x" (.intImm 0) (.intImm 2) .vectorized
    (.ifThenElse
      (.likely (.not (.or (.cmp .lt (.var ⟨.int, 1⟩ "x") (.intImm 1)) (.boolImm false))))
      (.store "f" (.intImm 1) (.var ⟨.int, 1⟩ "x") (.boolImm true)) .undef)

/-- The condition of `likelyStore` becomes `!(x < 1 || Broadcast(false))`, `false` at
`x = 0` and `true` at `x = 1`. The `Or` rule of `bounds_of_lanes` combines the greatest
lanes with `&&`, so the greatest lane of `x < 1 || false` comes out `false` and the `Not`
gives `true` as the least lane of the condition: the `IfThenElse` visitor takes the
vectorized branch at both lanes and writes `f[0]`, which the loop does not. The condition
is not bounded (`VExpr.exactOver` rejects an `Or` of which one operand alone reads `x`):
`vectorizeLoops_sound` needs the hypothesis of `VecReady` that asks it. -/
theorem vectorizeLoops_likely_writes : ∃ s', vectorizeLoops likelyStore = .ok s' ∧
    (s'.exec fun _ _ => .int 0).map (fun ws => Mem.run (fun _ _ => .int 0) ws "f" 0) =
      some (.int 1) ∧
    (likelyStore.exec fun _ _ => .int 0).map (fun ws => Mem.run (fun _ _ => .int 0) ws "f" 0) =
      some (.int 0) := by
  apply Exists.intro
  refine ⟨?_, ?_, ?_⟩
  · rw [likelyStore, vectorizeLoops, if_pos rfl]
    simp only [show ¬(2 : Int) ≤ 1 by decide, if_false, show Int.toNat 2 = 2 from rfl]
    rw [VectorSubs.mutateStmt, VectorSubs.mutateStmt, VectorSubs.mutateStmt]
    rfl
  all_goals decide

/-! ### The user error -/

/-- The loops `VectorizeLoops` replaces, by name and extent: the loops marked `Vectorized`
that no other such loop encloses. -/
def VStmt.vectorizedLoops : VStmt → List (String × VExpr)
  | .forLoop name _ extent ft body =>
    if ft = .vectorized then [(name, extent)] else body.vectorizedLoops
  | .letStmt _ _ body => body.vectorizedLoops
  | .block a b | .ifThenElse _ a b => a.vectorizedLoops ++ b.vectorizedLoops
  | .assertStmt _ | .store _ _ _ _ | .undef => []

/-- The user error "Loop over `name` has extent `extent`" names a loop that `VectorizeLoops`
replaces, and that loop's extent is not a constant greater than one. -/
theorem vectorizeLoops_extentNotConstant {s : VStmt} {name : String} {extent : VExpr}
    (h : vectorizeLoops s = .error (.extentNotConstant name extent)) :
    (name, extent) ∈ s.vectorizedLoops ∧ ∀ e, extent = .intImm e → e ≤ 1 := by
  induction s with
  | forLoop y min ext ft body ih =>
    by_cases hv : ft = .vectorized
    · simp only [vectorizeLoops, hv, if_true] at h
      simp only [VStmt.vectorizedLoops, hv, if_true, List.mem_singleton]
      split at h
      · split_ifs at h with he
        · cases h; exact ⟨rfl, fun e h => by cases h; exact he⟩
        · split at h <;> cases h
      · cases h; exact ⟨rfl, fun e h => by simp_all⟩
    · simp only [vectorizeLoops, hv, if_false] at h
      simp only [VStmt.vectorizedLoops, hv, if_false]
      rcases bind_eq_error h with h | ⟨_, -, h⟩
      exacts [ih h, by cases h]
  | letStmt _ _ body ih =>
    rcases bind_eq_error h with h | ⟨_, -, h⟩
    exacts [ih h, by cases h]
  | block a b iha ihb | ifThenElse _ a b iha ihb =>
    simp only [VStmt.vectorizedLoops, List.mem_append]
    rcases bind_eq_error h with h | ⟨_, -, h⟩
    · exact (iha h).imp_left .inl
    · rcases bind_eq_error h with h | ⟨_, -, h⟩
      exacts [(ihb h).imp_left .inr, by cases h]
  | assertStmt _ | store _ _ _ _ | undef => cases h

/-! ### No loop stays vectorized -/

namespace VStmt

/-- No loop of the statement is marked `Vectorized`. -/
def vectorizedFree : VStmt → Bool
  | letStmt _ _ body => body.vectorizedFree
  | forLoop _ _ _ ft body => ft != .vectorized && body.vectorizedFree
  | block a b | ifThenElse _ a b => a.vectorizedFree && b.vectorizedFree
  | assertStmt _ | store _ _ _ _ | undef => true

/-- No loop marked `Vectorized` sits inside another. -/
def vectorizedUnnested : VStmt → Bool
  | forLoop _ _ _ ft body =>
    if ft = .vectorized then body.vectorizedFree else body.vectorizedUnnested
  | letStmt _ _ body => body.vectorizedUnnested
  | block a b | ifThenElse _ a b => a.vectorizedUnnested && b.vectorizedUnnested
  | assertStmt _ | store _ _ _ _ | undef => true

@[simp] theorem vectorizedFree_substitute (y : String) (r : VExpr) (s : VStmt) :
    (s.substitute y r).vectorizedFree = s.vectorizedFree := by
  induction s with
  | letStmt n _ _ ih | forLoop n _ _ _ _ ih =>
    by_cases h : n = y <;> simp [substitute, vectorizedFree, h, ih]
  | block _ _ iha ihb | ifThenElse _ _ _ iha ihb => simp [substitute, vectorizedFree, iha, ihb]
  | assertStmt _ | store _ _ _ _ | undef => rfl

@[simp] theorem vectorizedFree_replaceShuffleVectors (name : String) (s : VStmt) :
    (s.replaceShuffleVectors name).vectorizedFree = s.vectorizedFree := by
  induction s with
  | letStmt _ _ _ ih | forLoop _ _ _ _ _ ih => simp only [replaceShuffleVectors, vectorizedFree, ih]
  | block _ _ iha ihb | ifThenElse _ _ _ iha ihb =>
    simp only [replaceShuffleVectors, vectorizedFree, iha, ihb]
  | assertStmt _ | store _ _ _ _ | undef => rfl

end VStmt

namespace VectorSubs

@[simp] theorem vectorizedFree_wrapLets (lets : List (String × VExpr)) (s : VStmt) :
    (wrapLets lets s).vectorizedFree = s.vectorizedFree := by
  induction lets with
  | nil => rfl
  | cons l lets ih => simpa [wrapLets, VStmt.vectorizedFree] using ih

theorem vectorizedFree_foldl {f : VStmt → Nat → VStmt}
    (hf : ∀ b i, (f b i).vectorizedFree = b.vectorizedFree) (is : List Nat) (b : VStmt) :
    (is.foldl f b).vectorizedFree = b.vectorizedFree := by
  induction is generalizing b with
  | nil => rfl
  | cons i is ih => rw [List.foldl_cons, ih, hf]

@[simp] theorem vectorizedFree_laneLets (name : String) (value : VExpr) (body : VStmt) :
    (laneLets name value body).vectorizedFree = body.vectorizedFree := by
  unfold laneLets
  simp only [apply_ite VStmt.vectorizedFree, VStmt.vectorizedFree, ite_self]
  exact vectorizedFree_foldl (fun b i => by split_ifs <;> rfl) _ _

theorem vectorizedFree_scalarize {vs : VectorSubs} {containing : List (String × VExpr)}
    {s t : VStmt} (h : vs.scalarize containing s = some t) :
    t.vectorizedFree = s.vectorizedFree := by
  unfold scalarize at h
  split at h <;> cases h
  simp [VStmt.vectorizedFree]

/-- The loop type the `For` visitor gives is never `Vectorized`. -/
@[simp] theorem serial_ne_vectorized (ft : ForType) :
    ((if ft = .vectorized then .serial else ft) != ForType.vectorized) = true := by
  split <;> simp_all

/-- `VectorSubs` adds no loop marked `Vectorized`: the loops it builds are `Serial` or
`Unrolled`, and it keeps the type of the others. -/
theorem mutateStmt_vectorizedFree {vs : VectorSubs} {scope containing : List (String × VExpr)}
    {s s' : VStmt} (h : vs.mutateStmt scope containing s = some s') (hs : s.vectorizedFree = true) :
    s'.vectorizedFree = true := by
  induction scope, containing, s using mutateStmt.induct vs generalizing s' with
  | case1 scope containing n v body ih =>
    rw [mutateStmt] at h
    obtain ⟨v', -, h⟩ := Option.bind_eq_some.mp h
    obtain ⟨body', hb', h⟩ := Option.bind_eq_some.mp h
    have hb : body'.vectorizedFree = true := ih v' hb' hs
    rcases ite_eq_iff.mp h with ⟨-, h⟩ | ⟨-, h⟩ <;> cases h
    · exact hs
    · simp only [VStmt.vectorizedFree]
      split <;> simp only [vectorizedFree_laneLets, VStmt.vectorizedFree_replaceShuffleVectors, hb]
  | case2 scope containing name value index predicate =>
    rw [mutateStmt] at h
    obtain ⟨_, -, h⟩ := Option.bind_eq_some.mp h
    obtain ⟨_, -, h⟩ := Option.bind_eq_some.mp h
    obtain ⟨_, -, h⟩ := Option.bind_eq_some.mp h
    split at h
    · cases h; rfl
    · obtain ⟨_, -, h⟩ := Option.bind_eq_some.mp h
      obtain ⟨_, -, h⟩ := Option.bind_eq_some.mp h
      obtain ⟨_, -, h⟩ := Option.bind_eq_some.mp h
      cases h; rfl
  | case3 scope containing c hl =>
    rw [mutateStmt, if_pos hl] at h
    exact (vectorizedFree_scalarize h).trans hs
  | case4 scope containing c hl =>
    rw [mutateStmt, if_neg hl] at h
    cases h; rfl
  | case5 scope containing c a b iha ihb =>
    rw [mutateStmt] at h
    obtain ⟨c', -, h⟩ := Option.bind_eq_some.mp h
    obtain ⟨a', ha', h⟩ := Option.bind_eq_some.mp h
    obtain ⟨b', hb', h⟩ := Option.bind_eq_some.mp h
    simp only [VStmt.vectorizedFree, Bool.and_eq_true] at hs
    have hav := iha ha' hs.1
    have hbv := ihb hb' hs.2
    split_ifs at h
    · split at h
      · obtain ⟨t, ht, h⟩ := Option.bind_eq_some.mp h
        cases h
        simp only [VStmt.vectorizedFree, Bool.and_eq_true, vectorizedFree_scalarize ht]
        exact ⟨hav, hs⟩
      · exact (vectorizedFree_scalarize h).trans
          (by simp only [VStmt.vectorizedFree, hs, Bool.and_self])
    · cases h; simp only [VStmt.vectorizedFree, hs, Bool.and_self]
    · cases h; simp only [VStmt.vectorizedFree, hav, hbv, Bool.and_self]
  | case6 scope containing name min extent forType body hm =>
    rw [mutateStmt] at h
    split at h <;> simp_all
  | case7 scope containing name min extent forType body min' hm he =>
    rw [mutateStmt] at h
    split at h <;> simp_all
  | case8 scope containing name min extent forType body _ min' hm extent' he hv =>
    rename_i ih
    rw [mutateStmt_forLoop hm he, if_pos hv] at h
    simp only [VStmt.vectorizedFree, Bool.and_eq_true] at hs
    exact ih h (show (VStmt.forLoop _ _ _ (if forType = .vectorized then .serial else forType)
      _).vectorizedFree = true by simp [VStmt.vectorizedFree, hs.2])
  | case9 scope containing name min extent forType body min' hm extent' he hv hev _ =>
    rename_i ih
    rw [mutateStmt_forLoop hm he, if_neg hv, if_pos hev] at h
    obtain ⟨body', hb', h⟩ := Option.bind_eq_some.mp h
    cases h
    simp only [VStmt.vectorizedFree, Bool.and_eq_true] at hs ⊢
    exact ⟨serial_ne_vectorized _, ih hb' (by simp [VStmt.vectorizedFree, hs.2])⟩
  | case10 scope containing name min extent forType body min' hm extent' he hv hev ih =>
    rw [mutateStmt_forLoop hm he, if_neg hv, if_neg hev] at h
    obtain ⟨body', hb', h⟩ := Option.bind_eq_some.mp h
    rcases ite_eq_iff.mp h with ⟨-, h⟩ | ⟨-, h⟩ <;> cases h
    · exact hs
    · simp only [VStmt.vectorizedFree, Bool.and_eq_true] at hs ⊢
      exact ⟨serial_ne_vectorized _, ih hb' hs.2⟩
  | case11 scope containing a b iha ihb =>
    rw [mutateStmt] at h
    obtain ⟨a', ha', h⟩ := Option.bind_eq_some.mp h
    obtain ⟨b', hb', h⟩ := Option.bind_eq_some.mp h
    cases h
    simp only [VStmt.vectorizedFree, Bool.and_eq_true] at hs ⊢
    exact ⟨iha ha' hs.1, ihb hb' hs.2⟩
  | case12 scope containing =>
    rw [mutateStmt] at h
    cases h; rfl

end VectorSubs

/-- `VectorizeLoops` changes nothing in a statement with no loop marked `Vectorized`. -/
theorem vectorizeLoops_of_vectorizedFree {s : VStmt} (hs : s.vectorizedFree = true) :
    vectorizeLoops s = .ok s := by
  induction s with
  | forLoop name min extent ft body ih =>
    simp only [VStmt.vectorizedFree, Bool.and_eq_true, bne_iff_ne, ne_eq] at hs
    simp only [vectorizeLoops, hs.1, if_false, ih hs.2]
    rfl
  | letStmt n v body ih => simp only [vectorizeLoops, ih hs]; rfl
  | block a b iha ihb | ifThenElse _ a b iha ihb =>
    simp only [VStmt.vectorizedFree, Bool.and_eq_true] at hs
    simp only [vectorizeLoops, iha hs.1, ihb hs.2]
    rfl
  | assertStmt _ | store _ _ _ _ | undef => rfl

/-- `VectorizeLoops` leaves no loop marked `Vectorized` in a statement where no such loop
sits inside another, each being replaced by its body vectorized; so running it again
changes nothing. -/
theorem vectorizeLoops_vectorizedFree {s s' : VStmt} (hs : s.vectorizedUnnested = true)
    (h : vectorizeLoops s = .ok s') : s'.vectorizedFree = true ∧ vectorizeLoops s' = .ok s' := by
  suffices hf : s'.vectorizedFree = true from ⟨hf, vectorizeLoops_of_vectorizedFree hf⟩
  induction s generalizing s' with
  | forLoop name min extent ft body ih =>
    by_cases hv : ft = .vectorized
    · subst hv
      simp only [VStmt.vectorizedUnnested, if_true] at hs
      simp only [vectorizeLoops, if_true] at h
      split at h
      · split_ifs at h
        split at h
        · cases h; exact VectorSubs.mutateStmt_vectorizedFree ‹_› hs
        · cases h
      · cases h
    · simp only [VStmt.vectorizedUnnested, hv, if_false] at hs
      simp only [vectorizeLoops, hv, if_false] at h
      obtain ⟨b', hb', h⟩ := bind_eq_ok h
      cases h
      simp [VStmt.vectorizedFree, hv, ih hs hb']
  | letStmt n v body ih =>
    obtain ⟨b', hb', h⟩ := bind_eq_ok h
    cases h
    exact (ih hs hb' :)
  | block a b iha ihb | ifThenElse _ a b iha ihb =>
    simp only [VStmt.vectorizedUnnested, Bool.and_eq_true] at hs
    obtain ⟨a', ha', h⟩ := bind_eq_ok h
    obtain ⟨b', hb', h⟩ := bind_eq_ok h
    cases h
    simp [VStmt.vectorizedFree, iha hs.1 ha', ihb hs.2 hb']
  | assertStmt _ | store _ _ _ _ | undef => cases h; rfl

theorem vectorizeLoops_vectorizedFree_rowsStore :
    rowsStore.vectorizedUnnested = true ∧ ∃ s', vectorizeLoops rowsStore = .ok s' ∧
      s'.vectorizedFree = true ∧ vectorizeLoops s' = .ok s' := by
  obtain ⟨s', hs'⟩ : ∃ s', vectorizeLoops rowsStore = .ok s' := by
    apply Exists.intro
    rw [rowsStore, vectorizeLoops, if_neg (by decide), vectorizeLoops, if_pos rfl]
    simp only [show ¬(4 : Int) ≤ 1 by decide, if_false, show Int.toNat 4 = 4 from rfl]
    rw [VectorSubs.mutateStmt]
    rfl
  exact ⟨by decide, s', hs', vectorizeLoops_vectorizedFree (by decide) hs'⟩

/-- A vectorized loop inside a branch on the vectorized variable:
`for x in [0, 2) vectorized: if (x < 1) for z in [0, 2) vectorized: f[z] = 1`. -/
def nestedVectorized : VStmt :=
  .forLoop "x" (.intImm 0) (.intImm 2) .vectorized
    (.ifThenElse (.cmp .lt (.var ⟨.int, 1⟩ "x") (.intImm 1))
      (.forLoop "z" (.intImm 0) (.intImm 2) .vectorized
        (.store "f" (.intImm 1) (.var ⟨.int, 1⟩ "z") (.boolImm true))) .undef)

/-- The inner loop of `nestedVectorized` keeps its `Vectorized` mark. The condition
`x < 1` becomes a vector, so the `IfThenElse` visitor returns `scalarize(op)`: the branch
as it was before the visit, where the `For` visitor had made the inner loop `Serial`
("Ignoring the vectorize directive for the inner for loop"). -/
theorem vectorizeLoops_keeps_vectorized :
    ∃ s', vectorizeLoops nestedVectorized = .ok s' ∧ s'.vectorizedFree = false := by
  have hm : (VectorSubs.ofLoop "x" (.intImm 0) 2).mutate [] (.intImm 0) = some (.intImm 0) := rfl
  have he : (VectorSubs.ofLoop "x" (.intImm 0) 2).mutate [] (.intImm 2) = some (.intImm 2) := rfl
  apply Exists.intro
  refine ⟨?_, ?_⟩
  · rw [nestedVectorized, vectorizeLoops, if_pos rfl]
    simp only [show ¬(2 : Int) ≤ 1 by decide, if_false, show Int.toNat 2 = 2 from rfl]
    rw [VectorSubs.mutateStmt, VectorSubs.mutateStmt_forLoop hm he, if_neg (by decide),
      if_neg (by decide), VectorSubs.mutateStmt, VectorSubs.mutateStmt]
    rfl
  · rfl


end HalideSchedule.Vectorize
