import HalideSchedule.Vectorize.BoundsOfLanes

/-!
# HalideSchedule.Vectorize.VectorSubs

**`VectorSubs` on expressions.** `VectorizeLoops` vectorizes a loop over `x` of constant
extent `n > 1` by substituting `Ramp(min, 1, n)` for `x` in its body (`VectorSubs`). A
node whose operands changed is rebuilt on operands widened to the wider of the two, a
scalar operand becoming a `Broadcast`; a node whose operands did not change is kept as it
was (`same_as`). A `Let` whose value became a vector is renamed with the widening suffix,
and the uses of its name inside are renamed with it.

The main results are the correctness of the substitution on a scalar loop body: lane `i`
of the vectorized body is the scalar body evaluated with `x` bound to lane `i` of the
replacement (`vectorSubs_lanes`), that is, to `min + i` for the loop's own replacement
(`vectorizeLoop_lanes`). The renaming of widened `Let`s is correct under the naming
discipline of lowered code (`Hygienic`): names are unique, and a name with the widening
suffix is not already taken.

The proof relates the environment of the vectorized body to the environment of each
iteration (`Agree`), and what `mutate` returns to the scalar body (`LaneRel`): a scalar
with the body's value at every iteration, or a vector whose lane `i` is iteration `i`.
-/

namespace HalideSchedule.Vectorize

/-- The fields of `VectorSubs` that its expression visitors read: the loop variable being
vectorized, what replaces it, and the suffix of widened names. -/
structure VectorSubs where
  var : String
  replacement : VExpr
  wideningSuffix : String

/-- The `VectorSubs` that `VectorizeLoops` runs on the body of a vectorized loop over
`name` from `min` with constant extent `extent`: the loop variable becomes
`Ramp(min, 1, extent)`, and widened names take the suffix `.x<lanes>`. -/
def VectorSubs.ofLoop (name : String) (min : VExpr) (extent : Nat) : VectorSubs :=
  let replacement := .ramp min (.intImm 1) extent
  ⟨name, replacement, ".x" ++ toString replacement.type.lanes⟩

namespace VectorSubs

/-- `widen(e, lanes)`: a scalar becomes a `Broadcast`; a vector of fewer lanes is the
internal error "Mismatched vector lanes in VectorSubs" (`none`). -/
def widen (e : VExpr) (lanes : Nat) : Option VExpr :=
  if lanes ≤ e.type.lanes then some e
  else if e.type.lanes = 1 then some (.broadcast e lanes)
  else none

/-- `mutate_binary_operator`: the node as it was when neither operand changed, and
otherwise the node rebuilt on both operands widened to the wider of the two. A pointer
that `same_as` compares is modelled by the expression it points to. -/
def binary (mk : VExpr → VExpr → VExpr) (a b a' b' : VExpr) : Option VExpr :=
  if a' = a ∧ b' = b then some (mk a b)
  else do
    let w := Max.max a'.type.lanes b'.type.lanes
    return mk (← widen a' w) (← widen b' w)

/-- The expression visitors of `VectorSubs`, with `scope` the `Let`s whose value was
widened (innermost first). `Not`, `Ramp`, `Broadcast` and `extract_lane` take
`IRMutator`'s default: the node rebuilt on its mutated children, where `Ramp::make` and
`Broadcast::make` assert scalar children (`none`). The comparisons take
`mutate_binary_operator`, and `likely` the `Call` visitor, which rebuilds a call whose one
argument changed on the new argument. -/
def mutate (vs : VectorSubs) (scope : List (String × VExpr)) : VExpr → Option VExpr
  | .var t n =>
    if n = vs.var then some vs.replacement
    else match scope.lookup n with
      | some v => some (.var v.type (n ++ vs.wideningSuffix))
      | none => some (.var t n)
  | .intImm v => some (.intImm v)
  | .boolImm v => some (.boolImm v)
  | .add a b => do binary .add a b (← vs.mutate scope a) (← vs.mutate scope b)
  | .sub a b => do binary .sub a b (← vs.mutate scope a) (← vs.mutate scope b)
  | .mul a b => do binary .mul a b (← vs.mutate scope a) (← vs.mutate scope b)
  | .div a b => do binary .div a b (← vs.mutate scope a) (← vs.mutate scope b)
  | .min a b => do binary .min a b (← vs.mutate scope a) (← vs.mutate scope b)
  | .max a b => do binary .max a b (← vs.mutate scope a) (← vs.mutate scope b)
  | .and a b => do binary .and a b (← vs.mutate scope a) (← vs.mutate scope b)
  | .or a b => do binary .or a b (← vs.mutate scope a) (← vs.mutate scope b)
  | .cmp op a b => do binary (.cmp op) a b (← vs.mutate scope a) (← vs.mutate scope b)
  | .not a => do
    let a' ← vs.mutate scope a
    return if a' = a then .not a else .not a'
  | .likely a => do
    let a' ← vs.mutate scope a
    return if a' = a then .likely a else .likely a'
  | .ramp base stride n => do
    let base' ← vs.mutate scope base
    let stride' ← vs.mutate scope stride
    if base' = base ∧ stride' = stride then return .ramp base stride n
    else if base'.type.lanes = 1 ∧ base'.type = stride'.type then return .ramp base' stride' n
    else none
  | .broadcast v n => do
    let v' ← vs.mutate scope v
    if v' = v then return .broadcast v n
    else if v'.type.lanes = 1 then return .broadcast v' n
    else none
  | .letIn n v body => do
    let v' ← vs.mutate scope v
    let widened := decide (v.type.lanes = 1 ∧ v'.type.lanes ≠ 1)
    let body' ← vs.mutate (if widened then (n, v') :: scope else scope) body
    if v' = v ∧ body' = body then return .letIn n v body
    else if widened then return .letIn (n ++ vs.wideningSuffix) v' body'
    else return .letIn n v' body'
  | .extractLane e i => do
    let e' ← vs.mutate scope e
    return if e' = e then .extractLane e i else .extractLane e' i

end VectorSubs

/-! ### Correctness on a scalar loop body -/

namespace VExpr

/-- A scalar loop body: scalar variables and `Let` values, and no `Ramp`, `Broadcast` or
`extract_lane`. -/
def scalarBody : VExpr → Bool
  | intImm _ | boolImm _ => true
  | var t _ => t.lanes == 1
  | add a b | sub a b | mul a b | div a b | min a b | max a b | and a b | or a b
  | cmp _ a b => a.scalarBody && b.scalarBody
  | not a | likely a => a.scalarBody
  | letIn _ v body => v.scalarBody && body.scalarBody
  | ramp _ _ _ | broadcast _ _ | extractLane _ _ => false

theorem scalarBody_lanes {e : VExpr} (h : e.scalarBody = true) : e.type.lanes = 1 := by
  induction e with
  | intImm _ | boolImm _ => rfl
  | var t _ => simpa [scalarBody, type] using h
  | add a _ iha _ | sub a _ iha _ | mul a _ iha _ | div a _ iha _ | min a _ iha _
  | max a _ iha _ | and a _ iha _ | or a _ iha _ | cmp _ a _ iha _ =>
    simp only [scalarBody, Bool.and_eq_true] at h
    simpa [type] using iha h.1
  | not a iha | likely a iha => simpa [scalarBody, type] using iha h
  | letIn _ _ _ _ ihb =>
    simp only [scalarBody, Bool.and_eq_true] at h
    simpa [type] using ihb h.2
  | ramp _ _ _ _ _ | broadcast _ _ _ | extractLane _ _ _ => cases h

/-- The names the `Let`s of `e` bind. -/
def letNames : VExpr → List String
  | intImm _ | boolImm _ | var _ _ => []
  | add a b | sub a b | mul a b | div a b | min a b | max a b | and a b | or a b
  | cmp _ a b | ramp a b _ => a.letNames ++ b.letNames
  | not a | likely a | broadcast a _ | extractLane a _ => a.letNames
  | letIn n v body => n :: (v.letNames ++ body.letNames)

/-- The names the variables of `e` read, free or bound. -/
def varNames : VExpr → List String
  | intImm _ | boolImm _ => []
  | var _ n => [n]
  | add a b | sub a b | mul a b | div a b | min a b | max a b | and a b | or a b
  | cmp _ a b | ramp a b _ => a.varNames ++ b.varNames
  | not a | likely a | broadcast a _ | extractLane a _ => a.varNames
  | letIn _ v body => v.varNames ++ body.varNames

end VExpr

theorem Env.bind_bind_self (env : Env) (x : String) (v w : Nat → Val) :
    (env.bind x v).bind x w = env.bind x w := by
  funext m
  by_cases h : m = x <;> simp [Env.bind, h]

theorem Env.bind_comm (env : Env) {x y : String} (h : x ≠ y) (v w : Nat → Val) :
    (env.bind x v).bind y w = (env.bind y w).bind x v := by
  funext m
  by_cases hx : m = x
  · subst hx; simp [Env.bind, h]
  · by_cases hy : m = y
    · subst hy; simp [Env.bind, hx]
    · simp [Env.bind, hx, hy]

/-- `eval` does not read a variable the expression does not use. -/
theorem VExpr.eval_bind_of_usesVar {x : String} (w : Nat → Val) {e : VExpr} :
    ∀ {env : Env}, e.usesVar x = false → ∀ i, e.eval (env.bind x w) i = e.eval env i := by
  induction e with
  | intImm _ | boolImm _ => intros; rfl
  | var _ n =>
    intro env h i
    have : n ≠ x := by simpa [usesVar] using h
    simp [eval, Env.bind, this]
  | add a b iha ihb | sub a b iha ihb | mul a b iha ihb | div a b iha ihb
  | min a b iha ihb | max a b iha ihb | and a b iha ihb | or a b iha ihb
  | cmp _ a b iha ihb =>
    intro env h i
    simp only [usesVar, Bool.or_eq_false_iff] at h
    simp only [eval, iha h.1, ihb h.2]
  | ramp base stride _ ihb ihs =>
    intro env h i
    simp only [usesVar, Bool.or_eq_false_iff] at h
    simp only [eval, ihb h.1, ihs h.2]
  | not a ih | likely a ih | broadcast a _ ih | extractLane a _ ih =>
    intro env h i
    simp only [usesVar] at h
    simp only [eval, ih h]
  | letIn n v body ihv ihb =>
    intro env h i
    simp only [usesVar, Bool.or_eq_false_iff, Bool.and_eq_false_iff, bne_eq_false_iff_eq] at h
    have hv : v.eval (env.bind x w) = v.eval env := funext (ihv h.1)
    simp only [eval, hv]
    rcases h.2 with rfl | hb
    · rw [Env.bind_bind_self]
    · by_cases hn : n = x
      · subst hn; rw [Env.bind_bind_self]
      · rw [Env.bind_comm env (Ne.symm hn)]
        exact ihb hb i

/-- A name with a suffix determines the name. -/
theorem String.append_suffix_inj {a b s : String} : a ++ s = b ++ s ↔ a = b :=
  ⟨fun h => String.ext (List.append_cancel_right (congrArg String.data h)), fun h => h ▸ rfl⟩

theorem List.mem_keys_of_lookup {l : List (String × VExpr)} {m : String} {w : VExpr}
    (h : l.lookup m = some w) : m ∈ l.map Prod.fst := by
  have hs : (l.lookup m).isSome := by rw [h]; rfl
  obtain ⟨p, hp, hm⟩ := List.lookup_isSome_iff.1 hs
  exact List.mem_map.2 ⟨p, hp, (beq_iff_eq.1 hm).symm⟩

namespace VectorSubs

/-- The environment of iteration `i` of the loop: the loop variable bound to lane `i` of
the replacement. -/
def atLane (vs : VectorSubs) (env : Env) (i : Nat) : Env :=
  env.bind vs.var fun _ => vs.replacement.eval env i

/-- The naming discipline `VectorSubs` relies on, which the unique names of lowered code
give, for a body under the widened `Let`s `scope`: no `Let` of the body binds the loop
variable, a name another `Let` binds or a name in `scope`; no name of the body is a `Let`
name with the widening suffix; and the replacement reads neither form of a `Let` name. -/
structure Hygienic (vs : VectorSubs) (scope : List (String × VExpr)) (e : VExpr) : Prop where
  nodup : e.letNames.Nodup
  loopVar : vs.var ∉ e.letNames
  widened : ∀ n ∈ e.letNames, n ++ vs.wideningSuffix ∉ e.varNames ++ e.letNames
  replacement : ∀ n ∈ e.letNames,
    vs.replacement.usesVar n = false ∧ vs.replacement.usesVar (n ++ vs.wideningSuffix) = false
  scope : ∀ k ∈ scope.map Prod.fst,
    k ∉ e.letNames ∧ k ++ vs.wideningSuffix ∉ e.varNames ++ e.letNames

namespace Hygienic

variable {vs : VectorSubs} {scope : List (String × VExpr)}

/-- The discipline holds of a part of the body: its `Let` names are a sublist of the
body's, and the names it reads are among the body's. -/
theorem sub {e s : VExpr} (h : vs.Hygienic scope e) (hl : s.letNames.Sublist e.letNames)
    (hv : s.varNames ⊆ e.varNames) : vs.Hygienic scope s := by
  have hn : ∀ x, x ∈ s.varNames ++ s.letNames → x ∈ e.varNames ++ e.letNames := by
    simp only [List.mem_append]
    exact fun x => Or.imp (fun h => hv h) (fun h => hl.subset h)
  exact ⟨h.nodup.sublist hl, fun hm => h.loopVar (hl.subset hm),
    fun n hm hw => h.widened n (hl.subset hm) (hn _ hw),
    fun n hm => h.replacement n (hl.subset hm),
    fun k hk => ⟨fun hm => (h.scope k hk).1 (hl.subset hm),
      fun hw => (h.scope k hk).2 (hn _ hw)⟩⟩

/-- The operands of a binary node. -/
theorem operands {e a b : VExpr} (h : vs.Hygienic scope e)
    (hl : e.letNames = a.letNames ++ b.letNames) (hv : e.varNames = a.varNames ++ b.varNames) :
    vs.Hygienic scope a ∧ vs.Hygienic scope b :=
  ⟨h.sub (by rw [hl]; exact List.sublist_append_left _ _)
      (by rw [hv]; exact List.subset_append_left _ _),
    h.sub (by rw [hl]; exact List.sublist_append_right _ _)
      (by rw [hv]; exact List.subset_append_right _ _)⟩

section LetIn

variable {n : String} {v b : VExpr} (h : vs.Hygienic scope (.letIn n v b))
include h

theorem value : vs.Hygienic scope v :=
  h.sub ((List.sublist_append_left _ _).cons n) (List.subset_append_left _ _)

theorem body : vs.Hygienic scope b :=
  h.sub ((List.sublist_append_right _ _).cons n) (List.subset_append_right _ _)

/-- Under a widened `Let`, the body keeps the discipline with the `Let` in scope. -/
theorem body_widened (v' : VExpr) : vs.Hygienic ((n, v') :: scope) b := by
  refine { h.body with scope := ?_ }
  simp only [List.map_cons, List.mem_cons, forall_eq_or_imp]
  refine ⟨⟨fun hm => (List.nodup_cons.1 h.nodup).1 (List.mem_append_right _ hm),
    fun hw => ?_⟩, h.body.scope⟩
  apply h.widened n (List.mem_cons_self _ _)
  simp only [VExpr.varNames, VExpr.letNames, List.mem_append, List.mem_cons] at hw ⊢
  tauto

theorem letIn_ne : n ≠ vs.var := fun hx => h.loopVar (hx ▸ List.mem_cons_self _ _)

/-- The `Let` rebinds no name in scope, nor a widened one. -/
theorem scope_ne : ∀ k ∈ scope.map Prod.fst, k ≠ n ∧ k ++ vs.wideningSuffix ≠ n :=
  fun k hk => ⟨fun hkn => (h.scope k hk).1 (hkn ▸ List.mem_cons_self _ _),
    fun hkn => (h.scope k hk).2 (hkn ▸ List.mem_append_right _ (List.mem_cons_self _ _))⟩

end LetIn

end Hygienic

/-- How the environment `σ` of the vectorized body stands to the environment `ρ` of
iteration `i` of the scalar body, under the widened `Let`s `scope`: the loop variable is
lane `i` of the replacement, a widened `Let` is lane `i` of its widened name, and every
other name has one scalar value in both. -/
structure Agree (vs : VectorSubs) (scope : List (String × VExpr)) (σ ρ : Env) (i : Nat) :
    Prop where
  loopVar : ρ vs.var 0 = vs.replacement.eval σ i
  widened : ∀ m v', scope.lookup m = some v' →
    v'.type.lanes = vs.replacement.type.lanes ∧ ρ m 0 = σ (m ++ vs.wideningSuffix) i
  other : ∀ m, m ≠ vs.var → scope.lookup m = none →
    (∀ k ∈ scope.map Prod.fst, m ≠ k ++ vs.wideningSuffix) → ρ m 0 = σ m 0

namespace Agree

variable {vs : VectorSubs} {scope : List (String × VExpr)} {σ ρ : Env} {i : Nat}

/-- At the loop, with no `Let` in scope. -/
theorem atLane (env : Env) (i : Nat) : vs.Agree [] env (vs.atLane env i) i :=
  ⟨by simp [VectorSubs.atLane, Env.bind], by simp,
    fun m hm _ _ => by simp [VectorSubs.atLane, Env.bind, hm]⟩

/-- Under a `Let` of `n` whose value stayed scalar: both sides bind `n`. -/
theorem bind_scalar {n : String} {v v' : VExpr} (h : vs.Agree scope σ ρ i) (hx : n ≠ vs.var)
    (hR : vs.replacement.usesVar n = false)
    (hs : ∀ k ∈ scope.map Prod.fst, k ≠ n ∧ k ++ vs.wideningSuffix ≠ n)
    (hv : v'.eval σ 0 = v.eval ρ 0) :
    vs.Agree scope (σ.bind n (v'.eval σ)) (ρ.bind n (v.eval ρ)) i where
  loopVar := by
    rw [VExpr.eval_bind_of_usesVar _ hR, ← h.loopVar]
    simp [Env.bind, Ne.symm hx]
  widened m w hm := by
    obtain ⟨hmn, hsn⟩ := hs m (List.mem_keys_of_lookup hm)
    simpa [Env.bind, hmn, hsn] using h.widened m w hm
  other m hm hl hk := by
    by_cases hmn : m = n
    · subst hmn
      simpa [Env.bind] using hv.symm
    · simpa [Env.bind, hmn] using h.other m hm hl hk

/-- Under a `Let` of `n` whose value was widened to `v'`: the vectorized side binds the
widened name, and `n` joins the scope. -/
theorem bind_widened {n : String} {v v' : VExpr} (h : vs.Agree scope σ ρ i) (hx : n ≠ vs.var)
    (hR : vs.replacement.usesVar (n ++ vs.wideningSuffix) = false)
    (hl : v'.type.lanes = vs.replacement.type.lanes) (hv : v'.eval σ i = v.eval ρ 0) :
    vs.Agree ((n, v') :: scope) (σ.bind (n ++ vs.wideningSuffix) (v'.eval σ))
      (ρ.bind n (v.eval ρ)) i where
  loopVar := by
    rw [VExpr.eval_bind_of_usesVar _ hR, ← h.loopVar]
    simp [Env.bind, Ne.symm hx]
  widened m w hm := by
    by_cases hmn : m = n
    · subst hmn
      simp only [List.lookup_cons_self, Option.some.injEq] at hm
      subst hm
      simp [Env.bind, hl, hv]
    · have hm' : scope.lookup m = some w := by simpa [List.lookup_cons, beq_false_of_ne hmn] using hm
      simpa [Env.bind, hmn, String.append_suffix_inj] using h.widened m w hm'
  other m hm hl' hk := by
    have hmn : m ≠ n := fun hmn => by simp [hmn] at hl'
    have hl'' : scope.lookup m = none := by simpa [List.lookup_cons, beq_false_of_ne hmn] using hl'
    have := h.other m hm hl'' fun k hk' => hk k (by simp [hk'])
    simpa [Env.bind, hmn, hk n (by simp)] using this

end Agree

/-- What `mutate` makes of a scalar body `e`, where `ρ i` is the environment of iteration
`i`: a scalar with `e`'s value at every iteration, or a vector of the replacement's lanes
whose lane `i` is `e` at iteration `i`. -/
def LaneRel (vs : VectorSubs) (σ : Env) (ρ : Nat → Env) (e v : VExpr) : Prop :=
  (v.type.lanes = 1 ∧ ∀ i < vs.replacement.type.lanes, v.eval σ 0 = e.eval (ρ i) 0) ∨
    (v.type.lanes = vs.replacement.type.lanes ∧
      ∀ i < vs.replacement.type.lanes, v.eval σ i = e.eval (ρ i) 0)

namespace LaneRel

variable {vs : VectorSubs} {σ : Env} {ρ : Nat → Env} {e v : VExpr}
  (h : vs.LaneRel σ ρ e v) (hn : 1 < vs.replacement.type.lanes)
include h

theorem lanes : v.type.lanes = 1 ∨ v.type.lanes = vs.replacement.type.lanes :=
  h.imp And.left And.left

theorem vector (hv : v.type.lanes ≠ 1) :
    ∀ i < vs.replacement.type.lanes, v.eval σ i = e.eval (ρ i) 0 := by
  rcases h with ⟨hl, -⟩ | ⟨-, h⟩
  · exact absurd hl hv
  · exact h

include hn

theorem scalar (hv : v.type.lanes = 1) :
    ∀ i < vs.replacement.type.lanes, v.eval σ 0 = e.eval (ρ i) 0 := by
  rcases h with ⟨-, h⟩ | ⟨hl, -⟩
  · exact h
  · omega

/-- Widened to the replacement's lanes, lane `i` is `e` at iteration `i`. -/
theorem widened :
    ∃ w, widen v vs.replacement.type.lanes = some w ∧ w.type.lanes = vs.replacement.type.lanes ∧
      ∀ i < vs.replacement.type.lanes, w.eval σ i = e.eval (ρ i) 0 := by
  rcases h with ⟨hl, hv⟩ | ⟨hl, hv⟩
  · exact ⟨.broadcast v _, by simp [widen, hl, Nat.not_le.2 hn], rfl, hv⟩
  · exact ⟨v, by simp [widen, hl], hl, hv⟩

end LaneRel

/-- A `Let` of `x` to `v'` in the vectorized body stands to a `Let` of `n` to `v` at every
iteration as the bodies do under the two bindings. -/
theorem LaneRel.letIn {vs : VectorSubs} {σ : Env} {ρ : Nat → Env} {x n : String}
    {v v' body body' : VExpr}
    (h : vs.LaneRel (σ.bind x (v'.eval σ)) (fun i => (ρ i).bind n (v.eval (ρ i))) body body') :
    vs.LaneRel σ ρ (.letIn n v body) (.letIn x v' body') := h

section Correct

variable {vs : VectorSubs} {env σ : Env} {ρ : Nat → Env}

/-- `mutate_binary_operator` on what became of the operands: two scalars give the node on
them, and otherwise both are widened to the replacement's lanes. -/
theorem binary_laneRel {mk : VExpr → VExpr → VExpr} {F : Val → Val → Val} {a b a' b' : VExpr}
    (hn : 1 < vs.replacement.type.lanes) (ha1 : a.type.lanes = 1) (hb1 : b.type.lanes = 1)
    (ha : vs.LaneRel σ ρ a a') (hb : vs.LaneRel σ ρ b b')
    (heval : ∀ x y env i, (mk x y).eval env i = F (x.eval env i) (y.eval env i))
    (hlanes : ∀ x y, (mk x y).type.lanes = x.type.lanes) :
    ∃ v, binary mk a b a' b' = some v ∧ vs.LaneRel σ ρ (mk a b) v := by
  by_cases hs : a'.type.lanes = 1 ∧ b'.type.lanes = 1
  · have hva := ha.scalar hn hs.1
    have hvb := hb.scalar hn hs.2
    refine ⟨mk a' b', ?_, .inl ⟨by rw [hlanes, hs.1], fun i hi => ?_⟩⟩
    · unfold binary
      split_ifs with hc
      · rw [hc.1, hc.2]
      · simp [widen, hs.1, hs.2]
    · rw [heval, heval, hva i hi, hvb i hi]
  · have hc : ¬(a' = a ∧ b' = b) := fun hc => hs ⟨hc.1 ▸ ha1, hc.2 ▸ hb1⟩
    have hw : Max.max a'.type.lanes b'.type.lanes = vs.replacement.type.lanes := by
      rcases ha.lanes with h1 | h1 <;> rcases hb.lanes with h2 | h2 <;> omega
    obtain ⟨wa, hwa, hla, hva⟩ := ha.widened hn
    obtain ⟨wb, hwb, -, hvb⟩ := hb.widened hn
    refine ⟨mk wa wb, by simp [binary, hc, hw, hwa, hwb], .inr ⟨by rw [hlanes, hla], fun i hi => ?_⟩⟩
    rw [heval, heval, hva i hi, hvb i hi]

/-- A binary node of a scalar body, from what became of its operands. -/
theorem mutate_binary {mk : VExpr → VExpr → VExpr} {F : Val → Val → Val} {a b : VExpr}
    {scope : List (String × VExpr)} (hn : 1 < vs.replacement.type.lanes)
    (ha : ∃ a', vs.mutate scope a = some a' ∧ vs.LaneRel σ ρ a a')
    (hb : ∃ b', vs.mutate scope b = some b' ∧ vs.LaneRel σ ρ b b')
    (ha1 : a.type.lanes = 1) (hb1 : b.type.lanes = 1)
    (hm : ∀ a' b', vs.mutate scope a = some a' → vs.mutate scope b = some b' →
      vs.mutate scope (mk a b) = binary mk a b a' b')
    (heval : ∀ x y env i, (mk x y).eval env i = F (x.eval env i) (y.eval env i))
    (hlanes : ∀ x y, (mk x y).type.lanes = x.type.lanes) :
    ∃ v, vs.mutate scope (mk a b) = some v ∧ vs.LaneRel σ ρ (mk a b) v := by
  obtain ⟨a', ha, hra⟩ := ha
  obtain ⟨b', hb, hrb⟩ := hb
  rw [hm a' b' ha hb]
  exact binary_laneRel hn ha1 hb1 hra hrb heval hlanes

/-- `mutate` vectorizes every scalar body that keeps the naming discipline, from any
environments that agree at every iteration. -/
theorem mutate_laneRel (hn : 1 < vs.replacement.type.lanes) {e : VExpr} :
    ∀ {scope : List (String × VExpr)} {σ : Env} {ρ : Nat → Env}, e.scalarBody = true →
      vs.Hygienic scope e → (∀ i < vs.replacement.type.lanes, vs.Agree scope σ (ρ i) i) →
      ∃ v, vs.mutate scope e = some v ∧ vs.LaneRel σ ρ e v := by
  induction e with
  | intImm _ | boolImm _ => exact fun _ _ _ => ⟨_, rfl, .inl ⟨rfl, fun _ _ => rfl⟩⟩
  | var t m =>
    intro scope σ ρ he hh hag
    by_cases hx : m = vs.var
    · subst hx
      exact ⟨vs.replacement, by simp [mutate], .inr ⟨rfl, fun i hi => (hag i hi).loopVar.symm⟩⟩
    cases hl : scope.lookup m with
    | some v' =>
      exact ⟨.var v'.type (m ++ vs.wideningSuffix), by simp [mutate, hx, hl],
        .inr ⟨((hag 0 (by omega)).widened m v' hl).1,
        fun i hi => ((hag i hi).widened m v' hl).2.symm⟩⟩
    | none =>
      have hk : ∀ k ∈ scope.map Prod.fst, m ≠ k ++ vs.wideningSuffix := fun k hk h =>
        (hh.scope k hk).2 (by simp [VExpr.varNames, h])
      exact ⟨.var t m, by simp [mutate, hx, hl], .inl ⟨by simpa [VExpr.scalarBody] using he,
        fun i hi => ((hag i hi).other m hx hl hk).symm⟩⟩
  | add a b iha ihb | sub a b iha ihb | mul a b iha ihb | div a b iha ihb
  | min a b iha ihb | max a b iha ihb | and a b iha ihb | or a b iha ihb =>
    intro scope σ ρ he hh hag
    simp only [VExpr.scalarBody, Bool.and_eq_true] at he
    obtain ⟨hha, hhb⟩ := hh.operands rfl rfl
    apply mutate_binary hn (iha he.1 hha hag) (ihb he.2 hhb hag) (VExpr.scalarBody_lanes he.1)
      (VExpr.scalarBody_lanes he.2)
    · intro _ _ h1 h2
      simp [mutate, h1, h2]
    all_goals intros; rfl
  | cmp op a b iha ihb =>
    intro scope σ ρ he hh hag
    simp only [VExpr.scalarBody, Bool.and_eq_true] at he
    obtain ⟨hha, hhb⟩ := hh.operands rfl rfl
    apply mutate_binary (F := fun x y => .bool (op.test x.toInt y.toInt)) hn (iha he.1 hha hag)
      (ihb he.2 hhb hag) (VExpr.scalarBody_lanes he.1) (VExpr.scalarBody_lanes he.2)
    · intro _ _ h1 h2
      simp [mutate, h1, h2]
    all_goals intros; rfl
  | not a iha =>
    intro scope σ ρ he hh hag
    obtain ⟨a', ha, hra⟩ := iha he (hh.sub (List.Sublist.refl _) (List.Subset.refl _)) hag
    refine ⟨.not a', ?_, hra.imp (fun h => ⟨h.1, fun i hi => by simp [VExpr.eval, h.2 i hi]⟩)
      (fun h => ⟨h.1, fun i hi => by simp [VExpr.eval, h.2 i hi]⟩)⟩
    by_cases hc : a' = a
    · subst hc
      simp [mutate, ha]
    · simp [mutate, ha, hc]
  | likely a iha =>
    intro scope σ ρ he hh hag
    obtain ⟨a', ha, hra⟩ := iha he (hh.sub (List.Sublist.refl _) (List.Subset.refl _)) hag
    refine ⟨.likely a', ?_, hra⟩
    by_cases hc : a' = a
    · subst hc
      simp [mutate, ha]
    · simp [mutate, ha, hc]
  | letIn n v body ihv ihb =>
    intro scope σ ρ he hh hag
    simp only [VExpr.scalarBody, Bool.and_eq_true] at he
    obtain ⟨v', hv', hrv⟩ := ihv he.1 hh.value hag
    have hR := hh.replacement n (List.mem_cons_self _ _)
    by_cases hw : v'.type.lanes = 1
    · -- a value that stayed scalar: the `Let` keeps its name
      obtain ⟨body', hb', hrb⟩ := ihb he.2 hh.body fun i hi =>
        (hag i hi).bind_scalar hh.letIn_ne hR.1 hh.scope_ne (hrv.scalar hn hw i hi)
      refine ⟨.letIn n v' body', ?_, hrb.letIn⟩
      simp [mutate, hv', hw, hb']
      exact fun h1 h2 => ⟨h1.symm, h2.symm⟩
    · -- a widened value: the `Let` and the uses of its name are renamed
      have hl := hrv.lanes.resolve_left hw
      obtain ⟨body', hb', hrb⟩ := ihb he.2 (hh.body_widened v') fun i hi =>
        (hag i hi).bind_widened hh.letIn_ne hR.2 hl (hrv.vector hw i hi)
      refine ⟨.letIn (n ++ vs.wideningSuffix) v' body', ?_, hrb.letIn⟩
      have hne : v' ≠ v := fun h => hw (h ▸ VExpr.scalarBody_lanes he.1)
      simp [mutate, hv', hw, hb', hne, VExpr.scalarBody_lanes he.1]
  | ramp _ _ _ _ _ | broadcast _ _ _ | extractLane _ _ _ => intros; contradiction

/-- `VectorSubs` is correct on a scalar loop body that keeps the naming discipline: it
succeeds, and lane `i` of its result, widened to the replacement's lanes, is the body
evaluated with the loop variable bound to lane `i` of the replacement. -/
theorem vectorSubs_lanes (hn : 1 < vs.replacement.type.lanes) {e : VExpr}
    (he : e.scalarBody = true) (hh : vs.Hygienic [] e) :
    ∃ v w, vs.mutate [] e = some v ∧ widen v vs.replacement.type.lanes = some w ∧
      ∀ i < vs.replacement.type.lanes,
        w.eval env i = e.eval (env.bind vs.var fun _ => vs.replacement.eval env i) 0 := by
  obtain ⟨v, hv, hvv⟩ := mutate_laneRel hn he hh fun i _ => Agree.atLane env i
  obtain ⟨w, hw, -, hwv⟩ := hvv.widened hn
  exact ⟨v, w, hv, hw, hwv⟩

/-- Vectorizing a loop over `name` from a scalar `min` with constant extent `n > 1` (the
only extent `VectorizeLoops` accepts): the vectorized body, widened to `n` lanes, has at
lane `i` the value of the body at `name = min + i`. -/
theorem vectorizeLoop_lanes {name : String} {min e : VExpr} {n : Nat} {m : Int} (hn : 1 < n)
    (hmin : min.eval env 0 = .int m) (he : e.scalarBody = true)
    (hh : (ofLoop name min n).Hygienic [] e) :
    ∃ v w, (ofLoop name min n).mutate [] e = some v ∧ widen v n = some w ∧
      ∀ i < n, w.eval env i = e.eval (env.bind name fun _ => .int (m + i)) 0 := by
  obtain ⟨v, w, hv, hw, hl⟩ := @vectorSubs_lanes (ofLoop name min n) env hn _ he hh
  refine ⟨v, w, hv, hw, fun i hi => ?_⟩
  rw [hl i hi]
  simp [ofLoop, VExpr.eval, hmin, Val.intOp]

end Correct

/-- The loop `for x in [m, m + 4)` of `let t = x * 2 in t + y` vectorized: the `Let` is
widened and renamed `t.x4`, and lane `i` is `(m + i) * 2 + y`. -/
theorem vectorizeLoop_lanes_let :
    let e := VExpr.letIn "t" (.mul (.var ⟨.int, 1⟩ "x") (.intImm 2))
      (.add (.var ⟨.int, 1⟩ "t") (.var ⟨.int, 1⟩ "y"))
    let env : Env := fun n _ => if n = "m" then .int 10 else .int 5
    (ofLoop "x" (.var ⟨.int, 1⟩ "m") 4).Hygienic [] e ∧
    ∃ v w, (ofLoop "x" (.var ⟨.int, 1⟩ "m") 4).mutate [] e = some v ∧ widen v 4 = some w ∧
      ∀ i < 4, w.eval env i = e.eval (env.bind "x" fun _ => .int (10 + i)) 0 :=
  have hh : (ofLoop "x" (.var ⟨.int, 1⟩ "m") 4).Hygienic []
      (.letIn "t" (.mul (.var ⟨.int, 1⟩ "x") (.intImm 2))
        (.add (.var ⟨.int, 1⟩ "t") (.var ⟨.int, 1⟩ "y"))) :=
    ⟨by decide, by decide, by decide, by decide, by decide⟩
  ⟨hh, vectorizeLoop_lanes (by decide) rfl rfl hh⟩

end VectorSubs

end HalideSchedule.Vectorize
