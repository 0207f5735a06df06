import HalideSchedule.Vectorize.BoundsOfLanes
import Mathlib.Order.MinMax

/-!
# HalideSchedule.Vectorize.Exactness

**Where `bounds_of_lanes` is exact.** Outside its `Let` rule, its `Or` rule and its rule
for a `Broadcast` minus a vector, every rule of `bounds_of_lanes` computes the least and
greatest lane exactly, for well-typed expressions and an environment that gives each
variable lanes of its type (`Env.Typed`) and binds the `.min_lane` and `.max_lane` of the
variables the rules reach to their least and greatest lane (`LaneEnv`). A rule recurses
only into operands with as many lanes as the node, so for a vector expression these are
its vector variables of that width: a scalar variable sits under a `Broadcast` or in a
`Ramp`, whose values the rules read as they are.

Each rule that recurses maps the lanes of one operand through a function that is
monotone (`Val.Mono`) or antitone (`Val.Anti`) on lanes of one type; the least and
greatest lane then commute with it (`Interval.Exact.map_mono`, `Interval.Exact.map_anti`).
The fall-back `foldLanes` is exact by construction, and a `Ramp` with a constant stride
is monotone in its lane index.
-/

namespace HalideSchedule.Vectorize

namespace Val

/-- The element type of a lane value. -/
def elem : Val → ElemType
  | int _ => .int
  | bool _ => .bool

@[simp] theorem elem_intOp (f : Int → Int → Int) (x y : Val) : (intOp f x y).elem = .int := by
  cases x <;> cases y <;> rfl

@[simp] theorem elem_boolOp (f : Bool → Bool → Bool) (x y : Val) :
    (boolOp f x y).elem = .bool := by
  cases x <;> cases y <;> rfl

@[simp] theorem elem_notV (x : Val) : (notV x).elem = .bool := by
  cases x <;> rfl

@[simp] theorem intOp_int (f : Int → Int → Int) (a b : Int) :
    intOp f (.int a) (.int b) = .int (f a b) := rfl

@[simp] theorem minV_int (a b : Int) : minV (.int a) (.int b) = .int (Min.min a b) := rfl

@[simp] theorem maxV_int (a b : Int) : maxV (.int a) (.int b) = .int (Max.max a b) := rfl

theorem elem_int {x : Val} (h : x.elem = .int) : ∃ a, x = .int a := by
  cases x with
  | int a => exact ⟨a, rfl⟩
  | bool _ => cases h

theorem elem_bool {x : Val} (h : x.elem = .bool) : ∃ a, x = .bool a := by
  cases x with
  | int _ => cases h
  | bool a => exact ⟨a, rfl⟩

theorem elem_minV {x y : Val} {t : ElemType} (hx : x.elem = t) (hy : y.elem = t) :
    (minV x y).elem = t := by
  cases x <;> cases y <;> simp only [elem] at hx hy <;> subst hx <;> first | rfl | cases hy

theorem elem_maxV {x y : Val} {t : ElemType} (hx : x.elem = t) (hy : y.elem = t) :
    (maxV x y).elem = t := by
  cases x <;> cases y <;> simp only [elem] at hx hy <;> subst hx <;> first | rfl | cases hy

theorem minV_comm (x y : Val) : minV x y = minV y x := by
  cases x <;> cases y <;> simp only [minV, intOp, min_comm, Bool.and_comm]

theorem maxV_comm (x y : Val) : maxV x y = maxV y x := by
  cases x <;> cases y <;> simp only [maxV, intOp, max_comm, Bool.or_comm]

theorem boolOp_and_comm (x y : Val) : boolOp (· && ·) x y = boolOp (· && ·) y x := by
  cases x <;> cases y <;> simp only [boolOp, Bool.and_comm]

/-- `g` sends the least and the greatest of two lanes of type `t` to the least and the
greatest of their images. -/
def Mono (t : ElemType) (g : Val → Val) : Prop :=
  ∀ x y, x.elem = t → y.elem = t →
    g (minV x y) = minV (g x) (g y) ∧ g (maxV x y) = maxV (g x) (g y)

/-- `g` sends the least of two lanes of type `t` to the greatest of their images, and
the greatest to the least. -/
def Anti (t : ElemType) (g : Val → Val) : Prop :=
  ∀ x y, x.elem = t → y.elem = t →
    g (minV x y) = maxV (g x) (g y) ∧ g (maxV x y) = minV (g x) (g y)

theorem mono_of_int {g : Val → Val} {φ : Int → Int} (hφ : ∀ a b, a ≤ b → φ a ≤ φ b)
    (hg : ∀ a, g (.int a) = .int (φ a)) : Mono .int g := by
  intro x y hx hy
  obtain ⟨a, rfl⟩ := elem_int hx
  obtain ⟨b, rfl⟩ := elem_int hy
  have hm : Monotone φ := fun a b h => hφ a b h
  exact ⟨by simp only [minV, intOp, hg, hm.map_min], by simp only [maxV, intOp, hg, hm.map_max]⟩

theorem anti_of_int {g : Val → Val} {φ : Int → Int} (hφ : ∀ a b, a ≤ b → φ b ≤ φ a)
    (hg : ∀ a, g (.int a) = .int (φ a)) : Anti .int g := by
  intro x y hx hy
  obtain ⟨a, rfl⟩ := elem_int hx
  obtain ⟨b, rfl⟩ := elem_int hy
  have ha : Antitone φ := fun a b h => hφ a b h
  exact ⟨by simp only [minV, maxV, intOp, hg, ha.map_min],
    by simp only [minV, maxV, intOp, hg, ha.map_max]⟩

theorem mono_of_bool {g : Val → Val} {φ : Bool → Bool}
    (hφ : ∀ a b, φ (a && b) = (φ a && φ b) ∧ φ (a || b) = (φ a || φ b))
    (hg : ∀ a, g (.bool a) = .bool (φ a)) : Mono .bool g := by
  intro x y hx hy
  obtain ⟨a, rfl⟩ := elem_bool hx
  obtain ⟨b, rfl⟩ := elem_bool hy
  exact ⟨by simp only [minV, hg, (hφ a b).1], by simp only [maxV, hg, (hφ a b).2]⟩

theorem anti_of_bool {g : Val → Val} {φ : Bool → Bool}
    (hφ : ∀ a b, φ (a && b) = (φ a || φ b) ∧ φ (a || b) = (φ a && φ b))
    (hg : ∀ a, g (.bool a) = .bool (φ a)) : Anti .bool g := by
  intro x y hx hy
  obtain ⟨a, rfl⟩ := elem_bool hx
  obtain ⟨b, rfl⟩ := elem_bool hy
  exact ⟨by simp only [minV, maxV, hg, (hφ a b).1], by simp only [minV, maxV, hg, (hφ a b).2]⟩

/-- `Min` and `Max` with a fixed lane `c` are monotone on lanes of `c`'s type. -/
theorem mono_minV {c : Val} {t : ElemType} (hc : c.elem = t) : Mono t (fun y => minV y c) := by
  subst hc
  cases c with
  | int c => exact mono_of_int (φ := (min · c)) (fun _ _ h => min_le_min_right c h) fun _ => rfl
  | bool c => exact mono_of_bool (φ := (· && c)) (by cases c <;> decide) fun _ => rfl

theorem mono_maxV {c : Val} {t : ElemType} (hc : c.elem = t) : Mono t (fun y => maxV y c) := by
  subst hc
  cases c with
  | int c => exact mono_of_int (φ := (max · c)) (fun _ _ h => max_le_max_right c h) fun _ => rfl
  | bool c => exact mono_of_bool (φ := (· || c)) (by cases c <;> decide) fun _ => rfl

theorem mono_and {c : Val} {k : Bool} (hc : c = .bool k) :
    Mono .bool (fun y => boolOp (· && ·) y c) :=
  mono_of_bool (φ := (· && k)) (by cases k <;> decide) fun _ => by rw [hc]; rfl

/-- An integer operation with a fixed constant `k` on one side is monotone (antitone) on
integer lanes when it is as a function of the other side. -/
theorem mono_intOp_right {f : Int → Int → Int} {c : Val} {k : Int} (hc : c = .int k)
    (hf : ∀ a b, a ≤ b → f a k ≤ f b k) : Mono .int (fun y => intOp f y c) :=
  mono_of_int hf fun _ => by rw [hc]; rfl

theorem mono_intOp_left {f : Int → Int → Int} {c : Val} {k : Int} (hc : c = .int k)
    (hf : ∀ a b, a ≤ b → f k a ≤ f k b) : Mono .int (fun y => intOp f c y) :=
  mono_of_int hf fun _ => by rw [hc]; rfl

theorem anti_intOp_right {f : Int → Int → Int} {c : Val} {k : Int} (hc : c = .int k)
    (hf : ∀ a b, a ≤ b → f b k ≤ f a k) : Anti .int (fun y => intOp f y c) :=
  anti_of_int hf fun _ => by rw [hc]; rfl

theorem anti_intOp_left {f : Int → Int → Int} {c : Val} {k : Int} (hc : c = .int k)
    (hf : ∀ a b, a ≤ b → f k b ≤ f k a) : Anti .int (fun y => intOp f c y) :=
  anti_of_int hf fun _ => by rw [hc]; rfl

@[simp] theorem minV_self (x : Val) : minV x x = x := by
  cases x <;> simp [minV]

@[simp] theorem maxV_self (x : Val) : maxV x x = x := by
  cases x <;> simp [maxV]

theorem anti_notV : Anti .bool notV :=
  anti_of_bool (φ := (! ·)) (by decide) fun _ => rfl

end Val

/-- Euclidean division by a negative constant reverses the order. -/
theorem ediv_antitone_of_neg {k : Int} (hk : k < 0) (a b : Int) (h : a ≤ b) : b / k ≤ a / k := by
  have hneg : ∀ x, x / k = -(x / -k) := fun x => by rw [← Int.ediv_neg, Int.neg_neg]
  rw [hneg a, hneg b]
  exact Int.neg_le_neg (Int.ediv_le_ediv (Int.neg_pos_of_neg hk) h)


/-- `env` gives the variable `name` lanes of its type in `Γ`: each lane below the type's
lane count has its element type. -/
def Env.Typed (Γ : String → VType) (env : Env) (name : String) : Prop :=
  ∀ i < (Γ name).lanes, (env name i).elem = (Γ name).elem

namespace VExpr

/-- The type rules of Halide's IR constructors (`IR.cpp`, not under `src/`) for the nodes
above, with `Γ` the types of the variables: operands of one type, integers for
arithmetic and `Ramp`, booleans for `And`, `Or`, `Not` and `likely`, scalars under `Ramp`
and `Broadcast`, and a lane in range for `extract_lane`. -/
def typeOk (Γ : String → VType) : VExpr → Bool
  | intImm _ | boolImm _ => true
  | var t n => t == Γ n
  | add a b | sub a b | mul a b | div a b =>
    a.typeOk Γ && b.typeOk Γ && a.type == b.type && a.type.elem == .int
  | min a b | max a b | cmp _ a b => a.typeOk Γ && b.typeOk Γ && a.type == b.type
  | and a b | or a b => a.typeOk Γ && b.typeOk Γ && a.type == b.type && a.type.elem == .bool
  | not a | likely a => a.typeOk Γ && a.type.elem == .bool
  | ramp base stride _ => base.typeOk Γ && stride.typeOk Γ && base.type == ⟨.int, 1⟩ &&
      stride.type == ⟨.int, 1⟩
  | broadcast v _ => v.typeOk Γ && v.type.lanes == 1
  | letIn n v body => v.typeOk Γ && body.typeOk (fun m => if m = n then v.type else Γ m)
  | extractLane e i => e.typeOk Γ && decide (i < e.type.lanes)

/-- Every lane of a well-typed expression has the expression's element type. -/
theorem eval_elem {Γ : String → VType} {env : Env} {e : VExpr} (ht : e.typeOk Γ = true)
    (henv : ∀ n, e.usesVar n = true → env.Typed Γ n) :
    ∀ i < e.type.lanes, (e.eval env i).elem = e.type.elem := by
  induction e generalizing Γ env with
  | intImm _ | boolImm _ | cmp _ _ _ _ _ => intros; rfl
  | and _ _ _ _ | or _ _ _ _ | not _ _ => intros; simp [eval, type]
  | var t n =>
    simp only [typeOk, beq_iff_eq] at ht
    exact ht ▸ henv n (by simp [usesVar])
  | add a _ _ _ | sub a _ _ _ | mul a _ _ _ | div a _ _ _ =>
    simp only [typeOk, Bool.and_eq_true, beq_iff_eq] at ht
    intros
    simp [eval, type, ht.2]
  | min a b iha ihb | max a b iha ihb =>
    simp only [typeOk, Bool.and_eq_true, beq_iff_eq] at ht
    intro i hi
    have ha := iha ht.1.1 (fun n h => henv n (by simp [usesVar, h])) i hi
    have hb := ihb ht.1.2 (fun n h => henv n (by simp [usesVar, h])) i (ht.2 ▸ hi)
    first | exact Val.elem_minV ha (ht.2 ▸ hb) | exact Val.elem_maxV ha (ht.2 ▸ hb)
  | likely a ih =>
    simp only [typeOk, Bool.and_eq_true] at ht
    exact ih ht.1 henv
  | ramp base _ _ _ _ =>
    simp only [typeOk, Bool.and_eq_true, beq_iff_eq] at ht
    intros
    simp [eval, type, ht.1.2]
  | broadcast v _ ih =>
    simp only [typeOk, Bool.and_eq_true, beq_iff_eq] at ht
    exact fun _ _ => ih ht.1 (fun n h => henv n (by simp [usesVar, h])) 0 (by omega)
  | extractLane e j ih =>
    simp only [typeOk, Bool.and_eq_true, decide_eq_true_eq] at ht
    exact fun _ _ => ih ht.1 (fun n h => henv n (by simp [usesVar, h])) j ht.2
  | letIn n v body ihv ihb =>
    simp only [typeOk, Bool.and_eq_true] at ht
    refine ihb ht.2 fun m hm j hj => ?_
    by_cases h : m = n
    · subst h
      simp only [if_true] at hj ⊢
      simpa [Env.bind] using ihv ht.1 (fun k hk => henv k (by simp [usesVar, hk])) j hj
    · simp only [h, if_false] at hj ⊢
      simpa [Env.bind, h] using henv m (by simp [usesVar, hm, Ne.symm h]) j hj

/-- `e` with a positive integer constant as every lane. -/
theorem isPositiveConst_eval {e : VExpr} (h : e.isPositiveConst = true) :
    ∃ k, 0 < k ∧ ∀ env i, e.eval env i = .int k := by
  induction e with
  | intImm k => exact ⟨k, by simpa [isPositiveConst] using h, fun _ _ => rfl⟩
  | broadcast v _ ih =>
    obtain ⟨k, hk, hv⟩ := ih h
    exact ⟨k, hk, fun env _ => hv env 0⟩
  | _ => cases h

theorem isNegativeConst_eval {e : VExpr} (h : e.isNegativeConst = true) :
    ∃ k, k < 0 ∧ ∀ env i, e.eval env i = .int k := by
  induction e with
  | intImm k => exact ⟨k, by simpa [isNegativeConst] using h, fun _ _ => rfl⟩
  | broadcast v _ ih =>
    obtain ⟨k, hk, hv⟩ := ih h
    exact ⟨k, hk, fun env _ => hv env 0⟩
  | _ => cases h

/-- `e` has no `Let`, no `Or` with a `Broadcast` operand and no `Sub` of a `Broadcast`
by a non-`Broadcast` where `bounds_of_lanes` looks: it avoids the three rules that are not
exact. A comparison, a call and `extract_lane` take the fall-back whatever they hold, and
the rules for `Ramp` and `Broadcast` use their scalar operands as they are. -/
def exactRulesOnly : VExpr → Bool
  | intImm _ | boolImm _ | var _ _ | cmp _ _ _ | likely _ | ramp _ _ _ | broadcast _ _
  | extractLane _ _ => true
  | sub a b => (b.asBroadcast.isSome || a.asBroadcast.isNone) && a.exactRulesOnly &&
      b.exactRulesOnly
  | or a b => b.asBroadcast.isNone && a.asBroadcast.isNone && a.exactRulesOnly &&
      b.exactRulesOnly
  | add a b | mul a b | div a b | min a b | max a b | and a b =>
    a.exactRulesOnly && b.exactRulesOnly
  | not a => a.exactRulesOnly
  | letIn _ _ _ => false

theorem asBroadcast_eq_some {e v : VExpr} (h : e.asBroadcast = some v) :
    ∃ k, e = .broadcast v k := by
  cases e with
  | broadcast w k => cases h; exact ⟨k, rfl⟩
  | _ => cases h

/-- The one lane of a `Broadcast`'s value, with its type. -/
theorem broadcast_elem {Γ : String → VType} {env : Env} {v : VExpr} {k : Nat}
    (ht : (VExpr.broadcast v k).typeOk Γ = true)
    (henv : ∀ n, (VExpr.broadcast v k).usesVar n = true → env.Typed Γ n) :
    (v.eval env 0).elem = v.type.elem := by
  simp only [typeOk, Bool.and_eq_true, beq_iff_eq] at ht
  exact eval_elem ht.1 henv 0 (by omega)

end VExpr

/-- How the vectorizer reads a vector variable `name` defined outside the expression
("variables defined externally also have .min_lane and .max_lane"): `name.min_lane` and
`name.max_lane` hold its least and greatest lane. -/
structure LaneEnv (Γ : String → VType) (env : Env) (name : String) : Prop where
  minLane : env (name ++ ".min_lane") 0 = VExpr.laneMin env (.var (Γ name) name) (Γ name).lanes
  maxLane : env (name ++ ".max_lane") 0 = VExpr.laneMax env (.var (Γ name) name) (Γ name).lanes

/-- `I` is exact for `e` in `env`: its ends evaluate to the least and the greatest lane
of `e`. -/
def Interval.Exact (env : Env) (e : VExpr) (I : Interval) : Prop :=
  I.min.eval env 0 = VExpr.laneMin env e e.type.lanes ∧
    I.max.eval env 0 = VExpr.laneMax env e e.type.lanes

/-! ### Folds over the lanes -/

/-- Folding the images of lanes under `g` gives the image of the fold, when `g` turns
`op₁` into `op₂` on lanes of type `t`. -/
theorem foldl_map_lanes {op₁ op₂ : Val → Val → Val} {g : Val → Val} {f : Nat → Val}
    {t : ElemType} (hop : ∀ {x y}, x.elem = t → y.elem = t → (op₁ x y).elem = t)
    (hg : ∀ x y, x.elem = t → y.elem = t → g (op₁ x y) = op₂ (g x) (g y)) (l : List Nat)
    (hf : ∀ i ∈ l, (f i).elem = t) {x : Val} (hx : x.elem = t) :
    l.foldl (fun m i => op₂ m (g (f i))) (g x) = g (l.foldl (fun m i => op₁ m (f i)) x) := by
  induction l generalizing x with
  | nil => rfl
  | cons i l ih =>
    simp only [List.foldl_cons]
    have hi := hf i (List.mem_cons_self _ _)
    rw [← hg x (f i) hx hi]
    exact ih (fun j hj => hf j (List.mem_cons_of_mem _ hj)) (hop hx hi)

/-- The lanes past the first that the folds visit. -/
theorem lt_of_mem_range' {i n : Nat} (h : i ∈ List.range' 1 (n - 1)) : i < n := by
  rw [List.mem_range'_1] at h
  omega

/-- A fold that ends on its greatest element: each lane wins against the one before. -/
theorem foldl_range'_last {op : Val → Val → Val} {f : Nat → Val}
    (h : ∀ i, op (f i) (f (i + 1)) = f (i + 1)) (k : Nat) :
    (List.range' 1 k).foldl (fun m i => op m (f i)) (f 0) = f k := by
  induction k with
  | zero => rfl
  | succ k ih =>
    rw [List.range'_1_concat, List.foldl_append, ih, List.foldl_cons, List.foldl_nil,
      Nat.add_comm, h]

section Rules

variable {env : Env} {e a : VExpr} {ia : Interval} {g : Val → Val} {t : ElemType}
  {lo hi : VExpr}

/-- A rule that maps the lanes of `a` through a monotone `g` and wraps `a`'s ends in it
is exact when `a`'s ends are. -/
theorem Interval.Exact.map_mono (hia : ia.Exact env a)
    (ha : ∀ i < a.type.lanes, (a.eval env i).elem = t) (hg : Val.Mono t g)
    (he : ∀ i, e.eval env i = g (a.eval env i)) (hn : e.type.lanes = a.type.lanes)
    (hlo : lo.eval env 0 = g (ia.min.eval env 0)) (hhi : hi.eval env 0 = g (ia.max.eval env 0)) :
    Interval.Exact env e ⟨lo, hi⟩ := by
  rcases Nat.eq_zero_or_pos a.type.lanes with h0 | hpos
  · exact ⟨by rw [hlo, hia.1, hn, h0]; exact (he 0).symm, by rw [hhi, hia.2, hn, h0]; exact (he 0).symm⟩
  have hl := fun i hi => ha i (lt_of_mem_range' hi)
  refine ⟨?_, ?_⟩
  · rw [hlo, hia.1, hn]
    unfold VExpr.laneMin
    simp only [he]
    exact (foldl_map_lanes Val.elem_minV (fun x y hx hy => (hg x y hx hy).1) _ hl
      (ha 0 hpos)).symm
  · rw [hhi, hia.2, hn]
    unfold VExpr.laneMax
    simp only [he]
    exact (foldl_map_lanes Val.elem_maxV (fun x y hx hy => (hg x y hx hy).2) _ hl
      (ha 0 hpos)).symm

/-- A rule that maps the lanes of `a` through an antitone `g` and wraps `a`'s ends in it,
swapped, is exact when `a`'s ends are. -/
theorem Interval.Exact.map_anti (hia : ia.Exact env a)
    (ha : ∀ i < a.type.lanes, (a.eval env i).elem = t) (hg : Val.Anti t g)
    (he : ∀ i, e.eval env i = g (a.eval env i)) (hn : e.type.lanes = a.type.lanes)
    (hlo : lo.eval env 0 = g (ia.max.eval env 0)) (hhi : hi.eval env 0 = g (ia.min.eval env 0)) :
    Interval.Exact env e ⟨lo, hi⟩ := by
  rcases Nat.eq_zero_or_pos a.type.lanes with h0 | hpos
  · exact ⟨by rw [hlo, hia.2, hn, h0]; exact (he 0).symm, by rw [hhi, hia.1, hn, h0]; exact (he 0).symm⟩
  have hl := fun i hi => ha i (lt_of_mem_range' hi)
  refine ⟨?_, ?_⟩
  · rw [hlo, hia.2, hn]
    unfold VExpr.laneMin VExpr.laneMax
    simp only [he]
    exact (foldl_map_lanes Val.elem_maxV (fun x y hx hy => (hg x y hx hy).2) _ hl
      (ha 0 hpos)).symm
  · rw [hhi, hia.1, hn]
    unfold VExpr.laneMin VExpr.laneMax
    simp only [he]
    exact (foldl_map_lanes Val.elem_minV (fun x y hx hy => (hg x y hx hy).1) _ hl
      (ha 0 hpos)).symm

/-- The fall-back combines each lane into both ends; on lanes of one type, `And` and `Or`
are `Min` and `Max`. -/
theorem foldLanesStep_eval {acc : Interval} {i : Nat} (hi : (e.eval env i).elem = e.type.elem)
    (hmin : (acc.min.eval env 0).elem = e.type.elem)
    (hmax : (acc.max.eval env 0).elem = e.type.elem) :
    (foldLanesStep e acc i).min.eval env 0 = Val.minV (acc.min.eval env 0) (e.eval env i) ∧
      (foldLanesStep e acc i).max.eval env 0 = Val.maxV (acc.max.eval env 0) (e.eval env i) := by
  unfold foldLanesStep
  split_ifs with hb
  · rw [hb] at hi hmin hmax
    obtain ⟨x, hx⟩ := Val.elem_bool hmin
    obtain ⟨y, hy⟩ := Val.elem_bool hmax
    obtain ⟨z, hz⟩ := Val.elem_bool hi
    simp only [VExpr.eval, hx, hy, hz]
    exact ⟨rfl, rfl⟩
  · exact ⟨rfl, rfl⟩

theorem foldl_foldLanesStep (l : List Nat) (he : ∀ i ∈ l, (e.eval env i).elem = e.type.elem)
    {acc : Interval} (hmin : (acc.min.eval env 0).elem = e.type.elem)
    (hmax : (acc.max.eval env 0).elem = e.type.elem) :
    (l.foldl (foldLanesStep e) acc).min.eval env 0 =
        l.foldl (fun m i => Val.minV m (e.eval env i)) (acc.min.eval env 0) ∧
      (l.foldl (foldLanesStep e) acc).max.eval env 0 =
        l.foldl (fun m i => Val.maxV m (e.eval env i)) (acc.max.eval env 0) := by
  induction l generalizing acc with
  | nil => exact ⟨rfl, rfl⟩
  | cons i l ih =>
    have hi := he i (List.mem_cons_self _ _)
    obtain ⟨h1, h2⟩ := foldLanesStep_eval hi hmin hmax
    simp only [List.foldl_cons]
    rw [← h1, ← h2]
    exact ih (fun j hj => he j (List.mem_cons_of_mem _ hj)) (h1 ▸ Val.elem_minV hmin hi)
      (h2 ▸ Val.elem_maxV hmax hi)

/-- The fall-back of `bounds_of_lanes` is exact on any expression whose lanes have its
element type. -/
theorem foldLanes_exact (he : ∀ i < e.type.lanes, (e.eval env i).elem = e.type.elem) :
    (foldLanes e).Exact env e := by
  rcases Nat.eq_zero_or_pos e.type.lanes with h0 | hpos
  · simp only [Interval.Exact, foldLanes, VExpr.laneMin, VExpr.laneMax, h0]
    exact ⟨rfl, rfl⟩
  · exact foldl_foldLanesStep _ (fun i hi => he i (lt_of_mem_range' hi)) (he 0 hpos) (he 0 hpos)

/-- Integer lanes that grow with the lane index: the least is lane `0`, the greatest the
last. -/
theorem lanes_of_monotone {f : Nat → Int} (he : ∀ i, e.eval env i = .int (f i))
    (hf : ∀ i j, i ≤ j → f i ≤ f j) (n : Nat) :
    VExpr.laneMin env e n = .int (f 0) ∧ VExpr.laneMax env e n = .int (f (n - 1)) := by
  unfold VExpr.laneMin VExpr.laneMax
  simp only [he]
  refine ⟨List.foldl_fixed' (fun i => ?_) _, foldl_range'_last (fun i => ?_) _⟩
  · simp [min_eq_left (hf 0 i (Nat.zero_le i))]
  · simp [max_eq_right (hf i (i + 1) (Nat.le_succ i))]

theorem lanes_of_antitone {f : Nat → Int} (he : ∀ i, e.eval env i = .int (f i))
    (hf : ∀ i j, i ≤ j → f j ≤ f i) (n : Nat) :
    VExpr.laneMin env e n = .int (f (n - 1)) ∧ VExpr.laneMax env e n = .int (f 0) := by
  unfold VExpr.laneMin VExpr.laneMax
  simp only [he]
  refine ⟨foldl_range'_last (fun i => ?_) _, List.foldl_fixed' (fun i => ?_) _⟩
  · simp [min_eq_right (hf i (i + 1) (Nat.le_succ i))]
  · simp [max_eq_left (hf 0 i (Nat.zero_le i))]

/-- The `Ramp` rule: with a positive stride the base is the least lane and
`base + (lanes - 1) * stride` the greatest; with a negative stride the other way round. -/
theorem ramp_exact {base stride : VExpr} {n : Nat} {b s : Int} (hb : base.eval env 0 = .int b)
    (hs : stride.eval env 0 = .int s) :
    (0 < s → Interval.Exact env (.ramp base stride n)
      ⟨base, .add base (.mul (.intImm (n - 1 : Nat)) stride)⟩) ∧
    (s < 0 → Interval.Exact env (.ramp base stride n)
      ⟨.add base (.mul (.intImm (n - 1 : Nat)) stride), base⟩) := by
  have hl : ∀ i, (VExpr.ramp base stride n).eval env i = .int (b + i * s) := fun i => by
    simp [VExpr.eval, hb, hs]
  refine ⟨fun hpos => ?_, fun hneg => ?_⟩
  · have hm : ∀ i j : Nat, i ≤ j → b + i * s ≤ b + j * s := fun i j h =>
      Int.add_le_add_left (Int.mul_le_mul_of_nonneg_right (Int.ofNat_le.2 h) hpos.le) b
    obtain ⟨hmin, hmax⟩ := lanes_of_monotone hl hm _
    exact ⟨by rw [hmin, hb]; simp, by rw [hmax]; simp [VExpr.eval, VExpr.type, hb, hs]⟩
  · have ha : ∀ i j : Nat, i ≤ j → b + j * s ≤ b + i * s := fun i j h =>
      Int.add_le_add_left (Int.mul_le_mul_of_nonpos_right (Int.ofNat_le.2 h) hneg.le) b
    obtain ⟨hmin, hmax⟩ := lanes_of_antitone hl ha _
    exact ⟨by rw [hmin]; simp [VExpr.eval, VExpr.type, hb, hs], by rw [hmax, hb]; simp⟩

end Rules

/-! ### Exactness -/

section Exact

variable {Γ : String → VType} {env : Env} {a b : VExpr}

/-- The statement proved by induction: under the hypotheses of `boundsOfLanes_exact`,
the bounds of `e` are exact. -/
def ExactUnder (Γ : String → VType) (env : Env) (e : VExpr) : Prop :=
  e.exactRulesOnly = true → e.typeOk Γ = true → (∀ n, e.usesVar n = true → env.Typed Γ n) →
    (∀ n, e.usesVar n = true → (Γ n).lanes = e.type.lanes → LaneEnv Γ env n) →
    (boundsOfLanes e).Exact env e

/-- The facts every binary rule starts from: both operands well typed, of one type, with
the hypotheses of `ExactUnder` for each. -/
theorem binary_facts {f : VExpr → VExpr → VExpr} (hf : ∀ x y, (f x y).type.lanes = x.type.lanes)
    (hu : ∀ n, (f a b).usesVar n = (a.usesVar n || b.usesVar n))
    (hta : a.typeOk Γ = true) (htb : b.typeOk Γ = true) (hab : a.type = b.type)
    (henv : ∀ n, (f a b).usesVar n = true → env.Typed Γ n)
    (hlane : ∀ n, (f a b).usesVar n = true → (Γ n).lanes = (f a b).type.lanes →
      LaneEnv Γ env n) :
    (∀ n, a.usesVar n = true → env.Typed Γ n) ∧ (∀ n, b.usesVar n = true → env.Typed Γ n) ∧
      (∀ i < a.type.lanes, (a.eval env i).elem = a.type.elem) ∧
      (∀ i < b.type.lanes, (b.eval env i).elem = a.type.elem) ∧
      (ExactUnder Γ env a → a.exactRulesOnly = true → (boundsOfLanes a).Exact env a) ∧
      (ExactUnder Γ env b → b.exactRulesOnly = true → (boundsOfLanes b).Exact env b) := by
  have ha : ∀ n, a.usesVar n = true → (f a b).usesVar n = true := fun n h => by simp [hu, h]
  have hb : ∀ n, b.usesVar n = true → (f a b).usesVar n = true := fun n h => by simp [hu, h]
  refine ⟨fun n h => henv n (ha n h), fun n h => henv n (hb n h),
    VExpr.eval_elem hta fun n h => henv n (ha n h),
    hab ▸ VExpr.eval_elem htb fun n h => henv n (hb n h),
    fun ih hr => ih hr hta (fun n h => henv n (ha n h))
      fun n h hl => hlane n (ha n h) (by rw [hf]; exact hl),
    fun ih hr => ih hr htb (fun n h => henv n (hb n h))
      fun n h hl => hlane n (hb n h) (by rw [hf, hab]; exact hl)⟩

/-- The value of a well-typed `Broadcast` operand, with the element type of the other one. -/
theorem broadcast_value {v : VExpr} {k : Nat} {t : ElemType}
    (ht : (VExpr.broadcast v k).typeOk Γ = true)
    (henv : ∀ n, (VExpr.broadcast v k).usesVar n = true → env.Typed Γ n)
    (hel : (VExpr.broadcast v k).type.elem = t) : (v.eval env 0).elem = t :=
  (VExpr.broadcast_elem ht henv).trans hel

theorem exactUnder_add (iha : ExactUnder Γ env a) (ihb : ExactUnder Γ env b) :
    ExactUnder Γ env (.add a b) := by
  intro hr ht henv hlane
  have hle := VExpr.eval_elem ht henv
  simp only [VExpr.exactRulesOnly, VExpr.typeOk, Bool.and_eq_true, beq_iff_eq] at hr ht
  obtain ⟨⟨⟨hta, htb⟩, hab⟩, hint⟩ := ht
  obtain ⟨hea, heb, hla, hlb, hia, hib⟩ := binary_facts (f := .add) (fun _ _ => rfl) (fun _ => rfl) hta htb hab henv
    hlane
  rw [boundsOfLanes]
  cases hb : b.asBroadcast with
  | some v =>
    obtain ⟨k, rfl⟩ := VExpr.asBroadcast_eq_some hb
    obtain ⟨c, hc⟩ := Val.elem_int (broadcast_value htb heb
      (hab ▸ hint))
    exact (hia iha hr.1).map_mono (fun i hi => (hla i hi).trans hint)
      (Val.mono_intOp_right hc fun _ _ h => Int.add_le_add_right h c) (fun _ => rfl) rfl rfl rfl
  | none =>
    cases ha : a.asBroadcast with
    | some v =>
      obtain ⟨k, rfl⟩ := VExpr.asBroadcast_eq_some ha
      obtain ⟨c, hc⟩ := Val.elem_int (broadcast_value hta hea hint)
      exact (hib ihb hr.2).map_mono (fun i hi => (hlb i hi).trans hint)
        (Val.mono_intOp_left hc fun _ _ h => Int.add_le_add_left h c) (fun _ => rfl)
        (congrArg VType.lanes hab) rfl rfl
    | none => exact foldLanes_exact hle

theorem exactUnder_sub (iha : ExactUnder Γ env a) : ExactUnder Γ env (.sub a b) := by
  intro hr ht henv hlane
  have hle := VExpr.eval_elem ht henv
  simp only [VExpr.exactRulesOnly, VExpr.typeOk, Bool.and_eq_true, Bool.or_eq_true,
    beq_iff_eq] at hr ht
  obtain ⟨⟨⟨hta, htb⟩, hab⟩, hint⟩ := ht
  obtain ⟨-, heb, hla, -, hia, -⟩ := binary_facts (f := .sub) (fun _ _ => rfl) (fun _ => rfl) hta htb hab henv hlane
  rw [boundsOfLanes]
  cases hb : b.asBroadcast with
  | some v =>
    obtain ⟨k, rfl⟩ := VExpr.asBroadcast_eq_some hb
    obtain ⟨c, hc⟩ := Val.elem_int (broadcast_value htb heb
      (hab ▸ hint))
    exact (hia iha hr.1.2).map_mono (fun i hi => (hla i hi).trans hint)
      (Val.mono_intOp_right hc fun _ _ h => Int.sub_le_sub_right h c) (fun _ => rfl) rfl rfl rfl
  | none =>
    cases ha : a.asBroadcast with
    | some v => simp [hb, ha] at hr
    | none => exact foldLanes_exact hle

theorem exactUnder_mul (iha : ExactUnder Γ env a) (ihb : ExactUnder Γ env b) :
    ExactUnder Γ env (.mul a b) := by
  intro hr ht henv hlane
  have hle := VExpr.eval_elem ht henv
  simp only [VExpr.exactRulesOnly, VExpr.typeOk, Bool.and_eq_true, beq_iff_eq] at hr ht
  obtain ⟨⟨⟨hta, htb⟩, hab⟩, hint⟩ := ht
  obtain ⟨hea, heb, hla, hlb, hia, hib⟩ := binary_facts (f := .mul) (fun _ _ => rfl) (fun _ => rfl) hta htb hab henv
    hlane
  rw [boundsOfLanes]
  cases hb : b.asBroadcast with
  | some v =>
    obtain ⟨k, rfl⟩ := VExpr.asBroadcast_eq_some hb
    have ha' := fun i hi => (hla i hi).trans hint
    dsimp only
    split_ifs with hp hn
    · obtain ⟨c, hc, hv⟩ := VExpr.isPositiveConst_eval hp
      exact (hia iha hr.1).map_mono ha' (Val.mono_intOp_right (hv env 0)
        fun _ _ h => Int.mul_le_mul_of_nonneg_right h hc.le) (fun _ => rfl) rfl rfl rfl
    · obtain ⟨c, hc, hv⟩ := VExpr.isNegativeConst_eval hn
      exact (hia iha hr.1).map_anti ha' (Val.anti_intOp_right (hv env 0)
        fun _ _ h => Int.mul_le_mul_of_nonpos_right h hc.le) (fun _ => rfl) rfl rfl rfl
    · exact foldLanes_exact hle
  | none =>
    cases ha : a.asBroadcast with
    | some v =>
      obtain ⟨k, rfl⟩ := VExpr.asBroadcast_eq_some ha
      have hb' := fun i hi => (hlb i hi).trans hint
      have hn' := congrArg VType.lanes hab
      dsimp only
      split_ifs with hp hn
      · obtain ⟨c, hc, hv⟩ := VExpr.isPositiveConst_eval hp
        exact (hib ihb hr.2).map_mono hb' (Val.mono_intOp_left (hv env 0)
          fun _ _ h => Int.mul_le_mul_of_nonneg_left h hc.le) (fun _ => rfl) hn' rfl rfl
      · obtain ⟨c, hc, hv⟩ := VExpr.isNegativeConst_eval hn
        exact (hib ihb hr.2).map_anti hb' (Val.anti_intOp_left (hv env 0)
          fun _ _ h => Int.mul_le_mul_of_nonpos_left hc.le h) (fun _ => rfl) hn' rfl rfl
      · exact foldLanes_exact hle
    | none => exact foldLanes_exact hle

theorem exactUnder_div (iha : ExactUnder Γ env a) : ExactUnder Γ env (.div a b) := by
  intro hr ht henv hlane
  have hle := VExpr.eval_elem ht henv
  simp only [VExpr.exactRulesOnly, VExpr.typeOk, Bool.and_eq_true, beq_iff_eq] at hr ht
  obtain ⟨⟨⟨hta, htb⟩, hab⟩, hint⟩ := ht
  obtain ⟨-, heb, hla, -, hia, -⟩ := binary_facts (f := .div) (fun _ _ => rfl) (fun _ => rfl) hta htb hab henv hlane
  have ha' := fun i hi => (hla i hi).trans hint
  rw [boundsOfLanes]
  cases hb : b.asBroadcast with
  | some v =>
    obtain ⟨k, rfl⟩ := VExpr.asBroadcast_eq_some hb
    dsimp only
    split_ifs with hp hn
    · obtain ⟨c, hc, hv⟩ := VExpr.isPositiveConst_eval hp
      exact (hia iha hr.1).map_mono ha' (Val.mono_intOp_right (hv env 0)
        fun _ _ h => Int.ediv_le_ediv hc h) (fun _ => rfl) rfl rfl rfl
    · obtain ⟨c, hc, hv⟩ := VExpr.isNegativeConst_eval hn
      exact (hia iha hr.1).map_anti ha' (Val.anti_intOp_right (hv env 0)
        (ediv_antitone_of_neg hc)) (fun _ => rfl) rfl rfl rfl
    · exact foldLanes_exact hle
  | none => exact foldLanes_exact hle

theorem exactUnder_and (iha : ExactUnder Γ env a) (ihb : ExactUnder Γ env b) :
    ExactUnder Γ env (.and a b) := by
  intro hr ht henv hlane
  have hle := VExpr.eval_elem ht henv
  simp only [VExpr.exactRulesOnly, VExpr.typeOk, Bool.and_eq_true, beq_iff_eq] at hr ht
  obtain ⟨⟨⟨hta, htb⟩, hab⟩, hbool⟩ := ht
  obtain ⟨hea, heb, hla, hlb, hia, hib⟩ := binary_facts (f := .and) (fun _ _ => rfl) (fun _ => rfl) hta htb hab henv
    hlane
  rw [boundsOfLanes]
  cases hb : b.asBroadcast with
  | some v =>
    obtain ⟨k, rfl⟩ := VExpr.asBroadcast_eq_some hb
    obtain ⟨c, hc⟩ := Val.elem_bool (broadcast_value htb heb
      (hab ▸ hbool))
    exact (hia iha hr.1).map_mono (fun i hi => (hla i hi).trans hbool) (Val.mono_and hc)
      (fun _ => rfl) rfl rfl rfl
  | none =>
    cases ha : a.asBroadcast with
    | some v =>
      obtain ⟨k, rfl⟩ := VExpr.asBroadcast_eq_some ha
      obtain ⟨c, hc⟩ := Val.elem_bool (broadcast_value hta hea
        hbool)
      exact (hib ihb hr.2).map_mono (fun i hi => (hlb i hi).trans hbool)
        (Val.mono_and hc) (fun _ => Val.boolOp_and_comm _ _)
        (show (VExpr.broadcast v k).type.lanes = b.type.lanes from congrArg VType.lanes hab) rfl rfl
    | none => exact foldLanes_exact hle

theorem exactUnder_or : ExactUnder Γ env (.or a b) := by
  intro hr ht henv _
  have hle := VExpr.eval_elem ht henv
  simp only [VExpr.exactRulesOnly, Bool.and_eq_true] at hr
  rw [boundsOfLanes]
  cases hb : b.asBroadcast with
  | some v => simp [hb] at hr
  | none =>
    cases ha : a.asBroadcast with
    | some v => simp [ha] at hr
    | none => exact foldLanes_exact hle

theorem exactUnder_min (iha : ExactUnder Γ env a) (ihb : ExactUnder Γ env b) :
    ExactUnder Γ env (.min a b) := by
  intro hr ht henv hlane
  have hle := VExpr.eval_elem ht henv
  simp only [VExpr.exactRulesOnly, VExpr.typeOk, Bool.and_eq_true, beq_iff_eq] at hr ht
  obtain ⟨⟨hta, htb⟩, hab⟩ := ht
  obtain ⟨hea, heb, hla, hlb, hia, hib⟩ := binary_facts (f := .min) (fun _ _ => rfl) (fun _ => rfl) hta htb hab henv
    hlane
  rw [boundsOfLanes]
  cases hb : b.asBroadcast with
  | some v =>
    obtain ⟨k, rfl⟩ := VExpr.asBroadcast_eq_some hb
    exact (hia iha hr.1).map_mono hla (Val.mono_minV (broadcast_value htb
      heb (congrArg VType.elem hab).symm)) (fun _ => rfl) rfl rfl rfl
  | none =>
    cases ha : a.asBroadcast with
    | some v =>
      obtain ⟨k, rfl⟩ := VExpr.asBroadcast_eq_some ha
      exact (hib ihb hr.2).map_mono hlb
        (Val.mono_minV (broadcast_value hta hea rfl))
        (fun _ => Val.minV_comm _ _) (congrArg VType.lanes hab) rfl rfl
    | none => exact foldLanes_exact hle

theorem exactUnder_max (iha : ExactUnder Γ env a) (ihb : ExactUnder Γ env b) :
    ExactUnder Γ env (.max a b) := by
  intro hr ht henv hlane
  have hle := VExpr.eval_elem ht henv
  simp only [VExpr.exactRulesOnly, VExpr.typeOk, Bool.and_eq_true, beq_iff_eq] at hr ht
  obtain ⟨⟨hta, htb⟩, hab⟩ := ht
  obtain ⟨hea, heb, hla, hlb, hia, hib⟩ := binary_facts (f := .max) (fun _ _ => rfl) (fun _ => rfl) hta htb hab henv
    hlane
  rw [boundsOfLanes]
  cases hb : b.asBroadcast with
  | some v =>
    obtain ⟨k, rfl⟩ := VExpr.asBroadcast_eq_some hb
    exact (hia iha hr.1).map_mono hla (Val.mono_maxV (broadcast_value htb
      heb (congrArg VType.elem hab).symm)) (fun _ => rfl) rfl rfl rfl
  | none =>
    cases ha : a.asBroadcast with
    | some v =>
      obtain ⟨k, rfl⟩ := VExpr.asBroadcast_eq_some ha
      exact (hib ihb hr.2).map_mono hlb
        (Val.mono_maxV (broadcast_value hta hea rfl))
        (fun _ => Val.maxV_comm _ _) (congrArg VType.lanes hab) rfl rfl
    | none => exact foldLanes_exact hle

theorem exactUnder_ramp {base stride : VExpr} {n : Nat} :
    ExactUnder Γ env (.ramp base stride n) := by
  intro _ ht henv _
  have hle := VExpr.eval_elem ht henv
  simp only [VExpr.typeOk, Bool.and_eq_true, beq_iff_eq] at ht
  obtain ⟨b, hb⟩ := Val.elem_int ((VExpr.eval_elem ht.1.1.1
    (fun n h => henv n (by simp [VExpr.usesVar, h])) 0 (by rw [ht.1.2]; exact Nat.one_pos)).trans
    (by rw [ht.1.2]))
  rw [boundsOfLanes]
  split_ifs with hp hn
  · obtain ⟨s, hs, hv⟩ := VExpr.isPositiveConst_eval hp
    exact (ramp_exact hb (hv env 0)).1 hs
  · obtain ⟨s, hs, hv⟩ := VExpr.isNegativeConst_eval hn
    exact (ramp_exact hb (hv env 0)).2 hs
  · exact foldLanes_exact hle

/-- The induction behind `boundsOfLanes_exact`, one case per node. -/
theorem exactUnder (e : VExpr) : ExactUnder Γ env e := by
  induction e with
  | intImm _ | boolImm _ | cmp _ _ _ _ _ | likely _ _ | extractLane _ _ _ =>
    exact fun _ ht henv _ => foldLanes_exact (VExpr.eval_elem ht henv)
  | letIn => exact fun hr => by cases hr
  | var t n =>
    intro _ ht _ hlane
    simp only [VExpr.typeOk, beq_iff_eq] at ht
    subst ht
    exact ⟨(hlane n (by simp [VExpr.usesVar]) rfl).minLane,
      (hlane n (by simp [VExpr.usesVar]) rfl).maxLane⟩
  | broadcast v k _ =>
    exact fun _ _ _ _ => ⟨(List.foldl_fixed' (fun _ => Val.minV_self _) _).symm,
      (List.foldl_fixed' (fun _ => Val.maxV_self _) _).symm⟩
  | not a iha =>
    intro hr ht henv hlane
    simp only [VExpr.exactRulesOnly] at hr
    simp only [VExpr.typeOk, Bool.and_eq_true, beq_iff_eq] at ht
    exact (iha hr ht.1 henv hlane).map_anti
      (fun i hi => (VExpr.eval_elem ht.1 henv i hi).trans ht.2) Val.anti_notV (fun _ => rfl)
      rfl rfl rfl
  | add a b iha ihb => exact exactUnder_add iha ihb
  | sub a b iha _ => exact exactUnder_sub iha
  | mul a b iha ihb => exact exactUnder_mul iha ihb
  | div a b iha _ => exact exactUnder_div iha
  | and a b iha ihb => exact exactUnder_and iha ihb
  | or a b _ _ => exact exactUnder_or
  | min a b iha ihb => exact exactUnder_min iha ihb
  | max a b iha ihb => exact exactUnder_max iha ihb
  | ramp _ _ _ _ _ => exact exactUnder_ramp

/-- `bounds_of_lanes` is exact on every well-typed expression that avoids its `Let` rule,
its `Or` rule and its rule for a `Broadcast` minus a vector, in every environment that
gives each variable lanes of its type and binds the `.min_lane` and `.max_lane` of each
variable as wide as the expression to its least and greatest lane. -/
theorem boundsOfLanes_exact {e : VExpr} (hr : e.exactRulesOnly = true) (ht : e.typeOk Γ = true)
    (henv : ∀ n, e.usesVar n = true → env.Typed Γ n)
    (hlane : ∀ n, e.usesVar n = true → (Γ n).lanes = e.type.lanes → LaneEnv Γ env n) :
    (boundsOfLanes e).Exact env e :=
  exactUnder e hr ht henv hlane

/-- `x + 3` over the lanes `0, 1, 2, 3` of `x`: the rule for a `Broadcast` on the right
gives `x.min_lane + 3` and `x.max_lane + 3`, which evaluate to `3` and `6`. -/
theorem boundsOfLanes_exact_offset :
    let e := VExpr.add (.var ⟨.int, 4⟩ "x") (.broadcast (.intImm 3) 4)
    let env : Env := fun n i =>
      if n = "x" then .int i else if n = "x.max_lane" then .int 3 else .int 0
    e.exactRulesOnly = true ∧ e.typeOk (fun _ => ⟨.int, 4⟩) = true ∧
      (boundsOfLanes e).Exact env e :=
  ⟨by decide, by decide, boundsOfLanes_exact (Γ := fun _ => ⟨.int, 4⟩) (by decide) (by decide)
    (fun n _ i _ => by dsimp only; split_ifs <;> rfl)
    fun n h _ => by
      simp only [VExpr.usesVar, Bool.or_false, beq_iff_eq] at h
      subst h
      exact ⟨by decide, by decide⟩⟩

end Exact

end HalideSchedule.Vectorize
