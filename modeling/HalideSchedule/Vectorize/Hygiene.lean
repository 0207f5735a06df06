import HalideSchedule.Vectorize.Loops
import Mathlib.Data.List.Nodup

/-!
# HalideSchedule.Vectorize.Hygiene

**The naming discipline of a vectorized loop body.** `VectorSubs` renames the `LetStmt`s
whose value it widens (`t` becomes `t.x4`), defines `t.x4.lane.i`, `t.x4.min_lane` and
`t.x4.max_lane` when the code it built asks for them, rebinds the original `t` when it
scalarizes, and rebases inner loops by substituting `y + min` for `y`. All of this is
correct only when the names it makes are fresh. Lowered Halide code has unique names, and
`StmtHygienic` states what the vectorizer needs of them, on the names a statement reads
(`varNames`) and binds (`letNames`):

* the binders of the body are distinct, are not the loop variable, and are read only
  inside their scope;
* no name of the body, of the loop's `min`, or of the scalarized `LetStmt`s around it is
  a name the vectorizer derives from a binder (`Derived`: a name starting with the
  binder's widened name);
* the conditions of assertions read neither the loop variable nor any binder of the body
  (`boundsFree`): `VectorSubs` leaves an assertion on a scalar condition as it is;
* the extents of inner loops and the arguments of `likely` conditions read no binder of
  the body and avoid the rules of `bounds_of_lanes` that are not exact once the loop
  variable is a vector (`VExpr.boundedBy`): `VectorSubs` sizes a loop whose extent reads
  the loop variable by `bounds_of_lanes` of the widened extent, and takes the vectorized
  branch of a `likely` condition when `bounds_of_lanes` of it says every lane is true;
  the rule for `Broadcast - vector` and the `Or` rule do not say so soundly
  (`bounds_of_lanes_inexact`).

The lemmas here are syntactic: how the names of a statement bound those of its parts
(`StmtHygienic.part`), of the rebased loop (`StmtHygienic.rebase`) and of the guarded body
of a loop whose extent became a vector (`StmtHygienic.guarded`).
-/

namespace HalideSchedule.Vectorize

/-! ### Names -/

namespace VExpr

/-- `bounds_of_lanes` takes exact rules on `e` once `x` is a vector: no `Let`, and, outside
comparisons and calls, which take the fall-back whatever they hold, no `Or` of an operand
that reads `x` with one that does not, and no `Sub` of an operand that reads `x` from one
that does not (the rules of `bounds_of_lanes_inexact`). -/
def exactOver (x : String) : VExpr → Bool
  | sub a b => (a.usesVar x || !b.usesVar x) && a.exactOver x && b.exactOver x
  | or a b => (a.usesVar x == b.usesVar x) && a.exactOver x && b.exactOver x
  | add a b | mul a b | div a b | min a b | max a b | and a b | ramp a b _ =>
    a.exactOver x && b.exactOver x
  | not a | broadcast a _ | extractLane a _ => a.exactOver x
  | letIn _ _ _ => false
  | intImm _ | boolImm _ | var _ _ | cmp _ _ _ | likely _ => true

/-- What `VectorSubs` may size by `bounds_of_lanes`: an expression without `Let`s that reads
none of `names` and takes exact rules once `x` is a vector. -/
def boundedBy (x : String) (names : List String) (e : VExpr) : Bool :=
  e.letNames.isEmpty && e.varNames.all (· ∉ names) && e.exactOver x

/-- A condition whose least lane the `IfThenElse` visitor may test: the argument of a
`likely` is bounded, and any other condition is left free. -/
def likelyBoundedBy (x : String) (names : List String) : VExpr → Bool
  | likely l => l.boundedBy x names
  | _ => true

theorem boundedBy_mono {x : String} {names names' : List String}
    (h : ∀ m ∈ names', m ∈ names) {e : VExpr} (he : e.boundedBy x names = true) :
    e.boundedBy x names' = true := by
  simp only [boundedBy, Bool.and_eq_true, List.all_eq_true, decide_eq_true_eq] at he ⊢
  exact ⟨⟨he.1.1, fun m hm hm' => he.1.2 m hm (h m hm')⟩, he.2⟩

theorem likelyBoundedBy_mono {x : String} {names names' : List String}
    (h : ∀ m ∈ names', m ∈ names) {c : VExpr} (hc : c.likelyBoundedBy x names = true) :
    c.likelyBoundedBy x names' = true := by
  cases c
  case likely l => exact boundedBy_mono h hc
  all_goals rfl

end VExpr

namespace VStmt

/-- The names the variables of a statement read, free or bound. -/
def varNames : VStmt → List String
  | letStmt _ v body => v.varNames ++ body.varNames
  | assertStmt c => c.varNames
  | store _ v i p => v.varNames ++ i.varNames ++ p.varNames
  | forLoop _ min extent _ body => min.varNames ++ extent.varNames ++ body.varNames
  | block a b => a.varNames ++ b.varNames
  | ifThenElse c a b => c.varNames ++ a.varNames ++ b.varNames
  | undef => []

/-- The names a statement binds: its `LetStmt`s, its loop variables and the `Let`s of its
expressions. -/
def letNames : VStmt → List String
  | letStmt n v body => n :: (v.letNames ++ body.letNames)
  | assertStmt c => c.letNames
  | store _ v i p => v.letNames ++ i.letNames ++ p.letNames
  | forLoop n min extent _ body => n :: (min.letNames ++ extent.letNames ++ body.letNames)
  | block a b => a.letNames ++ b.letNames
  | ifThenElse c a b => c.letNames ++ a.letNames ++ b.letNames
  | undef => []

/-- A scalar loop body: its expressions and conditions are scalar. -/
def scalarBody : VStmt → Bool
  | letStmt _ v body => v.scalarBody && body.scalarBody
  | assertStmt c => c.scalarBody
  | store _ v i p => v.scalarBody && i.scalarBody && p.scalarBody
  | forLoop _ min extent _ body => min.scalarBody && extent.scalarBody && body.scalarBody
  | block a b => a.scalarBody && b.scalarBody
  | ifThenElse c a b => c.scalarBody && a.scalarBody && b.scalarBody
  | undef => true

/-- The bounds `VectorSubs` must not widen, or sizes by `bounds_of_lanes`, once `x` is a
vector: every assertion condition is free of `Let`s and reads none of `asserted`; every
loop extent and the argument of every `likely` condition is bounded (`VExpr.boundedBy`)
with `extents` the names it may not read; every loop `min` is free of `Let`s. -/
def boundsFree (x : String) (asserted extents : List String) : VStmt → Bool
  | letStmt _ _ body => body.boundsFree x asserted extents
  | assertStmt c => c.letNames.isEmpty && c.varNames.all (· ∉ asserted)
  | store _ _ _ _ | undef => true
  | forLoop _ min extent _ body => min.letNames.isEmpty && extent.boundedBy x extents &&
      body.boundsFree x asserted extents
  | block a b => a.boundsFree x asserted extents && b.boundsFree x asserted extents
  | ifThenElse c a b => c.likelyBoundedBy x extents && a.boundsFree x asserted extents &&
      b.boundsFree x asserted extents

end VStmt

/-! ### Free occurrences are occurrences -/

theorem VExpr.mem_varNames_of_usesVar {m : String} {e : VExpr} (h : e.usesVar m = true) :
    m ∈ e.varNames := by
  induction e with
  | intImm _ | boolImm _ => cases h
  | var _ n => simp_all [usesVar, varNames]
  | letIn n v b ihv ihb =>
    simp only [usesVar, Bool.or_eq_true, Bool.and_eq_true] at h
    rcases h with h | ⟨-, h⟩ <;> simp [varNames, ihv, ihb, h]
  | not a ih | likely a ih | broadcast a _ ih | extractLane a _ ih => exact ih h
  | add a b iha ihb | sub a b iha ihb | mul a b iha ihb | div a b iha ihb
  | min a b iha ihb | max a b iha ihb | and a b iha ihb | or a b iha ihb
  | cmp _ a b iha ihb | ramp a b _ iha ihb =>
    simp only [usesVar, Bool.or_eq_true] at h
    simp only [varNames, List.mem_append]
    exact h.imp iha ihb

theorem VStmt.mem_varNames_of_usesVar {m : String} {s : VStmt} (h : s.usesVar m = true) :
    m ∈ s.varNames := by
  induction s with
  | letStmt n v b ih =>
    simp only [usesVar, Bool.or_eq_true, Bool.and_eq_true] at h
    rcases h with h | ⟨-, h⟩ <;> simp [varNames, VExpr.mem_varNames_of_usesVar, ih, h]
  | forLoop n min e _ b ih =>
    simp only [usesVar, Bool.or_eq_true, Bool.and_eq_true] at h
    rcases h with (h | h) | ⟨-, h⟩ <;> simp [varNames, VExpr.mem_varNames_of_usesVar, ih, h]
  | assertStmt c => exact VExpr.mem_varNames_of_usesVar h
  | store _ v i p =>
    simp only [usesVar, Bool.or_eq_true] at h
    rcases h with (h | h) | h <;> simp [varNames, VExpr.mem_varNames_of_usesVar h]
  | block a b iha ihb =>
    simp only [usesVar, Bool.or_eq_true] at h
    rcases h with h | h <;> simp [varNames, iha, ihb, h]
  | ifThenElse c a b iha ihb =>
    simp only [usesVar, Bool.or_eq_true] at h
    rcases h with (h | h) | h <;> simp [varNames, VExpr.mem_varNames_of_usesVar, iha, ihb, h]
  | undef => cases h

/-- An occurrence of a name no `Let` binds is a free one. -/
theorem VExpr.usesVar_of_mem_varNames {m : String} {e : VExpr} (hm : m ∈ e.varNames)
    (hl : m ∉ e.letNames) : e.usesVar m = true := by
  induction e with
  | intImm _ | boolImm _ => cases hm
  | var _ n => simp_all [usesVar, varNames]
  | letIn n v b ihv ihb =>
    simp only [varNames, letNames, List.mem_append, List.mem_cons, not_or] at hm hl
    rcases hm with hm | hm
    · simp [usesVar, ihv hm hl.2.1]
    · simp [usesVar, ihb hm hl.2.2, Ne.symm hl.1]
  | not a ih | likely a ih | broadcast a _ ih | extractLane a _ ih => exact ih hm hl
  | add a b iha ihb | sub a b iha ihb | mul a b iha ihb | div a b iha ihb
  | min a b iha ihb | max a b iha ihb | and a b iha ihb | or a b iha ihb
  | cmp _ a b iha ihb | ramp a b _ iha ihb =>
    simp only [varNames, letNames, List.mem_append, not_or] at hm hl
    rcases hm with hm | hm
    · simp [usesVar, iha hm hl.1]
    · simp [usesVar, ihb hm hl.2]

theorem VStmt.boundsFree_mono {x : String} {asserted asserted' extents extents' : List String}
    (ha : ∀ m ∈ asserted', m ∈ asserted) (he : ∀ m ∈ extents', m ∈ extents) {s : VStmt}
    (h : s.boundsFree x asserted extents = true) : s.boundsFree x asserted' extents' = true := by
  induction s with
  | letStmt _ _ _ ih => exact ih h
  | assertStmt c =>
    simp only [boundsFree, Bool.and_eq_true, List.all_eq_true, decide_eq_true_eq] at h ⊢
    exact ⟨h.1, fun m hm hm' => h.2 m hm (ha m hm')⟩
  | forLoop _ _ _ _ _ ih =>
    simp only [boundsFree, Bool.and_eq_true] at h ⊢
    exact ⟨⟨h.1.1, VExpr.boundedBy_mono he h.1.2⟩, ih h.2⟩
  | block _ _ iha ihb =>
    simp only [boundsFree, Bool.and_eq_true] at h ⊢
    exact ⟨iha h.1, ihb h.2⟩
  | ifThenElse _ _ _ iha ihb =>
    simp only [boundsFree, Bool.and_eq_true] at h ⊢
    exact ⟨⟨VExpr.likelyBoundedBy_mono he h.1.1, iha h.1.2⟩, ihb h.2⟩
  | store _ _ _ _ | undef => rfl

/-! ### Substitution -/

section Substitute

variable {y : String} {r : VExpr}

namespace VExpr

theorem letNames_substitute (hr : r.letNames = []) (e : VExpr) :
    (substitute y r e).letNames = e.letNames := by
  induction e with
  | var _ n => by_cases h : n = y <;> simp [substitute, letNames, h, hr]
  | letIn n _ _ ihv ihb => by_cases h : n = y <;> simp [substitute, letNames, h, ihv, ihb]
  | _ => simp_all [substitute, letNames]

theorem mem_varNames_substitute {g : String} {e : VExpr} (h : g ∈ (substitute y r e).varNames) :
    g ∈ e.varNames ∨ g ∈ r.varNames := by
  induction e with
  | var _ n => by_cases hn : n = y <;> simp_all [substitute, varNames]
  | intImm _ | boolImm _ => simp [substitute, varNames] at h
  | letIn n v b ihv ihb =>
    simp only [substitute, varNames, List.mem_append] at h ⊢
    split_ifs at h
    · rcases h with h | h
      · exact (ihv h).imp_left .inl
      · exact .inl (.inr h)
    · rcases h with h | h
      · exact (ihv h).imp_left .inl
      · exact (ihb h).imp_left .inr
  | not a ih | likely a ih | broadcast a _ ih | extractLane a _ ih => exact ih h
  | add a b iha ihb | sub a b iha ihb | mul a b iha ihb | div a b iha ihb
  | min a b iha ihb | max a b iha ihb | and a b iha ihb | or a b iha ihb
  | cmp _ a b iha ihb | ramp a b _ iha ihb =>
    simp only [substitute, varNames, List.mem_append] at h ⊢
    rcases h with h | h
    · exact (iha h).imp_left .inl
    · exact (ihb h).imp_left .inr

theorem usesVar_substitute {m : String} {e : VExpr} (h : (substitute y r e).usesVar m = true) :
    e.usesVar m = true ∨ r.usesVar m = true := by
  induction e with
  | var _ n => by_cases hn : n = y <;> simp_all [substitute, usesVar]
  | intImm _ | boolImm _ => simp [substitute, usesVar] at h
  | letIn n v b ihv ihb =>
    simp only [substitute, usesVar, Bool.or_eq_true, Bool.and_eq_true] at h ⊢
    split_ifs at h
    · rcases h with h | h
      · rcases ihv h with h | h <;> simp [h]
      · simp [h]
    · rcases h with h | ⟨hn, h⟩
      · rcases ihv h with h | h <;> simp [h]
      · rcases ihb h with h | h <;> simp [h, hn]
  | not a ih | likely a ih | broadcast a _ ih | extractLane a _ ih => exact ih h
  | add a b iha ihb | sub a b iha ihb | mul a b iha ihb | div a b iha ihb
  | min a b iha ihb | max a b iha ihb | and a b iha ihb | or a b iha ihb
  | cmp _ a b iha ihb | ramp a b _ iha ihb =>
    simp only [substitute, usesVar, Bool.or_eq_true] at h ⊢
    rcases h with h | h
    · rcases iha h with h | h <;> simp [h]
    · rcases ihb h with h | h <;> simp [h]

theorem substitute_of_usesVar {e : VExpr} (h : e.usesVar y = false) : substitute y r e = e := by
  induction e with
  | var _ n =>
    have : n ≠ y := by simpa [usesVar] using h
    simp [substitute, this]
  | letIn n v b ihv ihb =>
    simp only [usesVar, Bool.or_eq_false_iff, Bool.and_eq_false_iff, bne_eq_false_iff_eq] at h
    by_cases hn : n = y
    · simp [substitute, hn, ihv h.1]
    · simp [substitute, hn, ihv h.1, ihb (h.2.resolve_left hn)]
  | _ => simp_all [substitute, usesVar]

theorem scalarBody_substitute (hr : r.scalarBody = true) {e : VExpr} (he : e.scalarBody = true) :
    (substitute y r e).scalarBody = true := by
  induction e with
  | var _ n => by_cases h : n = y <;> simp_all [substitute, scalarBody]
  | letIn n _ _ ihv ihb =>
    simp only [scalarBody, Bool.and_eq_true] at he
    by_cases h : n = y <;> simp_all [substitute, scalarBody]
  | _ => simp_all [substitute, scalarBody]

/-- An expression that reads none of `names` is left as it is by a substitution for one of
them. -/
theorem substitute_of_unread {names : List String} (hy : y ∈ names) {e : VExpr}
    (hv : e.varNames.all (· ∉ names) = true) : substitute y r e = e :=
  substitute_of_usesVar (Bool.eq_false_iff.2 fun hu => by
    simp only [List.all_eq_true, decide_eq_true_eq] at hv
    exact hv y (mem_varNames_of_usesVar hu) hy)

theorem substitute_of_boundedBy {x : String} {names : List String} (hy : y ∈ names) {e : VExpr}
    (he : e.boundedBy x names = true) : substitute y r e = e := by
  simp only [boundedBy, Bool.and_eq_true] at he
  exact substitute_of_unread hy he.1.2

theorem likelyBoundedBy_substitute {x : String} {names : List String} (hy : y ∈ names)
    (hr : r.likelyBoundedBy x names = true) {c : VExpr} (hc : c.likelyBoundedBy x names = true) :
    (substitute y r c).likelyBoundedBy x names = true := by
  cases c
  case likely l =>
    rw [substitute, substitute_of_boundedBy hy hc]
    exact hc
  case var t n =>
    simp only [substitute]
    split
    exacts [hr, rfl]
  all_goals rfl

end VExpr

namespace VStmt

theorem letNames_substitute (hr : r.letNames = []) (s : VStmt) :
    (s.substitute y r).letNames = s.letNames := by
  induction s with
  | letStmt n _ _ ih | forLoop n _ _ _ _ ih =>
    by_cases h : n = y <;> simp [substitute, letNames, h, ih, VExpr.letNames_substitute hr]
  | _ => simp_all [substitute, letNames, VExpr.letNames_substitute hr]

theorem mem_varNames_substitute {g : String} {s : VStmt} (h : g ∈ (s.substitute y r).varNames) :
    g ∈ s.varNames ∨ g ∈ r.varNames := by
  have he {e : VExpr} (h : g ∈ (VExpr.substitute y r e).varNames) :=
    VExpr.mem_varNames_substitute h
  induction s with
  | letStmt n v b ih =>
    simp only [substitute, varNames, List.mem_append] at h ⊢
    rcases h with h | h
    · exact (he h).imp_left .inl
    · split_ifs at h
      exacts [.inl (.inr h), (ih h).imp_left .inr]
  | forLoop n min e _ b ih =>
    simp only [substitute, varNames, List.mem_append] at h ⊢
    rcases h with (h | h) | h
    · exact (he h).imp_left (.inl ∘ .inl)
    · exact (he h).imp_left (.inl ∘ .inr)
    · split_ifs at h
      exacts [.inl (.inr h), (ih h).imp_left .inr]
  | assertStmt c => exact VExpr.mem_varNames_substitute h
  | store _ v i p =>
    simp only [substitute, varNames, List.mem_append] at h ⊢
    rcases h with (h | h) | h
    · exact (he h).imp_left (.inl ∘ .inl)
    · exact (he h).imp_left (.inl ∘ .inr)
    · exact (he h).imp_left .inr
  | block a b iha ihb =>
    simp only [substitute, varNames, List.mem_append] at h ⊢
    rcases h with h | h
    · exact (iha h).imp_left .inl
    · exact (ihb h).imp_left .inr
  | ifThenElse c a b iha ihb =>
    simp only [substitute, varNames, List.mem_append] at h ⊢
    rcases h with (h | h) | h
    · exact (VExpr.mem_varNames_substitute h).imp_left (.inl ∘ .inl)
    · exact (iha h).imp_left (.inl ∘ .inr)
    · exact (ihb h).imp_left .inr
  | undef => cases h

theorem usesVar_substitute {m : String} {s : VStmt} (h : (s.substitute y r).usesVar m = true) :
    s.usesVar m = true ∨ r.usesVar m = true := by
  have he {e : VExpr} (h : (VExpr.substitute y r e).usesVar m = true) := VExpr.usesVar_substitute h
  induction s with
  | letStmt n v b ih =>
    simp only [substitute, usesVar, Bool.or_eq_true, Bool.and_eq_true] at h ⊢
    rcases h with h | ⟨hn, h⟩
    · exact (he h).imp_left .inl
    · split_ifs at h
      exacts [.inl (.inr ⟨hn, h⟩), (ih h).imp_left fun h => .inr ⟨hn, h⟩]
  | forLoop n min e _ b ih =>
    simp only [substitute, usesVar, Bool.or_eq_true, Bool.and_eq_true] at h ⊢
    rcases h with (h | h) | ⟨hn, h⟩
    · exact (he h).imp_left (.inl ∘ .inl)
    · exact (he h).imp_left (.inl ∘ .inr)
    · split_ifs at h
      exacts [.inl (.inr ⟨hn, h⟩), (ih h).imp_left fun h => .inr ⟨hn, h⟩]
  | assertStmt c => exact VExpr.usesVar_substitute h
  | store _ v i p =>
    simp only [substitute, usesVar, Bool.or_eq_true] at h ⊢
    rcases h with (h | h) | h
    · exact (he h).imp_left (.inl ∘ .inl)
    · exact (he h).imp_left (.inl ∘ .inr)
    · exact (he h).imp_left .inr
  | block a b iha ihb =>
    simp only [substitute, usesVar, Bool.or_eq_true] at h ⊢
    rcases h with h | h
    · exact (iha h).imp_left .inl
    · exact (ihb h).imp_left .inr
  | ifThenElse c a b iha ihb =>
    simp only [substitute, usesVar, Bool.or_eq_true] at h ⊢
    rcases h with (h | h) | h
    · exact (VExpr.usesVar_substitute h).imp_left (.inl ∘ .inl)
    · exact (iha h).imp_left (.inl ∘ .inr)
    · exact (ihb h).imp_left .inr
  | undef => cases h

theorem scalarBody_substitute (hr : r.scalarBody = true) {s : VStmt} (hs : s.scalarBody = true) :
    (s.substitute y r).scalarBody = true := by
  induction s with
  | letStmt n _ _ ih | forLoop n _ _ _ _ ih =>
    by_cases h : n = y <;> simp_all [substitute, scalarBody, VExpr.scalarBody_substitute]
  | _ => simp_all [substitute, scalarBody, VExpr.scalarBody_substitute]

/-- Substituting for a name the bounds do not read keeps them as they are. -/
theorem boundsFree_substitute {x : String} {asserted extents : List String} (ha : y ∈ asserted)
    (he : y ∈ extents) (hr : r.letNames = []) (hrl : r.likelyBoundedBy x extents = true)
    {s : VStmt} (h : s.boundsFree x asserted extents = true) :
    (s.substitute y r).boundsFree x asserted extents = true := by
  induction s with
  | letStmt n _ _ ih =>
    simp only [substitute, boundsFree] at h ⊢
    split
    exacts [h, ih h]
  | assertStmt c =>
    simp only [boundsFree, Bool.and_eq_true] at h
    simpa only [substitute, boundsFree, VExpr.substitute_of_unread ha h.2, Bool.and_eq_true]
      using h
  | forLoop n min e _ b ih =>
    simp only [boundsFree, Bool.and_eq_true] at h
    have hm : (VExpr.substitute y r min).letNames = [] := by
      rw [VExpr.letNames_substitute hr]
      simpa using h.1.1
    have hb : (if n = y then b else b.substitute y r).boundsFree x asserted extents = true := by
      split
      exacts [h.2, ih h.2]
    simp only [substitute, boundsFree, VExpr.substitute_of_boundedBy he h.1.2, hm, hb, h.1.2,
      List.isEmpty_nil, Bool.and_self]
  | block _ _ iha ihb =>
    simp only [boundsFree, Bool.and_eq_true] at h
    simp only [substitute, boundsFree, iha h.1, ihb h.2, Bool.and_self]
  | ifThenElse c _ _ iha ihb =>
    simp only [boundsFree, Bool.and_eq_true] at h
    simp only [substitute, boundsFree, VExpr.likelyBoundedBy_substitute he hrl h.1.1, iha h.1.2,
      ihb h.2, Bool.and_self]
  | store _ _ _ _ | undef => rfl

end VStmt

end Substitute

/-! ### The discipline -/

namespace VectorSubs

/-- `g` is a name `VectorSubs` builds from the name `n`: the widened name `n.x4`, or a name
extending it (`n.x4.lane.i`, `n.x4.min_lane`, `n.x4.max_lane`). -/
def Derived (vs : VectorSubs) (n g : String) : Prop := (n ++ vs.wideningSuffix).data <+: g.data

instance (vs : VectorSubs) (n g : String) : Decidable (vs.Derived n g) :=
  inferInstanceAs (Decidable (List.IsPrefix _ _))

theorem derived_self (vs : VectorSubs) (n : String) : vs.Derived n (n ++ vs.wideningSuffix) :=
  List.prefix_refl _

/-- What `VectorSubs` needs of the names of a statement `s` of the body, under the widened
`LetStmt`s `scope` and their original bindings `containing`. The protected names are the
binders of `s` and the names in `scope`. -/
structure StmtHygienic (vs : VectorSubs) (scope containing : List (String × VExpr)) (s : VStmt) :
    Prop where
  /-- The binders of `s` are distinct, -/
  nodup : s.letNames.Nodup
  /-- are not the loop variable, -/
  loopVar : vs.var ∉ s.letNames
  /-- and are read only in their scope. -/
  fresh : ∀ n ∈ s.letNames, s.usesVar n = false
  /-- `s` binds no name in scope; -/
  outOfScope : ∀ k ∈ scope.map Prod.fst, k ∉ s.letNames
  /-- `containing` binds the names in `scope`, the outermost first. -/
  keys : containing.map Prod.fst = (scope.map Prod.fst).reverse
  /-- No name of `s`, of `scope`, nor the loop variable is derived from a protected name, -/
  underived : ∀ n ∈ s.letNames ++ scope.map Prod.fst,
    ∀ g ∈ vs.var :: (s.varNames ++ s.letNames ++ scope.map Prod.fst), ¬ vs.Derived n g
  /-- and the widened name of a protected name is derived from it alone. -/
  widened : ∀ n ∈ s.letNames ++ scope.map Prod.fst, ∀ k ∈ s.letNames ++ scope.map Prod.fst,
    vs.Derived n (k ++ vs.wideningSuffix) → n = k
  /-- The replacement reads neither a binder of `s` nor a derived name. -/
  replacement : ∀ g ∈ vs.replacement.varNames,
    g ∉ s.letNames ∧ ∀ n ∈ s.letNames ++ scope.map Prod.fst, ¬ vs.Derived n g
  /-- The original bindings are scalar and read neither a binder of `s` nor a derived name. -/
  originals : ∀ l ∈ containing, l.2.scalarBody = true ∧
    ∀ g ∈ l.2.varNames, g ∉ s.letNames ∧
      ∀ n ∈ s.letNames ++ scope.map Prod.fst, ¬ vs.Derived n g
  /-- Assertions read neither the loop variable, nor a name in scope, nor a binder of `s`;
  loop extents and the arguments of `likely` conditions read neither a name in scope nor a
  binder of `s`, and take exact rules once the loop variable is a vector. -/
  bounds : s.boundsFree vs.var (vs.var :: (scope.map Prod.fst ++ s.letNames))
    (scope.map Prod.fst ++ s.letNames) = true

/-- Bounds that hold with the binders of a statement hold with fewer binders, those of one
of its parts. -/
theorem VStmt.boundsFree_sub {x : String} {scope names names' : List String}
    (hl : names' ⊆ names) {t : VStmt} (hb : t.boundsFree x (x :: (scope ++ names)) (scope ++ names) = true) :
    t.boundsFree x (x :: (scope ++ names')) (scope ++ names') = true := by
  refine VStmt.boundsFree_mono (fun m hm => ?_) (fun m hm => ?_) hb <;>
    simp only [List.mem_cons, List.mem_append] at hm ⊢
  · exact hm.imp_right (Or.imp_right fun h => hl h)
  · exact hm.imp_right fun h => hl h

namespace StmtHygienic

variable {vs : VectorSubs} {scope containing : List (String × VExpr)} {s : VStmt}

/-- The discipline holds of a statement `t` under the same `LetStmt`s that binds a sublist
of the binders of `s`, reads names of `s`, and keeps the bounds with its own binders. -/
theorem part_of_bounds (h : vs.StmtHygienic scope containing s) {t : VStmt}
    (hl : t.letNames.Sublist s.letNames)
    (hv : ∀ g ∈ t.varNames, g ∈ s.varNames ∨ g ∈ s.letNames)
    (hf : ∀ n ∈ t.letNames, t.usesVar n = false)
    (hb : t.boundsFree vs.var (vs.var :: (scope.map Prod.fst ++ t.letNames))
      (scope.map Prod.fst ++ t.letNames) = true) :
    vs.StmtHygienic scope containing t := by
  have hP : ∀ n ∈ t.letNames ++ scope.map Prod.fst, n ∈ s.letNames ++ scope.map Prod.fst := by
    simp only [List.mem_append]
    exact fun n => Or.imp_left fun h => hl.subset h
  refine ⟨h.nodup.sublist hl, fun hx => h.loopVar (hl.subset hx), hf,
    fun k hk hkt => h.outOfScope k hk (hl.subset hkt), h.keys, fun n hn g hg => ?_,
    fun n hn k hk => h.widened n (hP n hn) k (hP k hk),
    fun g hg => ⟨fun hgt => (h.replacement g hg).1 (hl.subset hgt),
      fun n hn => (h.replacement g hg).2 n (hP n hn)⟩,
    fun l hl' => ⟨(h.originals l hl').1, fun g hg => ⟨fun hgt => ((h.originals l hl').2 g hg).1
      (hl.subset hgt), fun n hn => ((h.originals l hl').2 g hg).2 n (hP n hn)⟩⟩, hb⟩
  · apply h.underived n (hP n hn) g
    simp only [List.mem_cons, List.mem_append] at hg ⊢
    rcases hg with hg | (hg | hg) | hg
    · exact .inl hg
    · exact .inr (.inl (hv g hg))
    · exact .inr (.inl (.inr (hl.subset hg)))
    · exact .inr (.inr hg)

/-- The discipline holds of a part `t` of `s` under the same `LetStmt`s: `t` binds a
sublist of the binders of `s` and reads names of `s`. -/
theorem part (h : vs.StmtHygienic scope containing s) {t : VStmt}
    (hl : t.letNames.Sublist s.letNames)
    (hv : ∀ g ∈ t.varNames, g ∈ s.varNames ∨ g ∈ s.letNames)
    (hf : ∀ n ∈ t.letNames, t.usesVar n = false)
    (hb : t.boundsFree vs.var (vs.var :: (scope.map Prod.fst ++ s.letNames))
      (scope.map Prod.fst ++ s.letNames) = true) :
    vs.StmtHygienic scope containing t :=
  h.part_of_bounds hl hv hf (VStmt.boundsFree_sub hl.subset hb)

/-- The discipline gives the expression-level one for an expression of `s`. -/
theorem expr (h : vs.StmtHygienic scope containing s) {e : VExpr}
    (hl : e.letNames.Sublist s.letNames) (hv : ∀ g ∈ e.varNames, g ∈ s.varNames) :
    vs.Hygienic scope e := by
  have hname : ∀ g ∈ e.varNames ++ e.letNames, g ∈ vs.var :: (s.varNames ++ s.letNames ++
      scope.map Prod.fst) := by
    simp only [List.mem_append, List.mem_cons]
    exact fun g hg => .inr (.inl (hg.imp (hv g) fun h => hl.subset h))
  refine ⟨h.nodup.sublist hl, fun hx => h.loopVar (hl.subset hx), fun n hn hw => ?_,
    fun n hn => ⟨Bool.eq_false_iff.2 fun hu => ?_, Bool.eq_false_iff.2 fun hu => ?_⟩,
    fun k hk => ⟨fun hke => h.outOfScope k hk (hl.subset hke), fun hw => ?_⟩⟩
  · exact h.underived n (List.mem_append_left _ (hl.subset hn)) _ (hname _ hw) (derived_self _ _)
  · exact (h.replacement n (VExpr.mem_varNames_of_usesVar hu)).1 (hl.subset hn)
  · exact (h.replacement _ (VExpr.mem_varNames_of_usesVar hu)).2 n
      (List.mem_append_left _ (hl.subset hn)) (derived_self _ _)
  · exact h.underived k (List.mem_append_right _ hk) _ (hname _ hw) (derived_self _ _)

section Parts

variable {n : String} {v : VExpr} {b : VStmt}

theorem letBody (h : vs.StmtHygienic scope containing (.letStmt n v b)) :
    vs.StmtHygienic scope containing b := by
  have hn := List.nodup_cons.1 h.nodup
  refine h.part ((List.sublist_append_right _ _).cons n)
    (fun g hg => .inl (List.mem_append_right _ hg)) (fun m hm => ?_) h.bounds
  have := h.fresh m (List.mem_cons_of_mem _ (List.mem_append_right _ hm))
  have hnm : n ≠ m := fun he => hn.1 (he ▸ List.mem_append_right _ hm)
  simp_all [VStmt.usesVar]

/-- Under a `LetStmt` whose value was widened to `v'`: its name joins `scope`, and its
original binding `containing`. -/
theorem widenedBody (h : vs.StmtHygienic scope containing (.letStmt n v b))
    (hv : v.scalarBody = true) (v' : VExpr) :
    vs.StmtHygienic ((n, v') :: scope) (containing ++ [(n, v)]) b := by
  have hb := h.letBody
  have hn := List.nodup_cons.1 h.nodup
  have hP : ∀ m ∈ b.letNames ++ ((n, v') :: scope).map Prod.fst,
      m ∈ (VStmt.letStmt n v b).letNames ++ scope.map Prod.fst := by
    simp only [VStmt.letNames, List.map_cons, List.mem_append, List.mem_cons]
    rintro m (hm | hm | hm)
    exacts [.inl (.inr (.inr hm)), .inl (.inl hm), .inr hm]
  have hvb : ∀ g ∈ v.varNames, g ∉ b.letNames := fun g hg hgb => by
    have hu := VExpr.usesVar_of_mem_varNames hg fun hgv =>
      (List.nodup_append.1 hn.2).2.2 hgv hgb
    have := h.fresh g (by simp [VStmt.letNames, hgb])
    simp [VStmt.usesVar, hu] at this
  refine ⟨hb.nodup, hb.loopVar, hb.fresh, ?_, ?_, fun m hm g hg => h.underived m (hP m hm) g ?_,
    fun m hm k hk => h.widened m (hP m hm) k (hP k hk),
    fun g hg => ⟨(hb.replacement g hg).1, fun m hm => (h.replacement g hg).2 m (hP m hm)⟩, ?_,
    VStmt.boundsFree_mono ?_ ?_ h.bounds⟩
  · simp only [List.map_cons, List.mem_cons, forall_eq_or_imp]
    exact ⟨fun hnb => hn.1 (List.mem_append_right _ hnb), hb.outOfScope⟩
  · simp [h.keys]
  · simp only [VStmt.letNames, VStmt.varNames, List.map_cons, List.mem_cons,
      List.mem_append] at hg ⊢
    rcases hg with hg | (hg | hg) | hg | hg
    exacts [.inl hg, .inr (.inl (.inl (.inr hg))), .inr (.inl (.inr (.inr (.inr hg)))),
      .inr (.inl (.inr (.inl hg))), .inr (.inr hg)]
  · simp only [List.mem_append, List.mem_singleton]
    rintro l (hl | rfl)
    · exact ⟨(h.originals l hl).1, fun g hg => ⟨fun hgb => ((h.originals l hl).2 g hg).1
        (by simp [VStmt.letNames, hgb]), fun m hm => ((h.originals l hl).2 g hg).2 m
        (hP m (List.mem_append.2 hm))⟩⟩
    · refine ⟨hv, fun g hg => ⟨hvb g hg, fun m hm =>
        h.underived m (hP m (List.mem_append.2 hm)) g ?_⟩⟩
      simp [VStmt.varNames, hg]
  · simp only [VStmt.letNames, List.map_cons, List.mem_cons, List.mem_append]
    rintro m (hm | (hm | hm) | hm)
    exacts [.inl hm, .inr (.inr (.inl hm)), .inr (.inl hm), .inr (.inr (.inr (.inr hm)))]
  · simp only [VStmt.letNames, List.map_cons, List.mem_cons, List.mem_append]
    rintro m ((hm | hm) | hm)
    exacts [.inr (.inl hm), .inl hm, .inr (.inr (.inr hm))]

end Parts

theorem forBody {y : String} {min extent : VExpr} {ft : ForType} {b : VStmt}
    (h : vs.StmtHygienic scope containing (.forLoop y min extent ft b)) :
    vs.StmtHygienic scope containing b := by
  have hn := List.nodup_cons.1 h.nodup
  refine h.part ((List.sublist_append_right _ _).cons y)
    (fun g hg => .inl (List.mem_append_right _ hg)) (fun m hm => ?_) ?_
  · have := h.fresh m (List.mem_cons_of_mem _ (List.mem_append_right _ hm))
    have hnm : y ≠ m := fun he => hn.1 (he ▸ List.mem_append_right _ hm)
    simp_all [VStmt.usesVar]
  · have := h.bounds
    simp only [VStmt.boundsFree, Bool.and_eq_true] at this
    exact this.2

theorem left {a b : VStmt} (h : vs.StmtHygienic scope containing (.block a b)) :
    vs.StmtHygienic scope containing a := by
  refine h.part (List.sublist_append_left _ _) (fun g hg => .inl (List.mem_append_left _ hg))
    (fun m hm => ?_) ?_
  · have := h.fresh m (List.mem_append_left _ hm)
    simp_all [VStmt.usesVar]
  · have := h.bounds
    simp only [VStmt.boundsFree, Bool.and_eq_true] at this
    exact this.1

theorem right {a b : VStmt} (h : vs.StmtHygienic scope containing (.block a b)) :
    vs.StmtHygienic scope containing b := by
  refine h.part (List.sublist_append_right _ _) (fun g hg => .inl (List.mem_append_right _ hg))
    (fun m hm => ?_) ?_
  · have := h.fresh m (List.mem_append_right _ hm)
    simp_all [VStmt.usesVar]
  · have := h.bounds
    simp only [VStmt.boundsFree, Bool.and_eq_true] at this
    exact this.2

theorem thenCase {c : VExpr} {a b : VStmt}
    (h : vs.StmtHygienic scope containing (.ifThenElse c a b)) :
    vs.StmtHygienic scope containing a := by
  refine h.part ((List.sublist_append_right _ _).trans (List.sublist_append_left _ _))
    (fun g hg => .inl (by simp [VStmt.varNames, hg])) (fun m hm => ?_) ?_
  · have := h.fresh m (by simp [VStmt.letNames, hm])
    simp_all [VStmt.usesVar]
  · have := h.bounds
    simp only [VStmt.boundsFree, Bool.and_eq_true] at this
    exact this.1.2

theorem elseCase {c : VExpr} {a b : VStmt}
    (h : vs.StmtHygienic scope containing (.ifThenElse c a b)) :
    vs.StmtHygienic scope containing b := by
  refine h.part (List.sublist_append_right _ _) (fun g hg => .inl (by simp [VStmt.varNames, hg]))
    (fun m hm => ?_) ?_
  · have := h.fresh m (by simp [VStmt.letNames, hm])
    simp_all [VStmt.usesVar]
  · have := h.bounds
    simp only [VStmt.boundsFree, Bool.and_eq_true] at this
    exact this.2

/-- The body the `For` visitor guards when the loop's extent became a vector,
`if (likely(y < min + extent)) body`, keeps the discipline when `min` reads no widened
`LetStmt` (the loop is not rebased): it reads the loop's variable and bounds, and binds what
the loop's body binds. -/
theorem guarded {y : String} {min extent : VExpr} {ft : ForType} {b : VStmt}
    (h : vs.StmtHygienic scope containing (.forLoop y min extent ft b))
    (hmin : ∀ g ∈ min.varNames, g ∉ scope.map Prod.fst) :
    vs.StmtHygienic scope containing
      (.ifThenElse (.likely (.cmp .lt (.var ⟨.int, 1⟩ y) (.add min extent))) b .undef) := by
  have hn := List.nodup_cons.1 h.nodup
  have hbd := h.bounds
  simp only [VStmt.boundsFree, Bool.and_eq_true] at hbd
  refine h.part_of_bounds ?_ (fun g hg => ?_) (fun m hm => ?_) ?_
  · simp only [VStmt.letNames, VExpr.letNames, List.nil_append, List.append_nil,
      List.append_assoc]
    exact (List.Sublist.refl _).cons y
  · simp only [VStmt.varNames, VExpr.varNames, List.singleton_append,
      List.append_nil, List.mem_append, List.mem_cons] at hg
    rcases hg with (rfl | hg | hg) | hg
    · exact .inr (List.mem_cons_self _ _)
    all_goals exact .inl (by simp [VStmt.varNames, hg])
  · simp only [VStmt.letNames, VExpr.letNames, List.nil_append,
      List.append_nil] at hm
    have hm' : m ∈ (VStmt.forLoop y min extent ft b).letNames := List.mem_cons_of_mem _ hm
    have hym : y ≠ m := fun he => hn.1 (he ▸ hm)
    have hf := h.fresh m hm'
    simp only [VStmt.usesVar, Bool.or_eq_false_iff, Bool.and_eq_false_iff,
      bne_eq_false_iff_eq] at hf
    simp only [VStmt.usesVar, VExpr.usesVar, beq_eq_false_iff_ne.2 hym, hf.1.1,
      hf.1.2, hf.2.resolve_left hym, Bool.or_self]
  · -- the guard reads `y`, which `b` does not bind, and the loop's bounds
    have hmin0 : min.letNames = [] := List.isEmpty_iff.1 hbd.1.1
    have hext := hbd.1.2
    simp only [VExpr.boundedBy, Bool.and_eq_true, List.isEmpty_iff, List.all_eq_true,
      decide_eq_true_eq] at hext
    have hyb : y ∉ b.letNames := fun hy => hn.1 (List.mem_append_right _ hy)
    have hys : y ∉ scope.map Prod.fst := fun hy => h.outOfScope y hy (List.mem_cons_self _ _)
    have hmb : ∀ g ∈ min.varNames, g ∉ b.letNames := fun g hg hgb => by
      have := h.fresh g (List.mem_cons_of_mem _ (List.mem_append_right _ hgb))
      simp [VStmt.usesVar, VExpr.usesVar_of_mem_varNames hg (by simp [hmin0])] at this
    simp only [VStmt.boundsFree, VExpr.likelyBoundedBy, VExpr.boundedBy, VExpr.exactOver,
      VStmt.letNames, VExpr.letNames, hmin0, hext.1.1, List.nil_append, List.append_nil,
      List.isEmpty_nil, Bool.true_and, Bool.and_true, List.all_eq_true, decide_eq_true_eq,
      Bool.and_eq_true]
    refine ⟨fun g hg => ?_, VStmt.boundsFree_sub (fun g hg => ?_) hbd.2⟩
    · simp only [VExpr.varNames, List.singleton_append, List.mem_cons, List.mem_append] at hg
      simp only [List.mem_append, not_or]
      rcases hg with rfl | hg | hg
      · exact ⟨hys, hyb⟩
      · exact ⟨hmin g hg, hmb g hg⟩
      · have := hext.1.2 g hg
        simp only [VStmt.letNames, List.mem_append, List.mem_cons, not_or] at this
        exact ⟨this.1, this.2.2.2⟩
    · simp [VStmt.letNames, hmin0, hext.1.1, hg]

/-- The loop rebased by the `For` visitor, `For(y, 0, extent, body[y := y + min])`, keeps
the discipline: its `min` has no `Let`, so it binds what the loop bound. -/
theorem rebase {y : String} {min extent : VExpr} {ft : ForType} {b : VStmt}
    (h : vs.StmtHygienic scope containing (.forLoop y min extent ft b)) (ft' : ForType) :
    vs.StmtHygienic scope containing
      (.forLoop y (.intImm 0) extent ft' (b.substitute y (.add (.var ⟨.int, 1⟩ y) min))) := by
  have hbd := h.bounds
  simp only [VStmt.boundsFree, Bool.and_eq_true, List.isEmpty_iff] at hbd
  have hr : (VExpr.add (.var ⟨.int, 1⟩ y) min).letNames = [] := by
    simp [VExpr.letNames, hbd.1.1]
  have hl : (VStmt.forLoop y (.intImm 0) extent ft'
      (b.substitute y (.add (.var ⟨.int, 1⟩ y) min))).letNames =
      (VStmt.forLoop y min extent ft b).letNames := by
    simp [VStmt.letNames, VStmt.letNames_substitute hr, VExpr.letNames, hbd.1.1]
  have hfr := h.fresh
  simp only [VStmt.letNames, VStmt.usesVar, Bool.or_eq_false_iff, Bool.and_eq_false_iff,
    bne_eq_false_iff_eq] at hfr
  refine h.part (hl ▸ List.Sublist.refl _) (fun g hg => ?_) (fun m hm => ?_) ?_
  · simp only [VStmt.varNames, VExpr.varNames, List.nil_append, List.mem_append] at hg
    rcases hg with hg | hg
    · simp [VStmt.varNames, hg]
    · rcases VStmt.mem_varNames_substitute hg with hg | hg
      · simp [VStmt.varNames, hg]
      · simp only [VExpr.varNames, List.mem_append, List.mem_singleton] at hg
        rcases hg with rfl | hg
        · simp [VStmt.letNames]
        · simp [VStmt.varNames, hg]
  · rw [hl] at hm
    have hn := List.nodup_cons.1 h.nodup
    have hf := hfr m hm
    simp only [VStmt.usesVar, VExpr.usesVar, Bool.false_or, Bool.or_eq_false_iff,
      Bool.and_eq_false_iff, bne_eq_false_iff_eq]
    refine ⟨hf.1.2, ?_⟩
    rcases List.mem_cons.1 hm with rfl | hm'
    · exact .inl rfl
    · have hym : y ≠ m := fun he => hn.1 (he ▸ hm')
      refine .inr (Bool.eq_false_iff.2 fun hu => ?_)
      rcases VStmt.usesVar_substitute hu with hu | hu
      · simp [(hf.2.resolve_left hym)] at hu
      · simp [VExpr.usesVar, hf.1.1, hym] at hu
  · simp only [VStmt.boundsFree, VExpr.letNames, List.isEmpty_nil, Bool.true_and,
      Bool.and_eq_true]
    exact ⟨hbd.1.2, VStmt.boundsFree_substitute (by simp [VStmt.letNames])
      (by simp [VStmt.letNames]) hr rfl hbd.2⟩

end StmtHygienic

end VectorSubs

end HalideSchedule.Vectorize
