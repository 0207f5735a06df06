import HalideSchedule.Vectorize.Hygiene

/-!
# HalideSchedule.Vectorize.StmtSemantics

**What the meaning of a statement depends on.** The facts about `VStmt.exec` the
correctness of `VectorSubs` is built from:

* a scalar statement reads lane `0` of the variables only (`VStmt.exec_congr`), and no
  variable it does not use (`VStmt.exec_bind_of_usesVar`);
* substitution is binding (`VStmt.exec_substitute`), which is why rebasing a loop keeps
  its meaning;
* `restore` rebuilds the environment of iteration `i` of the loop from an environment of
  the vectorized code, as `scalarize` does (`VectorSubs.exec_wrapLets`), and the invariant
  `VectorSubs.Inv` relates the two at every lane (`Agree` of `Vectorize.VectorSubs`); it
  survives binding a fresh name (`Inv.bind_fresh`) and a widened `LetStmt`
  (`Inv.bind_widened`).
-/

namespace HalideSchedule.Vectorize

@[simp] theorem Env.bind_self (env : Env) (x : String) (v : Nat → Val) : env.bind x v x = v := by
  simp [Env.bind]

/-! ### Lane `0` -/

theorem VExpr.eval_congr {env₁ env₂ : Env} {e : VExpr} (he : e.scalarBody = true)
    (h : ∀ m ∈ e.varNames, env₁ m 0 = env₂ m 0) : e.eval env₁ 0 = e.eval env₂ 0 := by
  induction e generalizing env₁ env₂ with
  | intImm _ | boolImm _ => rfl
  | var _ n => exact h n (List.mem_singleton_self _)
  | add a b iha ihb | sub a b iha ihb | mul a b iha ihb | div a b iha ihb
  | min a b iha ihb | max a b iha ihb | and a b iha ihb | or a b iha ihb
  | cmp _ a b iha ihb =>
    simp only [scalarBody, Bool.and_eq_true] at he
    simp only [varNames, List.mem_append] at h
    simp only [eval, iha he.1 fun m hm => h m (.inl hm), ihb he.2 fun m hm => h m (.inr hm)]
  | not a ih | likely a ih => simp only [eval, ih he h]
  | letIn n v b ihv ihb =>
    simp only [scalarBody, Bool.and_eq_true] at he
    simp only [varNames, List.mem_append] at h
    refine ihb he.2 fun m hm => ?_
    by_cases hmn : m = n
    · simp [Env.bind, hmn, ihv he.1 fun m hm => h m (.inl hm)]
    · simp [Env.bind, hmn, h m (.inr hm)]
  | ramp _ _ _ _ _ | broadcast _ _ _ | extractLane _ _ _ => cases he

theorem VStmt.exec_congr {s : VStmt} (hs : s.scalarBody = true) :
    ∀ {env₁ env₂ : Env}, (∀ m, env₁ m 0 = env₂ m 0) → s.exec env₁ = s.exec env₂ := by
  induction s with
  | letStmt n v b ih =>
    intro env₁ env₂ h
    simp only [scalarBody, Bool.and_eq_true] at hs
    refine ih hs.2 fun m => ?_
    by_cases hm : m = n
    · simp [Env.bind, hm, VExpr.eval_congr hs.1 fun m _ => h m]
    · simp [Env.bind, hm, h m]
  | assertStmt c =>
    intro env₁ env₂ h
    simp [exec, VExpr.eval_congr hs fun m _ => h m]
  | store name v i p =>
    intro env₁ env₂ h
    simp only [scalarBody, Bool.and_eq_true] at hs
    simp only [exec, VExpr.scalarBody_lanes hs.1.1, Option.some.injEq]
    refine List.flatMap_congr fun j hj => ?_
    obtain rfl : j = 0 := by simpa using hj
    simp only [storeLane, VExpr.eval_congr hs.1.1 fun m _ => h m,
      VExpr.eval_congr hs.1.2 fun m _ => h m, VExpr.eval_congr hs.2 fun m _ => h m]
  | forLoop n min e _ b ih =>
    intro env₁ env₂ h
    simp only [scalarBody, Bool.and_eq_true] at hs
    simp only [exec, VExpr.eval_congr hs.1.1 fun m _ => h m, VExpr.eval_congr hs.1.2 fun m _ => h m]
    congr 1
    funext j
    exact ih hs.2 fun m => by by_cases hm : m = n <;> simp [Env.bind, hm, h m]
  | block a b iha ihb =>
    intro env₁ env₂ h
    simp only [scalarBody, Bool.and_eq_true] at hs
    simp only [exec, iha hs.1 h, ihb hs.2 h]
  | ifThenElse c a b iha ihb =>
    intro env₁ env₂ h
    simp only [scalarBody, Bool.and_eq_true] at hs
    simp only [exec, VExpr.eval_congr hs.1.1 fun m _ => h m, iha hs.1.2 h, ihb hs.2 h]
  | undef => intros; rfl

/-! ### Unused names -/

theorem VStmt.exec_bind_of_usesVar {x : String} (w : Nat → Val) {s : VStmt} :
    ∀ {env : Env}, s.usesVar x = false → s.exec (env.bind x w) = s.exec env := by
  induction s with
  | letStmt n v b ih =>
    intro env h
    simp only [usesVar, Bool.or_eq_false_iff, Bool.and_eq_false_iff, bne_eq_false_iff_eq] at h
    simp only [exec, funext (VExpr.eval_bind_of_usesVar w h.1)]
    by_cases hn : n = x
    · subst hn; rw [Env.bind_bind_self]
    · rw [Env.bind_comm env (Ne.symm hn)]
      exact ih (h.2.resolve_left hn)
  | forLoop n min e _ b ih =>
    intro env h
    simp only [usesVar, Bool.or_eq_false_iff, Bool.and_eq_false_iff, bne_eq_false_iff_eq] at h
    simp only [exec, VExpr.eval_bind_of_usesVar w h.1.1, VExpr.eval_bind_of_usesVar w h.1.2]
    congr 1
    funext j
    by_cases hn : n = x
    · subst hn; rw [Env.bind_bind_self]
    · rw [Env.bind_comm env (Ne.symm hn)]
      exact ih (h.2.resolve_left hn)
  | assertStmt c => intro env h; simp [exec, VExpr.eval_bind_of_usesVar w h]
  | store name v i p =>
    intro env h
    simp only [usesVar, Bool.or_eq_false_iff] at h
    have : storeLane (env.bind x w) name v i p = storeLane env name v i p := funext fun j => by
      simp only [storeLane, VExpr.eval_bind_of_usesVar w h.1.1, VExpr.eval_bind_of_usesVar w h.1.2,
        VExpr.eval_bind_of_usesVar w h.2]
    simp only [exec, this]
  | block a b iha ihb =>
    intro env h
    simp only [usesVar, Bool.or_eq_false_iff] at h
    simp only [exec, iha h.1, ihb h.2]
  | ifThenElse c a b iha ihb =>
    intro env h
    simp only [usesVar, Bool.or_eq_false_iff] at h
    simp only [exec, VExpr.eval_bind_of_usesVar w h.1.1, iha h.1.2, ihb h.2]
  | undef => intros; rfl

/-! ### Substitution is binding -/

section Substitute

variable {y : String} {r : VExpr}

theorem VExpr.eval_substitute {e : VExpr} :
    ∀ {env : Env}, (∀ n ∈ e.letNames, r.usesVar n = false) →
      ∀ i, (substitute y r e).eval env i = e.eval (env.bind y (r.eval env)) i := by
  induction e with
  | var _ n => intro env _ i; by_cases h : n = y <;> simp [substitute, eval, Env.bind, h]
  | intImm _ | boolImm _ => intros; rfl
  | add a b iha ihb | sub a b iha ihb | mul a b iha ihb | div a b iha ihb
  | min a b iha ihb | max a b iha ihb | and a b iha ihb | or a b iha ihb
  | cmp _ a b iha ihb | ramp a b _ iha ihb =>
    intro env h i
    simp only [letNames, List.mem_append] at h
    simp only [substitute, eval, iha (fun n hn => h n (.inl hn)), ihb (fun n hn => h n (.inr hn))]
  | not a ih | likely a ih | broadcast a _ ih | extractLane a _ ih =>
    intro env h i
    simp only [substitute, eval, ih h]
  | letIn n v b ihv ihb =>
    intro env h i
    simp only [letNames, List.mem_cons, List.mem_append] at h
    have hv : (substitute y r v).eval env = v.eval (env.bind y (r.eval env)) :=
      funext (ihv fun n hn => h n (.inr (.inl hn)))
    simp only [substitute, eval, hv]
    split_ifs with hn
    · subst hn; rw [Env.bind_bind_self]
    · rw [ihb (fun n hn => h n (.inr (.inr hn))), Env.bind_comm env (Ne.symm hn),
        funext (VExpr.eval_bind_of_usesVar _ (h n (.inl rfl)))]

/-- Executing a scalar statement with `r` substituted for `y` is executing it with `y`
bound to `r`, when none of its binders captures a name of `r`. -/
theorem VStmt.exec_substitute (hr : r.scalarBody = true) {s : VStmt} (hs : s.scalarBody = true) :
    ∀ {env : Env}, (∀ n ∈ s.letNames, r.usesVar n = false) →
      (s.substitute y r).exec env = s.exec (env.bind y (r.eval env)) := by
  induction s with
  | letStmt n v b ih =>
    intro env h
    simp only [scalarBody, Bool.and_eq_true] at hs
    simp only [letNames, List.mem_cons, List.mem_append] at h
    have hv : (VExpr.substitute y r v).eval env = v.eval (env.bind y (r.eval env)) :=
      funext (VExpr.eval_substitute fun n hn => h n (.inr (.inl hn)))
    simp only [substitute, exec, hv]
    split_ifs with hn
    · subst hn; rw [Env.bind_bind_self]
    · rw [ih hs.2 fun n hn => h n (.inr (.inr hn)), Env.bind_comm env (Ne.symm hn),
        funext (VExpr.eval_bind_of_usesVar _ (h n (.inl rfl)))]
  | forLoop n min e _ b ih =>
    intro env h
    simp only [scalarBody, Bool.and_eq_true] at hs
    simp only [letNames, List.mem_cons, List.mem_append] at h
    simp only [substitute, exec, VExpr.eval_substitute fun n hn => h n (.inr (.inl (.inl hn))),
      VExpr.eval_substitute fun n hn => h n (.inr (.inl (.inr hn)))]
    congr 1
    funext j
    split_ifs with hn
    · subst hn; rw [Env.bind_bind_self]
    · rw [ih hs.2 fun n hn => h n (.inr (.inr hn)), Env.bind_comm env (Ne.symm hn),
        funext (VExpr.eval_bind_of_usesVar _ (h n (.inl rfl)))]
  | assertStmt c =>
    intro env h
    simp only [substitute, exec, VExpr.eval_substitute h]
  | store name v i p =>
    intro env h
    simp only [scalarBody, Bool.and_eq_true] at hs
    simp only [letNames, List.mem_append] at h
    have hlane : storeLane env name (VExpr.substitute y r v) (VExpr.substitute y r i)
        (VExpr.substitute y r p) = storeLane (env.bind y (r.eval env)) name v i p :=
      funext fun j => by
        simp only [storeLane, VExpr.eval_substitute fun n hn => h n (.inl (.inl hn)),
          VExpr.eval_substitute fun n hn => h n (.inl (.inr hn)),
          VExpr.eval_substitute fun n hn => h n (.inr hn)]
    simp only [substitute, exec, VExpr.scalarBody_lanes hs.1.1,
      VExpr.scalarBody_lanes (VExpr.scalarBody_substitute hr hs.1.1), hlane]
  | block a b iha ihb =>
    intro env h
    simp only [scalarBody, Bool.and_eq_true] at hs
    simp only [letNames, List.mem_append] at h
    simp only [substitute, exec, iha hs.1 fun n hn => h n (.inl hn),
      ihb hs.2 fun n hn => h n (.inr hn)]
  | ifThenElse c a b iha ihb =>
    intro env h
    simp only [scalarBody, Bool.and_eq_true] at hs
    simp only [letNames, List.mem_append] at h
    simp only [substitute, exec, VExpr.eval_substitute fun n hn => h n (.inl (.inl hn)),
      iha hs.1.2 fun n hn => h n (.inl (.inr hn)), ihb hs.2 fun n hn => h n (.inr hn)]
  | undef => intros; rfl

end Substitute

/-! ### The iterations, rebuilt -/

namespace VectorSubs

/-- One original `LetStmt` rebound. -/
def rebind (env : Env) (l : String × VExpr) : Env := env.bind l.1 (l.2.eval env)

theorem exec_wrapLets (containing : List (String × VExpr)) (s : VStmt) (env : Env) :
    (wrapLets containing s).exec env = s.exec (containing.foldl rebind env) := by
  induction containing generalizing env with
  | nil => rfl
  | cons l c ih => exact ih _

/-- The environment of iteration `i`, rebuilt from an environment `σ` of the vectorized
code: the loop variable at lane `i` of the replacement, then the original values of the
widened `LetStmt`s around, the outermost first. `scalarize` runs its statement in it. -/
def restore (vs : VectorSubs) (containing : List (String × VExpr)) (σ : Env) (i : Nat) : Env :=
  containing.foldl rebind (vs.atLane σ i)

theorem restore_append (vs : VectorSubs) (containing : List (String × VExpr)) (n : String)
    (v : VExpr) (σ : Env) (i : Nat) :
    vs.restore (containing ++ [(n, v)]) σ i =
      (vs.restore containing σ i).bind n (v.eval (vs.restore containing σ i)) := by
  simp [restore, List.foldl_append, rebind]

theorem foldl_rebind_bind {m : String} (w : Nat → Val) {containing : List (String × VExpr)}
    (h : ∀ l ∈ containing, l.1 ≠ m ∧ l.2.usesVar m = false) (env : Env) :
    containing.foldl rebind (env.bind m w) = (containing.foldl rebind env).bind m w := by
  induction containing generalizing env with
  | nil => rfl
  | cons l c ih =>
    simp only [List.foldl_cons, rebind]
    rw [funext (VExpr.eval_bind_of_usesVar w (h l (List.mem_cons_self _ _)).2),
      Env.bind_comm env (Ne.symm (h l (List.mem_cons_self _ _)).1)]
    exact ih (fun l hl => h l (List.mem_cons_of_mem _ hl)) _

/-- Binding a name that neither the loop variable, the replacement nor the rebuilt
`LetStmt`s mention commutes with rebuilding the iterations. -/
theorem restore_bind {vs : VectorSubs} {containing : List (String × VExpr)} {m : String}
    (w : Nat → Val) (hx : m ≠ vs.var) (hR : vs.replacement.usesVar m = false)
    (hc : ∀ l ∈ containing, l.1 ≠ m ∧ l.2.usesVar m = false) (σ : Env) (i : Nat) :
    vs.restore containing (σ.bind m w) i = (vs.restore containing σ i).bind m w := by
  simp only [restore, atLane, VExpr.eval_bind_of_usesVar w hR]
  rw [Env.bind_comm σ hx, foldl_rebind_bind w hc]

namespace Agree

variable {vs : VectorSubs} {scope : List (String × VExpr)} {σ ρ : Env} {i : Nat}

/-- Both sides bind a name the discipline leaves alone to the same lanes. -/
theorem bind_same {m : String} (w : Nat → Val) (h : vs.Agree scope σ ρ i) (hx : m ≠ vs.var)
    (hR : vs.replacement.usesVar m = false)
    (hs : ∀ k ∈ scope.map Prod.fst, k ≠ m ∧ k ++ vs.wideningSuffix ≠ m) :
    vs.Agree scope (σ.bind m w) (ρ.bind m w) i where
  loopVar := by
    rw [VExpr.eval_bind_of_usesVar _ hR, ← h.loopVar]
    simp [Env.bind, Ne.symm hx]
  widened k v hk := by
    obtain ⟨hkm, hsm⟩ := hs k (List.mem_keys_of_lookup hk)
    simpa [Env.bind, hkm, hsm] using h.widened k v hk
  other k hk hl hs' := by
    by_cases hkm : k = m
    · simp [Env.bind, hkm]
    · simpa [Env.bind, hkm] using h.other k hk hl hs'

/-- The iteration binds the widened name of a name in scope, which the discipline does
not relate. -/
theorem bind_right {m : String} (w : Nat → Val) (h : vs.Agree scope σ ρ i) (hx : m ≠ vs.var)
    (hl : scope.lookup m = none) (hw : ∃ k ∈ scope.map Prod.fst, m = k ++ vs.wideningSuffix) :
    vs.Agree scope σ (ρ.bind m w) i where
  loopVar := by simpa [Env.bind, Ne.symm hx] using h.loopVar
  widened k v hk := by
    have hkm : k ≠ m := fun hkm => by simp [hkm, hl] at hk
    simpa [Env.bind, hkm] using h.widened k v hk
  other k hk hl' hs := by
    obtain ⟨k', hk', rfl⟩ := hw
    have hkm : k ≠ k' ++ vs.wideningSuffix := hs k' hk'
    simpa [Env.bind, hkm] using h.other k hk hl' hs

end Agree

/-- How an environment `σ` of the vectorized code stands to the loop: at every lane `i` it
agrees with the iteration rebuilt from it. -/
def Inv (vs : VectorSubs) (scope containing : List (String × VExpr)) (σ : Env) : Prop :=
  ∀ i < vs.replacement.type.lanes, vs.Agree scope σ (vs.restore containing σ i) i

namespace Inv

variable {vs : VectorSubs} {scope containing : List (String × VExpr)} {σ : Env}

theorem nil (vs : VectorSubs) (σ : Env) : vs.Inv [] [] σ := fun i _ => Agree.atLane σ i

theorem bind_fresh {m : String} (w : Nat → Val) (h : vs.Inv scope containing σ) (hx : m ≠ vs.var)
    (hR : vs.replacement.usesVar m = false)
    (hs : ∀ k ∈ scope.map Prod.fst, k ≠ m ∧ k ++ vs.wideningSuffix ≠ m)
    (hc : ∀ l ∈ containing, l.1 ≠ m ∧ l.2.usesVar m = false) :
    vs.Inv scope containing (σ.bind m w) := fun i hi => by
  rw [restore_bind w hx hR hc]
  exact (h i hi).bind_same w hx hR hs

/-- Under a `LetStmt` of `n` whose value `v` was widened to `v'`: the vectorized code binds
the widened name, and every iteration `n` to the original value. -/
theorem bind_widened {n : String} {v v' : VExpr} (h : vs.Inv scope containing σ)
    (hx : n ≠ vs.var) (hwx : n ++ vs.wideningSuffix ≠ vs.var) (hne : n ++ vs.wideningSuffix ≠ n)
    (hR : vs.replacement.usesVar (n ++ vs.wideningSuffix) = false)
    (hscope : n ++ vs.wideningSuffix ∉ scope.map Prod.fst)
    (hc : ∀ l ∈ containing, l.1 ≠ n ++ vs.wideningSuffix ∧
      l.2.usesVar (n ++ vs.wideningSuffix) = false)
    (hv : v.usesVar (n ++ vs.wideningSuffix) = false)
    (hl : v'.type.lanes = vs.replacement.type.lanes)
    (hval : ∀ i < vs.replacement.type.lanes, v'.eval σ i = v.eval (vs.restore containing σ i) 0) :
    vs.Inv ((n, v') :: scope) (containing ++ [(n, v)])
      (σ.bind (n ++ vs.wideningSuffix) (v'.eval σ)) := fun i hi => by
  rw [restore_append, restore_bind _ hwx hR hc, funext (VExpr.eval_bind_of_usesVar _ hv),
    Env.bind_comm _ hne]
  refine ((h i hi).bind_widened hx hR hl (hval i hi)).bind_right _ hwx ?_ ⟨n, by simp, rfl⟩
  have : (n ++ vs.wideningSuffix == n) = false := beq_false_of_ne hne
  rw [List.lookup_cons, this]
  exact List.lookup_eq_none_iff.2 fun p hp =>
    bne_iff_ne.2 fun hpe => hscope (List.mem_map.2 ⟨p, hp, hpe.symm⟩)

end Inv

end VectorSubs

end HalideSchedule.Vectorize
