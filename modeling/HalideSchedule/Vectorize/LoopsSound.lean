import HalideSchedule.Vectorize.Built
import HalideSchedule.Vectorize.StmtSemantics
import HalideSchedule.Vectorize.Traces
import HalideSchedule.Vectorize.Typing

/-!
# HalideSchedule.Vectorize.LoopsSound

**`VectorizeLoops` keeps the meaning of a loop.** The statement visitors of `VectorSubs`
turn the body of a loop over `x` into one statement for all lanes of `x` at once. This
module proves, by one lemma per visitor, that what they build simulates the iterations
(`Vectorizes`: `Sim` of the vectorized statement against each iteration of the body, from
every environment whose iterations give each name they read lanes of its type, `Typed`),
and then, by induction on the measure the visitors terminate by, that they do so on every
well-typed scalar body that keeps the naming discipline (`mutateStmt_vectorizes`). The loop
itself follows (`vectorizeLoops_sim`); `Vectorize.Pass` carries it over a whole statement.

Proof shape:

* expressions — `mutate_laneRel` of `Vectorize.VectorSubs`, made independent of the
  environment (`exists_of_agree`);
* types — each binding the visitors make keeps the iterations typed (`typed_bind`), and a
  bounded expression that became a vector reads only names typed in the vectorized
  environment (`typed_mutate`);
* `Store` — a scalar store is the same store at every lane, a vector store writes the
  lanes in order (`Sim.const`, `Sim.flat`);
* `LetStmt` — `Inv.bind_fresh` for a value that stays scalar, `Inv.bind_widened` and
  `laneLets_replaceShuffleVectors` for a widened one;
* `IfThenElse` — a scalar condition is decided alike at every lane; a vector one is
  scalarized (`exec_scalarize`, `Sim.lanes`), or under `likely` takes the vectorized
  branch when the least lane `bounds_of_lanes` gives is true, which on a bounded condition
  is exact (`mutate_bounds`) and then says every lane is (`laneMin_eq_true`);
* `For` — a uniform loop runs its iterations alike at every lane (`Sim.forExec`); a loop
  whose `min` became a vector is rebased, which keeps its meaning (`exec_rebase`); a loop
  whose extent became a vector runs up to `bounds_of_lanes` of it, at least every lane of
  a bounded extent (`le_laneMax`), and the guard `likely(y < min + extent)` ends each
  lane's iterations at its own extent (`Sim.forExec_guard`).
-/

namespace HalideSchedule.Vectorize

namespace VectorSubs

variable {vs : VectorSubs} {scope containing : List (String × VExpr)}

/-! ### Expressions and conditions -/

/-- The widened `LetStmt`s in scope: each value has the replacement's lanes, and none is
the loop variable. -/
structure ScopeOk (vs : VectorSubs) (scope : List (String × VExpr)) : Prop where
  lanes : ∀ m v', scope.lookup m = some v' → v'.type.lanes = vs.replacement.type.lanes
  loopVar : scope.lookup vs.var = none

/-- Every well-formed scope is met by some environments. -/
theorem ScopeOk.agree (h : vs.ScopeOk scope) (σ : Env) (i : Nat) :
    vs.Agree scope σ (fun m _ => if m = vs.var then vs.replacement.eval σ i
      else if (scope.lookup m).isSome then σ (m ++ vs.wideningSuffix) i else σ m 0) i where
  loopVar := by simp
  widened m v' hm := by
    have hx : m ≠ vs.var := fun hx => by simp [hx, h.loopVar] at hm
    exact ⟨h.lanes m v' hm, by simp [hx, hm]⟩
  other m hx hl _ := by simp [hx, hl]

/-- What the visitors compute does not depend on the environment: a property that every
environment in the relation gives of their result holds of one result. -/
theorem exists_of_agree {α : Type} {f : Option α} {P : Env → (Nat → Env) → α → Prop}
    (hs : vs.ScopeOk scope)
    (h : ∀ σ ρ, (∀ i < vs.replacement.type.lanes, vs.Agree scope σ (ρ i) i) →
      ∃ v, f = some v ∧ P σ ρ v) :
    ∃ v, f = some v ∧ ∀ σ ρ, (∀ i < vs.replacement.type.lanes, vs.Agree scope σ (ρ i) i) →
      P σ ρ v := by
  obtain ⟨v, hv, -⟩ := h (fun _ _ => .int 0) _ fun i _ => hs.agree _ i
  refine ⟨v, hv, fun σ ρ hag => ?_⟩
  obtain ⟨v', hv', hp⟩ := h σ ρ hag
  cases hv.symm.trans hv'
  exact hp

/-! ### Scalarizing -/

section Scalarize

variable {base : VExpr} {lanes : Nat} (hR : vs.replacement = .ramp base (.intImm 1) lanes)
include hR

theorem scalarize_eq (containing : List (String × VExpr)) (t : VStmt) :
    vs.scalarize containing t =
      some (.forLoop vs.var base (.intImm lanes) .unrolled (wrapLets containing t)) := by
  simp [scalarize, hR]

/-- The scalarized statement runs the iterations one after another. -/
theorem exec_scalarize (containing : List (String × VExpr)) (t : VStmt) (σ : Env) :
    (VStmt.forLoop vs.var base (.intImm lanes) .unrolled (wrapLets containing t)).exec σ =
      forExec (fun i => t.exec (vs.restore containing σ i)) lanes := by
  simp only [VStmt.exec, exec_wrapLets, VExpr.eval, Val.toInt, Int.toNat_ofNat]
  congr 1
  funext i
  simp [restore, atLane, hR, VExpr.eval, Val.intOp]

end Scalarize

/-! ### Names -/

namespace StmtHygienic

variable {s : VStmt} (h : vs.StmtHygienic scope containing s)
include h

theorem mem_keys {l : String × VExpr} (hl : l ∈ containing) : l.1 ∈ scope.map Prod.fst := by
  rw [← List.mem_reverse, ← h.keys]
  exact List.mem_map_of_mem _ hl

/-- The widened name of a binder or of a name in scope is none of the names the
discipline speaks of. -/
theorem widened_not_mem {n : String} (hn : n ∈ s.letNames ++ scope.map Prod.fst) :
    n ++ vs.wideningSuffix ∉ vs.var :: (s.varNames ++ s.letNames ++ scope.map Prod.fst) :=
  fun hm => h.underived n hn _ hm (derived_self _ _)

/-- A binder of `s` is fresh for what the rebuilt iterations read. -/
theorem binder_fresh {n : String} (hn : n ∈ s.letNames) :
    n ≠ vs.var ∧ vs.replacement.usesVar n = false ∧
      (∀ k ∈ scope.map Prod.fst, k ≠ n ∧ k ++ vs.wideningSuffix ≠ n) ∧
      ∀ l ∈ containing, l.1 ≠ n ∧ l.2.usesVar n = false :=
  ⟨fun he => h.loopVar (he ▸ hn),
    Bool.eq_false_iff.2 fun hu => (h.replacement n (VExpr.mem_varNames_of_usesVar hu)).1 hn,
    fun k hk => ⟨fun he => h.outOfScope k hk (he ▸ hn), fun he => h.widened_not_mem
      (List.mem_append_right _ hk) (he ▸ by simp [hn])⟩,
    fun l hl => ⟨fun he => h.outOfScope _ (h.mem_keys hl) (he ▸ hn), Bool.eq_false_iff.2
      fun hu => ((h.originals l hl).2 n (VExpr.mem_varNames_of_usesVar hu)).1 hn⟩⟩

theorem restore_bind {n : String} (hn : n ∈ s.letNames) (w : Nat → Val) (σ : Env) (i : Nat) :
    vs.restore containing (σ.bind n w) i = (vs.restore containing σ i).bind n w :=
  VectorSubs.restore_bind w (h.binder_fresh hn).1 (h.binder_fresh hn).2.1
    (h.binder_fresh hn).2.2.2 σ i

theorem inv_bind {n : String} (hn : n ∈ s.letNames) {σ : Env}
    (hσ : vs.Inv scope containing σ) (w : Nat → Val) : vs.Inv scope containing (σ.bind n w) :=
  hσ.bind_fresh w (h.binder_fresh hn).1 (h.binder_fresh hn).2.1 (h.binder_fresh hn).2.2.1
    (h.binder_fresh hn).2.2.2

/-- A name that `s` reads and no binder hides has one value at every lane. -/
theorem restore_read {g : String} (hg : g ∈ s.varNames) (hx : g ≠ vs.var)
    (hs : g ∉ scope.map Prod.fst) {σ : Env} (hσ : vs.Inv scope containing σ) {i : Nat}
    (hi : i < vs.replacement.type.lanes) : vs.restore containing σ i g 0 = σ g 0 :=
  (hσ i hi).other g hx (List.lookup_eq_none_iff.2 fun p hp => bne_iff_ne.2 fun he =>
    hs (List.mem_map.2 ⟨p, hp, he.symm⟩)) fun k hk he =>
      h.widened_not_mem (List.mem_append_right _ hk) (he ▸ by simp [hg])

end StmtHygienic

/-! ### Typed environments -/

/-- What the iterations of `s` see, in the context `Γ` of `s`: each iteration gives every
name `s` reads lanes of its type, and the vectorized environment gives the names the
replacement reads theirs. -/
structure Typed (vs : VectorSubs) (Γ : String → VType) (containing : List (String × VExpr))
    (s : VStmt) (σ : Env) : Prop where
  iter : ∀ k < vs.replacement.type.lanes, ∀ g, s.usesVar g = true →
    (vs.restore containing σ k).Typed Γ g
  replacement : ∀ g, vs.replacement.usesVar g = true → σ.Typed Γ g

variable {Γ : String → VType} {σ : Env} {s t : VStmt}

/-- A statement that reads names of `s` is typed where `s` is. -/
theorem Typed.mono (h : vs.Typed Γ containing s σ)
    (ht : ∀ g, t.usesVar g = true → s.usesVar g = true) : vs.Typed Γ containing t σ :=
  ⟨fun k hk g hg => h.iter k hk g (ht g hg), h.replacement⟩

/-- An expression of `s` with `Int(32)` type is an integer at every iteration. -/
theorem Typed.eval_int (h : vs.Typed Γ containing s σ) {k : Nat}
    (hk : k < vs.replacement.type.lanes) {e : VExpr} (het : e.typeOk Γ = true)
    (hty : e.type = ⟨.int, 1⟩) (hes : ∀ g, e.usesVar g = true → s.usesVar g = true) :
    ∃ a : Int, e.eval (vs.restore containing σ k) 0 = .int a :=
  Val.elem_int ((VExpr.eval_elem het fun g hg => h.iter k hk g (hes g hg)) 0
    (by rw [hty]; decide) |>.trans (by rw [hty]))

namespace StmtHygienic

variable (hh : vs.StmtHygienic scope containing s)
include hh

/-- Binding a binder `n` of `s` to one scalar at every lane: the body `t` of the binding
sees its iterations typed in `Γ` with `n` of type `T`. -/
theorem typed_bind {n : String} (hn : n ∈ s.letNames) (ht : vs.Typed Γ containing s σ)
    (hts : ∀ g, t.usesVar g = true → g ≠ n → s.usesVar g = true) {T : VType} {w : Nat → Val}
    (hw : ∀ i < T.lanes, (w i).elem = T.elem) :
    vs.Typed (fun m => if m = n then T else Γ m) containing t (σ.bind n w) where
  iter k hk g hg := by
    rw [hh.restore_bind hn]
    by_cases hgn : g = n
    · subst hgn
      exact Env.typed_bind_self hw
    · exact Env.typed_bind_of_ne hgn (by simp [hgn]) (ht.iter k hk g (hts g hg hgn))
  replacement g hg := by
    have hgn : g ≠ n := fun he => by simp [he, (hh.binder_fresh hn).2.1] at hg
    exact Env.typed_bind_of_ne hgn (by simp [hgn]) (ht.replacement g hg)

/-- A scalar name that `s` reads, other than the loop variable and the names in scope, is
typed in the vectorized environment as in the iterations. -/
theorem typed_read (hσ : vs.Inv scope containing σ) (ht : vs.Typed Γ containing s σ)
    (hL : 0 < vs.replacement.type.lanes) {g : String} (hu : s.usesVar g = true)
    (hx : g ≠ vs.var) (hs : g ∉ scope.map Prod.fst) (hl : (Γ g).lanes = 1) : σ.Typed Γ g := by
  intro i hi
  obtain rfl : i = 0 := by omega
  rw [← hh.restore_read (VStmt.mem_varNames_of_usesVar hu) hx hs hσ hL]
  exact ht.iter 0 hL g hu 0 (by omega)

/-- The vectorized environment gives lanes of their types to the names that a bounded
expression of `s`, mutated under no widened name, reads. -/
theorem typed_mutate (hσ : vs.Inv scope containing σ) (ht : vs.Typed Γ containing s σ)
    (hL : 0 < vs.replacement.type.lanes) {e e' : VExpr} (he : e.scalarBody = true)
    (hl : e.letNames = []) (het : e.typeOk Γ = true)
    (hes : ∀ g, e.usesVar g = true → s.usesVar g = true)
    (hsc : ∀ g ∈ e.varNames, g ∉ scope.map Prod.fst) (hm : vs.mutate [] e = some e') :
    ∀ g, e'.usesVar g = true → σ.Typed Γ g := fun g hu =>
  (mutate_usesVar he hl hm hu).elim
    (fun h => hh.typed_read hσ ht hL (hes g h.1) h.2 (hsc g (VExpr.mem_varNames_of_usesVar h.1))
      (VExpr.lanes_of_usesVar het he h.1))
    (ht.replacement g)

/-- A binder of `s` leaves the types of the loop's variable and of the replacement's base as
they are. -/
theorem ctx_update {base : VExpr}
    (hR : vs.replacement = .ramp base (.intImm 1) vs.replacement.type.lanes) {n : String}
    (hn : n ∈ s.letNames) (T : VType) (hbt : base.typeOk Γ = true)
    (hx : (Γ vs.var).elem = .int) :
    base.typeOk (fun m => if m = n then T else Γ m) = true ∧
      ((fun m => if m = n then T else Γ m) vs.var).elem = .int := by
  have hb := hh.binder_fresh hn
  refine ⟨(VExpr.typeOk_update ?_).trans hbt, by simpa [Ne.symm hb.1] using hx⟩
  have := hb.2.1
  rw [hR] at this
  simpa [VExpr.usesVar] using this

end StmtHygienic

end VectorSubs

/-! ### Rebasing -/

theorem Val.intOp_add_rebase (a : Val) (j : Int) :
    Val.intOp (· + ·) (Val.intOp (· + ·) (.int 0) (.int j)) a = Val.intOp (· + ·) a (.int j) := by
  cases a <;> simp [Val.intOp, Int.add_comm]

/-- Rebasing a loop to `0` keeps its meaning: `For(y, 0, extent, body[y := y + min])` runs
the body at the same values of `y` as `For(y, min, extent, body)`. -/
theorem exec_rebase {y : String} {min extent : VExpr} {ft ft' : ForType} {b : VStmt}
    (hmin : min.scalarBody = true) (hb : b.scalarBody = true) (hmy : min.usesVar y = false)
    (hcap : ∀ n ∈ b.letNames, n ≠ y ∧ min.usesVar n = false) (env : Env) :
    (VStmt.forLoop y (.intImm 0) extent ft'
        (b.substitute y (.add (.var ⟨.int, 1⟩ y) min))).exec env =
      (VStmt.forLoop y min extent ft b).exec env := by
  have hr : (VExpr.add (.var ⟨.int, 1⟩ y) min).scalarBody = true := by
    simp [VExpr.scalarBody, hmin]
  simp only [VStmt.exec]
  congr 1
  funext j
  rw [VStmt.exec_substitute hr hb fun n hn => by
    simp [VExpr.usesVar, (hcap n hn).2, Ne.symm (hcap n hn).1], Env.bind_bind_self]
  refine VStmt.exec_congr hb fun m => ?_
  by_cases hm : m = y
  · subst hm
    simp only [Env.bind_self, VExpr.eval, VExpr.eval_bind_of_usesVar _ hmy]
    exact Val.intOp_add_rebase _ _
  · simp [Env.bind, hm]

namespace VectorSubs

variable {vs : VectorSubs} {scope containing : List (String × VExpr)}

theorem mutateStmt_forLoop {y : String} {min extent min' extent' : VExpr} {ft : ForType}
    {body : VStmt} (hm : vs.mutate scope min = some min')
    (he : vs.mutate scope extent = some extent') :
    vs.mutateStmt scope containing (.forLoop y min extent ft body) =
      if min'.type.lanes ≠ 1 then
        vs.mutateStmt scope containing (.forLoop y (.intImm 0) extent
          (if ft = .vectorized then .serial else ft)
          (body.substitute y (.add (.var ⟨.int, 1⟩ y) min)))
      else if extent'.type.lanes ≠ 1 then do
        let body' ← vs.mutateStmt scope containing
          (.ifThenElse (.likely (.cmp .lt (.var ⟨.int, 1⟩ y) (.add min extent))) body .undef)
        return .forLoop y min' (boundsOfLanes extent').max
          (if ft = .vectorized then .serial else ft) body'
      else do
        let body' ← vs.mutateStmt scope containing body
        if min' = min ∧ extent' = extent ∧ body' = body ∧
            (if ft = .vectorized then .serial else ft) = ft then
          return .forLoop y min extent ft body
        else return .forLoop y min' extent' (if ft = .vectorized then .serial else ft) body' := by
  conv_lhs => rw [mutateStmt]
  split
  · simp_all
  · rename_i h
    simp only [hm, Option.some.injEq] at h
    subst h
    simp only [he]
    rfl

/-- The guarded body reads the loop variable and what the loop reads. -/
theorem VStmt.usesVar_guarded {y g : String} {min extent : VExpr} {ft : ForType} {b : VStmt}
    (h : (VStmt.ifThenElse (.likely (.cmp .lt (.var ⟨.int, 1⟩ y) (.add min extent))) b
      .undef).usesVar g = true) (hgy : g ≠ y) :
    (VStmt.forLoop y min extent ft b).usesVar g = true := by
  simp only [VStmt.usesVar, VExpr.usesVar, Bool.or_false, Bool.or_eq_true, beq_iff_eq,
    Bool.and_eq_true, bne_iff_ne, ne_eq] at h ⊢
  rcases h with (h | h | h) | h
  · exact absurd h.symm hgy
  · exact .inl (.inl h)
  · exact .inl (.inr h)
  · exact .inr ⟨Ne.symm hgy, h⟩

/-- The rebased loop reads what the loop reads. -/
theorem VStmt.usesVar_rebase {y g : String} {min extent : VExpr} {ft ft' : ForType} {b : VStmt}
    (h : (VStmt.forLoop y (.intImm 0) extent ft'
      (b.substitute y (.add (.var ⟨.int, 1⟩ y) min))).usesVar g = true) :
    (VStmt.forLoop y min extent ft b).usesVar g = true := by
  simp only [VStmt.usesVar, VExpr.usesVar, Bool.false_or, Bool.or_eq_true, Bool.and_eq_true,
    bne_iff_ne, ne_eq] at h ⊢
  rcases h with h | ⟨hy, h⟩
  · exact .inl (.inr h)
  · rcases VStmt.usesVar_substitute h with h | h
    · exact .inr ⟨hy, h⟩
    · simp only [VExpr.usesVar, Bool.or_eq_true, beq_iff_eq] at h
      exact h.elim (fun h => absurd h hy) fun h => .inl (.inl h)

/-! ### The statement visitors -/

/-- `VectorSubs` vectorizes `s` in the context `Γ`, under the widened `LetStmt`s `scope` and
their original bindings `containing`: the statement visitors succeed and build a statement,
as `Built` says, that simulates the iterations from every environment in the relation `Inv`
whose iterations are typed. -/
def Vectorizes (vs : VectorSubs) (Γ : String → VType) (scope containing : List (String × VExpr))
    (s : VStmt) : Prop :=
  ∃ s', vs.mutateStmt scope containing s = some s' ∧ vs.Built scope containing s s' ∧
    ∀ σ, vs.Inv scope containing σ → vs.Typed Γ containing s σ →
      Sim vs.replacement.type.lanes (s'.exec σ) (fun i => s.exec (vs.restore containing σ i))

section Visitors

variable (hn : 1 < vs.replacement.type.lanes) (hok : vs.ScopeOk scope)
include hn hok

theorem mutate_rel {e : VExpr} (he : e.scalarBody = true) (hh : vs.Hygienic scope e) :
    ∃ v, vs.mutate scope e = some v ∧
      (v.type.lanes = 1 ∨ v.type.lanes = vs.replacement.type.lanes) ∧
      ∀ σ ρ, (∀ i < vs.replacement.type.lanes, vs.Agree scope σ (ρ i) i) → vs.LaneRel σ ρ e v := by
  obtain ⟨v, hv, hr⟩ := exists_of_agree hok fun _ _ hag => mutate_laneRel hn he hh hag
  exact ⟨v, hv, (hr _ _ fun i _ => hok.agree (fun _ _ => .int 0) i).lanes, hr⟩

/-- A scalar that `mutate` builds reads no widened `LetStmt`. -/
theorem unscoped_of_mutate_scalar {e e' : VExpr} (he : e.scalarBody = true)
    (hl : e.letNames = []) (hm : vs.mutate scope e = some e') (h1 : e'.type.lanes = 1) :
    ∀ g ∈ e.varNames, g ∉ scope.map Prod.fst := fun g hg hk => by
  have := (unread_of_mutate_scalar hn (fun m v' h => hok.lanes m v' h ▸ hn) he hl hm h1.le g
    (VExpr.usesVar_of_mem_varNames hg (by simp [hl]))).2
  obtain ⟨p, hp, rfl⟩ := List.mem_map.1 hk
  simpa using List.lookup_eq_none_iff.1 this p hp

end Visitors

/-- A store whose value is scalar writes its lane `0`. -/
theorem exec_store_of_lanes {env : Env} {name : String} {v i p : VExpr}
    (h : v.type.lanes = 1) :
    (VStmt.store name v i p).exec env = some (storeLane env name v i p 0) := by
  simp [VStmt.exec, h, List.range_succ]

/-- `Block`: the two parts one after the other. -/
theorem vectorizes_block {a b : VStmt} (ha : vs.Vectorizes Γ scope containing a)
    (hb : vs.Vectorizes Γ scope containing b) : vs.Vectorizes Γ scope containing (.block a b) := by
  obtain ⟨a', ha', hba, hsa⟩ := ha
  obtain ⟨b', hb', hbb, hsb⟩ := hb
  refine ⟨.block a' b', by rw [mutateStmt]; simp [ha', hb'],
    ⟨by simp [VStmt.noShuffle, hba.noShuffle, hbb.noShuffle], fun g hg => ?_⟩,
    fun σ hσ ht => (hsa σ hσ (ht.mono fun g h => by simp [VStmt.usesVar, h])).seqW
      (hsb σ hσ (ht.mono fun g h => by simp [VStmt.usesVar, h]))⟩
  simp only [VStmt.varNames, List.mem_append] at hg
  rcases hg with hg | hg
  · exact (hba.part (fun _ h => List.mem_append_left _ (List.mem_append_left _ h))
      fun _ h => List.mem_append_left _ h).origin g hg
  · exact (hbb.part (fun _ h => List.mem_append_left _ (List.mem_append_right _ h))
      fun _ h => List.mem_append_right _ h).origin g hg

section Visitors

variable (hn : 1 < vs.replacement.type.lanes) (hok : vs.ScopeOk scope)
include hn hok
/-- `Store`: a store that stays scalar writes the same location at every lane; a widened
one writes the lanes of the iterations in order. -/
theorem vectorizes_store (hRns : vs.replacement.noShuffle = true) {name : String}
    {v i p : VExpr} (hs : (VStmt.store name v i p).scalarBody = true)
    (hh : vs.StmtHygienic scope containing (.store name v i p)) :
    vs.Vectorizes Γ scope containing (.store name v i p) := by
  have hs0 := hs
  simp only [VStmt.scalarBody, Bool.and_eq_true] at hs
  have hsub : ∀ e : VExpr, e.letNames.Sublist (VStmt.store name v i p).letNames →
      e.varNames ⊆ (VStmt.store name v i p).varNames → vs.Hygienic scope e :=
    fun e hl hv => hh.expr hl fun g hg => hv hg
  obtain ⟨v', hv, hlv, hrv⟩ := mutate_rel hn hok hs.1.1 (hsub v
    ((List.sublist_append_left _ _).trans (List.sublist_append_left _ _))
    fun _ h => List.mem_append_left _ (List.mem_append_left _ h))
  obtain ⟨i', hi, hli, hri⟩ := mutate_rel hn hok hs.1.2 (hsub i
    ((List.sublist_append_right _ _).trans (List.sublist_append_left _ _))
    fun _ h => List.mem_append_left _ (List.mem_append_right _ h))
  obtain ⟨p', hp, hlp, hrp⟩ := mutate_rel hn hok hs.2 (hsub p (List.sublist_append_right _ _)
    fun _ h => List.mem_append_right _ h)
  have h1 := VExpr.scalarBody_lanes hs.1.1
  by_cases hsc : v'.type.lanes = 1 ∧ i'.type.lanes = 1 ∧ p'.type.lanes = 1
  · -- a scalar store
    have hw : ∀ x : VExpr, x.type.lanes = 1 → widen x 1 = some x := fun x hx => by
      simp [widen, hx]
    refine ⟨.store name v' i' p', ?_, Built.store hRns hs0 hv hi hp (hw _ hsc.1) (hw _ hsc.2.1)
      (hw _ hsc.2.2), fun σ hσ _ => (Sim.const hn _).congr fun k hk => ?_⟩
    · rw [mutateStmt]
      simp only [hv, hi, hp, Option.bind_eq_bind, Option.some_bind]
      split_ifs with he
      · obtain ⟨rfl, rfl, rfl⟩ := he
        rfl
      · simp [hsc, hw]
    · rw [exec_store_of_lanes hsc.1, exec_store_of_lanes h1]
      simp only [storeLane, (hrv σ _ hσ).scalar hn hsc.1 k hk, (hri σ _ hσ).scalar hn hsc.2.1 k hk,
        (hrp σ _ hσ).scalar hn hsc.2.2 k hk]
  · -- a vector store: every part widened to the replacement's lanes
    have hL : Max.max p'.type.lanes (Max.max v'.type.lanes i'.type.lanes) =
        vs.replacement.type.lanes := by omega
    have hne : ¬(p' = p ∧ v' = v ∧ i' = i) := fun ⟨hp', hv', hi'⟩ => hsc
      ⟨hv' ▸ h1, hi' ▸ VExpr.scalarBody_lanes hs.1.2, hp' ▸ VExpr.scalarBody_lanes hs.2⟩
    have hag := fun i (_ : i < vs.replacement.type.lanes) => hok.agree (fun _ _ => .int 0) i
    obtain ⟨wv, hwv, hlwv, -⟩ := (hrv _ _ hag).widened hn
    obtain ⟨wi, hwi, -, -⟩ := (hri _ _ hag).widened hn
    obtain ⟨wp, hwp, -, -⟩ := (hrp _ _ hag).widened hn
    refine ⟨.store name wv wi wp, ?_, Built.store hRns hs0 hv hi hp hwv hwi hwp, fun σ hσ _ => ?_⟩
    · rw [mutateStmt]
      simp only [hv, hi, hp, Option.bind_eq_bind, Option.some_bind, if_neg hne, hL, hwv, hwi, hwp]
      rfl
    · obtain ⟨wv', hwv', -, hev⟩ := (hrv σ _ hσ).widened hn
      obtain ⟨wi', hwi', -, hei⟩ := (hri σ _ hσ).widened hn
      obtain ⟨wp', hwp', -, hep⟩ := (hrp σ _ hσ).widened hn
      cases hwv.symm.trans hwv'
      cases hwi.symm.trans hwi'
      cases hwp.symm.trans hwp'
      have hflat : (List.range wv.type.lanes).flatMap (storeLane σ name wv wi wp) =
          flat (fun k => storeLane (vs.restore containing σ k) name v i p 0)
            vs.replacement.type.lanes := by
        rw [hlwv]
        exact flat_congr fun k hk => by simp only [storeLane, hev k hk, hei k hk, hep k hk]
      show Sim _ (some _) _
      rw [hflat]
      exact Sim.flat fun k _ => exec_store_of_lanes h1

omit hok in
/-- `AssertStmt`: a scalar condition that reads no name of the vectorized loop is the same
at every lane. -/
theorem vectorizes_assert {c : VExpr} (hs : (VStmt.assertStmt c).scalarBody = true)
    (hh : vs.StmtHygienic scope containing (.assertStmt c)) :
    vs.Vectorizes Γ scope containing (.assertStmt c) := by
  have hl : ¬ 1 < c.type.lanes := by rw [VExpr.scalarBody_lanes (e := c) hs]; omega
  refine ⟨_, by rw [mutateStmt]; simp [hl], Built.self hs,
    fun σ hσ _ => (Sim.const hn _).congr fun k hk => ?_⟩
  have hbd := hh.bounds
  simp only [VStmt.boundsFree, Bool.and_eq_true, List.all_eq_true, decide_eq_true_eq,
    List.mem_cons, List.mem_append, not_or] at hbd
  simp only [VStmt.exec, VExpr.eval_congr (e := c) hs fun m hm => (hh.restore_read hm
    (hbd.2 m hm).1 (hbd.2 m hm).2.1 hσ hk).symm]

/-- `IfThenElse`: a scalar condition is decided alike at every lane; a vector one is
scalarized or, under `likely`, takes the vectorized `then` branch when the least lane of
the condition is true, and the scalarized statement without `likely` otherwise. -/
theorem vectorizes_ifThenElse {base : VExpr}
    (hR : vs.replacement = .ramp base (.intImm 1) vs.replacement.type.lanes)
    (hbase : base.scalarBody = true) (hbt : base.typeOk Γ = true) (hbty : base.type = ⟨.int, 1⟩)
    (hx : (Γ vs.var).elem = .int) {c : VExpr} {a b : VStmt}
    (hs : (VStmt.ifThenElse c a b).scalarBody = true)
    (ht : (VStmt.ifThenElse c a b).typeOk Γ = true)
    (hh : vs.StmtHygienic scope containing (.ifThenElse c a b))
    (ha : vs.Vectorizes Γ scope containing a) (hb : vs.Vectorizes Γ scope containing b) :
    vs.Vectorizes Γ scope containing (.ifThenElse c a b) := by
  have hRns : vs.replacement.noShuffle = true := by
    rw [hR]
    simp [VExpr.noShuffle, VExpr.noShuffle_of_scalarBody hbase]
  have hs' := hs
  simp only [VStmt.scalarBody, Bool.and_eq_true] at hs'
  obtain ⟨c', hc', hlc, hrc⟩ := mutate_rel hn hok hs'.1.1
    (hh.expr ((List.sublist_append_left _ _).trans (List.sublist_append_left _ _))
      fun _ h => List.mem_append_left _ (List.mem_append_left _ h))
  obtain ⟨a', ha', hba, hsa⟩ := ha
  obtain ⟨b', hb', hbb, hsb⟩ := hb
  have hco : ∀ g ∈ c'.varNames, vs.Origin scope containing (.ifThenElse c a b) g := fun g hg =>
    Origin.ofExpr (mutate_varNames hc' g hg)
      (fun _ h => List.mem_append_left _ (List.mem_append_left _ h))
      (fun _ h => List.mem_append_left _ (List.mem_append_left _ h))
  have hcns : c'.noShuffle = true := mutate_noShuffle hRns hs'.1.1 hc'
  have hba' : vs.Built scope containing (.ifThenElse c a b) a' :=
    hba.part
      (fun _ h => List.mem_append_left _ (List.mem_append_left _ (List.mem_append_right _ h)))
      fun _ h => List.mem_append_left _ (List.mem_append_right _ h)
  have hbb' : vs.Built scope containing (.ifThenElse c a b) b' :=
    hbb.part (fun _ h => List.mem_append_left _ (List.mem_append_right _ h))
      fun _ h => List.mem_append_right _ h
  have hta : ∀ {σ}, vs.Typed Γ containing (.ifThenElse c a b) σ → vs.Typed Γ containing a σ :=
    fun h => h.mono fun g hg => by simp [VStmt.usesVar, hg]
  have htb : ∀ {σ}, vs.Typed Γ containing (.ifThenElse c a b) σ → vs.Typed Γ containing b σ :=
    fun h => h.mono fun g hg => by simp [VStmt.usesVar, hg]
  by_cases hv : 1 < c'.type.lanes
  · -- a vector condition: control flow that diverges across lanes
    have hscal : ∀ t : VStmt, t.scalarBody = true → t.varNames ⊆ (VStmt.ifThenElse c a b).varNames →
        vs.Built scope containing (.ifThenElse c a b) (.forLoop vs.var base
          (.intImm vs.replacement.type.lanes) .unrolled (wrapLets containing t)) :=
      fun t ht htv => Built.scalarize hR (VExpr.noShuffle_of_scalarBody hbase)
        (fun l hl => (hh.originals l hl).1) ht htv (scalarize_eq hR _ _)
    cases c with
    | likely l =>
      -- `mutate` keeps the `likely`, whose argument is bounded
      obtain ⟨l', hl', rfl⟩ : ∃ l', vs.mutate scope l = some l' ∧ c' = .likely l' := by
        simp only [mutate, Option.bind_eq_bind, Option.bind_eq_some, Option.pure_def,
          Option.some.injEq] at hc'
        obtain ⟨l', hl', rfl⟩ := hc'
        exact ⟨l', hl', by split_ifs with h <;> simp [h]⟩
      have hbd := hh.bounds
      simp only [VStmt.boundsFree, VExpr.likelyBoundedBy, VExpr.boundedBy, Bool.and_eq_true,
        List.isEmpty_iff, List.all_eq_true, decide_eq_true_eq, List.mem_append, not_or] at hbd
      obtain ⟨⟨⟨⟨hll, hlv⟩, hlx⟩, -⟩, -⟩ := hbd
      have hlsc : ∀ g ∈ l.varNames, g ∉ scope.map Prod.fst := fun g hg => (hlv g hg).1
      have hl0 : vs.mutate [] l = some l' := by
        rw [← mutate_of_scope_fresh hll hlsc]
        exact hl'
      have htl : l.typeOk Γ = true ∧ l.type.elem = .bool := by
        simp only [VStmt.typeOk, VExpr.typeOk, Bool.and_eq_true, beq_iff_eq] at ht
        exact ht.1.1.1
      have hv' : l'.type.lanes ≠ 1 := by simp only [VExpr.type] at hv; omega
      have hsl : l.scalarBody = true := hs'.1.1
      obtain ⟨hfrom, hlt', hle, hexact⟩ :=
        mutate_bounds hn hR hbase hbt hbty hx hsl hll hlx htl.1 hl0 hv'
      have hsc := hscal (.ifThenElse l a b) (by simpa [VStmt.scalarBody] using hs)
        fun g hg => by simpa [VStmt.varNames] using hg
      refine ⟨.ifThenElse (.likely (boundsOfLanes l').min) a' (.forLoop vs.var base
        (.intImm vs.replacement.type.lanes) .unrolled (wrapLets containing
          (.ifThenElse l a b))), ?_, ⟨?_, fun g hg => ?_⟩, fun σ hσ htσ => ?_⟩
      · rw [mutateStmt]
        simp only [hc', ha', hb', Option.bind_eq_bind, Option.some_bind, if_pos hv,
          scalarize_eq hR]
        rfl
      · show ((VExpr.likely (boundsOfLanes l').min).noShuffle && a'.noShuffle && _) = true
        rw [show (VExpr.likely (boundsOfLanes l').min).noShuffle = true from hfrom.1.1,
          hba.noShuffle, hsc.noShuffle]
        rfl
      · rcases List.mem_append.1 hg with hg | hg
        · rcases List.mem_append.1 hg with hg | hg
          · exact Origin.ofExpr (mutate_varNames hl' g (hfrom.1.2 hg))
              (fun _ h => List.mem_append_left _ (List.mem_append_left _ h))
              (fun _ h => List.mem_append_left _ (List.mem_append_left _ h))
          · exact hba'.origin g hg
        · exact hsc.origin g hg
      · have htyped := hh.typed_mutate hσ htσ (by omega) hsl hll htl.1
          (fun g h => by simp [VStmt.usesVar, VExpr.usesVar, h]) hlsc hl0
        have hL : l'.type.lanes = vs.replacement.type.lanes := hlc.resolve_left hv'
        show Sim _ (if (boundsOfLanes l').min.eval σ 0 = .bool true then _ else _) _
        split_ifs with hall
        · -- the least lane is true, so every lane is: the `then` branch at every lane
          have hlanes := laneMin_eq_true (by omega) (fun i hi => Val.elem_bool
            ((VExpr.eval_elem hlt' htyped i hi).trans (hle.trans htl.2)))
            ((hexact σ htyped).1.symm.trans hall)
          refine (hsa σ hσ (hta htσ)).congr fun k hk => ?_
          have : l.eval (vs.restore containing σ k) 0 = .bool true :=
            ((hrc σ _ hσ).vector hv' k hk).symm.trans (hlanes k (hL ▸ hk))
          simp [VStmt.exec, VExpr.eval, this]
        · rw [exec_scalarize hR]
          exact (Sim.lanes _).congr fun k _ => by simp [VStmt.exec, VExpr.eval]
    | _ =>
      refine ⟨_, by rw [mutateStmt]; simp only [hc', ha', hb', Option.bind_eq_bind,
        Option.some_bind, if_pos hv, scalarize_eq hR], hscal _ hs fun _ h => h, fun σ _ _ => ?_⟩
      rw [exec_scalarize hR]
      exact Sim.lanes _
  · -- a scalar condition: the same branch at every lane
    have hv1 : c'.type.lanes = 1 := by rcases hlc with h | h <;> omega
    refine ⟨.ifThenElse c' a' b', ?_, ⟨by simp [VStmt.noShuffle, hcns, hba.noShuffle,
      hbb.noShuffle], fun g hg => ?_⟩, fun σ hσ htσ => ?_⟩
    · rw [mutateStmt]
      simp only [hc', ha', hb', hv, Option.bind_eq_bind, Option.some_bind, if_false]
      split_ifs with he
      · obtain ⟨rfl, rfl, rfl⟩ := he
        rfl
      · rfl
    · simp only [VStmt.varNames, List.mem_append] at hg
      rcases hg with (hg | hg) | hg
      exacts [hco g hg, hba'.origin g hg, hbb'.origin g hg]
    · have hce := (hrc σ _ hσ).scalar hn hv1
      show Sim _ (if c'.eval σ 0 = .bool true then a'.exec σ else b'.exec σ) _
      by_cases hcv : c'.eval σ 0 = .bool true
      · rw [if_pos hcv]
        refine (hsa σ hσ (hta htσ)).congr fun k hk => ?_
        simp [VStmt.exec, ← hce k hk, hcv]
      · rw [if_neg hcv]
        refine (hsb σ hσ (htb htσ)).congr fun k hk => ?_
        simp [VStmt.exec, ← hce k hk, hcv]

/-- `LetStmt`: a value that stays scalar is bound alike at every lane; a widened one is
bound under its widened name, and every iteration rebinds the original. -/
theorem vectorizes_letStmt (hRns : vs.replacement.noShuffle = true) {n : String} {v : VExpr}
    {b : VStmt} (hs : (VStmt.letStmt n v b).scalarBody = true)
    (ht : (VStmt.letStmt n v b).typeOk Γ = true)
    (hh : vs.StmtHygienic scope containing (.letStmt n v b))
    (ih : ∀ scope' containing', vs.StmtHygienic scope' containing' b → vs.ScopeOk scope' →
      vs.Vectorizes (fun m => if m = n then v.type else Γ m) scope' containing' b) :
    vs.Vectorizes Γ scope containing (.letStmt n v b) := by
  simp only [VStmt.scalarBody, Bool.and_eq_true] at hs
  have hnl : n ∈ (VStmt.letStmt n v b).letNames := List.mem_cons_self _ _
  obtain ⟨v', hv, hlv, hrv⟩ := mutate_rel hn hok hs.1
    (hh.expr ((List.sublist_append_left _ _).cons n) fun _ h => List.mem_append_left _ h)
  have h1 := VExpr.scalarBody_lanes hs.1
  have hvo : ∀ g ∈ v'.varNames, vs.Origin scope containing (.letStmt n v b) g := fun g hg =>
    Origin.ofExpr (mutate_varNames hv g hg) (fun _ h => List.mem_append_left _ h)
      (fun _ h => List.mem_cons_of_mem _ (List.mem_append_left _ h))
  have hvns : v'.noShuffle = true := mutate_noShuffle hRns hs.1 hv
  -- every iteration gives the value lanes of its type
  have hvel : ∀ {σ}, vs.Typed Γ containing (.letStmt n v b) σ → ∀ k < vs.replacement.type.lanes,
      ∀ i < v.type.lanes, (v.eval (vs.restore containing σ k) i).elem = v.type.elem :=
    fun h k hk => VExpr.eval_elem (by simp only [VStmt.typeOk, Bool.and_eq_true] at ht; exact ht.1)
      fun g hg => h.iter k hk g (by simp [VStmt.usesVar, hg])
  have hbs : ∀ g, b.usesVar g = true → g ≠ n → (VStmt.letStmt n v b).usesVar g = true :=
    fun g hg hgn => by simp [VStmt.usesVar, hg, Ne.symm hgn]
  rcases hlv with hw | hw
  · -- a value that stays scalar
    obtain ⟨b', hb', hbb, hsb⟩ := ih scope containing hh.letBody hok
    refine ⟨.letStmt n v' b', ?_, ⟨by simp [VStmt.noShuffle, hvns, hbb.noShuffle], fun g hg => ?_⟩,
      fun σ hσ htσ => (hsb _ (hh.inv_bind hnl hσ _)
        (hh.typed_bind hnl htσ hbs fun i hi => ?_)).congr fun k hk => ?_⟩
    · rw [mutateStmt]
      have hd : decide (v.type.lanes = 1 ∧ v'.type.lanes ≠ 1) = false := by simp [hw]
      simp only [hv, hd, hb', Option.bind_eq_bind, Option.some_bind, Bool.false_eq_true, if_false]
      split_ifs with he
      · obtain ⟨rfl, rfl⟩ := he
        rfl
      · rfl
    · rcases List.mem_append.1 hg with hg | hg
      · exact hvo g hg
      · exact (hbb.part (s := .letStmt n v b)
          (fun _ h => List.mem_append_left _ (List.mem_append_right _ h))
          fun _ h => List.mem_cons_of_mem _ (List.mem_append_right _ h)).origin g hg
    · -- the one lane of the value is the value at the first iteration
      obtain rfl : i = 0 := by omega
      rw [(hrv σ _ hσ).scalar hn hw 0 (by omega)]
      exact hvel htσ 0 (by omega) 0 (by omega)
    · rw [hh.restore_bind hnl]
      exact VStmt.exec_congr hs.2 fun m => by
        by_cases hm : m = n <;> simp [Env.bind, hm, (hrv σ _ hσ).scalar hn hw k hk]
  · -- a widened value: the `LetStmt` is renamed and `n` joins the scope
    have hw1 : v'.type.lanes ≠ 1 := by omega
    have hh' := hh.widenedBody hs.1 v'
    have hx := (hh.binder_fresh hnl).1
    have hok' : vs.ScopeOk ((n, v') :: scope) := ⟨fun m w hm => by
        by_cases hmn : m = n
        · subst hmn
          simp only [List.lookup_cons_self, Option.some.injEq] at hm
          exact hm ▸ hw
        · exact hok.lanes m w (by simpa [List.lookup_cons, beq_false_of_ne hmn] using hm),
      by simp [List.lookup_cons, beq_false_of_ne (Ne.symm hx), hok.loopVar]⟩
    obtain ⟨b', hb', hbb, hsb⟩ := ih _ _ hh' hok'
    refine ⟨.letStmt (n ++ vs.wideningSuffix) v' b', ?_, ⟨by simp [VStmt.noShuffle, hvns,
      hbb.noShuffle], fun g hg => ?_⟩, fun σ hσ htσ => ?_⟩
    · have hvv : v' ≠ v := fun he => hw1 (he ▸ h1)
      rw [mutateStmt]
      simp [hv, h1, hw1, hb', laneLets_replaceShuffleVectors hh' hbb, hvv]
    · rcases List.mem_append.1 hg with hg | hg
      exacts [hvo g hg, Origin.widened (hbb.origin g hg)]
    · -- the widened name is fresh for everything but the body it was made for
      have hN := hh.widened_not_mem (n := n) (List.mem_append_left _ hnl)
      simp only [List.mem_cons, List.mem_append, not_or] at hN
      have hwx : n ++ vs.wideningSuffix ≠ vs.var := hN.1
      have hne : n ++ vs.wideningSuffix ≠ n := fun he => hN.2.1.2 (by rw [he]; exact hnl)
      have hR : vs.replacement.usesVar (n ++ vs.wideningSuffix) = false :=
        Bool.eq_false_iff.2 fun hu => (hh.replacement _ (VExpr.mem_varNames_of_usesVar hu)).2 n
          (List.mem_append_left _ hnl) (derived_self _ _)
      have hc : ∀ l ∈ containing, l.1 ≠ n ++ vs.wideningSuffix ∧
          l.2.usesVar (n ++ vs.wideningSuffix) = false := fun l hl =>
        ⟨fun he => hN.2.2 (he ▸ hh.mem_keys hl), Bool.eq_false_iff.2 fun hu =>
          ((hh.originals l hl).2 _ (VExpr.mem_varNames_of_usesVar hu)).2 n
            (List.mem_append_left _ hnl) (derived_self _ _)⟩
      have hvN : v.usesVar (n ++ vs.wideningSuffix) = false := Bool.eq_false_iff.2 fun hu =>
        hN.2.1.1 (List.mem_append_left _ (VExpr.mem_varNames_of_usesVar hu))
      have hbN : b.usesVar (n ++ vs.wideningSuffix) = false := Bool.eq_false_iff.2 fun hu =>
        hN.2.1.1 (List.mem_append_right _ (VStmt.mem_varNames_of_usesVar hu))
      -- iteration `k` binds the widened name and rebinds `n` to the value at iteration `k`
      have hρ : ∀ k, vs.restore (containing ++ [(n, v)])
          (σ.bind (n ++ vs.wideningSuffix) (v'.eval σ)) k =
          ((vs.restore containing σ k).bind (n ++ vs.wideningSuffix) (v'.eval σ)).bind n
            (v.eval (vs.restore containing σ k)) := fun k => by
        rw [restore_append, restore_bind _ hwx hR hc, funext (VExpr.eval_bind_of_usesVar _ hvN)]
      have hgn : ∀ g, vs.replacement.usesVar g = true → g ≠ n := fun g hg he =>
        by simp [he, (hh.binder_fresh hnl).2.1] at hg
      have hgw : ∀ g, b.usesVar g = true → g ≠ n ++ vs.wideningSuffix := fun g hg he =>
        by simp [he, hbN] at hg
      have hgw' : ∀ g, vs.replacement.usesVar g = true → g ≠ n ++ vs.wideningSuffix :=
        fun g hg he => by simp [he, hR] at hg
      refine (hsb _ (hσ.bind_widened hx hwx hne hR hN.2.2 hc hvN hw ((hrv σ _ hσ).vector hw1))
        ⟨fun k hk g hg => ?_, fun g hg => Env.typed_bind_of_ne (hgw' g hg) (by simp [hgn g hg])
          (htσ.replacement g hg)⟩).congr fun k _ => ?_
      · rw [hρ]
        by_cases hg' : g = n
        · subst hg'
          exact Env.typed_bind_self (hvel htσ k hk)
        · exact Env.typed_bind_of_ne hg' (by simp [hg']) (Env.typed_bind_of_ne (hgw g hg) rfl
            (htσ.iter k hk g (hbs g hg hg')))
      · rw [hρ, Env.bind_comm _ hne, VStmt.exec_bind_of_usesVar _ hbN]
        rfl

/-- `For`: a loop whose bounds stay scalar runs its iterations alike at every lane; a loop
whose `min` became a vector is rebased to `0` and visited again; a loop whose extent became
a vector runs up to `bounds_of_lanes` of it, and the guard `likely(y < min + extent)` stops
each lane at its own extent. -/
theorem vectorizes_forLoop {base : VExpr}
    (hR : vs.replacement = .ramp base (.intImm 1) vs.replacement.type.lanes)
    (hbase : base.scalarBody = true) (hbt : base.typeOk Γ = true) (hbty : base.type = ⟨.int, 1⟩)
    (hx : (Γ vs.var).elem = .int) {y : String} {min extent : VExpr} {ft : ForType} {b : VStmt}
    (hs : (VStmt.forLoop y min extent ft b).scalarBody = true)
    (ht : (VStmt.forLoop y min extent ft b).typeOk Γ = true)
    (hh : vs.StmtHygienic scope containing (.forLoop y min extent ft b))
    (ihb : vs.Vectorizes (fun m => if m = y then ⟨.int, 1⟩ else Γ m) scope containing b)
    (ihg : (∀ g ∈ min.varNames, g ∉ scope.map Prod.fst) →
      vs.Vectorizes (fun m => if m = y then ⟨.int, 1⟩ else Γ m) scope containing
        (.ifThenElse (.likely (.cmp .lt (.var ⟨.int, 1⟩ y) (.add min extent))) b .undef))
    (ihr : ∀ min', vs.mutate scope min = some min' → min'.type.lanes ≠ 1 →
      vs.Vectorizes Γ scope containing (.forLoop y (.intImm 0) extent
        (if ft = .vectorized then .serial else ft)
        (b.substitute y (.add (.var ⟨.int, 1⟩ y) min)))) :
    vs.Vectorizes Γ scope containing (.forLoop y min extent ft b) := by
  have hRns : vs.replacement.noShuffle = true := by
    rw [hR]
    simp [VExpr.noShuffle, VExpr.noShuffle_of_scalarBody hbase]
  have hns := VStmt.noShuffle_of_scalarBody hs
  simp only [VStmt.scalarBody, Bool.and_eq_true] at hs
  have ht' := ht
  simp only [VStmt.typeOk, Bool.and_eq_true, beq_iff_eq] at ht'
  have hyl : y ∈ (VStmt.forLoop y min extent ft b).letNames := List.mem_cons_self _ _
  have hbd := hh.bounds
  simp only [VStmt.boundsFree, VExpr.boundedBy, Bool.and_eq_true, List.isEmpty_iff,
    List.all_eq_true, decide_eq_true_eq, List.mem_append, not_or] at hbd
  obtain ⟨⟨hmin0, ⟨hext0, hextv⟩, hexo⟩, hbdb⟩ := hbd
  obtain ⟨min', hm, -, hrm⟩ := mutate_rel hn hok hs.1.1
    (hh.expr ((List.sublist_append_left _ _).trans (List.sublist_append_left _ _) |>.cons y)
      fun _ h => List.mem_append_left _ (List.mem_append_left _ h))
  obtain ⟨extent', he, hle, hre⟩ := mutate_rel hn hok hs.1.2
    (hh.expr ((List.sublist_append_right _ _).trans (List.sublist_append_left _ _) |>.cons y)
      fun _ h => List.mem_append_left _ (List.mem_append_right _ h))
  have hfr := hh.fresh
  simp only [VStmt.letNames, VStmt.usesVar, List.mem_cons, List.mem_append, Bool.or_eq_false_iff,
    Bool.and_eq_false_iff, bne_eq_false_iff_eq] at hfr
  have hmy := (hfr y (.inl rfl)).1.1
  have hey := (hfr y (.inl rfl)).1.2
  by_cases hv : min'.type.lanes ≠ 1
  · -- the `min` became a vector: the rebased loop
    obtain ⟨s', hs', hbs, hss⟩ := ihr min' hm hv
    have hny := (List.nodup_cons.1 hh.nodup).1
    refine ⟨s', by rw [mutateStmt_forLoop hm he, if_pos hv]; exact hs', hbs.part ?_ ?_,
      fun σ hσ htσ => (hss σ hσ (htσ.mono fun g hg => VStmt.usesVar_rebase hg)).congr fun k _ =>
        exec_rebase hs.1.1 hs.2 hmy (fun n hn => ⟨fun he => hny (he ▸ List.mem_append_right _ hn),
          (hfr n (.inr (.inr hn))).1.1⟩) _⟩
    · intro g hg
      simp only [VStmt.varNames, VExpr.varNames, List.nil_append, List.mem_append] at hg
      rcases hg with hg | hg
      · simp [VStmt.varNames, hg]
      · rcases VStmt.mem_varNames_substitute hg with hg | hg
        · simp [VStmt.varNames, hg]
        · simp only [VExpr.varNames, List.mem_append, List.mem_singleton] at hg
          rcases hg with rfl | hg
          · simp [VStmt.letNames]
          · simp [VStmt.varNames, hg]
    · intro g hg
      have hr : (VExpr.add (.var ⟨.int, 1⟩ y) min).letNames = [] := by
        simp [VExpr.letNames, hmin0]
      simp only [VStmt.letNames, VExpr.letNames, VStmt.letNames_substitute hr, List.nil_append,
        List.mem_cons, List.mem_append] at hg
      simp only [VStmt.letNames, List.mem_cons, List.mem_append]
      exact hg.imp_right (Or.imp_left .inr)
  have hv1 : min'.type.lanes = 1 := not_not.1 hv
  have hmo : ∀ g ∈ min'.varNames, vs.Origin scope containing (.forLoop y min extent ft b) g :=
    fun g hg => Origin.ofExpr (mutate_varNames hm g hg)
      (fun _ h => List.mem_append_left _ (List.mem_append_left _ h))
      (fun _ h => List.mem_cons_of_mem _ (List.mem_append_left _ (List.mem_append_left _ h)))
  have heo : ∀ g ∈ extent'.varNames, vs.Origin scope containing (.forLoop y min extent ft b) g :=
    fun g hg => Origin.ofExpr (mutate_varNames he g hg)
      (fun _ h => List.mem_append_left _ (List.mem_append_right _ h))
      (fun _ h => List.mem_cons_of_mem _ (List.mem_append_left _ (List.mem_append_right _ h)))
  -- the body of the loop at iteration `j`, from every lane, is typed with `y : Int(32)`
  have htj : ∀ {σ t} (j : Nat), vs.Typed Γ containing (.forLoop y min extent ft b) σ →
      (∀ g, t.usesVar g = true → g ≠ y → (VStmt.forLoop y min extent ft b).usesVar g = true) →
      vs.Typed (fun m => if m = y then ⟨.int, 1⟩ else Γ m) containing t
        (σ.bind y fun _ => Val.intOp (· + ·) (min'.eval σ 0) (.int j)) :=
    fun j h hts => hh.typed_bind hyl h hts fun _ _ => Val.elem_intOp _ _ _
  by_cases hev : extent'.type.lanes ≠ 1
  · -- the extent became a vector: up to the greatest lane, each lane stopped by the guard
    have he0 : vs.mutate [] extent = some extent' := by
      rw [← mutate_of_scope_fresh hext0 fun g hg => (hextv g hg).1]
      exact he
    obtain ⟨hfrom, het', hele, hexact⟩ :=
      mutate_bounds hn hR hbase hbt hbty hx hs.1.2 hext0 hexo ht'.1.1.1.2 he0 hev
    obtain ⟨body', hb', hbb, hsb⟩ := ihg (unscoped_of_mutate_scalar hn hok hs.1.1 hmin0 hm hv1)
    refine ⟨.forLoop y min' (boundsOfLanes extent').max
      (if ft = .vectorized then .serial else ft) body', ?_, ⟨?_, fun g hg => ?_⟩,
      fun σ hσ htσ => ?_⟩
    · rw [mutateStmt_forLoop hm he, if_neg hv, if_pos hev]
      simp only [hb', Option.bind_eq_bind, Option.some_bind]
      rfl
    · simp only [VStmt.noShuffle, Bool.and_eq_true] at hns ⊢
      exact ⟨⟨mutate_noShuffle hRns hs.1.1 hm, hfrom.2.1⟩, hbb.noShuffle⟩
    · simp only [VStmt.varNames, List.mem_append] at hg
      rcases hg with (hg | hg) | hg
      · exact hmo g hg
      · exact heo g (hfrom.2.2 hg)
      · refine (hbb.part (fun g hg => ?_) fun g hg => ?_).origin g hg
        · simp only [VStmt.varNames, VExpr.varNames, List.singleton_append,
            List.append_nil, List.mem_append, List.mem_cons] at hg
          rcases hg with (rfl | hg | hg) | hg
          · simp [VStmt.letNames]
          all_goals simp [VStmt.varNames, hg]
        · exact List.mem_cons_of_mem _ (by simpa only [VStmt.letNames, VExpr.letNames,
            List.nil_append, List.append_nil] using hg)
    · have hmin := (hrm σ _ hσ).scalar hn hv1
      have hext := (hre σ _ hσ).vector hev
      have hL : extent'.type.lanes = vs.replacement.type.lanes := hle.resolve_left hev
      -- `bounds_of_lanes(extent).max` is at least every lane's extent
      have htyped := hh.typed_mutate hσ htσ (by omega) hs.1.2 hext0 ht'.1.1.1.2
        (fun g h => by simp [VStmt.usesVar, h]) (fun g hg => (hextv g hg).1) he0
      have hcov : ∀ k < vs.replacement.type.lanes, (extent.eval (vs.restore containing σ k) 0).toInt
          ≤ ((boundsOfLanes extent').max.eval σ 0).toInt := fun k hk => by
        rw [← hext k hk, (hexact σ htyped).2]
        exact le_laneMax (fun i hi => Val.elem_int ((VExpr.eval_elem het' htyped i hi).trans
          (by rw [hele, ht'.1.2]))) k (hL ▸ hk)
      simp only [VStmt.exec]
      refine (Sim.forExec_guard (W := fun k j => b.exec ((vs.restore containing σ k).bind y
        fun _ => Val.intOp (· + ·) (min'.eval σ 0) (.int j))) (fun k hk => ?_)
        fun j _ => ?_).congr fun k hk => by rw [hmin k hk]
      · have := hcov k hk
        omega
      · refine (hsb _ (hh.inv_bind hyl hσ _) (htj j htσ fun g hg hgy => ?_)).congr fun k hk => ?_
        · exact VStmt.usesVar_guarded hg hgy
        · obtain ⟨m, hm0⟩ := htσ.eval_int hk ht'.1.1.1.1 ht'.1.1.2 fun g h => by
            simp [VStmt.usesVar, h]
          obtain ⟨e, he0⟩ := htσ.eval_int hk ht'.1.1.1.2 ht'.1.2 fun g h => by
            simp [VStmt.usesVar, h]
          rw [hh.restore_bind hyl]
          simp only [VStmt.exec, VExpr.eval, Env.bind_self, VExpr.eval_bind_of_usesVar _ hmy,
            VExpr.eval_bind_of_usesVar _ hey, hmin k hk, hm0, he0, Val.intOp, Val.toInt,
            CmpOp.test]
          by_cases hj : j < e.toNat
          · rw [if_pos hj, if_pos (by simp; omega)]
          · rw [if_neg hj, if_neg (by simp; omega)]
  · -- uniform bounds: every lane runs the same iterations
    have hev1 : extent'.type.lanes = 1 := not_not.1 hev
    obtain ⟨b', hb', hbb, hsb⟩ := ihb
    refine ⟨.forLoop y min' extent' (if ft = .vectorized then .serial else ft) b', ?_,
      ⟨?_, fun g hg => ?_⟩, fun σ hσ htσ => ?_⟩
    · rw [mutateStmt_forLoop hm he, if_neg hv, if_neg hev]
      simp only [hb', Option.bind_eq_bind, Option.some_bind]
      generalize (if ft = .vectorized then .serial else ft) = ft'
      split_ifs with hsame
      · obtain ⟨rfl, rfl, rfl, rfl⟩ := hsame
        rfl
      · rfl
    · simp only [VStmt.noShuffle, Bool.and_eq_true] at hns ⊢
      exact ⟨⟨mutate_noShuffle hRns hs.1.1 hm, mutate_noShuffle hRns hs.1.2 he⟩,
        hbb.noShuffle⟩
    · simp only [VStmt.varNames, List.mem_append] at hg
      rcases hg with (hg | hg) | hg
      · exact hmo g hg
      · exact heo g hg
      · exact (hbb.part (fun _ h => by simp [VStmt.varNames, h]) fun _ h => by
          simp [VStmt.letNames, h]).origin g hg
    · have hmin := (hrm σ _ hσ).scalar hn hv1
      have hext := (hre σ _ hσ).scalar hn hev1
      have hj : ∀ j : Nat, Sim vs.replacement.type.lanes
          (b'.exec (σ.bind y fun _ => Val.intOp (· + ·) (min'.eval σ 0) (.int j)))
          (fun k => b.exec ((vs.restore containing σ k).bind y
            fun _ => Val.intOp (· + ·) (min'.eval σ 0) (.int j))) := fun j =>
        (hsb _ (hh.inv_bind hyl hσ _) (htj j htσ fun g hg hgy => by
          simp [VStmt.usesVar, hg, Ne.symm hgy])).congr fun k _ => by rw [hh.restore_bind hyl]
      refine (Sim.forExec _ fun j _ => hj j).congr fun k hk => ?_
      simp only [VStmt.exec, hmin k hk, hext k hk]

end Visitors

/-! ### Every statement -/

section Main

variable {base : VExpr} (hR : vs.replacement = .ramp base (.intImm 1) vs.replacement.type.lanes)
  (hn : 1 < vs.replacement.type.lanes) (hbase : base.scalarBody = true)
  (hbty : base.type = ⟨.int, 1⟩)
include hR hn hbase hbty

/-- The statement visitors of `VectorSubs` vectorize every well-typed scalar statement that
keeps the naming discipline, under every well-formed scope, in every context that types
the replacement's base and the loop variable as `Int(32)`. The induction runs on the
measure the visitors terminate by: the rebased loop has the size of the loop but
`min = 0`. -/
theorem mutateStmt_vectorizes (s : VStmt) :
    ∀ {Γ scope containing}, s.scalarBody = true → s.typeOk Γ = true → base.typeOk Γ = true →
      (Γ vs.var).elem = .int → vs.StmtHygienic scope containing s → vs.ScopeOk scope →
      vs.Vectorizes Γ scope containing s := by
  intro Γ scope containing
  have hRns : vs.replacement.noShuffle = true := by
    rw [hR]
    simp [VExpr.noShuffle, VExpr.noShuffle_of_scalarBody hbase]
  suffices h : ∀ m (s : VStmt), 2 * s.size + s.rebaseRank = m → ∀ {Γ scope containing},
      s.scalarBody = true → s.typeOk Γ = true → base.typeOk Γ = true → (Γ vs.var).elem = .int →
      vs.StmtHygienic scope containing s → vs.ScopeOk scope → vs.Vectorizes Γ scope containing s
    from h _ s rfl
  intro m
  induction m using Nat.strongRecOn with
  | ind m ih =>
    have ih' : ∀ t : VStmt, 2 * t.size + t.rebaseRank < m → ∀ {Γ scope containing},
        t.scalarBody = true → t.typeOk Γ = true → base.typeOk Γ = true →
        (Γ vs.var).elem = .int → vs.StmtHygienic scope containing t → vs.ScopeOk scope →
        vs.Vectorizes Γ scope containing t := fun t ht => ih _ ht t rfl
    intro s hm Γ scope containing hs ht hbt hx hh hok
    cases s with
    | letStmt n v b =>
      have := rebaseRank_le b
      simp only [VStmt.size, VStmt.rebaseRank] at hm
      have hs' := hs
      simp only [VStmt.scalarBody, Bool.and_eq_true] at hs'
      have ht' := ht
      simp only [VStmt.typeOk, Bool.and_eq_true] at ht'
      obtain ⟨hbt', hx'⟩ := hh.ctx_update hR (List.mem_cons_self _ _) v.type hbt hx
      exact vectorizes_letStmt hn hok hRns hs ht hh fun _ _ hh' hok' =>
        ih' b (by omega) hs'.2 ht'.2 hbt' hx' hh' hok'
    | store _ _ _ _ => exact vectorizes_store hn hok hRns hs hh
    | assertStmt _ => exact vectorizes_assert hn hs hh
    | block a b =>
      have := rebaseRank_le a
      have := rebaseRank_le b
      simp only [VStmt.size, VStmt.rebaseRank] at hm
      simp only [VStmt.scalarBody, Bool.and_eq_true] at hs
      simp only [VStmt.typeOk, Bool.and_eq_true] at ht
      exact vectorizes_block (ih' a (by omega) hs.1 ht.1 hbt hx hh.left hok)
        (ih' b (by omega) hs.2 ht.2 hbt hx hh.right hok)
    | ifThenElse c a b =>
      have := rebaseRank_le a
      have := rebaseRank_le b
      simp only [VStmt.size, VStmt.rebaseRank] at hm
      have hs' := hs
      simp only [VStmt.scalarBody, Bool.and_eq_true] at hs'
      have ht' := ht
      simp only [VStmt.typeOk, Bool.and_eq_true] at ht'
      exact vectorizes_ifThenElse hn hok hR hbase hbt hbty hx hs ht hh
        (ih' a (by omega) hs'.1.2 ht'.1.2 hbt hx hh.thenCase hok)
        (ih' b (by omega) hs'.2 ht'.2 hbt hx hh.elseCase hok)
    | forLoop y min extent ft b =>
      have := rebaseRank_le b
      have hs' := hs
      simp only [VStmt.scalarBody, Bool.and_eq_true] at hs'
      have ht' := ht
      simp only [VStmt.typeOk, Bool.and_eq_true] at ht'
      have hfr := hh.fresh
      simp only [VStmt.letNames, VStmt.usesVar, List.mem_cons, List.mem_append,
        Bool.or_eq_false_iff, Bool.and_eq_false_iff, bne_eq_false_iff_eq] at hfr
      have hny := (List.nodup_cons.1 hh.nodup).1
      obtain ⟨hbt', hx'⟩ := hh.ctx_update hR (List.mem_cons_self _ _) ⟨.int, 1⟩ hbt hx
      refine vectorizes_forLoop hn hok hR hbase hbt hbty hx hs ht hh
        (ih' b (by simp only [VStmt.size] at hm; omega) hs'.2 ht'.2 hbt' hx' hh.forBody hok)
        (fun hmin => ih' _ (by simp only [VStmt.size, VStmt.rebaseRank_ifThenElse] at hm ⊢; omega)
          ?_ (VStmt.typeOk_guarded ht (hfr y (.inl rfl)).1.1 (hfr y (.inl rfl)).1.2) hbt' hx'
          (hh.guarded hmin) hok)
        fun min' hm' hv => ih' _ ?_ ?_ (VStmt.typeOk_rebase ht (hfr y (.inl rfl)).1.1
          (fun n hn => ⟨fun he => hny (he ▸ List.mem_append_right _ hn),
            (hfr n (.inr (.inr hn))).1.1⟩) _) hbt hx (hh.rebase _) hok
      · simp [VStmt.scalarBody, VExpr.scalarBody, hs'.1.1, hs'.1.2, hs'.2]
      · have := @rebaseRank_rebase vs scope y min min' extent ft b hm' hv
        simp only [VStmt.size, VStmt.size_substitute, VStmt.rebaseRank_zero] at hm this ⊢
        omega
      · simp [VStmt.scalarBody, VExpr.scalarBody, hs'.1.2,
          VStmt.scalarBody_substitute (by simp [VExpr.scalarBody, hs'.1.1] : (VExpr.add
            (.var ⟨.int, 1⟩ y) min).scalarBody = true) hs'.2]
    | undef =>
      exact ⟨.undef, by rw [mutateStmt], ⟨rfl, fun _ h => by cases h⟩, fun _ _ _ => Sim.nil⟩

end Main

end VectorSubs

/-- `VectorizeLoops` on a loop marked `Vectorized` over a constant extent `n > 1`, from a
scalar `min` that does not read the loop variable, whose body is scalar, keeps the naming
discipline, and is well typed in a context `Γ`: it succeeds, and from every environment
that gives the names the loop reads lanes of their types in `Γ`, the vectorized statement
simulates the iterations of the loop. -/
theorem vectorizeLoops_sim {Γ : String → VType} {name : String} {min : VExpr} {n : Int}
    {body : VStmt} (hn : 1 < n) (hmin : min.scalarBody = true) (hmy : min.usesVar name = false)
    (hb : body.scalarBody = true)
    (ht : (VStmt.forLoop name min (.intImm n) .vectorized body).typeOk Γ = true)
    (hh : (VectorSubs.ofLoop name min n.toNat).StmtHygienic [] [] body) :
    ∃ s', vectorizeLoops (.forLoop name min (.intImm n) .vectorized body) = .ok s' ∧
      ∀ env, (∀ g, (VStmt.forLoop name min (.intImm n) .vectorized body).usesVar g = true →
          env.Typed Γ g) →
        Sim n.toNat (s'.exec env) fun i =>
          body.exec (env.bind name fun _ => Val.intOp (· + ·) (min.eval env 0) (.int i)) := by
  simp only [VStmt.typeOk, Bool.and_eq_true, beq_iff_eq] at ht
  obtain ⟨s', hs', -, hsim⟩ :=
    @VectorSubs.mutateStmt_vectorizes (VectorSubs.ofLoop name min n.toNat) min rfl
      (show 1 < n.toNat by omega) hmin ht.1.1.2 body (fun m => if m = name then ⟨.int, 1⟩ else Γ m)
      [] [] hb ht.2 ((VExpr.typeOk_update hmy).trans ht.1.1.1.1) (by simp [VectorSubs.ofLoop])
      hh ⟨fun _ _ h => (by cases h), rfl⟩
  refine ⟨s', by simp [vectorizeLoops, Int.not_le.2 hn, hs'], fun env henv =>
    (hsim env (VectorSubs.Inv.nil _ env) ⟨fun k _ g hg => ?_, fun g hg => ?_⟩).congr
      fun i _ => ?_⟩
  · -- iteration `k` binds the loop variable to an integer
    simp only [VectorSubs.restore, List.foldl_nil, VectorSubs.atLane]
    by_cases hgn : g = name
    · subst hgn
      exact Env.typed_bind_self fun _ _ => by simp [VectorSubs.ofLoop, VExpr.eval]
    · exact Env.typed_bind_of_ne hgn (by simp [hgn]) (henv g (by simp [VStmt.usesVar, hg,
        Ne.symm hgn]))
  · -- the replacement reads what `min` reads
    have hgm : min.usesVar g = true := by simpa [VectorSubs.ofLoop, VExpr.usesVar] using hg
    have hgn : g ≠ name := fun he => by simp [he, hmy] at hgm
    simpa [Env.Typed, hgn] using henv g (by simp [VStmt.usesVar, hgm])
  · have : Val.intOp (· * ·) (.int i) (.int 1) = .int i := by simp [Val.intOp]
    simp only [VectorSubs.restore, VectorSubs.atLane, VectorSubs.ofLoop, VExpr.eval, this,
      List.foldl_nil]

end HalideSchedule.Vectorize
