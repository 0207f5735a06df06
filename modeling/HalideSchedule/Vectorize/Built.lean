import HalideSchedule.Vectorize.Hygiene

/-!
# HalideSchedule.Vectorize.Built

**What the statement visitors build, by its names.** After it visits the body of a
widened `LetStmt`, `VectorSubs` runs `ReplaceShuffleVectors` over the new body and then
defines the lanes and the bounds of the widened value that the body reads (`laneLets`).
On a scalar loop body that keeps the naming discipline both steps change nothing: the
visitors extract no lane, and what they build reads a name derived from a binder only
as that binder's widened name, never `t.x4.lane.0` or `t.x4.min_lane`. `Built` records
both facts of the statement built from `s`, with the names it may read (`Origin`):

* `mutate_varNames`, `mutate_noShuffle` — a mutated expression reads names of the
  expression, names of the replacement and widened names, and extracts no lane;
* `mutate_of_scope_fresh` — an expression that reads no widened `Let` is mutated as under
  no scope (the extents of inner loops);
* `StmtHygienic.derived_origin` — under the discipline, a name with an `Origin` that is
  derived from a binder is its widened name;
* `laneLets_replaceShuffleVectors` — hence the end of the `LetStmt` visitor is the
  identity on what the visitors built.
-/

namespace HalideSchedule.Vectorize

/-! ### Lanes extracted -/

/-- No `extract_lane` of a variable, the node `ReplaceShuffleVectors` rewrites. -/
def VExpr.noShuffle : VExpr → Bool
  | .intImm _ | .boolImm _ | .var _ _ => true
  | .add a b | .sub a b | .mul a b | .div a b | .min a b | .max a b | .and a b | .or a b
  | .cmp _ a b | .ramp a b _ | .letIn _ a b => a.noShuffle && b.noShuffle
  | .not a | .likely a | .broadcast a _ => a.noShuffle
  | .extractLane (.var _ _) _ => false
  | .extractLane a _ => a.noShuffle

/-- No `extract_lane` in a statement. -/
def VStmt.noShuffle : VStmt → Bool
  | .letStmt _ v body => v.noShuffle && body.noShuffle
  | .assertStmt c => c.noShuffle
  | .store _ v i p => v.noShuffle && i.noShuffle && p.noShuffle
  | .forLoop _ min extent _ body => min.noShuffle && extent.noShuffle && body.noShuffle
  | .block a b => a.noShuffle && b.noShuffle
  | .ifThenElse c a b => c.noShuffle && a.noShuffle && b.noShuffle
  | .undef => true

theorem VExpr.replaceShuffleVectors_of_noShuffle (name : String) {e : VExpr}
    (h : e.noShuffle = true) : e.replaceShuffleVectors name = e := by
  induction e with
  | intImm _ | boolImm _ | var _ _ => rfl
  | add a b iha ihb | sub a b iha ihb | mul a b iha ihb | div a b iha ihb
  | min a b iha ihb | max a b iha ihb | and a b iha ihb | or a b iha ihb
  | cmp _ a b iha ihb | ramp a b _ iha ihb | letIn _ a b iha ihb =>
    simp only [noShuffle, Bool.and_eq_true] at h
    simp only [replaceShuffleVectors, iha h.1, ihb h.2]
  | not a ih | likely a ih | broadcast a _ ih => simp only [replaceShuffleVectors, ih h]
  | extractLane a _ ih =>
    cases a
    case var => cases h
    all_goals exact congrArg (extractLane · _) (ih h)

theorem VStmt.replaceShuffleVectors_of_noShuffle (name : String) {s : VStmt}
    (h : s.noShuffle = true) : s.replaceShuffleVectors name = s := by
  induction s with
  | letStmt _ v _ ih =>
    simp only [noShuffle, Bool.and_eq_true] at h
    simp only [replaceShuffleVectors, VExpr.replaceShuffleVectors_of_noShuffle name h.1, ih h.2]
  | assertStmt c =>
    simp only [replaceShuffleVectors, VExpr.replaceShuffleVectors_of_noShuffle name h]
  | store _ v i p =>
    simp only [noShuffle, Bool.and_eq_true] at h
    simp only [replaceShuffleVectors, VExpr.replaceShuffleVectors_of_noShuffle name h.1.1,
      VExpr.replaceShuffleVectors_of_noShuffle name h.1.2,
      VExpr.replaceShuffleVectors_of_noShuffle name h.2]
  | forLoop _ min e _ _ ih =>
    simp only [noShuffle, Bool.and_eq_true] at h
    simp only [replaceShuffleVectors, VExpr.replaceShuffleVectors_of_noShuffle name h.1.1,
      VExpr.replaceShuffleVectors_of_noShuffle name h.1.2, ih h.2]
  | block _ _ iha ihb =>
    simp only [noShuffle, Bool.and_eq_true] at h
    simp only [replaceShuffleVectors, iha h.1, ihb h.2]
  | ifThenElse c _ _ iha ihb =>
    simp only [noShuffle, Bool.and_eq_true] at h
    simp only [replaceShuffleVectors, VExpr.replaceShuffleVectors_of_noShuffle name h.1.1,
      iha h.1.2, ihb h.2]
  | undef => rfl

theorem VExpr.noShuffle_of_scalarBody {e : VExpr} (h : e.scalarBody = true) :
    e.noShuffle = true := by
  induction e with
  | intImm _ | boolImm _ | var _ _ => rfl
  | add a b iha ihb | sub a b iha ihb | mul a b iha ihb | div a b iha ihb
  | min a b iha ihb | max a b iha ihb | and a b iha ihb | or a b iha ihb
  | cmp _ a b iha ihb | letIn _ a b iha ihb =>
    simp only [scalarBody, Bool.and_eq_true] at h
    simp only [noShuffle, iha h.1, ihb h.2, Bool.and_self]
  | not a ih | likely a ih => exact ih h
  | ramp _ _ _ _ _ | broadcast _ _ _ | extractLane _ _ _ => cases h

theorem VStmt.noShuffle_of_scalarBody {s : VStmt} (h : s.scalarBody = true) :
    s.noShuffle = true := by
  induction s with
  | letStmt _ v _ ih =>
    simp only [scalarBody, Bool.and_eq_true] at h
    simp only [noShuffle, VExpr.noShuffle_of_scalarBody h.1, ih h.2, Bool.and_self]
  | assertStmt c => exact VExpr.noShuffle_of_scalarBody h
  | store _ v i p =>
    simp only [scalarBody, Bool.and_eq_true] at h
    simp only [noShuffle, VExpr.noShuffle_of_scalarBody h.1.1, VExpr.noShuffle_of_scalarBody h.1.2,
      VExpr.noShuffle_of_scalarBody h.2, Bool.and_self]
  | forLoop _ min e _ _ ih =>
    simp only [scalarBody, Bool.and_eq_true] at h
    simp only [noShuffle, VExpr.noShuffle_of_scalarBody h.1.1, VExpr.noShuffle_of_scalarBody h.1.2,
      ih h.2, Bool.and_self]
  | block _ _ iha ihb =>
    simp only [scalarBody, Bool.and_eq_true] at h
    simp only [noShuffle, iha h.1, ihb h.2, Bool.and_self]
  | ifThenElse c _ _ iha ihb =>
    simp only [scalarBody, Bool.and_eq_true] at h
    simp only [noShuffle, VExpr.noShuffle_of_scalarBody h.1.1, iha h.1.2, ihb h.2, Bool.and_self]
  | undef => rfl

/-! ### Names of what the visitors build -/

namespace VectorSubs

/-! ### The end of the `LetStmt` visitor -/

/-- `laneLets` adds nothing to a body that reads no name extending `name`. -/
theorem laneLets_of_usesVar {name : String} {value : VExpr} {body : VStmt}
    (h : ∀ t, body.usesVar (name ++ t) = true → t = "") : laneLets name value body = body := by
  have hne : ∀ t : String, t.data ≠ [] → body.usesVar (name ++ t) = false := fun t ht =>
    Bool.eq_false_iff.2 fun hu => ht (by rw [h t hu])
  have hlane : ∀ i : Nat, body.usesVar (name ++ ".lane." ++ toString i) = false := fun i => by
    rw [String.append_assoc]
    exact hne _ (by simp [String.data_append])
  unfold laneLets
  rw [List.foldl_fixed' ?_, if_neg (by simp [hne ".max_lane" (by decide)]),
    if_neg (by simp [hne ".min_lane" (by decide)])]
  exact fun i => if_neg (by simp [hlane])

theorem widen_eq {e w : VExpr} {lanes : Nat} (h : widen e lanes = some w) :
    w = e ∨ w = .broadcast e lanes := by
  unfold widen at h
  split_ifs at h <;> simp_all

/-- A property of expressions that `Broadcast` and the node `mk` keep holds of what
`mutate_binary_operator` builds from operands that have it. -/
theorem binary_of {P : VExpr → Prop} {mk : VExpr → VExpr → VExpr} {a b a' b' v : VExpr}
    (hP : ∀ e lanes, P e → P (.broadcast e lanes)) (hmk : ∀ x y, P x → P y → P (mk x y))
    (hab : P (mk a b)) (ha : P a') (hb : P b') (h : binary mk a b a' b' = some v) : P v := by
  have hw : ∀ {e w lanes}, P e → widen e lanes = some w → P w := fun he hw => by
    rcases widen_eq hw with rfl | rfl
    exacts [he, hP _ _ he]
  unfold binary at h
  split_ifs at h
  · cases h; exact hab
  · simp only [Option.pure_def, Option.bind_eq_bind, Option.bind_eq_some, Option.some.injEq] at h
    obtain ⟨wa, hwa, wb, hwb, rfl⟩ := h
    exact hmk _ _ (hw ha hwa) (hw hb hwb)

/-- Where a name that what the visitors build reads comes from: a name of `vars`, of the
replacement, or the widened name of a name in scope or of one of `lets`, the binders. -/
def NameOrigin (vs : VectorSubs) (scope : List (String × VExpr)) (vars lets : List String)
    (g : String) : Prop :=
  g ∈ vars ∨ g ∈ vs.replacement.varNames ∨
    ∃ k ∈ scope.map Prod.fst ++ lets, g = k ++ vs.wideningSuffix

theorem NameOrigin.mono {vs : VectorSubs} {scope scope' : List (String × VExpr)}
    {vars vars' lets lets' : List String} {g : String} (hv : vars ⊆ vars')
    (hk : scope.map Prod.fst ++ lets ⊆ scope'.map Prod.fst ++ lets')
    (h : vs.NameOrigin scope vars lets g) : vs.NameOrigin scope' vars' lets' g :=
  h.imp (fun h => hv h) (Or.imp_right fun ⟨k, hk', he⟩ => ⟨k, hk hk', he⟩)

/-- Fewer names to read and bind under the same scope. -/
theorem NameOrigin.sub {vs : VectorSubs} {scope : List (String × VExpr)}
    {vars vars' lets lets' : List String} {g : String} (hv : vars ⊆ vars') (hl : lets ⊆ lets')
    (h : vs.NameOrigin scope vars lets g) : vs.NameOrigin scope vars' lets' g :=
  h.mono hv fun k hk => by
    simp only [List.mem_append] at hk ⊢
    exact hk.imp_right fun h => hl h

/-- The names a mutated expression reads. -/
theorem mutate_varNames {vs : VectorSubs} {e : VExpr} :
    ∀ {scope : List (String × VExpr)} {e'}, vs.mutate scope e = some e' →
      ∀ g ∈ e'.varNames, vs.NameOrigin scope e.varNames e.letNames g := by
  induction e with
  | intImm _ | boolImm _ =>
    intro scope e' h g hg
    cases h; cases hg
  | var t n =>
    intro scope e' h g hg
    simp only [mutate] at h
    split_ifs at h with hx
    · cases h; exact .inr (.inl hg)
    · split at h <;> cases h <;> simp only [VExpr.varNames, List.mem_singleton] at hg <;> subst hg
      · exact .inr (.inr ⟨n, List.mem_append_left _ (List.mem_keys_of_lookup ‹_›), rfl⟩)
      · exact .inl (List.mem_singleton_self _)
  | add a b iha ihb | sub a b iha ihb | mul a b iha ihb | div a b iha ihb
  | min a b iha ihb | max a b iha ihb | and a b iha ihb | or a b iha ihb
  | cmp _ a b iha ihb =>
    intro scope e' h
    simp only [mutate, Option.bind_eq_bind, Option.bind_eq_some] at h
    obtain ⟨a', ha, b', hb, h⟩ := h
    refine binary_of (P := fun x => ∀ g ∈ x.varNames, vs.NameOrigin scope _ _ g)
      (fun _ _ h => h) (fun x y hx hy g hg => ?_) (fun g hg => .inl hg)
      (fun g hg => (iha ha g hg).sub (List.subset_append_left _ _) (List.subset_append_left _ _))
      (fun g hg => (ihb hb g hg).sub (List.subset_append_right _ _) (List.subset_append_right _ _))
      h
    simp only [VExpr.varNames, List.mem_append] at hg
    exact hg.elim (hx g) (hy g)
  | not a iha | likely a iha | broadcast a _ iha | extractLane a _ iha =>
    intro scope e' h g hg
    simp only [mutate, Option.bind_eq_bind, Option.bind_eq_some, Option.pure_def,
      Option.some.injEq] at h
    obtain ⟨a', ha, h⟩ := h
    split_ifs at h <;> cases h <;> simp only [VExpr.varNames] at hg
    all_goals first
      | exact .inl hg
      | exact iha ha g hg
  | ramp a b _ iha ihb =>
    intro scope e' h g hg
    simp only [mutate, Option.bind_eq_bind, Option.bind_eq_some, Option.pure_def] at h
    obtain ⟨a', ha, b', hb, h⟩ := h
    split_ifs at h <;> cases h
    · exact .inl hg
    · simp only [VExpr.varNames, List.mem_append] at hg
      rcases hg with hg | hg
      · exact (iha ha g hg).sub (List.subset_append_left _ _) (List.subset_append_left _ _)
      · exact (ihb hb g hg).sub (List.subset_append_right _ _) (List.subset_append_right _ _)
  | letIn n v b ihv ihb =>
    intro scope e' h g hg
    simp only [mutate, Option.bind_eq_bind, Option.bind_eq_some, Option.pure_def] at h
    obtain ⟨v', hv, b', hb, h⟩ := h
    have hb' : ∀ g ∈ b'.varNames, vs.NameOrigin scope (v.varNames ++ b.varNames)
        (n :: (v.letNames ++ b.letNames)) g := fun g hg =>
      (ihb hb g hg).mono (List.subset_append_right _ _) fun k hk => by
        simp only [List.mem_append, List.mem_cons]
        split_ifs at hk
        · simp only [List.map_cons, List.cons_append, List.mem_cons, List.mem_append] at hk
          rcases hk with rfl | hk | hk
          exacts [.inr (.inl rfl), .inl hk, .inr (.inr (.inr hk))]
        · exact (List.mem_append.mp hk).imp_right fun hk => .inr (.inr hk)
    have hv' : ∀ g ∈ v'.varNames, vs.NameOrigin scope (v.varNames ++ b.varNames)
        (n :: (v.letNames ++ b.letNames)) g := fun g hg =>
      (ihv hv g hg).sub (List.subset_append_left _ _)
        ((List.subset_append_left _ _).trans (List.subset_cons_self _ _))
    split_ifs at h <;> cases h <;> simp only [VExpr.varNames, List.mem_append] at hg
    · exact .inl (List.mem_append.2 hg)
    all_goals exact hg.elim (hv' g) (hb' g)

theorem mutate_noShuffle {vs : VectorSubs} (hR : vs.replacement.noShuffle = true) {e : VExpr} :
    ∀ {scope : List (String × VExpr)} {e'}, e.scalarBody = true → vs.mutate scope e = some e' →
      e'.noShuffle = true := by
  induction e with
  | intImm _ | boolImm _ => intro scope e' _ h; cases h; rfl
  | var t n =>
    intro scope e' _ h
    simp only [mutate] at h
    split_ifs at h
    · cases h; exact hR
    · split at h <;> cases h <;> rfl
  | add a b iha ihb | sub a b iha ihb | mul a b iha ihb | div a b iha ihb
  | min a b iha ihb | max a b iha ihb | and a b iha ihb | or a b iha ihb
  | cmp _ a b iha ihb =>
    intro scope e' he h
    have hns := VExpr.noShuffle_of_scalarBody he
    simp only [VExpr.scalarBody, Bool.and_eq_true] at he
    simp only [mutate, Option.bind_eq_bind, Option.bind_eq_some] at h
    obtain ⟨a', ha, b', hb, h⟩ := h
    exact binary_of (P := fun x => x.noShuffle = true) (fun _ _ h => h)
      (fun x y hx hy => by simp [VExpr.noShuffle, hx, hy]) hns (iha he.1 ha) (ihb he.2 hb) h
  | not a iha | likely a iha =>
    intro scope e' he h
    simp only [mutate, Option.bind_eq_bind, Option.bind_eq_some, Option.pure_def,
      Option.some.injEq] at h
    obtain ⟨a', ha, h⟩ := h
    split_ifs at h <;> cases h
    exacts [VExpr.noShuffle_of_scalarBody he, (iha he ha :)]
  | letIn _ a b iha ihb =>
    intro scope e' he h
    simp only [VExpr.scalarBody, Bool.and_eq_true] at he
    simp only [mutate, Option.bind_eq_bind, Option.bind_eq_some, Option.pure_def] at h
    obtain ⟨a', ha, b', hb, h⟩ := h
    split_ifs at h <;> cases h <;>
      simp [VExpr.noShuffle, VExpr.noShuffle_of_scalarBody he.1, VExpr.noShuffle_of_scalarBody he.2,
        iha he.1 ha, ihb he.2 hb]
  | ramp _ _ _ _ _ | broadcast _ _ _ | extractLane _ _ _ => intro _ _ he; cases he

/-! ### Statements built -/

/-- Where a name that the statement built from `s` reads comes from: a name `s` reads or
binds, a name an original binding reads, the replacement, or a widened name. -/
def Origin (vs : VectorSubs) (scope containing : List (String × VExpr)) (s : VStmt)
    (g : String) : Prop :=
  vs.NameOrigin scope (s.varNames ++ s.letNames ++ containing.flatMap fun l => l.2.varNames)
    s.letNames g

/-- What the statement visitors build from `s`: it extracts no lane, and every name it
reads has its `Origin`. -/
structure Built (vs : VectorSubs) (scope containing : List (String × VExpr)) (s s' : VStmt) :
    Prop where
  noShuffle : s'.noShuffle = true
  origin : ∀ g ∈ s'.varNames, vs.Origin scope containing s g

variable {vs : VectorSubs} {scope containing : List (String × VExpr)}

/-- A name an expression of `s` brings. -/
theorem Origin.ofExpr {s : VStmt} {vars lets : List String} {g : String}
    (h : vs.NameOrigin scope vars lets g) (hv : vars ⊆ s.varNames) (hl : lets ⊆ s.letNames) :
    vs.Origin scope containing s g :=
  h.sub (fun _ h => List.mem_append_left _ (List.mem_append_left _ (hv h))) hl

/-- A name the body of a widened `LetStmt` brings. -/
theorem Origin.widened {n : String} {v v' : VExpr} {b : VStmt} {g : String}
    (h : vs.Origin ((n, v') :: scope) (containing ++ [(n, v)]) b g) :
    vs.Origin scope containing (.letStmt n v b) g := by
  refine h.mono (fun m hm => ?_) fun m hm => ?_ <;>
    simp only [VStmt.varNames, VStmt.letNames, List.map_cons, List.flatMap_append,
      List.flatMap_cons, List.flatMap_nil, List.append_nil, List.mem_append,
      List.mem_cons] at hm ⊢ <;>
    tauto

theorem Built.self {s : VStmt} (hs : s.scalarBody = true) : vs.Built scope containing s s :=
  ⟨VStmt.noShuffle_of_scalarBody hs, fun _ hg => .inl (List.mem_append_left _
    (List.mem_append_left _ hg))⟩

/-- What was built from a part `t` of `s` was built from `s`. -/
theorem Built.part {s t t' : VStmt} (h : vs.Built scope containing t t')
    (hv : t.varNames ⊆ s.varNames ++ s.letNames) (hl : t.letNames ⊆ s.letNames) :
    vs.Built scope containing s t' :=
  ⟨h.noShuffle, fun g hg => (h.origin g hg).sub (fun m hm => by
    simp only [List.mem_append] at hm ⊢
    rcases hm with (hm | hm) | hm
    · exact .inl (List.mem_append.1 (hv hm))
    · exact .inl (.inr (hl hm))
    · exact .inr hm) hl⟩

theorem wrapLets_varNames (containing : List (String × VExpr)) (t : VStmt) :
    (wrapLets containing t).varNames =
      (containing.flatMap fun l => l.2.varNames) ++ t.varNames := by
  induction containing with
  | nil => rfl
  | cons l c ih => simp [wrapLets, VStmt.varNames, ← ih]

theorem wrapLets_noShuffle {t : VStmt} (hc : ∀ l ∈ containing, l.2.scalarBody = true)
    (ht : t.noShuffle = true) : (wrapLets containing t).noShuffle = true := by
  induction containing with
  | nil => exact ht
  | cons l c ih =>
    simp only [List.mem_cons, forall_eq_or_imp] at hc
    simp [wrapLets, VStmt.noShuffle, VExpr.noShuffle_of_scalarBody hc.1, ← ih hc.2]

/-- `scalarize` builds from a scalar part `t` of `s`. -/
theorem Built.scalarize {base stride : VExpr} {lanes : Nat}
    (hR : vs.replacement = .ramp base stride lanes) (hbase : base.noShuffle = true)
    (hc : ∀ l ∈ containing, l.2.scalarBody = true) {s t t' : VStmt} (ht : t.scalarBody = true)
    (hv : t.varNames ⊆ s.varNames) (h : vs.scalarize containing t = some t') :
    vs.Built scope containing s t' := by
  simp only [VectorSubs.scalarize, hR, Option.some.injEq] at h
  subst h
  refine ⟨by simp [VStmt.noShuffle, VExpr.noShuffle, hbase,
    wrapLets_noShuffle hc (VStmt.noShuffle_of_scalarBody ht)], fun g hg => ?_⟩
  simp only [VStmt.varNames, VExpr.varNames, wrapLets_varNames, List.append_nil,
    List.mem_append] at hg
  rcases hg with hg | hg | hg
  · exact .inr (.inl (by simp [hR, VExpr.varNames, hg]))
  · exact .inl (List.mem_append_right _ hg)
  · exact .inl (List.mem_append_left _ (List.mem_append_left _ (hv hg)))

/-- The `Store` visitor builds from what became of the value, the index and the predicate,
each widened. -/
theorem Built.store (hR : vs.replacement.noShuffle = true) {name : String}
    {v i p v' i' p' wv wi wp : VExpr} {lv li lp : Nat}
    (hs : (VStmt.store name v i p).scalarBody = true) (hv : vs.mutate scope v = some v')
    (hi : vs.mutate scope i = some i') (hp : vs.mutate scope p = some p')
    (hwv : widen v' lv = some wv) (hwi : widen i' li = some wi) (hwp : widen p' lp = some wp) :
    vs.Built scope containing (.store name v i p) (.store name wv wi wp) := by
  simp only [VStmt.scalarBody, Bool.and_eq_true] at hs
  have hw : ∀ {x x' w : VExpr} {l}, x.scalarBody = true → vs.mutate scope x = some x' →
      widen x' l = some w → w.noShuffle = true ∧
        ∀ g ∈ w.varNames, vs.NameOrigin scope x.varNames x.letNames g := fun hxs hx hw' => by
    rcases widen_eq hw' with rfl | rfl
    exacts [⟨mutate_noShuffle hR hxs hx, mutate_varNames hx⟩,
      ⟨(mutate_noShuffle hR hxs hx :), (mutate_varNames hx :)⟩]
  obtain ⟨h1, o1⟩ := hw hs.1.1 hv hwv
  obtain ⟨h2, o2⟩ := hw hs.1.2 hi hwi
  obtain ⟨h3, o3⟩ := hw hs.2 hp hwp
  refine ⟨by simp [VStmt.noShuffle, h1, h2, h3], fun g hg => ?_⟩
  simp only [VStmt.varNames, List.mem_append] at hg
  rcases hg with (hg | hg) | hg
  · exact Origin.ofExpr (o1 g hg) (fun _ h => List.mem_append_left _ (List.mem_append_left _ h))
      (fun _ h => List.mem_append_left _ (List.mem_append_left _ h))
  · exact Origin.ofExpr (o2 g hg) (fun _ h => List.mem_append_left _ (List.mem_append_right _ h))
      (fun _ h => List.mem_append_left _ (List.mem_append_right _ h))
  · exact Origin.ofExpr (o3 g hg) (fun _ h => List.mem_append_right _ h)
      (fun _ h => List.mem_append_right _ h)

/-- Under the discipline, a name with an `Origin` that is derived from a binder or a name
in scope is that name's widened name. -/
theorem StmtHygienic.derived_origin {s : VStmt} (h : vs.StmtHygienic scope containing s)
    {g n : String} (hg : vs.Origin scope containing s g)
    (hn : n ∈ s.letNames ++ scope.map Prod.fst) (hd : vs.Derived n g) :
    g = n ++ vs.wideningSuffix := by
  rcases hg with hg | hg | ⟨k, hk, rfl⟩
  · simp only [List.mem_append, List.mem_flatMap] at hg
    rcases hg with (hg | hg) | ⟨l, hl, hg⟩
    · exact absurd hd (h.underived n hn g (by simp [hg]))
    · exact absurd hd (h.underived n hn g (by simp [hg]))
    · exact absurd hd (((h.originals l hl).2 g hg).2 n hn)
  · exact absurd hd ((h.replacement g hg).2 n hn)
  · rw [h.widened n hn k (by simp only [List.mem_append] at hk ⊢; exact hk.symm) hd]

/-- The end of the `LetStmt` visitor on what the visitors built from the body of a widened
`LetStmt` of `n`: `ReplaceShuffleVectors` finds no lane extracted, and the body reads no
lane nor bound of the widened value. -/
theorem laneLets_replaceShuffleVectors {n : String} {v' : VExpr} {b body' : VStmt}
    (hh : vs.StmtHygienic ((n, v') :: scope) containing b)
    (hb : vs.Built ((n, v') :: scope) containing b body') :
    laneLets (n ++ vs.wideningSuffix) v'
      (body'.replaceShuffleVectors (n ++ vs.wideningSuffix)) = body' := by
  rw [VStmt.replaceShuffleVectors_of_noShuffle _ hb.noShuffle]
  refine laneLets_of_usesVar fun t ht => ?_
  have hd : vs.Derived n (n ++ vs.wideningSuffix ++ t) := by
    show (n ++ vs.wideningSuffix).data <+: (n ++ vs.wideningSuffix ++ t).data
    rw [String.data_append (n ++ vs.wideningSuffix) t]
    exact List.prefix_append _ _
  have := congrArg String.data (hh.derived_origin (hb.origin _ (VStmt.mem_varNames_of_usesVar ht))
    (by simp) hd)
  rw [String.data_append (n ++ vs.wideningSuffix) t, List.append_right_eq_self] at this
  exact String.ext this

/-- An expression without `Let`s that reads no name in scope is mutated as under no scope:
only the loop variable changes (the extents of inner loops). -/
theorem mutate_of_scope_fresh {vs : VectorSubs} {scope : List (String × VExpr)} {e : VExpr}
    (hl : e.letNames = []) (hv : ∀ g ∈ e.varNames, g ∉ scope.map Prod.fst) :
    vs.mutate scope e = vs.mutate [] e := by
  induction e with
  | intImm _ | boolImm _ => rfl
  | var t n =>
    have : scope.lookup n = none := List.lookup_eq_none_iff.2 fun p hp =>
      bne_iff_ne.2 fun h => hv n (List.mem_singleton_self _) (List.mem_map.2 ⟨p, hp, h.symm⟩)
    simp only [mutate, this, List.lookup_nil]
  | add a b iha ihb | sub a b iha ihb | mul a b iha ihb | div a b iha ihb
  | min a b iha ihb | max a b iha ihb | and a b iha ihb | or a b iha ihb
  | cmp _ a b iha ihb | ramp a b _ iha ihb =>
    simp only [VExpr.letNames, List.append_eq_nil] at hl
    simp only [VExpr.varNames, List.mem_append] at hv
    rw [mutate, mutate, iha hl.1 fun g hg => hv g (.inl hg), ihb hl.2 fun g hg => hv g (.inr hg)]
  | not a ih | likely a ih | broadcast a _ ih | extractLane a _ ih => rw [mutate, mutate, ih hl hv]
  | letIn _ _ _ _ _ => cases hl

end VectorSubs

end HalideSchedule.Vectorize
