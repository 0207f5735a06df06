import HalideSchedule.Vectorize.Built
import HalideSchedule.Vectorize.Exactness

/-!
# HalideSchedule.Vectorize.Typing

**The types the vectorizer relies on, and what it may take from `bounds_of_lanes`.** Two
visitors of `VectorSubs` decide by `bounds_of_lanes` of a widened expression: the `For`
visitor runs a loop whose extent became a vector up to `bounds_of_lanes(extent).max`, and
the `IfThenElse` visitor takes the vectorized branch of a `likely` condition when
`bounds_of_lanes(c).min` is true. Both are sound when the bounds are exact, which
`Vectorize.Exactness` proves of well-typed expressions that avoid three rules. This module
carries that result to the expressions the visitors build:

* `VStmt.typeOk` — the types Halide's IR gives lowered code, with the context each
  `LetStmt` and `For` extends;
* `VectorSubs.mutate_bounded` — on an expression without `Let`s under no widened name,
  `VectorSubs` keeps what does not read the loop variable and makes the rest a vector of
  the replacement's lanes; the result is well typed (`mutate_typeOk`) and takes only exact
  rules when the source is bounded (`mutate_exactRulesOnly`);
* `Interval.From` — the bounds of such a vector read its names and extract no lane of a
  variable, so the visitors may build them;
* `laneMin_eq_true`, `le_laneMax` — on exact bounds, a least lane `true` means every lane
  is, and every lane is at most the greatest.
-/

namespace HalideSchedule.Vectorize

/-! ### Typed environments -/

theorem Env.typed_bind_self {Γ : String → VType} {env : Env} {n : String} {T : VType}
    {w : Nat → Val} (hw : ∀ i < T.lanes, (w i).elem = T.elem) :
    (env.bind n w).Typed (fun m => if m = n then T else Γ m) n := by
  simpa [Env.Typed, Env.bind] using hw

theorem Env.typed_bind_of_ne {Γ Γ' : String → VType} {env : Env} {n g : String}
    {w : Nat → Val} (hg : g ≠ n) (hΓ : Γ' g = Γ g) (h : env.Typed Γ g) :
    (env.bind n w).Typed Γ' g := by
  simpa [Env.Typed, Env.bind, hg, hΓ] using h

/-! ### Types of statements -/

namespace VStmt

/-- The types Halide's IR gives lowered code (`IR.cpp`, not under `src/`), with `Γ` the
types of the names in scope: every expression is well typed (`VExpr.typeOk`), a `LetStmt`
gives its name the value's type in its body and a `For` its variable `Int(32)`, loop bounds
are scalar integers, and conditions are boolean. -/
def typeOk (Γ : String → VType) : VStmt → Bool
  | letStmt n v body => v.typeOk Γ && body.typeOk (fun m => if m = n then v.type else Γ m)
  | assertStmt c => c.typeOk Γ && c.type.elem == .bool
  | store _ v i p => v.typeOk Γ && i.typeOk Γ && p.typeOk Γ
  | forLoop n min extent _ body => min.typeOk Γ && extent.typeOk Γ && min.type == ⟨.int, 1⟩ &&
      extent.type == ⟨.int, 1⟩ && body.typeOk (fun m => if m = n then ⟨.int, 1⟩ else Γ m)
  | block a b => a.typeOk Γ && b.typeOk Γ
  | ifThenElse c a b => c.typeOk Γ && c.type.elem == .bool && a.typeOk Γ && b.typeOk Γ
  | undef => true

end VStmt

namespace VExpr

/-- The type of a name `e` does not read does not matter. -/
theorem typeOk_update {n : String} {T : VType} {e : VExpr} :
    ∀ {Γ : String → VType}, e.usesVar n = false →
      e.typeOk (fun m => if m = n then T else Γ m) = e.typeOk Γ := by
  induction e with
  | var t m =>
    intro Γ h
    have : m ≠ n := by simpa [usesVar] using h
    simp [typeOk, this]
  | letIn m v body ihv ihb =>
    intro Γ h
    simp only [usesVar, Bool.or_eq_false_iff, Bool.and_eq_false_iff, bne_eq_false_iff_eq] at h
    simp only [typeOk, ihv h.1]
    congr 1
    by_cases hm : m = n
    · subst hm
      congr 1
      funext k
      by_cases hk : k = m <;> simp [hk]
    · rw [← ihb (h.2.resolve_left hm) (Γ := fun k => if k = m then v.type else Γ k)]
      congr 1
      funext k
      by_cases hk : k = m
      · simp [hk, hm]
      · simp [hk]
  | _ => simp_all [typeOk, usesVar]

/-- Substituting an expression of `name`'s type for it keeps an expression well typed, and
its type: the rebased loop of the `For` visitor stays well typed. `r` reads no binder of
`e`. -/
theorem typeOk_substitute {y : String} {r e : VExpr}
    (hcap : ∀ n ∈ e.letNames, r.usesVar n = false) :
    ∀ {Γ : String → VType}, r.type = Γ y → r.typeOk Γ = true → e.typeOk Γ = true →
      (substitute y r e).typeOk Γ = true ∧ (substitute y r e).type = e.type := by
  induction e with
  | var t m =>
    intro Γ hry hr ht
    simp only [typeOk, beq_iff_eq] at ht
    by_cases hm : m = y
    · subst hm ht
      simp [substitute, hr, hry, type]
    · simp [substitute, hm, typeOk, ht]
  | letIn n v b ihv ihb =>
    intro Γ hry hr ht
    simp only [letNames, List.mem_cons, List.mem_append, forall_eq_or_imp] at hcap
    simp only [typeOk, Bool.and_eq_true] at ht
    obtain ⟨hv1, hv2⟩ := ihv (fun m h => hcap.2 m (.inl h)) hry hr ht.1
    by_cases hn : n = y
    · subst hn
      simp [substitute, typeOk, type, hv1, hv2, ht.2]
    · have hr' := typeOk_update (T := v.type) (Γ := Γ) hcap.1
      obtain ⟨hb1, hb2⟩ := ihb (fun m h => hcap.2 m (.inr h)) (by simp [Ne.symm hn, hry])
        (hr'.trans hr) ht.2
      simp [substitute, hn, typeOk, type, hv1, hv2, hb1, hb2]
  | intImm _ | boolImm _ => intros; exact ⟨rfl, rfl⟩
  | not a ih | likely a ih | broadcast a _ ih | extractLane a _ ih =>
    intro Γ hry hr ht
    have hta : a.typeOk Γ = true := by
      simp only [typeOk, Bool.and_eq_true] at ht
      exact ht.1
    obtain ⟨h1, h2⟩ := ih hcap hry hr hta
    refine ⟨?_, by simp only [substitute, type, h2]⟩
    simp only [substitute, typeOk, h1, h2, hta, Bool.true_and] at ht ⊢
    exact ht
  | add a b iha ihb | sub a b iha ihb | mul a b iha ihb | div a b iha ihb
  | min a b iha ihb | max a b iha ihb | and a b iha ihb | or a b iha ihb
  | cmp _ a b iha ihb | ramp a b _ iha ihb =>
    intro Γ hry hr ht
    simp only [letNames, List.mem_append] at hcap
    have hab : a.typeOk Γ = true ∧ b.typeOk Γ = true := by
      simp only [typeOk, Bool.and_eq_true, and_assoc] at ht
      exact ⟨ht.1, ht.2.1⟩
    obtain ⟨ha1, ha2⟩ := iha (fun m h => hcap m (.inl h)) hry hr hab.1
    obtain ⟨hb1, hb2⟩ := ihb (fun m h => hcap m (.inr h)) hry hr hab.2
    refine ⟨?_, by simp only [substitute, type, ha2]⟩
    simp only [substitute, typeOk, ha1, hb1, ha2, hb2, hab, Bool.true_and] at ht ⊢
    exact ht

/-- A scalar body reads only scalar names: every name it reads has one lane in `Γ`. -/
theorem lanes_of_usesVar {g : String} {e : VExpr} :
    ∀ {Γ : String → VType}, e.typeOk Γ = true → e.scalarBody = true → e.usesVar g = true →
      (Γ g).lanes = 1 := by
  induction e with
  | var t m =>
    intro Γ ht hs hu
    simp only [typeOk, beq_iff_eq] at ht
    simp only [usesVar, beq_iff_eq] at hu
    subst hu ht
    simpa [scalarBody] using hs
  | letIn m v body ihv ihb =>
    intro Γ ht hs hu
    simp only [typeOk, Bool.and_eq_true] at ht
    simp only [scalarBody, Bool.and_eq_true] at hs
    simp only [usesVar, Bool.or_eq_true, Bool.and_eq_true, bne_iff_ne, ne_eq] at hu
    rcases hu with hu | ⟨hm, hu⟩
    · exact ihv ht.1 hs.1 hu
    · simpa [Ne.symm hm] using ihb ht.2 hs.2 hu
  | add a b iha ihb | sub a b iha ihb | mul a b iha ihb | div a b iha ihb
  | min a b iha ihb | max a b iha ihb | and a b iha ihb | or a b iha ihb
  | cmp _ a b iha ihb =>
    intro Γ ht hs hu
    simp only [typeOk, scalarBody, usesVar, Bool.and_eq_true, Bool.or_eq_true, and_assoc]
      at ht hs hu
    rcases hu with hu | hu
    · exact iha ht.1 hs.1 hu
    · exact ihb ht.2.1 hs.2 hu
  | not a ih | likely a ih =>
    intro Γ ht hs hu
    simp only [typeOk, Bool.and_eq_true] at ht
    exact ih ht.1 hs hu
  | intImm _ | boolImm _ => intros; contradiction
  | ramp _ _ _ _ _ | broadcast _ _ _ | extractLane _ _ _ => intros; contradiction

theorem asBroadcast_of_scalarBody {e : VExpr} (he : e.scalarBody = true) : e.asBroadcast = none := by
  cases e
  case broadcast => cases he
  all_goals rfl

/-- A scalar body without `Let`s takes only exact rules: it has no `Broadcast` operand. -/
theorem exactRulesOnly_of_scalarBody {e : VExpr} (he : e.scalarBody = true)
    (hl : e.letNames = []) : e.exactRulesOnly = true := by
  induction e with
  | add a b iha ihb | sub a b iha ihb | mul a b iha ihb | div a b iha ihb
  | min a b iha ihb | max a b iha ihb | and a b iha ihb | or a b iha ihb =>
    simp only [scalarBody, Bool.and_eq_true] at he
    simp only [letNames, List.append_eq_nil] at hl
    simp [exactRulesOnly, asBroadcast_of_scalarBody he.1, asBroadcast_of_scalarBody he.2,
      iha he.1 hl.1, ihb he.2 hl.2]
  | not a ih => exact ih he hl
  | letIn _ _ _ _ _ => cases hl
  | _ => rfl

end VExpr

/-- Substituting an expression of `name`'s type for it keeps a statement well typed, when it
reads no binder of the statement. -/
theorem VStmt.typeOk_substitute {y : String} {r : VExpr} {s : VStmt}
    (hcap : ∀ n ∈ s.letNames, r.usesVar n = false) :
    ∀ {Γ : String → VType}, r.type = Γ y → r.typeOk Γ = true → s.typeOk Γ = true →
      (s.substitute y r).typeOk Γ = true := by
  induction s with
  | letStmt n v b ih =>
    intro Γ hry hr ht
    simp only [VStmt.letNames, List.mem_cons, List.mem_append, forall_eq_or_imp] at hcap
    simp only [VStmt.typeOk, Bool.and_eq_true] at ht
    obtain ⟨hv1, hv2⟩ := VExpr.typeOk_substitute (fun m h => hcap.2 m (.inl h)) hry hr ht.1
    simp only [VStmt.substitute, VStmt.typeOk, hv1, hv2, Bool.true_and]
    split_ifs with hn
    · exact ht.2
    · exact ih (fun m h => hcap.2 m (.inr h)) (by simp [Ne.symm hn, hry])
        ((VExpr.typeOk_update hcap.1).trans hr) ht.2
  | forLoop n min e _ b ih =>
    intro Γ hry hr ht
    simp only [VStmt.letNames, List.mem_cons, List.mem_append, forall_eq_or_imp] at hcap
    simp only [VStmt.typeOk, Bool.and_eq_true, beq_iff_eq] at ht
    obtain ⟨hm1, hm2⟩ := VExpr.typeOk_substitute (fun m h => hcap.2 m (.inl (.inl h))) hry hr
      ht.1.1.1.1
    obtain ⟨he1, he2⟩ := VExpr.typeOk_substitute (fun m h => hcap.2 m (.inl (.inr h))) hry hr
      ht.1.1.1.2
    simp only [VStmt.substitute, VStmt.typeOk, hm1, hm2, he1, he2, ht.1.1.2, ht.1.2,
      beq_self_eq_true, Bool.true_and]
    split_ifs with hn
    · exact ht.2
    · exact ih (fun m h => hcap.2 m (.inr h)) (by simp [Ne.symm hn, hry])
        ((VExpr.typeOk_update hcap.1).trans hr) ht.2
  | assertStmt c =>
    intro Γ hry hr ht
    simp only [VStmt.typeOk, Bool.and_eq_true] at ht
    obtain ⟨h1, h2⟩ := VExpr.typeOk_substitute hcap hry hr ht.1
    simp only [VStmt.substitute, VStmt.typeOk, h1, h2, ht.2, Bool.true_and]
  | store _ v i p =>
    intro Γ hry hr ht
    simp only [VStmt.letNames, List.mem_append] at hcap
    simp only [VStmt.typeOk, Bool.and_eq_true] at ht
    simp only [VStmt.substitute, VStmt.typeOk,
      (VExpr.typeOk_substitute (fun m h => hcap m (.inl (.inl h))) hry hr ht.1.1).1,
      (VExpr.typeOk_substitute (fun m h => hcap m (.inl (.inr h))) hry hr ht.1.2).1,
      (VExpr.typeOk_substitute (fun m h => hcap m (.inr h)) hry hr ht.2).1, Bool.and_self]
  | block a b iha ihb =>
    intro Γ hry hr ht
    simp only [VStmt.letNames, List.mem_append] at hcap
    simp only [VStmt.typeOk, Bool.and_eq_true] at ht
    simp only [VStmt.substitute, VStmt.typeOk, iha (fun m h => hcap m (.inl h)) hry hr ht.1,
      ihb (fun m h => hcap m (.inr h)) hry hr ht.2, Bool.and_self]
  | ifThenElse c a b iha ihb =>
    intro Γ hry hr ht
    simp only [VStmt.letNames, List.mem_append] at hcap
    simp only [VStmt.typeOk, Bool.and_eq_true] at ht
    obtain ⟨h1, h2⟩ := VExpr.typeOk_substitute (fun m h => hcap m (.inl (.inl h))) hry hr
      ht.1.1.1
    simp only [VStmt.substitute, VStmt.typeOk, h1, h2, ht.1.1.2,
      iha (fun m h => hcap m (.inl (.inr h))) hry hr ht.1.2,
      ihb (fun m h => hcap m (.inr h)) hry hr ht.2, Bool.and_self]
  | undef => intros; rfl

/-- The body the `For` visitor guards, `if (likely(y < min + extent)) body`, is well typed in
the loop body's context. -/
theorem VStmt.typeOk_guarded {Γ : String → VType} {y : String} {min extent : VExpr}
    {ft : ForType} {b : VStmt} (ht : (VStmt.forLoop y min extent ft b).typeOk Γ = true)
    (hmy : min.usesVar y = false) (hey : extent.usesVar y = false) :
    (VStmt.ifThenElse (.likely (.cmp .lt (.var ⟨.int, 1⟩ y) (.add min extent))) b .undef).typeOk
      (fun m => if m = y then ⟨.int, 1⟩ else Γ m) = true := by
  simp only [VStmt.typeOk, Bool.and_eq_true, beq_iff_eq] at ht
  simp [VStmt.typeOk, VExpr.typeOk, VExpr.type, VExpr.typeOk_update hmy, VExpr.typeOk_update hey,
    ht.1.1.1.1, ht.1.1.1.2, ht.1.1.2, ht.1.2, ht.2]

/-- The loop the `For` visitor rebases to `0`, `For(y, 0, extent, body[y := y + min])`, is well
typed where the loop is, when `min` reads neither `y` nor a binder of the body. -/
theorem VStmt.typeOk_rebase {Γ : String → VType} {y : String} {min extent : VExpr}
    {ft : ForType} {b : VStmt} (ht : (VStmt.forLoop y min extent ft b).typeOk Γ = true)
    (hmy : min.usesVar y = false) (hcap : ∀ n ∈ b.letNames, n ≠ y ∧ min.usesVar n = false)
    (ft' : ForType) :
    (VStmt.forLoop y (.intImm 0) extent ft'
      (b.substitute y (.add (.var ⟨.int, 1⟩ y) min))).typeOk Γ = true := by
  simp only [VStmt.typeOk, Bool.and_eq_true, beq_iff_eq] at ht
  have hr : (VExpr.add (.var ⟨.int, 1⟩ y) min).typeOk (fun m => if m = y then ⟨.int, 1⟩ else Γ m)
      = true := by
    simp [VExpr.typeOk, VExpr.type, VExpr.typeOk_update hmy, ht.1.1.1.1, ht.1.1.2]
  have hb := VStmt.typeOk_substitute (y := y) (fun n hn => by
      simp [VExpr.usesVar, (hcap n hn).2, Ne.symm (hcap n hn).1]) (by simp [VExpr.type]) hr ht.2
  simp [VStmt.typeOk, VExpr.typeOk, VExpr.type, ht.1.1.1.2, ht.1.2, hb]

/-! ### `VectorSubs` on bounded expressions -/

namespace VectorSubs

variable {vs : VectorSubs}

theorem widen_type {e w : VExpr} {lanes : Nat} (h : widen e lanes = some w)
    (hl : e.type.lanes ≤ lanes) : w.type = ⟨e.type.elem, lanes⟩ := by
  unfold widen at h
  split_ifs at h <;> cases h
  · rw [show lanes = e.type.lanes by omega]
  · rfl

theorem widen_typeOk {Γ : String → VType} {e w : VExpr} {lanes : Nat}
    (h : widen e lanes = some w) (ht : e.typeOk Γ = true) : w.typeOk Γ = true := by
  unfold widen at h
  split_ifs at h with h1 h2 <;> cases h
  · exact ht
  · simp [VExpr.typeOk, ht, h2]

/-- What `mutate_binary_operator` returns: the node as it was, when neither operand
changed, or the node on both operands widened to the wider of the two. -/
theorem binary_cases {mk : VExpr → VExpr → VExpr} {a b a' b' v : VExpr}
    (h : binary mk a b a' b' = some v) :
    (a' = a ∧ b' = b ∧ v = mk a b) ∨
      (¬(a' = a ∧ b' = b) ∧ ∃ wa wb, widen a' (Max.max a'.type.lanes b'.type.lanes) = some wa ∧
        widen b' (Max.max a'.type.lanes b'.type.lanes) = some wb ∧ v = mk wa wb) := by
  unfold binary at h
  split_ifs at h with hc
  · exact .inl ⟨hc.1, hc.2, (Option.some.inj h).symm⟩
  · simp only [Option.pure_def, Option.bind_eq_bind, Option.bind_eq_some, Option.some.injEq] at h
    obtain ⟨wa, hwa, wb, hwb, rfl⟩ := h
    exact .inr ⟨hc, wa, wb, hwa, hwb, rfl⟩

theorem widen_self {e w : VExpr} {lanes : Nat} (h : widen e lanes = some w)
    (hl : lanes ≤ e.type.lanes) : w = e := by
  simp only [widen, hl, if_true, Option.some.injEq] at h
  exact h.symm

theorem widen_exactRulesOnly {e w : VExpr} {lanes : Nat} (h : widen e lanes = some w)
    (he : e.exactRulesOnly = true) : w.exactRulesOnly = true := by
  rcases widen_eq h with rfl | rfl
  exacts [he, rfl]

/-- What `mutate` builds under no widened name is well typed, with the element type of its
source, when the replacement is a well-typed `Int(32)` vector and the loop variable an
`Int(32)` scalar. -/
theorem mutate_typeOk {Γ : String → VType} (hRt : vs.replacement.typeOk Γ = true)
    (hRe : vs.replacement.type.elem = .int) (hx : (Γ vs.var).elem = .int) {e : VExpr}
    (he : e.scalarBody = true) (hl : e.letNames = []) (ht : e.typeOk Γ = true) :
    ∀ {e'}, vs.mutate [] e = some e' → e'.typeOk Γ = true ∧ e'.type.elem = e.type.elem := by
  induction e with
  | intImm _ | boolImm _ => intro e' hm; cases hm; exact ⟨rfl, rfl⟩
  | var t m =>
    intro e' hm
    simp only [mutate, List.lookup_nil] at hm
    split_ifs at hm with hxm <;> cases hm
    · simp only [VExpr.typeOk, beq_iff_eq] at ht
      subst hxm ht
      exact ⟨hRt, hRe.trans hx.symm⟩
    · exact ⟨ht, rfl⟩
  | add a b iha ihb | sub a b iha ihb | mul a b iha ihb | div a b iha ihb
  | min a b iha ihb | max a b iha ihb | and a b iha ihb | or a b iha ihb
  | cmp _ a b iha ihb =>
    intro e' hm
    simp only [VExpr.scalarBody, Bool.and_eq_true] at he
    simp only [VExpr.letNames, List.append_eq_nil] at hl
    have ht' := ht
    simp only [VExpr.typeOk, Bool.and_eq_true, beq_iff_eq, and_assoc] at ht'
    simp only [mutate, Option.bind_eq_bind, Option.bind_eq_some] at hm
    obtain ⟨a', ha, b', hb, hm⟩ := hm
    obtain ⟨hta, hea⟩ := iha he.1 hl.1 ht'.1 ha
    obtain ⟨htb, heb⟩ := ihb he.2 hl.2 ht'.2.1 hb
    rcases binary_cases hm with ⟨rfl, rfl, rfl⟩ | ⟨-, wa, wb, hwa, hwb, rfl⟩
    · exact ⟨ht, rfl⟩
    · -- both operands widened to one lane count, each keeping its element type
      have hab : a.type = b.type := by simp only [ht']
      have hw : wa.type = wb.type := by
        rw [widen_type hwa (le_max_left _ _), widen_type hwb (le_max_right _ _), hea, heb, hab]
      have hwe : wb.type.elem = b.type.elem := by rw [widen_type hwb (le_max_right _ _), heb]
      -- what is left of the node's typing is what the original node asked of its operands
      simp only [VExpr.typeOk, VExpr.type, widen_typeOk hwa hta, widen_typeOk hwb htb, ht'.1,
        ht'.2.1, hw, hab, hwe, beq_self_eq_true, Bool.true_and, and_true] at ht ⊢ <;> exact ht
  | not a iha | likely a iha =>
    intro e' hm
    simp only [mutate, Option.bind_eq_bind, Option.bind_eq_some, Option.pure_def,
      Option.some.injEq] at hm
    obtain ⟨a', ha, rfl⟩ := hm
    have ht' := ht
    simp only [VExpr.typeOk, Bool.and_eq_true, beq_iff_eq] at ht'
    obtain ⟨hta, hea⟩ := iha he hl ht'.1 ha
    split_ifs
    · exact ⟨ht, rfl⟩
    · simp [VExpr.typeOk, VExpr.type, hta, hea, ht'.2]
  | letIn _ _ _ _ _ => cases hl
  | ramp _ _ _ _ _ | broadcast _ _ _ | extractLane _ _ _ => cases he

/-- A property that `Broadcast` and the node `mk` keep holds of what
`mutate_binary_operator` builds from mutated operands that have it. -/
theorem binary_of_mutated {P : VExpr → Prop} {mk : VExpr → VExpr → VExpr} {a b a' b' v : VExpr}
    (hP : ∀ e lanes, P e → P (.broadcast e lanes)) (hmk : ∀ x y, P x → P y → P (mk x y))
    (ha : P a') (hb : P b') (h : binary mk a b a' b' = some v) : P v := by
  have hw : ∀ {e w lanes}, P e → widen e lanes = some w → P w := fun he hw => by
    rcases widen_eq hw with rfl | rfl
    exacts [he, hP _ _ he]
  rcases binary_cases h with ⟨rfl, rfl, rfl⟩ | ⟨-, wa, wb, hwa, hwb, rfl⟩
  exacts [hmk _ _ ha hb, hmk _ _ (hw ha hwa) (hw hb hwb)]

/-- A name that `mutate` reads under no widened name is one that the source reads, other
than the loop variable, or one that the replacement reads. -/
theorem mutate_usesVar {g : String} {e : VExpr} (he : e.scalarBody = true)
    (hl : e.letNames = []) :
    ∀ {e'}, vs.mutate [] e = some e' → e'.usesVar g = true →
      (e.usesVar g = true ∧ g ≠ vs.var) ∨ vs.replacement.usesVar g = true := by
  induction e with
  | intImm _ | boolImm _ => intro e' hm; cases hm; intro h; cases h
  | var t m =>
    intro e' hm hu
    simp only [mutate, List.lookup_nil] at hm
    split_ifs at hm with hxm <;> cases hm
    · exact .inr hu
    · simp only [VExpr.usesVar, beq_iff_eq] at hu
      subst hu
      exact .inl ⟨by simp [VExpr.usesVar], hxm⟩
  | add a b iha ihb | sub a b iha ihb | mul a b iha ihb | div a b iha ihb
  | min a b iha ihb | max a b iha ihb | and a b iha ihb | or a b iha ihb
  | cmp _ a b iha ihb =>
    intro e' hm
    simp only [VExpr.scalarBody, Bool.and_eq_true] at he
    simp only [VExpr.letNames, List.append_eq_nil] at hl
    simp only [mutate, Option.bind_eq_bind, Option.bind_eq_some] at hm
    obtain ⟨a', ha, b', hb, hm⟩ := hm
    refine binary_of_mutated (P := fun x => x.usesVar g = true →
        (VExpr.usesVar g _ = true ∧ g ≠ vs.var) ∨ vs.replacement.usesVar g = true)
      (fun _ _ h => h) (fun x y hx hy hu => ?_) (fun hu => ?_) (fun hu => ?_) hm
    · simp only [VExpr.usesVar, Bool.or_eq_true] at hu
      exact hu.elim hx hy
    · exact (iha he.1 hl.1 ha hu).imp_left fun h => ⟨by simp [VExpr.usesVar, h.1], h.2⟩
    · exact (ihb he.2 hl.2 hb hu).imp_left fun h => ⟨by simp [VExpr.usesVar, h.1], h.2⟩
  | not a iha | likely a iha =>
    intro e' hm hu
    simp only [mutate, Option.bind_eq_bind, Option.bind_eq_some, Option.pure_def,
      Option.some.injEq] at hm
    obtain ⟨a', ha, rfl⟩ := hm
    split_ifs at hu with hc
    · subst hc
      exact iha he hl ha hu
    · exact iha he hl ha hu
  | letIn _ _ _ _ _ => cases hl
  | ramp _ _ _ _ _ | broadcast _ _ _ | extractLane _ _ _ => cases he

/-- What `mutate` makes of an expression `e` without `Let`s under no widened name
(`mutate_bounded`): `e` itself when `e` does not read the loop variable, and otherwise a
vector of the replacement's lanes that is not a `Broadcast`. -/
def Widened (vs : VectorSubs) (e e' : VExpr) : Prop :=
  (e.usesVar vs.var = false ∧ e' = e) ∨
    (e.usesVar vs.var = true ∧ e'.type.lanes = vs.replacement.type.lanes ∧ e'.asBroadcast = none)

section Bounded

variable (hn : 1 < vs.replacement.type.lanes)
include hn

/-- `mutate_binary_operator` on operands that are `Widened`. -/
theorem binary_widened {mk : VExpr → VExpr → VExpr} {a b a' b' v : VExpr}
    (hu : ∀ x y, (mk x y).usesVar vs.var = (x.usesVar vs.var || y.usesVar vs.var))
    (hlanes : ∀ x y, (mk x y).type.lanes = x.type.lanes)
    (hbc : ∀ x y, (mk x y).asBroadcast = none) (ha1 : a.type.lanes = 1) (hb1 : b.type.lanes = 1)
    (ha : vs.Widened a a') (hb : vs.Widened b b') (h : binary mk a b a' b' = some v) :
    vs.Widened (mk a b) v := by
  have hL : ∀ {x x'}, x.type.lanes = 1 → vs.Widened x x' →
      (x.usesVar vs.var = false ∧ x' = x) ∨
        (x.usesVar vs.var = true ∧ x'.type.lanes = vs.replacement.type.lanes ∧ x' ≠ x) :=
    fun hx1 hw => hw.imp_right fun h => ⟨h.1, h.2.1, fun he => by subst he; omega⟩
  rcases binary_cases h with ⟨rfl, rfl, rfl⟩ | ⟨hc, wa, wb, hwa, hwb, rfl⟩
  · rcases hL ha1 ha with ⟨hua, -⟩ | ⟨-, -, hne⟩
    · rcases hL hb1 hb with ⟨hub, -⟩ | ⟨-, -, hne⟩
      · exact .inl ⟨by rw [hu, hua, hub]; rfl, rfl⟩
      · exact absurd rfl hne
    · exact absurd rfl hne
  · have hlw : ∀ {x x'}, x.type.lanes = 1 → vs.Widened x x' →
        x'.type.lanes = 1 ∨ x'.type.lanes = vs.replacement.type.lanes := fun hx1 hw =>
      hw.elim (fun h => .inl (h.2 ▸ hx1)) fun h => .inr h.2.1
    have hread : (a.usesVar vs.var || b.usesVar vs.var) = true := by
      rcases ha with ⟨hua, rfl⟩ | ⟨hua, -⟩
      · rcases hb with ⟨hub, rfl⟩ | ⟨hub, -⟩
        · exact absurd ⟨rfl, rfl⟩ hc
        · simp [hub]
      · simp [hua]
    have hw : Max.max a'.type.lanes b'.type.lanes = vs.replacement.type.lanes := by
      have : a'.type.lanes = vs.replacement.type.lanes ∨ b'.type.lanes = vs.replacement.type.lanes := by
        rcases ha with ⟨hua, -⟩ | ⟨-, h, -⟩
        · rcases hb with ⟨hub, -⟩ | ⟨-, h, -⟩
          · simp [hua, hub] at hread
          · exact .inr h
        · exact .inl h
      rcases hlw ha1 ha with h1 | h1 <;> rcases hlw hb1 hb with h2 | h2 <;> omega
    refine .inr ⟨by rw [hu, hread], ?_, hbc _ _⟩
    rw [hlanes, widen_type hwa (le_max_left _ _), hw]

/-- `mutate` on an expression without `Let`s under no widened name: see `Widened`. -/
theorem mutate_bounded (hR : vs.replacement.asBroadcast = none) {e : VExpr}
    (he : e.scalarBody = true) (hl : e.letNames = []) :
    ∀ {e'}, vs.mutate [] e = some e' → vs.Widened e e' := by
  induction e with
  | intImm _ | boolImm _ => intro e' hm; cases hm; exact .inl ⟨rfl, rfl⟩
  | var t m =>
    intro e' hm
    simp only [mutate, List.lookup_nil] at hm
    split_ifs at hm with hx <;> cases hm
    · exact .inr ⟨by simp [VExpr.usesVar, hx], rfl, hR⟩
    · exact .inl ⟨by simpa [VExpr.usesVar] using hx, rfl⟩
  | add a b iha ihb | sub a b iha ihb | mul a b iha ihb | div a b iha ihb
  | min a b iha ihb | max a b iha ihb | and a b iha ihb | or a b iha ihb
  | cmp _ a b iha ihb =>
    intro e' hm
    simp only [VExpr.scalarBody, Bool.and_eq_true] at he
    simp only [VExpr.letNames, List.append_eq_nil] at hl
    simp only [mutate, Option.bind_eq_bind, Option.bind_eq_some] at hm
    obtain ⟨a', ha, b', hb, hm⟩ := hm
    exact binary_widened hn (fun _ _ => rfl) (fun _ _ => rfl) (fun _ _ => rfl)
      (VExpr.scalarBody_lanes he.1) (VExpr.scalarBody_lanes he.2) (iha he.1 hl.1 ha)
      (ihb he.2 hl.2 hb) hm
  | not a iha | likely a iha =>
    intro e' hm
    simp only [mutate, Option.bind_eq_bind, Option.bind_eq_some, Option.pure_def,
      Option.some.injEq] at hm
    obtain ⟨a', ha, hm⟩ := hm
    rcases iha he hl ha with ⟨hu, rfl⟩ | ⟨hu, hla, -⟩
    · simp only [if_true] at hm
      exact .inl ⟨hu, hm.symm⟩
    · have hne : a' ≠ a := fun h => by
        have := VExpr.scalarBody_lanes (e := a) he
        rw [h] at hla
        omega
      simp only [hne, if_false] at hm
      subst hm
      exact .inr ⟨hu, hla, rfl⟩
  | letIn _ _ _ _ _ => cases hl
  | ramp _ _ _ _ _ | broadcast _ _ _ | extractLane _ _ _ => cases he

theorem Widened.lanes_le {e e' : VExpr} (h : vs.Widened e e') (he : e.type.lanes = 1) :
    e'.type.lanes ≤ vs.replacement.type.lanes := by
  rcases h with ⟨-, rfl⟩ | ⟨-, h, -⟩ <;> omega

omit hn in
/-- An operand that read the loop variable is already as wide as the loop, so `widen` keeps
it as it is: it is no `Broadcast`. -/
theorem Widened.widen_keeps {e e' w : VExpr} {n : Nat} (h : vs.Widened e e')
    (hu : e.usesVar vs.var = true) (hle : n ≤ vs.replacement.type.lanes)
    (hw : widen e' n = some w) : w.asBroadcast = none := by
  rcases h with ⟨hu', -⟩ | ⟨-, hl, hb⟩
  · simp [hu] at hu'
  · rw [widen_self hw (by omega)]
    exact hb

/-- On a bounded expression (`VExpr.exactOver`), `VectorSubs` builds an expression that
takes only exact rules: an `Or` or a `Sub` whose operands were widened alike gets no
`Broadcast` operand where the rule is wrong. -/
theorem mutate_exactRulesOnly (hR : vs.replacement.asBroadcast = none)
    (hRe : vs.replacement.exactRulesOnly = true) {e : VExpr} (he : e.scalarBody = true)
    (hl : e.letNames = []) (hf : e.exactOver vs.var = true) :
    ∀ {e'}, vs.mutate [] e = some e' → e'.exactRulesOnly = true := by
  have hsrc : ∀ {e : VExpr}, e.scalarBody = true → e.letNames = [] → e.exactRulesOnly = true :=
    VExpr.exactRulesOnly_of_scalarBody
  induction e with
  | intImm _ | boolImm _ => intro e' hm; cases hm; rfl
  | var t m =>
    intro e' hm
    simp only [mutate, List.lookup_nil] at hm
    split_ifs at hm <;> cases hm
    exacts [hRe, rfl]
  | add a b iha ihb | mul a b iha ihb | div a b iha ihb | min a b iha ihb | max a b iha ihb
  | and a b iha ihb =>
    intro e' hm
    have hs := he
    simp only [VExpr.scalarBody, Bool.and_eq_true] at he
    simp only [VExpr.letNames, List.append_eq_nil] at hl
    simp only [VExpr.exactOver, Bool.and_eq_true] at hf
    simp only [mutate, Option.bind_eq_bind, Option.bind_eq_some] at hm
    obtain ⟨a', ha, b', hb, hm⟩ := hm
    rcases binary_cases hm with ⟨rfl, rfl, rfl⟩ | ⟨-, wa, wb, hwa, hwb, rfl⟩
    · exact hsrc hs (by simp [VExpr.letNames, hl])
    · simp [VExpr.exactRulesOnly, widen_exactRulesOnly hwa (iha he.1 hl.1 hf.1 ha),
        widen_exactRulesOnly hwb (ihb he.2 hl.2 hf.2 hb)]
  | sub a b iha ihb =>
    intro e' hm
    have hs := he
    simp only [VExpr.scalarBody, Bool.and_eq_true] at he
    simp only [VExpr.letNames, List.append_eq_nil] at hl
    simp only [VExpr.exactOver, Bool.and_eq_true] at hf
    simp only [mutate, Option.bind_eq_bind, Option.bind_eq_some] at hm
    obtain ⟨a', ha, b', hb, hm⟩ := hm
    rcases binary_cases hm with ⟨rfl, rfl, rfl⟩ | ⟨hc, wa, wb, hwa, hwb, rfl⟩
    · exact hsrc hs (by simp [VExpr.letNames, hl])
    have hA := mutate_bounded hn hR he.1 hl.1 ha
    have hB := mutate_bounded hn hR he.2 hl.2 hb
    have hle : Max.max a'.type.lanes b'.type.lanes ≤ vs.replacement.type.lanes :=
      max_le (hA.lanes_le hn (VExpr.scalarBody_lanes he.1))
        (hB.lanes_le hn (VExpr.scalarBody_lanes he.2))
    simp only [VExpr.exactRulesOnly, widen_exactRulesOnly hwa (iha he.1 hl.1 hf.1.2 ha),
      widen_exactRulesOnly hwb (ihb he.2 hl.2 hf.2 hb), Bool.and_true]
    -- the left operand reads the loop variable: were neither to, neither would change
    by_cases hua : a.usesVar vs.var = true
    · simp [hA.widen_keeps hua hle hwa]
    · have hub : b.usesVar vs.var = false := by simpa [hua] using hf.1.1
      rcases hA with ⟨-, rfl⟩ | ⟨hua', -⟩
      · rcases hB with ⟨-, rfl⟩ | ⟨hub', -⟩
        · exact absurd ⟨rfl, rfl⟩ hc
        · simp [hub] at hub'
      · exact absurd hua' hua
  | or a b iha ihb =>
    intro e' hm
    have hs := he
    simp only [VExpr.scalarBody, Bool.and_eq_true] at he
    simp only [VExpr.letNames, List.append_eq_nil] at hl
    simp only [VExpr.exactOver, Bool.and_eq_true] at hf
    simp only [mutate, Option.bind_eq_bind, Option.bind_eq_some] at hm
    obtain ⟨a', ha, b', hb, hm⟩ := hm
    rcases binary_cases hm with ⟨rfl, rfl, rfl⟩ | ⟨hc, wa, wb, hwa, hwb, rfl⟩
    · exact hsrc hs (by simp [VExpr.letNames, hl])
    have hA := mutate_bounded hn hR he.1 hl.1 ha
    have hB := mutate_bounded hn hR he.2 hl.2 hb
    have hle : Max.max a'.type.lanes b'.type.lanes ≤ vs.replacement.type.lanes :=
      max_le (hA.lanes_le hn (VExpr.scalarBody_lanes he.1))
        (hB.lanes_le hn (VExpr.scalarBody_lanes he.2))
    simp only [VExpr.exactRulesOnly, widen_exactRulesOnly hwa (iha he.1 hl.1 hf.1.2 ha),
      widen_exactRulesOnly hwb (ihb he.2 hl.2 hf.2 hb), Bool.and_true]
    -- both operands read the loop variable: were neither to, neither would change
    have hub : b.usesVar vs.var = a.usesVar vs.var := (beq_iff_eq.mp hf.1.1).symm
    by_cases hua : a.usesVar vs.var = true
    · simp [hA.widen_keeps hua hle hwa, hB.widen_keeps (hub.trans hua) hle hwb]
    · rcases hA with ⟨-, rfl⟩ | ⟨hua', -⟩
      · rcases hB with ⟨-, rfl⟩ | ⟨hub', -⟩
        · exact absurd ⟨rfl, rfl⟩ hc
        · exact absurd (hub.symm.trans hub') hua
      · exact absurd hua' hua
  | cmp op a b _ _ =>
    intro e' hm
    simp only [mutate, Option.bind_eq_bind, Option.bind_eq_some] at hm
    obtain ⟨a', -, b', -, hm⟩ := hm
    rcases binary_cases hm with ⟨-, -, rfl⟩ | ⟨-, wa, wb, -, -, rfl⟩ <;> rfl
  | likely a _ =>
    intro e' hm
    simp only [mutate, Option.bind_eq_bind, Option.bind_eq_some, Option.pure_def,
      Option.some.injEq] at hm
    obtain ⟨a', -, rfl⟩ := hm
    split_ifs <;> rfl
  | not a iha =>
    intro e' hm
    simp only [mutate, Option.bind_eq_bind, Option.bind_eq_some, Option.pure_def,
      Option.some.injEq] at hm
    obtain ⟨a', ha, rfl⟩ := hm
    split_ifs
    · exact hsrc he hl
    · exact (iha he hl hf ha :)
  | letIn _ _ _ _ _ => cases hl
  | ramp _ _ _ _ _ | broadcast _ _ _ | extractLane _ _ _ => cases he

/-- A scalar that `mutate` builds reads neither the loop variable nor a widened `Let`: each
of those makes a vector. -/
theorem unread_of_mutate_scalar {scope : List (String × VExpr)}
    (hscope : ∀ m v', scope.lookup m = some v' → 1 < v'.type.lanes) {e : VExpr}
    (he : e.scalarBody = true) (hl : e.letNames = []) :
    ∀ {e'}, vs.mutate scope e = some e' → e'.type.lanes ≤ 1 →
      ∀ g, e.usesVar g = true → g ≠ vs.var ∧ scope.lookup g = none := by
  induction e with
  | intImm _ | boolImm _ => intro _ _ _ g h; cases h
  | var t m =>
    intro e' hm hle g hu
    simp only [VExpr.usesVar, beq_iff_eq] at hu
    subst hu
    simp only [mutate] at hm
    split_ifs at hm with hxm
    · cases hm
      omega
    · refine ⟨hxm, ?_⟩
      cases hlk : scope.lookup m with
      | none => rfl
      | some v' =>
        simp only [hlk, Option.some.injEq] at hm
        subst hm
        have := hscope m v' hlk
        simp only [VExpr.type] at hle
        omega
  | add a b iha ihb | sub a b iha ihb | mul a b iha ihb | div a b iha ihb
  | min a b iha ihb | max a b iha ihb | and a b iha ihb | or a b iha ihb
  | cmp _ a b iha ihb =>
    intro e' hm hle g hu
    simp only [VExpr.scalarBody, Bool.and_eq_true] at he
    simp only [VExpr.letNames, List.append_eq_nil] at hl
    simp only [mutate, Option.bind_eq_bind, Option.bind_eq_some] at hm
    obtain ⟨a', ha, b', hb, hm⟩ := hm
    -- the node has the lanes of its operands, which are then scalars too
    have hab : a'.type.lanes ≤ 1 ∧ b'.type.lanes ≤ 1 := by
      rcases binary_cases hm with ⟨rfl, rfl, rfl⟩ | ⟨-, wa, wb, hwa, -, rfl⟩
      · exact ⟨(VExpr.scalarBody_lanes he.1).le, (VExpr.scalarBody_lanes he.2).le⟩
      · simp only [VExpr.type, widen_type hwa (le_max_left _ _)] at hle
        exact max_le_iff.1 hle
    simp only [VExpr.usesVar, Bool.or_eq_true] at hu
    exact hu.elim (iha he.1 hl.1 ha hab.1 g) (ihb he.2 hl.2 hb hab.2 g)
  | not a iha | likely a iha =>
    intro e' hm hle g hu
    simp only [mutate, Option.bind_eq_bind, Option.bind_eq_some, Option.pure_def,
      Option.some.injEq] at hm
    obtain ⟨a', ha, rfl⟩ := hm
    split_ifs at hle with hc
    · subst hc
      exact iha he hl ha hle g hu
    · exact iha he hl ha hle g hu
  | letIn _ _ _ _ _ => cases hl
  | ramp _ _ _ _ _ | broadcast _ _ _ | extractLane _ _ _ => cases he

end Bounded

end VectorSubs

/-! ### What the bounds read -/

/-- `x` extracts no lane of a variable and reads only names of `e`: the visitors may build
it where they build `e`. -/
def VExpr.SubOf (e x : VExpr) : Prop := x.noShuffle = true ∧ x.varNames ⊆ e.varNames

/-- Both ends of `I` are `SubOf e`. -/
def Interval.From (I : Interval) (e : VExpr) : Prop := e.SubOf I.min ∧ e.SubOf I.max

theorem VExpr.SubOf.mono {e e' x : VExpr} (h : e.SubOf x) (he : e.varNames ⊆ e'.varNames) :
    e'.SubOf x :=
  ⟨h.1, h.2.trans he⟩

theorem VExpr.SubOf.bin {e p q : VExpr} (mk : VExpr → VExpr → VExpr)
    (hns : (mk p q).noShuffle = (p.noShuffle && q.noShuffle))
    (hv : (mk p q).varNames = p.varNames ++ q.varNames) (hp : e.SubOf p) (hq : e.SubOf q) :
    e.SubOf (mk p q) :=
  ⟨by rw [hns, hp.1, hq.1]; rfl, by rw [hv]; exact List.append_subset.2 ⟨hp.2, hq.2⟩⟩

theorem Interval.From.mono {I : Interval} {e e' : VExpr} (h : I.From e)
    (he : e.varNames ⊆ e'.varNames) : I.From e' :=
  ⟨h.1.mono he, h.2.mono he⟩

/-- The fall-back of `bounds_of_lanes` extracts the lanes of `e`, which is no variable. -/
theorem foldLanes_from {e : VExpr} (hx : ∀ i, (VExpr.extractLane e i).noShuffle = true) :
    (foldLanes e).From e := by
  have hstep : ∀ (l : List Nat) {acc : Interval}, acc.From e →
      (l.foldl (foldLanesStep e) acc).From e := by
    intro l
    induction l with
    | nil => exact id
    | cons i l ih =>
      intro acc h
      refine ih ?_
      unfold foldLanesStep
      split_ifs <;>
        simp_all [Interval.From, VExpr.SubOf, VExpr.noShuffle, VExpr.varNames, List.append_subset]
  exact hstep _ ⟨⟨hx 0, fun _ h => h⟩, ⟨hx 0, fun _ h => h⟩⟩

/-- The ends of `bounds_of_lanes(e)` read only names of `e` and extract no lane of a
variable, when `e` is a well-typed vector that avoids the inexact rules, extracts no lane
of a variable and reads only scalars: the rules then never reach a variable, whose bounds
read its `.min_lane` and `.max_lane`. -/
theorem boundsOfLanes_from {Γ : String → VType} {e : VExpr} (hr : e.exactRulesOnly = true)
    (ht : e.typeOk Γ = true) (hns : e.noShuffle = true)
    (hs : ∀ g, e.usesVar g = true → (Γ g).lanes = 1) (hl : e.type.lanes ≠ 1) :
    (boundsOfLanes e).From e := by
  have hfold : ∀ {e : VExpr}, e.noShuffle = true → (∀ t n, e ≠ .var t n) → (foldLanes e).From e :=
    fun {e} h hv => foldLanes_from fun i => by
      cases e <;> first | exact h | exact absurd rfl (hv _ _)
  induction e with
  | var t n =>
    simp only [VExpr.typeOk, beq_iff_eq] at ht
    subst ht
    exact absurd (hs n (by simp [VExpr.usesVar])) hl
  | letIn => cases hr
  | intImm _ | boolImm _ | cmp _ _ _ _ _ | likely _ _ | extractLane _ _ _ =>
    exact hfold hns fun _ _ h => by cases h
  | broadcast v k _ => exact ⟨⟨hns, fun _ h => h⟩, ⟨hns, fun _ h => h⟩⟩
  | ramp base stride n _ _ =>
    simp only [VExpr.noShuffle, Bool.and_eq_true] at hns
    have hb : (VExpr.ramp base stride n).SubOf base := ⟨hns.1, List.subset_append_left _ _⟩
    have hl : (VExpr.ramp base stride n).SubOf
        (.add base (.mul (.intImm (n - 1 : Nat)) stride)) :=
      ⟨by simp [VExpr.noShuffle, hns], by simp [VExpr.varNames, List.append_subset]⟩
    simp only [boundsOfLanes]
    split_ifs
    exacts [⟨hb, hl⟩, ⟨hl, hb⟩, hfold (by simp [VExpr.noShuffle, hns]) fun _ _ h => by cases h]
  | not a iha =>
    have := iha hr (by simp only [VExpr.typeOk, Bool.and_eq_true] at ht; exact ht.1) hns hs hl
    exact ⟨this.2, this.1⟩
  | add a b iha ihb | sub a b iha ihb | mul a b iha ihb | div a b iha ihb
  | min a b iha ihb | max a b iha ihb | and a b iha ihb | or a b iha ihb =>
    have hab : a.typeOk Γ = true ∧ b.typeOk Γ = true ∧ a.type = b.type := by
      simp only [VExpr.typeOk, Bool.and_eq_true, beq_iff_eq, and_assoc] at ht
      exact ⟨ht.1, ht.2.1, by simp only [ht]⟩
    have hra : a.exactRulesOnly = true ∧ b.exactRulesOnly = true := by
      simp only [VExpr.exactRulesOnly, Bool.and_eq_true] at hr
      exact ⟨by simp only [hr], by simp only [hr]⟩
    simp only [VExpr.noShuffle, Bool.and_eq_true] at hns
    have hla : a.type.lanes ≠ 1 := by simpa [VExpr.type] using hl
    -- the bounds of either operand
    have hA := iha hra.1 hab.1 hns.1 (fun g h => hs g (by simp [VExpr.usesVar, h])) hla
    have hB := ihb hra.2 hab.2.1 hns.2 (fun g h => hs g (by simp [VExpr.usesVar, h]))
      (hab.2.2 ▸ hla)
    -- the parts the rules combine, the ends of those bounds and the value of a `Broadcast`
    -- operand, read only names of the node
    have hA₁ : (boundsOfLanes a).min.noShuffle = true ∧
        (boundsOfLanes a).min.varNames ⊆ a.varNames ++ b.varNames :=
      ⟨hA.1.1, hA.1.2.trans (List.subset_append_left _ _)⟩
    have hA₂ : (boundsOfLanes a).max.noShuffle = true ∧
        (boundsOfLanes a).max.varNames ⊆ a.varNames ++ b.varNames :=
      ⟨hA.2.1, hA.2.2.trans (List.subset_append_left _ _)⟩
    have hB₁ : (boundsOfLanes b).min.noShuffle = true ∧
        (boundsOfLanes b).min.varNames ⊆ a.varNames ++ b.varNames :=
      ⟨hB.1.1, hB.1.2.trans (List.subset_append_right _ _)⟩
    have hB₂ : (boundsOfLanes b).max.noShuffle = true ∧
        (boundsOfLanes b).max.varNames ⊆ a.varNames ++ b.varNames :=
      ⟨hB.2.1, hB.2.2.trans (List.subset_append_right _ _)⟩
    have hva : ∀ {v}, a.asBroadcast = some v →
        v.noShuffle = true ∧ v.varNames ⊆ a.varNames ++ b.varNames := fun h => by
      obtain ⟨k, rfl⟩ := VExpr.asBroadcast_eq_some h
      exact ⟨hns.1, List.subset_append_left _ _⟩
    have hvb : ∀ {v}, b.asBroadcast = some v →
        v.noShuffle = true ∧ v.varNames ⊆ a.varNames ++ b.varNames := fun h => by
      obtain ⟨k, rfl⟩ := VExpr.asBroadcast_eq_some h
      exact ⟨hns.2, List.subset_append_right _ _⟩
    simp only [boundsOfLanes]
    repeat' split
    all_goals first
      | constructor <;> refine VExpr.SubOf.bin _ rfl rfl ?_ ?_ <;>
          first | assumption | exact hva ‹_› | exact hvb ‹_›
      | exact hfold (by simp [VExpr.noShuffle, hns]) fun _ _ h => by cases h

/-! ### What exact bounds say of the lanes -/

/-- A fold of `Min` over boolean lanes is `true` only when every lane is. -/
theorem foldl_minV_eq_true {f : Nat → Val} {l : List Nat} (hf : ∀ i ∈ l, ∃ b, f i = .bool b) :
    ∀ {c : Bool}, l.foldl (fun m i => Val.minV m (f i)) (.bool c) = .bool true →
      c = true ∧ ∀ i ∈ l, f i = .bool true := by
  induction l with
  | nil => intro c h; exact ⟨Val.bool.inj h, fun _ h => by cases h⟩
  | cons i l ih =>
    intro c h
    obtain ⟨b, hb⟩ := hf i (List.mem_cons_self _ _)
    rw [List.foldl_cons, hb] at h
    obtain ⟨hcb, hl⟩ := ih (fun j hj => hf j (List.mem_cons_of_mem _ hj)) (c := c && b) h
    rw [Bool.and_eq_true] at hcb
    exact ⟨hcb.1, List.forall_mem_cons.2 ⟨hb.trans (by rw [hcb.2]), hl⟩⟩

/-- A fold of `Max` over integer lanes is an integer at least every lane. -/
theorem foldl_maxV_ge {f : Nat → Val} {l : List Nat} (hf : ∀ i ∈ l, ∃ a, f i = .int a) :
    ∀ {c : Int}, ∃ d, l.foldl (fun m i => Val.maxV m (f i)) (.int c) = .int d ∧ c ≤ d ∧
      ∀ i ∈ l, (f i).toInt ≤ d := by
  induction l with
  | nil => intro c; exact ⟨c, rfl, le_rfl, fun _ h => by cases h⟩
  | cons i l ih =>
    intro c
    obtain ⟨a, ha⟩ := hf i (List.mem_cons_self _ _)
    obtain ⟨d, hd, hcd, hl⟩ := ih (fun j hj => hf j (List.mem_cons_of_mem _ hj)) (c := Max.max c a)
    refine ⟨d, by rw [List.foldl_cons, ha]; exact hd, (le_max_left c a).trans hcd,
      List.forall_mem_cons.2 ⟨?_, hl⟩⟩
    rw [ha]
    exact (le_max_right c a).trans hcd

/-- When the least of `n` boolean lanes is `true`, every lane is: what the `IfThenElse`
visitor relies on when `bounds_of_lanes(c).min` holds. -/
theorem laneMin_eq_true {env : Env} {e : VExpr} {n : Nat} (hn : 0 < n)
    (hb : ∀ i < n, ∃ b, e.eval env i = .bool b) (h : VExpr.laneMin env e n = .bool true) :
    ∀ i < n, e.eval env i = .bool true := by
  obtain ⟨b0, h0⟩ := hb 0 hn
  unfold VExpr.laneMin at h
  rw [h0] at h
  obtain ⟨hc, hl⟩ := foldl_minV_eq_true (fun i hi => hb i (lt_of_mem_range' hi)) h
  intro i hi
  rcases Nat.eq_zero_or_pos i with rfl | hpos
  · rw [h0, hc]
  · exact hl i (List.mem_range'_1.2 ⟨hpos, by omega⟩)

/-- Every one of `n` integer lanes is at most the greatest: what the `For` visitor relies on
when it runs a loop up to `bounds_of_lanes(extent).max`. -/
theorem le_laneMax {env : Env} {e : VExpr} {n : Nat} (hi : ∀ i < n, ∃ a, e.eval env i = .int a) :
    ∀ i < n, (e.eval env i).toInt ≤ (VExpr.laneMax env e n).toInt := by
  intro i hin
  obtain ⟨a0, h0⟩ := hi 0 (by omega)
  obtain ⟨d, hd, hcd, hl⟩ := foldl_maxV_ge (f := fun i => e.eval env i) (c := a0)
    (fun j hj => hi j (lt_of_mem_range' hj))
  unfold VExpr.laneMax
  rw [h0, hd]
  rcases Nat.eq_zero_or_pos i with rfl | hpos
  · rw [h0]
    exact hcd
  · exact hl i (List.mem_range'_1.2 ⟨hpos, by omega⟩)

/-! ### The bounds the visitors take -/

namespace VectorSubs

variable {vs : VectorSubs} {base : VExpr} {Γ : String → VType}

/-- What the `For` and `IfThenElse` visitors take of `bounds_of_lanes` of a bounded scalar
`e` that became a vector under a `Ramp` replacement: its ends read only names of the
vector and extract no lane of a variable, and they are the vector's least and greatest lane
in every environment that gives the names it reads lanes of their types. -/
theorem mutate_bounds (hn : 1 < vs.replacement.type.lanes)
    (hR : vs.replacement = .ramp base (.intImm 1) vs.replacement.type.lanes)
    (hbase : base.scalarBody = true) (hbt : base.typeOk Γ = true) (hbty : base.type = ⟨.int, 1⟩)
    (hx : (Γ vs.var).elem = .int) {e : VExpr} (he : e.scalarBody = true)
    (hl : e.letNames = []) (hf : e.exactOver vs.var = true) (ht : e.typeOk Γ = true) {e' : VExpr}
    (hm : vs.mutate [] e = some e') (hv : e'.type.lanes ≠ 1) :
    (boundsOfLanes e').From e' ∧ e'.typeOk Γ = true ∧ e'.type.elem = e.type.elem ∧
      ∀ env : Env, (∀ g, e'.usesVar g = true → env.Typed Γ g) → (boundsOfLanes e').Exact env e' := by
  have hRt : vs.replacement.typeOk Γ = true := by
    rw [hR]
    simp [VExpr.typeOk, hbt, hbty, VExpr.type]
  have hRe : vs.replacement.type.elem = .int := by
    rw [hR]
    simp [VExpr.type, hbty]
  obtain ⟨ht', hte⟩ := mutate_typeOk hRt hRe hx he hl ht hm
  have hr := mutate_exactRulesOnly hn (by rw [hR]; rfl) (by rw [hR]; rfl) he hl hf hm
  -- every name the vector reads is a scalar, so no `.min_lane` or `.max_lane` is read
  have hs : ∀ g, e'.usesVar g = true → (Γ g).lanes = 1 := fun g hu =>
    (mutate_usesVar he hl hm hu).elim (fun h => VExpr.lanes_of_usesVar ht he h.1) fun h => by
      rw [hR] at h
      exact VExpr.lanes_of_usesVar hbt hbase (by simpa [VExpr.usesVar] using h)
  have hns := mutate_noShuffle (by rw [hR]; simp [VExpr.noShuffle, VExpr.noShuffle_of_scalarBody hbase]) he hm
  exact ⟨boundsOfLanes_from hr ht' hns hs hv, ht', hte, fun env henv =>
    boundsOfLanes_exact hr ht' henv fun g hu hg => absurd (hg ▸ hs g hu) hv⟩

end VectorSubs

end HalideSchedule.Vectorize
