import HalideSchedule.Schedule.Stage
import Mathlib.Data.List.Forall2

/-!
# HalideSchedule.Schedule.ReorderStorage

**`Func::reorder_storage`**, the reordering of a function's storage dimensions
(`function.schedule().storage_dims()`, `Stage.storageDims`). The two-name form
`reorder_storage(x, y)` scans the dimensions once: it remembers the last slot matching
`y`, and at the first slot matching `x` (and not `y`) it swaps the two if `y` came
first, and stops. No slot matching `x` is a user error. The list form orders its first
name before each later one, by that two-name call, then the remaining names the same
way while more than two remain: a selection sort by swaps.

Its law (`reorder_storage_places_names`): when the names are distinct and each matches
exactly one storage dimension, the result is a permutation of the dimensions that puts
the named ones in the order of the list, in the slots they held, and leaves every other
dimension where it was. The argument follows the recursion: a swap moves only the two
named slots and leaves the first name in the smaller one (`reorderStoragePair_spec`);
the loop of one level leaves its first name before every later one
(`orderFirst_spec`); and the later levels move only slots named by later names, so the
first name keeps its slot (`reorderStorageFrom_spec`). The frame "every slot not
named keeps its entry" is `Keeps`, a slot-by-slot relation between the two lists.

The names are `Var` handles. `var_name_match` asserts that they are unqualified, and
two unqualified names that match one entry are equal (`varNameMatch_inj`), so distinct
names match distinct slots.
-/

namespace HalideSchedule

namespace ReorderStorage

/-! ### The model -/

/-- The `user_error` of `reorder_storage(x, y)` when no dimension matches `x`. -/
def couldNotFind (x y : String) : String :=
  "Could not find variables " ++ x ++ " and " ++ y ++ " to reorder in schedule.\n"

/-- The `user_assert` of `reorder_storage(dims)`. -/
def tooFewDimensions : String :=
  "reorder_storage must have at least two dimensions in reorder list.\n"

/-- `std::swap(dims[i], dims[j])`. -/
def swapSlots (dims : List String) (i j : Nat) : List String :=
  (dims.set i (dims.getD j "")).set j (dims.getD i "")

/-- The loop of `reorder_storage(x, y)` from slot `i` on, `rest` the entries from
there: `yLoc` is the last slot so far whose entry matches `y` (`found_y`, `y_loc`). -/
def pairLoop (x y : VarOrRVar) (dims : List String) :
    Option Nat → Nat → List String → Except String (List String)
  | _, _, [] => throw (couldNotFind x.name y.name)
  | yLoc, i, d :: rest =>
      if varNameMatch d y.name then pairLoop x y dims (some i) (i + 1) rest
      else if varNameMatch d x.name then pure (yLoc.elim dims (swapSlots dims i))
      else pairLoop x y dims yLoc (i + 1) rest

/-- `Func::reorder_storage(Var x, Var y)`. -/
def reorderStoragePair (x y : VarOrRVar) (dims : List String) : Except String (List String) :=
  pairLoop x y dims none 0 dims

/-- `Func::reorder_storage(dims, start)` on the names from `start` on: the first is
ordered before each later one, then, while more than two names remain, the rest. -/
def reorderStorageFrom : List VarOrRVar → List String → Except String (List String)
  | [], dims => pure dims
  | x :: rest, dims => do
      let dims ← rest.foldlM (fun dims y => reorderStoragePair x y dims) dims
      if rest.length + 1 > 2 then reorderStorageFrom rest dims else pure dims

/-- `Func::reorder_storage(const std::vector<Var> &dims)`. -/
def reorderStorage (vs : List VarOrRVar) (dims : List String) : Except String (List String) :=
  if vs.length > 1 then reorderStorageFrom vs dims else throw tooFewDimensions

/-! ### Slots and frames -/

/-- The entry `d` is matched by some name of `vs`. -/
def named (vs : List VarOrRVar) (d : String) : Bool :=
  vs.any fun v => varNameMatch d v.name

/-- The slot of `v` in `dims`: the first entry it matches. -/
def slot (dims : List String) (v : VarOrRVar) : Nat :=
  dims.findIdx (varNameMatch · v.name)

/-- `v` matches exactly one entry of `dims`. -/
def MatchesOnce (dims : List String) (v : VarOrRVar) : Prop :=
  dims.countP (varNameMatch · v.name) = 1

instance (dims : List String) (v : VarOrRVar) : Decidable (MatchesOnce dims v) :=
  inferInstanceAs (Decidable (_ = 1))

/-- Slot by slot, `l'` has the entry of `l` wherever that entry is not named by `vs`. -/
def Keeps (vs : List VarOrRVar) (l l' : List String) : Prop :=
  List.Forall₂ (fun d d' => named vs d ∨ d' = d) l l'

/-- An entry matching `v` is named by `vs` only if some name of `vs` is `v`'s. -/
theorem named_eq_false {v : VarOrRVar} {vs : List VarOrRVar} {d : String}
    (hd : varNameMatch d v.name) (hv : v.name ∉ vs.map (·.name)) : named vs d = false := by
  simp only [named, List.any_eq_false]
  exact fun w hw hw' => hv (List.mem_map.2 ⟨w, hw, varNameMatch_inj hw' hd⟩)

theorem named_of_subset {vs ws : List VarOrRVar} (h : vs ⊆ ws) {d : String}
    (hd : named vs d) : named ws d :=
  let ⟨v, hv, hdv⟩ := List.any_eq_true.1 hd
  List.any_eq_true.2 ⟨v, h hv, hdv⟩

theorem Keeps.refl (vs : List VarOrRVar) (l : List String) : Keeps vs l l :=
  List.forall₂_same.2 fun _ _ => .inr rfl

/-- Frames compose, over the names of both. -/
theorem Keeps.trans {vs ws us : List VarOrRVar} {l l' l'' : List String}
    (hvs : vs ⊆ us) (hws : ws ⊆ us) (h : Keeps vs l l') (h' : Keeps ws l' l'') :
    Keeps us l l'' := by
  induction h generalizing l'' with
  | nil => cases h'; exact .nil
  | cons hd _ ih =>
    cases h' with
    | cons hd' h' =>
      refine .cons ?_ (ih h')
      rcases hd with hd | rfl
      · exact .inl (named_of_subset hvs hd)
      · exact hd'.imp (named_of_subset hws) id

/-- A slot whose entry is not named keeps it. -/
theorem Keeps.getElem? {vs : List VarOrRVar} {l l' : List String} (h : Keeps vs l l')
    {k : Nat} {d : String} (hk : l[k]? = some d) (hd : named vs d = false) : l'[k]? = some d := by
  induction h generalizing k with
  | nil => simp at hk
  | cons hx _ ih =>
    cases k with
    | zero =>
      simp only [List.getElem?_cons_zero, Option.some.injEq] at hk ⊢
      subst hk
      exact hx.resolve_left (by simp [hd])
    | succ k => simpa only [List.getElem?_cons_succ] using ih (by simpa only [List.getElem?_cons_succ] using hk)

/-- A slot of `l'` holds the entry of `l` there, or `l`'s entry there is named. -/
theorem Keeps.named_or_eq {vs : List VarOrRVar} {l l' : List String} (h : Keeps vs l l')
    {k : Nat} {d' : String} (hk : l'[k]? = some d') :
    ∃ d, l[k]? = some d ∧ (named vs d ∨ d' = d) := by
  induction h generalizing k with
  | nil => simp at hk
  | cons hx _ ih =>
    cases k with
    | zero =>
      simp only [List.getElem?_cons_zero, Option.some.injEq] at hk ⊢
      exact ⟨_, rfl, hk ▸ hx⟩
    | succ k => simpa only [List.getElem?_cons_succ] using ih (by simpa only [List.getElem?_cons_succ] using hk)

/-- The slot of a name that matches exactly one entry is that entry's. -/
theorem slot_eq {l : List String} {v : VarOrRVar} (hv : MatchesOnce l v) {a : Nat} {d : String}
    (ha : l[a]? = some d) (hd : varNameMatch d v.name) : slot l v = a := by
  obtain ⟨hal, rfl⟩ := List.getElem?_eq_some_iff.1 ha
  have hl : l = l.take a ++ l[a] :: l.drop (a + 1) := by
    rw [← List.drop_eq_getElem_cons hal, List.take_append_drop]
  have hpre : (l.take a).countP (varNameMatch · v.name) = 0 := by
    rw [MatchesOnce, hl, List.countP_append, List.countP_cons, if_pos hd] at hv
    omega
  rw [slot, hl, List.findIdx_append, if_neg, List.findIdx_cons, hd, cond_true]
  · simp [Nat.min_eq_left hal.le]
  · rw [List.findIdx_eq_length.2 (by simpa using hpre)]
    exact Nat.lt_irrefl _

/-- A name that matches exactly one entry has it at its slot. -/
theorem getElem?_slot {l : List String} {v : VarOrRVar} (hv : MatchesOnce l v) :
    ∃ d, l[slot l v]? = some d ∧ varNameMatch d v.name := by
  have : 0 < l.countP (varNameMatch · v.name) := by simp only [MatchesOnce] at hv; omega
  obtain ⟨d, hd, hdv⟩ := List.countP_pos_iff.1 this
  have hlt := List.findIdx_lt_length_of_exists (p := (varNameMatch · v.name)) ⟨d, hd, hdv⟩
  exact ⟨_, List.getElem?_eq_getElem hlt, List.findIdx_getElem (w := hlt)⟩

/-- A name matching exactly one entry of `l`, which `vs` does not name, keeps its slot
through a frame of `vs`. -/
theorem slot_keeps {vs : List VarOrRVar} {l l' : List String} (h : Keeps vs l l')
    {v : VarOrRVar} (hv : MatchesOnce l v) (hv' : MatchesOnce l' v)
    (hvs : v.name ∉ vs.map (·.name)) : slot l' v = slot l v := by
  obtain ⟨d, hd, hdv⟩ := getElem?_slot hv
  exact slot_eq hv' (h.getElem? hd (named_eq_false hdv hvs)) hdv

/-- Through a frame of `vs`, a name of `vs` moves to a slot that some name of `vs`
held. -/
theorem slot_mem_named {vs : List VarOrRVar} {l l' : List String} (h : Keeps vs l l')
    (hvs : ∀ w ∈ vs, MatchesOnce l w) {v : VarOrRVar} (hv : v ∈ vs) (hv' : MatchesOnce l' v) :
    ∃ w ∈ vs, slot l' v = slot l w := by
  obtain ⟨d', hd', hdv⟩ := getElem?_slot hv'
  obtain ⟨d, hd, hn | rfl⟩ := h.named_or_eq hd'
  · obtain ⟨w, hw, hdw⟩ := List.any_eq_true.1 hn
    exact ⟨w, hw, (slot_eq (hvs w hw) hd hdw).symm⟩
  · exact ⟨v, hv, (slot_eq (hvs v hv) hd hdv).symm⟩

/-! ### One swap -/

/-- A list with exactly one entry satisfying `p` is that entry between two lists with
none. -/
theorem eq_append_cons_of_countP_eq_one {p : String → Bool} :
    ∀ {l : List String}, l.countP p = 1 →
      ∃ A d B, l = A ++ d :: B ∧ p d ∧ A.countP p = 0 ∧ B.countP p = 0
  | [], h => by simp at h
  | a :: l, h => by
    by_cases ha : p a
    · exact ⟨[], a, l, rfl, ha, rfl, by simpa [List.countP_cons, ha] using h⟩
    · obtain ⟨A, d, B, rfl, hd, hA, hB⟩ :=
        eq_append_cons_of_countP_eq_one (by simpa [List.countP_cons, ha] using h)
      exact ⟨a :: A, d, B, rfl, hd, by simp [List.countP_cons, ha, hA], hB⟩

/-- The loop passes over entries matching neither name. -/
theorem pairLoop_skip {x y : VarOrRVar} {dims : List String} {yLoc : Option Nat} {i : Nat} :
    ∀ {pre : List String}, pre.countP (varNameMatch · x.name) = 0 →
      pre.countP (varNameMatch · y.name) = 0 → ∀ rest,
      pairLoop x y dims yLoc i (pre ++ rest) = pairLoop x y dims yLoc (i + pre.length) rest
  | [], _, _, _ => rfl
  | d :: pre, hx, hy, rest => by
    simp only [List.countP_cons, Nat.add_eq_zero, ite_eq_right_iff, Nat.one_ne_zero, imp_false,
      Bool.not_eq_true] at hx hy
    rw [List.cons_append, pairLoop, if_neg (by simp [hy.2]), if_neg (by simp [hx.2]),
      pairLoop_skip hx.1 hy.1, List.length_cons, Nat.add_right_comm, Nat.add_assoc]

theorem getElem?_middle (P S : List String) (d : String) : (P ++ d :: S)[P.length]? = some d := by
  rw [List.getElem?_append_right le_rfl, Nat.sub_self, List.getElem?_cons_zero]

theorem swapSlots_append {A B C : List String} {dx dy : String} :
    swapSlots (A ++ dy :: B ++ dx :: C) (A.length + 1 + B.length) A.length =
      A ++ dx :: B ++ dy :: C := by
  have hB : (A ++ dy :: B).length = A.length + 1 + B.length := by simp; omega
  have h1 : (A ++ dy :: B ++ dx :: C)[A.length]? = some dy := by
    rw [List.append_assoc]; exact getElem?_middle _ _ _
  have h2 : (A ++ dy :: B ++ dx :: C)[A.length + 1 + B.length]? = some dx := hB ▸ getElem?_middle _ _ _
  rw [swapSlots, List.getD_eq_getElem?_getD, List.getD_eq_getElem?_getD, h1, h2, Option.getD_some,
    Option.getD_some, List.set_append_right _ _ hB.le, hB, Nat.sub_self, List.append_assoc,
    List.set_append_right _ _ le_rfl, Nat.sub_self]
  simp

theorem ok_bind {α β : Type} (a : α) (f : α → Except String β) : (Except.ok a >>= f) = f a := rfl

/-- **One call of `reorder_storage(x, y)`.** With distinct names, each matching exactly
one entry, it succeeds, permutes the entries, changes only the two named slots, and
leaves `x` before `y`, never later than it was. -/
theorem reorderStoragePair_spec {x y : VarOrRVar} {l : List String} (hx : MatchesOnce l x)
    (hy : MatchesOnce l y) (hne : x.name ≠ y.name) :
    ∃ l', reorderStoragePair x y l = .ok l' ∧ l'.Perm l ∧ Keeps [x, y] l l' ∧
      slot l' x < slot l' y ∧ slot l' x ≤ slot l x := by
  obtain ⟨A, dx, B, rfl, hdx, hAx, hBx⟩ := eq_append_cons_of_countP_eq_one hx
  have hdxy : varNameMatch dx y.name = false := by
    simpa using fun h => hne (varNameMatch_inj hdx h)
  have hy' := hy
  simp only [MatchesOnce, List.countP_append, List.countP_cons, hdxy, Bool.false_eq_true,
    ite_false, Nat.add_zero] at hy'
  by_cases hAy : A.countP (varNameMatch · y.name) = 0
  · -- `x` comes first: nothing moves
    obtain ⟨B1, dy, B2, rfl, hdy, -, -⟩ :=
      eq_append_cons_of_countP_eq_one
      (show B.countP (varNameMatch · y.name) = 1 by simpa [hAy] using hy')
    refine ⟨_, ?_, .refl _, Keeps.refl _ _, ?_, le_rfl⟩
    · rw [reorderStoragePair, pairLoop_skip hAx hAy, pairLoop, if_neg (by simp [hdxy]),
        if_pos hdx]
      rfl
    · have hl : A ++ dx :: (B1 ++ dy :: B2) = (A ++ dx :: B1) ++ dy :: B2 := by simp
      rw [slot_eq hx (getElem?_middle _ _ _) hdx, hl,
        slot_eq (hl ▸ hy) (getElem?_middle _ _ _) hdy]
      simp
  · -- `y` comes first: the two swap
    obtain ⟨A1, dy, A2, rfl, hdy, hA1, hA2⟩ :=
      eq_append_cons_of_countP_eq_one (show A.countP (varNameMatch · y.name) = 1 by omega)
    have hdyx : varNameMatch dy x.name = false := by
      simpa using fun h => hne (varNameMatch_inj h hdy)
    simp only [List.countP_append, List.countP_cons, hdyx, Bool.false_eq_true, ite_false,
      Nat.add_zero] at hAx
    have hA1x : A1.countP (varNameMatch · x.name) = 0 := by omega
    have hA2x : A2.countP (varNameMatch · x.name) = 0 := by omega
    have hl : A1 ++ dy :: A2 ++ dx :: B = A1 ++ dy :: (A2 ++ dx :: B) := by simp
    have hl' : A1 ++ dx :: A2 ++ dy :: B = A1 ++ dx :: (A2 ++ dy :: B) := by simp
    have hp : (A1 ++ dx :: A2 ++ dy :: B).Perm (A1 ++ dy :: A2 ++ dx :: B) := by
      rw [hl, hl']
      exact .append_left A1 (((List.perm_middle.cons dx).trans (.swap dy dx _)).trans
        (List.perm_middle.symm.cons dy))
    refine ⟨A1 ++ dx :: A2 ++ dy :: B, ?_, hp, ?_, ?_, ?_⟩
    · rw [reorderStoragePair, hl, pairLoop_skip hA1x hA1, pairLoop, if_pos hdy,
        pairLoop_skip hA2x hA2, pairLoop, if_neg (by simp [hdxy]), if_pos hdx, ← hl]
      exact congrArg pure (by rw [Nat.zero_add]; exact swapSlots_append)
    · have hy : named [x, y] dy := by simp [named, hdy]
      have hx : named [x, y] dx := by simp [named, hdx]
      rw [hl, hl']
      exact List.rel_append (Keeps.refl _ A1) (.cons (.inl hy)
        (List.rel_append (Keeps.refl _ A2) (.cons (.inl hx) (Keeps.refl _ B))))
    · rw [slot_eq ((hp.countP_eq _).trans hy) (getElem?_middle _ _ _) hdy, hl',
        slot_eq (hl' ▸ (hp.countP_eq _).trans hx) (getElem?_middle _ _ _) hdx]
      simp
    · rw [hl', slot_eq (hl' ▸ (hp.countP_eq _).trans hx) (getElem?_middle _ _ _) hdx,
        slot_eq hx (getElem?_middle _ _ _) hdx]
      simp

/-! ### The recursion -/

/-- **One level of `reorder_storage(dims, start)`.** Ordering `x` before each of `ys` in
turn permutes the entries, changes only slots named by `x` or `ys`, moves `x` only to
an earlier slot, and leaves it before each of `ys`. -/
theorem orderFirst_spec {x : VarOrRVar} : ∀ {ys : List VarOrRVar} {l : List String},
    ((x :: ys).map (·.name)).Nodup → (∀ v ∈ x :: ys, MatchesOnce l v) →
    ∃ l', ys.foldlM (fun dims y => reorderStoragePair x y dims) l = .ok l' ∧ l'.Perm l ∧
      Keeps (x :: ys) l l' ∧ slot l' x ≤ slot l x ∧ ∀ y ∈ ys, slot l' x < slot l' y
  | [], l, _, _ => ⟨l, rfl, .refl l, Keeps.refl _ l, le_rfl, by simp⟩
  | y :: ys, l, hnd, hm => by
    simp only [List.map_cons, List.nodup_cons, List.mem_cons, not_or] at hnd
    obtain ⟨l1, h1, hp1, hk1, hlt1, hle1⟩ :=
      reorderStoragePair_spec (hm x (by simp)) (hm y (by simp)) hnd.1.1
    have hm1 : ∀ v ∈ x :: y :: ys, MatchesOnce l1 v := fun v hv => (hp1.countP_eq _).trans (hm v hv)
    have hsub : x :: ys ⊆ x :: y :: ys := List.cons_subset_cons _ (List.subset_cons_self _ _)
    obtain ⟨l', h', hp', hk', hle', hlt'⟩ := @orderFirst_spec x ys l1
      (by simpa only [List.map_cons, List.nodup_cons] using ⟨hnd.1.2, hnd.2.2⟩)
      (fun v hv => hm1 v (hsub hv))
    have hy : slot l' y = slot l1 y :=
      slot_keeps hk' (hm1 y (by simp)) ((hp'.countP_eq _).trans (hm1 y (by simp)))
        (by simpa only [List.map_cons, List.mem_cons, not_or] using ⟨Ne.symm hnd.1.1, hnd.2.1⟩)
    refine ⟨l', by rw [List.foldlM_cons, h1, ok_bind]; exact h', hp'.trans hp1,
      Keeps.trans (List.cons_subset_cons _ (List.cons_subset_cons _ (List.nil_subset _))) hsub
        hk1 hk',
      hle'.trans hle1, ?_⟩
    intro z hz
    rcases List.mem_cons.1 hz with rfl | hz
    · exact hy ▸ hle'.trans_lt hlt1
    · exact hlt' z hz

/-- **`reorder_storage(dims, start)`**, from the names still to place. -/
theorem reorderStorageFrom_spec : ∀ {vs : List VarOrRVar} {l : List String},
    (vs.map (·.name)).Nodup → (∀ v ∈ vs, MatchesOnce l v) →
    ∃ r, reorderStorageFrom vs l = .ok r ∧ r.Perm l ∧ Keeps vs l r ∧
      vs.Pairwise (fun u w => slot r u < slot r w)
  | [], l, _, _ => ⟨l, rfl, .refl l, Keeps.refl _ l, .nil⟩
  | x :: rest, l, hnd, hm => by
    obtain ⟨l1, h1, hp1, hk1, -, hlt1⟩ := orderFirst_spec hnd hm
    have hm1 : ∀ v ∈ x :: rest, MatchesOnce l1 v := fun v hv => (hp1.countP_eq _).trans (hm v hv)
    have hx : x.name ∉ rest.map (·.name) := (List.nodup_cons.1 hnd).1
    by_cases hlen : rest.length + 1 > 2
    · obtain ⟨r, hr, hpr, hkr, hpw⟩ := reorderStorageFrom_spec (List.nodup_cons.1 hnd).2
        (fun v hv => hm1 v (List.mem_cons_of_mem _ hv))
      have hmr : ∀ v ∈ x :: rest, MatchesOnce r v := fun v hv => (hpr.countP_eq _).trans (hm1 v hv)
      have hxr : slot r x = slot l1 x := slot_keeps hkr (hm1 x (by simp)) (hmr x (by simp)) hx
      refine ⟨r, by rw [reorderStorageFrom, h1, ok_bind, if_pos hlen]; exact hr, hpr.trans hp1,
        Keeps.trans (List.Subset.refl _) (List.subset_cons_self _ _) hk1 hkr,
        List.pairwise_cons.2 ⟨fun y hy => ?_, hpw⟩⟩
      obtain ⟨w, hw, hyw⟩ := slot_mem_named hkr (fun w hw => hm1 w (List.mem_cons_of_mem _ hw)) hy
        (hmr y (List.mem_cons_of_mem _ hy))
      rw [hxr, hyw]
      exact hlt1 w hw
    · refine ⟨l1, by rw [reorderStorageFrom, h1, ok_bind, if_neg hlen]; rfl, hp1, hk1,
        List.pairwise_cons.2 ⟨hlt1, ?_⟩⟩
      match rest, hlen with
      | [], _ => exact .nil
      | [_], _ => exact List.pairwise_singleton _ _
      | _ :: _ :: _, h => exact absurd h (by simp)

/-- **The law of `Func::reorder_storage`.** For at least two distinct names, each
matching exactly one storage dimension, `reorder_storage` succeeds with a permutation of
the dimensions in which the named dimensions come in the order of the names, and every
dimension not named keeps its slot. -/
theorem reorder_storage_places_names (vs : List VarOrRVar) (dims : List String)
    (hlen : 2 ≤ vs.length) (hnd : (vs.map (·.name)).Nodup) (hm : ∀ v ∈ vs, MatchesOnce dims v) :
    ∃ r, reorderStorage vs dims = .ok r ∧ r.Perm dims ∧
      vs.Pairwise (fun u w => slot r u < slot r w) ∧
      ∀ (k : Nat) (d : String), dims[k]? = some d → named vs d = false → r[k]? = some d := by
  obtain ⟨r, hr, hp, hk, hpw⟩ := reorderStorageFrom_spec hnd hm
  exact ⟨r, by rw [reorderStorage, if_pos (show vs.length > 1 from hlen)]; exact hr, hp, hpw, fun _ _ => hk.getElem?⟩

/-- `reorder_storage(y, x)` on the storage dimensions `x, y, z`. -/
theorem reorder_storage_places_names_yx :
    let vs := [VarOrRVar.var "y" (by decide), VarOrRVar.var "x" (by decide)]
    (2 ≤ vs.length ∧ (vs.map (·.name)).Nodup ∧ ∀ v ∈ vs, MatchesOnce ["x", "y", "z"] v) ∧
      ∃ r, reorderStorage vs ["x", "y", "z"] = .ok r ∧ r.Perm ["x", "y", "z"] ∧
        vs.Pairwise (fun u w => slot r u < slot r w) ∧
        ∀ (k : Nat) (d : String), ["x", "y", "z"][k]? = some d → named vs d = false → r[k]? = some d :=
  have h : 2 ≤ 2 ∧ (["y", "x"]).Nodup ∧ ∀ v ∈ [VarOrRVar.var "y" (by decide), VarOrRVar.var "x"
      (by decide)], MatchesOnce ["x", "y", "z"] v := ⟨le_rfl, by decide, by decide⟩
  ⟨h, reorder_storage_places_names _ _ h.1 h.2.1 h.2.2⟩

end ReorderStorage

end HalideSchedule
