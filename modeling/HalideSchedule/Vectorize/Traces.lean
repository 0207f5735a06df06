import HalideSchedule.Vectorize.Stmt

/-!
# HalideSchedule.Vectorize.Traces

**The writes of vectorized code against those of the loop it came from.** A statement
of the vectorized body does for all lanes at once what each iteration of the loop did
alone: its writes are those of the iterations, interleaved differently. `Sim n t W` says
that the writes `t` of vectorized code stand to the writes `W i` of iterations `i < n`
as the code needs:

* `t` fails exactly when some iteration fails (an assertion);
* when the iterations write pairwise different locations (`Separate`), every location
  sees the same sequence of writes in `t` as in the iterations run one after another
  (`flat`), so the memory after `t` is the memory after the loop (`Mem.run_congr`).

`Sim` is closed under sequencing (`Sim.seqW`, the heart: the writes of two statements of
different iterations commute) and hence under loops (`Sim.forExec`); running the lanes
one after another is a `Sim` (`Sim.lanes`), and so is the same outcome at every lane
(`Sim.const`).
-/

namespace HalideSchedule.Vectorize

/-- The writes of `ws` to the location `l`, in order. -/
def hist (l : String × Int) (ws : List Write) : List Write := ws.filter (fun w => w.loc == l)

/-- The writes of iterations `0, …, n - 1`, one after another. -/
def flat (ws : Nat → List Write) (n : Nat) : List Write := (List.range n).flatMap ws

/-- Iterations `i < n` write pairwise different locations. -/
def Separate (ws : Nat → List Write) (n : Nat) : Prop :=
  ∀ i j, i < n → j < n → i ≠ j → ∀ w ∈ ws i, ∀ w' ∈ ws j, w.loc ≠ w'.loc

/-- The writes `t` of vectorized code against the writes `W i` of iterations `i < n`. -/
def Sim (n : Nat) (t : Option (List Write)) (W : Nat → Option (List Write)) : Prop :=
  (t = none ↔ ∃ i < n, W i = none) ∧
    ∀ ts ws, t = some ts → (∀ i < n, W i = some (ws i)) → Separate ws n →
      ∀ l, hist l ts = hist l (flat ws n)

@[simp] theorem hist_append (l : String × Int) (a b : List Write) :
    hist l (a ++ b) = hist l a ++ hist l b := List.filter_append _ _

@[simp] theorem flat_zero (ws : Nat → List Write) : flat ws 0 = [] := rfl

theorem flat_succ (ws : Nat → List Write) (n : Nat) : flat ws (n + 1) = flat ws n ++ ws n := by
  simp [flat, List.range_succ]

theorem flat_congr {ws ws' : Nat → List Write} {n : Nat} (h : ∀ i < n, ws i = ws' i) :
    flat ws n = flat ws' n :=
  List.flatMap_congr fun i hi => h i (List.mem_range.1 hi)

theorem Separate.mono {ws ws' : Nat → List Write} {n m : Nat} (h : Separate ws n) (hm : m ≤ n)
    (hs : ∀ i < m, ∀ w ∈ ws' i, w ∈ ws i) : Separate ws' m :=
  fun i j hi hj hij w hw w' hw' =>
    h i j (by omega) (by omega) hij w (hs i hi w hw) w' (hs j hj w' hw')

theorem hist_eq_nil {l : String × Int} {ws : List Write} (h : ∀ w ∈ ws, w.loc ≠ l) :
    hist l ws = [] :=
  List.filter_eq_nil_iff.2 fun w hw => by simpa using h w hw

theorem hist_flat_eq_nil {l : String × Int} {ws : Nat → List Write} {n : Nat}
    (h : ∀ i < n, ∀ w ∈ ws i, w.loc ≠ l) : hist l (flat ws n) = [] :=
  hist_eq_nil fun w hw => by
    obtain ⟨i, hi, hw⟩ := List.mem_flatMap.1 hw
    exact h i (List.mem_range.1 hi) w hw

/-- Two statements run for all lanes one after the other write each location as the
iterations do, each running both: a write of lane `n` to `l` and a write of an earlier
lane to `l` cannot both exist. -/
theorem hist_flat_append {a b : Nat → List Write} {n : Nat} (h : Separate (fun i => a i ++ b i) n)
    (l : String × Int) :
    hist l (flat a n ++ flat b n) = hist l (flat (fun i => a i ++ b i) n) := by
  induction n with
  | zero => rfl
  | succ n ih =>
    have hcomm : hist l (a n) ++ hist l (flat b n) = hist l (flat b n) ++ hist l (a n) := by
      by_cases ha : ∃ w ∈ a n, w.loc = l
      · obtain ⟨w, hw, rfl⟩ := ha
        rw [hist_flat_eq_nil fun i hi w' hw' heq =>
          h n i (by omega) (by omega) (by omega) w (by simp [hw]) w' (by simp [hw']) heq.symm]
        simp
      · rw [hist_eq_nil fun w hw heq => ha ⟨w, hw, heq⟩]
        simp
    have ih := ih (h.mono (by omega) fun i _ w hw => hw)
    simp only [hist_append, flat_succ] at ih ⊢
    rw [← ih, List.append_assoc, ← List.append_assoc (hist l (a n)), hcomm]
    simp

/-! ### Sequencing and loops -/

theorem seqW_eq_none {t u : Option (List Write)} : seqW t u = none ↔ t = none ∨ u = none := by
  cases t <;> cases u <;> simp [seqW]

theorem seqW_eq_some {t u : Option (List Write)} {ws : List Write} :
    seqW t u = some ws ↔ ∃ a b, t = some a ∧ u = some b ∧ ws = a ++ b := by
  cases t <;> cases u <;> simp [seqW, eq_comm]

theorem Sim.seqW {n : Nat} {t u : Option (List Write)} {T U : Nat → Option (List Write)}
    (ht : Sim n t T) (hu : Sim n u U) :
    Sim n (Vectorize.seqW t u) (fun i => Vectorize.seqW (T i) (U i)) := by
  refine ⟨?_, fun ws vs hs hv hsep l => ?_⟩
  · simp only [seqW_eq_none, ht.1, hu.1]
    constructor
    · rintro (⟨i, hi, h⟩ | ⟨i, hi, h⟩) <;> exact ⟨i, hi, by simp [h]⟩
    · rintro ⟨i, hi, h | h⟩
      exacts [.inl ⟨i, hi, h⟩, .inr ⟨i, hi, h⟩]
  · obtain ⟨a, b, rfl, rfl, rfl⟩ := seqW_eq_some.1 hs
    have hvi : ∀ i < n, ∃ a b, T i = some a ∧ U i = some b ∧ vs i = a ++ b :=
      fun i hi => seqW_eq_some.1 (hv i hi)
    let A i := (T i).getD []
    let B i := (U i).getD []
    have hAB : ∀ i < n, T i = some (A i) ∧ U i = some (B i) ∧ vs i = A i ++ B i := by
      intro i hi
      obtain ⟨a, b, ha, hb, he⟩ := hvi i hi
      simp [A, B, ha, hb, he]
    have hsep' : Separate (fun i => A i ++ B i) n :=
      hsep.mono le_rfl fun i hi w hw => by rwa [(hAB i hi).2.2]
    rw [hist_append, ht.2 a A rfl (fun i hi => (hAB i hi).1) (hsep'.mono le_rfl fun i _ w hw => by
        simp [hw]) l,
      hu.2 b B rfl (fun i hi => (hAB i hi).2.1) (hsep'.mono le_rfl fun i _ w hw => by simp [hw]) l,
      ← hist_append, hist_flat_append hsep', flat_congr fun i hi => (hAB i hi).2.2.symm]

/-- The same outcome at every one of at least two lanes: if it writes anything, two
iterations write the same location, so on separate iterations it writes nothing. -/
theorem Sim.const {n : Nat} (hn : 1 < n) (t : Option (List Write)) : Sim n t (fun _ => t) := by
  refine ⟨⟨fun h => ⟨0, by omega, h⟩, fun ⟨_, _, h⟩ => h⟩, fun ts ws ht hw hsep l => ?_⟩
  have hts : ∀ i < n, ws i = ts := fun i hi => Option.some.inj ((hw i hi).symm.trans ht)
  have hnil : ts = [] := List.eq_nil_iff_forall_not_mem.2 fun w hw =>
    hsep 0 1 (by omega) hn (by omega) w (by rwa [hts 0 (by omega)]) w
      (by rwa [hts 1 hn]) rfl
  rw [hnil, hist_flat_eq_nil fun i hi w hw => by simp [hts i hi, hnil] at hw]
  rfl

/-- The lanes run one after another, as `scalarize` runs them. -/
theorem forExec_eq_none {W : Nat → Option (List Write)} {n : Nat} :
    forExec W n = none ↔ ∃ i < n, W i = none := by
  induction n with
  | zero => simp [forExec]
  | succ n ih =>
    simp only [forExec, seqW_eq_none, ih]
    constructor
    · rintro (⟨i, hi, h⟩ | h)
      exacts [⟨i, by omega, h⟩, ⟨n, by omega, h⟩]
    · rintro ⟨i, hi, h⟩
      rcases Nat.lt_succ_iff_lt_or_eq.1 hi with hi | rfl
      exacts [.inl ⟨i, hi, h⟩, .inr h]

theorem forExec_eq_some {W : Nat → Option (List Write)} {ws : Nat → List Write} {n : Nat}
    (h : ∀ i < n, W i = some (ws i)) : forExec W n = some (flat ws n) := by
  induction n with
  | zero => rfl
  | succ n ih =>
    rw [forExec, ih fun i hi => h i (by omega), h n (by omega), flat_succ]
    rfl

theorem Sim.lanes {n : Nat} (W : Nat → Option (List Write)) : Sim n (forExec W n) W :=
  ⟨forExec_eq_none, fun ts ws ht hw _ l => by rw [forExec_eq_some hw] at ht; cases ht; rfl⟩

/-- Writes that are the iterations' one after another. -/
theorem Sim.flat {n : Nat} {W : Nat → Option (List Write)} {ws : Nat → List Write}
    (h : ∀ i < n, W i = some (ws i)) : Sim n (some (flat ws n)) W :=
  forExec_eq_some h ▸ Sim.lanes W

theorem Sim.congr {n : Nat} {t : Option (List Write)} {W W' : Nat → Option (List Write)}
    (h : Sim n t W) (hW : ∀ i < n, W i = W' i) : Sim n t W' :=
  ⟨h.1.trans ⟨fun ⟨i, hi, h⟩ => ⟨i, hi, (hW i hi) ▸ h⟩, fun ⟨i, hi, h⟩ => ⟨i, hi, (hW i hi) ▸ h⟩⟩,
    fun ts ws ht hw => h.2 ts ws ht fun i hi => (hW i hi).trans (hw i hi)⟩

theorem Sim.nil {n : Nat} : Sim n (some []) (fun _ => some []) :=
  ⟨by simp, fun ts ws ht hw _ l => by
    cases ht
    rw [hist_flat_eq_nil fun i hi w hw' => by simp [Option.some.inj (hw i hi).symm] at hw']
    rfl⟩

/-- A loop whose every iteration `j` is a `Sim` is one. -/
theorem Sim.forExec {n : Nat} {T : Nat → Option (List Write)}
    {W : Nat → Nat → Option (List Write)} (E : Nat) (h : ∀ j < E, Sim n (T j) (fun i => W i j)) :
    Sim n (Vectorize.forExec T E) (fun i => Vectorize.forExec (W i) E) := by
  induction E with
  | zero => exact Sim.nil
  | succ E ih => exact (ih fun j hj => h j (by omega)).seqW (h E (by omega))

theorem seqW_nil_right (t : Option (List Write)) : seqW t (some []) = t := by
  cases t with
  | none => rfl
  | some a => exact congrArg some (List.append_nil a)

theorem forExec_congr {W W' : Nat → Option (List Write)} {n : Nat} (h : ∀ j < n, W j = W' j) :
    forExec W n = forExec W' n := by
  induction n with
  | zero => rfl
  | succ n ih => rw [forExec, forExec, ih fun j hj => h j (by omega), h n (by omega)]

/-- A loop guarded by `j < E` and run up to `M ≥ E` is the loop run up to `E`: the
iterations past `E` write nothing. -/
theorem forExec_guard {W : Nat → Option (List Write)} {E M : Nat} (hE : E ≤ M) :
    forExec (fun j => if j < E then W j else some []) M = forExec W E := by
  induction M with
  | zero => rw [Nat.le_zero.1 hE]; rfl
  | succ M ih =>
    rcases Nat.lt_or_ge M E with hM | hM
    · obtain rfl : E = M + 1 := by omega
      rw [forExec, forExec, forExec_congr fun j hj => if_pos (by omega), if_pos hM]
    · rw [forExec, ih hM, if_neg (by omega), seqW_nil_right]

/-- A loop up to `M` whose iteration `j` is a `Sim` of lane `i`'s iteration `j` when
`j < E i` and of nothing otherwise is a `Sim` of each lane's loop up to its own `E i`. -/
theorem Sim.forExec_guard {n M : Nat} {T : Nat → Option (List Write)}
    {W : Nat → Nat → Option (List Write)} {E : Nat → Nat} (hE : ∀ i < n, E i ≤ M)
    (h : ∀ j < M, Sim n (T j) fun i => if j < E i then W i j else some []) :
    Sim n (Vectorize.forExec T M) fun i => Vectorize.forExec (W i) (E i) :=
  (Sim.forExec M h).congr fun i hi => Vectorize.forExec_guard (hE i hi)

/-! ### Memory -/

theorem Mem.run_append (m : Mem) (a b : List Write) : m.run (a ++ b) = (m.run a).run b :=
  List.foldl_append _ _ _ _

/-- Only the writes to a location decide what it holds. -/
theorem Mem.run_apply (m : Mem) (ws : List Write) (b : String) (i : Int) :
    m.run ws b i = m.run (hist (b, i) ws) b i := by
  induction ws using List.reverseRecOn with
  | nil => rfl
  | append_singleton ws w ih =>
    by_cases hw : w.loc = (b, i)
    · obtain ⟨rfl, rfl⟩ := Prod.mk.inj hw
      simp [Mem.run_append, hist, Write.loc, Mem.run, Mem.store]
    · simp [Mem.run_append, hist, hw]
      simp only [Mem.run, List.foldl_cons, List.foldl_nil, Mem.store] at ih ⊢
      rw [if_neg fun h => hw (by simp [Write.loc, h.1, h.2])]
      exact ih

/-- Writes with the same history at every location leave every memory the same. -/
theorem Mem.run_congr {a b : List Write} (h : ∀ l, hist l a = hist l b) (m : Mem) :
    m.run a = m.run b := by
  funext buf i
  rw [Mem.run_apply, h, ← Mem.run_apply]

/-- Writes that are a `Sim` of iterations leave every memory as the iterations run one after
another, when the iterations that run through write pairwise different locations. -/
theorem Sim.map_run {n : Nat} {t : Option (List Write)} {W : Nat → Option (List Write)}
    (h : Sim n t W) (hsep : ∀ ws, (∀ i < n, W i = some (ws i)) → Separate ws n) (m : Mem) :
    t.map m.run = (Vectorize.forExec W n).map m.run := by
  by_cases hall : ∃ i < n, W i = none
  · rw [h.1.2 hall, forExec_eq_none.2 hall]
  · have hws : ∀ i < n, W i = some ((W i).getD []) := fun i hi => by
      cases hW : W i with
      | none => exact absurd ⟨i, hi, hW⟩ hall
      | some w => rfl
    rw [forExec_eq_some hws]
    cases ht : t with
    | none => exact absurd (h.1.1 ht) hall
    | some ts => simp [Mem.run_congr (h.2 ts _ ht hws (hsep _ hws)) m]

end HalideSchedule.Vectorize
