import HalideSchedule.Schedule.Stage

/-!
# HalideSchedule.Schedule.ApplySplit

**Replaying a Split History entry on a reduction domain** (`apply_split_directive`
and its four cases). `rfactor` needs the reduction variables as the directives left
them, so it replays every pending entry on `rvars`: a split replaces the variable by
its inner and outer halves (inner first), a fuse merges two variables into the
outer one's slot, a purify drops the variable and a rename renames it. An entry
whose variable is not in the domain does not apply (`none`), and `rfactor` keeps it
pending.

The expressions that mention the replayed variable (predicates, arguments, values)
are rewritten with what `apply_split` of `ApplySplit.cpp` (an external collaborator)
returns: substitutions and lets are substituted, predicates are appended.
-/

namespace HalideSchedule

/-- The expressions `apply_split_directive` rewrites alongside the domain: the
reduction domain's predicates and the update's arguments and values. -/
structure SplitExprs where
  predicates : List Expr
  args : List Expr
  values : List Expr

namespace SplitExprs

/-- `substitute_var_in_exprs(name, value, ...)` on all three lists. -/
def substituteVar (e : SplitExprs) (name : String) (value : Expr) : SplitExprs :=
  let m := [(name, value)]
  ⟨e.predicates.map (·.substitute m), e.args.map (·.substitute m), e.values.map (·.substitute m)⟩

/-- `apply_split_result`: substitute each substitution and let, append each predicate,
then substitute the loop-bound lets. -/
def applySplitResult (e : SplitExprs) (letStmts : List (String × Expr))
    (results : List ApplySplitResult) : SplitExprs :=
  let e := results.foldl (fun e r => match r with
    | .substitution n v | .letStmt n v => e.substituteVar n v
    | .predicate v => { e with predicates := e.predicates ++ [v] }) e
  letStmts.foldl (fun e l => e.substituteVar l.1 l.2) e

end SplitExprs

namespace ApplySplit

variable (c : Collaborators)

/-- The domain update of `apply_split`: the first variable named `s.oldVar` becomes
`s.inner` over `[0, factor)`, followed by `s.outer` over
`[0, (extent - 1 + factor) / factor)`. -/
def splitRVars (s : Split) : List ReductionVariable → Option (List ReductionVariable)
  | [] => none
  | rv :: rest =>
      if rv.var = s.oldVar then
        some (⟨s.inner, .intImm 0, s.factor⟩ ::
          ⟨s.outer, .intImm 0, c.simplify (.div (.add (.sub rv.extent (.intImm 1)) s.factor) s.factor)⟩
          :: rest)
      else (splitRVars s rest).map (rv :: ·)

/-- The domain update of `apply_fuse`: when both halves are in the domain, the outer
one's slot becomes the fused variable over `[0, outer.extent * inner.extent)` and the
inner one is erased. -/
def fuseRVars (s : Split) (rvars : List ReductionVariable) : Option (List ReductionVariable) :=
  match rvars.findIdx? (·.var = s.outer), rvars.findIdx? (·.var = s.inner) with
  | some io, some ii =>
    match rvars[io]?, rvars[ii]? with
    | some o, some i => some ((rvars.set io ⟨s.oldVar, .intImm 0, .mul o.extent i.extent⟩).eraseIdx ii)
    | _, _ => none
  | _, _ => none

/-- The domain update of `apply_purify`: the variable is erased. -/
def purifyRVars (s : Split) (rvars : List ReductionVariable) : Option (List ReductionVariable) :=
  (rvars.findIdx? (·.var = s.oldVar)).map rvars.eraseIdx

/-- The domain update of `apply_rename`: the variable takes the name `s.outer`. -/
def renameRVars (s : Split) : List ReductionVariable → Option (List ReductionVariable)
  | [] => none
  | rv :: rest =>
      if rv.var = s.oldVar then some ({ rv with var := s.outer } :: rest)
      else (renameRVars s rest).map (rv :: ·)

/-- The domain update of one history entry, by kind. -/
def updateRVars (s : Split) (rvars : List ReductionVariable) : Option (List ReductionVariable) :=
  match s.splitType with
  | .splitVar => splitRVars c s rvars
  | .fuseVars => fuseRVars s rvars
  | .purifyRVar => purifyRVars s rvars
  | .renameVar => renameRVars s rvars

/-- `apply_split_directive(s, rvars, predicates, args, values)`: the domain and the
expressions after replaying `s`, or `none` when `s` does not apply to the domain. -/
def applySplitDirective (s : Split) (rvars : List ReductionVariable) (e : SplitExprs) :
    Option (List ReductionVariable × SplitExprs) :=
  -- `dim_extent_alignment` is a `std::map`: the last binding of a name is the one kept.
  let alignment := (rvars.map fun rv => (rv.var, rv.extent)).reverse
  let bounds := rvars.flatMap fun rv =>
    [(rv.var ++ ".loop_min", rv.min),
     (rv.var ++ ".loop_max", c.simplify (.sub (.add rv.min rv.extent) (.intImm 1))),
     (rv.var ++ ".loop_extent", rv.extent)]
  (updateRVars c s rvars).map fun rvars' =>
    let e := e.applySplitResult (c.computeLoopBoundsAfterSplit s) (c.applySplit s alignment)
    (rvars', bounds.foldl (fun e l => e.substituteVar l.1 l.2) e)

/-- The replay loop of `rfactor`: every history entry is replayed on the domain in
order; the entries that did not apply are returned as the new pending history. -/
def replay : List Split → List ReductionVariable → SplitExprs →
    List ReductionVariable × SplitExprs × List Split
  | [], rvars, e => (rvars, e, [])
  | s :: rest, rvars, e =>
      match applySplitDirective c s rvars e with
      | some (rvars', e') => replay rest rvars' e'
      | none =>
        let r := replay rest rvars e
        (r.1, r.2.1, s :: r.2.2)

/-- `apply_split` rewrites the first variable named `s.oldVar`. -/
theorem splitRVars_append {s : Split} {rv : ReductionVariable} {post : List ReductionVariable} :
    ∀ {pre : List ReductionVariable}, (∀ r ∈ pre, r.var ≠ s.oldVar) → rv.var = s.oldVar →
      splitRVars c s (pre ++ rv :: post) = some (pre ++ ⟨s.inner, .intImm 0, s.factor⟩ ::
        ⟨s.outer, .intImm 0,
          c.simplify (.div (.add (.sub rv.extent (.intImm 1)) s.factor) s.factor)⟩ :: post)
  | [], _, hrv => by simp [splitRVars, hrv]
  | r :: pre, hpre, hrv => by
    simp [splitRVars, hpre r (List.mem_cons_self _ _),
      splitRVars_append (fun x hx => hpre x (List.mem_cons_of_mem _ hx)) hrv]

theorem findIdx?_append_cons {α : Type} {p : α → Bool} {a : α} {post : List α} :
    ∀ {pre : List α}, (∀ x ∈ pre, p x = false) → p a → (pre ++ a :: post).findIdx? p = some pre.length
  | [], _, ha => by simp [ha]
  | x :: pre, hpre, ha => by
    simp [hpre x (List.mem_cons_self _ _),
      findIdx?_append_cons (fun y hy => hpre y (List.mem_cons_of_mem _ hy)) ha]

/-- `apply_fuse` on an inner variable directly followed by its outer one: the pair
becomes the fused variable, in the inner one's slot. -/
theorem fuseRVars_adjacent {s : Split} {i o : ReductionVariable}
    {pre post : List ReductionVariable} (hpre : ∀ r ∈ pre, r.var ≠ s.outer ∧ r.var ≠ s.inner)
    (hi : i.var = s.inner) (ho : o.var = s.outer) (hio : s.inner ≠ s.outer) :
    fuseRVars s (pre ++ i :: o :: post) =
      some (pre ++ ⟨s.oldVar, .intImm 0, .mul o.extent i.extent⟩ :: post) := by
  have hl : pre ++ i :: o :: post = (pre ++ [i]) ++ o :: post := by simp
  have hout : (pre ++ i :: o :: post).findIdx? (·.var = s.outer) = some (pre.length + 1) := by
    rw [hl, findIdx?_append_cons _ (by simpa using ho)]
    · simp
    · intro r hr
      rcases List.mem_append.1 hr with hr | hr
      · simpa using (hpre r hr).1
      · simpa [List.mem_singleton.1 hr, hi] using hio
  rw [fuseRVars, hout, findIdx?_append_cons (by simpa using fun r hr => (hpre r hr).2)
    (by simpa using hi)]
  simp only [List.getElem?_append_right (Nat.le_succ _), List.getElem?_append_right le_rfl,
    Nat.add_sub_cancel_left, Nat.sub_self, List.getElem?_cons_zero, List.getElem?_cons_succ,
    List.set_append_right _ _ (Nat.le_succ _), List.eraseIdx_append_of_length_le le_rfl]
  simp

/-- The pending history `rfactor` keeps is a sub-history of the one it replayed. -/
theorem replay_pending_sublist {c : Collaborators} :
    ∀ {splits : List Split} {rvars : List ReductionVariable} {e : SplitExprs},
      (replay c splits rvars e).2.2.Sublist splits
  | [], _, _ => List.Sublist.slnil
  | s :: rest, rvars, e => by
    unfold replay
    split
    · exact (replay_pending_sublist).cons s
    · exact (replay_pending_sublist).cons₂ s

end ApplySplit

end HalideSchedule
