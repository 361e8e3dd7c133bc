import BoundSql.Proofs.Node

/-
Which nodes cannot be written, and what they leave behind.

An insert or update that sets no column fails before anything is bound.  Any other
node fails exactly if it reaches a select with nothing to select from, wherever that
stands in it, and then the values that come before the first such select have been
bound and no others.  The main statement is `Node.render_fails_iff`.
-/

namespace BoundSql

def Leaf.isGap : Leaf → Bool
  | gap => true
  | _ => false

namespace Fragment

/-- The values that are bound are those before the first gap. -/
theorem bound_eq_before_gap (f : Fragment) :
    f.bound = (f.leaves.takeWhile fun leaf => !leaf.isGap).filterMap Leaf.literal? := by
  induction f with
  | nil => rfl
  | cons piece rest ih =>
    cases piece with
    | text s => exact ih
    | name n => exact ih
    | bind v => exact congrArg (v :: ·) ih
    | fault f => rfl

theorem render_fst (f : Fragment) (params : Parameters) (fault : Fault) :
    (f.render params).1 = .error fault ↔ f.fault? = some fault := by
  have hstopped := f.write_snd ⟨"", params⟩
  unfold render
  cases hw : write ⟨"", params⟩ f with
  | mk out stopped =>
    rw [hw] at hstopped
    rw [← hstopped]
    cases stopped with
    | none => simp
    | some other => simp

theorem values_render (f : Fragment) (params : Parameters) :
    (f.render params).2.values.toList = params.values.toList ++ f.bound := by
  have hvalues := f.values_write ⟨"", params⟩
  unfold render
  cases hw : write ⟨"", params⟩ f with
  | mk out stopped =>
    rw [hw] at hvalues
    cases stopped <;> exact hvalues

end Fragment

namespace Node

/-- A select with nothing to select from is reached. -/
def HasGap (n : Node) : Prop :=
  ∃ rows, n.Reaches (.select rows) ∧ rows.source = none

/-- The values that come before the first select with nothing to select from, or all
values if there is no such select. -/
def literalsBeforeGap (n : Node) : List Value :=
  (n.leaves.takeWhile fun leaf => !leaf.isGap).filterMap Leaf.literal?

theorem leaves_fragment {n : Node} (h : n.unset? = none) : n.fragment.leaves = n.leaves := by
  cases n with
  | expr e => exact e.leaves_fragment
  | source s => exact s.leaves_fragment
  | select rows => exact rows.leaves_fragment
  | statement s =>
    cases s with
    | select q => exact q.select.leaves_fragment
    | insert i => exact Insert.leaves_fragment (by simpa [unset?] using h)
    | update u => exact Update.leaves_fragment (by simpa [unset?] using h)
    | delete d => exact d.leaves_fragment

/-- A node that stops by itself is a select with nothing to select from, or sets no
column where it has to. -/
theorem stop?_eq_some_iff (n : Node) (fault : Fault) :
    n.stop? = some fault ↔
      (∃ rows, n = .select rows ∧ rows.source = none ∧ .missingFrom = fault) ∨
        ∃ word, n.unset? = some word ∧ .emptyAssignments word = fault := by
  cases n with
  | select rows =>
    cases hs : rows.source with
    | none => simp [stop?, unset?, hs]
    | some s => simp [stop?, unset?, hs]
  | _ => simp [stop?, Option.map_eq_some_iff]

theorem fault?_of_unset {n : Node} {word : String} (h : n.unset? = some word) :
    n.fragment.fault? = some (.emptyAssignments word) := by
  rw [fragment_of_unset h]
  rfl

/-- Only a statement that sets no column is at fault for it. -/
theorem fault?_eq_emptyAssignments_iff (n : Node) (word : String) :
    n.fragment.fault? = some (.emptyAssignments word) ↔ n.unset? = some word := by
  refine ⟨fun h => ?_, fault?_of_unset⟩
  obtain ⟨m, hm, hstop⟩ := exists_stop_of_fault h
  rcases (stop?_eq_some_iff m _).mp hstop with ⟨rows, -, -, hfault⟩ | ⟨other, hunset, hfault⟩
  · cases hfault
  · cases hfault
    -- What sets no column is a statement, and no part of another node is one.
    cases m with
    | statement s => rw [eq_of_reaches_statement hm, hunset]
    | _ => cases hunset

/-- All others are at fault for a select that they reach. -/
theorem fault?_eq_missingFrom_iff (n : Node) :
    n.fragment.fault? = some .missingFrom ↔ n.unset? = none ∧ n.HasGap := by
  constructor
  · intro h
    obtain ⟨m, hm, hstop⟩ := exists_stop_of_fault h
    refine ⟨?_, ?_⟩
    · cases hunset : n.unset? with
      | none => rfl
      | some word =>
        rw [fault?_of_unset hunset] at h
        cases h
    · rcases (stop?_eq_some_iff m _).mp hstop with ⟨rows, rfl, hsource, -⟩ | ⟨word, -, hfault⟩
      · exact ⟨rows, hm, hsource⟩
      · cases hfault
  · rintro ⟨hunset, rows, hrows, hsource⟩
    have hstop := (stop?_eq_some_iff (.select rows) .missingFrom).mpr
      (.inl ⟨rows, rfl, hsource, rfl⟩)
    obtain ⟨fault, hfault⟩ := Option.isSome_iff_exists.mp (hrows.isSome_fault? hstop)
    cases fault with
    | missingFrom => exact hfault
    | emptyAssignments word =>
      rw [(fault?_eq_emptyAssignments_iff n word).mp hfault] at hunset
      cases hunset

theorem bound_fragment (n : Node) :
    n.fragment.bound = if n.unset?.isSome then [] else n.literalsBeforeGap := by
  cases hunset : n.unset? with
  | none =>
    rw [Fragment.bound_eq_before_gap, leaves_fragment hunset]
    rfl
  | some word =>
    rw [fragment_of_unset hunset]
    rfl

/-- A node fails for want of assignments exactly if it is an insert or update that has
none, and then binds nothing.  Any other fails exactly if it reaches a select with
nothing to select from.  What is bound by then is added to what was bound before: the
values that come before the first such select. -/
theorem render_fails_iff (n : Node) (params : Parameters) :
    (∀ word, (n.fragment.render params).1 = .error (.emptyAssignments word) ↔
      n.unset? = some word) ∧
    ((n.fragment.render params).1 = .error .missingFrom ↔ n.unset? = none ∧ n.HasGap) ∧
    (n.fragment.render params).2.values.toList =
      params.values.toList ++ if n.unset?.isSome then [] else n.literalsBeforeGap := by
  refine ⟨fun word => ?_, ?_, ?_⟩
  · rw [Fragment.render_fst]
    exact fault?_eq_emptyAssignments_iff n word
  · rw [Fragment.render_fst]
    exact fault?_eq_missingFrom_iff n
  · rw [Fragment.values_render, bound_fragment]

/-- The unions come before the order of the rows, so what is ordered by is not bound
if a branch has nothing to select from; nor is what comes after the whole. -/
example :
    let rows : Query := .ofClauses [.columns [.literal (.int 1)], .orderBy [.literal (.int 2)],
      .source (.table ⟨"t", none, none⟩), .union .empty]
    (Node.expr (.and (.exists rows.select) (.literal (.int 3)))).literalsBeforeGap = [.int 1] :=
  rfl

end Node
end BoundSql
