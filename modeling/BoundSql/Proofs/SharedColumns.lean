import BoundSql.Proofs.Joining

/-
The tables behind a column that both sides of a join share.

When a join under a shared name is attached to a query, the column on the left is one
of the root, which is the first table of the source that was set first, and the column
on the right is one of the last table there.  That table always stands in the right
source.  The root stands in the left one as long as no other source takes its place, and
`KeepsRoot` tells from the calls whether it still does.  The main statement is
`shared_column_of_sides_iff`.
-/

namespace BoundSql

/-! ## The tables of a source -/

namespace Source

/-- The tables of a source, from left to right. -/
def tables : Source → List Table
  | table t => [t]
  | joined left right _ _ => left.tables ++ right.tables

theorem first_mem_tables (s : Source) : s.first ∈ s.tables := by
  match s with
  | table t => exact List.mem_singleton_self t
  | joined left _ _ _ => exact List.mem_append_left _ left.first_mem_tables

theorem last_mem_tables (s : Source) : s.last ∈ s.tables := by
  match s with
  | table t => exact List.mem_singleton_self t
  | joined _ right _ _ => exact List.mem_append_right _ right.last_mem_tables

/-- Joins add the tables of their right sides. -/
theorem mem_tables_foldl_attach {t root : Table} {joins : List Join} {s : Source} :
    t ∈ (joins.foldl (fun left j => j.attach left root) s).tables ↔
      t ∈ s.tables ∨ ∃ j ∈ joins, t ∈ j.right.tables := by
  induction joins generalizing s with
  | nil => simp
  | cons j rest ih =>
    have hattach : t ∈ (j.attach s root).tables ↔ t ∈ s.tables ∨ t ∈ j.right.tables :=
      List.mem_append
    rw [List.foldl_cons, ih, hattach, or_assoc]
    simp

end Source

namespace Query

/-! ## Joins being attached -/

/-- The query with its new source, before the joins that waited are attached to it. -/
def beginSource (q : Query) (s : Source) : Query :=
  { q.withSource s with root := some (q.rootWith s), waiting := [] }

/-- The call that comes after `calls` attaches the join to the query.  Either it is the
call of this join, and there is a source; or it sets the source, the join waited for it,
and the query has got the joins that waited longer. -/
inductive Attaches (calls : List Call) : Call → Query → Join → Prop
  | called {call : Call} {j : Join} (hj : call.join? = some j)
      (hs : (ofCalls calls).source?.isSome) : Attaches calls call (ofCalls calls) j
  | waited {early late : List Join} {j : Join} (s : Source)
      (hw : (ofCalls calls).waiting = early ++ j :: late) :
      Attaches calls (.clause (.source s)) (early.foldl join ((ofCalls calls).beginSource s)) j

/-- Attached to the query, the join compares a column of a table on its left with the
column of that name of a table on its right. -/
def ComparesSides (q : Query) (j : Join) (name : String) : Prop :=
  ∃ left l r, q.source? = some left ∧ l ∈ left.tables ∧ r ∈ j.right.tables ∧
    (q.join j).source? = some (.joined left j.right
      (.equals (.column (l.column name)) (.column (r.column name))) j.outer)

/-- The first table of the source set first is one of the source set last, or of one that
was joined since. -/
def KeepsRoot (calls : List Call) : Prop :=
  ∃ before s after, calls = before ++ .clause (.source s) :: after ∧
    (∀ call ∈ after, call.source? = none) ∧
    let root := ((before.filterMap Call.source?).head?.getD s).first
    root ∈ s.tables ∨ ∃ j ∈ after.filterMap Call.join?, root ∈ j.right.tables

theorem source_join {q : Query} {left : Source} {root : Table} (hs : q.source? = some left)
    (hr : q.root = some root) (j : Join) :
    (q.join j).source? = some (j.attach left root) := by
  rw [join, hs, hr]
  rfl

/-- A shared name is one of the root and of the last table on the right, so it is one of
both sides exactly if the root is on the left. -/
theorem comparesSides_iff {q : Query} {left : Source} {root : Table} {j : Join} {name : String}
    (hs : q.source? = some left) (hr : q.root = some root) (hj : j.condition = .shared name) :
    ComparesSides q j name ↔ root ∈ left.tables := by
  have hjoin := source_join hs hr j
  rw [Join.attach, hj, JoinCondition.resolve] at hjoin
  constructor
  · rintro ⟨tree, l, r, htree, hl, -, hmade⟩
    rw [hjoin] at hmade
    rw [hs] at htree
    cases htree
    cases hmade
    exact hl
  · exact fun h => ⟨left, root, j.right.last, hs, h, j.right.last_mem_tables, hjoin⟩

/-! ## The root and the source -/

theorem root_ofCalls (calls : List Call) :
    (ofCalls calls).root = (calls.filterMap Call.source?).head?.map Source.first :=
  root_applyAll empty calls

theorem sources_ne_nil_of_source {calls : List Call} (h : (ofCalls calls).source?.isSome) :
    calls.filterMap Call.source? ≠ [] := fun hnone => by
  have hcalls := List.filterMap_eq_nil_iff.mp hnone
  have hsource := (applyAll_without_source (q := empty) rfl hcalls).1
  rw [ofCalls, hsource] at h
  cases h

/-- Joins wait only while no source has been set. -/
theorem root_eq_none_of_waiting {calls : List Call} (h : (ofCalls calls).waiting ≠ []) :
    (ofCalls calls).root = none := by
  have hnone : calls.filterMap Call.source? = [] := by
    by_contra hne
    exact h (waiting_ofCalls hne)
  rw [root_ofCalls, hnone]
  rfl

/-- After the last call that sets a source. -/
theorem root_mem_tables_ofCalls (before : List Call) {after : List Call} (s : Source)
    (hafter : ∀ call ∈ after, call.source? = none) :
    let root := ((before.filterMap Call.source?).head?.getD s).first
    ∃ tree, (ofCalls (before ++ .clause (.source s) :: after)).source? = some tree ∧
      (ofCalls (before ++ .clause (.source s) :: after)).root = some root ∧
      (root ∈ tree.tables ↔
        root ∈ s.tables ∨ ∃ j ∈ after.filterMap Call.join?, root ∈ j.right.tables) := by
  intro root
  have hset : (Call.clause (.source s)).source? = some s := rfl
  have hroot : (ofCalls (before ++ .clause (.source s) :: after)).root = some root := by
    rw [root_ofCalls, List.filterMap_append, List.filterMap_cons_some hset, List.head?_append]
    cases hfirst : (before.filterMap Call.source?).head? with
    | none => simp [root, hfirst]
    | some first => simp [root, hfirst]
  refine ⟨_, (source_ofCalls s hafter).1, hroot, ?_⟩
  rw [Source.mem_tables_foldl_attach]
  by_cases hearlier : before.filterMap Call.source? = []
  · have hfirst : root ∈ s.tables := by
      simp only [root, hearlier]
      exact s.first_mem_tables
    exact iff_of_true (.inl hfirst) (.inl hfirst)
  · rw [if_neg (by simpa using hearlier), List.nil_append]

/-- Whether the root is a table of the source shows in the calls. -/
theorem root_mem_tables_iff {calls : List Call} {tree : Source} {root : Table}
    (hs : (ofCalls calls).source? = some tree) (hr : (ofCalls calls).root = some root) :
    root ∈ tree.tables ↔ KeepsRoot calls := by
  constructor
  · intro h
    have hsources := sources_ne_nil_of_source (by rw [hs]; rfl)
    obtain ⟨before, s, after, rfl, hafter⟩ := exists_last_source hsources
    obtain ⟨tree', hs', hr', hiff⟩ := root_mem_tables_ofCalls before s hafter
    cases hs.symm.trans hs'
    cases hr.symm.trans hr'
    exact ⟨before, s, after, rfl, hafter, hiff.mp h⟩
  · rintro ⟨before, s, after, rfl, hafter, hkept⟩
    obtain ⟨tree', hs', hr', hiff⟩ := root_mem_tables_ofCalls before s hafter
    cases hs.symm.trans hs'
    cases hr.symm.trans hr'
    exact hiff.mpr hkept

/-- A join is attached to a query with a source and a root.  A join that waited finds the
root there. -/
theorem Attaches.exists_root {calls : List Call} {call : Call} {q : Query} {j : Join}
    (h : Attaches calls call q j) :
    ∃ left root, q.source? = some left ∧ q.root = some root ∧
      ((calls ++ [call]).filterMap Call.source?).head?.map Source.first = some root ∧
      (root ∈ left.tables ↔ call.source?.isSome ∨ KeepsRoot calls) := by
  cases h with
  | called hj hs =>
    have hother : call.source? = none := by
      cases hset : call.source? with
      | none => rfl
      | some s =>
        rw [Call.eq_of_source? hset] at hj
        cases hj
    obtain ⟨left, hleft⟩ := Option.isSome_iff_exists.mp hs
    obtain ⟨first, rest, hsources⟩ := List.exists_cons_of_ne_nil (sources_ne_nil_of_source hs)
    have hroot : (ofCalls calls).root = some first.first := by
      rw [root_ofCalls, hsources]
      rfl
    refine ⟨left, first.first, hleft, hroot, ?_, ?_⟩
    · rw [List.filterMap_append, hsources]
      rfl
    · rw [root_mem_tables_iff hleft hroot, hother]
      simp
  | @waited early late j s hw =>
    have hne : (ofCalls calls).waiting ≠ [] := by
      rw [hw]
      simp
    have hnone := root_eq_none_of_waiting hne
    have hbegin : ((ofCalls calls).beginSource s).root = some s.first := by
      rw [beginSource, rootWith, hnone]
      rfl
    rw [foldl_join early _ s s.first rfl hbegin]
    refine ⟨_, s.first, rfl, hbegin, ?_, ?_⟩
    · have hsources : calls.filterMap Call.source? = [] := by
        rw [root_ofCalls, Option.map_eq_none_iff, List.head?_eq_none_iff] at hnone
        exact hnone
      rw [List.filterMap_append, hsources]
      rfl
    · rw [Source.mem_tables_foldl_attach]
      exact iff_of_true (.inl s.first_mem_tables) (.inl rfl)

/-- If every source that is set has the first table of the first one, the root is kept. -/
theorem keepsRoot_of_sources {calls : List Call} {s : Source} {rest : List Source}
    (h : calls.filterMap Call.source? = s :: rest) (hrest : ∀ t ∈ rest, s.first ∈ t.tables) :
    KeepsRoot calls := by
  obtain ⟨before, last, after, rfl, hafter⟩ :=
    exists_last_source (h.trans_ne (List.cons_ne_nil s rest))
  have hset : (Call.clause (.source last)).source? = some last := rfl
  rw [List.filterMap_append, List.filterMap_cons_some hset,
    List.filterMap_eq_nil_iff.mpr hafter] at h
  refine ⟨before, last, after, rfl, hafter, .inl ?_⟩
  cases hbefore : before.filterMap Call.source? with
  | nil => exact last.first_mem_tables
  | cons first others =>
    rw [hbefore, List.cons_append] at h
    obtain ⟨rfl, rfl⟩ := List.cons.inj h
    exact hrest last (List.mem_append_right _ (List.mem_singleton_self last))

/-- A join under a shared name compares the column of the root with that of the last table
on its right, and this is a column of both sides exactly if the join waited for its source
or the calls before it keep the root.  They keep it exactly if it is a table of the source
that they make, and always if each source that they set has the first table of the first
one. -/
theorem shared_column_of_sides_iff :
    (∀ (calls : List Call) (call : Call) (q : Query) (j : Join) (name : String),
      Attaches calls call q j → j.condition = .shared name →
      (∃ left root, q.source? = some left ∧
        ((calls ++ [call]).filterMap Call.source?).head?.map Source.first = some root ∧
        (q.join j).source? = some (.joined left j.right (.equals (.column (root.column name))
          (.column (j.right.last.column name))) j.outer) ∧
        j.right.last ∈ j.right.tables) ∧
      (ComparesSides q j name ↔ call.source?.isSome ∨ KeepsRoot calls)) ∧
    (∀ (calls : List Call) (tree : Source), (ofCalls calls).source? = some tree →
      ∃ root, (ofCalls calls).root = some root ∧ (root ∈ tree.tables ↔ KeepsRoot calls)) ∧
    ∀ (calls : List Call) (s : Source) (rest : List Source),
      calls.filterMap Call.source? = s :: rest → (∀ t ∈ rest, s.first ∈ t.tables) →
      KeepsRoot calls := by
  refine ⟨fun calls call q j name h hj => ?_, fun calls tree hs => ?_,
    fun calls s rest => keepsRoot_of_sources⟩
  · obtain ⟨left, root, hs, hr, hfirst, hiff⟩ := h.exists_root
    have hjoin := source_join hs hr j
    rw [Join.attach, hj, JoinCondition.resolve] at hjoin
    exact ⟨⟨left, root, hs, hfirst, hjoin, j.right.last_mem_tables⟩,
      (comparesSides_iff hs hr hj).trans hiff⟩
  · have hsources := sources_ne_nil_of_source (by rw [hs]; rfl)
    obtain ⟨first, rest, hfirst⟩ := List.exists_cons_of_ne_nil hsources
    have hr : (ofCalls calls).root = some first.first := by
      rw [root_ofCalls, hfirst]
      rfl
    exact ⟨first.first, hr, root_mem_tables_iff hs hr⟩

/-- Calls that set one source, then another one, and join a third to it. -/
def replaced (a b : Table) (back : List Join) : List Call :=
  .clause (.source (.table a)) :: .clause (.source (.table b)) ::
    back.map fun j => .clause (.join j)

/-- A source that is replaced, with the first one joined to the new one. -/
theorem shared_column_of_root_joined_back :
    let a : Table := ⟨"a", none, none⟩
    let b : Table := ⟨"b", none, none⟩
    let j := (Source.table ⟨"c", none, none⟩).on (.shared "id")
    let calls := replaced a b [(Source.table a).on (.predicate (.constant true))]
    Attaches calls (.outerJoin j) (ofCalls calls) j.asOuter ∧
      ComparesSides (ofCalls calls) j.asOuter "id" := by
  intro a b j calls
  have hattaches : Attaches calls (.outerJoin j) (ofCalls calls) j.asOuter := .called rfl rfl
  have hkeeps : KeepsRoot calls :=
    ⟨[.clause (.source (.table a))], .table b, _, rfl, fun call hcall => by
      rw [List.mem_singleton.mp hcall]
      rfl, .inr ⟨_, List.mem_singleton_self _, List.mem_singleton_self a⟩⟩
  exact ⟨hattaches,
    (shared_column_of_sides_iff.1 calls _ _ _ "id" hattaches rfl).2.mpr (.inr hkeeps)⟩

/-- Once another source is set, a shared column can be one of a table that is gone. -/
theorem shared_column_of_replaced_root :
    let a : Table := ⟨"a", none, none⟩
    let b : Table := ⟨"b", none, none⟩
    let j := (Source.table ⟨"c", none, none⟩).on (.shared "id")
    let calls := replaced a b []
    Attaches calls (.clause (.join j)) (ofCalls calls) j ∧
      ¬ ComparesSides (ofCalls calls) j "id" ∧
      (ofCalls calls).source? = some (.table b) ∧ (ofCalls calls).root = some a ∧
      a ∉ (Source.table b).tables := by
  intro a b j calls
  have habsent : a ∉ (Source.table b).tables := by
    rw [Source.tables, List.mem_singleton]
    decide
  have hs : (ofCalls calls).source? = some (.table b) := rfl
  have hr : (ofCalls calls).root = some a := rfl
  exact ⟨.called rfl rfl, fun h => habsent ((comparesSides_iff hs hr rfl).mp h), hs, hr, habsent⟩

end Query
end BoundSql
