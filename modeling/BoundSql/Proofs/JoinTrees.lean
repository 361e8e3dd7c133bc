import BoundSql.Proofs.SharedColumns

/-
Sources put together by joins.

A join keeps the tables of both of its sides in their order, so the first table of a
source is the first one on its left and the last table the last one on its right.  A
column that the two sides share is one of the last table on either side, at every depth.
A query resolves shared columns against its root instead, and this is the only difference
between joining to a query and joining to its source: under predicates that are given in
full both make the same query.  The main statement is `Source.joins_keep_tables`.
-/

namespace BoundSql

/-- A call that attaches a join, to a query or to a source. -/
inductive JoinCall where
  | inner (j : Join)
  /-- A call that keeps the rows of the left side, whether or not the join does. -/
  | outer (j : Join)

namespace JoinCall

/-- The join that is attached. -/
def attached : JoinCall → Join
  | inner j => j
  | outer j => j.asOuter

/-- The call on a query. -/
def onQuery : JoinCall → Call
  | inner j => .clause (.join j)
  | outer j => .outerJoin j

/-- The call on a source. -/
def onSource (s : Source) : JoinCall → Source
  | inner j => s.join j
  | outer j => s.outerJoin j

/-- The condition is a predicate that does not depend on the sides. -/
def IsExplicit (call : JoinCall) : Prop :=
  ∃ e, call.attached.condition = .predicate e

theorem onSource_eq (s : Source) (call : JoinCall) : call.onSource s = s.join call.attached := by
  cases call <;> rfl

theorem apply_onQuery (q : Query) (call : JoinCall) :
    call.onQuery.apply q = q.join call.attached := by
  cases call <;> rfl

end JoinCall

/-! ## How a source is put together -/

/-- What a condition has to become between sides with these tables. -/
def JoinCondition.Connects (left right : List Table) : JoinCondition → Expr → Prop
  | shared name, e => ∃ l r, left.getLast? = some l ∧ right.getLast? = some r ∧
      e = .equals (.column (l.column name)) (.column (r.column name))
  | predicate p, e => e = p

namespace Source

/-- The steps in which a source is put together. -/
inductive Plan where
  | table (t : Table)
  /-- The join may be marked as outer before it is attached, and the call may mark it. -/
  | join (left right : Plan) (condition : JoinCondition) (marked outer : Bool)

namespace Plan

def joinTo (right : Source) (condition : JoinCondition) (marked : Bool) : Join :=
  if marked then (right.on condition).asOuter else right.on condition

def source : Plan → Source
  | table t => .table t
  | join left right condition marked outer =>
    let j := joinTo right.source condition marked
    (if outer then JoinCall.outer j else JoinCall.inner j).onSource left.source

/-- The tables that the steps name, from left to right. -/
def tables : Plan → List Table
  | table t => [t]
  | join left right _ _ _ => left.tables ++ right.tables

/-- The tree that should come out.  It has the shape of the plan, and what becomes of a
condition depends only on the tables that the plan names on either side. -/
inductive Yields : Plan → Source → Prop
  | table (t : Table) : Yields (table t) (.table t)
  | join {left right : Plan} {condition : JoinCondition} {marked outer : Bool} {l r : Source}
      {e : Expr} (hl : Yields left l) (hr : Yields right r)
      (he : condition.Connects left.tables right.tables e) :
      Yields (join left right condition marked outer) (.joined l r e (marked || outer))

theorem source_join (left right : Plan) (condition : JoinCondition) (marked outer : Bool) :
    (join left right condition marked outer).source =
      .joined left.source right.source (condition.resolve left.source.last right.source.last)
        (marked || outer) := by
  cases marked <;> cases outer <;> rfl

end Plan

/-! ## Tables and ends -/

theorem tables_join (s : Source) (j : Join) : (s.join j).tables = s.tables ++ j.right.tables := rfl

theorem head?_tables (s : Source) : s.tables.head? = some s.first := by
  match s with
  | table t => rfl
  | joined left _ _ _ =>
    rw [tables, List.head?_append, left.head?_tables, Option.some_or, first]

theorem getLast?_tables (s : Source) : s.tables.getLast? = some s.last := by
  match s with
  | table t => rfl
  | joined _ right _ _ =>
    rw [tables, List.getLast?_append, right.getLast?_tables, Option.some_or, last]

/-- A shared column is one of the last table on either side. -/
theorem connects_iff (l r : Source) (condition : JoinCondition) (e : Expr) :
    condition.Connects l.tables r.tables e ↔ e = condition.resolve l.last r.last := by
  cases condition with
  | predicate p => exact Iff.rfl
  | shared name =>
    simp only [JoinCondition.Connects, getLast?_tables, Option.some.injEq, exists_and_left,
      exists_eq_left', JoinCondition.resolve]

namespace Plan

theorem tables_source (plan : Plan) : plan.source.tables = plan.tables := by
  induction plan with
  | table t => rfl
  | join left right condition marked outer ihl ihr =>
    rw [source_join, Source.tables, ihl, ihr, tables]

theorem yields_source (plan : Plan) : plan.Yields plan.source := by
  induction plan with
  | table t => exact .table t
  | join left right condition marked outer ihl ihr =>
    rw [source_join]
    refine .join ihl ihr ?_
    rw [← tables_source left, ← tables_source right]
    exact (connects_iff _ _ condition _).mpr rfl

theorem Yields.source_eq {plan : Plan} {s : Source} (h : plan.Yields s) : plan.source = s := by
  induction h with
  | table t => rfl
  | @join left right condition marked outer l r e hl hr he ihl ihr =>
    rw [← tables_source left, ← tables_source right, connects_iff] at he
    rw [source_join, he, ihl, ihr]

theorem source_eq_iff (plan : Plan) (s : Source) : plan.source = s ↔ plan.Yields s :=
  ⟨fun h => h ▸ plan.yields_source, Yields.source_eq⟩

/-- Every source can be put together. -/
theorem exists_source_eq (s : Source) : ∃ plan : Plan, plan.source = s := by
  match s with
  | .table t => exact ⟨table t, rfl⟩
  | .joined left right e outer =>
    obtain ⟨l, hl⟩ := exists_source_eq left
    obtain ⟨r, hr⟩ := exists_source_eq right
    refine ⟨join l r (.predicate e) outer false, ?_⟩
    rw [source_join, hl, hr, Bool.or_false]
    rfl

end Plan

/-! ## Joining to a query -/

/-- Under an explicit predicate it does not matter which table is the root. -/
theorem attach_of_explicit {j : Join} {e : Expr} (h : j.condition = .predicate e) (s : Source)
    (root : Table) : j.attach s root = s.join j := by
  rw [join, Join.attach, Join.attach, h]
  rfl

theorem foldl_attach_of_explicit {calls : List JoinCall} (h : ∀ call ∈ calls, call.IsExplicit)
    (s : Source) (root : Table) :
    (calls.map JoinCall.attached).foldl (fun left j => j.attach left root) s =
      calls.foldl JoinCall.onSource s := by
  induction calls generalizing s with
  | nil => rfl
  | cons call rest ih =>
    obtain ⟨e, he⟩ := h call List.mem_cons_self
    rw [List.map_cons, List.foldl_cons, List.foldl_cons, attach_of_explicit he,
      ← JoinCall.onSource_eq, ih fun c hc => h c (List.mem_cons_of_mem call hc)]

theorem first_foldl_onSource (calls : List JoinCall) (s : Source) :
    (calls.foldl JoinCall.onSource s).first = s.first := by
  induction calls generalizing s with
  | nil => rfl
  | cons call rest ih => rw [List.foldl_cons, ih, JoinCall.onSource_eq, first_join]

end Source

namespace Query

theorem applyAll_onQuery (q : Query) (calls : List JoinCall) :
    q.applyAll (calls.map JoinCall.onQuery) = (calls.map JoinCall.attached).foldl join q := by
  rw [applyAll, List.foldl_map, List.foldl_map]
  simp only [JoinCall.apply_onQuery]

/-- Joins under explicit predicates can be made before or after the source is set. -/
theorem applyAll_setSource_of_explicit {q : Query} (hq : q.waiting = []) (s : Source)
    {calls : List JoinCall} (h : ∀ call ∈ calls, call.IsExplicit) :
    (q.setSource s).applyAll (calls.map JoinCall.onQuery) =
      q.setSource (calls.foldl JoinCall.onSource s) := by
  have hroot : q.rootWith (calls.foldl JoinCall.onSource s) = q.rootWith s := by
    rw [rootWith, rootWith, Source.first_foldl_onSource]
  have hset (t : Source) : q.setSource t =
      { q.withSource t with root := some (q.rootWith t), waiting := [] } := by
    rw [setSource_eq, hq]
    rfl
  have hsource : (q.setSource s).source? = some s := by
    rw [hset]
    rfl
  rw [applyAll_onQuery, foldl_join _ _ s (q.rootWith s) hsource (q.root_setSource s),
    Source.foldl_attach_of_explicit h, hset, hset, hroot]
  rfl

end Query

/-- A join adds the tables of its right side after those of its left side, and a source
begins with its first table and ends with its last one.  Every source comes from a plan, and
from a plan comes the tree of its shape over the tables that it names, in which a shared
column is one of the last tables on either side of its join.  Under explicit predicates,
joins made to a query after its source is set build what they build if they are made to the
source. -/
theorem Source.joins_keep_tables :
    (∀ (s : Source) (j : Join), (s.join j).tables = s.tables ++ j.right.tables ∧
      (s.outerJoin j).tables = s.tables ++ j.right.tables) ∧
    (∀ s : Source, s.tables.head? = some s.first ∧ s.tables.getLast? = some s.last) ∧
    (∀ s : Source, ∃ plan : Plan, plan.source = s) ∧
    (∀ plan : Plan, plan.source.tables = plan.tables ∧
      ∀ s, plan.source = s ↔ plan.Yields s) ∧
    ∀ (s : Source) (calls : List JoinCall), (∀ call ∈ calls, call.IsExplicit) →
      ∀ params : Parameters,
        (Query.ofCalls (.clause (.source s) :: calls.map JoinCall.onQuery)).fragment.render params =
          (Query.ofCalls [.clause (.source (calls.foldl JoinCall.onSource s))]).fragment.render
            params := by
  refine ⟨fun s j => ⟨s.tables_join j, s.tables_join j.asOuter⟩,
    fun s => ⟨s.head?_tables, s.getLast?_tables⟩, Plan.exists_source_eq,
    fun plan => ⟨plan.tables_source, plan.source_eq_iff⟩, fun s calls h params => ?_⟩
  have hquery : Query.ofCalls (.clause (.source s) :: calls.map JoinCall.onQuery) =
      Query.ofCalls [.clause (.source (calls.foldl JoinCall.onSource s))] :=
    Query.applyAll_setSource_of_explicit rfl s h
  rw [hquery]

/-- A join tree joined to a table, in a call that keeps the rows of the table. -/
theorem Source.joins_keep_tables_of_tree :
    let a : Table := ⟨"a", some "x", none⟩
    let tree := (table ⟨"b", none, none⟩).join ((table ⟨"c", none, none⟩).on (.shared "id"))
    let calls := [JoinCall.outer (tree.on (.predicate
      (.equals (.column (a.column "id")) (.literal (.int 5)))))]
    (∀ call ∈ calls, call.IsExplicit) ∧
      (Query.ofCalls
        (.clause (.source (table a)) :: calls.map JoinCall.onQuery)).fragment.render .empty =
      (Query.ofCalls
        [.clause (.source (calls.foldl JoinCall.onSource (table a)))]).fragment.render .empty := by
  intro a tree calls
  have hexplicit : ∀ call ∈ calls, call.IsExplicit := fun call hcall => by
    rw [List.mem_singleton.mp hcall]
    exact ⟨_, rfl⟩
  exact ⟨hexplicit, joins_keep_tables.2.2.2.2 (table a) calls hexplicit .empty⟩

end BoundSql
