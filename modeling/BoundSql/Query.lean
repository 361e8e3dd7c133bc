import BoundSql.Expr.Combinators
import BoundSql.Expr.Fragment

/-
Queries under construction.

A query collects the clauses of a select in any order.  Joins that come before
there is a source wait for it.  The root, to whose columns shared names refer, is
the first table of the source that was set first; setting another source does not
change it.

The condition of a join may be the name of a column that both sides share.  It
becomes a comparison only when the join is attached, since only then is the table
on the left known.
-/

namespace BoundSql

/-! ## Joins without a left side -/

inductive JoinCondition where
  /-- The column of this name is equal on both sides. -/
  | shared (name : String)
  | predicate (e : Expr)

/-- The predicate between a table on the left and one on the right. -/
def JoinCondition.resolve (left right : Table) : JoinCondition → Expr
  | shared name => (Expr.column (left.column name)).equals (.column (right.column name))
  | predicate e => e

structure Join where
  right : Source
  condition : JoinCondition
  outer : Bool := false

namespace Join

/-- The same join with the rows of the left side kept. -/
def asOuter (j : Join) : Join :=
  { j with outer := true }

/-- The join with `left` on its left.  A shared column is one of `root` there,
and one of the last table on the right. -/
def attach (j : Join) (left : Source) (root : Table) : Source :=
  .joined left j.right (j.condition.resolve root j.right.last) j.outer

end Join

namespace Source

/-- A join to this source, under a condition. -/
def on (s : Source) (condition : JoinCondition) : Join :=
  { right := s, condition }

/-- Attach a join to this source.  A shared column is one of its last table. -/
def join (s : Source) (j : Join) : Source :=
  j.attach s s.last

def outerJoin (s : Source) (j : Join) : Source :=
  s.join j.asOuter

theorem first_join (s : Source) (j : Join) : (s.join j).first = s.first := rfl

end Source

/-! ## Queries -/

structure Query where
  select : Select := .empty
  root : Option Table := none
  /-- Joins for which there is no source yet. -/
  waiting : List Join := []

namespace Query

def empty : Query := {}

def source? (q : Query) : Option Source :=
  q.select.source

/-- The same query with another source, and nothing else changed. -/
def withSource (q : Query) (s : Source) : Query :=
  { q with select := { q.select with source := some s } }

/-- Select more columns. -/
def addColumns (q : Query) (columns : List Expr) : Query :=
  { q with select := { q.select with columns := q.select.columns ++ columns } }

/-- Attach a join to the source, or keep it until there is one. -/
def join (q : Query) (j : Join) : Query :=
  match q.source?, q.root with
  | some left, some root => q.withSource (j.attach left root)
  | _, _ => { q with waiting := q.waiting ++ [j] }

def outerJoin (q : Query) (j : Join) : Query :=
  q.join j.asOuter

/-- The table that shared names refer to once the source is `s`. -/
def rootWith (q : Query) (s : Source) : Table :=
  q.root.getD s.first

/-- Set the source, and attach to it the joins that have been waiting. -/
def setSource (q : Query) (s : Source) : Query :=
  q.waiting.foldl join { q.withSource s with root := some (q.rootWith s), waiting := [] }

/-- More predicates that have to hold. -/
def addFilters (q : Query) (filters : List Expr) : Query :=
  { q with select := { q.select with filters := q.select.filters ++ filters } }

def groupBy (q : Query) (keys : List Expr) : Query :=
  { q with select := { q.select with groupBy := q.select.groupBy ++ keys } }

def orderBy (q : Query) (keys : List Expr) : Query :=
  { q with select := { q.select with orderBy := q.select.orderBy ++ keys } }

/-- Set the greatest number of rows.  Zero takes the limit away. -/
def setLimit (q : Query) (limit : UInt64) : Query :=
  { q with select := { q.select with limit } }

/-- Add the rows of another query. -/
def union (q branch : Query) : Query :=
  { q with select := { q.select with unions := q.select.unions ++ [branch.select] } }

def fragment (q : Query) : Fragment :=
  q.select.fragment

end Query

/-! ## The source under construction -/

namespace Query

/-- Once there is a source, every join is attached, the first one innermost. -/
theorem foldl_join (joins : List Join) (q : Query) (left : Source) (root : Table)
    (hs : q.source? = some left) (hr : q.root = some root) :
    joins.foldl join q = q.withSource (joins.foldl (fun s j => j.attach s root) left) := by
  induction joins generalizing q left with
  | nil =>
    obtain ⟨⟨columns, source, filters, unions, groupBy, orderBy, limit⟩, root, waiting⟩ := q
    subst hs
    rfl
  | cons j rest ih =>
    have hj : q.join j = q.withSource (j.attach left root) := by
      rw [join, hs, hr]
    have hrest := ih (q.withSource (j.attach left root)) (j.attach left root) rfl hr
    rw [List.foldl_cons, List.foldl_cons, hj, hrest]
    rfl

theorem setSource_eq (q : Query) (s : Source) :
    q.setSource s =
      { q.withSource (q.waiting.foldl (fun t j => j.attach t (q.rootWith s)) s) with
        root := some (q.rootWith s), waiting := [] } := by
  rw [setSource, foldl_join q.waiting _ s (q.rootWith s) rfl rfl]
  rfl

theorem waiting_setSource (q : Query) (s : Source) : (q.setSource s).waiting = [] := by
  rw [setSource_eq]

theorem root_setSource (q : Query) (s : Source) :
    (q.setSource s).root = some (q.rootWith s) := by
  rw [setSource_eq]

end Query

/-! ## Clauses as data -/

/-- One step in the construction of a query. -/
inductive Clause where
  | columns (es : List Expr)
  | source (s : Source)
  | join (j : Join)
  | filters (es : List Expr)
  | groupBy (es : List Expr)
  | orderBy (es : List Expr)
  | limit (n : UInt64)
  | union (branch : Query)

namespace Query

def add (q : Query) : Clause → Query
  | .columns es => q.addColumns es
  | .source s => q.setSource s
  | .join j => q.join j
  | .filters es => q.addFilters es
  | .groupBy es => q.groupBy es
  | .orderBy es => q.orderBy es
  | .limit n => q.setLimit n
  | .union branch => q.union branch

/-- Add clauses in their order. -/
def addAll (q : Query) (clauses : List Clause) : Query :=
  clauses.foldl add q

def ofClauses (clauses : List Clause) : Query :=
  empty.addAll clauses

end Query
end BoundSql
