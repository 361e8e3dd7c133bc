import BoundSql.Proofs.Symbol
import BoundSql.Statement

/-
The names and values of a statement, in the order in which they are written.

The order is that of the clauses: the columns of a select come before its source,
the source before the filters, and then follow the unions, the grouping and the
ordering.  What an expression contributes it contributes once for each place
where it stands.  The main statement is `Statement.leaves_fragment`: writing
visits the leaves in just this order.
-/

namespace BoundSql

inductive Leaf where
  | name (n : String)
  | literal (v : Value)
  /-- A select with nothing to select from, at which writing stops. -/
  | gap

namespace Leaf

def name? : Leaf → Option String
  | name n => some n
  | _ => none

def literal? : Leaf → Option Value
  | literal v => some v
  | _ => none

end Leaf

/-! ## Leaves by structure -/

/-- The leaves of a table as a source of rows. -/
def Table.leaves (t : Table) : List Leaf :=
  .name t.name :: t.aliasName.toList.map .name

mutual

def Expr.leaves : Expr → List Leaf
  | .literal v => [.literal v]
  | .constant _ => []
  | .column c => [.name c.table.qualifier, .name c.name]
  | .all t => [.name t.qualifier]
  | .aliased e name => e.leaves ++ [.name name]
  | .binary _ left right => left.leaves ++ right.leaves
  | .negation e => e.leaves
  | .isNull e => e.leaves
  | .descending e => e.leaves
  | .member e items => e.leaves ++ Expr.listLeaves items
  | .memberOf e rows => e.leaves ++ rows.leaves
  | .subquery rows => rows.leaves
  | .exists rows => rows.leaves
  | .call _ args => Expr.listLeaves args
  | .countAll => []
  | .cast e _ => e.leaves
  | .case branches none => Expr.branchLeaves branches
  | .case branches (some e) => Expr.branchLeaves branches ++ e.leaves
  termination_by structural e => e

def Expr.listLeaves : List Expr → List Leaf
  | [] => []
  | e :: rest => e.leaves ++ Expr.listLeaves rest
  termination_by structural es => es

/-- Each condition comes right before its value. -/
def Expr.branchLeaves : List (Expr × Expr) → List Leaf
  | [] => []
  | (condition, value) :: rest => condition.leaves ++ value.leaves ++ Expr.branchLeaves rest
  termination_by structural branches => branches

def Source.leaves : Source → List Leaf
  | .table t => t.leaves
  | .joined left right condition _ => left.leaves ++ right.leaves ++ condition.leaves
  termination_by structural source => source

def Select.leaves : Select → List Leaf
  | ⟨_, none, _, _, _, _, _⟩ => [.gap]
  | ⟨columns, some source, filters, unions, groupBy, orderBy, _⟩ =>
    Expr.listLeaves columns ++ source.leaves ++ Expr.listLeaves filters ++
      Select.unionLeaves unions ++ Expr.listLeaves groupBy ++ Expr.listLeaves orderBy
  termination_by structural select => select

def Select.unionLeaves : List Select → List Leaf
  | [] => []
  | branch :: rest => branch.leaves ++ Select.unionLeaves rest
  termination_by structural branches => branches

end

/-- The columns are named before the values are given. -/
def Insert.leaves (i : Insert) : List Leaf :=
  .name i.table.name :: i.assignments.map (fun a => .name a.column.name) ++
    i.assignments.flatMap fun a => a.value.leaves

def Update.leaves (u : Update) : List Leaf :=
  .name u.table.qualifier ::
    u.assignments.flatMap (fun a => .name a.column.name :: a.value.leaves) ++
    (if u.table.aliasName.isSome then u.table.leaves else []) ++ Expr.listLeaves u.filters

def Delete.leaves (d : Delete) : List Leaf :=
  .name d.table.qualifier ::
    (if d.table.aliasName.isSome then d.table.leaves else []) ++ Expr.listLeaves d.filters

namespace Statement

def leaves : Statement → List Leaf
  | select q => q.select.leaves
  | insert i => i.leaves
  | update u => u.leaves
  | delete d => d.leaves

/-- The names of a statement, in the order in which they are written. -/
def names (s : Statement) : List String :=
  s.leaves.filterMap Leaf.name?

/-- The values of a statement, in the order in which they are bound. -/
def literals (s : Statement) : List Value :=
  s.leaves.filterMap Leaf.literal?

end Statement

/-! ## Leaves of what is written -/

def Piece.leaf? : Piece → Option Leaf
  | .text _ => none
  | .name n => some (.name n)
  | .bind v => some (.literal v)
  | .fault _ => some .gap

namespace Fragment

def leaves (f : Fragment) : List Leaf :=
  f.filterMap Piece.leaf?

@[simp] theorem leaves_nil : leaves [] = [] := rfl

@[simp] theorem leaves_append (f g : Fragment) : leaves (f ++ g) = f.leaves ++ g.leaves :=
  List.filterMap_append

@[simp] theorem leaves_text (s : String) (f : Fragment) : leaves (.text s :: f) = f.leaves := rfl

@[simp] theorem leaves_name (n : String) (f : Fragment) :
    leaves (.name n :: f) = .name n :: f.leaves := rfl

theorem leaves_separated (sep : String) (fs : List Fragment) :
    leaves (separated sep fs) = fs.flatMap leaves := by
  induction fs with
  | nil => rfl
  | cons f rest ih =>
    cases rest with
    | nil => simp [separated]
    | cons g rest =>
      rw [separated_cons_cons, leaves_append, leaves_text, ih]
      rfl

theorem leaves_clause (lead sep : String) (fs : List Fragment) :
    leaves (clause lead sep fs) = fs.flatMap leaves := by
  cases fs with
  | nil => rfl
  | cons f rest => exact leaves_separated sep (f :: rest)

theorem bound_eq_literals {f : Fragment} (hf : f.fault? = none) :
    f.bound = f.leaves.filterMap Leaf.literal? := by
  induction f with
  | nil => rfl
  | cons piece rest ih =>
    cases piece with
    | text s => exact ih hf
    | name n => exact ih hf
    | bind v => exact congrArg (v :: ·) (ih hf)
    | fault f => simp [fault?] at hf

/-- Where writing does not stop there is no gap. -/
theorem gap_not_mem {f : Fragment} (h : f.fault? = none) : Leaf.gap ∉ f.leaves := by
  induction f with
  | nil => exact List.not_mem_nil
  | cons piece rest ih =>
    cases piece with
    | text s => exact ih h
    | name n => exact List.not_mem_cons_of_ne_of_not_mem (fun heq => by cases heq) (ih h)
    | bind v => exact List.not_mem_cons_of_ne_of_not_mem (fun heq => by cases heq) (ih h)
    | fault f => cases h

end Fragment

theorem Table.leaves_fragment (t : Table) : t.fragment.leaves = t.leaves := by
  unfold Table.fragment Table.leaves
  cases t.aliasName <;> rfl

theorem Select.leaves_limitFragment (limit : UInt64) :
    (Select.limitFragment limit).leaves = [] := by
  unfold Select.limitFragment
  split <;> rfl

theorem Select.leaves_columnFragment (fs : List Fragment) :
    (Select.columnFragment fs).leaves = fs.flatMap Fragment.leaves := by
  cases fs with
  | nil => rfl
  | cons f rest => exact Fragment.leaves_separated ", " (f :: rest)

mutual

theorem Expr.leaves_fragment (e : Expr) : e.fragment.leaves = e.leaves := by
  cases e with
  | literal v => rfl
  | constant b => rfl
  | column c => rfl
  | all t => rfl
  | aliased e name => simp [Expr.fragment, Expr.leaves, e.leaves_fragment]
  | binary op left right =>
    simp [Expr.fragment, Expr.leaves, left.leaves_fragment, right.leaves_fragment]
  | negation e => simp [Expr.fragment, Expr.leaves, e.leaves_fragment]
  | isNull e => simp [Expr.fragment, Expr.leaves, e.leaves_fragment]
  | descending e => simp [Expr.fragment, Expr.leaves, e.leaves_fragment]
  | member e items =>
    simp [Expr.fragment, Expr.leaves, e.leaves_fragment, Fragment.leaves_separated,
      Expr.leaves_fragments items]
  | memberOf e rows =>
    simp [Expr.fragment, Expr.leaves, e.leaves_fragment, rows.leaves_fragment]
  | subquery rows => simp [Expr.fragment, Expr.leaves, rows.leaves_fragment]
  | «exists» rows => simp [Expr.fragment, Expr.leaves, rows.leaves_fragment]
  | call function args =>
    simp [Expr.fragment, Expr.leaves, Fragment.leaves_separated, Expr.leaves_fragments args]
  | countAll => rfl
  | cast e type => simp [Expr.fragment, Expr.leaves, e.leaves_fragment]
  | case branches otherwise =>
    cases otherwise with
    | none => simp [Expr.fragment, Expr.leaves, Expr.leaves_branchFragment branches]
    | some e =>
      simp [Expr.fragment, Expr.leaves, Expr.leaves_branchFragment branches, e.leaves_fragment]
  termination_by structural e

theorem Expr.leaves_fragments (es : List Expr) :
    (Expr.fragments es).flatMap Fragment.leaves = Expr.listLeaves es := by
  cases es with
  | nil => rfl
  | cons e rest =>
    rw [Expr.fragments, List.flatMap_cons, e.leaves_fragment, Expr.leaves_fragments rest]
    rfl
  termination_by structural es

theorem Expr.leaves_branchFragment (branches : List (Expr × Expr)) :
    (Expr.branchFragment branches).leaves = Expr.branchLeaves branches := by
  cases branches with
  | nil => rfl
  | cons branch rest =>
    obtain ⟨condition, value⟩ := branch
    simp [Expr.branchFragment, Expr.branchLeaves, condition.leaves_fragment,
      value.leaves_fragment, Expr.leaves_branchFragment rest]
  termination_by structural branches

theorem Source.leaves_fragment (s : Source) : s.fragment.leaves = s.leaves := by
  cases s with
  | table t => exact t.leaves_fragment
  | joined left right condition outer =>
    simp [Source.fragment, Source.leaves, left.leaves_fragment, right.leaves_fragment,
      condition.leaves_fragment]
  termination_by structural s

theorem Select.leaves_fragment (s : Select) : s.fragment.leaves = s.leaves := by
  obtain ⟨columns, source, filters, unions, groupBy, orderBy, limit⟩ := s
  cases source with
  | none => rfl
  | some source =>
    simp [Select.fragment, Select.leaves, Select.leaves_limitFragment,
      Select.leaves_columnFragment, Expr.leaves_fragments columns, source.leaves_fragment,
      Fragment.leaves_clause, Expr.leaves_fragments filters, Select.leaves_unionFragment unions,
      Expr.leaves_fragments groupBy, Expr.leaves_fragments orderBy]
  termination_by structural s

theorem Select.leaves_unionFragment (branches : List Select) :
    (Select.unionFragment branches).leaves = Select.unionLeaves branches := by
  cases branches with
  | nil => rfl
  | cons branch rest =>
    simp [Select.unionFragment, Select.unionLeaves, branch.leaves_fragment,
      Select.leaves_unionFragment rest]
  termination_by structural branches

end

theorem Expr.leaves_whereFragment (filters : List Expr) :
    (Expr.whereFragment filters).leaves = Expr.listLeaves filters := by
  rw [Expr.whereFragment, Fragment.leaves_clause, ← Expr.fragments_eq_map,
    Expr.leaves_fragments]

theorem Expr.listLeaves_eq_flatMap (es : List Expr) :
    Expr.listLeaves es = es.flatMap Expr.leaves := by
  induction es with
  | nil => rfl
  | cons e rest ih => rw [Expr.listLeaves, ih, List.flatMap_cons]

theorem Insert.leaves_fragment {i : Insert} (hi : i.assignments.isEmpty = false) :
    i.fragment.leaves = i.leaves := by
  have hcolumns : (i.assignments.map fun a => [Piece.name a.column.name]).flatMap
      Fragment.leaves = i.assignments.map fun a => .name a.column.name := by
    rw [List.flatMap_map, List.map_eq_flatMap]
    rfl
  simp [Insert.fragment, hi, Insert.leaves, Fragment.leaves_separated, hcolumns,
    List.flatMap_map, Expr.leaves_fragment]

theorem Update.leaves_fragment {u : Update} (hu : u.assignments.isEmpty = false) :
    u.fragment.leaves = u.leaves := by
  simp [Update.fragment, hu, Update.leaves, Fragment.leaves_separated, List.flatMap_map,
    Expr.leaves_fragment, Expr.leaves_whereFragment, apply_ite Fragment.leaves,
    Table.leaves_fragment]

theorem Delete.leaves_fragment (d : Delete) : d.fragment.leaves = d.leaves := by
  rw [Delete.fragment, Fragment.leaves_append, Expr.leaves_whereFragment, Delete.leaves]
  cases h : d.table.aliasName with
  | none => simp [Table.qualifier, h]
  | some other => simp [Table.leaves_fragment]

/-- Writing a statement visits its leaves in their order. -/
theorem Statement.leaves_fragment {s : Statement} (hs : s.fragment.fault? = none) :
    s.fragment.leaves = s.leaves := by
  cases s with
  | select q => exact q.select.leaves_fragment
  | insert i =>
    refine Insert.leaves_fragment (Bool.eq_false_iff.mpr fun hi => ?_)
    simp [Statement.fragment, Insert.fragment, hi, Fragment.fault?] at hs
  | update u =>
    refine Update.leaves_fragment (Bool.eq_false_iff.mpr fun hu => ?_)
    simp [Statement.fragment, Update.fragment, hu, Fragment.fault?] at hs
  | delete d => exact d.leaves_fragment

end BoundSql
