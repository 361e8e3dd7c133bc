import BoundSql.Statement

/-
Statements with their names and values replaced.

A renaming goes through a whole statement and keeps all else as it is: which
tables have an alias, the operators, the clauses and the lengths of the lists.
A table is renamed in one way where it is a source of rows and in another where
it only qualifies a column, since of the latter no more than the qualifier is
ever written.  The main statement is `Statement.fragment_rename`: renaming a
statement renames the pieces of its fragment and nothing else.
-/

namespace BoundSql

structure Renaming where
  /-- A table as a source of rows, or as the one that is changed. -/
  table : Table → Table
  /-- A table as the qualifier of a column. -/
  qualifier : Table → Table
  name : String → String
  value : Value → Value

/-- A renaming of tables that is one of their names. -/
structure Renaming.Uniform (r : Renaming) : Prop where
  name_table (t : Table) : (r.table t).name = r.name t.name
  aliasName_table (t : Table) : (r.table t).aliasName = t.aliasName.map r.name
  qualifier_qualifier (t : Table) : (r.qualifier t).qualifier = r.name t.qualifier

/-! ## Renaming by structure -/

def Column.rename (r : Renaming) (c : Column) : Column :=
  ⟨r.qualifier c.table, r.name c.name⟩

mutual

def Expr.rename (r : Renaming) : Expr → Expr
  | .literal v => .literal (r.value v)
  | .constant b => .constant b
  | .column c => .column (c.rename r)
  | .all t => .all (r.qualifier t)
  | .aliased e name => .aliased (e.rename r) (r.name name)
  | .binary op left right => .binary op (left.rename r) (right.rename r)
  | .negation e => .negation (e.rename r)
  | .isNull e => .isNull (e.rename r)
  | .descending e => .descending (e.rename r)
  | .member e items => .member (e.rename r) (Expr.renameList r items)
  | .memberOf e rows => .memberOf (e.rename r) (rows.rename r)
  | .subquery rows => .subquery (rows.rename r)
  | .exists rows => .exists (rows.rename r)
  | .call function args => .call function (Expr.renameList r args)
  | .countAll => .countAll
  | .cast e type => .cast (e.rename r) type
  | .case branches none => .case (Expr.renameBranches r branches) none
  | .case branches (some e) => .case (Expr.renameBranches r branches) (some (e.rename r))
  termination_by structural e => e

def Expr.renameList (r : Renaming) : List Expr → List Expr
  | [] => []
  | e :: rest => e.rename r :: Expr.renameList r rest
  termination_by structural es => es

def Expr.renameBranches (r : Renaming) : List (Expr × Expr) → List (Expr × Expr)
  | [] => []
  | (condition, value) :: rest =>
    (condition.rename r, value.rename r) :: Expr.renameBranches r rest
  termination_by structural branches => branches

def Source.rename (r : Renaming) : Source → Source
  | .table t => .table (r.table t)
  | .joined left right condition outer =>
    .joined (left.rename r) (right.rename r) (condition.rename r) outer
  termination_by structural source => source

def Select.rename (r : Renaming) : Select → Select
  | ⟨columns, none, filters, unions, groupBy, orderBy, limit⟩ =>
    ⟨Expr.renameList r columns, none, Expr.renameList r filters, Select.renameList r unions,
      Expr.renameList r groupBy, Expr.renameList r orderBy, limit⟩
  | ⟨columns, some source, filters, unions, groupBy, orderBy, limit⟩ =>
    ⟨Expr.renameList r columns, some (source.rename r), Expr.renameList r filters,
      Select.renameList r unions, Expr.renameList r groupBy, Expr.renameList r orderBy, limit⟩
  termination_by structural select => select

def Select.renameList (r : Renaming) : List Select → List Select
  | [] => []
  | branch :: rest => branch.rename r :: Select.renameList r rest
  termination_by structural branches => branches

end

theorem Expr.renameList_eq_map (r : Renaming) (es : List Expr) :
    Expr.renameList r es = es.map (Expr.rename r) := by
  induction es with
  | nil => rfl
  | cons e rest ih => rw [Expr.renameList, ih, List.map_cons]

def Assignment.rename (r : Renaming) (a : Assignment) : Assignment :=
  ⟨a.column.rename r, a.value.rename r⟩

def Insert.rename (r : Renaming) (i : Insert) : Insert :=
  ⟨r.table i.table, i.assignments.map (Assignment.rename r)⟩

def Update.rename (r : Renaming) (u : Update) : Update :=
  ⟨r.table u.table, u.assignments.map (Assignment.rename r), Expr.renameList r u.filters⟩

def Delete.rename (r : Renaming) (d : Delete) : Delete :=
  ⟨r.table d.table, Expr.renameList r d.filters⟩

/-- The statement with its names and values replaced.  The root of a query and
the joins that wait for a source are not written, and are left out. -/
def Statement.rename (r : Renaming) : Statement → Statement
  | .select q => .select { select := q.select.rename r }
  | .insert i => .insert (i.rename r)
  | .update u => .update (u.rename r)
  | .delete d => .delete (d.rename r)

/-! ## Renamed fragments -/

def Piece.rename (r : Renaming) : Piece → Piece
  | .text s => .text s
  | .name n => .name (r.name n)
  | .bind v => .bind (r.value v)
  | .fault f => .fault f

namespace Fragment

def rename (r : Renaming) (f : Fragment) : Fragment :=
  f.map (Piece.rename r)

variable (r : Renaming)

@[simp] theorem rename_nil : rename r [] = [] := rfl

@[simp] theorem rename_append (f g : Fragment) : rename r (f ++ g) = f.rename r ++ g.rename r :=
  List.map_append

@[simp] theorem rename_text (s : String) (f : Fragment) :
    rename r (.text s :: f) = .text s :: f.rename r := rfl

@[simp] theorem rename_name (n : String) (f : Fragment) :
    rename r (.name n :: f) = .name (r.name n) :: f.rename r := rfl

theorem rename_separated (sep : String) (fs : List Fragment) :
    rename r (separated sep fs) = separated sep (fs.map (rename r)) := by
  induction fs with
  | nil => rfl
  | cons f rest ih =>
    cases rest with
    | nil => simp [separated]
    | cons g rest =>
      rw [separated_cons_cons, rename_append, rename_text, ih]
      exact (separated_cons_cons ..).symm

theorem rename_clause (lead sep : String) (fs : List Fragment) :
    rename r (clause lead sep fs) = clause lead sep (fs.map (rename r)) := by
  cases fs with
  | nil => rfl
  | cons f rest => exact congrArg (.text lead :: ·) (rename_separated r sep (f :: rest))

/-- Renaming removes no fault and adds none. -/
theorem fault?_rename (f : Fragment) : (f.rename r).fault? = f.fault? := by
  induction f with
  | nil => rfl
  | cons piece rest ih =>
    cases piece with
    | fault f => rfl
    | _ => exact ih

end Fragment

theorem Select.rename_limitFragment (r : Renaming) (limit : UInt64) :
    (Select.limitFragment limit).rename r = Select.limitFragment limit := by
  unfold Select.limitFragment
  split <;> rfl

theorem Select.rename_columnFragment (r : Renaming) (fs : List Fragment) :
    (Select.columnFragment fs).rename r = Select.columnFragment (fs.map (Fragment.rename r)) := by
  cases fs with
  | nil => rfl
  | cons f rest => exact Fragment.rename_separated r ", " (f :: rest)

variable {r : Renaming}

theorem Table.fragment_rename (hr : r.Uniform) (t : Table) :
    (r.table t).fragment = t.fragment.rename r := by
  unfold Table.fragment
  rw [hr.name_table, hr.aliasName_table]
  cases t.aliasName <;> rfl

theorem Table.qualifier_rename (hr : r.Uniform) (t : Table) :
    (r.table t).qualifier = r.name t.qualifier := by
  unfold Table.qualifier
  rw [hr.name_table, hr.aliasName_table]
  cases t.aliasName <;> rfl

theorem Column.fragment_rename (hr : r.Uniform) (c : Column) :
    (c.rename r).fragment = c.fragment.rename r := by
  simp [Column.fragment, Column.rename, hr.qualifier_qualifier]

mutual

theorem Expr.fragment_rename (hr : r.Uniform) (e : Expr) :
    (e.rename r).fragment = e.fragment.rename r := by
  cases e with
  | literal v => rfl
  | constant b => rfl
  | column c => exact Column.fragment_rename hr c
  | all t => simp [Expr.rename, Expr.fragment, hr.qualifier_qualifier]
  | aliased e name => simp [Expr.rename, Expr.fragment, e.fragment_rename hr]
  | binary op left right =>
    simp [Expr.rename, Expr.fragment, left.fragment_rename hr, right.fragment_rename hr]
  | negation e => simp [Expr.rename, Expr.fragment, e.fragment_rename hr]
  | isNull e => simp [Expr.rename, Expr.fragment, e.fragment_rename hr]
  | descending e => simp [Expr.rename, Expr.fragment, e.fragment_rename hr]
  | member e items =>
    simp [Expr.rename, Expr.fragment, e.fragment_rename hr, Fragment.rename_separated,
      Expr.fragments_rename hr items]
  | memberOf e rows =>
    simp [Expr.rename, Expr.fragment, e.fragment_rename hr, rows.fragment_rename hr]
  | subquery rows => simp [Expr.rename, Expr.fragment, rows.fragment_rename hr]
  | «exists» rows => simp [Expr.rename, Expr.fragment, rows.fragment_rename hr]
  | call function args =>
    simp [Expr.rename, Expr.fragment, Fragment.rename_separated, Expr.fragments_rename hr args]
  | countAll => rfl
  | cast e type => simp [Expr.rename, Expr.fragment, e.fragment_rename hr]
  | case branches otherwise =>
    cases otherwise with
    | none => simp [Expr.rename, Expr.fragment, Expr.branchFragment_rename hr branches]
    | some e =>
      simp [Expr.rename, Expr.fragment, Expr.branchFragment_rename hr branches,
        e.fragment_rename hr]
  termination_by structural e

theorem Expr.fragments_rename (hr : r.Uniform) (es : List Expr) :
    Expr.fragments (Expr.renameList r es) = (Expr.fragments es).map (Fragment.rename r) := by
  cases es with
  | nil => rfl
  | cons e rest =>
    rw [Expr.renameList, Expr.fragments, e.fragment_rename hr, Expr.fragments_rename hr rest]
    rfl
  termination_by structural es

theorem Expr.branchFragment_rename (hr : r.Uniform) (branches : List (Expr × Expr)) :
    Expr.branchFragment (Expr.renameBranches r branches) =
      (Expr.branchFragment branches).rename r := by
  cases branches with
  | nil => rfl
  | cons branch rest =>
    obtain ⟨condition, value⟩ := branch
    simp [Expr.renameBranches, Expr.branchFragment, condition.fragment_rename hr,
      value.fragment_rename hr, Expr.branchFragment_rename hr rest]
  termination_by structural branches

theorem Source.fragment_rename (hr : r.Uniform) (s : Source) :
    (s.rename r).fragment = s.fragment.rename r := by
  cases s with
  | table t => exact t.fragment_rename hr
  | joined left right condition outer =>
    simp [Source.rename, Source.fragment, left.fragment_rename hr, right.fragment_rename hr,
      condition.fragment_rename hr]
  termination_by structural s

theorem Select.fragment_rename (hr : r.Uniform) (s : Select) :
    (s.rename r).fragment = s.fragment.rename r := by
  obtain ⟨columns, source, filters, unions, groupBy, orderBy, limit⟩ := s
  cases source with
  | none => rfl
  | some source =>
    simp [Select.rename, Select.fragment, Select.rename_limitFragment,
      Select.rename_columnFragment, Expr.fragments_rename hr columns,
      source.fragment_rename hr, Fragment.rename_clause, Expr.fragments_rename hr filters,
      Select.unionFragment_rename hr unions, Expr.fragments_rename hr groupBy,
      Expr.fragments_rename hr orderBy]
  termination_by structural s

theorem Select.unionFragment_rename (hr : r.Uniform) (branches : List Select) :
    Select.unionFragment (Select.renameList r branches) =
      (Select.unionFragment branches).rename r := by
  cases branches with
  | nil => rfl
  | cons branch rest =>
    simp [Select.renameList, Select.unionFragment, branch.fragment_rename hr,
      Select.unionFragment_rename hr rest]
  termination_by structural branches

end

theorem Expr.whereFragment_rename (hr : r.Uniform) (filters : List Expr) :
    Expr.whereFragment (Expr.renameList r filters) = (Expr.whereFragment filters).rename r := by
  rw [Expr.whereFragment, Expr.whereFragment, ← Expr.fragments_eq_map, ← Expr.fragments_eq_map,
    Expr.fragments_rename hr, Fragment.rename_clause]

theorem Insert.fragment_rename (hr : r.Uniform) (i : Insert) :
    (i.rename r).fragment = i.fragment.rename r := by
  unfold Insert.fragment
  rw [Insert.rename, List.isEmpty_map]
  split
  · rfl
  · simp [Fragment.rename_separated, Function.comp_def, Assignment.rename, Column.rename,
      hr.name_table, Expr.fragment_rename hr]

theorem Update.fragment_rename (hr : r.Uniform) (u : Update) :
    (u.rename r).fragment = u.fragment.rename r := by
  unfold Update.fragment
  rw [Update.rename, List.isEmpty_map]
  split
  · rfl
  · simp [Fragment.rename_separated, Function.comp_def, Assignment.rename, Column.rename,
      Table.qualifier_rename hr, hr.aliasName_table, Expr.fragment_rename hr,
      Expr.whereFragment_rename hr, apply_ite (Fragment.rename r), Table.fragment_rename hr]

theorem Delete.fragment_rename (hr : r.Uniform) (d : Delete) :
    (d.rename r).fragment = d.fragment.rename r := by
  unfold Delete.fragment
  rw [Delete.rename, Expr.whereFragment_rename hr, Fragment.rename_append]
  simp [hr.aliasName_table, hr.name_table, Table.qualifier_rename hr,
    apply_ite (Fragment.rename r), Table.fragment_rename hr]

/-- What is written for a renamed statement is what was written, renamed. -/
theorem Statement.fragment_rename (hr : r.Uniform) (s : Statement) :
    (s.rename r).fragment = s.fragment.rename r := by
  cases s with
  | select q => exact q.select.fragment_rename hr
  | insert i => exact i.fragment_rename hr
  | update u => exact u.fragment_rename hr
  | delete d => exact d.fragment_rename hr

end BoundSql
