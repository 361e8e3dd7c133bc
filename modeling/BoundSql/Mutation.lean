import BoundSql.Expr.Fragment

/-
Statements that change a table: insert, update and delete.

An insert or update that sets no column cannot be written.  Columns are set under
their bare names.  An update or delete of a table with an alias names the alias
and binds it in a clause of its own; an insert does not use the alias.
-/

namespace BoundSql

/-- A column and the value it gets. -/
structure Assignment where
  column : Column
  value : Expr

structure Insert where
  table : Table
  assignments : List Assignment := []

structure Update where
  table : Table
  assignments : List Assignment := []
  filters : List Expr := []

structure Delete where
  table : Table
  filters : List Expr := []

namespace Insert

/-- The field of the result that holds the identity of the new row. -/
def identityField : String := "ix"

def set (i : Insert) (column : Column) (value : Expr) : Insert :=
  { i with assignments := i.assignments ++ [⟨column, value⟩] }

/-- Set a column if there is a value for it. -/
def set? (i : Insert) (column : Column) (value : Option Expr) : Insert :=
  value.elim i (i.set column)

/-- The insert, and after it the query for the identity of the new row. -/
def fragment (i : Insert) : Fragment :=
  if i.assignments.isEmpty then [.fault (.emptyAssignments "INSERT")]
  else
    .text "insert into " :: .name i.table.name :: .text "\n (" ::
      Fragment.separated ", " (i.assignments.map fun a => [.name a.column.name]) ++
      .text ") \nVALUES (" ::
      Fragment.separated ", " (i.assignments.map fun a => a.value.fragment) ++
      [.text ");", .text "SELECT @@IDENTITY AS ix;"]

end Insert

namespace Update

def set (u : Update) (column : Column) (value : Expr) : Update :=
  { u with assignments := u.assignments ++ [⟨column, value⟩] }

/-- Set a column if there is a value for it. -/
def set? (u : Update) (column : Column) (value : Option Expr) : Update :=
  value.elim u (u.set column)

def addFilters (u : Update) (filters : List Expr) : Update :=
  { u with filters := u.filters ++ filters }

def fragment (u : Update) : Fragment :=
  if u.assignments.isEmpty then [.fault (.emptyAssignments "UPDATE")]
  else
    .text "update " :: .name u.table.qualifier :: .text "\nset " ::
      Fragment.separated ", "
        (u.assignments.map fun a => .name a.column.name :: .text " = " :: a.value.fragment) ++
      (if u.table.aliasName.isSome then .text "\nfrom " :: u.table.fragment else []) ++
      Expr.whereFragment u.filters

end Update

namespace Delete

def addFilters (d : Delete) (filters : List Expr) : Delete :=
  { d with filters := d.filters ++ filters }

def fragment (d : Delete) : Fragment :=
  (if d.table.aliasName.isSome then
    .text "delete " :: .name d.table.qualifier :: .text "\nfrom " :: d.table.fragment
  else [.text "delete from ", .name d.table.name]) ++
    Expr.whereFragment d.filters

end Delete
end BoundSql
