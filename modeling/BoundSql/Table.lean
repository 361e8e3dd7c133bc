import BoundSql.Fragment

/-
Tables and their columns.

A table has a name and may have an alias, which then qualifies its columns.  The
columns it declares are a convenience: any name may be asked of it.
-/

namespace BoundSql

structure Table where
  name : String
  aliasName : Option String := none
  declared : Option (List String) := none
  deriving DecidableEq

structure Column where
  table : Table
  name : String
  deriving DecidableEq

namespace Table

/-- The same table under another alias. -/
def withAlias (t : Table) (name : String) : Table :=
  { t with aliasName := some name }

def column (t : Table) (name : String) : Column :=
  ⟨t, name⟩

/-- The declared columns, if any were declared. -/
def columns? (t : Table) : Option (List Column) :=
  t.declared.map (·.map t.column)

/-- The name that qualifies the columns of the table. -/
def qualifier (t : Table) : String :=
  t.aliasName.getD t.name

/-- The table as a source of rows. -/
def fragment (t : Table) : Fragment :=
  match t.aliasName with
  | none => [.name t.name]
  | some other => [.name t.name, .text " as ", .name other]

end Table

def Column.fragment (c : Column) : Fragment :=
  [.name c.table.qualifier, .text ".", .name c.name]

end BoundSql
