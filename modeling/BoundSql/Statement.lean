import BoundSql.Mutation
import BoundSql.Query

/-
Whole statements, and what they are built into: a text with placeholders and the
values that stand for them.
-/

namespace BoundSql

inductive StatementKind where
  | select
  | insert
  | update
  | delete
  deriving DecidableEq

def StatementKind.word : StatementKind → String
  | select => "select"
  | insert => "insert"
  | update => "update"
  | delete => "delete"

/-- A statement ready to be run. -/
structure Built where
  kind : StatementKind
  sql : String
  params : Parameters

/-- The key under which the rows of the statement are kept.  It holds the text
and every value. -/
def Built.cacheKey (b : Built) : String :=
  "query:" ++ b.sql ++ ":" ++ b.params.serialize

inductive Statement where
  | select (q : Query)
  | insert (i : Insert)
  | update (u : Update)
  | delete (d : Delete)

namespace Statement

def kind : Statement → StatementKind
  | select _ => .select
  | insert _ => .insert
  | update _ => .update
  | delete _ => .delete

def fragment : Statement → Fragment
  | select q => q.fragment
  | insert i => i.fragment
  | update u => u.fragment
  | delete d => d.fragment

/-- Write the statement with values numbered from zero. -/
def build (s : Statement) : Except Error Built :=
  match s.fragment.render .empty with
  | (.ok sql, params) => .ok ⟨s.kind, sql, params⟩
  | (.error fault, _) => .error (.unwritable fault)

/-- The text alone. -/
def sql (s : Statement) : Except Error String :=
  s.build.map (·.sql)

end Statement
end BoundSql
