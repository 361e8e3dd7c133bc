import BoundSql.Expr.Basic

/-
How expressions, sources and selects are written.

A binary or negated expression is always in parentheses; `is NULL`, `desc` and
an alias follow their operand without any.  The clauses of a select stand in a
fixed order, and the ordering comes after its closing parenthesis since it
orders the rows of all its unions.
-/

namespace BoundSql

/-- The row limit as it stands before the columns.  Zero is no limit. -/
def Select.limitFragment (limit : UInt64) : Fragment :=
  if limit = 0 then []
  else [.text (String.ofList ("top ".toList ++ Numeral.ofNat limit.toNat ++ [' ']))]

/-- The selected columns, or a star for all there are. -/
def Select.columnFragment : List Fragment → Fragment
  | [] => [.text "*"]
  | columns => Fragment.separated ", " columns

mutual

def Expr.fragment : Expr → Fragment
  | .literal v => [.bind v]
  | .constant b => [.text (if b then "1 = 1" else "1 = 0")]
  | .column c => c.fragment
  | .all t => [.name t.qualifier, .text ".*"]
  | .aliased e name => e.fragment ++ [.text " as ", .name name]
  | .binary op left right =>
    .text "(" :: left.fragment ++ .text (" " ++ op.sql ++ " ") :: right.fragment ++ [.text ")"]
  | .negation e => .text "(not " :: e.fragment ++ [.text ")"]
  | .isNull e => e.fragment ++ [.text " is NULL"]
  | .descending e => e.fragment ++ [.text " desc"]
  | .member e items =>
    .text "(" :: e.fragment ++ .text " in (" ::
      Fragment.separated ", " (Expr.fragments items) ++ [.text "))"]
  | .memberOf e rows => .text "(" :: e.fragment ++ .text " in (" :: rows.fragment ++ [.text "))"]
  | .subquery rows => .text "(" :: rows.fragment ++ [.text ")"]
  | .exists rows => .text "exists (" :: rows.fragment ++ [.text ")"]
  | .call function args =>
    .text (function.sql ++ "(") :: Fragment.separated ", " (Expr.fragments args) ++ [.text ")"]
  | .countAll => [.text "COUNT(*)"]
  | .cast e type => .text "CAST(" :: e.fragment ++ [.text (" AS " ++ type.sql ++ ")")]
  | .case branches none => .text "case" :: Expr.branchFragment branches ++ [.text "\nend"]
  | .case branches (some e) =>
    .text "case" :: Expr.branchFragment branches ++
      .text "\n\telse " :: e.fragment ++ [.text "\nend"]
  termination_by structural e => e

def Expr.fragments : List Expr → List Fragment
  | [] => []
  | e :: rest => e.fragment :: Expr.fragments rest
  termination_by structural es => es

def Expr.branchFragment : List (Expr × Expr) → Fragment
  | [] => []
  | (condition, value) :: rest =>
    .text "\n\twhen " :: condition.fragment ++ .text " then " :: value.fragment ++
      Expr.branchFragment rest
  termination_by structural branches => branches

def Source.fragment : Source → Fragment
  | .table t => t.fragment
  | .joined left right condition outer =>
    .text "(" :: left.fragment ++ .text (if outer then " left join " else " join ") ::
      right.fragment ++ .text " on " :: condition.fragment ++ [.text ")"]
  termination_by structural source => source

def Select.fragment : Select → Fragment
  | ⟨_, none, _, _, _, _, _⟩ => [.fault .missingFrom]
  | ⟨columns, some source, filters, unions, groupBy, orderBy, limit⟩ =>
    .text "(select " :: Select.limitFragment limit ++
      Select.columnFragment (Expr.fragments columns) ++
      .text "\nfrom " :: source.fragment ++
      Fragment.clause "\nwhere " " and " (Expr.fragments filters) ++
      Select.unionFragment unions ++
      Fragment.clause "\ngroup by " ", " (Expr.fragments groupBy) ++
      .text "\n)" :: Fragment.clause "\norder by " ", " (Expr.fragments orderBy)
  termination_by structural select => select

def Select.unionFragment : List Select → Fragment
  | [] => []
  | branch :: rest => .text "\nunion " :: branch.fragment ++ Select.unionFragment rest
  termination_by structural branches => branches

end

theorem Expr.fragments_eq_map (es : List Expr) : Expr.fragments es = es.map Expr.fragment := by
  induction es with
  | nil => rfl
  | cons e rest ih => rw [Expr.fragments, ih, List.map_cons]

/-- The filters of a statement, all of which have to hold. -/
def Expr.whereFragment (filters : List Expr) : Fragment :=
  Fragment.clause "\nwhere " " and " (filters.map Expr.fragment)

end BoundSql
