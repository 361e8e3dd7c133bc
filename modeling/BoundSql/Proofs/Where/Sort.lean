import BoundSql.Mutation
import BoundSql.Proofs.Parse.Grammar

/-
Well-sorted expressions, and what they should be read as.

What stands in a comparison, in a test or under a logical operator has a sort.
Aliases, orders and all columns of a table are of neither sort, and stand where
whole items do: in selected columns, keys and arguments.  What is not asked of
an expression is left open, such as the arguments of a function.
-/

namespace BoundSql

open BoundSql.Parse (qualifierTable)

inductive ExprSort where
  | scalar
  | predicate
  | item
  deriving DecidableEq

/-- What the operands have to be. -/
def BinaryOp.operandSort : BinaryOp → ExprSort
  | and => .predicate
  | or => .predicate
  | _ => .scalar

def BinaryOp.sort : BinaryOp → ExprSort
  | plus => .scalar
  | minus => .scalar
  | _ => .predicate

def Expr.sort : Expr → ExprSort
  | literal _ => .scalar
  | constant _ => .predicate
  | column _ => .scalar
  | all _ => .item
  | aliased _ _ => .item
  | binary op _ _ => op.sort
  | negation _ => .predicate
  | isNull _ => .predicate
  | descending _ => .item
  | member _ _ => .predicate
  | memberOf _ _ => .predicate
  | subquery _ => .scalar
  | «exists» _ => .predicate
  | call _ _ => .scalar
  | countAll => .scalar
  | cast _ _ => .scalar
  | case _ _ => .scalar

namespace ExprSort

def isScalar (s : ExprSort) : Bool := s == .scalar

/-- Whether an expression of this sort may stand between logical operators. -/
def isWhole (s : ExprSort) : Bool := s != .item

end ExprSort

mutual

/-- Every part of the expression has the sort that is asked of it. -/
def Expr.wellSorted : Expr → Bool
  | .literal _ => true
  | .constant _ => true
  | .column _ => true
  | .all _ => true
  | .aliased e _ => e.wellSorted
  | .binary op left right =>
    left.sort == op.operandSort && right.sort == op.operandSort && left.wellSorted &&
      right.wellSorted
  | .negation e => e.sort == .predicate && e.wellSorted
  | .isNull e => e.sort.isScalar && e.wellSorted
  | .descending e => e.wellSorted
  | .member e items =>
    e.sort.isScalar && e.wellSorted && Expr.allWellSorted ExprSort.isScalar items
  | .memberOf e rows => e.sort.isScalar && e.wellSorted && rows.wellSorted
  | .subquery rows => rows.wellSorted
  | .exists rows => rows.wellSorted
  | .call _ args => Expr.allWellSorted (fun _ => true) args
  | .countAll => true
  | .cast e _ => e.wellSorted
  | .case branches none => Expr.branchesWellSorted branches
  | .case branches (some e) =>
    Expr.branchesWellSorted branches && e.sort.isScalar && e.wellSorted
  termination_by structural e => e

def Expr.allWellSorted (allowed : ExprSort → Bool) : List Expr → Bool
  | [] => true
  | e :: rest => allowed e.sort && e.wellSorted && Expr.allWellSorted allowed rest
  termination_by structural es => es

def Expr.branchesWellSorted : List (Expr × Expr) → Bool
  | [] => true
  | (condition, value) :: rest =>
    condition.sort == .predicate && condition.wellSorted && value.sort.isScalar &&
      value.wellSorted && Expr.branchesWellSorted rest
  termination_by structural branches => branches

def Source.wellSorted : Source → Bool
  | .table _ => true
  | .joined left right condition _ =>
    left.wellSorted && right.wellSorted && condition.sort.isWhole && condition.wellSorted
  termination_by structural source => source

def Select.wellSorted : Select → Bool
  | ⟨_, none, _, _, _, _, _⟩ => true
  | ⟨columns, some source, filters, unions, groupBy, orderBy, _⟩ =>
    Expr.allWellSorted (fun _ => true) columns && source.wellSorted &&
      Expr.allWellSorted ExprSort.isWhole filters && Select.allWellSorted unions &&
      Expr.allWellSorted (fun _ => true) groupBy && Expr.allWellSorted (fun _ => true) orderBy
  termination_by structural select => select

def Select.allWellSorted : List Select → Bool
  | [] => true
  | branch :: rest => branch.wellSorted && Select.allWellSorted rest
  termination_by structural branches => branches

end

/-! ## What is to be read -/

/-- One condition for several, grouped from the left. -/
def Expr.conjoined : List Expr → List Expr
  | [] => []
  | e :: rest => [rest.foldl Expr.and e]

mutual

/-- The expression with its constants as comparisons, and with no more of a table
than the qualifier of its columns. -/
def Expr.asRead : Expr → Expr
  | .literal v => .literal v
  | .constant b => .equals (.literal (.int 1)) (.literal (.int (if b then 1 else 0)))
  | .column c => .column ⟨qualifierTable c.table.qualifier, c.name⟩
  | .all t => .all (qualifierTable t.qualifier)
  | .aliased e name => .aliased e.asRead name
  | .binary op left right => .binary op left.asRead right.asRead
  | .negation e => .negation e.asRead
  | .isNull e => .isNull e.asRead
  | .descending e => .descending e.asRead
  | .member e items => .member e.asRead (Expr.allAsRead items)
  | .memberOf e rows => .memberOf e.asRead rows.asRead
  | .subquery rows => .subquery rows.asRead
  | .exists rows => .exists rows.asRead
  | .call function args => .call function (Expr.allAsRead args)
  | .countAll => .countAll
  | .cast e type => .cast e.asRead type
  | .case branches none => .case (Expr.branchesAsRead branches) none
  | .case branches (some e) => .case (Expr.branchesAsRead branches) (some e.asRead)
  termination_by structural e => e

def Expr.allAsRead : List Expr → List Expr
  | [] => []
  | e :: rest => e.asRead :: Expr.allAsRead rest
  termination_by structural es => es

def Expr.branchesAsRead : List (Expr × Expr) → List (Expr × Expr)
  | [] => []
  | (condition, value) :: rest => (condition.asRead, value.asRead) :: Expr.branchesAsRead rest
  termination_by structural branches => branches

def Source.asRead : Source → Source
  | .table t => .table ⟨t.name, t.aliasName, none⟩
  | .joined left right condition outer =>
    .joined left.asRead right.asRead condition.asRead outer
  termination_by structural source => source

/-- Of several filters their conjunction is read. -/
def Select.asRead : Select → Select
  | ⟨columns, none, filters, unions, groupBy, orderBy, limit⟩ =>
    ⟨columns, none, filters, unions, groupBy, orderBy, limit⟩
  | ⟨columns, some source, filters, unions, groupBy, orderBy, limit⟩ =>
    ⟨Expr.allAsRead columns, some source.asRead, Expr.conjoined (Expr.allAsRead filters),
      Select.allAsRead unions, Expr.allAsRead groupBy, Expr.allAsRead orderBy, limit⟩
  termination_by structural select => select

def Select.allAsRead : List Select → List Select
  | [] => []
  | branch :: rest => branch.asRead :: Select.allAsRead rest
  termination_by structural branches => branches

end

theorem Expr.allAsRead_eq_map (es : List Expr) : Expr.allAsRead es = es.map Expr.asRead := by
  induction es with
  | nil => rfl
  | cons e rest ih => rw [Expr.allAsRead, ih, List.map_cons]

end BoundSql
