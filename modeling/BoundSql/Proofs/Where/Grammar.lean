import BoundSql.Proofs.Parse.Grammar
import BoundSql.Proofs.Where.Token

/-
Tokens read with the usual precedence of SQL.

Arithmetic binds tighter than comparisons and the tests `like`, `in` and `is
NULL`, these bind tighter than `not`, then comes `and`, and last `or`.  What has
one level is grouped from the left, and parentheses only group.  `fuel` bounds the
depth of the reading; on what is written there is a result as soon as there is
enough of it, and that is part of every statement about it.
-/

namespace BoundSql
namespace Precedence

open BoundSql.Parse (qualifierTable operators functions argument)

/-! ## Words -/

/-- What comes after a word or mark. -/
def word? (w : String) : List Token → Option (List Token)
  | .text cs :: s => if cs = w.toList then some s else none
  | _ => none

def words? : List String → List Token → Option (List Token)
  | [], s => some s
  | w :: ws, s => (word? w s).bind (words? ws)

def function? : List Token → Option (SqlFunction × List Token)
  | .text cs :: s => (functions.find? (·.sql.toList == cs)).map (·, s)
  | _ => none

def number? : List Token → Option (Expr × List Token)
  | .text cs :: s => (Numeral.value? cs).map fun n => (.literal (.int (Int64.ofNat n)), s)
  | _ => none

/-- A column of a table, or all of its columns. -/
def column? (qualifier : String) : List Token → Option (Expr × List Token)
  | .text ['.'] :: .name n :: s => some (.column ⟨qualifierTable qualifier, n⟩, s)
  | .text ['.'] :: .text ['*'] :: s => some (.all (qualifierTable qualifier), s)
  | _ => none

/-- The row limit.  Zero, which sets none, is not written. -/
def limit? (s : List Token) : Option (UInt64 × List Token) :=
  match word? "top" s with
  | some (.text cs :: s) => (Numeral.value? cs).map fun n => (UInt64.ofNat n, s)
  | some _ => none
  | none => some (0, s)

/-- Arguments of a type up to the closing parenthesis. -/
def arguments? : List Token → Option (List TypeArgument × List Token)
  | .text cs :: .text [','] :: s => (arguments? s).map fun (rest, s) => (argument cs :: rest, s)
  | .text cs :: .text [')'] :: s => some ([argument cs], s)
  | _ => none

def type? : List Token → Option (DataType × List Token)
  | .text cs :: s => do
    let type ← SqlType.all.find? (·.keyword.toList == cs)
    match word? "(" s with
    | some s =>
      let (arguments, s) ← arguments? s
      return (⟨type, arguments⟩, s)
    | none => return (⟨type, []⟩, s)
  | _ => none

def table? : List Token → Option (Table × List Token)
  | .name n :: s =>
    match word? "as" s with
    | some (.name other :: s) => some (⟨n, some other, none⟩, s)
    | some _ => none
    | none => some (qualifierTable n, s)
  | _ => none

/-- How a source is joined to the one before. -/
def join? (s : List Token) : Option (Bool × List Token) :=
  match words? ["left", "join"] s with
  | some s => some (true, s)
  | none => (word? "join" s).map (false, ·)

/-! ## Levels -/

/-- What may come after an operand and goes on with the expression. -/
inductive Follower where
  | binary (op : BinaryOp)
  | isNull
  | member

def Follower.word : Follower → String
  | binary op => op.sql
  | isNull => "is"
  | member => "in"

/-- The higher the level, the tighter it binds. -/
def Follower.level : Follower → Nat
  | binary .or => 1
  | binary .and => 2
  | binary .plus => 5
  | binary .minus => 5
  | _ => 4

/-- `not` stands before its operand. -/
def notLevel : Nat := 3

def followers : List Follower :=
  .isNull :: .member :: operators.map .binary

def follower? : List Token → Option (Follower × List Token)
  | .text cs :: s => (followers.find? (·.word.toList == cs)).map (·, s)
  | _ => none

/-- Orders and aliases, which stand after whole expressions only. -/
def trailing? : Nat → Expr → List Token → Option (Expr × List Token)
  | 0, _, _ => none
  | fuel + 1, e, s =>
    match word? "desc" s with
    | some s => trailing? fuel (.descending e) s
    | none =>
      match word? "as" s with
      | some (.name n :: s) => trailing? fuel (.aliased e n) s
      | some _ => none
      | none => some (e, s)

/-! ## Clauses -/

section
variable (expr? : List Token → Option (Expr × List Token))
  (list? : List Token → Option (List Expr × List Token))

/-- The selected columns, of which a star leaves none. -/
def columns? (s : List Token) : Option (List Expr × List Token) :=
  match word? "*" s with
  | some s => some ([], s)
  | none => list? s

/-- The one condition of a select, if it has any. -/
def condition? (s : List Token) : Option (List Expr × List Token) :=
  match word? "where" s with
  | some s => do
    let (e, s) ← expr? s
    return ([e], s)
  | none => some ([], s)

/-- The keys of a grouping or of an ordering, if there are any. -/
def keys? (lead : String) (s : List Token) : Option (List Expr × List Token) :=
  match words? [lead, "by"] s with
  | some s => list? s
  | none => some ([], s)

end

/-! ## Expressions, sources and selects -/

mutual

/-- An expression in which nothing binds less tightly than `least`. -/
def expr? : Nat → Nat → List Token → Option (Expr × List Token)
  | 0, _, _ => none
  | fuel + 1, least, s =>
    match word? "not" s with
    | some s =>
      if least ≤ notLevel then do
        let (e, s) ← expr? fuel notLevel s
        rest? fuel least (.negation e) s
      else none
    | none => do
      let (e, s) ← operand? fuel s
      rest? fuel least e s

/-- What goes on with `e`, as far as it binds tightly enough. -/
def rest? : Nat → Nat → Expr → List Token → Option (Expr × List Token)
  | 0, _, _, _ => none
  | fuel + 1, least, e, s =>
    match follower? s with
    | none => some (e, s)
    | some (f, r) =>
      if f.level < least then some (e, s)
      else do
        let (e, s) ← follow? fuel e f r
        rest? fuel least e s

/-- The right operand binds tighter, so that operators of one level are grouped from
the left. -/
def follow? : Nat → Expr → Follower → List Token → Option (Expr × List Token)
  | 0, _, _, _ => none
  | fuel + 1, e, .binary op, s => do
    let (right, s) ← expr? fuel ((Follower.binary op).level + 1) s
    return (.binary op e right, s)
  | _ + 1, e, .isNull, s => do
    let s ← word? "NULL" s
    return (.isNull e, s)
  | fuel + 1, e, .member, s => do
    let s ← word? "(" s
    match words? ["(", "select"] s with
    | some _ =>
      let (rows, s) ← select? fuel s
      let s ← word? ")" s
      return (.memberOf e rows, s)
    | none =>
      let (items, s) ← items? fuel s
      return (.member e items, s)

def operand? : Nat → List Token → Option (Expr × List Token)
  | 0, _ => none
  | _ + 1, [] => none
  | _ + 1, .value v :: s => some (.literal v, s)
  | _ + 1, .name qualifier :: s => column? qualifier s
  | fuel + 1, .text cs :: s =>
    let s := .text cs :: s
    match words? ["(", "select"] s with
    | some _ => do
      let (rows, s) ← select? fuel s
      return (.subquery rows, s)
    | none =>
      match word? "(" s with
      | some s => do
        let (e, s) ← expr? fuel 0 s
        let s ← word? ")" s
        return (e, s)
      | none =>
        match words? ["exists", "("] s with
        | some s => do
          let (rows, s) ← select? fuel s
          let s ← word? ")" s
          return (.exists rows, s)
        | none =>
          match words? ["CAST", "("] s with
          | some s => do
            let (e, s) ← item? fuel s
            let s ← word? "AS" s
            let (type, s) ← type? s
            let s ← word? ")" s
            return (.cast e type, s)
          | none =>
            match word? "case" s with
            | some s => do
              let (branches, s) ← branches? fuel s
              match word? "else" s with
              | some s =>
                let (e, s) ← expr? fuel 0 s
                let s ← word? "end" s
                return (.case branches (some e), s)
              | none =>
                let s ← word? "end" s
                return (.case branches none, s)
            | none =>
              match words? ["COUNT", "(", "*", ")"] s with
              | some s => some (.countAll, s)
              | none =>
                match function? s with
                | some (function, s) => do
                  let s ← word? "(" s
                  let (args, s) ← items? fuel s
                  return (.call function args, s)
                | none => number? s

def item? : Nat → List Token → Option (Expr × List Token)
  | 0, _ => none
  | fuel + 1, s => do
    let (e, s) ← expr? fuel 0 s
    trailing? fuel e s

/-- One item or more, with commas between them. -/
def list? : Nat → List Token → Option (List Expr × List Token)
  | 0, _ => none
  | fuel + 1, s => do
    let (e, s) ← item? fuel s
    match word? "," s with
    | some s =>
      let (es, s) ← list? fuel s
      return (e :: es, s)
    | none => return ([e], s)

/-- Any number of items, and the closing parenthesis. -/
def items? : Nat → List Token → Option (List Expr × List Token)
  | 0, _ => none
  | fuel + 1, s =>
    match word? ")" s with
    | some s => some ([], s)
    | none => do
      let (es, s) ← list? fuel s
      let s ← word? ")" s
      return (es, s)

def branches? : Nat → List Token → Option (List (Expr × Expr) × List Token)
  | 0, _ => none
  | fuel + 1, s =>
    match word? "when" s with
    | some s => do
      let (condition, s) ← expr? fuel 0 s
      let s ← word? "then" s
      let (value, s) ← expr? fuel 0 s
      let (rest, s) ← branches? fuel s
      return ((condition, value) :: rest, s)
    | none => some ([], s)

def source? : Nat → List Token → Option (Source × List Token)
  | 0, _ => none
  | fuel + 1, s =>
    match word? "(" s with
    | some s => do
      let (left, s) ← source? fuel s
      let (outer, s) ← join? s
      let (right, s) ← source? fuel s
      let s ← word? "on" s
      let (condition, s) ← expr? fuel 0 s
      let s ← word? ")" s
      return (.joined left right condition outer, s)
    | none => (table? s).map fun (t, s) => (.table t, s)

/-- The ordering comes after the closing parenthesis. -/
def select? : Nat → List Token → Option (Select × List Token)
  | 0, _ => none
  | fuel + 1, s => do
    let s ← words? ["(", "select"] s
    let (limit, s) ← limit? s
    let (columns, s) ← columns? (list? fuel) s
    let s ← word? "from" s
    let (source, s) ← source? fuel s
    let (filters, s) ← condition? (expr? fuel 0) s
    let (unions, s) ← unions? fuel s
    let (groupBy, s) ← keys? (list? fuel) "group" s
    let s ← word? ")" s
    let (orderBy, s) ← keys? (list? fuel) "order" s
    return (⟨columns, some source, filters, unions, groupBy, orderBy, limit⟩, s)

def unions? : Nat → List Token → Option (List Select × List Token)
  | 0, _ => none
  | fuel + 1, s =>
    match word? "union" s with
    | some s => do
      let (branch, s) ← select? fuel s
      let (rest, s) ← unions? fuel s
      return (branch :: rest, s)
    | none => some ([], s)

end

end Precedence
end BoundSql
