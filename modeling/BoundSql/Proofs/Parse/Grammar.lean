import BoundSql.Mutation
import BoundSql.Proofs.Number.Digits
import BoundSql.Proofs.Symbol
import BoundSql.Statement

/-
Symbols read back as statements.

The grammar has one rule for each way in which an expression, a source or a
select begins, and where two begin alike the text after that decides.  What may
follow an operand without parentheses is read in a loop of its own.  `fuel`
bounds the depth of the reading; how much is enough is settled where the reading
is shown to undo the writing.
-/

namespace BoundSql
namespace Parse

open BoundSql.Symbol (ofText)

/-! ## Texts, names and words -/

/-- What comes after a text. -/
def after? : List Char → List Symbol → Option (List Symbol)
  | [], s => some s
  | c :: cs, .char d :: s => if c = d then after? cs s else none
  | _ :: _, _ => none

def text? (text : String) (s : List Symbol) : Option (List Symbol) :=
  after? text.toList s

def name? : List Symbol → Option (String × List Symbol)
  | .name n :: s => some (n, s)
  | _ => none

/-- A capital letter, a digit or an underscore. -/
def isCapital (c : Char) : Bool :=
  c.isUpper || c.isDigit || c == '_'

/-- The capitals at the start. -/
def word : List Symbol → List Char × List Symbol
  | .char c :: s => if isCapital c then (c :: (word s).1, (word s).2) else ([], .char c :: s)
  | s => ([], s)

/-- The first of some texts that stands at the start. -/
def oneOf {α : Type} (text : α → List Char) (all : List α) (s : List Symbol) :
    Option (α × List Symbol) :=
  all.findSome? fun a => (after? (text a) s).map fun s => (a, s)

def operators : List BinaryOp :=
  [.equal, .notEqual, .greater, .greaterOrEqual, .less, .lessOrEqual, .and, .or, .plus, .minus,
   .like]

def functions : List SqlFunction :=
  [.count, .max, .substring, .dataLength]

def operator? (s : List Symbol) : Option (BinaryOp × List Symbol) :=
  oneOf (fun op => ' ' :: op.sql.toList ++ [' ']) operators s

def function? (s : List Symbol) : Option (SqlFunction × List Symbol) :=
  oneOf (fun f => f.sql.toList ++ ['(']) functions s

/-! ## Types and limits -/

def argument (digits : List Char) : TypeArgument :=
  if digits = ['M', 'A', 'X'] then .max else .number (UInt32.ofNat (Numeral.number digits))

/-- Arguments up to the closing parenthesis. -/
def arguments? : Nat → List Symbol → Option (List TypeArgument × List Symbol)
  | 0, _ => none
  | fuel + 1, s => do
    let (digits, s) := word s
    match text? ", " s with
    | some s =>
      let (rest, s) ← arguments? fuel s
      return (argument digits :: rest, s)
    | none =>
      let s ← text? ")" s
      return ([argument digits], s)

def type? (fuel : Nat) (s : List Symbol) : Option (DataType × List Symbol) := do
  let (keyword, s) := word s
  let type ← SqlType.all.find? (·.keyword.toList == keyword)
  match text? "(" s with
  | some s =>
    let (arguments, s) ← arguments? fuel s
    return (⟨type, arguments⟩, s)
  | none => return (⟨type, []⟩, s)

/-- The row limit.  Zero, which sets none, is not written. -/
def limit? (s : List Symbol) : Option (UInt64 × List Symbol) :=
  match text? "top " s with
  | some s => do
    let (digits, s) := word s
    let s ← text? " " s
    return (UInt64.ofNat (Numeral.number digits), s)
  | none => some (0, s)

/-! ## Tables -/

/-- A table of which only the qualifier is known. -/
def qualifierTable (qualifier : String) : Table :=
  ⟨qualifier, none, none⟩

def table? (s : List Symbol) : Option (Table × List Symbol) := do
  let (name, s) ← name? s
  match text? " as " s with
  | some s =>
    let (other, s) ← name? s
    return (⟨name, some other, none⟩, s)
  | none => return (qualifierTable name, s)

/-- A column of a table, or all of its columns. -/
def column? (qualifier : String) (s : List Symbol) : Option (Expr × List Symbol) :=
  match text? ".*" s with
  | some s => some (.all (qualifierTable qualifier), s)
  | none => do
    let s ← text? "." s
    let (name, s) ← name? s
    return (.column ⟨qualifierTable qualifier, name⟩, s)

/-- How a source is joined to the one before. -/
def join? (s : List Symbol) : Option (Bool × List Symbol) :=
  match text? " left join " s with
  | some s => some (true, s)
  | none => (text? " join " s).map fun s => (false, s)

/-! ## Expressions, sources and selects -/

/-- What follows an operand: tests for null, descending orders and aliases. -/
def trailing? : Nat → Expr → List Symbol → Option (Expr × List Symbol)
  | 0, _, _ => none
  | fuel + 1, e, s =>
    match text? " is NULL" s with
    | some s => trailing? fuel (.isNull e) s
    | none =>
      match text? " desc" s with
      | some s => trailing? fuel (.descending e) s
      | none =>
        match text? " as " s with
        | some s => do
          let (name, s) ← name? s
          trailing? fuel (.aliased e name) s
        | none => some (e, s)

/-- The count of all rows, which otherwise begins like a call. -/
def countAll? (s : List Symbol) (otherwise : Option (Expr × List Symbol)) :
    Option (Expr × List Symbol) :=
  match text? "COUNT(*)" s with
  | some s => some (.countAll, s)
  | none => otherwise

/-- The selected columns, of which a star leaves none. -/
def columns? (list? : List Symbol → Option (List Expr × List Symbol)) (s : List Symbol) :
    Option (List Expr × List Symbol) :=
  match text? "*" s with
  | some s => some ([], s)
  | none => list? s

/-- A clause, which is left out if it has no expressions. -/
def clause? (lead : String) (list? : List Symbol → Option (List Expr × List Symbol))
    (s : List Symbol) : Option (List Expr × List Symbol) :=
  match text? lead s with
  | some s => list? s
  | none => some ([], s)

mutual

def expr? : Nat → List Symbol → Option (Expr × List Symbol)
  | 0, _ => none
  | fuel + 1, s => do
    let (e, s) ← operand? fuel s
    trailing? fuel e s

def operand? : Nat → List Symbol → Option (Expr × List Symbol)
  | 0, _ => none
  | _ + 1, .value v :: s => some (.literal v, s)
  | _ + 1, .name qualifier :: s => column? qualifier s
  | fuel + 1, s =>
    match text? "(" s with
    | some s => group? fuel s
    | none =>
      match text? "1 = 1" s with
      | some s => some (.constant true, s)
      | none =>
        match text? "1 = 0" s with
        | some s => some (.constant false, s)
        | none =>
          match text? "exists (" s with
          | some s => do
            let (rows, s) ← select? fuel s
            let s ← text? ")" s
            return (.exists rows, s)
          | none =>
            countAll? s <|
              match function? s with
              | some (function, s) => do
                let (args, s) ← items? fuel s
                return (.call function args, s)
              | none =>
                match text? "CAST(" s with
                | some s => do
                  let (e, s) ← expr? fuel s
                  let s ← text? " AS " s
                  let (type, s) ← type? fuel s
                  let s ← text? ")" s
                  return (.cast e type, s)
                | none => do
                  let s ← text? "case" s
                  let (branches, s) ← branches? fuel s
                  match text? "\n\telse " s with
                  | some s => do
                    let (e, s) ← expr? fuel s
                    let s ← text? "\nend" s
                    return (.case branches (some e), s)
                  | none => do
                    let s ← text? "\nend" s
                    return (.case branches none, s)

/-- An expression after its opening parenthesis. -/
def group? : Nat → List Symbol → Option (Expr × List Symbol)
  | 0, _ => none
  | fuel + 1, s =>
    match text? "(select " s with
    | some _ => do
      let (rows, s) ← select? fuel s
      let s ← text? ")" s
      return (.subquery rows, s)
    | none =>
      match text? "not " s with
      | some s => do
        let (e, s) ← expr? fuel s
        let s ← text? ")" s
        return (.negation e, s)
      | none => do
        let (left, s) ← expr? fuel s
        match text? " in (" s with
        | none => do
          let (op, s) ← operator? s
          let (right, s) ← expr? fuel s
          let s ← text? ")" s
          return (.binary op left right, s)
        | some s =>
          match text? "(select " s with
          | some _ => do
            let (rows, s) ← select? fuel s
            let s ← text? "))" s
            return (.memberOf left rows, s)
          | none => do
            let (items, s) ← items? fuel s
            let s ← text? ")" s
            return (.member left items, s)

/-- Any number of expressions, and the closing parenthesis. -/
def items? : Nat → List Symbol → Option (List Expr × List Symbol)
  | 0, _ => none
  | fuel + 1, s =>
    match text? ")" s with
    | some s => some ([], s)
    | none => do
      let (es, s) ← list? ", " fuel s
      let s ← text? ")" s
      return (es, s)

/-- One expression or more, with a separator between them. -/
def list? (sep : String) : Nat → List Symbol → Option (List Expr × List Symbol)
  | 0, _ => none
  | fuel + 1, s => do
    let (e, s) ← expr? fuel s
    match text? sep s with
    | some s => do
      let (es, s) ← list? sep fuel s
      return (e :: es, s)
    | none => return ([e], s)

def branches? : Nat → List Symbol → Option (List (Expr × Expr) × List Symbol)
  | 0, _ => none
  | fuel + 1, s =>
    match text? "\n\twhen " s with
    | some s => do
      let (condition, s) ← expr? fuel s
      let s ← text? " then " s
      let (value, s) ← expr? fuel s
      let (rest, s) ← branches? fuel s
      return ((condition, value) :: rest, s)
    | none => some ([], s)

def source? : Nat → List Symbol → Option (Source × List Symbol)
  | 0, _ => none
  | fuel + 1, s =>
    match text? "(" s with
    | some s => do
      let (left, s) ← source? fuel s
      let (outer, s) ← join? s
      let (right, s) ← source? fuel s
      let s ← text? " on " s
      let (condition, s) ← expr? fuel s
      let s ← text? ")" s
      return (.joined left right condition outer, s)
    | none => (table? s).map fun (t, s) => (.table t, s)

def select? : Nat → List Symbol → Option (Select × List Symbol)
  | 0, _ => none
  | fuel + 1, s => do
    let s ← text? "(select " s
    let (limit, s) ← limit? s
    let (columns, s) ← columns? (list? ", " fuel) s
    let s ← text? "\nfrom " s
    let (source, s) ← source? fuel s
    let (filters, s) ← clause? "\nwhere " (list? " and " fuel) s
    let (unions, s) ← unions? fuel s
    let (groupBy, s) ← clause? "\ngroup by " (list? ", " fuel) s
    let s ← text? "\n)" s
    let (orderBy, s) ← clause? "\norder by " (list? ", " fuel) s
    return (⟨columns, some source, filters, unions, groupBy, orderBy, limit⟩, s)

def unions? : Nat → List Symbol → Option (List Select × List Symbol)
  | 0, _ => none
  | fuel + 1, s =>
    match text? "\nunion " s with
    | some s => do
      let (branch, s) ← select? fuel s
      let (rest, s) ← unions? fuel s
      return (branch :: rest, s)
    | none => some ([], s)

end

/-! ## Statements -/

/-- One item or more, with commas between them. -/
def listOf? {α : Type} (item? : Nat → List Symbol → Option (α × List Symbol)) :
    Nat → List Symbol → Option (List α × List Symbol)
  | 0, _ => none
  | fuel + 1, s => do
    let (a, s) ← item? fuel s
    match text? ", " s with
    | some s =>
      let (rest, s) ← listOf? item? fuel s
      return (a :: rest, s)
    | none => return ([a], s)

/-- The column that is set, of which no more than the name is written. -/
def target (name : String) : Column :=
  ⟨qualifierTable "", name⟩

def assignment? (fuel : Nat) (s : List Symbol) : Option (Assignment × List Symbol) := do
  let (name, s) ← name? s
  let s ← text? " = " s
  let (value, s) ← expr? fuel s
  return (⟨target name, value⟩, s)

def insert? (fuel : Nat) (s : List Symbol) : Option Statement := do
  let (name, s) ← name? s
  let s ← text? "\n (" s
  let (columns, s) ← listOf? (fun _ => name?) fuel s
  let s ← text? ") \nVALUES (" s
  let (values, _) ← list? ", " fuel s
  return .insert ⟨qualifierTable name, columns.zipWith (fun c v => ⟨target c, v⟩) values⟩

/-- An update names the table again if it has an alias. -/
def update? (fuel : Nat) (s : List Symbol) : Option Statement := do
  let (qualifier, s) ← name? s
  let s ← text? "\nset " s
  let (assignments, s) ← listOf? assignment? fuel s
  let (table, s) ←
    match text? "\nfrom " s with
    | some s => table? s
    | none => some (qualifierTable qualifier, s)
  let (filters, _) ← clause? "\nwhere " (list? " and " fuel) s
  return .update ⟨table, assignments, filters⟩

/-- A delete names the alias of the table first, if it has one. -/
def delete? (fuel : Nat) (s : List Symbol) : Option Statement := do
  let (table, s) ←
    match text? "from " s with
    | some s => (name? s).map fun (name, s) => (qualifierTable name, s)
    | none => do
      let (_, s) ← name? s
      let s ← text? "\nfrom " s
      table? s
  let (filters, _) ← clause? "\nwhere " (list? " and " fuel) s
  return .delete ⟨table, filters⟩

def statement? (fuel : Nat) (s : List Symbol) : Option Statement :=
  match text? "insert into " s with
  | some s => insert? fuel s
  | none =>
    match text? "update " s with
    | some s => update? fuel s
    | none =>
      match text? "delete " s with
      | some s => delete? fuel s
      | none => do
        let (select, _) ← select? fuel s
        return .select { select }

end Parse
end BoundSql
