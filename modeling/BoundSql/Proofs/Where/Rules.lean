import BoundSql.Proofs.Parse.Words
import BoundSql.Proofs.Where.Grammar
import BoundSql.Proofs.Where.Words

/-
The rules of the grammar, on the texts that are written.

There is one lemma for each way in which an expression, a source or a select is
written.  It says what a rule makes of the words if its parts are read, and under
which condition on what follows.  Where there are no parentheses,
`expr_two_operators` and `expr_not_operator` say what is grouped first.
-/

namespace BoundSql
namespace Precedence

open BoundSql.Parse (Eventually eventually_some)
open BoundSql.Token (words)

variable {s r t u : List Token} {e : Expr} {least : Nat} {y : Expr × List Token}

/-! ## How expressions begin -/

/-- The words with which expressions begin. -/
def leadWords : List (List Char) :=
  ["(", "0", "1", "exists", "CAST", "case", "COUNT", "MAX", "SUBSTRING", "DATALENGTH"].map
    String.toList

/-- Whether the first token can begin an expression. -/
def leads : List Token → Bool
  | .text cs :: _ => leadWords.contains cs
  | .name _ :: _ => true
  | .value _ :: _ => true
  | [] => false

theorem word?_of_leads (h : leads s = true) {w : String}
    (hw : leadWords.contains w.toList = false) : word? w s = none := by
  cases s with
  | nil => rfl
  | cons x s =>
    cases x with
    | text cs =>
      have hne : cs ≠ w.toList := by
        rintro rfl
        rw [leads, hw] at h
        cases h
      rw [word?, if_neg hne]
    | name n => rfl
    | value v => rfl

/-! ## What goes on with an expression -/

theorem expr_of_operand (hs : leads s = true) (ho : Eventually (operand? · s) (e, r))
    (hr : Eventually (rest? · least e r) y) : Eventually (expr? · least s) y := by
  have hnot : word? "not" s = none := word?_of_leads hs rfl
  refine .succ ?_
  simp only [expr?, hnot]
  exact ho.bind hr

theorem expr_not (hleast : least ≤ notLevel) (he : Eventually (expr? · notLevel s) (e, r))
    (hr : Eventually (rest? · least (.negation e) r) y) :
    Eventually (expr? · least (words "not " ++ s)) y := by
  have hnot : word? "not" (words "not " ++ s) = some s := rfl
  refine .succ ?_
  simp only [expr?, hnot, if_pos hleast]
  exact he.bind hr

/-- Nothing goes on with an expression where nothing can. -/
theorem rest_of_none (hs : follower? s = none) : Eventually (rest? · least e s) (e, s) := by
  refine .succ ?_
  simp only [rest?, hs]
  exact eventually_some _

/-- Nor does what binds too weakly. -/
theorem rest_of_lt {f : Follower} (hs : follower? s = some (f, r)) (h : f.level < least) :
    Eventually (rest? · least e s) (e, s) := by
  refine .succ ?_
  simp only [rest?, hs, if_pos h]
  exact eventually_some _

theorem rest_of_follower {f : Follower} {e' : Expr} (hs : follower? s = some (f, r))
    (h : least ≤ f.level) (hf : Eventually (follow? · e f r) (e', t))
    (hr : Eventually (rest? · least e' t) y) : Eventually (rest? · least e s) y := by
  refine .succ ?_
  simp only [rest?, hs, if_neg (Nat.not_lt.mpr h)]
  exact hf.bind hr

theorem follower_sql (op : BinaryOp) (s : List Token) :
    follower? (words (" " ++ op.sql ++ " ") ++ s) = some (.binary op, s) := by
  cases op <;> rfl

theorem rest_isNull (h : least ≤ 4) (hr : Eventually (rest? · least (.isNull e) s) y) :
    Eventually (rest? · least e (words " is NULL" ++ s)) y := by
  have hs : follower? (words " is NULL" ++ s) = some (.isNull, words "NULL" ++ s) := rfl
  exact rest_of_follower hs h (.succ (eventually_some _)) hr

theorem rest_binary (op : BinaryOp) {right : Expr} (h : least ≤ (Follower.binary op).level)
    (hright : Eventually (expr? · ((Follower.binary op).level + 1) s) (right, r))
    (hr : Eventually (rest? · least (.binary op e right) r) y) :
    Eventually (rest? · least e (words (" " ++ op.sql ++ " ") ++ s)) y := by
  refine rest_of_follower (follower_sql op s) h (.succ ?_) hr
  exact hright.bind (eventually_some _)

theorem rest_member {items : List Expr} (h : least ≤ 4)
    (hselect : words? ["(", "select"] s = none) (hi : Eventually (items? · s) (items, r))
    (hr : Eventually (rest? · least (.member e items) r) y) :
    Eventually (rest? · least e (words " in (" ++ s)) y := by
  have hs : follower? (words " in (" ++ s) = some (.member, words "(" ++ s) := rfl
  have hopen : word? "(" (words "(" ++ s) = some s := rfl
  refine rest_of_follower hs h (.succ ?_) hr
  simp only [follow?, hopen, hselect, Option.bind_eq_bind, Option.bind_some]
  exact hi.bind (eventually_some _)

theorem rest_memberOf {rows : Select} (h : least ≤ 4)
    (hrows : Eventually (select? · (words "(select " ++ s)) (rows, words ")" ++ r))
    (hr : Eventually (rest? · least (.memberOf e rows) r) y) :
    Eventually (rest? · least e (words " in (" ++ (words "(select " ++ s))) y := by
  have hs : follower? (words " in (" ++ (words "(select " ++ s)) =
      some (.member, words "(" ++ (words "(select " ++ s)) := rfl
  refine rest_of_follower hs h (.succ ?_) hr
  exact hrows.bind (eventually_some _)

/-! ## Operands -/

theorem operand_value (v : Value) : Eventually (operand? · (.value v :: s)) (.literal v, s) :=
  .succ (eventually_some _)

theorem operand_column (qualifier name : String) :
    Eventually (operand? · (.name qualifier :: words "." ++ .name name :: s))
      (.column ⟨Parse.qualifierTable qualifier, name⟩, s) :=
  .succ (eventually_some _)

theorem operand_all (qualifier : String) :
    Eventually (operand? · (.name qualifier :: words ".*" ++ s))
      (.all (Parse.qualifierTable qualifier), s) :=
  .succ (eventually_some _)

/-- The numbers that constants are made of. -/
theorem operand_bit (b : Bool) :
    Eventually (operand? · (words (if b then "1" else "0") ++ s))
      (.literal (.int (if b then 1 else 0)), s) := by
  cases b with
  | true => exact .succ (eventually_some _)
  | false => exact .succ (eventually_some _)

theorem operand_subquery {rows : Select}
    (h : Eventually (select? · (words "(select " ++ s)) (rows, r)) :
    Eventually (operand? · (words "(select " ++ s)) (.subquery rows, r) := by
  have hselect (fuel : Nat) : operand? (fuel + 1) (words "(select " ++ s) =
      (select? fuel (words "(select " ++ s)).bind fun y => some (.subquery y.1, y.2) := rfl
  refine .succ ?_
  simp only [hselect]
  exact h.bind (eventually_some _)

/-- Parentheses only group. -/
theorem operand_group (hselect : word? "select" s = none)
    (h : Eventually (expr? · 0 s) (e, words ")" ++ r)) :
    Eventually (operand? · (words "(" ++ s)) (e, r) := by
  have hbody : words? ["(", "select"] (.text ['('] :: s) = none := by
    show (word? "select" s).bind _ = none
    rw [hselect]
    rfl
  have hopen : word? "(" (.text ['('] :: s) = some s := rfl
  refine .succ ?_
  show Eventually (fun fuel => operand? (fuel + 1) (.text ['('] :: s)) _
  simp only [operand?, hbody, hopen]
  exact h.bind (eventually_some _)

theorem operand_exists {rows : Select} (h : Eventually (select? · s) (rows, words ")" ++ r)) :
    Eventually (operand? · (words "exists (" ++ s)) (.exists rows, r) :=
  .succ (h.bind (eventually_some _))

theorem operand_countAll : Eventually (operand? · (words "COUNT(*)" ++ s)) (.countAll, s) :=
  .succ (eventually_some _)

theorem operand_call {function : SqlFunction} {args : List Expr} (hstar : word? "*" s = none)
    (h : Eventually (items? · s) (args, r)) :
    Eventually (operand? · (words (function.sql ++ "(") ++ s)) (.call function args, r) := by
  refine .succ ?_
  have hcall (fuel : Nat) : operand? (fuel + 1) (words (function.sql ++ "(") ++ s) =
      (items? fuel s).bind fun y => some (.call function y.1, y.2) := by
    cases function with
    | count =>
      have hcount : words? ["COUNT", "(", "*", ")"] (.text "COUNT".toList :: .text ['('] :: s) =
          none := by
        show (word? "*" s).bind _ = none
        rw [hstar]
        rfl
      show operand? (fuel + 1) (.text "COUNT".toList :: .text ['('] :: s) = _
      rw [operand?, hcount]
      rfl
    | _ => rfl
  simp only [hcall]
  exact h.bind (eventually_some _)

theorem operand_cast {type : DataType} (h : Eventually (item? · s) (e, t))
    (ht : (word? "AS" t).bind type? = some (type, words ")" ++ r)) :
    Eventually (operand? · (words "CAST(" ++ s)) (.cast e type, r) := by
  obtain ⟨u, hu, htype⟩ := Option.bind_eq_some_iff.mp ht
  refine .succ (h.bind ?_)
  simp only [Option.bind_eq_bind, hu, Option.bind_some, htype]
  exact eventually_some _

theorem operand_case {branches : List (Expr × Expr)}
    (h : Eventually (branches? · s) (branches, words "\nend" ++ r)) :
    Eventually (operand? · (words "case" ++ s)) (.case branches none, r) :=
  .succ (h.bind (eventually_some _))

theorem operand_case_else {branches : List (Expr × Expr)}
    (h : Eventually (branches? · s) (branches, words "\n\telse " ++ t))
    (he : Eventually (expr? · 0 t) (e, words "\nend" ++ r)) :
    Eventually (operand? · (words "case" ++ s)) (.case branches (some e), r) :=
  .succ (h.bind (he.bind (eventually_some _)))

/-! ## What the levels mean -/

/-- The tokens are read as one operand, whatever follows. -/
def IsOperand (a : List Token) (e : Expr) : Prop :=
  ∀ r, leads (a ++ r) = true ∧ Eventually (operand? · (a ++ r)) (e, r)

theorem IsOperand.expr {a : List Token} (ha : IsOperand a e)
    (hr : Eventually (rest? · least e r) y) : Eventually (expr? · least (a ++ r)) y :=
  expr_of_operand (ha r).1 (ha r).2 hr

section
variable {a b c : List Token} {x z w : Expr} (hx : IsOperand a x) (hz : IsOperand b z)
  (hs : follower? s = none)
include hx hz hs

/-- Of two operators the one that binds tighter is grouped first, and of two on one
level the left one. -/
theorem expr_two_operators (p q : BinaryOp) (hw : IsOperand c w) :
    Eventually (expr? · 0 (a ++ (words (" " ++ p.sql ++ " ") ++
        (b ++ (words (" " ++ q.sql ++ " ") ++ (c ++ s))))))
      (if (Follower.binary q).level ≤ (Follower.binary p).level
        then .binary q (.binary p x z) w else .binary p x (.binary q z w), s) := by
  have hlast {least : Nat} : Eventually (expr? · least (c ++ s)) (w, s) :=
    hw.expr (rest_of_none hs)
  split
  · rename_i hle
    have hlower : (Follower.binary q).level < (Follower.binary p).level + 1 :=
      Nat.lt_succ_of_le hle
    exact hx.expr (rest_binary p (Nat.zero_le _)
      (hz.expr (rest_of_lt (follower_sql q (c ++ s)) hlower))
      (rest_binary q (Nat.zero_le _) hlast (rest_of_none hs)))
  · rename_i hlt
    have hhigher : (Follower.binary p).level + 1 ≤ (Follower.binary q).level :=
      Nat.lt_of_not_le hlt
    exact hx.expr (rest_binary p (Nat.zero_le _)
      (hz.expr (rest_binary q hhigher hlast (rest_of_none hs))) (rest_of_none hs))

/-- What binds tighter than `not` goes to its operand. -/
theorem expr_not_operator (p : BinaryOp) :
    Eventually (expr? · 0 (words "not " ++ (a ++ (words (" " ++ p.sql ++ " ") ++ (b ++ s)))))
      (if notLevel ≤ (Follower.binary p).level
        then .negation (.binary p x z) else .binary p (.negation x) z, s) := by
  have hlast {least : Nat} : Eventually (expr? · least (b ++ s)) (z, s) :=
    hz.expr (rest_of_none hs)
  split
  · rename_i hle
    exact expr_not (Nat.zero_le _) (hx.expr (rest_binary p hle hlast (rest_of_none hs)))
      (rest_of_none hs)
  · rename_i hlt
    exact expr_not (Nat.zero_le _)
      (hx.expr (rest_of_lt (follower_sql p (b ++ s)) (Nat.lt_of_not_le hlt)))
      (rest_binary p (Nat.zero_le _) hlast (rest_of_none hs))

end

/-! ## Types, limits and tables -/

theorem arguments_tokens (a : TypeArgument) (rest : List TypeArgument) (s : List Token) :
    arguments? (DataType.argumentTokens a rest ++ (words ")" ++ s)) = some (a :: rest, s) := by
  induction rest generalizing a with
  | nil =>
    show some ([Parse.argument a.text], s) = _
    rw [Parse.argument_text]
  | cons b rest ih =>
    show (arguments? (DataType.argumentTokens b rest ++ (words ")" ++ s))).map
      (fun y => (Parse.argument a.text :: y.1, y.2)) = _
    rw [ih b, Parse.argument_text]
    rfl

theorem type_tokens (type : DataType) (s : List Token) :
    type? (type.tokens ++ (words ")" ++ s)) = some (type, words ")" ++ s) := by
  obtain ⟨type, arguments⟩ := type
  cases arguments with
  | nil =>
    show (SqlType.all.find? (·.keyword.toList == type.keyword.toList)).bind _ = _
    rw [Parse.find?_keyword]
    rfl
  | cons a rest =>
    have htokens : (DataType.mk type (a :: rest)).tokens ++ (words ")" ++ s) =
        .text type.keyword.toList :: (words "(" ++
          (DataType.argumentTokens a rest ++ (words ")" ++ (words ")" ++ s)))) := by
      simp [DataType.tokens]
    have hopen (s : List Token) : word? "(" (words "(" ++ s) = some s := rfl
    rw [htokens, type?, Parse.find?_keyword]
    simp only [Option.bind_eq_bind, Option.bind_some, hopen, arguments_tokens]
    rfl

theorem limit_tokens (limit : UInt64) (hs : word? "top" s = none) :
    limit? ((Select.limitFragment limit).tokens ++ s) = some (limit, s) := by
  rw [Select.tokens_limitFragment]
  split
  · rename_i hzero
    rw [List.nil_append, limit?, hs, hzero]
  · show (Numeral.value? (Numeral.ofNat limit.toNat)).map _ = _
    rw [Numeral.value?_ofNat, Option.map_some, UInt64.ofNat_toNat]
    rfl

theorem table_tokens (table : Table) (hs : word? "as" s = none) :
    table? (table.fragment.tokens ++ s) = some (⟨table.name, table.aliasName, none⟩, s) := by
  unfold Table.fragment
  cases table.aliasName with
  | none =>
    show table? (.name table.name :: s) = _
    rw [table?, hs]
    rfl
  | some other => rfl

theorem join_tokens (outer : Bool) (s : List Token) :
    join? (words (if outer then " left join " else " join ") ++ s) = some (outer, s) := by
  cases outer <;> rfl

/-! ## Items and lists -/

theorem item_of_expr (h : Eventually (expr? · 0 s) (e, r))
    (hr : Eventually (trailing? · e r) y) : Eventually (item? · s) y :=
  .succ (h.bind hr)

theorem trailing_desc (hr : Eventually (trailing? · (.descending e) s) y) :
    Eventually (trailing? · e (words " desc" ++ s)) y :=
  .succ hr

theorem trailing_as {name : String} (hr : Eventually (trailing? · (.aliased e name) s) y) :
    Eventually (trailing? · e (words " as " ++ .name name :: s)) y :=
  .succ hr

theorem trailing_of_none (hdesc : word? "desc" s = none) (has : word? "as" s = none) :
    Eventually (trailing? · e s) (e, s) := by
  refine .succ ?_
  simp only [trailing?, hdesc, has]
  exact eventually_some _

theorem list_one (h : Eventually (item? · s) (e, r)) (hr : word? "," r = none) :
    Eventually (list? · s) ([e], r) := by
  refine .succ (h.bind ?_)
  simp only [hr]
  exact eventually_some _

theorem list_cons {es : List Expr} (h : Eventually (item? · s) (e, words ", " ++ t))
    (ht : Eventually (list? · t) (es, r)) : Eventually (list? · s) (e :: es, r) :=
  .succ (h.bind (ht.bind (eventually_some _)))

theorem items_nil : Eventually (items? · (words ")" ++ s)) ([], s) :=
  .succ (eventually_some _)

theorem items_of_list {es : List Expr} (hs : leads s = true)
    (h : Eventually (list? · s) (es, words ")" ++ r)) : Eventually (items? · s) (es, r) := by
  have hclose : word? ")" s = none := word?_of_leads hs rfl
  refine .succ ?_
  simp only [items?, hclose]
  exact h.bind (eventually_some _)

/-! ## Branches -/

theorem branches_nil (hs : word? "when" s = none) : Eventually (branches? · s) ([], s) := by
  refine .succ ?_
  simp only [branches?, hs]
  exact eventually_some _

theorem branches_cons {condition value : Expr} {branches : List (Expr × Expr)}
    (hc : Eventually (expr? · 0 s) (condition, words " then " ++ t))
    (hv : Eventually (expr? · 0 t) (value, u))
    (hrest : Eventually (branches? · u) (branches, r)) :
    Eventually (branches? · (words "\n\twhen " ++ s)) ((condition, value) :: branches, r) :=
  .succ (hc.bind (hv.bind (hrest.bind (eventually_some _))))

/-! ## Sources and selects -/

theorem source_table (table : Table) (hs : word? "as" s = none) :
    Eventually (source? · (table.fragment.tokens ++ s))
      (.table ⟨table.name, table.aliasName, none⟩, s) := by
  have hname : ∃ t, table.fragment.tokens ++ s = .name table.name :: t := by
    unfold Table.fragment
    split <;> exact ⟨_, rfl⟩
  obtain ⟨t, ht⟩ := hname
  have hopen : word? "(" (table.fragment.tokens ++ s) = none := by
    rw [ht]
    rfl
  refine .succ ?_
  simp only [source?, hopen, table_tokens table hs]
  exact eventually_some _

theorem source_joined {left right : Source} {condition : Expr} {outer : Bool}
    (hl : Eventually (source? · s)
      (left, words (if outer then " left join " else " join ") ++ t))
    (hr : Eventually (source? · t) (right, words " on " ++ u))
    (hc : Eventually (expr? · 0 u) (condition, words ")" ++ r)) :
    Eventually (source? · (words "(" ++ s)) (.joined left right condition outer, r) := by
  refine .succ (hl.bind ?_)
  simp only [join_tokens, Option.bind_eq_bind, Option.bind_some]
  exact hr.bind (hc.bind (eventually_some _))

theorem columns_star : Eventually (fun fuel => columns? (list? fuel) (words "*" ++ s)) ([], s) :=
  eventually_some _

theorem columns_of_list {es : List Expr} (hs : leads s = true)
    (h : Eventually (list? · s) (es, r)) :
    Eventually (fun fuel => columns? (list? fuel) s) (es, r) := by
  have hstar : word? "*" s = none := word?_of_leads hs rfl
  simp only [columns?, hstar]
  exact h

theorem condition_nil (hs : word? "where" s = none) :
    Eventually (fun fuel => condition? (expr? fuel 0) s) ([], s) := by
  simp only [condition?, hs]
  exact eventually_some _

theorem condition_where (h : Eventually (expr? · 0 s) (e, r)) :
    Eventually (fun fuel => condition? (expr? fuel 0) (words "\nwhere " ++ s)) ([e], r) :=
  h.bind (eventually_some _)

theorem keys_nil {lead : String} (hs : words? [lead, "by"] s = none) :
    Eventually (fun fuel => keys? (list? fuel) lead s) ([], s) := by
  simp only [keys?, hs]
  exact eventually_some _

theorem keys_of_list {lead : String} {es : List Expr} (hs : words? [lead, "by"] s = some t)
    (h : Eventually (list? · t) (es, r)) :
    Eventually (fun fuel => keys? (list? fuel) lead s) (es, r) := by
  simp only [keys?, hs]
  exact h

theorem unions_nil (hs : word? "union" s = none) : Eventually (unions? · s) ([], s) := by
  refine .succ ?_
  simp only [unions?, hs]
  exact eventually_some _

theorem unions_cons {branch : Select} {branches : List Select}
    (h : Eventually (select? · s) (branch, t)) (ht : Eventually (unions? · t) (branches, r)) :
    Eventually (unions? · (words "\nunion " ++ s)) (branch :: branches, r) := by
  have hunion : word? "union" (words "\nunion " ++ s) = some s := rfl
  refine .succ ?_
  simp only [unions?, hunion]
  exact h.bind (ht.bind (eventually_some _))

end Precedence
end BoundSql
