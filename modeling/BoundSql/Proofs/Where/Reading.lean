import BoundSql.Proofs.Leaves
import BoundSql.Proofs.Where.Rules
import BoundSql.Proofs.Where.Sort

/-
Well-sorted expressions are read as they were meant.

What an expression can be followed by depends on its sort.  A scalar is a single
operand, so it is read whole before anything.  A predicate may be a test or a
comparison without parentheses, which arithmetic after it would take apart and
which cannot be the operand of anything tighter than `not`.  Items are read only
where nothing goes on with them.  `Expr.isRead` says so for every expression.
-/

namespace BoundSql
namespace Precedence

open BoundSql.Parse (Eventually eventually_some)
open BoundSql.Token (words)

/-- No arithmetic follows. -/
def Loose (s : List Token) : Prop :=
  ∀ f r, follower? s = some (f, r) → f.level ≤ 4

theorem loose_of_none {s : List Token} (h : follower? s = none) : Loose s := by
  intro f r hs
  rw [h] at hs
  cases hs

theorem loose_sql {op : BinaryOp} (h : op.operandSort = .predicate) (s : List Token) :
    Loose (words (" " ++ op.sql ++ " ") ++ s) := by
  intro f r hs
  rw [follower_sql] at hs
  obtain ⟨rfl, -⟩ := Prod.mk.inj (Option.some.inj hs)
  cases op <;> first | decide | cases h

theorem rest_of_loose {s : List Token} (h : Loose s) (e : Expr) :
    Eventually (rest? · 5 e s) (e, s) := by
  cases hs : follower? s with
  | none => exact rest_of_none hs
  | some y => exact rest_of_lt hs (Nat.lt_succ_of_le (h y.1 y.2 hs))

/-! ## Words that end lists and selects -/

def stopWords : List (List Char) :=
  [")", "from", "union", "group"].map String.toList

/-- Nothing here belongs to the list or the select before. -/
def stops : List Token → Bool
  | .text cs :: _ => stopWords.contains cs
  | _ => false

section
variable {s : List Token} (h : stops s = true)
include h

theorem exists_of_stops : ∃ w ∈ stopWords, ∃ r, s = .text w :: r := by
  cases s with
  | nil => cases h
  | cons x r =>
    cases x with
    | text cs => exact ⟨cs, List.contains_iff_mem.mp h, r, rfl⟩
    | name n => cases h
    | value v => cases h

theorem follower?_of_stops : follower? s = none := by
  obtain ⟨w, hw, r, rfl⟩ := exists_of_stops h
  simp only [stopWords, List.map_cons, List.map_nil, List.mem_cons, List.not_mem_nil, or_false]
    at hw
  rcases hw with rfl | rfl | rfl | rfl <;> rfl

theorem word?_of_stops {w : String} (hw : stopWords.contains w.toList = false) :
    word? w s = none := by
  obtain ⟨cs, hcs, r, rfl⟩ := exists_of_stops h
  have hne : cs ≠ w.toList := by
    rintro rfl
    rw [List.contains_iff_mem.mpr hcs] at hw
    cases hw
  rw [word?, if_neg hne]

theorem trailing_of_stops (e : Expr) : Eventually (trailing? · e s) (e, s) :=
  trailing_of_none (word?_of_stops h rfl) (word?_of_stops h rfl)

end

end Precedence

open Precedence
open BoundSql.Parse (Eventually eventually_some)
open BoundSql.Token (words)

/-! ## How expressions begin -/

theorem Expr.leads_tokens (e : Expr) (s : List Token) :
    leads (e.fragment.tokens ++ s) = true := by
  cases e with
  | aliased e name =>
    rw [Expr.fragment, Fragment.tokens_append, List.append_assoc]
    exact e.leads_tokens _
  | isNull e =>
    rw [Expr.fragment, Fragment.tokens_append, List.append_assoc]
    exact e.leads_tokens _
  | descending e =>
    rw [Expr.fragment, Fragment.tokens_append, List.append_assoc]
    exact e.leads_tokens _
  | constant b => cases b <;> rfl
  | call function args => cases function <;> rfl
  | case branches otherwise => cases otherwise <;> rfl
  | _ => rfl
  termination_by structural e

/-- No scalar begins like a select, since sub-queries have parentheses of their own. -/
theorem Expr.words?_select {e : Expr} (h : e.sort = .scalar) (s : List Token) :
    words? ["(", "select"] (e.fragment.tokens ++ s) = none := by
  cases e with
  | binary op left right =>
    have hselect (s : List Token) : word? "select" (left.fragment.tokens ++ s) = none :=
      word?_of_leads (left.leads_tokens s) rfl
    simp only [Expr.fragment, List.cons_append, Fragment.tokens_text, Fragment.tokens_append,
      List.append_assoc]
    show (word? "select" (left.fragment.tokens ++ _)).bind _ = none
    rw [hselect]
    rfl
  | subquery rows =>
    obtain ⟨columns, source, filters, unions, groupBy, orderBy, limit⟩ := rows
    cases source <;> rfl
  | call function args => cases function <;> rfl
  | case branches otherwise => cases otherwise <;> rfl
  | literal v => rfl
  | column c => rfl
  | countAll => rfl
  | cast e type => rfl
  | _ => cases h

/-! ## What it is for an expression to be read -/

def Expr.IsRead (e : Expr) : Prop :=
  match e.sort with
  | .scalar => ∀ s, Eventually (operand? · (e.fragment.tokens ++ s)) (e.asRead, s)
  | .predicate => ∀ least s y, least ≤ 4 → Loose s → Eventually (rest? · least e.asRead s) y →
      Eventually (expr? · least (e.fragment.tokens ++ s)) y
  | .item => ∀ s y, follower? s = none → Eventually (trailing? · e.asRead s) y →
      Eventually (item? · (e.fragment.tokens ++ s)) y

namespace Expr.IsRead

variable {e : Expr} {least : Nat} {s : List Token} {y : Expr × List Token}

/-- An expression that is a single operand is read, whatever its sort. -/
theorem of_operand (h : ∀ s, Eventually (operand? · (e.fragment.tokens ++ s)) (e.asRead, s)) :
    e.IsRead := by
  unfold Expr.IsRead
  cases e.sort with
  | scalar => exact h
  | predicate => exact fun least s y _ _ hr => expr_of_operand (e.leads_tokens s) (h s) hr
  | item => exact fun s y hs hr =>
      item_of_expr (expr_of_operand (e.leads_tokens s) (h s) (rest_of_none hs)) hr

/-- A scalar is read whole, whatever follows. -/
theorem scalar (h : e.IsRead) (hsort : e.sort = .scalar)
    (hr : Eventually (rest? · least e.asRead s) y) :
    Eventually (expr? · least (e.fragment.tokens ++ s)) y := by
  unfold Expr.IsRead at h
  rw [hsort] at h
  exact expr_of_operand (e.leads_tokens s) (h s) hr

theorem whole (h : e.IsRead) (hsort : e.sort.isWhole = true) (hleast : least ≤ 4) (hs : Loose s)
    (hr : Eventually (rest? · least e.asRead s) y) :
    Eventually (expr? · least (e.fragment.tokens ++ s)) y := by
  cases hcase : e.sort with
  | scalar => exact h.scalar hcase hr
  | predicate =>
    unfold Expr.IsRead at h
    rw [hcase] at h
    exact h least s y hleast hs hr
  | item =>
    rw [hcase] at hsort
    cases hsort

/-- Where nothing follows, all of the expression is read. -/
theorem all (h : e.IsRead) (hsort : e.sort.isWhole = true) (hs : follower? s = none) :
    Eventually (expr? · 0 (e.fragment.tokens ++ s)) (e.asRead, s) :=
  h.whole hsort (Nat.zero_le 4) (loose_of_none hs) (rest_of_none hs)

theorem item (h : e.IsRead) (hs : follower? s = none)
    (hr : Eventually (trailing? · e.asRead s) y) :
    Eventually (item? · (e.fragment.tokens ++ s)) y := by
  cases hcase : e.sort with
  | item =>
    unfold Expr.IsRead at h
    rw [hcase] at h
    exact h s y hs hr
  | _ => exact item_of_expr (h.all (by rw [hcase]; rfl) hs) hr

/-- The left operand goes up to its operator. -/
theorem left {op : BinaryOp} (h : e.IsRead) (hsort : e.sort = op.operandSort)
    (hr : Eventually (rest? · 0 e.asRead (words (" " ++ op.sql ++ " ") ++ s)) y) :
    Eventually (expr? · 0 (e.fragment.tokens ++ (words (" " ++ op.sql ++ " ") ++ s))) y := by
  cases hop : op.operandSort with
  | scalar => exact h.scalar (hsort.trans hop) hr
  | predicate =>
    exact h.whole (by rw [hsort, hop]; rfl) (Nat.zero_le 4) (loose_sql hop s) hr
  | item => cases op <;> cases hop

/-- The right operand goes up to the closing parenthesis. -/
theorem right {op : BinaryOp} (h : e.IsRead) (hsort : e.sort = op.operandSort) :
    Eventually (expr? · ((Follower.binary op).level + 1) (e.fragment.tokens ++ (words ")" ++ s)))
      (e.asRead, words ")" ++ s) := by
  have hs : follower? (words ")" ++ s) = none := rfl
  cases hop : op.operandSort with
  | scalar => exact h.scalar (hsort.trans hop) (rest_of_none hs)
  | predicate =>
    have hlevel : (Follower.binary op).level + 1 ≤ 4 := by
      cases op <;> first | decide | cases hop
    exact h.whole (by rw [hsort, hop]; rfl) hlevel (loose_of_none hs) (rest_of_none hs)
  | item => cases op <;> cases hop

end Expr.IsRead

/-! ## Lists of expressions that are read -/

section
variable {e : Expr} {es : List Expr} {s : List Token}

theorem Expr.leads_separated (e : Expr) (rest : List Expr) (sep : String) (s : List Token) :
    leads ((Fragment.separated sep (Expr.fragments (e :: rest))).tokens ++ s) = true := by
  cases rest with
  | nil =>
    rw [Expr.fragments, Expr.fragments, Fragment.separated_singleton]
    exact e.leads_tokens s
  | cons next rest =>
    rw [Expr.fragments, Expr.fragments, Fragment.separated_cons_cons, Fragment.tokens_append,
      List.append_assoc]
    exact e.leads_tokens _

theorem Expr.read_list (h : ∀ f ∈ e :: es, f.IsRead) (hs : stops s = true) :
    Eventually (list? · ((Fragment.separated ", " (Expr.fragments (e :: es))).tokens ++ s))
      (Expr.allAsRead (e :: es), s) := by
  induction es generalizing e with
  | nil =>
    have he := h e List.mem_cons_self
    rw [Expr.fragments, Expr.fragments, Fragment.separated_singleton]
    exact list_one (he.item (follower?_of_stops hs) (trailing_of_stops hs _))
      (word?_of_stops hs rfl)
  | cons next es ih =>
    have he := h e List.mem_cons_self
    have hrest := ih fun f hf => h f (List.mem_cons_of_mem e hf)
    rw [Expr.fragments, Expr.fragments, Fragment.separated_cons_cons, Fragment.tokens_append,
      Fragment.tokens_text, List.append_assoc, List.append_assoc]
    exact list_cons (he.item rfl (trailing_of_none rfl rfl)) hrest

theorem Expr.read_items (h : ∀ f ∈ es, f.IsRead) :
    Eventually (items? · ((Fragment.separated ", " (Expr.fragments es)).tokens ++
      (words ")" ++ s))) (Expr.allAsRead es, s) := by
  cases es with
  | nil => exact items_nil
  | cons e rest =>
    exact items_of_list (Expr.leads_separated e rest ", " _) (Expr.read_list h rfl)

/-- Expressions, each after an `and`. -/
def Expr.andTokens (es : List Expr) : List Token :=
  es.flatMap fun e => words " and " ++ e.fragment.tokens

theorem Expr.tokens_separated_and (e : Expr) (es : List Expr) :
    (Fragment.separated " and " (Expr.fragments (e :: es))).tokens =
      e.fragment.tokens ++ Expr.andTokens es := by
  rw [Expr.fragments_eq_map, List.map_cons]
  induction es generalizing e with
  | nil => simp [Expr.andTokens, Fragment.separated_singleton]
  | cons next es ih =>
    rw [List.map_cons, Fragment.separated_cons_cons, Fragment.tokens_append, Fragment.tokens_text,
      ih next]
    simp [Expr.andTokens]

/-- What comes after an `and` goes on with nothing that binds tighter. -/
theorem Expr.loose_and (hs : follower? s = none) (es : List Expr) :
    Loose (Expr.andTokens es ++ s) ∧
      ∀ e, Eventually (rest? · 3 e (Expr.andTokens es ++ s)) (e, Expr.andTokens es ++ s) := by
  cases es with
  | nil => exact ⟨loose_of_none hs, fun _ => rest_of_none hs⟩
  | cons f rest =>
    have hand : follower? (Expr.andTokens (f :: rest) ++ s) =
        some (.binary .and, f.fragment.tokens ++ Expr.andTokens rest ++ s) := rfl
    refine ⟨fun g r hg => ?_, fun _ => rest_of_lt hand (by decide)⟩
    rw [hand] at hg
    obtain ⟨rfl, -⟩ := Prod.mk.inj (Option.some.inj hg)
    decide

/-- Expressions between `and` are read as one conjunction, which begins with what was
read before. -/
theorem Expr.read_and (h : ∀ f ∈ es, f.IsRead) (hsort : ∀ f ∈ es, f.sort.isWhole = true)
    (hs : follower? s = none) (before : Expr) :
    Eventually (rest? · 0 before (Expr.andTokens es ++ s))
      ((Expr.allAsRead es).foldl Expr.and before, s) := by
  induction es generalizing before with
  | nil => exact rest_of_none hs
  | cons f rest ih =>
    have hf := h f List.mem_cons_self
    have hrest := ih (fun g hg => h g (List.mem_cons_of_mem f hg))
      (fun g hg => hsort g (List.mem_cons_of_mem f hg)) (before.and f.asRead)
    obtain ⟨hloose, hstop⟩ := Expr.loose_and hs rest
    rw [Expr.andTokens, List.flatMap_cons, List.append_assoc, List.append_assoc]
    exact rest_binary .and (Nat.zero_le _)
      (hf.whole (hsort f List.mem_cons_self) (by decide) hloose (hstop _)) hrest

/-- The filters of a statement are read as their conjunction. -/
theorem Expr.read_conjunction (h : ∀ f ∈ e :: es, f.IsRead)
    (hsort : ∀ f ∈ e :: es, f.sort.isWhole = true) (hs : follower? s = none) :
    Eventually (expr? · 0 ((Fragment.separated " and " (Expr.fragments (e :: es))).tokens ++ s))
      ((Expr.allAsRead es).foldl Expr.and e.asRead, s) := by
  rw [Expr.tokens_separated_and, List.append_assoc]
  refine (h e List.mem_cons_self).whole (hsort e List.mem_cons_self) (by decide)
    (Expr.loose_and hs es).1 ?_
  exact Expr.read_and (fun f hf => h f (List.mem_cons_of_mem e hf))
    (fun f hf => hsort f (List.mem_cons_of_mem e hf)) hs e.asRead

/-! ## Clauses -/

theorem Expr.read_columns (h : ∀ f ∈ es, f.IsRead) (hs : stops s = true) :
    Eventually (fun fuel => columns? (list? fuel)
      ((Select.columnFragment (Expr.fragments es)).tokens ++ s)) (Expr.allAsRead es, s) := by
  cases es with
  | nil => exact columns_star
  | cons e rest =>
    exact columns_of_list (Expr.leads_separated e rest ", " s) (Expr.read_list h hs)

theorem Expr.read_where (h : ∀ f ∈ es, f.IsRead) (hsort : ∀ f ∈ es, f.sort.isWhole = true)
    (hs : follower? s = none) (hwhere : word? "where" s = none) :
    Eventually (fun fuel => condition? (expr? fuel 0)
      ((Fragment.clause "\nwhere " " and " (Expr.fragments es)).tokens ++ s))
      (Expr.conjoined (Expr.allAsRead es), s) := by
  cases es with
  | nil => exact condition_nil hwhere
  | cons e rest =>
    show Eventually (fun fuel => condition? (expr? fuel 0)
      ((words "\nwhere " ++
        (Fragment.separated " and " (Expr.fragments (e :: rest))).tokens) ++ s)) _
    rw [List.append_assoc]
    exact condition_where (Expr.read_conjunction h hsort hs)

theorem Expr.read_keys {lead text : String}
    (hlead : ∀ r, words? [lead, "by"] (words text ++ r) = some r) (h : ∀ f ∈ es, f.IsRead)
    (hs : stops s = true) (hnone : words? [lead, "by"] s = none) :
    Eventually (fun fuel => keys? (list? fuel) lead
      ((Fragment.clause text ", " (Expr.fragments es)).tokens ++ s)) (Expr.allAsRead es, s) := by
  cases es with
  | nil => exact keys_nil hnone
  | cons e rest =>
    show Eventually (fun fuel => keys? (list? fuel) lead
      ((words text ++ (Fragment.separated ", " (Expr.fragments (e :: rest))).tokens) ++ s)) _
    rw [List.append_assoc]
    exact keys_of_list (hlead _) (Expr.read_list h hs)

end

end BoundSql
