import BoundSql.Proofs.Leaves
import BoundSql.Proofs.Parse.Words
import BoundSql.Proofs.Renaming

/-
Expressions, sources and selects are read back.

Writing forgets the names of tables behind their qualifiers, and what tables
declare.  The rest is read back: `Expr.reads` and the theorems with it say that
each rule of the grammar undoes the writing, if what follows cannot be taken for a
part.  An operand is read first and then what trails it, so the statement about
an expression leaves open what comes of the rest.
-/

namespace BoundSql

open BoundSql.Symbol (ofText)

/-! ## Bare statements -/

/-- What tables declare is forgotten, and of a table that qualifies a column the
qualifier is kept. -/
def Renaming.bare : Renaming :=
  ⟨fun t => ⟨t.name, t.aliasName, none⟩, fun t => Parse.qualifierTable t.qualifier, id, id⟩

theorem Renaming.bare_uniform : Renaming.bare.Uniform where
  name_table _ := rfl
  aliasName_table t := by simp [Renaming.bare]
  qualifier_qualifier _ := rfl

/-! ## How expressions begin -/

namespace Parse

/-- The first characters of expressions that do not begin with a name or a value. -/
def leadChars : List Char :=
  ['(', '1', 'e', 'C', 'M', 'S', 'D', 'c']

/-- Whether the first symbol can begin an expression. -/
def leads : List Symbol → Bool
  | .char c :: _ => leadChars.contains c
  | .name _ :: _ => true
  | .value _ :: _ => true
  | [] => false

/-- No expression begins like a text with another first character. -/
theorem text?_of_leads {s : List Symbol} (h : leads s = true) {text : String} {c : Char}
    {cs : List Char} (ht : text.toList = c :: cs) (hc : leadChars.contains c = false) :
    text? text s = none := by
  unfold text?
  rw [ht]
  cases s with
  | nil => rfl
  | cons x s =>
    cases x with
    | char d =>
      have hne : c ≠ d := by
        intro heq
        subst heq
        rw [leads, hc] at h
        cases h
      rw [after?, if_neg hne]
    | name n => rfl
    | value v => rfl

end Parse

open Parse

theorem Expr.leads_symbols (e : Expr) (s : List Symbol) :
    leads (e.fragment.symbols ++ s) = true := by
  cases e with
  | aliased e name =>
    rw [Expr.fragment, Fragment.symbols_append, List.append_assoc]
    exact e.leads_symbols _
  | isNull e =>
    rw [Expr.fragment, Fragment.symbols_append, List.append_assoc]
    exact e.leads_symbols _
  | descending e =>
    rw [Expr.fragment, Fragment.symbols_append, List.append_assoc]
    exact e.leads_symbols _
  | constant b => cases b <;> rfl
  | call function args => cases function <;> rfl
  | case branches otherwise => cases otherwise <;> rfl
  | _ => rfl
  termination_by structural e

/-- An expression never begins like a select. -/
theorem Expr.text?_select (e : Expr) (s : List Symbol) :
    text? "(select " (e.fragment.symbols ++ s) = none := by
  have hinner {s : List Symbol} (h : leads s = true) :
      text? "(select " (ofText "(" ++ s) = none := by
    have hselect : text? "select " s = none := text?_of_leads h rfl rfl
    exact hselect
  cases e with
  | aliased e name =>
    rw [Expr.fragment, Fragment.symbols_append, List.append_assoc]
    exact e.text?_select _
  | isNull e =>
    rw [Expr.fragment, Fragment.symbols_append, List.append_assoc]
    exact e.text?_select _
  | descending e =>
    rw [Expr.fragment, Fragment.symbols_append, List.append_assoc]
    exact e.text?_select _
  | binary op left right =>
    simp only [Expr.fragment, List.cons_append, Fragment.symbols_text, Fragment.symbols_append,
      List.append_assoc]
    exact hinner (left.leads_symbols _)
  | member e items =>
    simp only [Expr.fragment, List.cons_append, Fragment.symbols_text, Fragment.symbols_append,
      List.append_assoc]
    exact hinner (e.leads_symbols _)
  | memberOf e rows =>
    simp only [Expr.fragment, List.cons_append, Fragment.symbols_text, Fragment.symbols_append,
      List.append_assoc]
    exact hinner (e.leads_symbols _)
  | subquery rows =>
    obtain ⟨columns, source, filters, unions, groupBy, orderBy, limit⟩ := rows
    cases source <;> rfl
  | constant b => cases b <;> rfl
  | call function args => cases function <;> rfl
  | case branches otherwise => cases otherwise <;> rfl
  | _ => rfl
  termination_by structural e

theorem Expr.text?_select_items (items : List Expr) (s : List Symbol) :
    text? "(select " ((Fragment.separated ", " (Expr.fragments items)).symbols ++
      (ofText ")" ++ s)) = none := by
  cases items with
  | nil => rfl
  | cons item rest =>
    cases rest with
    | nil =>
      rw [Expr.fragments, Expr.fragments, Fragment.separated_singleton]
      exact item.text?_select _
    | cons next rest =>
      rw [Expr.fragments, Expr.fragments, Fragment.separated_cons_cons, Fragment.symbols_append,
        List.append_assoc]
      exact item.text?_select _

/-! ## What follows -/

namespace Parse

/-- Nothing here trails an operand. -/
def Stops (s : List Symbol) : Prop :=
  text? " is NULL" s = none ∧ text? " desc" s = none ∧ text? " as " s = none

theorem trailing_of_stops {s : List Symbol} (h : Stops s) (e : Expr) :
    Eventually (fun fuel => trailing? fuel e s) (e, s) := by
  refine .succ ?_
  simp only [trailing?, h.1, h.2.1, h.2.2]
  exact eventually_some _

theorem expr_of_operand {s r : List Symbol} {e : Expr} {y : Expr × List Symbol}
    (ho : Eventually (fun fuel => operand? fuel s) (e, r))
    (ht : Eventually (fun fuel => trailing? fuel e r) y) :
    Eventually (fun fuel => expr? fuel s) y :=
  .succ (ho.bind ht)

/-- What is in parentheses is read as a group. -/
theorem operand_of_group {s r : List Symbol} {e : Expr}
    (h : Eventually (fun fuel => group? fuel s) (e, r)) :
    Eventually (fun fuel => operand? fuel (ofText "(" ++ s)) (e, r) :=
  .succ h

/-- A call is read as one unless it is the count of all rows. -/
theorem operand_of_call (function : SqlFunction) {s r : List Symbol} {args : List Expr}
    (hstar : text? "*)" s = none) (h : Eventually (fun fuel => items? fuel s) (args, r)) :
    Eventually (fun fuel => operand? fuel (ofText (function.sql ++ "(") ++ s))
      (.call function args, r) := by
  refine .succ ?_
  have hcall (fuel : Nat) : operand? (fuel + 1) (ofText (function.sql ++ "(") ++ s) =
      (items? fuel s).bind fun y => some (.call function y.1, y.2) := by
    cases function with
    | count =>
      have hnone : text? "COUNT(*)" (ofText "COUNT(" ++ s) = none := hstar
      show countAll? (ofText "COUNT(" ++ s)
        ((items? fuel s).bind fun y => some (.call .count y.1, y.2)) = _
      rw [countAll?, hnone]
    | _ => rfl
  simp only [hcall]
  exact h.bind (eventually_some _)

/-- Nothing here belongs to the select before. -/
structure EndsSelect (s : List Symbol) : Prop where
  stops : Stops s
  comma : text? ", " s = none
  order : text? "\norder by " s = none

end Parse

/-! ## Reading what is written -/

namespace Parse

theorem stops_operator (op : BinaryOp) (s : List Symbol) :
    Stops (ofText (" " ++ op.sql ++ " ") ++ s) := by
  cases op <;> exact ⟨rfl, rfl, rfl⟩

theorem endsSelect_close (s : List Symbol) : EndsSelect (ofText ")" ++ s) :=
  ⟨⟨rfl, rfl, rfl⟩, rfl, rfl⟩

theorem text?_unions {text : String} (h : ∀ s, text? text (ofText "\nunion " ++ s) = none)
    {s : List Symbol} (hs : text? text s = none) (branches : List Select) :
    text? text ((Select.unionFragment branches).symbols ++ s) = none := by
  cases branches with
  | nil => exact hs
  | cons branch rest =>
    simp only [Select.unionFragment, List.cons_append, Fragment.symbols_text, List.append_assoc]
    exact h _

/-- Nothing in the branches of a union belongs to the select before them. -/
theorem endsSelect_unions (branches : List Select) {s : List Symbol} (hs : EndsSelect s) :
    EndsSelect ((Select.unionFragment branches).symbols ++ s) where
  stops := ⟨text?_unions (fun _ => rfl) hs.stops.1 branches,
    text?_unions (fun _ => rfl) hs.stops.2.1 branches,
    text?_unions (fun _ => rfl) hs.stops.2.2 branches⟩
  comma := text?_unions (fun _ => rfl) hs.comma branches
  order := text?_unions (fun _ => rfl) hs.order branches

section
variable (keys : List Expr) (s : List Symbol)

/-- The grouping and the closing parenthesis come after all branches of a union. -/
theorem text?_group {text : String} (hg : ∀ s, text? text (ofText "\ngroup by " ++ s) = none)
    (he : ∀ s, text? text (ofText "\n)" ++ s) = none) :
    text? text ((Fragment.clause "\ngroup by " ", " (Expr.fragments keys)).symbols ++
      (ofText "\n)" ++ s)) = none :=
  text?_clause hg (he s) _ _

theorem endsSelect_group :
    EndsSelect ((Fragment.clause "\ngroup by " ", " (Expr.fragments keys)).symbols ++
      (ofText "\n)" ++ s)) where
  stops := ⟨text?_group keys s (fun _ => rfl) fun _ => rfl,
    text?_group keys s (fun _ => rfl) fun _ => rfl,
    text?_group keys s (fun _ => rfl) fun _ => rfl⟩
  comma := text?_group keys s (fun _ => rfl) fun _ => rfl
  order := text?_group keys s (fun _ => rfl) fun _ => rfl

end

theorem leads_separated (e : Expr) (rest : List Expr) (sep : String) (s : List Symbol) :
    leads ((Fragment.separated sep (Expr.fragments (e :: rest))).symbols ++ s) = true := by
  cases rest with
  | nil =>
    rw [Expr.fragments, Expr.fragments, Fragment.separated_singleton]
    exact e.leads_symbols s
  | cons next rest =>
    rw [Expr.fragments, Expr.fragments, Fragment.separated_cons_cons, Fragment.symbols_append,
      List.append_assoc]
    exact e.leads_symbols _

/-! ### Lists that may be empty -/

section
variable {es : List Expr} {s : List Symbol}

theorem items_of_list
    (h : es ≠ [] → Eventually
      (fun fuel => list? ", " fuel ((Fragment.separated ", " (Expr.fragments es)).symbols ++
        (ofText ")" ++ s))) (Expr.renameList .bare es, ofText ")" ++ s)) :
    Eventually (fun fuel => items? fuel
      ((Fragment.separated ", " (Expr.fragments es)).symbols ++ (ofText ")" ++ s)))
      (Expr.renameList .bare es, s) := by
  refine .succ ?_
  cases es with
  | nil => exact eventually_some _
  | cons e rest =>
    have hclose (s : List Symbol) : text? ")" ((Fragment.separated ", "
        (Expr.fragments (e :: rest))).symbols ++ s) = none :=
      text?_of_leads (leads_separated e rest ", " s) rfl rfl
    simp only [items?, hclose, Option.bind_eq_bind]
    refine (h (List.cons_ne_nil e rest)).bind ?_
    exact eventually_some _

theorem columns_of_list
    (h : es ≠ [] → Eventually
      (fun fuel => list? ", " fuel ((Fragment.separated ", " (Expr.fragments es)).symbols ++ s))
      (Expr.renameList .bare es, s)) :
    Eventually (fun fuel => columns? (list? ", " fuel)
      ((Select.columnFragment (Expr.fragments es)).symbols ++ s))
      (Expr.renameList .bare es, s) := by
  cases es with
  | nil => exact eventually_some _
  | cons e rest =>
    have hstar : text? "*" ((Fragment.separated ", " (Expr.fragments (e :: rest))).symbols ++ s) =
        none :=
      text?_of_leads (leads_separated e rest ", " s) rfl rfl
    show Eventually (fun fuel => columns? (list? ", " fuel)
      ((Fragment.separated ", " (Expr.fragments (e :: rest))).symbols ++ s)) _
    simp only [columns?, hstar]
    exact h (List.cons_ne_nil e rest)

theorem clause_of_list {lead sep : String} (hs : text? lead s = none)
    (h : es ≠ [] → Eventually
      (fun fuel => list? sep fuel ((Fragment.separated sep (Expr.fragments es)).symbols ++ s))
      (Expr.renameList .bare es, s)) :
    Eventually (fun fuel => clause? lead (list? sep fuel)
      ((Fragment.clause lead sep (Expr.fragments es)).symbols ++ s))
      (Expr.renameList .bare es, s) := by
  cases es with
  | nil =>
    simp only [Expr.fragments, Fragment.clause, Fragment.symbols_nil, List.nil_append, clause?, hs]
    exact eventually_some _
  | cons e rest =>
    show Eventually (fun fuel => clause? lead (list? sep fuel)
      ((ofText lead ++ (Fragment.separated sep (Expr.fragments (e :: rest))).symbols) ++ s)) _
    simp only [clause?, List.append_assoc, text?_ofText]
    exact h (List.cons_ne_nil e rest)

end

end Parse

/-- What a select is written as begins like one. -/
theorem Select.text?_symbols {rows : Select} (h : Leaf.gap ∉ rows.leaves) (s : List Symbol) :
    ∃ r, text? "(select " (rows.fragment.symbols ++ s) = some r := by
  obtain ⟨columns, source, filters, unions, groupBy, orderBy, limit⟩ := rows
  cases source with
  | none => exact absurd List.mem_cons_self h
  | some source =>
    simp only [Select.fragment, List.cons_append, Fragment.symbols_text, List.append_assoc]
    exact ⟨_, text?_ofText _ _⟩

mutual

theorem Expr.reads (e : Expr) (h : Leaf.gap ∉ e.leaves) {s : List Symbol}
    {y : Expr × List Symbol}
    (hy : Eventually (fun fuel => trailing? fuel (e.rename .bare) s) y) :
    Eventually (fun fuel => expr? fuel (e.fragment.symbols ++ s)) y := by
  cases e with
  | literal v => exact expr_of_operand (.succ (eventually_some _)) hy
  | constant b => cases b <;> exact expr_of_operand (.succ (eventually_some _)) hy
  | column c => exact expr_of_operand (.succ (eventually_some _)) hy
  | all t => exact expr_of_operand (.succ (eventually_some _)) hy
  | aliased e name =>
    simp only [Expr.leaves, List.mem_append, not_or] at h
    simp only [Expr.fragment, Fragment.symbols_append, List.append_assoc]
    exact e.reads h.1 (.succ hy)
  | binary op left right =>
    simp only [Expr.leaves, List.mem_append, not_or] at h
    simp only [Expr.fragment, List.cons_append, Fragment.symbols_text, Fragment.symbols_append,
      Fragment.symbols_nil, List.append_nil, List.append_assoc]
    refine expr_of_operand (operand_of_group (.succ ?_)) hy
    have hnot (s : List Symbol) : text? "not " (left.fragment.symbols ++ s) = none :=
      text?_of_leads (left.leads_symbols s) rfl rfl
    simp only [group?, left.text?_select, hnot, Option.bind_eq_bind]
    refine (left.reads h.1 (trailing_of_stops (stops_operator op _) _)).bind ?_
    simp only [text?_in_operator, operator?_ofText, Option.bind_some]
    refine (right.reads h.2 (trailing_of_stops ⟨rfl, rfl, rfl⟩ _)).bind ?_
    exact eventually_some _
  | negation e =>
    have hsplit : ofText "(not " = ofText "(" ++ ofText "not " := rfl
    simp only [Expr.leaves] at h
    simp only [Expr.fragment, List.cons_append, Fragment.symbols_text, Fragment.symbols_append,
      Fragment.symbols_nil, List.append_nil, List.append_assoc, hsplit]
    refine expr_of_operand (operand_of_group (.succ ?_)) hy
    exact (e.reads h (trailing_of_stops ⟨rfl, rfl, rfl⟩ _)).bind (eventually_some _)
  | isNull e =>
    simp only [Expr.leaves] at h
    simp only [Expr.fragment, Fragment.symbols_append, List.append_assoc]
    exact e.reads h (.succ hy)
  | descending e =>
    simp only [Expr.leaves] at h
    simp only [Expr.fragment, Fragment.symbols_append, List.append_assoc]
    exact e.reads h (.succ hy)
  | member e items =>
    simp only [Expr.leaves, List.mem_append, not_or] at h
    have hsplit : ofText "))" = ofText ")" ++ ofText ")" := rfl
    simp only [Expr.fragment, List.cons_append, Fragment.symbols_text, Fragment.symbols_append,
      Fragment.symbols_nil, List.append_nil, List.append_assoc, hsplit]
    refine expr_of_operand (operand_of_group (.succ ?_)) hy
    have hnot (s : List Symbol) : text? "not " (e.fragment.symbols ++ s) = none :=
      text?_of_leads (e.leads_symbols s) rfl rfl
    simp only [group?, e.text?_select, hnot, Option.bind_eq_bind]
    refine (e.reads h.1 (trailing_of_stops ⟨rfl, rfl, rfl⟩ _)).bind ?_
    simp only [text?_ofText, Expr.text?_select_items]
    refine (items_of_list fun hne => Expr.list_reads items h.2 hne (fun _ => ⟨rfl, rfl, rfl⟩)
      ⟨rfl, rfl, rfl⟩ rfl).bind ?_
    exact eventually_some _
  | memberOf e rows =>
    simp only [Expr.leaves, List.mem_append, not_or] at h
    simp only [Expr.fragment, List.cons_append, Fragment.symbols_text, Fragment.symbols_append,
      Fragment.symbols_nil, List.append_nil, List.append_assoc]
    refine expr_of_operand (operand_of_group (.succ ?_)) hy
    have hnot (s : List Symbol) : text? "not " (e.fragment.symbols ++ s) = none :=
      text?_of_leads (e.leads_symbols s) rfl rfl
    obtain ⟨r, hr⟩ := rows.text?_symbols h.2 (ofText "))" ++ s)
    simp only [group?, e.text?_select, hnot, Option.bind_eq_bind]
    refine (e.reads h.1 (trailing_of_stops ⟨rfl, rfl, rfl⟩ _)).bind ?_
    simp only [text?_ofText, hr]
    exact (rows.reads h.2 ⟨⟨rfl, rfl, rfl⟩, rfl, rfl⟩).bind (eventually_some _)
  | subquery rows =>
    simp only [Expr.leaves] at h
    simp only [Expr.fragment, List.cons_append, Fragment.symbols_text, Fragment.symbols_append,
      Fragment.symbols_nil, List.append_nil, List.append_assoc]
    refine expr_of_operand (operand_of_group (.succ ?_)) hy
    obtain ⟨r, hr⟩ := rows.text?_symbols h (ofText ")" ++ s)
    simp only [group?, hr, Option.bind_eq_bind]
    exact (rows.reads h (endsSelect_close s)).bind (eventually_some _)
  | «exists» rows =>
    simp only [Expr.leaves] at h
    simp only [Expr.fragment, List.cons_append, Fragment.symbols_text, Fragment.symbols_append,
      Fragment.symbols_nil, List.append_nil, List.append_assoc]
    refine expr_of_operand (.succ ?_) hy
    exact (rows.reads h (endsSelect_close s)).bind (eventually_some _)
  | call function args =>
    simp only [Expr.leaves] at h
    simp only [Expr.fragment, List.cons_append, Fragment.symbols_text, Fragment.symbols_append,
      Fragment.symbols_nil, List.append_nil, List.append_assoc]
    have hstar : text? "*)" ((Fragment.separated ", " (Expr.fragments args)).symbols ++
        (ofText ")" ++ s)) = none := by
      cases args with
      | nil => rfl
      | cons arg rest => exact text?_of_leads (leads_separated arg rest ", " _) rfl rfl
    refine expr_of_operand (operand_of_call function hstar ?_) hy
    exact items_of_list fun hne => Expr.list_reads args h hne (fun _ => ⟨rfl, rfl, rfl⟩)
      ⟨rfl, rfl, rfl⟩ rfl
  | countAll => exact expr_of_operand (.succ (eventually_some _)) hy
  | cast e type =>
    have hsplit : ofText (" AS " ++ type.sql ++ ")") =
        ofText " AS " ++ (ofText type.sql ++ ofText ")") := by
      rw [ofText_append, ofText_append, List.append_assoc]
    simp only [Expr.leaves] at h
    simp only [Expr.fragment, List.cons_append, Fragment.symbols_text, Fragment.symbols_append,
      Fragment.symbols_nil, List.append_nil, List.append_assoc, hsplit]
    refine expr_of_operand (.succ ?_) hy
    refine (e.reads h (trailing_of_stops ⟨rfl, rfl, rfl⟩ _)).bind ?_
    simp only [text?_ofText, Option.bind_eq_bind, Option.bind_some]
    exact (type?_ofText type s).bind (eventually_some _)
  | case branches otherwise =>
    cases otherwise with
    | none =>
      simp only [Expr.leaves] at h
      simp only [Expr.fragment, List.cons_append, Fragment.symbols_text, Fragment.symbols_append,
        Fragment.symbols_nil, List.append_nil, List.append_assoc]
      refine expr_of_operand (.succ ?_) hy
      exact (Expr.branches_read branches h ⟨rfl, rfl, rfl⟩ rfl).bind (eventually_some _)
    | some e =>
      simp only [Expr.leaves, List.mem_append, not_or] at h
      simp only [Expr.fragment, List.cons_append, Fragment.symbols_text, Fragment.symbols_append,
        Fragment.symbols_nil, List.append_nil, List.append_assoc]
      refine expr_of_operand (.succ ?_) hy
      refine (Expr.branches_read branches h.1 ⟨rfl, rfl, rfl⟩ rfl).bind ?_
      exact (e.reads h.2 (trailing_of_stops ⟨rfl, rfl, rfl⟩ _)).bind (eventually_some _)
  termination_by structural e

theorem Expr.list_reads (es : List Expr) (h : Leaf.gap ∉ Expr.listLeaves es) (hne : es ≠ [])
    {sep : String} (hsep : ∀ s, Stops (ofText sep ++ s)) {s : List Symbol} (hs : Stops s)
    (hend : text? sep s = none) :
    Eventually
      (fun fuel => list? sep fuel ((Fragment.separated sep (Expr.fragments es)).symbols ++ s))
      (Expr.renameList .bare es, s) := by
  cases es with
  | nil => exact absurd rfl hne
  | cons e rest =>
    simp only [Expr.listLeaves, List.mem_append, not_or] at h
    refine .succ ?_
    cases rest with
    | nil =>
      rw [Expr.fragments, Expr.fragments, Fragment.separated_singleton]
      simp only [list?, Option.bind_eq_bind]
      refine (e.reads h.1 (trailing_of_stops hs _)).bind ?_
      simp only [hend]
      exact eventually_some _
    | cons next rest =>
      rw [Expr.fragments, Expr.fragments, Fragment.separated_cons_cons]
      simp only [Fragment.symbols_append, Fragment.symbols_text, List.append_assoc, list?,
        Option.bind_eq_bind]
      refine (e.reads h.1 (trailing_of_stops (hsep _) _)).bind ?_
      simp only [text?_ofText]
      refine (Expr.list_reads (next :: rest) h.2 (List.cons_ne_nil next rest) hsep hs hend).bind ?_
      exact eventually_some _
  termination_by structural es

theorem Expr.branches_read (branches : List (Expr × Expr))
    (h : Leaf.gap ∉ Expr.branchLeaves branches) {s : List Symbol} (hs : Stops s)
    (hend : text? "\n\twhen " s = none) :
    Eventually (fun fuel => branches? fuel ((Expr.branchFragment branches).symbols ++ s))
      (Expr.renameBranches .bare branches, s) := by
  refine .succ ?_
  cases branches with
  | nil =>
    simp only [Expr.branchFragment, Fragment.symbols_nil, List.nil_append, branches?, hend]
    exact eventually_some _
  | cons branch rest =>
    obtain ⟨condition, value⟩ := branch
    simp only [Expr.branchLeaves, List.mem_append, not_or] at h
    have hrest : Stops ((Expr.branchFragment rest).symbols ++ s) := by
      cases rest with
      | nil => exact hs
      | cons branch rest => exact ⟨rfl, rfl, rfl⟩
    simp only [Expr.branchFragment, List.cons_append, Fragment.symbols_text,
      Fragment.symbols_append, List.append_assoc, branches?, text?_ofText, Option.bind_eq_bind]
    refine (condition.reads h.1.1 (trailing_of_stops ⟨rfl, rfl, rfl⟩ _)).bind ?_
    simp only [text?_ofText, Option.bind_some]
    refine (value.reads h.1.2 (trailing_of_stops hrest _)).bind ?_
    exact (Expr.branches_read rest h.2 hs hend).bind (eventually_some _)
  termination_by structural branches

theorem Source.reads (source : Source) (h : Leaf.gap ∉ source.leaves) {s : List Symbol}
    (hs : text? " as " s = none) :
    Eventually (fun fuel => source? fuel (source.fragment.symbols ++ s))
      (source.rename .bare, s) := by
  refine .succ ?_
  cases source with
  | table t =>
    obtain ⟨name, aliasName, declared⟩ := t
    cases aliasName with
    | none =>
      have hname : table? (.name name :: s) = some (qualifierTable name, s) := by
        simp only [table?, name?, hs, Option.bind_eq_bind, Option.bind_some]
        rfl
      show Eventually (fun fuel => source? (fuel + 1) (.name name :: s)) _
      have hopen : text? "(" (.name name :: s) = none := rfl
      simp only [source?, hopen, hname]
      exact eventually_some _
    | some other => exact eventually_some _
  | joined left right condition outer =>
    simp only [Source.leaves, List.mem_append, not_or] at h
    have hjoin (s : List Symbol) :
        join? (ofText (if outer then " left join " else " join ") ++ s) = some (outer, s) := by
      cases outer <;> rfl
    have has (s : List Symbol) :
        text? " as " (ofText (if outer then " left join " else " join ") ++ s) = none := by
      cases outer <;> rfl
    simp only [Source.fragment, List.cons_append, Fragment.symbols_text, Fragment.symbols_append,
      Fragment.symbols_nil, List.append_nil, List.append_assoc, source?, text?_ofText,
      Option.bind_eq_bind]
    refine (left.reads h.1.1 (has _)).bind ?_
    simp only [hjoin, Option.bind_some]
    refine (right.reads h.1.2 rfl).bind ?_
    simp only [text?_ofText, Option.bind_some]
    exact (condition.reads h.2 (trailing_of_stops ⟨rfl, rfl, rfl⟩ _)).bind (eventually_some _)
  termination_by structural source

theorem Select.reads (rows : Select) (h : Leaf.gap ∉ rows.leaves) {s : List Symbol}
    (hs : EndsSelect s) :
    Eventually (fun fuel => select? fuel (rows.fragment.symbols ++ s)) (rows.rename .bare, s) := by
  obtain ⟨columns, source, filters, unions, groupBy, orderBy, limit⟩ := rows
  cases source with
  | none => exact absurd List.mem_cons_self h
  | some source =>
    simp only [Select.leaves, List.mem_append, not_or] at h
    obtain ⟨⟨⟨⟨⟨hcolumns, hsource⟩, hfilters⟩, hunions⟩, hgroupBy⟩, horderBy⟩ := h
    refine .succ ?_
    have hcomma (s : List Symbol) : Stops (ofText ", " ++ s) := ⟨rfl, rfl, rfl⟩
    have hand (s : List Symbol) : Stops (ofText " and " ++ s) := ⟨rfl, rfl, rfl⟩
    -- What follows each clause, up to the end of the select.
    obtain ⟨order, horder⟩ : ∃ order, order =
        (Fragment.clause "\norder by " ", " (Expr.fragments orderBy)).symbols ++ s := ⟨_, rfl⟩
    obtain ⟨group, hgroup⟩ : ∃ group, group =
        (Fragment.clause "\ngroup by " ", " (Expr.fragments groupBy)).symbols ++
          (ofText "\n)" ++ order) := ⟨_, rfl⟩
    obtain ⟨union, hunion⟩ : ∃ union, union =
        (Select.unionFragment unions).symbols ++ group := ⟨_, rfl⟩
    have hgroupEnds : EndsSelect group := by
      rw [hgroup]
      exact endsSelect_group groupBy order
    have hunionEnds : EndsSelect union := by
      rw [hunion]
      exact endsSelect_unions unions hgroupEnds
    have hafter {text : String} (hu : ∀ s, text? text (ofText "\nunion " ++ s) = none)
        (hg : ∀ s, text? text (ofText "\ngroup by " ++ s) = none)
        (he : ∀ s, text? text (ofText "\n)" ++ s) = none) : text? text union = none := by
      rw [hunion, hgroup]
      exact text?_unions hu (text?_group groupBy order hg he) unions
    have htop (s : List Symbol) : text? "top "
        ((Select.columnFragment (Expr.fragments columns)).symbols ++ (ofText "\nfrom " ++ s)) =
          none := by
      cases columns with
      | nil => rfl
      | cons e rest => exact text?_of_leads (leads_separated e rest ", " _) rfl rfl
    simp only [Select.fragment, List.cons_append, Fragment.symbols_text, Fragment.symbols_append,
      List.append_assoc, select?, text?_ofText, Option.bind_eq_bind, Option.bind_some,
      ← horder, ← hgroup, ← hunion, limit?_limitFragment limit (htop _)]
    refine (columns_of_list fun hne => Expr.list_reads columns hcolumns hne hcomma
      ⟨rfl, rfl, rfl⟩ rfl).bind ?_
    simp only [text?_ofText, Option.bind_some]
    have hsourceEnd : text? " as "
        ((Fragment.clause "\nwhere " " and " (Expr.fragments filters)).symbols ++ union) = none :=
      text?_clause (fun _ => rfl) hunionEnds.stops.2.2 _ _
    refine (source.reads hsource hsourceEnd).bind ?_
    refine (clause_of_list (hafter (fun _ => rfl) (fun _ => rfl) fun _ => rfl) fun hne =>
      Expr.list_reads filters hfilters hne hand hunionEnds.stops
        (hafter (fun _ => rfl) (fun _ => rfl) fun _ => rfl)).bind ?_
    rw [hunion]
    have hunionEnd : text? "\nunion " group = none := by
      rw [hgroup]
      exact text?_group groupBy order (fun _ => rfl) fun _ => rfl
    refine (Select.unions_read unions hunions hgroupEnds hunionEnd).bind ?_
    rw [hgroup]
    refine (clause_of_list rfl fun hne => Expr.list_reads groupBy hgroupBy hne hcomma
      ⟨rfl, rfl, rfl⟩ rfl).bind ?_
    simp only [text?_ofText, Option.bind_some]
    rw [horder]
    refine (clause_of_list hs.order fun hne => Expr.list_reads orderBy horderBy hne hcomma
      hs.stops hs.comma).bind ?_
    exact eventually_some _
  termination_by structural rows

theorem Select.unions_read (branches : List Select) (h : Leaf.gap ∉ Select.unionLeaves branches)
    {s : List Symbol} (hs : EndsSelect s) (hend : text? "\nunion " s = none) :
    Eventually (fun fuel => unions? fuel ((Select.unionFragment branches).symbols ++ s))
      (Select.renameList .bare branches, s) := by
  refine .succ ?_
  cases branches with
  | nil =>
    simp only [Select.unionFragment, Fragment.symbols_nil, List.nil_append, unions?, hend]
    exact eventually_some _
  | cons branch rest =>
    simp only [Select.unionLeaves, List.mem_append, not_or] at h
    simp only [Select.unionFragment, List.cons_append, Fragment.symbols_text,
      Fragment.symbols_append, List.append_assoc, unions?, text?_ofText, Option.bind_eq_bind]
    refine (branch.reads h.1 (endsSelect_unions rest hs)).bind ?_
    exact (Select.unions_read rest h.2 hs hend).bind (eventually_some _)
  termination_by structural branches

end

end BoundSql
