import BoundSql.Proofs.Build
import BoundSql.Proofs.Construction
import BoundSql.Proofs.Parse.RoundTrip

/-
Statements are told from what they are built into.

Writing forgets what tables declare, the root of a query, the table behind the
qualifier of a column, the tables of the columns that are set and the alias of a
table that rows are inserted into.  `Statement.bare` forgets this and nothing
else: statements have the same text and values exactly if they are the same bare
statement.  For one direction a bare statement is written like the statement it
comes from; for the other the grammar reads it back from the symbols.
-/

namespace BoundSql

open BoundSql.Symbol (ofText)
open Parse

/-! ## Bare statements -/

def Assignment.bare (a : Assignment) : Assignment :=
  ⟨target a.column.name, a.value.rename .bare⟩

def Insert.bare (i : Insert) : Insert :=
  ⟨qualifierTable i.table.name, i.assignments.map Assignment.bare⟩

def Update.bare (u : Update) : Update :=
  ⟨Renaming.bare.table u.table, u.assignments.map Assignment.bare,
    Expr.renameList .bare u.filters⟩

def Delete.bare (d : Delete) : Delete :=
  ⟨Renaming.bare.table d.table, Expr.renameList .bare d.filters⟩

/-- The statement without what is not written.  Joins that wait for a source are
kept, although a query that is built has none. -/
def Statement.bare : Statement → Statement
  | select q => .select { q with select := q.select.rename .bare, root := none }
  | insert i => .insert i.bare
  | update u => .update u.bare
  | delete d => .delete d.bare

/-! ## A bare statement is written like the statement -/

theorem Fragment.rename_bare (f : Fragment) : f.rename .bare = f := by
  have hpiece : Piece.rename .bare = id := by
    funext piece
    cases piece <;> rfl
  rw [Fragment.rename, hpiece, List.map_id]

theorem Expr.fragment_bare (e : Expr) : (e.rename .bare).fragment = e.fragment := by
  rw [e.fragment_rename Renaming.bare_uniform, Fragment.rename_bare]

theorem Expr.whereFragment_bare (filters : List Expr) :
    Expr.whereFragment (Expr.renameList .bare filters) = Expr.whereFragment filters := by
  rw [Expr.whereFragment_rename Renaming.bare_uniform, Fragment.rename_bare]

theorem Insert.fragment_bare (i : Insert) : i.bare.fragment = i.fragment := by
  unfold Insert.fragment
  rw [Insert.bare, List.isEmpty_map]
  simp only [List.map_map, Function.comp_def, Assignment.bare, Expr.fragment_bare]
  rfl

theorem Update.fragment_bare (u : Update) : u.bare.fragment = u.fragment := by
  unfold Update.fragment
  rw [Update.bare, List.isEmpty_map]
  simp only [List.map_map, Function.comp_def, Assignment.bare, Expr.fragment_bare,
    Expr.whereFragment_bare]
  rfl

theorem Delete.fragment_bare (d : Delete) : d.bare.fragment = d.fragment := by
  unfold Delete.fragment
  rw [Delete.bare]
  simp only [Expr.whereFragment_bare]
  rfl

theorem Statement.fragment_bare (s : Statement) : s.bare.fragment = s.fragment := by
  cases s with
  | select q =>
    show (q.select.rename .bare).fragment = q.select.fragment
    rw [q.select.fragment_rename Renaming.bare_uniform, Fragment.rename_bare]
  | insert i => exact i.fragment_bare
  | update u => exact u.fragment_bare
  | delete d => exact d.fragment_bare

/-! ## Lists of columns and of assignments -/

namespace Parse

/-- A list is read back if its items are, wherever a comma or the end follows. -/
theorem listOf_reads {α β : Type} {item? : Nat → List Symbol → Option (α × List Symbol)}
    {write : β → Fragment} {back : β → α} {bs : List β} (hne : bs ≠ [])
    (hitem : ∀ b ∈ bs, ∀ s, Stops s →
      Eventually (fun fuel => item? fuel ((write b).symbols ++ s)) (back b, s))
    {s : List Symbol} (hs : Stops s) (hend : text? ", " s = none) :
    Eventually (fun fuel => listOf? item? fuel
      ((Fragment.separated ", " (bs.map write)).symbols ++ s)) (bs.map back, s) := by
  induction bs with
  | nil => exact absurd rfl hne
  | cons b rest ih =>
    have hfirst := hitem b List.mem_cons_self
    have hrest := fun c hc => hitem c (List.mem_cons_of_mem b hc)
    refine .succ ?_
    cases rest with
    | nil =>
      rw [List.map_cons, List.map_nil, Fragment.separated_singleton]
      simp only [listOf?, Option.bind_eq_bind]
      refine (hfirst s hs).bind ?_
      simp only [hend]
      exact eventually_some _
    | cons next rest =>
      rw [List.map_cons, List.map_cons, Fragment.separated_cons_cons]
      simp only [Fragment.symbols_append, Fragment.symbols_text, List.append_assoc, listOf?,
        Option.bind_eq_bind]
      refine (hfirst _ ⟨rfl, rfl, rfl⟩).bind ?_
      simp only [text?_ofText]
      refine (ih (List.cons_ne_nil next rest) hrest).bind ?_
      exact eventually_some _

end Parse

theorem Assignment.reads (a : Assignment) (h : Leaf.gap ∉ a.value.leaves) {s : List Symbol}
    (hs : Stops s) :
    Eventually (fun fuel => assignment? fuel
      (Fragment.symbols (.name a.column.name :: .text " = " :: a.value.fragment) ++ s))
      (a.bare, s) := by
  simp only [Fragment.symbols_name, Fragment.symbols_text, List.cons_append, List.append_assoc,
    assignment?, name?, text?_ofText, Option.bind_eq_bind, Option.bind_some]
  exact (a.value.reads h (trailing_of_stops hs _)).bind (eventually_some _)

/-! ## Statements are read back -/

theorem Expr.where_reads (filters : List Expr) (h : Leaf.gap ∉ Expr.listLeaves filters) :
    Eventually (fun fuel => clause? "\nwhere " (list? " and " fuel)
      (Expr.whereFragment filters).symbols) (Expr.renameList .bare filters, []) := by
  have hlist : Eventually (fun fuel => clause? "\nwhere " (list? " and " fuel)
      ((Fragment.clause "\nwhere " " and " (Expr.fragments filters)).symbols ++ []))
      (Expr.renameList .bare filters, []) :=
    clause_of_list rfl fun hne =>
      Expr.list_reads filters h hne (fun _ => ⟨rfl, rfl, rfl⟩) ⟨rfl, rfl, rfl⟩ rfl
  rw [List.append_nil, Expr.fragments_eq_map] at hlist
  exact hlist

theorem Expr.text?_where {text : String} (h : ∀ s, text? text (ofText "\nwhere " ++ s) = none)
    (hend : text? text [] = none) (filters : List Expr) :
    text? text (Expr.whereFragment filters).symbols = none := by
  have hclause := text?_clause h hend " and " (filters.map Expr.fragment)
  rw [List.append_nil] at hclause
  exact hclause

theorem Insert.reads {i : Insert} (hi : i.assignments ≠ []) (h : Leaf.gap ∉ i.leaves) :
    Eventually (fun fuel => statement? fuel i.fragment.symbols) (.insert i.bare) := by
  have hcolumns {s : List Symbol} (hs : Stops s) (hend : text? ", " s = none) :
      Eventually (fun fuel => listOf? (fun _ => name?) fuel ((Fragment.separated ", "
        (i.assignments.map fun a => [.name a.column.name])).symbols ++ s))
        (i.assignments.map fun a => a.column.name, s) :=
    listOf_reads hi (fun a _ s _ => eventually_some _) hs hend
  have hvalues : Leaf.gap ∉ Expr.listLeaves (i.assignments.map (·.value)) := by
    rw [Expr.listLeaves_eq_flatMap, List.flatMap_map]
    exact fun hgap => h (List.mem_append_right _ hgap)
  have hfragments : i.assignments.map (fun a => a.value.fragment) =
      Expr.fragments (i.assignments.map (·.value)) := by
    rw [Expr.fragments_eq_map, List.map_map]
    rfl
  have hbare : (i.assignments.map fun a => a.column.name).zipWith
      (fun c v => (⟨target c, v⟩ : Assignment))
      (Expr.renameList .bare (i.assignments.map (·.value))) =
        i.assignments.map Assignment.bare := by
    rw [Expr.renameList_eq_map, List.map_map, List.zipWith_map, List.zipWith_self]
    rfl
  rw [Insert.fragment, if_neg (by simpa using hi), hfragments]
  simp only [List.cons_append, Fragment.symbols_text, Fragment.symbols_name,
    Fragment.symbols_append, List.append_assoc, statement?, text?_ofText, insert?, name?,
    Option.bind_eq_bind, Option.bind_some]
  refine (hcolumns ⟨rfl, rfl, rfl⟩ rfl).bind ?_
  simp only [text?_ofText, Option.bind_some]
  refine (Expr.list_reads _ hvalues (by simpa using hi) (fun _ => ⟨rfl, rfl, rfl⟩)
    ⟨rfl, rfl, rfl⟩ rfl).bind ?_
  rw [hbare]
  exact eventually_some _

theorem Update.reads {u : Update} (hu : u.assignments ≠ []) (h : Leaf.gap ∉ u.leaves) :
    Eventually (fun fuel => statement? fuel u.fragment.symbols) (.update u.bare) := by
  have hassignments (a : Assignment) (ha : a ∈ u.assignments) : Leaf.gap ∉ a.value.leaves := by
    intro hgap
    refine h (List.mem_append_left _ (List.mem_append_left _ (List.mem_cons_of_mem _ ?_)))
    exact List.mem_flatMap.mpr ⟨a, ha, List.mem_cons_of_mem _ hgap⟩
  have hfilters : Leaf.gap ∉ Expr.listLeaves u.filters :=
    fun hgap => h (List.mem_append_right _ hgap)
  have hset {s : List Symbol} (hs : Stops s) (hend : text? ", " s = none) :=
    listOf_reads hu (fun a ha s hs => a.reads (hassignments a ha) hs) hs hend
  obtain ⟨⟨name, aliasName, declared⟩, assignments, filters⟩ := u
  rw [Update.fragment, if_neg (by simpa using hu)]
  simp only [List.cons_append, Fragment.symbols_text, Fragment.symbols_name,
    Fragment.symbols_append, List.append_assoc]
  have hinsert (s : List Symbol) : text? "insert into " (ofText "update " ++ s) = none := rfl
  simp only [statement?, hinsert, text?_ofText, update?, name?, Option.bind_eq_bind,
    Option.bind_some]
  cases aliasName with
  | none =>
    have hfrom : text? "\nfrom " (Expr.whereFragment filters).symbols = none :=
      Expr.text?_where (fun _ => rfl) rfl filters
    refine (hset ⟨Expr.text?_where (fun _ => rfl) rfl filters,
      Expr.text?_where (fun _ => rfl) rfl filters, Expr.text?_where (fun _ => rfl) rfl filters⟩
      (Expr.text?_where (fun _ => rfl) rfl filters)).bind ?_
    simp only [hfrom]
    exact (Expr.where_reads filters hfilters).bind (eventually_some _)
  | some other =>
    refine (hset ⟨rfl, rfl, rfl⟩ rfl).bind ?_
    exact (Expr.where_reads filters hfilters).bind (eventually_some _)

theorem Delete.reads {d : Delete} (h : Leaf.gap ∉ d.leaves) :
    Eventually (fun fuel => statement? fuel d.fragment.symbols) (.delete d.bare) := by
  have hfilters := Expr.where_reads d.filters fun hgap => h (List.mem_append_right _ hgap)
  obtain ⟨⟨name, aliasName, declared⟩, filters⟩ := d
  cases aliasName with
  | none => exact hfilters.bind (eventually_some _)
  | some other => exact hfilters.bind (eventually_some _)

theorem Select.statement_reads (rows : Select) (h : Leaf.gap ∉ rows.leaves) :
    Eventually (fun fuel => statement? fuel rows.fragment.symbols)
      (.select { select := rows.rename .bare }) := by
  have hselect := rows.reads h (s := []) ⟨⟨rfl, rfl, rfl⟩, rfl, rfl⟩
  rw [List.append_nil] at hselect
  obtain ⟨columns, source, filters, unions, groupBy, orderBy, limit⟩ := rows
  cases source with
  | none => exact absurd List.mem_cons_self h
  | some source => exact hselect.bind (eventually_some _)

/-! ## Built statements -/

theorem Query.isSome_source_of_no_fault {q : Query} (h : q.fragment.fault? = none) :
    q.source?.isSome := by
  obtain ⟨⟨columns, source, filters, unions, groupBy, orderBy, limit⟩, root, waiting⟩ := q
  cases source with
  | none => cases h
  | some source => rfl

namespace Statement

/-- In a query that can be written no join is waiting. -/
theorem waiting_of_made {q : Query} (hq : (select q).Made)
    (h : (select q).fragment.fault? = none) : q.waiting = [] := by
  obtain ⟨clauses, rfl⟩ := hq
  exact (Query.settled_ofClauses clauses (Query.isSome_source_of_no_fault h)).2

/-- A statement that can be written is read back. -/
theorem reads {s : Statement} (hs : s.Made) (h : s.fragment.fault? = none) :
    Eventually (fun fuel => statement? fuel s.symbols) s.bare := by
  have hgap : Leaf.gap ∉ s.leaves := by
    rw [← leaves_fragment h]
    exact Fragment.gap_not_mem h
  cases s with
  | select q =>
    have hwaiting := waiting_of_made hs h
    obtain ⟨rows, root, waiting⟩ := q
    subst hwaiting
    exact rows.statement_reads hgap
  | insert i =>
    refine Insert.reads (fun hi => ?_) hgap
    simp [fragment, Insert.fragment, hi, Fragment.fault?] at h
  | update u =>
    refine Update.reads (fun hu => ?_) hgap
    simp [fragment, Update.fragment, hu, Fragment.fault?] at h
  | delete d => exact Delete.reads hgap

/-- Statements that are built into the same text with the same values are the same
but for what is not written. -/
theorem built_alike_iff_bare_eq {s t : Statement} {b c : Built} (hs : s.Made) (ht : t.Made)
    (hb : s.build = .ok b) (hc : t.build = .ok c) :
    b.sql = c.sql ∧ b.params.values = c.params.values ↔ s.bare = t.bare := by
  have hfs := fault?_of_build hb
  have hft := fault?_of_build hc
  constructor
  · intro h
    obtain ⟨hsql, hvalues⟩ := h
    have hspell : Symbol.spell 0 s.symbols = Symbol.spell 0 t.symbols := by
      rw [← toList_sql_of_build hb, ← toList_sql_of_build hc, hsql]
    have hliterals : Symbol.values s.symbols = Symbol.values t.symbols := by
      rw [values_symbols hfs, values_symbols hft, ← values_of_build hb, ← values_of_build hc,
        hvalues]
    have hsymbols : s.symbols = t.symbols :=
      Symbol.spell_inj s.tidy_fragment t.tidy_fragment 0 hspell hliterals
    have hread := reads hs hfs
    rw [hsymbols] at hread
    exact hread.unique (reads ht hft)
  · intro hbare
    have hfragment : s.fragment = t.fragment := by
      rw [← s.fragment_bare, hbare, t.fragment_bare]
    rw [build_eq hb, build_eq hc, symbols, symbols, hfragment]
    exact ⟨rfl, rfl⟩

/-- A union whose branch is ordered by some numbers and that is itself ordered by
others.  The table behind the alias in the filter is any. -/
def orderedUnion (behind : String) (inner outer : List Int64) : Statement :=
  let t : Table := ⟨"t", some "a", none⟩
  let keys (ns : List Int64) : List Expr := ns.map fun n => .literal (.int n)
  let branch : Query := .ofClauses [.source (.table t), .orderBy (keys inner)]
  .select (.ofClauses [.source (.table t), .union branch, .orderBy (keys outer),
    .filters [.isNull (.column ⟨⟨behind, some "a", none⟩, "x"⟩)]])

/-- The table behind an alias is not seen, and the order of a branch is not taken
for that of the union. -/
theorem built_alike_orderedUnion :
    ∃ b c d, (orderedUnion "t" [1] [2]).build = .ok b ∧
      (orderedUnion "u" [1] [2]).build = .ok c ∧ (orderedUnion "t" [] [1, 2]).build = .ok d ∧
      (b.sql = c.sql ∧ b.params.values = c.params.values) ∧
      b.params.values = d.params.values ∧ b.sql ≠ d.sql := by
  have hmade (behind : String) (inner outer : List Int64) :
      (orderedUnion behind inner outer).Made := ⟨_, rfl⟩
  have hb : (orderedUnion "t" [1] [2]).build = .ok _ := build_of_no_fault rfl
  have hc : (orderedUnion "u" [1] [2]).build = .ok _ := build_of_no_fault rfl
  have hd : (orderedUnion "t" [] [1, 2]).build = .ok _ := build_of_no_fault rfl
  refine ⟨_, _, _, hb, hc, hd, ?_, rfl, fun hsql => ?_⟩
  · exact (built_alike_iff_bare_eq (hmade ..) (hmade ..) hb hc).mpr rfl
  · have hbare := (built_alike_iff_bare_eq (hmade ..) (hmade ..) hb hd).mp ⟨hsql, rfl⟩
    cases hbare

end Statement
end BoundSql
