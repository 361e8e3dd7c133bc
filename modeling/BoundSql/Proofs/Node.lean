import BoundSql.Proofs.Tidy
import BoundSql.Proofs.Leaves
import Mathlib.Logic.Relation

/-
What is written within what.

A node is anything that can be written on its own, and its parts are the nodes that
are written as parts of it.  A node that stops by itself has no parts: a select with
nothing to select from, an insert or an update that sets no column.  The fragment of
any other is woven from those of its parts, which stand in it whole and in their
order (`weaves_fragment`).  So whether writing stops is decided by the nodes that it
reaches: `exists_stop_of_fault` and `Reaches.isSome_fault?`.
-/

namespace BoundSql

/-! ## Fragments made of fragments -/

/-- The piece is a place where writing stops. -/
def Piece.isFault : Piece → Bool
  | fault _ => true
  | _ => false

namespace Fragment

/-- The fragment consists of the given ones, in their order, with texts, names and
values before, between and after them. -/
inductive Weaves : List Fragment → Fragment → Prop where
  | nil : Weaves [] []
  | piece {parts : List Fragment} {f : Fragment} {p : Piece} (hp : p.isFault = false)
      (h : Weaves parts f) : Weaves parts (p :: f)
  | part (g : Fragment) {parts : List Fragment} {f : Fragment} (h : Weaves parts f) :
      Weaves (g :: parts) (g ++ f)

theorem weaves_self (f : Fragment) : Weaves [f] f := by
  have h := Weaves.part f .nil
  rwa [List.append_nil] at h

theorem Weaves.text {parts : List Fragment} {f : Fragment} (s : String) (h : Weaves parts f) :
    Weaves parts (.text s :: f) :=
  .piece rfl h

theorem Weaves.name {parts : List Fragment} {f : Fragment} (n : String) (h : Weaves parts f) :
    Weaves parts (.name n :: f) :=
  .piece rfl h

theorem Weaves.append {parts others : List Fragment} {f g : Fragment} (hf : Weaves parts f)
    (hg : Weaves others g) : Weaves (parts ++ others) (f ++ g) := by
  induction hf with
  | nil => exact hg
  | piece hp _ ih => exact .piece hp ih
  | part first _ ih =>
    rw [List.cons_append, List.append_assoc]
    exact .part first ih

theorem Weaves.end {parts : List Fragment} {f : Fragment} (h : Weaves parts f) (s : String) :
    Weaves parts (f ++ [.text s]) := by
  have hend := h.append (.text s .nil)
  rwa [List.append_nil] at hend

/-- A list is woven from the parts of its items. -/
theorem weaves_separated {α : Type} (sep : String) (parts : α → List Fragment)
    (write : α → Fragment) (items : List α) (h : ∀ a ∈ items, Weaves (parts a) (write a)) :
    Weaves (items.flatMap parts) (separated sep (items.map write)) := by
  induction items with
  | nil => exact .nil
  | cons a rest ih =>
    have ha := h a List.mem_cons_self
    have hrest := ih fun b hb => h b (List.mem_cons_of_mem a hb)
    cases rest with
    | nil =>
      rw [List.map_singleton, separated_singleton, List.flatMap_cons]
      exact (List.append_nil (parts a)).symm ▸ ha
    | cons b rest =>
      rw [List.map_cons, List.map_cons, separated_cons_cons, List.flatMap_cons]
      exact ha.append (.text sep hrest)

theorem weaves_list (sep : String) (fs : List Fragment) : Weaves fs (separated sep fs) := by
  have h := weaves_separated sep (fun f => [f]) id fs fun f _ => weaves_self f
  rwa [List.flatMap_singleton', List.map_id] at h

theorem weaves_clause (lead sep : String) (fs : List Fragment) :
    Weaves fs (clause lead sep fs) := by
  cases fs with
  | nil => exact .nil
  | cons f rest => exact .text lead (weaves_list sep (f :: rest))

/-- Writing stops in the first part in which it stops at all. -/
theorem Weaves.fault?_eq {parts : List Fragment} {f : Fragment} (h : Weaves parts f) :
    f.fault? = parts.findSome? fault? := by
  induction h with
  | nil => rfl
  | @piece parts f p hp _ ih =>
    cases p with
    | fault x => cases hp
    | _ => exact ih
  | @part g parts f _ ih =>
    rw [fault?_append, List.findSome?_cons, ih]
    cases g.fault? <;> rfl

/-- Every part stands in the fragment as a whole. -/
theorem Weaves.exists_append {parts : List Fragment} {f g : Fragment} (h : Weaves parts f)
    (hg : g ∈ parts) : ∃ before after, f = before ++ g ++ after := by
  induction h with
  | nil => cases hg
  | @piece parts f p _ _ ih =>
    obtain ⟨before, after, rfl⟩ := ih hg
    exact ⟨p :: before, after, rfl⟩
  | @part first parts f _ ih =>
    rcases List.mem_cons.mp hg with rfl | hg
    · exact ⟨[], f, rfl⟩
    · obtain ⟨before, after, rfl⟩ := ih hg
      exact ⟨first ++ before, after, by simp⟩

end Fragment

/-! ## Nodes and their parts -/

/-- Anything that can be written on its own. -/
inductive Node where
  | expr (e : Expr)
  | source (s : Source)
  | select (rows : Select)
  | statement (s : Statement)

namespace Node

open Fragment

def fragment : Node → Fragment
  | expr e => e.fragment
  | source s => s.fragment
  | select rows => rows.fragment
  | statement s => s.fragment

/-- The names and values of a node, in the order in which they are written. -/
def leaves : Node → List Leaf
  | expr e => e.leaves
  | source s => s.leaves
  | select rows => rows.leaves
  | statement s => s.leaves

/-- The statement that has to set a column and sets none, in words. -/
def unset? : Node → Option String
  | statement (.insert i) => if i.assignments.isEmpty then some "INSERT" else none
  | statement (.update u) => if u.assignments.isEmpty then some "UPDATE" else none
  | _ => none

/-- The fault of a node itself, whatever its parts are. -/
def stop? : Node → Option Fault
  | select rows => if rows.source.isNone then some .missingFrom else none
  | n => n.unset?.map .emptyAssignments

/-- The parts that are written with a node, in their order. -/
def parts : Node → List Node
  | expr (.literal _) => []
  | expr (.constant _) => []
  | expr (.column _) => []
  | expr (.all _) => []
  | expr (.aliased e _) => [expr e]
  | expr (.binary _ left right) => [expr left, expr right]
  | expr (.negation e) => [expr e]
  | expr (.isNull e) => [expr e]
  | expr (.descending e) => [expr e]
  | expr (.member e items) => expr e :: items.map expr
  | expr (.memberOf e rows) => [expr e, select rows]
  | expr (.subquery rows) => [select rows]
  | expr (.exists rows) => [select rows]
  | expr (.call _ args) => args.map expr
  | expr .countAll => []
  | expr (.cast e _) => [expr e]
  | expr (.case branches otherwise) =>
    branches.flatMap (fun (condition, value) => [expr condition, expr value]) ++
      otherwise.toList.map expr
  | source (.table _) => []
  | source (.joined left right condition _) => [source left, source right, expr condition]
  | select ⟨_, none, _, _, _, _, _⟩ => []
  | select ⟨columns, some s, filters, unions, groupBy, orderBy, _⟩ =>
    columns.map expr ++ source s :: filters.map expr ++ unions.map select ++
      groupBy.map expr ++ orderBy.map expr
  | statement (.select q) => [select q.select]
  | statement (.insert i) => i.assignments.map fun a => expr a.value
  | statement (.update u) =>
    if u.assignments.isEmpty then []
    else u.assignments.map (fun a => expr a.value) ++ u.filters.map expr
  | statement (.delete d) => d.filters.map expr

/-- The second node is the first one, or a part of a node that is reached. -/
def Reaches : Node → Node → Prop :=
  Relation.ReflTransGen fun n m => m ∈ n.parts

/-! ## Parts are smaller -/

theorem Expr.sizeOf_lt_of_mem_parts {e : Expr} {m : Node} (h : m ∈ (expr e).parts) :
    sizeOf m < sizeOf (expr e) := by
  cases e with
  | «case» branches otherwise =>
    cases otherwise <;> grind [parts, → List.sizeOf_lt_of_mem]
  | _ => grind [parts, → List.sizeOf_lt_of_mem]

theorem sizeOf_lt_of_mem_parts {n m : Node} (h : m ∈ n.parts) : sizeOf m < sizeOf n := by
  cases n with
  | expr e => exact Expr.sizeOf_lt_of_mem_parts h
  | source s => cases s <;> grind [parts]
  | select rows =>
    obtain ⟨columns, source, filters, unions, groupBy, orderBy, limit⟩ := rows
    cases source <;> grind [parts, → List.sizeOf_lt_of_mem]
  | statement s =>
    have hvalue (a : Assignment) : sizeOf a.value < sizeOf a := by
      obtain ⟨column, value⟩ := a
      rw [Assignment.mk.sizeOf_spec]
      show sizeOf value < _
      omega
    cases s with
    | select q => obtain ⟨rows, root, waiting⟩ := q; grind [parts]
    | insert i => obtain ⟨table, assignments⟩ := i; grind [parts, → List.sizeOf_lt_of_mem]
    | update u => obtain ⟨table, assignments, filters⟩ := u; grind [parts, → List.sizeOf_lt_of_mem]
    | delete d => obtain ⟨table, filters⟩ := d; grind [parts, → List.sizeOf_lt_of_mem]

/-! ## Nodes are woven from their parts -/

theorem fragment_of_unset {n : Node} {word : String} (h : n.unset? = some word) :
    n.fragment = [.fault (.emptyAssignments word)] := by
  cases n with
  | statement s =>
    cases s with
    | insert i =>
      rw [unset?] at h
      split at h
      · rename_i hi
        cases h
        exact if_pos hi
      · cases h
    | update u =>
      rw [unset?] at h
      split at h
      · rename_i hu
        cases h
        exact if_pos hu
      · cases h
    | _ => cases h
  | _ => cases h

/-- Of a node that stops by itself nothing else is written. -/
theorem fragment_of_stop {n : Node} {f : Fault} (h : n.stop? = some f) :
    n.fragment = [.fault f] := by
  cases n with
  | select rows =>
    obtain ⟨columns, source, filters, unions, groupBy, orderBy, limit⟩ := rows
    cases source with
    | none =>
      cases h
      rfl
    | some s => cases h
  | statement s =>
    obtain ⟨word, hword, rfl⟩ := Option.map_eq_some_iff.mp (show (unset? _).map _ = _ from h)
    exact fragment_of_unset hword
  | _ => cases h

theorem parts_of_stop {n : Node} (h : n.stop? ≠ none) : n.parts = [] := by
  cases n with
  | select rows =>
    obtain ⟨columns, source, filters, unions, groupBy, orderBy, limit⟩ := rows
    cases source with
    | none => rfl
    | some s => exact absurd rfl h
  | statement s =>
    cases s with
    | insert i =>
      have hi : i.assignments = [] := by simpa [stop?, unset?] using h
      rw [parts, hi, List.map_nil]
    | update u =>
      have hu : u.assignments.isEmpty := by simpa [stop?, unset?] using h
      rw [parts, if_pos hu]
    | _ => exact absurd rfl h
  | _ => exact absurd rfl h

theorem stop?_of_mem_parts {n m : Node} (h : m ∈ n.parts) : n.stop? = none := by
  by_cases hstop : n.stop? = none
  · exact hstop
  · rw [parts_of_stop hstop] at h
    cases h

theorem weaves_column (c : Column) : Weaves [] c.fragment :=
  .name _ (.text _ (.name _ .nil))

theorem weaves_table (t : Table) : Weaves [] t.fragment := by
  unfold Table.fragment
  split
  · exact .name _ .nil
  · exact .name _ (.text _ (.name _ .nil))

theorem map_fragment_expr (es : List Expr) : (es.map expr).map fragment = Expr.fragments es := by
  rw [Expr.fragments_eq_map, List.map_map]
  rfl

theorem weaves_branches (branches : List (Expr × Expr)) :
    Weaves ((branches.flatMap fun (condition, value) => [expr condition, expr value]).map fragment)
      (Expr.branchFragment branches) := by
  induction branches with
  | nil => exact .nil
  | cons branch rest ih =>
    obtain ⟨condition, value⟩ := branch
    simp only [Expr.branchFragment, List.cons_append, List.append_assoc]
    exact .text _ (.part condition.fragment (.text _ (.part value.fragment ih)))

theorem weaves_unions (branches : List Select) :
    Weaves ((branches.map select).map fragment) (Select.unionFragment branches) := by
  induction branches with
  | nil => exact .nil
  | cons branch rest ih => exact .text _ (.part branch.fragment ih)

theorem weaves_columns (fs : List Fragment) : Weaves fs (Select.columnFragment fs) := by
  cases fs with
  | nil => exact .text _ .nil
  | cons f rest => exact weaves_list ", " (f :: rest)

theorem weaves_limit (limit : UInt64) : Weaves [] (Select.limitFragment limit) := by
  unfold Select.limitFragment
  split
  · exact .nil
  · exact .text _ .nil

theorem weaves_expr (e : Expr) : Weaves ((expr e).parts.map fragment) e.fragment := by
  have hend (s : String) : Weaves [] [.text s] := .text s .nil
  cases e with
  | literal v => exact .piece rfl .nil
  | constant b => exact hend _
  | column c => exact weaves_column c
  | all t => exact .name _ (hend _)
  | aliased e name => exact .part e.fragment (.text _ (.name name .nil))
  | binary op left right =>
    simp only [Expr.fragment, List.cons_append, List.append_assoc]
    exact .text _ (.part left.fragment (.text _ (.part right.fragment (hend _))))
  | negation e => exact .text _ (.part e.fragment (hend _))
  | isNull e => exact .part e.fragment (hend _)
  | descending e => exact .part e.fragment (hend _)
  | member e items =>
    simp only [Expr.fragment, List.cons_append, List.append_assoc, parts, List.map_cons,
      map_fragment_expr]
    exact .text _ (.part e.fragment (.text _ ((weaves_list ", " _).end _)))
  | memberOf e rows =>
    simp only [Expr.fragment, List.cons_append, List.append_assoc]
    exact .text _ (.part e.fragment (.text _ (.part rows.fragment (hend _))))
  | subquery rows => exact .text _ (.part rows.fragment (hend _))
  | «exists» rows => exact .text _ (.part rows.fragment (hend _))
  | call function args =>
    rw [parts, map_fragment_expr]
    exact .text _ ((weaves_list ", " _).end _)
  | countAll => exact hend _
  | cast e type => exact .text _ (.part e.fragment (hend _))
  | «case» branches otherwise =>
    rw [parts, List.map_append]
    cases otherwise with
    | none => exact .text _ ((weaves_branches branches).append (hend _))
    | some e =>
      simp only [Expr.fragment, List.cons_append, List.append_assoc]
      exact .text _ ((weaves_branches branches).append (.text _ (.part e.fragment (hend _))))

theorem weaves_source (s : Source) : Weaves ((source s).parts.map fragment) s.fragment := by
  cases s with
  | table t => exact weaves_table t
  | joined left right condition outer =>
    simp only [Source.fragment, List.cons_append, List.append_assoc]
    exact .text _ (.part left.fragment (.text _ (.part right.fragment
      (.text _ (.part condition.fragment (.text _ .nil))))))

theorem weaves_select {rows : Select} (h : (select rows).stop? = none) :
    Weaves ((select rows).parts.map fragment) rows.fragment := by
  obtain ⟨columns, source, filters, unions, groupBy, orderBy, limit⟩ := rows
  cases source with
  | none => cases h
  | some source =>
    have hunions := weaves_unions unions
    simp only [parts, List.map_append, List.map_cons, map_fragment_expr, Select.fragment,
      List.cons_append, List.append_assoc]
    refine .text _ ((weaves_limit limit).append ((weaves_columns _).append (.text _ ?_)))
    refine .part source.fragment ((weaves_clause _ _ _).append (hunions.append ?_))
    exact (weaves_clause _ _ _).append (.text _ (weaves_clause _ _ _))

theorem weaves_where (filters : List Expr) :
    Weaves ((filters.map expr).map fragment) (Expr.whereFragment filters) := by
  rw [map_fragment_expr, Expr.fragments_eq_map]
  exact weaves_clause _ _ _

theorem weaves_insert {i : Insert} (hi : i.assignments.isEmpty = false) :
    Weaves ((i.assignments.map fun a => expr a.value).map fragment) i.fragment := by
  have hcolumns := weaves_separated ", " (fun _ => []) (fun a => [.name a.column.name])
    i.assignments fun a _ => .name _ .nil
  have hvalues := weaves_list ", " (i.assignments.map fun a => a.value.fragment)
  have hend := (hvalues.end ");").end "SELECT @@IDENTITY AS ix;"
  rw [List.flatMap_eq_nil_iff.mpr fun _ _ => rfl] at hcolumns
  rw [List.map_map]
  simp only [Insert.fragment, hi, List.cons_append, List.append_assoc]
  simp only [List.append_assoc] at hend
  exact .text _ (.name _ (.text _ (hcolumns.append (.text _ hend))))

theorem weaves_update {u : Update} (hu : u.assignments.isEmpty = false) :
    Weaves ((u.assignments.map (fun a => expr a.value) ++ u.filters.map expr).map fragment)
      u.fragment := by
  have hset := weaves_separated ", " (fun a => [a.value.fragment])
    (fun a => .name a.column.name :: .text " = " :: a.value.fragment) u.assignments
    fun a _ => .name _ (.text _ (weaves_self _))
  have hfrom : Weaves [] (if u.table.aliasName.isSome then
      .text "\nfrom " :: u.table.fragment else []) := by
    split
    · exact .text _ (weaves_table u.table)
    · exact .nil
  rw [← List.map_eq_flatMap] at hset
  rw [List.map_append, List.map_map]
  simp only [Update.fragment, hu, List.cons_append, List.append_assoc]
  exact .text _ (.name _ (.text _ (hset.append (hfrom.append (weaves_where u.filters)))))

theorem weaves_delete (d : Delete) : Weaves ((d.filters.map expr).map fragment) d.fragment := by
  have hfrom : Weaves [] (if d.table.aliasName.isSome then
      .text "delete " :: .name d.table.qualifier :: .text "\nfrom " :: d.table.fragment
      else [.text "delete from ", .name d.table.name]) := by
    split
    · exact .text _ (.name _ (.text _ (weaves_table d.table)))
    · exact .text _ (.name _ .nil)
  exact hfrom.append (weaves_where d.filters)

/-- What does not stop by itself is woven from its parts. -/
theorem weaves_fragment {n : Node} (h : n.stop? = none) :
    Weaves (n.parts.map fragment) n.fragment := by
  cases n with
  | expr e => exact weaves_expr e
  | source s => exact weaves_source s
  | select rows => exact weaves_select h
  | statement s =>
    cases s with
    | select q => exact weaves_self q.select.fragment
    | insert i => exact weaves_insert (by simpa [stop?, unset?] using h)
    | update u =>
      have hu : u.assignments.isEmpty = false := by simpa [stop?, unset?] using h
      rw [parts, hu]
      exact weaves_update hu
    | delete d => exact weaves_delete d

/-! ## What is reached -/

/-- A node is reached, and stops by itself, if writing stops. -/
theorem exists_stop_of_fault {n : Node} {f : Fault} (h : n.fragment.fault? = some f) :
    ∃ m, n.Reaches m ∧ m.stop? = some f := by
  cases hstop : n.stop? with
  | some g =>
    rw [fragment_of_stop hstop] at h
    exact ⟨n, .refl, hstop.trans h⟩
  | none =>
    rw [(weaves_fragment hstop).fault?_eq, List.findSome?_map] at h
    obtain ⟨m, hm, hfault⟩ := List.exists_of_findSome?_eq_some h
    have hsize := sizeOf_lt_of_mem_parts hm
    obtain ⟨k, hk, hkstop⟩ := exists_stop_of_fault hfault
    exact ⟨k, .head hm hk, hkstop⟩
  termination_by sizeOf n

/-- Writing stops if a node is reached that stops by itself. -/
theorem Reaches.isSome_fault? {n m : Node} (h : n.Reaches m) {f : Fault} (hm : m.stop? = some f) :
    n.fragment.fault?.isSome := by
  induction h using Relation.ReflTransGen.head_induction_on with
  | refl =>
    rw [fragment_of_stop hm]
    rfl
  | head hpart _ ih =>
    rw [(weaves_fragment (stop?_of_mem_parts hpart)).fault?_eq, List.findSome?_isSome_iff]
    exact ⟨_, List.mem_map_of_mem hpart, ih⟩

/-- What is reached stands in the fragment as a whole. -/
theorem Reaches.exists_append {n m : Node} (h : n.Reaches m) :
    ∃ before after, n.fragment = before ++ m.fragment ++ after := by
  induction h using Relation.ReflTransGen.head_induction_on with
  | refl => exact ⟨[], [], (List.append_nil _).symm⟩
  | head hpart _ ih =>
    obtain ⟨before, after, ih⟩ := ih
    obtain ⟨first, last, hn⟩ :=
      (weaves_fragment (stop?_of_mem_parts hpart)).exists_append (List.mem_map_of_mem hpart)
    exact ⟨first ++ before, after ++ last, by rw [hn, ih]; simp⟩

theorem statement_not_mem_parts (n : Node) (s : Statement) : statement s ∉ n.parts := by
  intro h
  cases n with
  | expr e => cases e <;> grind [parts]
  | source source => cases source <;> grind [parts]
  | select rows =>
    obtain ⟨columns, source, filters, unions, groupBy, orderBy, limit⟩ := rows
    cases source <;> grind [parts]
  | statement t => cases t <;> grind [parts]

/-- A statement is not reached from anything else. -/
theorem eq_of_reaches_statement {n : Node} {s : Statement} (h : n.Reaches (statement s)) :
    n = statement s := by
  rcases Relation.ReflTransGen.cases_tail h with heq | ⟨m, -, hpart⟩
  · exact heq.symm
  · exact absurd hpart (statement_not_mem_parts m s)

end Node
end BoundSql
