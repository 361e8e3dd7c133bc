import BoundSql.Proofs.Where.Reading

/-
A statement's condition is the conjunction of its filters.

The recursion over expressions, sources and selects shows that whatever is well
sorted is read as it was meant, and that a select is read up to where it ends.
The main statement is `Statement.where_reads_conjunction`: what a database reads
after `where` are the filters in their order, and it goes on where the statement
without any filters does.
-/

namespace BoundSql

open BoundSql.Parse (Eventually eventually_some)
open BoundSql.Precedence
open BoundSql.Token (words)

/-! ## Selects begin and end -/

theorem Select.exists_tokens {rows : Select} (h : Leaf.gap ∉ rows.leaves) :
    ∃ body, ∀ s, rows.fragment.tokens ++ s = words "(select " ++ (body ++ s) := by
  obtain ⟨columns, source, filters, unions, groupBy, orderBy, limit⟩ := rows
  cases source with
  | none => exact absurd List.mem_cons_self h
  | some source =>
    simp only [Select.fragment, List.cons_append, Fragment.tokens_text, List.append_assoc]
    exact ⟨_, fun _ => rfl⟩

section
variable (s : List Token)

/-- A clause is left out or begins with its lead. -/
theorem Fragment.tokens_clause (lead sep : String) (fs : List Fragment) :
    (Fragment.clause lead sep fs).tokens ++ s = s ∨
      ∃ r, (Fragment.clause lead sep fs).tokens ++ s = words lead ++ r := by
  cases fs with
  | nil => exact .inl rfl
  | cons f rest => exact .inr ⟨_, List.append_assoc _ _ _⟩

theorem Select.tokens_unionFragment (branches : List Select) :
    (Select.unionFragment branches).tokens ++ s = s ∨
      ∃ r, (Select.unionFragment branches).tokens ++ s = words "\nunion " ++ r := by
  cases branches with
  | nil => exact .inl rfl
  | cons branch rest =>
    simp only [Select.unionFragment, List.cons_append, Fragment.tokens_text, List.append_assoc]
    exact .inr ⟨_, rfl⟩

/-- The grouping and the end of a select come after its unions. -/
theorem Select.stops_group (keys : List Expr) :
    stops ((Fragment.clause "\ngroup by " ", " (Expr.fragments keys)).tokens ++
        (words "\n)" ++ s)) = true ∧
      word? "union" ((Fragment.clause "\ngroup by " ", " (Expr.fragments keys)).tokens ++
        (words "\n)" ++ s)) = none := by
  rcases Fragment.tokens_clause (words "\n)" ++ s) "\ngroup by " ", " (Expr.fragments keys) with
    h | ⟨r, h⟩ <;> rw [h] <;> exact ⟨rfl, rfl⟩

variable {s}

theorem Select.stops_unions (hs : stops s = true) (branches : List Select) :
    stops ((Select.unionFragment branches).tokens ++ s) = true := by
  rcases Select.tokens_unionFragment s branches with h | ⟨r, h⟩ <;> rw [h]
  · exact hs
  · rfl

theorem Select.word?_where {w : String} (hw : ("where".toList == w.toList) = false)
    (hs : word? w s = none) (filters : List Expr) :
    word? w ((Fragment.clause "\nwhere " " and " (Expr.fragments filters)).tokens ++ s) = none := by
  rcases Fragment.tokens_clause s "\nwhere " " and " (Expr.fragments filters) with h | ⟨r, h⟩
  · rw [h]
    exact hs
  · rw [h]
    exact if_neg (beq_eq_false_iff_ne.mp hw)

end

/-! ## How lists begin -/

/-- No list of scalars begins like a select. -/
theorem Expr.words?_select_items (items : List Expr)
    (h : Expr.allWellSorted ExprSort.isScalar items = true) (s : List Token) :
    words? ["(", "select"] ((Fragment.separated ", " (Expr.fragments items)).tokens ++
      (words ")" ++ s)) = none := by
  cases items with
  | nil => rfl
  | cons item rest =>
    simp only [Expr.allWellSorted, Bool.and_eq_true] at h
    have hitem (s : List Token) := item.words?_select (beq_iff_eq.mp h.1.1) s
    cases rest with
    | nil =>
      rw [Expr.fragments, Expr.fragments, Fragment.separated_singleton]
      exact hitem _
    | cons next rest =>
      rw [Expr.fragments, Expr.fragments, Fragment.separated_cons_cons, Fragment.tokens_append,
        List.append_assoc]
      exact hitem _

/-- No list of arguments begins with a star. -/
theorem Expr.word?_star (args : List Expr) (s : List Token) :
    word? "*" ((Fragment.separated ", " (Expr.fragments args)).tokens ++ (words ")" ++ s)) =
      none := by
  cases args with
  | nil => rfl
  | cons e rest => exact word?_of_leads (Expr.leads_separated e rest ", " _) rfl

/-- No selected columns begin with a limit. -/
theorem Select.word?_top (columns : List Expr) (s : List Token) :
    word? "top" ((Select.columnFragment (Expr.fragments columns)).tokens ++ s) = none := by
  cases columns with
  | nil => rfl
  | cons e rest => exact word?_of_leads (Expr.leads_separated e rest ", " s) rfl

theorem Expr.forall_sort {allowed : ExprSort → Bool} {es : List Expr}
    (h : Expr.allWellSorted allowed es = true) : ∀ e ∈ es, allowed e.sort = true := by
  induction es with
  | nil => exact fun _ he => absurd he List.not_mem_nil
  | cons e rest ih =>
    simp only [Expr.allWellSorted, Bool.and_eq_true] at h
    exact List.forall_mem_cons.mpr ⟨h.1.1, ih h.2⟩

/-! ## Expressions, sources and selects -/

mutual

theorem Expr.isRead (e : Expr) (hw : e.wellSorted = true) (hgap : Leaf.gap ∉ e.leaves) :
    e.IsRead := by
  cases e with
  | literal v => exact .of_operand fun s => operand_value v
  | constant b =>
    intro least s y hleast hs hr
    have htokens : (Expr.constant b).fragment.tokens ++ s =
        words "1" ++ (words " = " ++ (words (if b then "1" else "0") ++ s)) := by
      cases b <;> rfl
    have hleads : leads (words (if b then "1" else "0") ++ s) = true := by
      cases b <;> rfl
    rw [htokens]
    exact expr_of_operand rfl (operand_bit true) (rest_binary .equal hleast
      (expr_of_operand hleads (operand_bit b) (rest_of_loose hs _)) hr)
  | column c => exact .of_operand fun s => operand_column c.table.qualifier c.name
  | all t => exact .of_operand fun s => operand_all t.qualifier
  | aliased e name =>
    intro s y hs hr
    simp only [Expr.wellSorted] at hw
    simp only [Expr.leaves, List.mem_append, not_or] at hgap
    simp only [Expr.fragment, Fragment.tokens_append, List.append_assoc]
    exact (e.isRead hw hgap.1).item rfl (trailing_as hr)
  | binary op left right =>
    simp only [Expr.wellSorted, Bool.and_eq_true, beq_iff_eq] at hw
    simp only [Expr.leaves, List.mem_append, not_or] at hgap
    obtain ⟨⟨⟨hls, hrs⟩, hl⟩, hr⟩ := hw
    have hleft := left.isRead hl hgap.1
    have hright := right.isRead hr hgap.2
    refine .of_operand fun s => ?_
    simp only [Expr.fragment, List.cons_append, Fragment.tokens_text, Fragment.tokens_append,
      Fragment.tokens_nil, List.append_nil, List.append_assoc]
    refine operand_group (word?_of_leads (left.leads_tokens _) rfl) (hleft.left hls ?_)
    exact rest_binary op (Nat.zero_le _) (hright.right hrs) (rest_of_none rfl)
  | negation e =>
    simp only [Expr.wellSorted, Bool.and_eq_true, beq_iff_eq] at hw
    simp only [Expr.leaves] at hgap
    have he := e.isRead hw.2 hgap
    have hwhole : e.sort.isWhole = true := by rw [hw.1]; rfl
    refine .of_operand fun s => ?_
    simp only [Expr.fragment, List.cons_append, Fragment.tokens_text, Fragment.tokens_append,
      Fragment.tokens_nil, List.append_nil, List.append_assoc]
    refine operand_group rfl (expr_not (Nat.zero_le _) ?_ (rest_of_none rfl))
    exact he.whole hwhole (by decide) (loose_of_none rfl) (rest_of_none rfl)
  | isNull e =>
    intro least s y hleast hs hr
    simp only [Expr.wellSorted, Bool.and_eq_true] at hw
    simp only [Expr.leaves] at hgap
    simp only [Expr.fragment, Fragment.tokens_append, List.append_assoc]
    exact (e.isRead hw.2 hgap).scalar (beq_iff_eq.mp hw.1) (rest_isNull hleast hr)
  | descending e =>
    intro s y hs hr
    simp only [Expr.wellSorted] at hw
    simp only [Expr.leaves] at hgap
    simp only [Expr.fragment, Fragment.tokens_append, List.append_assoc]
    exact (e.isRead hw hgap).item rfl (trailing_desc hr)
  | member e items =>
    simp only [Expr.wellSorted, Bool.and_eq_true] at hw
    simp only [Expr.leaves, List.mem_append, not_or] at hgap
    obtain ⟨⟨hsort, he⟩, hitems⟩ := hw
    have hread := e.isRead he hgap.1
    refine .of_operand fun s => ?_
    simp only [Expr.fragment, List.cons_append, Fragment.tokens_text, Fragment.tokens_append,
      Fragment.tokens_nil, List.append_nil, List.append_assoc]
    refine operand_group (word?_of_leads (e.leads_tokens _) rfl) ?_
    exact hread.scalar (beq_iff_eq.mp hsort) (rest_member (Nat.zero_le _)
      (Expr.words?_select_items items hitems _)
      (Expr.read_items (Expr.allIsRead items hitems hgap.2)) (rest_of_none rfl))
  | memberOf e rows =>
    simp only [Expr.wellSorted, Bool.and_eq_true] at hw
    simp only [Expr.leaves, List.mem_append, not_or] at hgap
    obtain ⟨⟨hsort, he⟩, hrows⟩ := hw
    have hread := e.isRead he hgap.1
    obtain ⟨body, hbody⟩ := Select.exists_tokens hgap.2
    refine .of_operand fun s => ?_
    have hselect := rows.isRead hrows hgap.2 (words ")" ++ (words ")" ++ s)) rfl
    rw [hbody] at hselect
    simp only [Expr.fragment, List.cons_append, Fragment.tokens_text, Fragment.tokens_append,
      Fragment.tokens_nil, List.append_nil, List.append_assoc, hbody]
    refine operand_group (word?_of_leads (e.leads_tokens _) rfl) ?_
    exact hread.scalar (beq_iff_eq.mp hsort)
      (rest_memberOf (Nat.zero_le _) hselect (rest_of_none rfl))
  | subquery rows =>
    simp only [Expr.wellSorted] at hw
    simp only [Expr.leaves] at hgap
    obtain ⟨body, hbody⟩ := Select.exists_tokens hgap
    refine .of_operand fun s => ?_
    have hselect := rows.isRead hw hgap (words ")" ++ s) rfl
    rw [hbody] at hselect
    simp only [Expr.fragment, List.cons_append, Fragment.tokens_text, Fragment.tokens_append,
      Fragment.tokens_nil, List.append_nil, List.append_assoc, hbody]
    refine operand_group rfl ?_
    exact expr_of_operand rfl (operand_subquery hselect) (rest_of_none rfl)
  | «exists» rows =>
    simp only [Expr.wellSorted] at hw
    simp only [Expr.leaves] at hgap
    refine .of_operand fun s => ?_
    simp only [Expr.fragment, List.cons_append, Fragment.tokens_text, Fragment.tokens_append,
      Fragment.tokens_nil, List.append_nil, List.append_assoc]
    exact operand_exists (rows.isRead hw hgap _ rfl)
  | call function args =>
    simp only [Expr.wellSorted] at hw
    simp only [Expr.leaves] at hgap
    refine .of_operand fun s => ?_
    simp only [Expr.fragment, List.cons_append, Fragment.tokens_text, Fragment.tokens_append,
      Fragment.tokens_nil, List.append_nil, List.append_assoc]
    exact operand_call (Expr.word?_star args _) (Expr.read_items (Expr.allIsRead args hw hgap))
  | countAll => exact .of_operand fun s => operand_countAll
  | cast e type =>
    simp only [Expr.wellSorted] at hw
    simp only [Expr.leaves] at hgap
    refine .of_operand fun s => ?_
    simp only [Expr.fragment, List.cons_append, Fragment.tokens_text, Fragment.tokens_append,
      Fragment.tokens_nil, List.append_nil, List.append_assoc, type.words_sql]
    refine operand_cast ((e.isRead hw hgap).item rfl (trailing_of_none rfl rfl)) ?_
    exact type_tokens type s
  | case branches otherwise =>
    cases otherwise with
    | none =>
      simp only [Expr.wellSorted] at hw
      simp only [Expr.leaves] at hgap
      refine .of_operand fun s => ?_
      simp only [Expr.fragment, List.cons_append, Fragment.tokens_text, Fragment.tokens_append,
        Fragment.tokens_nil, List.append_nil, List.append_assoc]
      exact operand_case (Expr.branchesRead branches hw hgap _ rfl rfl)
    | some e =>
      simp only [Expr.wellSorted, Bool.and_eq_true] at hw
      simp only [Expr.leaves, List.mem_append, not_or] at hgap
      obtain ⟨⟨hbranches, hsort⟩, he⟩ := hw
      refine .of_operand fun s => ?_
      simp only [Expr.fragment, List.cons_append, Fragment.tokens_text, Fragment.tokens_append,
        Fragment.tokens_nil, List.append_nil, List.append_assoc]
      refine operand_case_else (Expr.branchesRead branches hbranches hgap.1 _ rfl rfl) ?_
      exact (e.isRead he hgap.2).scalar (beq_iff_eq.mp hsort) (rest_of_none rfl)
  termination_by structural e

theorem Expr.allIsRead {allowed : ExprSort → Bool} (es : List Expr)
    (hw : Expr.allWellSorted allowed es = true) (hgap : Leaf.gap ∉ Expr.listLeaves es) :
    ∀ e ∈ es, e.IsRead := by
  cases es with
  | nil => exact fun _ he => absurd he List.not_mem_nil
  | cons e rest =>
    simp only [Expr.allWellSorted, Bool.and_eq_true] at hw
    simp only [Expr.listLeaves, List.mem_append, not_or] at hgap
    exact List.forall_mem_cons.mpr
      ⟨e.isRead hw.1.2 hgap.1, Expr.allIsRead rest hw.2 hgap.2⟩
  termination_by structural es

theorem Expr.branchesRead (branches : List (Expr × Expr))
    (hw : Expr.branchesWellSorted branches = true) (hgap : Leaf.gap ∉ Expr.branchLeaves branches)
    (s : List Token) (hwhen : word? "when" s = none) (hs : follower? s = none) :
    Eventually (branches? · ((Expr.branchFragment branches).tokens ++ s))
      (Expr.branchesAsRead branches, s) := by
  cases branches with
  | nil => exact branches_nil hwhen
  | cons branch rest =>
    obtain ⟨condition, value⟩ := branch
    simp only [Expr.branchesWellSorted, Bool.and_eq_true, beq_iff_eq] at hw
    simp only [Expr.branchLeaves, List.mem_append, not_or] at hgap
    obtain ⟨⟨⟨⟨hcsort, hc⟩, hvsort⟩, hv⟩, hrest⟩ := hw
    have hnext : follower? ((Expr.branchFragment rest).tokens ++ s) = none := by
      cases rest with
      | nil => exact hs
      | cons next rest =>
        obtain ⟨condition, value⟩ := next
        rfl
    simp only [Expr.branchFragment, List.cons_append, Fragment.tokens_text, Fragment.tokens_append,
      List.append_assoc]
    refine branches_cons ((condition.isRead hc hgap.1.1).all (by rw [hcsort]; rfl) rfl) ?_
      (Expr.branchesRead rest hrest hgap.2 s hwhen hs)
    exact (value.isRead hv hgap.1.2).scalar (beq_iff_eq.mp hvsort) (rest_of_none hnext)
  termination_by structural branches

theorem Source.isRead (source : Source) (hw : source.wellSorted = true)
    (hgap : Leaf.gap ∉ source.leaves) (s : List Token) (hs : word? "as" s = none) :
    Eventually (source? · (source.fragment.tokens ++ s)) (source.asRead, s) := by
  cases source with
  | table t => exact source_table t hs
  | joined left right condition outer =>
    simp only [Source.wellSorted, Bool.and_eq_true] at hw
    simp only [Source.leaves, List.mem_append, not_or] at hgap
    obtain ⟨⟨⟨hl, hr⟩, hsort⟩, hc⟩ := hw
    simp only [Source.fragment, List.cons_append, Fragment.tokens_text, Fragment.tokens_append,
      Fragment.tokens_nil, List.append_nil, List.append_assoc]
    exact source_joined (left.isRead hl hgap.1.1 _ (by cases outer <;> rfl))
      (right.isRead hr hgap.1.2 _ rfl) ((condition.isRead hc hgap.2).all hsort rfl)
  termination_by structural source

theorem Select.isRead (rows : Select) (hw : rows.wellSorted = true)
    (hgap : Leaf.gap ∉ rows.leaves) (s : List Token) (hs : stops s = true) :
    Eventually (select? · (rows.fragment.tokens ++ s)) (rows.asRead, s) := by
  obtain ⟨columns, source, filters, unions, groupBy, orderBy, limit⟩ := rows
  cases source with
  | none => exact absurd List.mem_cons_self hgap
  | some source =>
    simp only [Select.wellSorted, Bool.and_eq_true] at hw
    simp only [Select.leaves, List.mem_append, not_or] at hgap
    obtain ⟨⟨⟨⟨⟨hwc, hws⟩, hwf⟩, hwu⟩, hwg⟩, hwo⟩ := hw
    obtain ⟨⟨⟨⟨⟨hgc, hgs⟩, hgf⟩, hgu⟩, hgg⟩, hgo⟩ := hgap
    simp only [Select.fragment, List.cons_append, Fragment.tokens_text, Fragment.tokens_append,
      List.append_assoc]
    have hcolumns := Expr.allIsRead columns hwc hgc
    have hfilters := Expr.allIsRead filters hwf hgf
    have hgroup := Expr.allIsRead groupBy hwg hgg
    have horder := Expr.allIsRead orderBy hwo hgo
    have hopen (s : List Token) : words? ["(", "select"] (words "(select " ++ s) = some s := rfl
    have hclose (s : List Token) : word? ")" (words "\n)" ++ s) = some s := rfl
    obtain ⟨hend, hunion⟩ := Select.stops_group
      ((Fragment.clause "\norder by " ", " (Expr.fragments orderBy)).tokens ++ s) groupBy
    have hunions := Select.stops_unions hend unions
    refine .succ ?_
    simp only [select?, hopen, Option.bind_eq_bind, Option.bind_some,
      limit_tokens limit (Select.word?_top columns _)]
    refine (Expr.read_columns hcolumns rfl).bind ?_
    refine (source.isRead hws hgs _
      (Select.word?_where rfl (word?_of_stops hunions rfl) filters)).bind ?_
    refine (Expr.read_where hfilters (Expr.forall_sort hwf) (follower?_of_stops hunions)
      (word?_of_stops hunions rfl)).bind ?_
    refine (Select.unionsRead unions hwu hgu _ hend hunion).bind ?_
    refine (Expr.read_keys (fun _ => rfl) hgroup rfl rfl).bind ?_
    simp only [hclose, Option.bind_some]
    refine (Expr.read_keys (fun _ => rfl) horder hs ?_).bind (eventually_some _)
    show (word? "order" s).bind _ = none
    rw [word?_of_stops hs rfl]
    rfl
  termination_by structural rows

theorem Select.unionsRead (branches : List Select) (hw : Select.allWellSorted branches = true)
    (hgap : Leaf.gap ∉ Select.unionLeaves branches) (s : List Token) (hs : stops s = true)
    (hunion : word? "union" s = none) :
    Eventually (unions? · ((Select.unionFragment branches).tokens ++ s))
      (Select.allAsRead branches, s) := by
  cases branches with
  | nil => exact unions_nil hunion
  | cons branch rest =>
    simp only [Select.allWellSorted, Bool.and_eq_true] at hw
    simp only [Select.unionLeaves, List.mem_append, not_or] at hgap
    simp only [Select.unionFragment, List.cons_append, Fragment.tokens_text,
      Fragment.tokens_append, List.append_assoc]
    exact unions_cons (branch.isRead hw.1 hgap.1 _ (Select.stops_unions hs rest))
      (Select.unionsRead rest hw.2 hgap.2 s hs hunion)
  termination_by structural branches

end

/-! ## Statements -/

namespace Statement

/-- The predicates of which all have to hold. -/
def filters : Statement → List Expr
  | select q => q.select.filters
  | insert _ => []
  | update u => u.filters
  | delete d => d.filters

/-- The same statement with other filters. -/
def withFilters (filters : List Expr) : Statement → Statement
  | select q => select { q with select := { q.select with filters } }
  | insert i => insert i
  | update u => update { u with filters }
  | delete d => delete { d with filters }

theorem withFilters_filters (s : Statement) : s.withFilters s.filters = s := by
  cases s with
  | select q =>
    obtain ⟨⟨columns, source, filters, unions, groupBy, orderBy, limit⟩, root, waiting⟩ := q
    rfl
  | _ => rfl

/-- The filters stand in one place, and nothing goes on with them after it. -/
theorem fragment_withFilters {s : Statement} (h : s.fragment.fault? = none)
    (hfilters : s.filters ≠ []) :
    ∃ before after : Fragment, follower? after.tokens = none ∧ ∀ filters,
      (s.withFilters filters).fragment = before ++ (Expr.whereFragment filters ++ after) := by
  cases s with
  | select q =>
    obtain ⟨⟨columns, source, filters, unions, groupBy, orderBy, limit⟩, root, waiting⟩ := q
    cases source with
    | none => cases h
    | some source =>
      refine ⟨.text "(select " :: Select.limitFragment limit ++
        Select.columnFragment (Expr.fragments columns) ++ .text "\nfrom " :: source.fragment,
        Select.unionFragment unions ++
          (Fragment.clause "\ngroup by " ", " (Expr.fragments groupBy) ++
            .text "\n)" :: Fragment.clause "\norder by " ", " (Expr.fragments orderBy)),
        ?_, fun filters => ?_⟩
      · rw [Fragment.tokens_append, Fragment.tokens_append, Fragment.tokens_text]
        exact follower?_of_stops (Select.stops_unions (Select.stops_group _ groupBy).1 unions)
      · show Select.fragment _ = _
        rw [Select.fragment, Expr.whereFragment, Expr.fragments_eq_map filters]
        simp only [List.cons_append, List.append_assoc]
  | insert i => exact absurd rfl hfilters
  | update u =>
    obtain ⟨table, assignments, filters⟩ := u
    have hset : assignments.isEmpty = false := by
      rw [Bool.eq_false_iff]
      intro hempty
      simp [fragment, Update.fragment, hempty, Fragment.fault?] at h
    have hnone : Expr.whereFragment [] = [] := rfl
    refine ⟨Update.fragment ⟨table, assignments, []⟩, [], rfl, fun filters => ?_⟩
    show Update.fragment ⟨table, assignments, filters⟩ = _
    simp [Update.fragment, hset, hnone]
  | delete d =>
    have hnone : Expr.whereFragment [] = [] := rfl
    refine ⟨Delete.fragment ⟨d.table, []⟩, [], rfl, fun filters => ?_⟩
    show Delete.fragment ⟨d.table, filters⟩ = _
    simp [Delete.fragment, hnone]

/-- Of a built statement a database reads, after `where`, the conjunction of its
filters in their order, each as it was meant, and then goes on where the same
statement without filters does. -/
theorem where_reads_conjunction {s : Statement} {b : Built} (hb : s.build = .ok b) {f : Expr}
    {rest : List Expr} (hfilters : s.filters = f :: rest)
    (hsorted : ∀ e ∈ f :: rest, e.sort = .predicate ∧ e.wellSorted = true) :
    ∃ before clause after c,
      b.tokens? = some (before ++ .text "where".toList :: clause) ∧
      (s.withFilters []).build = .ok c ∧ c.tokens? = some (before ++ after) ∧
      Eventually (expr? · 0 clause) ((rest.map Expr.asRead).foldl Expr.and f.asRead, after) := by
  have hfault := fault?_of_build hb
  obtain ⟨before, after, hafter, hsplit⟩ := fragment_withFilters hfault
    (by rw [hfilters]; exact List.cons_ne_nil f rest)
  have hfragment : s.fragment = before ++ (Expr.whereFragment (f :: rest) ++ after) := by
    rw [← hsplit, ← hfilters, withFilters_filters]
  have hbare : (s.withFilters []).fragment = before ++ after := hsplit []
  have hbare_fault : (s.withFilters []).fragment.fault? = none := by
    rw [hfragment, Fragment.fault?_append, Fragment.fault?_append, Option.or_eq_none_iff,
      Option.or_eq_none_iff] at hfault
    rw [hbare, Fragment.fault?_append, hfault.1, hfault.2.2]
    rfl
  have hread : ∀ e ∈ f :: rest, e.IsRead := by
    intro e he
    refine e.isRead (hsorted e he).2 fun hgap => ?_
    refine Fragment.gap_not_mem hfault ?_
    rw [hfragment, Fragment.leaves_append, Fragment.leaves_append, Expr.leaves_whereFragment,
      Expr.listLeaves_eq_flatMap]
    exact List.mem_append_right _ (List.mem_append_left _ (List.mem_flatMap.mpr ⟨e, he, hgap⟩))
  have hwhole : ∀ e ∈ f :: rest, e.sort.isWhole = true := by
    intro e he
    rw [(hsorted e he).1]
    rfl
  have hwhere : (Expr.whereFragment (f :: rest)).tokens = .text "where".toList ::
      (Fragment.separated " and " (Expr.fragments (f :: rest))).tokens := by
    rw [Expr.fragments_eq_map]
    rfl
  have hcondition := Expr.read_conjunction hread hwhole hafter
  have hc := build_of_no_fault hbare_fault
  rw [Expr.allAsRead_eq_map] at hcondition
  refine ⟨before.tokens, _, after.tokens, _, ?_, hc, ?_, hcondition⟩
  · rw [tokens?_of_build hb, hfragment, Fragment.tokens_append, Fragment.tokens_append, hwhere]
    rfl
  · rw [tokens?_of_build hc, hbare, Fragment.tokens_append]

/-- Rows to be deleted by filters that need no parentheses of their own. -/
def purge : Statement :=
  let t : Table := ⟨"t", some "a", none⟩
  let x : Expr := .column (t.column "x")
  .delete ⟨t, [.isNull x, .negation (.or (.isNull x) (.constant false)),
    .equals (.case [(.isNull x, .literal (.int 1))] (some x)) (.literal (.int 2))]⟩

/-- The column behind its qualifier, which is all that is read of it. -/
def purgeColumn : Expr :=
  .column ⟨Parse.qualifierTable "a", "x"⟩

theorem where_reads_purge :
    ∃ b, purge.build = .ok b ∧ ∃ before clause after,
      b.tokens? = some (before ++ .text "where".toList :: clause) ∧
      Eventually (expr? · 0 clause)
        (.and (.and (.isNull purgeColumn) (.negation (.or (.isNull purgeColumn)
            (.equals (.literal (.int 1)) (.literal (.int 0))))))
          (.equals (.case [(.isNull purgeColumn, .literal (.int 1))] (some purgeColumn))
            (.literal (.int 2))), after) := by
  have hb : purge.build = .ok _ := build_of_no_fault rfl
  obtain ⟨before, clause, after, -, hclause, -, -, hread⟩ := where_reads_conjunction hb rfl
    (List.forall_mem_cons.mpr ⟨⟨rfl, rfl⟩, List.forall_mem_cons.mpr ⟨⟨rfl, rfl⟩,
      List.forall_mem_singleton.mpr ⟨rfl, rfl⟩⟩⟩)
  exact ⟨_, hb, before, clause, after, hclause, hread⟩

end Statement
end BoundSql
