import BoundSql.Statement

/-
Queries as they come out of their construction.

Joins wait only while there is no source: a query with a source has a root, and
nothing waits in it.  Each step of a construction keeps this, so it holds of every
query that was made from clauses.
-/

namespace BoundSql
namespace Query

/-- With a source there is a root, and no join is waiting. -/
def Settled (q : Query) : Prop :=
  q.source?.isSome → q.root.isSome ∧ q.waiting = []

theorem settled_empty : empty.Settled := fun h => by cases h

theorem settled_join {q : Query} (hq : q.Settled) (j : Join) : (q.join j).Settled := by
  intro h
  unfold join at h ⊢
  split
  · rename_i left root hs hr
    exact hq (by rw [hs]; rfl)
  · rename_i hnone
    have hsource : q.source?.isSome := by
      split at h
      · rename_i left root hs hr
        exact absurd hr (hnone left root hs)
      · exact h
    obtain ⟨left, hs⟩ := Option.isSome_iff_exists.mp hsource
    obtain ⟨root, hr⟩ := Option.isSome_iff_exists.mp (hq hsource).1
    exact absurd hr (hnone left root hs)

theorem settled_setSource (q : Query) (s : Source) : (q.setSource s).Settled := fun _ => by
  rw [root_setSource, waiting_setSource]
  exact ⟨rfl, rfl⟩

theorem settled_add {q : Query} (hq : q.Settled) (c : Clause) : (q.add c).Settled := by
  cases c with
  | source s => exact q.settled_setSource s
  | join j => exact settled_join hq j
  | _ => exact hq

theorem settled_addAll {q : Query} (hq : q.Settled) (clauses : List Clause) :
    (q.addAll clauses).Settled := by
  induction clauses generalizing q with
  | nil => exact hq
  | cons c rest ih => exact ih (settled_add hq c)

/-- Every query made from clauses is settled. -/
theorem settled_ofClauses (clauses : List Clause) : (ofClauses clauses).Settled :=
  settled_addAll settled_empty clauses

end Query

/-- A query was made from clauses.  Every insert, update and delete can be made. -/
def Statement.Made : Statement → Prop
  | select q => ∃ clauses, q = .ofClauses clauses
  | _ => True

end BoundSql
