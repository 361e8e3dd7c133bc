import BoundSql.Proofs.Cache.Recency
import BoundSql.Proofs.CacheKey
import BoundSql.Proofs.Db.Operation

/-
Rows from the cache are those that the executor gave last.

Along a run each fetch that the executor answers puts its rows under the key of its
statement, and nothing else puts anything.  So the rows that a later fetch finds are
the last ones put under its key, and since a key tells a statement's text and values
they are the executor's last answer for that text and those values.  The main
statement is `found_rows_eq_last_answer`.
-/

namespace BoundSql

/-! ## Keys of built statements -/

theorem Statement.reads_sql {s : Statement} {b : Built} (h : s.build = .ok b) :
    nameReader.Reads false b.sql.toList false := by
  rw [toList_sql_of_build h]
  exact Symbol.reads_spell s.tidy_fragment 0

theorem Statement.alike_of_cacheKey_eq {s t : Statement} {b c : Built} (hs : s.build = .ok b)
    (ht : t.build = .ok c) (h : b.cacheKey = c.cacheKey) : b.Alike c := by
  have hlist := congrArg String.toList h
  rw [toList_cacheKey, toList_cacheKey] at hlist
  obtain ⟨hsql, hvalues⟩ :=
    (reads_sql hs).cut_unique rfl (reads_sql ht) (List.append_cancel_left hlist)
  have hparams := Parameters.serialize_injective (String.toList_inj.mp hvalues)
  exact ⟨String.toList_inj.mp hsql, congrArg Parameters.values hparams⟩

/-! ## The last of some answers -/

/-- The last result of a partial function on a list comes from an element after which
it has none. -/
theorem exists_last_of_filterMap {α β : Type} {f : α → Option β} {l : List α} {y : β}
    (h : (l.filterMap f).getLast? = some y) :
    ∃ before x later, l = before ++ x :: later ∧ f x = some y ∧ ∀ z ∈ later, f z = none := by
  induction l using List.reverseRecOn with
  | nil => cases h
  | append_singleton l x ih =>
    rw [List.filterMap_append] at h
    cases hx : f x with
    | some z =>
      have hz : z = y := by simpa [hx] using h
      exact ⟨l, x, [], rfl, hz ▸ hx, fun z hz => by cases hz⟩
    | none =>
      have hbefore : (l.filterMap f).getLast? = some y := by simpa [hx] using h
      obtain ⟨before, w, later, hl, hw, hlater⟩ := ih hbefore
      refine ⟨before, w, later ++ [x], by rw [hl, List.append_assoc]; rfl, hw, fun z hz => ?_⟩
      rcases List.mem_append.mp hz with hz | hz
      · exact hlater z hz
      · rw [List.mem_singleton.mp hz, hx]

namespace Db

variable {σ : Type}

/-! ## Answers to fetches -/

/-- The statement of a fetch that called the executor, and the rows that it got. -/
def answer? (db : Db σ) : Action → Option (Built × List Row)
  | .fetch s =>
    match s.build with
    | .ok b => (db.fetched? b).map fun rows => (b, rows)
    | .error _ => none
  | _ => none

/-- The answers to fetches in the course of a run, the first one first. -/
def answers (db : Db σ) : List Action → List (Built × List Row)
  | [] => []
  | action :: rest => (db.answer? action).toList ++ (db.perform action).answers rest

/-- What a run does to the cache. -/
def allCacheOps (db : Db σ) : List Action → List (Cache.Op (List Row))
  | [] => []
  | action :: rest => db.cacheOps action ++ (db.perform action).allCacheOps rest

theorem cache_performAll {db : Db σ} {c : Cache (List Row)} (hcache : db.cache = some c)
    (henabled : db.config.cacheEnabled = true) (actions : List Action) :
    (db.performAll actions).cache = some (c.applyAll (db.allCacheOps actions)) := by
  induction actions generalizing db c with
  | nil => exact hcache
  | cons action rest ih =>
    have hstep := cache_perform hcache henabled action
    rw [allCacheOps, Cache.applyAll_append]
    refine ih hstep ?_
    rw [config_perform]
    exact henabled

theorem config_performAll (db : Db σ) (actions : List Action) :
    (db.performAll actions).config = db.config := by
  induction actions generalizing db with
  | nil => rfl
  | cons action rest ih => exact (ih (db.perform action)).trans (db.config_perform action)

theorem mem_answers {db : Db σ} {actions : List Action} {answer : Built × List Row}
    (h : answer ∈ db.answers actions) : ∃ s : Statement, s.build = .ok answer.1 := by
  induction actions generalizing db with
  | nil => cases h
  | cons action rest ih =>
    rcases List.mem_append.mp h with h | h
    · rw [Option.mem_toList] at h
      cases action with
      | fetch s =>
        cases hs : s.build with
        | ok b =>
          rw [answer?, hs] at h
          obtain ⟨rows, -, rfl⟩ := Option.map_eq_some_iff.mp h
          exact ⟨s, hs⟩
        | error e =>
          rw [answer?, hs] at h
          cases h
      | _ => cases h
    · exact ih h

/-! ## Answers are what is put into the cache -/

/-- The rows of an answer to a statement with this key. -/
def rowsUnder? (key : String) (answer : Built × List Row) : Option (List Row) :=
  if answer.1.cacheKey = key then some answer.2 else none

theorem filterMap_cacheOps (db : Db σ) (action : Action) (key : String) :
    (db.cacheOps action).filterMap (Cache.Op.put? key) =
      (db.answer? action).toList.filterMap (rowsUnder? key) := by
  cases action with
  | fetch s =>
    cases hs : s.build with
    | ok b =>
      rw [cacheOps, answer?, hs]
      show (Cache.Op.get b.cacheKey :: (db.fetched? b).toList.map (.put b.cacheKey)).filterMap _ =
        ((db.fetched? b).map fun rows => (b, rows)).toList.filterMap _
      cases db.fetched? b with
      | none => rfl
      | some rows => simp [List.filterMap_cons, Cache.Op.put?, rowsUnder?]
    | error e =>
      rw [cacheOps, answer?, hs]
      rfl
  | _ => rfl

theorem lastPut_allCacheOps (db : Db σ) (actions : List Action) (key : String) :
    Cache.lastPut key (db.allCacheOps actions) =
      ((db.answers actions).filterMap (rowsUnder? key)).getLast? := by
  have hputs : (db.allCacheOps actions).filterMap (Cache.Op.put? key) =
      (db.answers actions).filterMap (rowsUnder? key) := by
    induction actions generalizing db with
    | nil => rfl
    | cons action rest ih =>
      rw [allCacheOps, answers, List.filterMap_append, List.filterMap_append,
        filterMap_cacheOps, ih]
  rw [Cache.lastPut, hputs]

/-- In a run from an empty cache, a fetch that returns rows without a call of the
executor returns those of the last answer for the same text and values. -/
theorem found_rows_eq_last_answer {db : Db σ} {capacity : Nat}
    (hcache : db.cache = some (.empty capacity)) (henabled : db.config.cacheEnabled = true)
    (actions : List Action) {s : Statement} {b : Built} {rows : List Row} (hs : s.build = .ok b)
    (hrows : ((db.performAll actions).withBuilt s (db.performAll actions).fetch).1 = .ok rows)
    (hnot : ¬ CalledSince (db.performAll actions) (db.performAll (actions ++ [.fetch s]))) :
    ∃ before c later, db.answers actions = before ++ (c, rows) :: later ∧ c.Alike b ∧
      ∀ answer ∈ later, ¬ answer.1.Alike b := by
  have hnow := cache_performAll hcache henabled actions
  set c := (Cache.empty capacity).applyAll (db.allCacheOps actions)
  have henabledNow : (db.performAll actions).config.cacheEnabled = true := by
    rw [config_performAll]
    exact henabled
  have hfetch : db.performAll (actions ++ [.fetch s]) = ((db.performAll actions).fetch b).2 := by
    rw [performAll_append]
    show ((db.performAll actions).withBuilt s (db.performAll actions).fetch).2 = _
    rw [withBuilt_of_ok _ hs]
  rw [withBuilt_of_ok _ hs] at hrows
  rw [hfetch] at hnot
  cases hfound : c.entries[b.cacheKey]? with
  | none => exact absurd (fetch_of_not_found hnow henabledNow hfound).2.1 hnot
  | some found =>
    have hsame : found = rows := by
      rw [(fetch_of_found hnow henabledNow hfound).1] at hrows
      exact Except.ok.inj hrows
    have hlast := Cache.lastPut_of_getElem? hfound
    rw [lastPut_allCacheOps, hsame] at hlast
    obtain ⟨before, answer, later, hsplit, hanswer, hlater⟩ := exists_last_of_filterMap hlast
    have hkey : answer.1.cacheKey = b.cacheKey ∧ answer.2 = rows := by
      simpa [rowsUnder?] using hanswer
    have hmem : answer ∈ db.answers actions := by
      rw [hsplit]
      exact List.mem_append_right before List.mem_cons_self
    obtain ⟨t, ht⟩ := mem_answers hmem
    refine ⟨before, answer.1, later, ?_, Statement.alike_of_cacheKey_eq ht hs hkey.1,
      fun other hother halike => ?_⟩
    · rw [hsplit, ← hkey.2]
    · have hnone := hlater other hother
      rw [rowsUnder?, if_pos (Built.cacheKey_eq_of_alike halike)] at hnone
      cases hnone

/-- An executor that numbers its answers.  Each has one row with its number. -/
def numbering : Executor Nat where
  query _ _ n := (⟨.ok [⟨[("n", .int (Int64.ofNat n))]⟩], 0⟩, n + 1)
  execute _ _ n := (⟨.ok 0, 0⟩, n + 1)

/-- A fetch after an uncached one of the same statement returns the rows of the first
fetch, which the executor numbered zero. -/
theorem found_rows_numbering :
    let db : Db Nat := { executor := numbering, state := 0, cache := some (.empty 1) }
    let s := Statement.valueSearch "x" (.int 7)
    ∃ b before c later, s.build = .ok b ∧
      db.answers [.fetch s, .fetchUncached s] =
        before ++ (c, [⟨[("n", .int 0)]⟩]) :: later ∧
      c.Alike b ∧ ∀ answer ∈ later, ¬ answer.1.Alike b := by
  intro db s
  obtain ⟨b, hs⟩ : ∃ b, s.build = .ok b := ⟨_, Statement.build_of_no_fault rfl⟩
  have hcache : db.cache = some (.empty 1) := rfl
  -- The first fetch finds nothing and puts its rows; the second one does not see the cache.
  obtain ⟨-, -, hfirst⟩ := fetch_of_not_found (b := b) hcache rfl (by simp [Cache.empty])
  have hnow : (db.performAll [.fetch s, .fetchUncached s]).cache =
      some ((Cache.empty 1).put b.cacheKey [⟨[("n", .int 0)]⟩]) := by
    show ((db.withBuilt s db.fetch).2.withBuilt s
      (db.withBuilt s db.fetch).2.fetchUncached).2.cache = _
    rw [withBuilt_of_ok db hs, withBuilt_of_ok _ hs]
    exact (cache_runQuery _ b .off).trans hfirst
  have hfound := (Cache.Kept.empty 1).getElem?_put_self Nat.one_ne_zero b.cacheKey
    ([⟨[("n", .int 0)]⟩] : List Row)
  obtain ⟨hrows, hnot, -⟩ := fetch_of_found hnow rfl hfound
  have hlast := found_rows_eq_last_answer hcache rfl [.fetch s, .fetchUncached s] hs
    (by rw [withBuilt_of_ok _ hs]; exact hrows)
    (by
      rw [performAll_append]
      show ¬ CalledSince _ (withBuilt _ s _).2
      rw [withBuilt_of_ok _ hs]
      exact hnot)
  obtain ⟨before, c, later, hanswers, halike, hlater⟩ := hlast
  exact ⟨b, before, c, later, hs, hanswers, halike, hlater⟩

end Db
end BoundSql
