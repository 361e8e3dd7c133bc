import BoundSql.Db.Basic
import BoundSql.Proofs.Cache.Upkeep

/-
What one operation on a database does.

Each function of a handle is told by one equation: what it answers, what it adds to the
record, where the database goes on and what the cache has after it.  Logging, calling
the executor and looking at the clock leave the cache and the settings alone
(`runQuery_eq`, `execute_eq`), and a fetch adds to this a look into the cache
(`fetch_eq_of_found`, `fetch_eq_of_not_found`).  A run is a list of actions, whose
statements are built as they come, and `cache_perform` says what an action does to the
cache.
-/

namespace BoundSql

/-- Whether the event is a call of the executor. -/
def Event.isCall : Event → Bool
  | call _ _ _ => true
  | _ => false

/-- The warning of a slow statement, if it was slow. -/
def Config.warnings (config : Config) (b : Built) (elapsed : Nat) : List Event :=
  match config.slowThreshold with
  | some threshold =>
    if threshold < elapsed then [.slow b.kind (threshold / 1000000) (config.displaySql b.sql)]
    else []
  | none => []

namespace Db

variable {σ : Type}

/-! ## Asking the executor -/

/-- The event of a logged statement. -/
def logged (db : Db σ) (b : Built) (use : CacheUse) : Event :=
  .statement db.config.level b.kind b.params.size use (db.config.displaySql b.sql)

/-- The handle after a statement is logged and the executor is called, which takes some
nanoseconds and ends in `state`. -/
def called (db : Db σ) (b : Built) (use : CacheUse) (route : Route) (elapsed : Nat) (state : σ) :
    Db σ :=
  { db with
    state
    events := db.events ++
      (db.logged b use :: .call route b.sql b.params :: db.config.warnings b elapsed).toArray }

theorem events_called (db : Db σ) (b : Built) (use : CacheUse) (route : Route) (elapsed : Nat)
    (state : σ) :
    (db.called b use route elapsed state).events.toList = db.events.toList ++
      db.logged b use :: .call route b.sql b.params :: db.config.warnings b elapsed := by
  simp [called]

theorem checkSlow_eq (db : Db σ) (b : Built) (elapsed : Nat) :
    db.checkSlow b elapsed =
      { db with events := db.events ++ (db.config.warnings b elapsed).toArray } := by
  unfold checkSlow Config.warnings
  cases db.config.slowThreshold with
  | none => simp
  | some threshold => by_cases hslow : threshold < elapsed <;> simp [hslow, record]

theorem runQuery_eq (db : Db σ) (b : Built) (use : CacheUse) :
    db.runQuery b use =
      ((db.executor.query b.sql b.params db.state).1.result,
        db.called b use .query (db.executor.query b.sql b.params db.state).1.elapsed
          (db.executor.query b.sql b.params db.state).2) := by
  simp only [runQuery, checkSlow_eq]
  simp [called, record, logStatement, logged]

theorem execute_eq (db : Db σ) (b : Built) :
    db.execute b =
      ((db.executor.execute b.sql b.params db.state).1.result,
        db.called b .off .execute (db.executor.execute b.sql b.params db.state).1.elapsed
          (db.executor.execute b.sql b.params db.state).2) := by
  simp only [execute, checkSlow_eq]
  simp [called, record, logStatement, logged]

@[simp] theorem cache_runQuery (db : Db σ) (b : Built) (use : CacheUse) :
    (db.runQuery b use).2.cache = db.cache := by
  rw [runQuery_eq]
  rfl

@[simp] theorem config_runQuery (db : Db σ) (b : Built) (use : CacheUse) :
    (db.runQuery b use).2.config = db.config := by
  rw [runQuery_eq]
  rfl

@[simp] theorem cache_execute (db : Db σ) (b : Built) : (db.execute b).2.cache = db.cache := by
  rw [execute_eq]
  rfl

@[simp] theorem config_execute (db : Db σ) (b : Built) : (db.execute b).2.config = db.config := by
  rw [execute_eq]
  rfl

/-- The executor was called between two states of a run. -/
def CalledSince (db later : Db σ) : Prop :=
  ∃ e ∈ later.events.toList.drop db.events.size, e.isCall = true

instance (db later : Db σ) : Decidable (CalledSince db later) :=
  inferInstanceAs (Decidable (∃ e ∈ _, _))

theorem calledSince_runQuery (db : Db σ) (b : Built) (use : CacheUse) :
    CalledSince db (db.runQuery b use).2 := by
  refine ⟨.call .query b.sql b.params, ?_, rfl⟩
  rw [runQuery_eq, events_called, ← Array.length_toList, List.drop_left]
  exact List.mem_cons_of_mem _ List.mem_cons_self

theorem not_calledSince_logStatement {db later : Db σ} (h : later.events = db.events) (b : Built)
    (use : CacheUse) : ¬ CalledSince db (later.logStatement b use) := by
  rintro ⟨e, he, hcall⟩
  have hevents : (later.logStatement b use).events.toList.drop db.events.size =
      [later.logged b use] := by
    simp [logStatement, record, logged, h]
  rw [hevents, List.mem_singleton] at he
  subst he
  cases hcall

/-! ## Looking into the cache -/

/-- The rows that the cache has under a key. -/
def rows? (db : Db σ) (key : String) : Option (List Row) :=
  db.cache.bind fun c => c.entries[key]?

/-- The handle after a key is looked up. -/
def lookedUp (db : Db σ) (key : String) : Db σ :=
  { db with cache := db.cache.map fun c => (c.get? key).2 }

theorem rows?_of_cache {db : Db σ} {c : Cache (List Row)} (hcache : db.cache = some c)
    (key : String) : db.rows? key = c.entries[key]? := by
  rw [rows?, hcache]
  rfl

theorem cacheGet?_eq (db : Db σ) (key : String) :
    db.cacheGet? key = (db.rows? key, db.lookedUp key) := by
  cases hcache : db.cache with
  | none =>
    simp only [cacheGet?, rows?, lookedUp, hcache, Option.bind_none, Option.map_none]
    rw [← hcache]
  | some c =>
    simp only [cacheGet?, rows?, lookedUp, hcache, Option.bind_some, Option.map_some,
      Cache.get?_fst]

/-- A key that is not found is not used. -/
theorem lookedUp_of_not_found {db : Db σ} {key : String} (h : db.rows? key = none) :
    db.lookedUp key = db := by
  cases hcache : db.cache with
  | none =>
    simp only [lookedUp, hcache, Option.map_none]
    rw [← hcache]
  | some c =>
    have hnone : (c.get? key).1 = none := by
      rw [Cache.get?_fst, ← rows?_of_cache hcache]
      exact h
    simp only [lookedUp, hcache, Option.map_some, Cache.get?_of_not_found hnone]
    rw [← hcache]

/-! ## Fetching -/

theorem fetch_eq_of_disabled {db : Db σ} (h : db.config.cacheEnabled ≠ true) (b : Built) :
    db.fetch b = db.runQuery b .off :=
  if_neg h

section
variable {db : Db σ} (henabled : db.config.cacheEnabled = true) {b : Built}
include henabled

theorem fetch_eq_of_found {rows : List Row} (h : db.rows? b.cacheKey = some rows) :
    db.fetch b = (.ok rows, (db.lookedUp b.cacheKey).logStatement b .hit) := by
  simp only [fetch, if_pos henabled, cacheGet?_eq, h]

theorem fetch_eq_of_not_found (h : db.rows? b.cacheKey = none) :
    db.fetch b =
      ((db.runQuery b .miss).1,
        match (db.runQuery b .miss).1 with
        | .ok rows => (db.runQuery b .miss).2.cachePut b.cacheKey rows
        | .error _ => (db.runQuery b .miss).2) := by
  simp only [fetch, if_pos henabled, cacheGet?_eq, h, lookedUp_of_not_found h]
  rcases db.runQuery b .miss with ⟨_ | _, later⟩ <;> rfl

end

@[simp] theorem config_fetch (db : Db σ) (b : Built) : (db.fetch b).2.config = db.config := by
  by_cases henabled : db.config.cacheEnabled = true
  · cases hrows : db.rows? b.cacheKey with
    | some rows =>
      rw [fetch_eq_of_found henabled hrows]
      rfl
    | none =>
      rw [fetch_eq_of_not_found henabled hrows]
      split <;> exact db.config_runQuery b .miss
  · rw [fetch_eq_of_disabled henabled]
    exact db.config_runQuery b .off

section
variable {db : Db σ} {c : Cache (List Row)} (hcache : db.cache = some c)
  (henabled : db.config.cacheEnabled = true)
include hcache henabled

/-- What is found in the cache is returned, and the executor is not called. -/
theorem fetch_of_found {b : Built} {rows : List Row} (h : c.entries[b.cacheKey]? = some rows) :
    (db.fetch b).1 = .ok rows ∧ ¬ CalledSince db (db.fetch b).2 ∧
      (db.fetch b).2.cache = some (c.apply (.get b.cacheKey)) := by
  rw [fetch_eq_of_found henabled ((rows?_of_cache hcache b.cacheKey).trans h)]
  refine ⟨rfl, not_calledSince_logStatement rfl b .hit, ?_⟩
  show db.cache.map _ = _
  rw [hcache]
  rfl

/-- Otherwise the executor is called.  What it answers is returned, and is put in the
cache if it is not an error. -/
theorem fetch_of_not_found {b : Built} (h : c.entries[b.cacheKey]? = none) :
    (db.fetch b).1 = (db.executor.query b.sql b.params db.state).1.result ∧
      CalledSince db (db.fetch b).2 ∧
      (db.fetch b).2.cache = some
        (match (db.executor.query b.sql b.params db.state).1.result with
          | .ok rows => c.applyAll [.get b.cacheKey, .put b.cacheKey rows]
          | .error _ => c.apply (.get b.cacheKey)) := by
  have hsame : c.apply (.get b.cacheKey) = c :=
    Cache.get?_of_not_found (by rw [Cache.get?_fst, h])
  have hresult : (db.runQuery b .miss).1 =
      (db.executor.query b.sql b.params db.state).1.result := rfl
  have hcalled := db.calledSince_runQuery b .miss
  have hafter := (db.cache_runQuery b .miss).trans hcache
  rw [fetch_eq_of_not_found henabled ((rows?_of_cache hcache b.cacheKey).trans h), hresult]
  cases (db.executor.query b.sql b.params db.state).1.result with
  | ok rows =>
    refine ⟨rfl, hcalled, ?_⟩
    show (db.runQuery b .miss).2.cache.map (·.put b.cacheKey rows) = some ((c.apply _).put _ rows)
    rw [hafter, hsame]
    rfl
  | error e =>
    refine ⟨rfl, hcalled, ?_⟩
    show (db.runQuery b .miss).2.cache = some (c.apply _)
    rw [hafter, hsame]

end

/-! ## Actions -/

/-- What can be done with a database and its cache. -/
inductive Action where
  | fetch (s : Statement)
  | fetchUncached (s : Statement)
  | insert (i : Insert)
  | update (u : Update)
  | delete (d : Delete)
  /-- Take the rows under a key out of the cache. -/
  | remove (key : String)
  | clear

def perform (db : Db σ) : Action → Db σ
  | .fetch s => (db.withBuilt s db.fetch).2
  | .fetchUncached s => (db.withBuilt s db.fetchUncached).2
  | .insert i => (db.insert i).2
  | .update u => (db.update u).2
  | .delete d => (db.delete d).2
  | .remove key => (db.cacheRemove key).2
  | .clear => db.cacheClear

def performAll (db : Db σ) (actions : List Action) : Db σ :=
  actions.foldl perform db

theorem performAll_append (db : Db σ) (a b : List Action) :
    db.performAll (a ++ b) = (db.performAll a).performAll b :=
  List.foldl_append

/-- Of a statement that is not built nothing is done. -/
theorem withBuilt_of_error {α : Type} (db : Db σ) {s : Statement} {e : Error}
    (h : s.build = .error e) (run : Built → Except Error α × Db σ) :
    db.withBuilt s run = (.error e, db) := by
  rw [withBuilt, h]

theorem withBuilt_of_ok {α : Type} (db : Db σ) {s : Statement} {b : Built} (h : s.build = .ok b)
    (run : Built → Except Error α × Db σ) : db.withBuilt s run = run b := by
  rw [withBuilt, h]

/-- What every run of a built statement keeps is kept. -/
theorem withBuilt_keeps {α β : Type} (db : Db σ) (s : Statement)
    (run : Built → Except Error α × Db σ) (part : Db σ → β)
    (h : ∀ b, part (run b).2 = part db) : part (db.withBuilt s run).2 = part db := by
  cases hs : s.build with
  | ok b => rw [withBuilt_of_ok db hs]; exact h b
  | error e => rw [withBuilt_of_error db hs]

theorem snd_insert (db : Db σ) (i : Insert) :
    (db.insert i).2 = (db.withBuilt (.insert i) db.fetchUncached).2 := by
  unfold insert
  split <;> rename_i h <;> rw [h]

/-- No action changes the settings. -/
theorem config_perform (db : Db σ) (action : Action) :
    (db.perform action).config = db.config := by
  cases action with
  | fetch s => exact db.withBuilt_keeps s db.fetch config db.config_fetch
  | fetchUncached s =>
    exact db.withBuilt_keeps s db.fetchUncached config fun b => db.config_runQuery b .off
  | insert i =>
    show (db.insert i).2.config = _
    rw [snd_insert]
    exact db.withBuilt_keeps (.insert i) db.fetchUncached config fun b => db.config_runQuery b .off
  | update u => exact db.withBuilt_keeps (.update u) db.execute config db.config_execute
  | delete d => exact db.withBuilt_keeps (.delete d) db.execute config db.config_execute
  | remove key =>
    show (db.cacheRemove key).2.config = _
    unfold cacheRemove
    split <;> rfl
  | clear => rfl

/-- The rows that the executor gives to a fetch, if it is called and succeeds. -/
def fetched? (db : Db σ) (b : Built) : Option (List Row) :=
  if CalledSince db (db.fetch b).2 then
    (db.executor.query b.sql b.params db.state).1.result.toOption
  else none

/-- What an action does to the cache of a handle that fetches through it. -/
def cacheOps (db : Db σ) : Action → List (Cache.Op (List Row))
  | .fetch s =>
    match s.build with
    | .ok b => .get b.cacheKey :: (db.fetched? b).toList.map (.put b.cacheKey)
    | .error _ => []
  | .remove key => [.remove key]
  | .clear => [.clear]
  | .fetchUncached _ => []
  | .insert _ => []
  | .update _ => []
  | .delete _ => []

theorem cache_perform {db : Db σ} {c : Cache (List Row)} (hcache : db.cache = some c)
    (henabled : db.config.cacheEnabled = true) (action : Action) :
    (db.perform action).cache = some (c.applyAll (db.cacheOps action)) := by
  cases action with
  | fetch s =>
    show (db.withBuilt s db.fetch).2.cache = _
    cases hs : s.build with
    | error e =>
      rw [withBuilt_of_error db hs, cacheOps, hs]
      exact hcache
    | ok b =>
      rw [withBuilt_of_ok db hs, cacheOps, hs]
      show _ = some (c.applyAll (.get b.cacheKey :: (db.fetched? b).toList.map (.put b.cacheKey)))
      cases hfound : c.entries[b.cacheKey]? with
      | some rows =>
        obtain ⟨-, hcalled, hfetch⟩ := fetch_of_found hcache henabled hfound
        rw [fetched?, if_neg hcalled]
        exact hfetch
      | none =>
        obtain ⟨-, hcalled, hfetch⟩ := fetch_of_not_found hcache henabled hfound
        rw [fetched?, if_pos hcalled, hfetch]
        split
        · rename_i rows hrows
          rw [hrows]
          rfl
        · rename_i e he
          rw [he]
          rfl
  | fetchUncached s =>
    refine Eq.trans ?_ hcache
    exact db.withBuilt_keeps s db.fetchUncached Db.cache fun b => db.cache_runQuery b .off
  | insert i =>
    refine Eq.trans ?_ hcache
    show (db.insert i).2.cache = _
    rw [snd_insert]
    exact db.withBuilt_keeps (.insert i) db.fetchUncached Db.cache fun b =>
      db.cache_runQuery b .off
  | update u =>
    exact (db.withBuilt_keeps (.update u) db.execute Db.cache db.cache_execute).trans hcache
  | delete d =>
    exact (db.withBuilt_keeps (.delete d) db.execute Db.cache db.cache_execute).trans hcache
  | remove key =>
    show (db.cacheRemove key).2.cache = _
    rw [cacheRemove, hcache]
    rfl
  | clear =>
    show db.cache.map Cache.clear = _
    rw [hcache]
    rfl

end Db
end BoundSql
