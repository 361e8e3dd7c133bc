import BoundSql.Proofs.Db.Operation

/-
What an operation logs, asks and keeps.

An operation runs one statement, for rows past the cache, for rows through it, or for
a number of rows.  `serve_of_off`, `serve_of_found` and `serve_of_not_found` say what is
done then, all of it: what is answered, what is recorded, where the database goes on
and what the cache has.  From this follow the account of one operation, `Accounted`,
and by induction that of a run.  The main statement is `run_accounted`.
-/

namespace BoundSql

/-- An operation on a database that is answered in `α`. -/
inductive Operation : Type → Type 1 where
  | fetch (b : Built) : Operation (List Row)
  | fetchUncached (b : Built) : Operation (List Row)
  | execute (b : Built) : Operation UInt64
  | fetchAll (q : Query) : Operation (List Row)
  | fetchAs {α : Type} (q : Query) (read : Row → Except Error α) : Operation (List α)
  | insert (i : Insert) : Operation Int64
  | update (u : Update) : Operation UInt64
  | delete (d : Delete) : Operation UInt64

/-- What a statement is run for, and how the answer to it is read. -/
inductive Purpose : Type → Type 1 where
  /-- Rows, which may be looked for in the cache. -/
  | rows {α : Type} (cached : Bool) (read : List Row → Except Error α) : Purpose α
  /-- The number of rows affected. -/
  | count : Purpose UInt64

namespace Purpose

variable {α : Type}

def route : Purpose α → Route
  | rows _ _ => .query
  | count => .execute

def cached : Purpose α → Bool
  | rows cached _ => cached
  | count => false

/-- How rows are read, if it is rows that are asked for. -/
def answer? : Purpose α → List Row → Option (Except Error α)
  | rows _ read, found => some (read found)
  | count, _ => none

end Purpose

namespace Reply

variable {α : Type}

/-- The error, if the reply is one. -/
def error? (reply : Reply α) : Option Error :=
  match reply.result with
  | .error e => some e
  | .ok _ => none

theorem error?_of_ok {reply : Reply α} {a : α} (h : reply.result = .ok a) :
    reply.error? = none := by
  rw [error?, h]

theorem error?_of_error {reply : Reply α} {e : Error} (h : reply.result = .error e) :
    reply.error? = some e := by
  rw [error?, h]

theorem result_of_error? {reply : Reply α} {e : Error} (h : reply.error? = some e) :
    reply.result = .error e := by
  obtain ⟨result, elapsed⟩ := reply
  cases result with
  | ok a => cases h
  | error other =>
    cases h
    rfl

end Reply

/-- The identity that the database gave to an inserted row. -/
def Insert.identity : List Row → Except Error Int64
  | row :: _ => row.decode Int64 identityField
  | [] => .error (.notFound "INSERT returned no identity row")

namespace Operation

variable {α : Type}

/-- The statement of an operation, if it can be built. -/
def built : Operation α → Except Error Built
  | fetch b => .ok b
  | fetchUncached b => .ok b
  | execute b => .ok b
  | fetchAll q => (Statement.select q).build
  | fetchAs q _ => (Statement.select q).build
  | insert i => (Statement.insert i).build
  | update u => (Statement.update u).build
  | delete d => (Statement.delete d).build

def purpose : Operation α → Purpose α
  | fetch _ => .rows true .ok
  | fetchUncached _ => .rows false .ok
  | execute _ => .count
  | fetchAll _ => .rows true .ok
  | fetchAs _ read => .rows true fun found => found.mapM read
  | insert _ => .rows false Insert.identity
  | update _ => .count
  | delete _ => .count

end Operation

namespace Db

variable {σ α : Type}

def run (db : Db σ) : Operation α → Except Error α × Db σ
  | .fetch b => db.fetch b
  | .fetchUncached b => db.fetchUncached b
  | .execute b => db.execute b
  | .fetchAll q => db.fetchAll q
  | .fetchAs q read => db.fetchAs q read
  | .insert i => db.insert i
  | .update u => db.update u
  | .delete d => db.delete d

def runAll (db : Db σ) (ops : List (Σ α, Operation α)) : Db σ :=
  ops.foldl (fun db o => (db.run o.2).2) db

/-- Read the rows that were got. -/
def reading (read : List Row → Except Error α) (got : Except Error (List Row) × Db σ) :
    Except Error α × Db σ :=
  (got.1.bind read, got.2)

/-- Run a built statement for a purpose. -/
def serve (db : Db σ) (b : Built) : Purpose α → Except Error α × Db σ
  | .rows true read => reading read (db.fetch b)
  | .rows false read => reading read (db.fetchUncached b)
  | .count => db.execute b

theorem run_of_error (db : Db σ) {o : Operation α} {e : Error} (h : o.built = .error e) :
    db.run o = (.error e, db) := by
  cases o with
  | fetch b => cases h
  | fetchUncached b => cases h
  | execute b => cases h
  | fetchAll q => exact db.withBuilt_of_error h db.fetch
  | fetchAs q read =>
    have hfetch : db.fetchAll q = (.error e, db) := db.withBuilt_of_error h db.fetch
    simp only [run, fetchAs, hfetch]
  | insert i => simp only [run, insert, db.withBuilt_of_error h]
  | update u => exact db.withBuilt_of_error h db.execute
  | delete d => exact db.withBuilt_of_error h db.execute

theorem reading_ok (got : Except Error (List Row) × Db σ) : reading .ok got = got := by
  obtain ⟨result, later⟩ := got
  cases result <;> rfl

/-- An operation whose statement is built runs it for its purpose. -/
theorem run_of_ok (db : Db σ) {o : Operation α} {b : Built} (h : o.built = .ok b) :
    db.run o = db.serve b o.purpose := by
  cases o with
  | fetch b =>
    cases h
    exact (reading_ok _).symm
  | fetchUncached b =>
    cases h
    exact (reading_ok _).symm
  | execute b =>
    cases h
    rfl
  | fetchAll q => exact (db.withBuilt_of_ok h db.fetch).trans (reading_ok _).symm
  | fetchAs q read =>
    have hfetch : db.fetchAll q = db.fetch b := db.withBuilt_of_ok h db.fetch
    simp only [run, fetchAs, hfetch, Operation.purpose, serve, reading]
    rcases db.fetch b with ⟨_ | _, later⟩ <;> rfl
  | insert i =>
    simp only [run, insert, db.withBuilt_of_ok h, Operation.purpose, serve, reading]
    rcases db.fetchUncached b with ⟨_ | _ | _, later⟩ <;> rfl
  | update u => exact db.withBuilt_of_ok h db.execute
  | delete d => exact db.withBuilt_of_ok h db.execute

/-! ## Asking the executor -/

/-- The reply of the executor, read for a purpose, and its next state. -/
def ask (db : Db σ) (b : Built) : Purpose α → Reply α × σ
  | .rows _ read =>
    let (reply, state) := db.executor.query b.sql b.params db.state
    (⟨reply.result.bind read, reply.elapsed⟩, state)
  | .count => db.executor.execute b.sql b.params db.state

/-- The error that the executor replies, if it does. -/
def failure? (db : Db σ) (b : Built) : Purpose α → Option Error
  | .rows _ _ => (db.executor.query b.sql b.params db.state).1.error?
  | .count => (db.executor.execute b.sql b.params db.state).1.error?

/-- The handle after the statement is logged and the executor is asked. -/
def asked (db : Db σ) (b : Built) (use : CacheUse) (p : Purpose α) : Db σ :=
  db.called b use p.route (db.ask b p).1.elapsed (db.ask b p).2

theorem reading_runQuery (db : Db σ) (b : Built) (use : CacheUse) (cached : Bool)
    (read : List Row → Except Error α) :
    reading read (db.runQuery b use) =
      ((db.ask b (.rows cached read)).1.result, db.asked b use (.rows cached read)) := by
  rw [runQuery_eq]
  rfl

/-- A failing executor fails the operation, with the same error. -/
theorem result_ask_of_failure {db : Db σ} {b : Built} {p : Purpose α} {e : Error}
    (h : db.failure? b p = some e) : (db.ask b p).1.result = .error e := by
  cases p with
  | count => exact Reply.result_of_error? h
  | rows cached read =>
    have hreply := Reply.result_of_error? h
    show Except.bind _ read = _
    rw [hreply]
    rfl

/-! ## What the cache has afterwards -/

/-- Looking a key up changes no rows. -/
theorem rows?_lookedUp (db : Db σ) (key other : String) :
    (db.lookedUp key).rows? other = db.rows? other := by
  cases hcache : db.cache with
  | none => simp only [rows?, lookedUp, hcache, Option.map_none]
  | some c =>
    have hentries : (c.get? key).2.entries = c.entries := by
      unfold Cache.get?
      split <;> rfl
    simp only [rows?, lookedUp, hcache, Option.map_some, Option.bind_some, hentries]

/-- Whatever is found after rows were put in was there before, or is these rows under
their key. -/
theorem rows?_cachePut {db : Db σ} {key other : String} {rows found : List Row}
    (h : (db.cachePut key rows).rows? other = some found) :
    db.rows? other = some found ∨ (other = key ∧ found = rows) := by
  cases hcache : db.cache with
  | none =>
    simp only [rows?, cachePut, hcache, Option.map_none, Option.bind_none] at h
    cases h
  | some c =>
    simp only [rows?, cachePut, hcache, Option.map_some, Option.bind_some] at h ⊢
    by_cases hzero : c.capacity = 0
    · rw [c.put_of_capacity_eq_zero hzero] at h
      exact .inl h
    · rw [c.put_of_capacity_ne_zero hzero] at h
      -- Eviction only takes entries out, so what is left was there or was inserted.
      have hinserted := Cache.getElem?_of_evict h
      rw [Std.TreeMap.getElem?_insert] at hinserted
      by_cases heq : key = other
      · rw [if_pos (Std.LawfulEqCmp.compare_eq_iff_eq.mpr heq)] at hinserted
        exact .inr ⟨heq.symm, (Option.some.inj hinserted).symm⟩
      · rw [if_neg (mt Std.LawfulEqCmp.eq_of_compare heq)] at hinserted
        exact .inl hinserted

/-! ## The three ways to run a statement -/

/-- Past the cache the executor is asked. -/
theorem serve_of_off {db : Db σ} {p : Purpose α}
    (h : ¬ (p.cached = true ∧ db.config.cacheEnabled = true)) (b : Built) :
    db.serve b p = ((db.ask b p).1.result, db.asked b .off p) := by
  cases p with
  | count => exact db.execute_eq b
  | rows cached read =>
    cases cached with
    | false => exact db.reading_runQuery b .off false read
    | true =>
      rw [serve, fetch_eq_of_disabled fun henabled => h ⟨rfl, henabled⟩]
      exact db.reading_runQuery b .off true read

section
variable {db : Db σ} {p : Purpose α} (hp : p.cached = true)
  (henabled : db.config.cacheEnabled = true) {b : Built}
include hp henabled

/-- Rows that the cache has are the answer. -/
theorem serve_of_found {rows : List Row} (h : db.rows? b.cacheKey = some rows) :
    ∃ answer, p.answer? rows = some answer ∧
      db.serve b p = (answer, (db.lookedUp b.cacheKey).logStatement b .hit) := by
  cases p with
  | count => cases hp
  | rows cached read =>
    cases hp
    refine ⟨read rows, rfl, ?_⟩
    rw [serve, fetch_eq_of_found henabled h]
    rfl

/-- For rows that the cache does not have the executor is asked, and unless it fails
its answer is put into the cache. -/
theorem serve_of_not_found (h : db.rows? b.cacheKey = none) :
    (∃ e, db.failure? b p = some e ∧ db.serve b p = (.error e, db.asked b .miss p)) ∨
      ∃ rows answer, (db.executor.query b.sql b.params db.state).1.result = .ok rows ∧
        db.failure? b p = none ∧ p.answer? rows = some answer ∧
        db.serve b p = (answer, (db.asked b .miss p).cachePut b.cacheKey rows) := by
  cases p with
  | count => cases hp
  | rows cached read =>
    cases hp
    cases hreply : (db.executor.query b.sql b.params db.state).1.result with
    | error e =>
      refine .inl ⟨e, Reply.error?_of_error hreply, ?_⟩
      rw [serve, fetch_eq_of_not_found henabled h, runQuery_eq, hreply]
      rfl
    | ok rows =>
      refine .inr ⟨rows, read rows, rfl, Reply.error?_of_ok hreply, rfl, ?_⟩
      rw [serve, fetch_eq_of_not_found henabled h, runQuery_eq, hreply]
      rfl

end

/-- Past the cache it does not matter what is in it, and it stays as it is. -/
theorem serve_with_cache {db : Db σ} {p : Purpose α}
    (h : ¬ (p.cached = true ∧ db.config.cacheEnabled = true)) (b : Built)
    (cache : Option (Cache (List Row))) :
    { db with cache }.serve b p = ((db.serve b p).1, { (db.serve b p).2 with cache }) := by
  have hother : ¬ (p.cached = true ∧ { db with cache }.config.cacheEnabled = true) := h
  rw [serve_of_off h, serve_of_off hother]
  cases p <;> rfl

/-! ## The account of an operation -/

/-- How `b` is run for a purpose and answered.  `use` says what the cache had to do
with it. -/
structure Accounted (now : Db σ) (b : Built) (p : Purpose α) (use : CacheUse)
    (answer : Except Error α) (later : Db σ) : Prop where
  /-- The statement is logged once.  Then, unless its rows are found in the cache, the
  executor is called once with its text and values, and what is slow is warned of. -/
  events : later.events.toList = now.events.toList ++ now.logged b use ::
    if use = .hit then []
    else .call p.route b.sql b.params :: now.config.warnings b (now.ask b p).1.elapsed
  /-- The database goes on as that one call leaves it. -/
  state : later.state = if use = .hit then now.state else (now.ask b p).2
  answered : use ≠ .hit → answer = (now.ask b p).1.result
  /-- An error of the executor is the answer, and the cache stays as it is. -/
  failed : use ≠ .hit → ∀ e, now.failure? b p = some e →
    answer = .error e ∧ later.cache = now.cache
  /-- The cache is looked into if it is enabled, and for rows that may be kept only. -/
  consulted : use ≠ .off ↔ p.cached = true ∧ now.config.cacheEnabled = true
  found : use = .hit → ∃ rows, now.rows? b.cacheKey = some rows ∧ p.answer? rows = some answer
  missed : use = .miss → now.rows? b.cacheKey = none
  untouched : use = .off → later.cache = now.cache
  /-- Rows that are found become the last ones used. -/
  refreshed : use = .hit → later.cache = (now.lookedUp b.cacheKey).cache
  /-- Rows that are not found are asked for, and put into the cache. -/
  stored : use = .miss → ∀ rows,
    (now.executor.query b.sql b.params now.state).1.result = .ok rows →
      later.cache = (now.cachePut b.cacheKey rows).cache
  /-- Rows are added to the cache only by a fetch that does not find any and succeeds.
  They are added under its own key, and are those that it is answered. -/
  added : ∀ key rows, later.rows? key = some rows → now.rows? key ≠ some rows →
    use = .miss ∧ key = b.cacheKey ∧ p.answer? rows = some answer ∧
      (now.executor.query b.sql b.params now.state).1.result = .ok rows

theorem accounted_off {now : Db σ} {p : Purpose α}
    (h : ¬ (p.cached = true ∧ now.config.cacheEnabled = true)) (b : Built) :
    Accounted now b p .off (now.ask b p).1.result (now.asked b .off p) where
  events := events_called ..
  state := rfl
  answered _ := rfl
  failed _ _ he := ⟨result_ask_of_failure he, rfl⟩
  consulted := iff_of_false (fun hne => hne rfl) h
  found hhit := by cases hhit
  missed hmiss := by cases hmiss
  untouched _ := rfl
  refreshed hhit := by cases hhit
  stored hmiss := by cases hmiss
  added _ _ hlater hnow := absurd hlater hnow

section
variable {now : Db σ} {p : Purpose α} (hp : p.cached = true)
  (henabled : now.config.cacheEnabled = true) {b : Built}
include hp henabled

theorem accounted_hit {rows : List Row} {answer : Except Error α}
    (hrows : now.rows? b.cacheKey = some rows) (hanswer : p.answer? rows = some answer) :
    Accounted now b p .hit answer ((now.lookedUp b.cacheKey).logStatement b .hit) where
  events := by simp [logStatement, record, lookedUp, logged]
  state := rfl
  answered hne := absurd rfl hne
  failed hne := absurd rfl hne
  consulted := iff_of_true (by decide) ⟨hp, henabled⟩
  found _ := ⟨rows, hrows, hanswer⟩
  missed hmiss := by cases hmiss
  untouched hoff := by cases hoff
  refreshed _ := rfl
  stored hmiss := by cases hmiss
  added key found hlater hnow := by
    refine absurd ?_ hnow
    rw [← rows?_lookedUp now b.cacheKey]
    exact hlater

theorem accounted_miss_of_failure (hrows : now.rows? b.cacheKey = none) {e : Error}
    (he : now.failure? b p = some e) :
    Accounted now b p .miss (.error e) (now.asked b .miss p) where
  events := events_called ..
  state := rfl
  answered _ := (result_ask_of_failure he).symm
  failed _ other hother := by
    rw [he] at hother
    cases hother
    exact ⟨rfl, rfl⟩
  consulted := iff_of_true (by decide) ⟨hp, henabled⟩
  found hhit := by cases hhit
  missed _ := hrows
  untouched hoff := by cases hoff
  refreshed hhit := by cases hhit
  stored _ rows hgiven := by
    cases p with
    | count => cases hp
    | rows cached read =>
      have hnone : now.failure? b (.rows cached read) = none := Reply.error?_of_ok hgiven
      rw [hnone] at he
      cases he
  added _ _ hlater hnow := absurd hlater hnow

theorem accounted_miss_of_rows (hrows : now.rows? b.cacheKey = none) {rows : List Row}
    {answer : Except Error α}
    (hgiven : (now.executor.query b.sql b.params now.state).1.result = .ok rows)
    (hnone : now.failure? b p = none) (hanswer : p.answer? rows = some answer) :
    Accounted now b p .miss answer ((now.asked b .miss p).cachePut b.cacheKey rows) where
  events := now.events_called b .miss p.route _ (now.ask b p).2
  state := rfl
  answered _ := by
    cases p with
    | count => cases hp
    | rows cached read =>
      cases hanswer
      show read rows = Except.bind _ read
      rw [hgiven]
      rfl
  failed _ e he := by
    rw [hnone] at he
    cases he
  consulted := iff_of_true (by decide) ⟨hp, henabled⟩
  found hhit := by cases hhit
  missed _ := hrows
  untouched hoff := by cases hoff
  refreshed hhit := by cases hhit
  stored _ others hothers := by
    rw [hgiven] at hothers
    cases hothers
    rfl
  added key found hlater hnow := by
    rcases rows?_cachePut hlater with hbefore | ⟨hkey, hfound⟩
    · exact absurd hbefore hnow
    · rw [hfound]
      exact ⟨rfl, hkey, hanswer, hgiven⟩

end

/-- Every run of a built statement is accounted for. -/
theorem exists_accounted (now : Db σ) (b : Built) (p : Purpose α) :
    ∃ use, Accounted now b p use (now.serve b p).1 (now.serve b p).2 := by
  by_cases h : p.cached = true ∧ now.config.cacheEnabled = true
  · obtain ⟨hp, henabled⟩ := h
    cases hrows : now.rows? b.cacheKey with
    | some rows =>
      obtain ⟨answer, hanswer, hserve⟩ := serve_of_found hp henabled hrows
      rw [hserve]
      exact ⟨.hit, accounted_hit hp henabled hrows hanswer⟩
    | none =>
      rcases serve_of_not_found hp henabled hrows with
        ⟨e, he, hserve⟩ | ⟨rows, answer, hgiven, hnone, hanswer, hserve⟩
      · rw [hserve]
        exact ⟨.miss, accounted_miss_of_failure hp henabled hrows he⟩
      · rw [hserve]
        exact ⟨.miss, accounted_miss_of_rows hp henabled hrows hgiven hnone hanswer⟩
  · rw [serve_of_off h]
    exact ⟨.off, accounted_off h b⟩

end Db

/-! ## The account of a run -/

namespace Event

def isStatement : Event → Bool
  | statement _ _ _ _ _ => true
  | _ => false

/-- A statement is logged whose rows were not found in the cache. -/
def needsCall : Event → Bool
  | statement _ _ _ use _ => use != .hit
  | _ => false

end Event

/-- A warning is neither a logged statement nor a call. -/
theorem Config.countP_warnings (config : Config) (b : Built) (elapsed : Nat) :
    (config.warnings b elapsed).countP Event.isStatement = 0 ∧
      (config.warnings b elapsed).countP Event.isCall = 0 ∧
      (config.warnings b elapsed).countP Event.needsCall = 0 := by
  unfold warnings
  split
  · split <;> exact ⟨rfl, rfl, rfl⟩
  · exact ⟨rfl, rfl, rfl⟩

namespace Db

variable {σ α : Type}

/-- One statement is logged, and there is one call if it needs one. -/
theorem Accounted.events_added {now later : Db σ} {b : Built} {p : Purpose α} {use : CacheUse}
    {answer : Except Error α} (h : Accounted now b p use answer later) :
    ∃ added, later.events.toList = now.events.toList ++ added ∧
      added.countP Event.isStatement = 1 ∧
      added.countP Event.isCall = added.countP Event.needsCall := by
  refine ⟨_, h.events, ?_⟩
  obtain ⟨hstatements, hcalls, hneeds⟩ := now.config.countP_warnings b (now.ask b p).1.elapsed
  by_cases hhit : use = .hit
  · subst hhit
    exact ⟨rfl, rfl⟩
  · rw [if_neg hhit]
    simp only [List.countP_cons, hstatements, hcalls, hneeds]
    simp [logged, Event.isStatement, Event.isCall, Event.needsCall, hhit]

theorem events_run (db : Db σ) (o : Operation α) :
    ∃ added, (db.run o).2.events.toList = db.events.toList ++ added ∧
      added.countP Event.isStatement = (if o.built.isOk then 1 else 0) ∧
      added.countP Event.isCall = added.countP Event.needsCall := by
  cases hb : o.built with
  | error e =>
    rw [run_of_error db hb]
    exact ⟨[], (List.append_nil _).symm, rfl, rfl⟩
  | ok b =>
    rw [run_of_ok db hb]
    obtain ⟨use, haccounted⟩ := exists_accounted db b o.purpose
    exact haccounted.events_added

/-- In a run there are as many logged statements as operations whose statement is built,
and as many calls as logged statements that need one. -/
theorem events_runAll (db : Db σ) (ops : List (Σ α, Operation α)) :
    ∃ added, (db.runAll ops).events.toList = db.events.toList ++ added ∧
      added.countP Event.isStatement = ops.countP (fun o => o.2.built.isOk) ∧
      added.countP Event.isCall = added.countP Event.needsCall := by
  induction ops generalizing db with
  | nil => exact ⟨[], (List.append_nil _).symm, rfl, rfl⟩
  | cons o rest ih =>
    obtain ⟨first, hfirst, hstatement, hcall⟩ := events_run db o.2
    obtain ⟨others, hothers, hstatements, hcalls⟩ := ih (db.run o.2).2
    refine ⟨first ++ others, ?_, ?_, ?_⟩
    · rw [← List.append_assoc, ← hfirst]
      exact hothers
    · rw [List.countP_append, hstatement, hstatements, List.countP_cons, Nat.add_comm]
    · rw [List.countP_append, List.countP_append, hcall, hcalls]

/-- Of an operation whose statement cannot be built nothing is done.  Every other one is
accounted for, its answer as well as its log, its call and its cache.  Unless it looks into
the cache it goes the same way whatever is in there.  A run as a whole logs one statement
for each operation that can be built, and calls the executor once for each of them that did
not find its rows. -/
theorem run_accounted (db : Db σ) (ops : List (Σ α, Operation α)) :
    (∀ before o after, ops = before ++ o :: after →
      let now := db.runAll before
      (∀ e, o.2.built = .error e → now.run o.2 = (.error e, now)) ∧
      ∀ b, o.2.built = .ok b → ∃ use,
        Accounted now b o.2.purpose use (now.run o.2).1 (now.run o.2).2 ∧
        (use = .off → ∀ cache, { now with cache }.run o.2 =
          ((now.run o.2).1, { (now.run o.2).2 with cache }))) ∧
    ∃ added, (db.runAll ops).events.toList = db.events.toList ++ added ∧
      added.countP Event.isStatement = ops.countP (fun o => o.2.built.isOk) ∧
      added.countP Event.isCall = added.countP Event.needsCall := by
  refine ⟨?_, events_runAll db ops⟩
  intro before o after _ now
  refine ⟨fun e he => run_of_error now he, fun b hb => ?_⟩
  rw [run_of_ok now hb]
  obtain ⟨use, haccounted⟩ := exists_accounted now b o.2.purpose
  refine ⟨use, haccounted, fun hoff cache => ?_⟩
  -- The cache was not consulted, so another one would not be either.
  have hnot := mt haccounted.consulted.mpr (not_not_intro hoff)
  rw [run_of_ok _ hb]
  exact serve_with_cache hnot b cache

/-- Of two equal fetches and an update that sets nothing two statements are logged.  The
executor, which counts its calls, is called once. -/
example :
    let executor : Executor Nat :=
      ⟨fun _ _ n => (⟨.ok [], 0⟩, n + 1), fun _ _ n => (⟨.ok 0, 0⟩, n + 1)⟩
    let db : Db Nat := { executor, state := 0, cache := some (.empty 1) }
    let t : Table := ⟨"t", none, none⟩
    let fetch := Operation.fetchAll (.ofClauses [.source (.table t)])
    let later := db.runAll [⟨_, fetch⟩, ⟨_, .update ⟨t, [], []⟩⟩, ⟨_, fetch⟩]
    later.events.toList.countP Event.isStatement = 2 ∧ later.state = 1 := by
  cbv

end Db
end BoundSql
