import BoundSql.Cache
import BoundSql.Row.Decode
import BoundSql.Statement

/-
Running statements against a database.

What the database does is left to an executor with a state of its own.  A handle
adds the cache of rows, the settings, and a record of all that happened: each
statement logged, each call of the executor, and each warning of a slow one, in
their order.  Of a long statement the log shows the beginning only.
-/

namespace BoundSql

/-! ## Settings -/

/-- Levels of the log, in order of urgency. -/
inductive Level where
  | trace
  | debug
  | info
  | warn
  | error
  deriving DecidableEq

def Level.word : Level → String
  | trace => "TRACE"
  | debug => "DEBUG"
  | info => "INFO"
  | warn => "WARN"
  | error => "ERROR"

structure Config where
  /-- The level at which statements are logged. -/
  level : Level := .debug
  /-- The nanoseconds past which a statement is slow. -/
  slowThreshold : Option Nat := none
  /-- The greatest number of bytes of a statement that the log shows. -/
  maxSqlLength : Option Nat := some 200
  /-- Whether the rows of selects are kept. -/
  cacheEnabled : Bool := true

namespace Config

/-- As many characters from the start as take no more than `bytes` bytes. -/
def cut : Nat → List Char → List Char
  | _, [] => []
  | bytes, c :: rest =>
    if c.utf8Size ≤ bytes then c :: cut (bytes - c.utf8Size) rest else []

/-- The statement as the log shows it.  Three dots stand for what is left out. -/
def displaySql (config : Config) (sql : String) : String :=
  match config.maxSqlLength with
  | none => sql
  | some bytes =>
    if sql.utf8ByteSize ≤ bytes then sql else String.ofList (cut bytes sql.toList) ++ "..."

end Config

/-! ## Executors and events -/

/-- The answer of an executor, and the nanoseconds it took. -/
structure Reply (α : Type) where
  result : Except Error α
  elapsed : Nat

/-- A database with states `σ`. -/
structure Executor (σ : Type) where
  /-- Run a statement for its rows. -/
  query : String → Parameters → σ → Reply (List Row) × σ
  /-- Run a statement for the number of rows it affects. -/
  execute : String → Parameters → σ → Reply UInt64 × σ

/-- What a call asks of the executor. -/
inductive Route where
  | query
  | execute
  deriving DecidableEq

inductive CacheUse where
  | hit
  | miss
  | off
  deriving DecidableEq

def CacheUse.word : CacheUse → String
  | hit => "hit"
  | miss => "miss"
  | off => "off"

inductive Event where
  | statement (level : Level) (kind : StatementKind) (paramCount : Nat) (cache : CacheUse)
      (sql : String)
  | call (route : Route) (sql : String) (params : Parameters)
  /-- A warning, with the threshold in milliseconds. -/
  | slow (kind : StatementKind) (threshold : Nat) (sql : String)

structure Db (σ : Type) where
  executor : Executor σ
  state : σ
  /-- A handle may do without a cache. -/
  cache : Option (Cache (List Row)) := none
  config : Config := {}
  events : Array Event := #[]

namespace Db

variable {σ : Type}

def record (db : Db σ) (e : Event) : Db σ :=
  { db with events := db.events.push e }

def logStatement (db : Db σ) (b : Built) (cache : CacheUse) : Db σ :=
  db.record (.statement db.config.level b.kind b.params.size cache (db.config.displaySql b.sql))

/-- Warn if a statement took longer than the threshold. -/
def checkSlow (db : Db σ) (b : Built) (elapsed : Nat) : Db σ :=
  match db.config.slowThreshold with
  | some threshold =>
    if threshold < elapsed then
      db.record (.slow b.kind (threshold / 1000000) (db.config.displaySql b.sql))
    else db
  | none => db

/-- Ask the executor for rows. -/
def runQuery (db : Db σ) (b : Built) (cache : CacheUse) : Except Error (List Row) × Db σ :=
  let db := (db.logStatement b cache).record (.call .query b.sql b.params)
  let (reply, state) := db.executor.query b.sql b.params db.state
  (reply.result, { db with state }.checkSlow b reply.elapsed)

def cacheGet? (db : Db σ) (key : String) : Option (List Row) × Db σ :=
  match db.cache with
  | some cache =>
    let (found, cache) := cache.get? key
    (found, { db with cache := some cache })
  | none => (none, db)

def cachePut (db : Db σ) (key : String) (rows : List Row) : Db σ :=
  { db with cache := db.cache.map (·.put key rows) }

/-- Forget the rows of one statement, and give them. -/
def cacheRemove (db : Db σ) (key : String) : Option (List Row) × Db σ :=
  match db.cache with
  | some cache =>
    let (removed, cache) := cache.remove key
    (removed, { db with cache := some cache })
  | none => (none, db)

def cacheClear (db : Db σ) : Db σ :=
  { db with cache := db.cache.map Cache.clear }

/-! ## Operations -/

/-- The rows of a statement.  The executor is asked only if the cache does not
have them, and what it answers is then kept, unless it fails. -/
def fetch (db : Db σ) (b : Built) : Except Error (List Row) × Db σ :=
  if db.config.cacheEnabled then
    match db.cacheGet? b.cacheKey with
    | (some rows, db) => (.ok rows, db.logStatement b .hit)
    | (none, db) =>
      match db.runQuery b .miss with
      | (.ok rows, db) => (.ok rows, db.cachePut b.cacheKey rows)
      | failed => failed
  else db.runQuery b .off

/-- The rows of a statement, past the cache. -/
def fetchUncached (db : Db σ) (b : Built) : Except Error (List Row) × Db σ :=
  db.runQuery b .off

/-- The number of rows that a statement affects. -/
def execute (db : Db σ) (b : Built) : Except Error UInt64 × Db σ :=
  let db := (db.logStatement b .off).record (.call .execute b.sql b.params)
  let (reply, state) := db.executor.execute b.sql b.params db.state
  (reply.result, { db with state }.checkSlow b reply.elapsed)

/-- Build a statement and go on with it.  If it cannot be built, nothing
happens. -/
def withBuilt {α : Type} (db : Db σ) (s : Statement)
    (run : Built → Except Error α × Db σ) : Except Error α × Db σ :=
  match s.build with
  | .ok b => run b
  | .error e => (.error e, db)

def fetchAll (db : Db σ) (q : Query) : Except Error (List Row) × Db σ :=
  db.withBuilt (.select q) db.fetch

/-- The rows of a query, each read as a whole.  The first that cannot be read is
the failure. -/
def fetchAs {α : Type} (db : Db σ) (q : Query) (read : Row → Except Error α) :
    Except Error (List α) × Db σ :=
  match db.fetchAll q with
  | (.ok rows, db) => (rows.mapM read, db)
  | (.error e, db) => (.error e, db)

/-- Insert a row and give the identity it got. -/
def insert (db : Db σ) (i : Insert) : Except Error Int64 × Db σ :=
  match db.withBuilt (.insert i) db.fetchUncached with
  | (.ok (row :: _), db) => (row.decode Int64 Insert.identityField, db)
  | (.ok [], db) => (.error (.notFound "INSERT returned no identity row"), db)
  | (.error e, db) => (.error e, db)

/-- Update rows and give their number. -/
def update (db : Db σ) (u : Update) : Except Error UInt64 × Db σ :=
  db.withBuilt (.update u) db.execute

/-- Delete rows and give their number. -/
def delete (db : Db σ) (d : Delete) : Except Error UInt64 × Db σ :=
  db.withBuilt (.delete d) db.execute

end Db
end BoundSql
