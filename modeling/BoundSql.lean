import BoundSql.Db.Basic
import BoundSql.Proofs.Quoting
import BoundSql.Proofs.QuotedNames
import BoundSql.Proofs.Placeholders
import BoundSql.Proofs.Binding
import BoundSql.Proofs.CacheKey
import BoundSql.Proofs.KeyClash
import BoundSql.Proofs.Serialization
import BoundSql.Proofs.Unambiguous
import BoundSql.Proofs.Placement
import BoundSql.Proofs.Joining
import BoundSql.Proofs.SharedColumns
import BoundSql.Proofs.JoinTrees
import BoundSql.Proofs.Matching
import BoundSql.Proofs.Decoding
import BoundSql.Proofs.FieldNames
import BoundSql.Proofs.Cache.Recency
import BoundSql.Proofs.Db.Coherence
import BoundSql.Proofs.Db.Accounts
import BoundSql.Proofs.Db.Display
import BoundSql.Proofs.Where.Conjunction
