import BoundSql.Proofs.Build
import BoundSql.Proofs.Keys

/-
Statements told from their cache keys.

A key is a text and the serialization of the values, with a colon between.  No
colon stands outside the quoted names of a text, so the key is cut at the first
colon that is in no name, whatever stands in the names and values.  What kind a
statement is shows in its first character.
-/

namespace BoundSql

/-! ## Colons outside names -/

/-- It reads quoted names, and no colon outside them.  The state is whether a
name is open; a doubled quote closes it and opens it again. -/
def nameReader : Reader Bool
  | false, c => if c = '"' then some true else if c = ':' then none else some false
  | true, c => some (c != '"')

theorem reads_doubled (name : List Char) :
    nameReader.Reads true (Identifier.doubled name) true := by
  induction name with
  | nil => rfl
  | cons c rest ih =>
    by_cases hc : c = '"'
    · rw [Identifier.doubled, if_pos hc]
      exact Reader.reads_cons.mpr ⟨false, rfl, Reader.reads_cons.mpr ⟨true, rfl, ih⟩⟩
    · rw [Identifier.doubled, if_neg hc]
      exact Reader.reads_cons.mpr ⟨true, by simp [nameReader, hc], ih⟩

theorem reads_quotedText (name : List Char) :
    nameReader.Reads false (Identifier.quotedText name) false :=
  Reader.reads_cons.mpr ⟨true, rfl, (reads_doubled name).append rfl⟩

theorem nameReader_of_ne {c : Char} (h : c ≠ '"' ∧ c ≠ ':') :
    nameReader false c = some false := by
  rw [nameReader, if_neg h.1, if_neg h.2]

namespace Symbol

theorem ne_colon_of_follow {edge next : Edge} {c : Char} (h : follow edge (char c) = some next) :
    c ≠ ':' := by
  intro heq
  subst heq
  simp [follow] at h

theorem reads_name (k : Nat) : nameReader.Reads false (Parameters.name k).toList false := by
  refine Reader.reads_of_forall fun c hc => nameReader_of_ne ?_
  rcases Parameters.mem_name hc with rfl | rfl | hdigit
  · decide
  · decide
  · exact ⟨Numeral.ne_of_class hdigit rfl, Numeral.ne_of_class hdigit rfl⟩

/-- Tidy symbols have no colon outside their names. -/
theorem reads_spell {symbols : List Symbol} {start : Edge} (h : Tidy start symbols) (k : Nat) :
    nameReader.Reads false (spell k symbols) false := by
  induction symbols generalizing start k with
  | nil => rfl
  | cons s rest ih =>
    obtain ⟨next, hs, hrest⟩ := tidy_cons.mp h
    cases s with
    | char c =>
      have hc := nameReader_of_ne ⟨ne_quote_of_follow hs, ne_colon_of_follow hs⟩
      exact Reader.reads_cons.mpr ⟨false, hc, ih hrest k⟩
    | name n => exact (reads_quotedText n.toList).append (ih hrest k)
    | value v => exact (reads_name k).append (ih hrest (k + 1))

end Symbol

/-! ## Keys of statements -/

/-- The first character of a statement. -/
def StatementKind.lead : StatementKind → Char
  | select => '('
  | insert => 'i'
  | update => 'u'
  | delete => 'd'

theorem StatementKind.lead_inj {k l : StatementKind} (h : k.lead = l.lead) : k = l := by
  revert h
  cases k <;> cases l <;> decide

/-- Two built statements ask for the same if they have one text and the same values. -/
def Built.Alike (b c : Built) : Prop :=
  b.sql = c.sql ∧ b.params.values = c.params.values

theorem Built.cacheKey_eq_of_alike {b c : Built} (h : b.Alike c) : b.cacheKey = c.cacheKey := by
  have hparams : b.params = c.params := congrArg Parameters.mk h.2
  rw [cacheKey, cacheKey, h.1, hparams]

namespace Statement

variable {s t : Statement} {b c : Built}

theorem head?_sql_of_build (h : s.build = .ok b) : b.sql.toList.head? = some b.kind.lead := by
  have hkind : b.kind = s.kind := by rw [build_eq h]
  rw [toList_sql_of_build h, hkind]
  cases s with
  | select q =>
    have hfault : q.select.fragment.fault? = none := fault?_of_build h
    obtain ⟨⟨columns, source, filters, unions, groupBy, orderBy, limit⟩, root, waiting⟩ := q
    cases source with
    | none => simp [Select.fragment, Fragment.fault?] at hfault
    | some source => rfl
  | insert i =>
    have hfault : i.fragment.fault? = none := fault?_of_build h
    show (Symbol.spell 0 i.fragment.symbols).head? = some 'i'
    unfold Insert.fragment at hfault ⊢
    split at hfault
    · simp [Fragment.fault?] at hfault
    · rename_i hempty
      rw [if_neg hempty]
      rfl
  | update u =>
    have hfault : u.fragment.fault? = none := fault?_of_build h
    show (Symbol.spell 0 u.fragment.symbols).head? = some 'u'
    unfold Update.fragment at hfault ⊢
    split at hfault
    · simp [Fragment.fault?] at hfault
    · rename_i hempty
      rw [if_neg hempty]
      rfl
  | delete d =>
    show (Symbol.spell 0 d.fragment.symbols).head? = some 'd'
    unfold Delete.fragment
    split <;> rfl

theorem toList_cacheKey (b : Built) :
    b.cacheKey.toList = "query:".toList ++ (b.sql.toList ++ ':' :: b.params.serialize.toList) := by
  simp [Built.cacheKey]

/-- Two statements that are built have one cache key exactly if they have one text
and the same values; then they are of one kind. -/
theorem cacheKey_eq_iff (hs : s.build = .ok b) (ht : t.build = .ok c) :
    (b.cacheKey = c.cacheKey ↔ b.sql = c.sql ∧ b.params.values = c.params.values) ∧
      (b.cacheKey = c.cacheKey → b.kind = c.kind) := by
  have hparts (h : b.cacheKey = c.cacheKey) : b.sql = c.sql ∧ b.params = c.params := by
    have hreads {s : Statement} {b : Built} (hs : s.build = .ok b) :
        nameReader.Reads false b.sql.toList false := by
      rw [toList_sql_of_build hs]
      exact Symbol.reads_spell s.tidy_fragment 0
    have hlist := congrArg String.toList h
    rw [toList_cacheKey, toList_cacheKey] at hlist
    obtain ⟨hsql, hvalues⟩ :=
      (hreads hs).cut_unique rfl (hreads ht) (List.append_cancel_left hlist)
    exact ⟨String.toList_inj.mp hsql,
      Parameters.serialize_injective (String.toList_inj.mp hvalues)⟩
  refine ⟨⟨fun h => ?_, fun h => ?_⟩, fun h => ?_⟩
  · obtain ⟨hsql, hparams⟩ := hparts h
    exact ⟨hsql, congrArg Parameters.values hparams⟩
  · obtain ⟨hsql, hvalues⟩ := h
    rw [Built.cacheKey, Built.cacheKey, hsql, Parameters.serialize, Parameters.serialize,
      Parameters.entries, Parameters.entries, hvalues]
  · have hlead : some b.kind.lead = some c.kind.lead := by
      rw [← head?_sql_of_build hs, ← head?_sql_of_build ht, (hparts h).1]
    exact StatementKind.lead_inj (Option.some.inj hlead)

/-- A search for one value of a column. -/
def valueSearch (column : String) (v : Value) : Statement :=
  let t : Table := ⟨"t", none, none⟩
  .select (.ofClauses [.source (.table t), .filters [.equals (.column (t.column column))
    (.literal v)]])

/-- A name that reads like the end of a text and an entry, and two values that
only a reader of strings can tell apart. -/
theorem cacheKey_valueSearch :
    ∃ b c, (valueSearch "a\":@p0=1" (.text ",@p1=1")).build = .ok b ∧
      (valueSearch "a\":@p0=1" (.int 1)).build = .ok c ∧ b.sql = c.sql ∧
      b.cacheKey ≠ c.cacheKey := by
  have hs : (valueSearch "a\":@p0=1" (.text ",@p1=1")).build = .ok _ := build_of_no_fault rfl
  have ht : (valueSearch "a\":@p0=1" (.int 1)).build = .ok _ := build_of_no_fault rfl
  refine ⟨_, _, hs, ht, rfl, fun h => ?_⟩
  have hvalues := ((cacheKey_eq_iff hs ht).1.mp h).2
  cases congrArg Array.toList hvalues

end Statement
end BoundSql
