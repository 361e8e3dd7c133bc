import BoundSql.Proofs.Symbol
import BoundSql.Statement

/-
Written statements are tidy.

Every part of a statement begins and ends where its neighbour is a text that
leaves nothing open: a bracket, a comma, a blank or a line break.  Such a text
`pads` what stands around it, so the parts can be looked at one by one, each as
if it stood at the beginning.  The main statement is `Statement.tidy_fragment`.
-/

namespace BoundSql

open BoundSql.Symbol

namespace Symbol

/-- A text that may follow anything and that anything may follow. -/
def pads (s : String) : Bool :=
  [Edge.clear, .word, .sign, .name, .value].all fun edge =>
    edgeAfter edge (ofText s) = some .clear

theorem edgeAfter_of_pads {s : String} (h : pads s = true) (edge : Edge) :
    edgeAfter edge (ofText s) = some .clear := by
  simp only [pads, List.all_cons, List.all_nil, Bool.and_eq_true, decide_eq_true_eq] at h
  cases edge with
  | clear => exact h.1
  | word => exact h.2.1
  | sign => exact h.2.2.1
  | name => exact h.2.2.2.1
  | value => exact h.2.2.2.2.1

theorem Tidy.of_edgeAfter {start : Edge} (next : Edge) {a b : List Symbol}
    (ha : edgeAfter start a = some next) (hb : Tidy next b) : Tidy start (a ++ b) := by
  obtain ⟨last, hb⟩ := hb
  exact ⟨last, by rw [edgeAfter_append, ha]; exact hb⟩

/-- What may follow anything may follow what is tidy. -/
theorem Tidy.append {start : Edge} {a b : List Symbol} (ha : Tidy start a)
    (hb : ∀ edge, Tidy edge b) : Tidy start (a ++ b) := by
  obtain ⟨last, ha⟩ := ha
  exact .of_edgeAfter last ha (hb last)

theorem Tidy.pad {s : String} (h : pads s = true) {b : List Symbol} (hb : Tidy .clear b)
    (start : Edge) : Tidy start (ofText s ++ b) :=
  .of_edgeAfter .clear (edgeAfter_of_pads h start) hb

theorem tidy_name {start : Edge} (hs : start ≠ .name) {n : String} {b : List Symbol}
    (hb : Tidy .name b) : Tidy start (.name n :: b) :=
  tidy_cons.mpr ⟨.name, if_neg hs, hb⟩

theorem tidy_value {v : Value} {b : List Symbol} (hb : Tidy .value b) :
    Tidy .clear (.value v :: b) :=
  tidy_cons.mpr ⟨.value, rfl, hb⟩

/-! ## Texts made of numbers and keywords -/

/-- A character that no text has to take care of. -/
def isPlain (c : Char) : Bool :=
  c != '"' && c != ':' && c != '@'

theorem edgeAfter_plain {cs : List Char} (h : ∀ c ∈ cs, isPlain c = true) {start : Edge}
    (hs : start = .clear ∨ start = .word) :
    ∃ next, edgeAfter start (cs.map char) = some next ∧ (next = .clear ∨ next = .word) := by
  induction cs generalizing start with
  | nil => exact ⟨start, rfl, hs⟩
  | cons c cs ih =>
    have hc := h c List.mem_cons_self
    simp only [isPlain, Bool.and_eq_true, bne_iff_ne, ne_eq] at hc
    have hrest := fun d hd => h d (List.mem_cons_of_mem c hd)
    have hv : start ≠ .value ∧ start ≠ .sign := by rcases hs with rfl | rfl <;> decide
    by_cases hw : isWordChar c = true
    · obtain ⟨next, hn, hnext⟩ := ih hrest (.inr rfl)
      exact ⟨next, by simp [edgeAfter_cons, follow, hc, hw, hv, hn], hnext⟩
    · obtain ⟨next, hn, hnext⟩ := ih hrest (.inl rfl)
      exact ⟨next, by simp [edgeAfter_cons, follow, hc, hw, hn], hnext⟩

/-- A plain text that both begins and ends outside a word pads. -/
theorem edgeAfter_between (first last : Char) {cs : List Char}
    (hf : isPlain first = true ∧ isWordChar first = false)
    (hl : isPlain last = true ∧ isWordChar last = false) (h : ∀ c ∈ cs, isPlain c = true)
    (edge : Edge) :
    edgeAfter edge ((first :: cs ++ [last]).map char) = some .clear := by
  have hfollow : ∀ {c : Char} (e : Edge), isPlain c = true ∧ isWordChar c = false →
      follow e (char c) = some .clear := by
    intro c e hc
    obtain ⟨hp, hw⟩ := hc
    simp only [isPlain, Bool.and_eq_true, bne_iff_ne, ne_eq] at hp
    simp [follow, hp, hw]
  obtain ⟨next, hn, -⟩ := edgeAfter_plain h (.inl rfl)
  rw [List.cons_append, List.map_cons, List.map_append, edgeAfter_cons, hfollow edge hf,
    Option.bind_some, edgeAfter_append, hn, Option.bind_some]
  exact (edgeAfter_cons ..).trans (by rw [hfollow next hl]; rfl)

theorem isPlain_of_isDigit {c : Char} (h : c.isDigit = true) : isPlain c = true := by
  have hne {d : Char} (hd : d.isDigit = false) : c ≠ d := Numeral.ne_of_class h hd
  have hquote : c ≠ '"' := hne rfl
  have hcolon : c ≠ ':' := hne rfl
  have hat : c ≠ '@' := hne rfl
  simp [isPlain, hquote, hcolon, hat]

end Symbol

/-! ## Lists and clauses -/

namespace Fragment

theorem tidy_separated {sep : String} (hsep : pads sep = true) {fs : List Fragment}
    (h : ∀ f ∈ fs, Tidy .clear f.symbols) : Tidy .clear (separated sep fs).symbols := by
  induction fs with
  | nil => exact tidy_nil _
  | cons f rest ih =>
    have hf := h f List.mem_cons_self
    cases rest with
    | nil => simpa [separated] using hf
    | cons g rest =>
      have hrest := ih fun d hd => h d (List.mem_cons_of_mem f hd)
      rw [separated_cons_cons, symbols_append, symbols_text]
      exact hf.append (.pad hsep hrest)

theorem tidy_clause {lead sep : String} (hlead : pads lead = true) (hsep : pads sep = true)
    {fs : List Fragment} (h : ∀ f ∈ fs, Tidy .clear f.symbols) (start : Edge) :
    Tidy start (clause lead sep fs).symbols := by
  cases fs with
  | nil => exact tidy_nil _
  | cons f rest => exact .pad hlead (tidy_separated hsep h) start

end Fragment

/-! ## Parts that are fixed, or made of numbers -/

theorem BinaryOp.pads_sql (op : BinaryOp) : pads (" " ++ op.sql ++ " ") = true := by
  cases op <;> decide

theorem SqlType.isPlain_keyword (t : SqlType) : ∀ c ∈ t.keyword.toList, isPlain c = true := by
  cases t <;> exact List.all_eq_true.mp rfl

theorem isPlain_ofNat (n : Nat) : ∀ c ∈ Numeral.ofNat n, isPlain c = true :=
  fun _ hc => isPlain_of_isDigit (Numeral.isDigit_of_mem_ofNat hc)

theorem TypeArgument.isPlain_text (a : TypeArgument) : ∀ c ∈ a.text, isPlain c = true := by
  cases a with
  | number n => exact isPlain_ofNat n.toNat
  | max => exact List.all_eq_true.mp rfl

theorem isPlain_intercalate {sep : List Char} (hsep : ∀ c ∈ sep, isPlain c = true)
    {texts : List (List Char)} (h : ∀ t ∈ texts, ∀ c ∈ t, isPlain c = true) :
    ∀ c ∈ sep.intercalate texts, isPlain c = true := by
  induction texts with
  | nil => simp
  | cons t rest ih =>
    have ht := h t List.mem_cons_self
    have hrest := ih fun u hu => h u (List.mem_cons_of_mem t hu)
    cases rest with
    | nil => simpa using ht
    | cons u rest =>
      rw [List.intercalate_cons_cons]
      intro c hc
      rcases List.mem_append.mp hc with hc | hc
      · rcases List.mem_append.mp hc with hc | hc
        · exact ht c hc
        · exact hsep c hc
      · exact hrest c hc

theorem DataType.isPlain_sql (t : DataType) : ∀ c ∈ t.sql.toList, isPlain c = true := by
  have harguments : ∀ c ∈ [',', ' '].intercalate (t.arguments.map TypeArgument.text),
      isPlain c = true := by
    refine isPlain_intercalate (List.all_eq_true.mp rfl) fun text htext => ?_
    obtain ⟨a, -, rfl⟩ := List.mem_map.mp htext
    exact a.isPlain_text
  unfold DataType.sql
  split
  · exact t.type.isPlain_keyword
  · rw [String.toList_append, String.toList_ofList]
    refine List.forall_mem_append.mpr ⟨t.type.isPlain_keyword, ?_⟩
    refine List.forall_mem_append.mpr ⟨List.forall_mem_cons.mpr ⟨rfl, harguments⟩, ?_⟩
    exact List.all_eq_true.mp rfl

theorem DataType.tidy_sql (t : DataType) (edge : Edge) :
    edgeAfter edge (ofText (" AS " ++ t.sql ++ ")")) = some .clear := by
  have hplain : ∀ c ∈ ['A', 'S', ' '] ++ t.sql.toList, isPlain c = true :=
    List.forall_mem_append.mpr ⟨List.all_eq_true.mp rfl, t.isPlain_sql⟩
  have := edgeAfter_between ' ' ')' (by decide) (by decide) hplain edge
  simpa [ofText] using this

theorem Select.tidy_limitFragment (limit : UInt64) {rest : List Symbol} (h : Tidy .clear rest) :
    Tidy .clear ((Select.limitFragment limit).symbols ++ rest) := by
  unfold Select.limitFragment
  split
  · exact h
  · have htop : ∀ c ∈ ['t', 'o', 'p', ' '], isPlain c = true :=
      List.all_eq_true.mp rfl
    have hplain := List.forall_mem_append.mpr ⟨htop, isPlain_ofNat limit.toNat⟩
    obtain ⟨next, hn, -⟩ := edgeAfter_plain hplain (.inl rfl)
    refine .of_edgeAfter .clear ?_ h
    have hsplit : Fragment.symbols [.text (String.ofList
        ("top ".toList ++ Numeral.ofNat limit.toNat ++ [' ']))] =
        (['t', 'o', 'p', ' '] ++ Numeral.ofNat limit.toNat).map char ++ [char ' '] := by
      simp [ofText]
    rw [hsplit, edgeAfter_append, hn]
    cases next <;> rfl

theorem Select.tidy_columnFragment {fs : List Fragment}
    (h : ∀ f ∈ fs, Tidy .clear f.symbols) : Tidy .clear (Select.columnFragment fs).symbols := by
  cases fs with
  | nil => exact ⟨_, rfl⟩
  | cons f rest => exact Fragment.tidy_separated (by decide) h

theorem Table.tidy_fragment (t : Table) : Tidy .clear t.fragment.symbols := by
  unfold Table.fragment
  split
  · exact tidy_name (by decide) (tidy_nil _)
  · exact tidy_name (by decide) (.pad (by decide) (tidy_name (by decide) (tidy_nil _)) _)

theorem Column.tidy_fragment (c : Column) : Tidy .clear c.fragment.symbols :=
  tidy_name (by decide) (.pad (by decide) (tidy_name (by decide) (tidy_nil _)) _)

/-! ## Expressions, sources and selects -/

mutual

theorem Expr.tidy_fragment (e : Expr) : Tidy .clear e.fragment.symbols := by
  cases e with
  | literal v => exact tidy_value (tidy_nil _)
  | constant b => cases b <;> exact ⟨_, rfl⟩
  | column c => exact c.tidy_fragment
  | all t => exact tidy_name (by decide) ⟨_, rfl⟩
  | aliased e name =>
    rw [Expr.fragment, Fragment.symbols_append]
    exact e.tidy_fragment.append (.pad (by decide) (tidy_name (by decide) (tidy_nil _)))
  | binary op left right =>
    simp only [Expr.fragment, List.cons_append, List.append_assoc, Fragment.symbols_text,
      Fragment.symbols_append]
    refine .pad (by decide) (left.tidy_fragment.append (.pad op.pads_sql ?_)) _
    exact right.tidy_fragment.append (.pad (by decide) (tidy_nil _))
  | negation e =>
    simp only [Expr.fragment, List.cons_append, Fragment.symbols_text, Fragment.symbols_append]
    exact .pad (by decide) (e.tidy_fragment.append (.pad (by decide) (tidy_nil _))) _
  | isNull e =>
    rw [Expr.fragment, Fragment.symbols_append]
    exact e.tidy_fragment.append fun edge => ⟨.word, by cases edge <;> rfl⟩
  | descending e =>
    rw [Expr.fragment, Fragment.symbols_append]
    exact e.tidy_fragment.append fun edge => ⟨.word, by cases edge <;> rfl⟩
  | member e items =>
    simp only [Expr.fragment, List.cons_append, List.append_assoc, Fragment.symbols_text,
      Fragment.symbols_append]
    refine .pad (by decide) (e.tidy_fragment.append (.pad (by decide) ?_)) _
    exact (Fragment.tidy_separated (by decide) (Expr.tidy_fragments items)).append
      (.pad (by decide) (tidy_nil _))
  | memberOf e rows =>
    simp only [Expr.fragment, List.cons_append, List.append_assoc, Fragment.symbols_text,
      Fragment.symbols_append]
    refine .pad (by decide) (e.tidy_fragment.append (.pad (by decide) ?_)) _
    exact rows.tidy_fragment.append (.pad (by decide) (tidy_nil _))
  | subquery rows =>
    simp only [Expr.fragment, List.cons_append, Fragment.symbols_text, Fragment.symbols_append]
    exact .pad (by decide) (rows.tidy_fragment.append (.pad (by decide) (tidy_nil _))) _
  | «exists» rows =>
    simp only [Expr.fragment, List.cons_append, Fragment.symbols_text, Fragment.symbols_append]
    exact .of_edgeAfter .clear rfl
      (rows.tidy_fragment.append (.pad (by decide) (tidy_nil _)))
  | call function args =>
    simp only [Expr.fragment, List.cons_append, Fragment.symbols_text, Fragment.symbols_append]
    refine .of_edgeAfter .clear (by cases function <;> decide) ?_
    exact (Fragment.tidy_separated (by decide) (Expr.tidy_fragments args)).append
      (.pad (by decide) (tidy_nil _))
  | countAll => exact ⟨_, rfl⟩
  | cast e type =>
    simp only [Expr.fragment, List.cons_append, Fragment.symbols_text, Fragment.symbols_append]
    refine .of_edgeAfter .clear rfl (e.tidy_fragment.append fun edge => ?_)
    exact .of_edgeAfter .clear (type.tidy_sql edge) (tidy_nil _)
  | case branches otherwise =>
    cases otherwise with
    | none =>
      simp only [Expr.fragment, List.cons_append, Fragment.symbols_text, Fragment.symbols_append]
      refine .of_edgeAfter .word rfl ((Expr.tidy_branchFragment branches _).append ?_)
      exact fun edge => ⟨.word, by cases edge <;> rfl⟩
    | some e =>
      simp only [Expr.fragment, List.cons_append, List.append_assoc, Fragment.symbols_text,
        Fragment.symbols_append]
      refine .of_edgeAfter .word rfl ((Expr.tidy_branchFragment branches _).append ?_)
      refine .pad (by decide) (e.tidy_fragment.append fun edge => ?_)
      exact ⟨.word, by cases edge <;> rfl⟩
  termination_by structural e

theorem Expr.tidy_fragments (es : List Expr) :
    ∀ f ∈ Expr.fragments es, Tidy .clear f.symbols := by
  cases es with
  | nil => simp [Expr.fragments]
  | cons e rest =>
    intro f hf
    rcases List.mem_cons.mp hf with rfl | hf
    · exact e.tidy_fragment
    · exact Expr.tidy_fragments rest f hf
  termination_by structural es

theorem Expr.tidy_branchFragment (branches : List (Expr × Expr)) (start : Edge) :
    Tidy start (Expr.branchFragment branches).symbols := by
  cases branches with
  | nil => exact tidy_nil _
  | cons branch rest =>
    obtain ⟨condition, value⟩ := branch
    simp only [Expr.branchFragment, List.cons_append, List.append_assoc, Fragment.symbols_text,
      Fragment.symbols_append]
    refine .pad (by decide) (condition.tidy_fragment.append (.pad (by decide) ?_)) _
    exact value.tidy_fragment.append (Expr.tidy_branchFragment rest)
  termination_by structural branches

theorem Source.tidy_fragment (s : Source) : Tidy .clear s.fragment.symbols := by
  cases s with
  | table t => exact t.tidy_fragment
  | joined left right condition outer =>
    simp only [Source.fragment, List.cons_append, List.append_assoc, Fragment.symbols_text,
      Fragment.symbols_append]
    refine .pad (by decide) (left.tidy_fragment.append (.pad (by cases outer <;> decide) ?_)) _
    refine right.tidy_fragment.append (.pad (by decide) ?_)
    exact condition.tidy_fragment.append (.pad (by decide) (tidy_nil _))
  termination_by structural s

theorem Select.tidy_fragment (s : Select) : Tidy .clear s.fragment.symbols := by
  obtain ⟨columns, source, filters, unions, groupBy, orderBy, limit⟩ := s
  cases source with
  | none => exact tidy_nil _
  | some source =>
    simp only [Select.fragment, List.cons_append, List.append_assoc, Fragment.symbols_text,
      Fragment.symbols_append]
    refine .pad (by decide) (Select.tidy_limitFragment limit ?_) _
    refine (Select.tidy_columnFragment (Expr.tidy_fragments columns)).append ?_
    refine .pad (by decide) (source.tidy_fragment.append fun edge => ?_)
    refine (Fragment.tidy_clause (by decide) (by decide) (Expr.tidy_fragments filters) edge).append
      fun edge => ?_
    refine (Select.tidy_unionFragment unions edge).append fun edge => ?_
    refine (Fragment.tidy_clause (by decide) (by decide) (Expr.tidy_fragments groupBy) edge).append
      (.pad (by decide) ?_)
    exact Fragment.tidy_clause (by decide) (by decide) (Expr.tidy_fragments orderBy) _
  termination_by structural s

theorem Select.tidy_unionFragment (branches : List Select) (start : Edge) :
    Tidy start (Select.unionFragment branches).symbols := by
  cases branches with
  | nil => exact tidy_nil _
  | cons branch rest =>
    simp only [Select.unionFragment, List.cons_append, Fragment.symbols_text,
      Fragment.symbols_append]
    exact .pad (by decide) (branch.tidy_fragment.append (Select.tidy_unionFragment rest)) _
  termination_by structural branches

end

/-! ## Statements -/

theorem Expr.tidy_whereFragment (filters : List Expr) (start : Edge) :
    Tidy start (Expr.whereFragment filters).symbols := by
  rw [Expr.whereFragment, ← Expr.fragments_eq_map]
  exact Fragment.tidy_clause (by decide) (by decide) (Expr.tidy_fragments filters) start

theorem Insert.tidy_fragment (i : Insert) : Tidy .clear i.fragment.symbols := by
  have hcolumns : ∀ f ∈ i.assignments.map fun a => [Piece.name a.column.name],
      Tidy .clear (Fragment.symbols f) := by
    intro f hf
    obtain ⟨a, -, rfl⟩ := List.mem_map.mp hf
    exact tidy_name (by decide) (tidy_nil _)
  have hvalues : ∀ f ∈ i.assignments.map fun a => a.value.fragment, Tidy .clear f.symbols := by
    intro f hf
    obtain ⟨a, -, rfl⟩ := List.mem_map.mp hf
    exact a.value.tidy_fragment
  unfold Insert.fragment
  split
  · exact tidy_nil _
  · simp only [List.cons_append, List.append_assoc, Fragment.symbols_text, Fragment.symbols_name,
      Fragment.symbols_append]
    refine .of_edgeAfter .clear rfl (tidy_name (by decide) (.pad (by decide) ?_ _))
    refine (Fragment.tidy_separated (by decide) hcolumns).append (.pad (by decide) ?_)
    refine (Fragment.tidy_separated (by decide) hvalues).append (.pad (by decide) ?_)
    exact ⟨.clear, rfl⟩

theorem Update.tidy_fragment (u : Update) : Tidy .clear u.fragment.symbols := by
  have hset : ∀ f ∈ u.assignments.map fun a =>
      .name a.column.name :: .text " = " :: a.value.fragment, Tidy .clear (Fragment.symbols f) := by
    intro f hf
    obtain ⟨a, -, rfl⟩ := List.mem_map.mp hf
    exact tidy_name (by decide) (.pad (by decide) a.value.tidy_fragment _)
  unfold Update.fragment
  split
  · exact tidy_nil _
  · simp only [List.cons_append, List.append_assoc, Fragment.symbols_text, Fragment.symbols_name,
      Fragment.symbols_append]
    refine .of_edgeAfter .clear rfl (tidy_name (by decide) (.pad (by decide) ?_ _))
    refine (Fragment.tidy_separated (by decide) hset).append fun edge => ?_
    refine .append ?_ (Expr.tidy_whereFragment u.filters)
    split
    · exact .pad (by decide) u.table.tidy_fragment _
    · exact tidy_nil _

theorem Delete.tidy_fragment (d : Delete) : Tidy .clear d.fragment.symbols := by
  rw [Delete.fragment, Fragment.symbols_append]
  refine .append ?_ (Expr.tidy_whereFragment d.filters)
  split
  · exact .of_edgeAfter .clear rfl
      (tidy_name (by decide) (.pad (by decide) d.table.tidy_fragment _))
  · exact .of_edgeAfter .clear rfl (tidy_name (by decide) (tidy_nil _))

/-- Nothing in a written statement runs together. -/
theorem Statement.tidy_fragment (s : Statement) : Tidy .clear s.fragment.symbols := by
  cases s with
  | select q => exact q.select.tidy_fragment
  | insert i => exact i.tidy_fragment
  | update u => exact u.tidy_fragment
  | delete d => exact d.tidy_fragment

end BoundSql
