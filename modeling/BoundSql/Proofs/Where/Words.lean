import BoundSql.Proofs.Where.Token

/-
Tokens of fragments.

A token never goes on from one piece of a written statement to the next: of two
texts next to each other the first ends or the second begins with a blank or a
mark.  So the tokens of a statement are those of its pieces, one after another.
The main statement is `Statement.tokens?_of_build`.
-/

namespace BoundSql

/-- The tokens of a text that stands alone. -/
def Token.words (text : String) : List Token :=
  Symbol.tokens (Symbol.ofText text)

namespace Piece

def tokens (p : Piece) : List Token :=
  Symbol.tokens p.symbols

/-- Whether the piece begins a token, whatever comes before it. -/
def opens : Piece → Bool
  | text s => s.toList.head?.any fun c => (Token.run? c).isNone
  | fault _ => false
  | _ => true

/-- Whether the piece ends a token, whatever comes after it. -/
def closes : Piece → Bool
  | text s => s.toList.getLast?.any fun c => (Token.run? c).isNone
  | fault _ => false
  | _ => true

/-- Whether the piece is apart from its neighbours, whatever they are. -/
def isApart (p : Piece) : Bool :=
  p.opens && p.closes

end Piece

namespace Fragment

open BoundSql.Symbol BoundSql.Token

def tokens (f : Fragment) : List Token :=
  f.flatMap Piece.tokens

@[simp] theorem tokens_nil : tokens [] = [] := rfl

@[simp] theorem tokens_append (f g : Fragment) : tokens (f ++ g) = f.tokens ++ g.tokens :=
  List.flatMap_append

@[simp] theorem tokens_text (s : String) (f : Fragment) :
    tokens (.text s :: f) = words s ++ f.tokens := rfl

/-! ## Pieces that do not run together -/

/-- Every piece begins a token, where `closed` says whether it has to. -/
def Neat : Bool → Fragment → Prop
  | _, [] => True
  | closed, p :: rest => (closed = true ∨ p.opens = true) ∧ Neat p.closes rest

theorem joins_of_isNone_left {c : Char} (h : (run? c).isNone = true) (d : Char) :
    joins c d = false := by
  rw [Option.isNone_iff_eq_none] at h
  simp [joins, h]

theorem joins_of_isNone_right {d : Char} (h : (run? d).isNone = true) (c : Char) :
    joins c d = false := by
  rw [Option.isNone_iff_eq_none] at h
  cases hc : run? c <;> simp [joins, h, hc]

theorem apart_of_closes {p : Piece} (h : p.closes = true) (b : List Symbol) :
    Apart p.symbols b := by
  intro c d hc _
  cases p with
  | text s =>
    rw [Piece.symbols, ofText, List.getLast?_map, Option.map_eq_some_iff] at hc
    obtain ⟨e, he, heq⟩ := hc
    obtain rfl := char.inj heq
    rw [Piece.closes, he, Option.any_some] at h
    exact joins_of_isNone_left h d
  | name n => cases hc
  | bind v => cases hc
  | fault f => cases h

theorem apart_of_opens {p : Piece} (h : p.opens = true) (a b : List Symbol) :
    Apart a (p.symbols ++ b) := by
  intro c d _ hd
  cases p with
  | text s =>
    obtain ⟨e, he, hopen⟩ := Option.any_eq_true _ _ |>.mp h
    have hhead : ((ofText s) ++ b).head? = some (char e) := by
      rw [List.head?_append, ofText, List.head?_map, he]
      rfl
    obtain rfl := char.inj (Option.some.inj (hhead.symm.trans hd))
    exact joins_of_isNone_right hopen c
  | name n => cases hd
  | bind v => cases hd
  | fault f => cases h

theorem runs_symbols {f : Fragment} {closed : Bool} (h : Neat closed f) :
    runs f.symbols = f.flatMap fun p => runs p.symbols := by
  induction f generalizing closed with
  | nil => rfl
  | cons p rest ih =>
    have hapart : Apart p.symbols (symbols rest) := by
      cases rest with
      | nil => exact fun c d _ hd => by cases hd
      | cons q rest =>
        rcases h.2.1 with hp | hq
        · exact apart_of_closes hp _
        · exact apart_of_opens hq p.symbols (symbols rest)
    show runs (p.symbols ++ symbols rest) =
      runs p.symbols ++ List.flatMap (fun p => runs p.symbols) rest
    rw [runs_append hapart, ih h.2]

theorem tokens_symbols {f : Fragment} {closed : Bool} (h : Neat closed f) :
    Symbol.tokens f.symbols = f.tokens := by
  rw [Symbol.tokens, runs_symbols h, List.filter_flatMap]
  rfl

variable {f g : Fragment} {closed : Bool}

theorem neat_nil (closed : Bool) : Neat closed [] := trivial

/-- What may follow anything may follow what is neat. -/
theorem Neat.append (hf : Neat closed f) (hg : ∀ closed, Neat closed g) : Neat closed (f ++ g) := by
  induction f generalizing closed with
  | nil => exact hg closed
  | cons p rest ih => exact ⟨hf.1, ih hf.2⟩

/-- A text that both begins and ends with a blank or a mark may stand anywhere. -/
theorem Neat.pad {s : String} (h : (Piece.text s).isApart = true) (hf : Neat true f)
    (closed : Bool) : Neat closed (.text s :: f) := by
  obtain ⟨hopens, hcloses⟩ := Bool.and_eq_true_iff.mp h
  exact ⟨.inr hopens, hcloses ▸ hf⟩

/-- At the beginning a text has only to end so. -/
theorem Neat.lead {s : String} (h : (Piece.text s).closes = true) (hf : Neat true f) :
    Neat true (.text s :: f) :=
  ⟨.inl rfl, h ▸ hf⟩

/-- At the end a text has only to begin so. -/
theorem neat_last {s : String} (h : (Piece.text s).opens = true) (closed : Bool) :
    Neat closed [.text s] :=
  ⟨.inr h, trivial⟩

theorem neat_name {n : String} (hf : Neat true f) : Neat closed (.name n :: f) :=
  ⟨.inr rfl, hf⟩

theorem neat_separated {sep : String} (hsep : (Piece.text sep).isApart = true)
    {fs : List Fragment} (h : ∀ f ∈ fs, Neat true f) : Neat true (separated sep fs) := by
  induction fs with
  | nil => trivial
  | cons f rest ih =>
    have hf := h f List.mem_cons_self
    cases rest with
    | nil => rwa [separated_singleton]
    | cons g rest =>
      have hrest := ih fun d hd => h d (List.mem_cons_of_mem f hd)
      rw [separated_cons_cons]
      exact hf.append (.pad hsep hrest)

theorem neat_clause {lead sep : String} (hlead : (Piece.text lead).isApart = true)
    (hsep : (Piece.text sep).isApart = true) {fs : List Fragment} (h : ∀ f ∈ fs, Neat true f)
    (closed : Bool) : Neat closed (clause lead sep fs) := by
  cases fs with
  | nil => trivial
  | cons f rest => exact .pad hlead (neat_separated hsep h) closed

end Fragment

open Fragment

/-! ## Texts that are not fixed -/

theorem BinaryOp.isApart_sql (op : BinaryOp) :
    (Piece.text (" " ++ op.sql ++ " ")).isApart = true := by
  cases op <;> rfl

theorem DataType.isApart_sql (t : DataType) :
    (Piece.text (" AS " ++ t.sql ++ ")")).isApart = true := by
  have htext : (" AS " ++ t.sql ++ ")").toList =
      ' ' :: ('A' :: 'S' :: ' ' :: t.sql.toList ++ [')']) := by
    simp
  rw [Piece.isApart, Piece.opens, Piece.closes, htext, ← List.cons_append, List.getLast?_concat]
  rfl

theorem Select.neat_limitFragment (limit : UInt64) {rest : Fragment} (h : Neat true rest) :
    Neat true (Select.limitFragment limit ++ rest) := by
  unfold Select.limitFragment
  split
  · exact h
  · refine .lead ?_ h
    rw [Piece.closes, String.toList_ofList, List.getLast?_concat]
    rfl

theorem Select.neat_columnFragment {fs : List Fragment} (h : ∀ f ∈ fs, Neat true f) :
    Neat true (Select.columnFragment fs) := by
  cases fs with
  | nil => exact neat_last rfl true
  | cons f rest => exact neat_separated rfl h

theorem Table.neat_fragment (t : Table) : Neat true t.fragment := by
  unfold Table.fragment
  split
  · exact neat_name (neat_nil true)
  · exact neat_name (.pad rfl (neat_name (neat_nil true)) true)

/-! ## Expressions, sources and selects -/

mutual

theorem Expr.neat_fragment (e : Expr) : Neat true e.fragment := by
  cases e with
  | literal v => exact ⟨.inl rfl, trivial⟩
  | constant b => exact ⟨.inl rfl, trivial⟩
  | column c => exact neat_name (.pad rfl (neat_name (neat_nil true)) true)
  | all t => exact neat_name (neat_last rfl true)
  | aliased e name => exact e.neat_fragment.append (.pad rfl (neat_name (neat_nil true)))
  | binary op left right =>
    simp only [Expr.fragment, List.cons_append, List.append_assoc]
    refine .pad rfl (left.neat_fragment.append (.pad op.isApart_sql ?_)) _
    exact right.neat_fragment.append (neat_last rfl)
  | negation e => exact .pad rfl (e.neat_fragment.append (neat_last rfl)) _
  | isNull e => exact e.neat_fragment.append (neat_last rfl)
  | descending e => exact e.neat_fragment.append (neat_last rfl)
  | member e items =>
    simp only [Expr.fragment, List.cons_append, List.append_assoc]
    refine .pad rfl (e.neat_fragment.append (.pad rfl ?_)) _
    exact (neat_separated rfl (Expr.neat_fragments items)).append (neat_last rfl)
  | memberOf e rows =>
    simp only [Expr.fragment, List.cons_append, List.append_assoc]
    refine .pad rfl (e.neat_fragment.append (.pad rfl ?_)) _
    exact rows.neat_fragment.append (neat_last rfl)
  | subquery rows => exact .pad rfl (rows.neat_fragment.append (neat_last rfl)) _
  | «exists» rows => exact .lead rfl (rows.neat_fragment.append (neat_last rfl))
  | call function args =>
    refine .lead (by cases function <;> rfl) ?_
    exact (neat_separated rfl (Expr.neat_fragments args)).append (neat_last rfl)
  | countAll => exact ⟨.inl rfl, trivial⟩
  | cast e type => exact .lead rfl (e.neat_fragment.append (.pad type.isApart_sql (neat_nil true)))
  | case branches otherwise =>
    cases otherwise with
    | none => exact ⟨.inl rfl, (Expr.neat_branchFragment branches _).append (neat_last rfl)⟩
    | some e =>
      simp only [Expr.fragment, List.cons_append, List.append_assoc]
      refine ⟨.inl rfl, (Expr.neat_branchFragment branches _).append ?_⟩
      exact .pad rfl (e.neat_fragment.append (neat_last rfl))
  termination_by structural e

theorem Expr.neat_fragments (es : List Expr) : ∀ f ∈ Expr.fragments es, Neat true f := by
  cases es with
  | nil => simp [Expr.fragments]
  | cons e rest =>
    intro f hf
    rcases List.mem_cons.mp hf with rfl | hf
    · exact e.neat_fragment
    · exact Expr.neat_fragments rest f hf
  termination_by structural es

theorem Expr.neat_branchFragment (branches : List (Expr × Expr)) (closed : Bool) :
    Neat closed (Expr.branchFragment branches) := by
  cases branches with
  | nil => trivial
  | cons branch rest =>
    obtain ⟨condition, value⟩ := branch
    simp only [Expr.branchFragment, List.cons_append, List.append_assoc]
    refine .pad rfl (condition.neat_fragment.append (.pad rfl ?_)) _
    exact value.neat_fragment.append (Expr.neat_branchFragment rest)
  termination_by structural branches

theorem Source.neat_fragment (s : Source) : Neat true s.fragment := by
  cases s with
  | table t => exact t.neat_fragment
  | joined left right condition outer =>
    simp only [Source.fragment, List.cons_append, List.append_assoc]
    refine .pad rfl (left.neat_fragment.append (.pad (by cases outer <;> rfl) ?_)) _
    refine right.neat_fragment.append (.pad rfl ?_)
    exact condition.neat_fragment.append (neat_last rfl)
  termination_by structural s

theorem Select.neat_fragment (s : Select) : Neat true s.fragment := by
  obtain ⟨columns, source, filters, unions, groupBy, orderBy, limit⟩ := s
  cases source with
  | none => exact ⟨.inl rfl, trivial⟩
  | some source =>
    simp only [Select.fragment, List.cons_append, List.append_assoc]
    refine .pad rfl (Select.neat_limitFragment limit ?_) _
    refine (Select.neat_columnFragment (Expr.neat_fragments columns)).append (.pad rfl ?_)
    refine source.neat_fragment.append fun closed => ?_
    refine (neat_clause rfl rfl (Expr.neat_fragments filters) closed).append fun closed => ?_
    refine (Select.neat_unionFragment unions closed).append fun closed => ?_
    refine (neat_clause rfl rfl (Expr.neat_fragments groupBy) closed).append (.pad rfl ?_)
    exact neat_clause rfl rfl (Expr.neat_fragments orderBy) true
  termination_by structural s

theorem Select.neat_unionFragment (branches : List Select) (closed : Bool) :
    Neat closed (Select.unionFragment branches) := by
  cases branches with
  | nil => trivial
  | cons branch rest =>
    exact .pad rfl (branch.neat_fragment.append (Select.neat_unionFragment rest)) _
  termination_by structural branches

end

/-! ## Statements -/

theorem Expr.neat_whereFragment (filters : List Expr) (closed : Bool) :
    Neat closed (Expr.whereFragment filters) := by
  rw [Expr.whereFragment, ← Expr.fragments_eq_map]
  exact neat_clause rfl rfl (Expr.neat_fragments filters) closed

theorem Insert.neat_fragment (i : Insert) : Neat true i.fragment := by
  have hcolumns : ∀ f ∈ i.assignments.map fun a => [Piece.name a.column.name], Neat true f := by
    intro f hf
    obtain ⟨a, -, rfl⟩ := List.mem_map.mp hf
    exact neat_name (neat_nil true)
  have hvalues : ∀ f ∈ i.assignments.map fun a => a.value.fragment, Neat true f := by
    intro f hf
    obtain ⟨a, -, rfl⟩ := List.mem_map.mp hf
    exact a.value.neat_fragment
  unfold Insert.fragment
  split
  · exact ⟨.inl rfl, trivial⟩
  · simp only [List.cons_append, List.append_assoc]
    refine .lead rfl (neat_name (.pad rfl ?_ _))
    refine (neat_separated rfl hcolumns).append (.pad rfl ?_)
    exact (neat_separated rfl hvalues).append (.pad rfl ⟨.inl rfl, trivial⟩)

theorem Update.neat_fragment (u : Update) : Neat true u.fragment := by
  have hset : ∀ f ∈ u.assignments.map fun a =>
      .name a.column.name :: .text " = " :: a.value.fragment, Neat true f := by
    intro f hf
    obtain ⟨a, -, rfl⟩ := List.mem_map.mp hf
    exact neat_name (.pad rfl a.value.neat_fragment _)
  unfold Update.fragment
  split
  · exact ⟨.inl rfl, trivial⟩
  · simp only [List.cons_append, List.append_assoc]
    refine .lead rfl (neat_name (.pad rfl ?_ _))
    refine (neat_separated rfl hset).append fun closed => ?_
    refine .append ?_ (Expr.neat_whereFragment u.filters)
    split
    · exact .pad rfl u.table.neat_fragment closed
    · trivial

theorem Delete.neat_fragment (d : Delete) : Neat true d.fragment := by
  rw [Delete.fragment]
  refine .append ?_ (Expr.neat_whereFragment d.filters)
  split
  · exact .lead rfl (neat_name (.pad rfl d.table.neat_fragment _))
  · exact .lead rfl (neat_name (neat_nil true))

/-! ## Types and limits -/

namespace Token

/-- The tokens of characters outside quotes. -/
def ofChars (cs : List Char) : List Token :=
  Symbol.tokens (cs.map Symbol.char)

theorem words_eq_ofChars (text : String) : words text = ofChars text.toList := rfl

/-- A blank or a mark has nothing to do with what follows. -/
theorem ofChars_cons {c : Char} (h : (run? c).isNone = true) (cs : List Char) :
    ofChars (c :: cs) = ofChars [c] ++ ofChars cs := by
  have hapart : Symbol.Apart [.char c] (cs.map Symbol.char) := by
    intro c' d hc _
    obtain rfl := Symbol.char.inj (Option.some.inj hc)
    exact joins_of_isNone_left h d
  have hruns := Symbol.runs_append hapart
  rw [ofChars, Symbol.tokens, List.map_cons, ← List.singleton_append, hruns, List.filter_append]
  rfl

theorem ofChars_space (cs : List Char) : ofChars (' ' :: cs) = ofChars cs :=
  ofChars_cons rfl cs

theorem isWhitespace_of_isWord {c : Char} (h : isWord c = true) : c.isWhitespace = false := by
  rw [Bool.eq_false_iff]
  intro hblank
  simp only [Char.isWhitespace, Bool.or_eq_true, decide_eq_true_eq] at hblank
  rcases hblank with ((rfl | rfl) | rfl) | rfl <;> exact absurd h (by decide)

/-- A word ends where a blank or a mark follows. -/
theorem ofChars_word {w : List Char} (hne : w ≠ []) (hw : ∀ c ∈ w, isWord c = true) {c : Char}
    (h : (run? c).isNone = true) (cs : List Char) :
    ofChars (w ++ c :: cs) = .text w :: ofChars (c :: cs) := by
  have hapart : Symbol.Apart (w.map Symbol.char) ((c :: cs).map Symbol.char) := by
    intro c' d _ hd
    obtain rfl := Symbol.char.inj (Option.some.inj hd)
    exact joins_of_isNone_right h c'
  have hblank : (Token.text w).isBlank = false := by
    obtain ⟨d, ds, rfl⟩ := List.exists_cons_of_ne_nil hne
    cases ds with
    | nil => exact isWhitespace_of_isWord (hw d List.mem_cons_self)
    | cons e ds => rfl
  rw [ofChars, Symbol.tokens, List.map_append, Symbol.runs_append hapart,
    Symbol.runs_word hne hw, List.filter_append, List.filter_cons_of_pos (by rw [hblank]; rfl)]
  rfl

end Token

open Token

theorem TypeArgument.isWord_text (a : TypeArgument) : ∀ c ∈ a.text, isWord c = true := by
  cases a with
  | number n => exact fun c hc => Symbol.isWord_of_isDigit (Numeral.isDigit_of_mem_ofNat hc)
  | max => exact List.all_eq_true.mp rfl

theorem TypeArgument.text_ne_nil (a : TypeArgument) : a.text ≠ [] := by
  cases a with
  | number n => exact Numeral.ofNat_ne_nil n.toNat
  | max => exact List.cons_ne_nil _ _

theorem SqlType.isWord_keyword (t : SqlType) : ∀ c ∈ t.keyword.toList, isWord c = true := by
  cases t <;> exact List.all_eq_true.mp rfl

theorem SqlType.keyword_ne_nil (t : SqlType) : t.keyword.toList ≠ [] := by
  cases t <;> decide

/-- Each argument but the first comes after its comma. -/
def DataType.argumentTokens (a : TypeArgument) (rest : List TypeArgument) : List Token :=
  .text a.text :: rest.flatMap fun b => [.text [','], .text b.text]

def DataType.tokens (t : DataType) : List Token :=
  .text t.type.keyword.toList ::
    match t.arguments with
    | [] => []
    | a :: rest => words "(" ++ DataType.argumentTokens a rest ++ words ")"

theorem DataType.ofChars_arguments (a : TypeArgument) (rest : List TypeArgument) (cs : List Char) :
    ofChars ([',', ' '].intercalate ((a :: rest).map TypeArgument.text) ++ ')' :: cs) =
      argumentTokens a rest ++ ofChars (')' :: cs) := by
  induction rest generalizing a with
  | nil =>
    rw [List.map_singleton, List.intercalate_singleton,
      ofChars_word a.text_ne_nil a.isWord_text rfl cs]
    rfl
  | cons b rest ih =>
    have htext : [',', ' '].intercalate ((a :: b :: rest).map TypeArgument.text) ++ ')' :: cs =
        a.text ++ ',' :: ' ' ::
          ([',', ' '].intercalate ((b :: rest).map TypeArgument.text) ++ ')' :: cs) := by
      simp
    rw [htext, ofChars_word a.text_ne_nil a.isWord_text rfl, ofChars_cons (c := ',') rfl,
      ofChars_space, ih b]
    rfl

theorem DataType.words_sql (t : DataType) :
    words (" AS " ++ t.sql ++ ")") = words "AS" ++ (t.tokens ++ words ")") := by
  have hkeyword (c : Char) (h : (run? c).isNone = true) (cs : List Char) :
      ofChars (' ' :: 'A' :: 'S' :: ' ' :: (t.type.keyword.toList ++ c :: cs)) =
        words "AS" ++ .text t.type.keyword.toList :: ofChars (c :: cs) := by
    rw [ofChars_space]
    show ofChars (['A', 'S'] ++ ' ' :: (t.type.keyword.toList ++ c :: cs)) = _
    rw [ofChars_word (List.cons_ne_nil _ _) (List.all_eq_true.mp rfl) rfl, ofChars_space,
      ofChars_word t.type.keyword_ne_nil t.type.isWord_keyword h]
    rfl
  obtain ⟨type, arguments⟩ := t
  cases arguments with
  | nil =>
    have htext : (" AS " ++ (DataType.mk type []).sql ++ ")").toList =
        ' ' :: 'A' :: 'S' :: ' ' :: (type.keyword.toList ++ ')' :: []) := by
      simp [sql]
    rw [words_eq_ofChars, htext]
    exact hkeyword ')' rfl []
  | cons a rest =>
    have htext : (" AS " ++ (DataType.mk type (a :: rest)).sql ++ ")").toList =
        ' ' :: 'A' :: 'S' :: ' ' :: (type.keyword.toList ++ '(' ::
          ([',', ' '].intercalate ((a :: rest).map TypeArgument.text) ++ ')' :: [')'])) := by
      simp [sql]
    have hclose : ofChars [')', ')'] = words ")" ++ words ")" := rfl
    rw [words_eq_ofChars, htext, hkeyword '(' rfl, ofChars_cons (c := '(') rfl, ofChars_arguments,
      hclose, tokens]
    simp only [List.cons_append, List.append_assoc]
    rfl

theorem Select.tokens_limitFragment (limit : UInt64) :
    (Select.limitFragment limit).tokens =
      if limit = 0 then [] else [.text ['t', 'o', 'p'], .text (Numeral.ofNat limit.toNat)] := by
  unfold Select.limitFragment
  split
  · rfl
  · have htext : ("top ".toList ++ Numeral.ofNat limit.toNat ++ [' ']) =
        ['t', 'o', 'p'] ++ ' ' :: (Numeral.ofNat limit.toNat ++ ' ' :: []) := by
      simp
    have hdigits : ∀ c ∈ Numeral.ofNat limit.toNat, isWord c = true :=
      fun c hc => Symbol.isWord_of_isDigit (Numeral.isDigit_of_mem_ofNat hc)
    rw [Fragment.tokens_text, words_eq_ofChars, String.toList_ofList, htext,
      ofChars_word (List.cons_ne_nil _ _) (List.all_eq_true.mp rfl) rfl, ofChars_space,
      ofChars_word (Numeral.ofNat_ne_nil _) hdigits rfl]
    rfl

namespace Statement

theorem neat_fragment (s : Statement) : Neat true s.fragment := by
  cases s with
  | select q => exact q.select.neat_fragment
  | insert i => exact i.neat_fragment
  | update u => exact u.neat_fragment
  | delete d => exact d.neat_fragment

/-- What a database reads of a built statement are the tokens of its fragment. -/
theorem tokens?_of_build {s : Statement} {b : Built} (h : s.build = .ok b) :
    b.tokens? = some s.fragment.tokens := by
  rw [tokens?_eq_symbols h, symbols, tokens_symbols s.neat_fragment]

end Statement
end BoundSql
