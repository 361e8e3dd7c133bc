import BoundSql.Proofs.Build

/-
Tokens of SQL text.

Outside quotes a text falls into words, operators and single marks, and blanks
only keep them apart.  A quoted name is a token, and a placeholder is read as the
value that is bound under it.  The main statement is `resolve_runs`: tidy symbols
have the tokens of their text, so that tokens can be told from symbols, where
names and values are single things already.
-/

namespace BoundSql

inductive Token where
  /-- A word, a number, an operator or a mark. -/
  | text (cs : List Char)
  | name (n : String)
  | value (v : Value)

namespace Token

/-- What more than one character may be in. -/
inductive Run where
  | word
  | operator
  deriving DecidableEq

def isWord (c : Char) : Bool :=
  Symbol.isWordChar c || c == '@'

/-- Any other character stands alone. -/
def run? (c : Char) : Option Run :=
  if isWord c then some .word
  else if ['<', '=', '>'].contains c then some .operator
  else none

/-- Whether two characters next to each other are in one token. -/
def joins (c d : Char) : Bool :=
  (run? c).isSome && run? c == run? d

/-- One more character before tokens. -/
def push (c : Char) : List Token → List Token
  | text (d :: ds) :: rest =>
    if joins c d then text (c :: d :: ds) :: rest else text [c] :: text (d :: ds) :: rest
  | rest => text [c] :: rest

def isBlank : Token → Bool
  | text [c] => c.isWhitespace
  | _ => false

/-- A placeholder stands for its value. -/
def resolve (params : Parameters) : Token → Token
  | text cs => (params.get? (String.ofList cs)).elim (text cs) value
  | t => t

end Token

namespace Symbol

/-- Tokens of symbols, blanks included. -/
def runs : List Symbol → List Token
  | [] => []
  | char c :: rest => Token.push c (runs rest)
  | name n :: rest => .name n :: runs rest
  | value v :: rest => .value v :: runs rest

def tokens (symbols : List Symbol) : List Token :=
  (runs symbols).filter fun t => !t.isBlank

end Symbol

namespace Lexeme

def symbol : Lexeme → Symbol
  | outside c => .char c
  | quoted n => .name n

/-- The tokens of a text that was read as lexemes. -/
def tokens (params : Parameters) (ls : List Lexeme) : List Token :=
  ((Symbol.runs (ls.map symbol)).map (Token.resolve params)).filter fun t => !t.isBlank

end Lexeme

/-- What a database reads, if every name in the text is closed. -/
def Built.tokens? (b : Built) : Option (List Token) :=
  (Lexeme.scan b.sql).map (Lexeme.tokens b.params)

example : (Symbol.tokens (Symbol.ofText "(\na1<=@@b )")) =
    [.text ['('], .text ['a', '1'], .text ['<', '='], .text ['@', '@', 'b'], .text [')']] := rfl

/-! ## Runs next to each other -/

namespace Symbol

open Token

theorem runs_char (d : Char) (rest : List Symbol) :
    ∃ ds ts, runs (char d :: rest) = .text (d :: ds) :: ts := by
  rw [runs]
  unfold push
  split
  · split <;> exact ⟨_, _, rfl⟩
  · exact ⟨_, _, rfl⟩

theorem runs_ne_nil (s : Symbol) (rest : List Symbol) : runs (s :: rest) ≠ [] := by
  cases s with
  | char c =>
    obtain ⟨ds, ts, h⟩ := runs_char c rest
    rw [h]
    exact List.cons_ne_nil _ _
  | name n => exact List.cons_ne_nil _ _
  | value v => exact List.cons_ne_nil _ _

theorem push_append (c : Char) {ts : List Token} (h : ts ≠ []) (us : List Token) :
    push c (ts ++ us) = push c ts ++ us := by
  obtain ⟨t, ts, rfl⟩ := List.exists_cons_of_ne_nil h
  cases t with
  | text cs =>
    cases cs with
    | nil => rfl
    | cons d ds =>
      rw [List.cons_append, push, push]
      split <;> rfl
  | name n => rfl
  | value v => rfl

/-- No token goes on from symbols to those after them. -/
def Apart (a b : List Symbol) : Prop :=
  ∀ c d, a.getLast? = some (char c) → b.head? = some (char d) → joins c d = false

theorem push_runs_of_apart {c : Char} {b : List Symbol} (h : Apart [char c] b) :
    push c (runs b) = .text [c] :: runs b := by
  cases b with
  | nil => rfl
  | cons s b =>
    cases s with
    | char d =>
      obtain ⟨ds, ts, hruns⟩ := runs_char d b
      rw [hruns, push, h c d rfl rfl]
      rfl
    | name n => rfl
    | value v => rfl

theorem runs_append {a b : List Symbol} (h : Apart a b) : runs (a ++ b) = runs a ++ runs b := by
  induction a with
  | nil => rfl
  | cons s a ih =>
    cases a with
    | nil =>
      cases s with
      | char c => exact push_runs_of_apart h
      | name n => rfl
      | value v => rfl
    | cons t a =>
      have hrest := ih h
      cases s with
      | char c =>
        rw [List.cons_append, runs, hrest, push_append c (runs_ne_nil t a)]
        rfl
      | name n => exact congrArg (Token.name n :: ·) hrest
      | value v => exact congrArg (Token.value v :: ·) hrest

/-- Characters of a word are one token. -/
theorem runs_word {cs : List Char} (hne : cs ≠ []) (h : ∀ c ∈ cs, isWord c = true) :
    runs (cs.map char) = [.text cs] := by
  induction cs with
  | nil => exact absurd rfl hne
  | cons c cs ih =>
    cases cs with
    | nil => rfl
    | cons d ds =>
      have hc := h c List.mem_cons_self
      have hd := h d (List.mem_cons_of_mem c List.mem_cons_self)
      have hjoins : joins c d = true := by simp [joins, run?, hc, hd]
      have hrest := ih (List.cons_ne_nil d ds) fun e he => h e (List.mem_cons_of_mem c he)
      rw [List.map_cons, runs, hrest, push, if_pos hjoins]

/-! ## Placeholders -/

theorem isWord_of_isDigit {c : Char} (h : c.isDigit = true) : isWord c = true := by
  simp [isWord, isWordChar, Char.isAlphanum, h]

theorem isWord_of_mem_placeholder {k : Nat} {c : Char} (h : c ∈ (Parameters.name k).toList) :
    isWord c = true := by
  rcases Parameters.mem_name h with rfl | rfl | h
  · rfl
  · rfl
  · exact isWord_of_isDigit h

end Symbol

namespace Symbol

open Token

section
variable {params : Parameters}

/-- A text that does not begin like a placeholder is none. -/
theorem resolve_text {c : Char} {ds : List Char} (h : c = '@' → ds.head? ≠ some 'p') :
    resolve params (.text (c :: ds)) = .text (c :: ds) := by
  rw [resolve]
  cases hget : params.get? (String.ofList (c :: ds)) with
  | none => rfl
  | some v =>
    obtain ⟨i, hi⟩ := Parameters.exists_name_of_get? hget
    have hlist := congrArg String.toList hi
    rw [String.toList_ofList, Parameters.toList_name] at hlist
    obtain ⟨rfl, rfl⟩ := List.cons.inj hlist
    exact absurd rfl (h rfl)

theorem eq_of_resolve_eq_text {cs ds : List Char}
    (h : resolve params (.text cs) = .text ds) : cs = ds := by
  rw [resolve] at h
  cases hget : params.get? (String.ofList cs) with
  | none => simpa [hget] using h
  | some v => simp [hget] at h

/-- Only characters of words cannot stand next to a placeholder. -/
theorem isWord_eq_false {start next : Edge} {c : Char} (h : follow start (char c) = some next)
    (hedge : start = .value ∨ next = .clear) : isWord c = false := by
  rw [Bool.eq_false_iff]
  intro hword
  by_cases hat : c = '@'
  · subst hat
    rcases hedge with rfl | rfl <;> simp [follow] at h
  · have hw : isWordChar c = true := by simpa [isWord, hat] using hword
    rcases hedge with rfl | rfl <;> simp [follow, hat, hw] at h

theorem run?_eq_word {c : Char} : run? c = some .word ↔ isWord c = true := by
  unfold run?
  split
  · rename_i hword
    simp [hword]
  · rename_i hword
    split <;> simp [hword]

theorem joins_eq_false {c d : Char} (h : isWord c ≠ isWord d) : joins c d = false := by
  have hrun : run? c ≠ run? d := by
    intro heq
    refine h ?_
    rw [Bool.eq_iff_iff, ← run?_eq_word, ← run?_eq_word, heq]
  simp [joins, hrun]

/-- What follows a placeholder does not go on with it. -/
theorem apart_of_tidy_value {rest : List Symbol} (h : Tidy .value rest) (k : Nat) :
    Apart ((Parameters.name k).toList.map char) ((lexemes (k + 1) rest).map Lexeme.symbol) := by
  intro c d hc hd
  obtain ⟨c', hmem, hc'⟩ := List.mem_map.mp (List.mem_of_getLast? hc)
  obtain rfl := char.inj hc'
  cases rest with
  | nil => cases hd
  | cons s rest =>
    obtain ⟨next, hs, -⟩ := tidy_cons.mp h
    cases s with
    | char e =>
      obtain rfl := char.inj (Option.some.inj hd)
      rw [joins_eq_false]
      rw [isWord_of_mem_placeholder hmem, isWord_eq_false hs (.inl rfl)]
      decide
    | name n => cases hd
    | value v => simp [follow] at hs

/-- A character of a text is read the same before the text of symbols and before the
symbols. -/
theorem resolve_push {start : Edge} {c : Char} {rest : List Symbol}
    (h : Tidy start (char c :: rest)) {k : Nat}
    (hrest : (runs ((lexemes k rest).map Lexeme.symbol)).map (resolve params) = runs rest) :
    (push c (runs ((lexemes k rest).map Lexeme.symbol))).map (resolve params) =
      push c (runs rest) := by
  obtain ⟨next, hc, hnext⟩ := tidy_cons.mp h
  have halone : resolve params (.text [c]) = .text [c] := resolve_text fun _ => by simp
  cases rest with
  | nil => exact congrArg (· :: []) halone
  | cons s rest =>
    obtain ⟨after, hs, -⟩ := tidy_cons.mp hnext
    cases s with
    | name n => exact List.cons_eq_cons.mpr ⟨halone, hrest⟩
    | value v =>
      have hclear : next = .clear := by simp [follow] at hs; exact hs.1
      subst hclear
      have hapart : Apart [char c] ((lexemes k (value v :: rest)).map Lexeme.symbol) := by
        intro c' d hc' hd
        obtain rfl := char.inj (Option.some.inj hc')
        have hat : ((lexemes k (value v :: rest)).map Lexeme.symbol).head? = some (char '@') := by
          simp [lexemes, Parameters.toList_name, Lexeme.symbol]
        obtain rfl := char.inj (Option.some.inj (hat.symm.trans hd))
        refine joins_eq_false ?_
        rw [isWord_eq_false hc (.inr rfl)]
        decide
      rw [push_runs_of_apart hapart]
      exact List.cons_eq_cons.mpr ⟨halone, hrest⟩
    | char d =>
      obtain ⟨ds, ts, hts⟩ := runs_char d ((lexemes k rest).map Lexeme.symbol)
      obtain ⟨es, us, hus⟩ := runs_char d rest
      have htext : (lexemes k (char d :: rest)).map Lexeme.symbol =
          char d :: (lexemes k rest).map Lexeme.symbol := rfl
      rw [htext, hts, hus, List.map_cons] at hrest
      obtain ⟨hhead, htail⟩ := List.cons.inj hrest
      obtain rfl := (List.cons.inj (eq_of_resolve_eq_text hhead)).2
      rw [htext, hts, hus, push, push]
      split
      · have hp : c = '@' → (d :: ds).head? ≠ some 'p' := by
          rintro rfl hd
          obtain rfl := Option.some.inj hd
          have hsign : next = .sign := by simp [follow] at hc; exact hc.2.symm
          subst hsign
          simp [follow, isWordChar] at hs
        rw [List.map_cons, resolve_text hp, htail]
      · rw [List.map_cons, List.map_cons, halone, hhead, htail]

/-- Tidy symbols have the tokens of their text, if their values are bound under the
placeholders. -/
theorem resolve_runs {start : Edge} {symbols : List Symbol} (h : Tidy start symbols) (k : Nat)
    (hparams : ∀ i, params.get? (Parameters.name (k + i)) = (values symbols)[i]?) :
    (runs ((lexemes k symbols).map Lexeme.symbol)).map (resolve params) = runs symbols := by
  induction symbols generalizing start k with
  | nil => rfl
  | cons s rest ih =>
    obtain ⟨next, hs, hrest⟩ := tidy_cons.mp h
    cases s with
    | char c => exact resolve_push h (ih hrest k hparams)
    | name n => exact congrArg (Token.name n :: ·) (ih hrest k hparams)
    | value v =>
      have hvalue : next = .value := by simp [follow] at hs; exact hs.2.symm
      subst hvalue
      have hget : params.get? (Parameters.name k) = some v := hparams 0
      have hlater (i : Nat) : params.get? (Parameters.name (k + 1 + i)) = (values rest)[i]? := by
        rw [show k + 1 + i = k + (i + 1) by omega]
        exact hparams (i + 1)
      have hword : runs ((Parameters.name k).toList.map char) =
          [.text (Parameters.name k).toList] := by
        refine runs_word ?_ fun c => isWord_of_mem_placeholder
        rw [Parameters.toList_name]
        exact List.cons_ne_nil _ _
      rw [lexemes, List.map_append, List.map_map]
      show (runs ((Parameters.name k).toList.map char ++ _)).map _ = _
      rw [runs_append (apart_of_tidy_value hrest k), hword, List.map_append,
        ih hrest (k + 1) hlater, List.map_singleton, resolve, String.ofList_toList, hget]
      rfl

end

end Symbol

/-- What a database reads of a built statement are the tokens of its symbols. -/
theorem Statement.tokens?_eq_symbols {s : Statement} {b : Built} (h : s.build = .ok b) :
    b.tokens? = some (Symbol.tokens s.symbols) := by
  have hparams (i : Nat) :
      b.params.get? (Parameters.name (0 + i)) = (Symbol.values s.symbols)[i]? := by
    rw [Nat.zero_add, Parameters.get?_name, ← Array.getElem?_toList, values_of_build h,
      values_symbols (fault?_of_build h)]
  have htidy : Symbol.Tidy .clear s.symbols := s.tidy_fragment
  rw [Built.tokens?, scan_of_build h, Option.map_some, Lexeme.tokens,
    Symbol.resolve_runs htidy 0 hparams]
  rfl

end BoundSql
