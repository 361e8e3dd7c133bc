import BoundSql.Proofs.Lexeme

/-
Fragments spelled out, one character, name or value at a time.

Where a text ends and the next one begins cannot be seen in what is written, so
statements about written SQL are made about symbols.  `follow` is the rule that
keeps symbols apart: no text has a quote in it, two names never touch, and a
placeholder touches no letter, digit or other placeholder.  For symbols that
keep to it the main statements are `scanFrom_spell`, that the written text is
read back as the lexemes of its symbols, and `spell_inj`, that symbols with
their values can be told from the text.
-/

namespace BoundSql

inductive Symbol where
  | char (c : Char)
  | name (n : String)
  | value (v : Value)

namespace Symbol

def ofText (s : String) : List Symbol :=
  s.toList.map char

/-- What is written for symbols if `k` values were bound before. -/
def spell : Nat → List Symbol → List Char
  | _, [] => []
  | k, char c :: rest => c :: spell k rest
  | k, name n :: rest => Identifier.quotedText n.toList ++ spell k rest
  | k, value _ :: rest => (Parameters.name k).toList ++ spell (k + 1) rest

/-- How that is read. -/
def lexemes : Nat → List Symbol → List Lexeme
  | _, [] => []
  | k, char c :: rest => .outside c :: lexemes k rest
  | k, name n :: rest => .quoted n :: lexemes k rest
  | k, value _ :: rest => (Parameters.name k).toList.map .outside ++ lexemes (k + 1) rest

def value? : Symbol → Option Value
  | value v => some v
  | _ => none

def values (symbols : List Symbol) : List Value :=
  symbols.filterMap value?

theorem spell_append_char (k : Nat) (cs : List Char) (rest : List Symbol) :
    spell k (cs.map char ++ rest) = cs ++ spell k rest := by
  induction cs with
  | nil => rfl
  | cons c cs ih => rw [List.map_cons, List.cons_append, spell, ih, List.cons_append]

end Symbol

/-! ## Symbols of a fragment -/

def Piece.symbols : Piece → List Symbol
  | .text s => Symbol.ofText s
  | .name n => [.name n]
  | .bind v => [.value v]
  | .fault _ => []

namespace Fragment

open BoundSql.Symbol

def symbols (f : Fragment) : List Symbol :=
  f.flatMap Piece.symbols

@[simp] theorem symbols_nil : symbols [] = [] := rfl

@[simp] theorem symbols_append (f g : Fragment) : symbols (f ++ g) = f.symbols ++ g.symbols :=
  List.flatMap_append

@[simp] theorem symbols_text (s : String) (f : Fragment) :
    symbols (.text s :: f) = ofText s ++ f.symbols := rfl

@[simp] theorem symbols_name (n : String) (f : Fragment) :
    symbols (.name n :: f) = .name n :: f.symbols := rfl

@[simp] theorem symbols_bind (v : Value) (f : Fragment) :
    symbols (.bind v :: f) = .value v :: f.symbols := rfl

/-- A fragment without a fault is written symbol by symbol. -/
theorem toList_write {f : Fragment} (hf : f.fault? = none) (out : Output) :
    (write out f).1.sql.toList = out.sql.toList ++ spell out.params.size f.symbols := by
  induction f generalizing out with
  | nil => simp [write, spell]
  | cons piece rest ih =>
    cases piece with
    | text s =>
      rw [write, ih hf, symbols_text, ofText, spell_append_char]
      simp [Output.addText]
    | name n =>
      rw [write, ih hf, symbols_name, spell]
      simp [Output.addName, Output.addText, Identifier.toList_quote]
    | bind v =>
      rw [write, ih hf, symbols_bind, spell]
      simp [Output.bind, Parameters.next, Parameters.size_push]
    | fault f => simp [fault?] at hf

theorem values_symbols {f : Fragment} (hf : f.fault? = none) :
    Symbol.values f.symbols = f.bound := by
  induction f with
  | nil => rfl
  | cons piece rest ih =>
    cases piece with
    | text s =>
      have htext : (ofText s).filterMap Symbol.value? = [] := by
        simp [ofText, List.filterMap_map, Function.comp_def, Symbol.value?]
      rw [symbols_text, Symbol.values, List.filterMap_append, htext, List.nil_append]
      exact ih hf
    | name n => exact ih hf
    | bind v => exact congrArg (v :: ·) (ih hf)
    | fault f => simp [fault?] at hf

end Fragment

/-! ## Symbols that do not run together -/

namespace Symbol

/-- What the symbols so far leave open for the next one. -/
inductive Edge where
  | clear
  /-- A letter, digit or underscore, which the next one would lengthen. -/
  | word
  /-- An at sign, with which a variable begins. -/
  | sign
  | name
  | value
  deriving DecidableEq

def isWordChar (c : Char) : Bool :=
  c.isAlphanum || c == '_'

/-- The edge after one more symbol, if it may stand there.  Quotes and colons
stand in names only, and no text begins a word with `@p`. -/
def follow : Edge → Symbol → Option Edge
  | edge, char c =>
    if c = '"' ∨ c = ':' then none
    else if c = '@' then if edge = .clear ∨ edge = .sign then some .sign else none
    else if isWordChar c then
      if edge = .value ∨ (edge = .sign ∧ c = 'p') then none else some .word
    else some .clear
  | edge, name _ => if edge = .name then none else some .name
  | edge, value _ => if edge = .clear then some .value else none

/-- The edge after symbols that may stand one after another. -/
def edgeAfter (start : Edge) (symbols : List Symbol) : Option Edge :=
  symbols.foldlM follow start

/-- Every symbol may stand where it stands. -/
def Tidy (start : Edge) (symbols : List Symbol) : Prop :=
  ∃ last, edgeAfter start symbols = some last

theorem edgeAfter_append (start : Edge) (a b : List Symbol) :
    edgeAfter start (a ++ b) = (edgeAfter start a).bind fun next => edgeAfter next b :=
  List.foldlM_append

theorem edgeAfter_cons (start : Edge) (s : Symbol) (rest : List Symbol) :
    edgeAfter start (s :: rest) = (follow start s).bind fun next => edgeAfter next rest :=
  List.foldlM_cons

theorem tidy_nil (start : Edge) : Tidy start [] := ⟨start, rfl⟩

theorem tidy_cons {start : Edge} {s : Symbol} {rest : List Symbol} :
    Tidy start (s :: rest) ↔ ∃ next, follow start s = some next ∧ Tidy next rest := by
  simp only [Tidy, edgeAfter_cons, Option.bind_eq_some_iff]
  constructor
  · rintro ⟨last, next, h, hlast⟩
    exact ⟨next, h, last, hlast⟩
  · rintro ⟨next, h, last, hlast⟩
    exact ⟨last, next, h, hlast⟩

theorem ne_quote_of_follow {edge next : Edge} {c : Char} (h : follow edge (char c) = some next) :
    c ≠ '"' := by
  intro heq
  subst heq
  simp [follow] at h

/-! ## Reading what is written -/

theorem ne_quote_of_mem_placeholder {k : Nat} {c : Char} (h : c ∈ (Parameters.name k).toList) :
    c ≠ '"' := by
  intro heq
  subst heq
  exact absurd (Parameters.mem_name h) (by decide)

theorem scanFrom_append_outside {cs : List Char} (h : ∀ c ∈ cs, c ≠ '"') (rest : List Char) :
    Lexeme.scanFrom none (cs ++ rest) =
      (Lexeme.scanFrom none rest).map (cs.map Lexeme.outside ++ ·) := by
  induction cs with
  | nil => simp
  | cons c cs ih =>
    rw [List.cons_append, Lexeme.scanFrom_outside (h c List.mem_cons_self),
      ih fun d hd => h d (List.mem_cons_of_mem c hd), Option.map_map]
    rfl

/-- After a name nothing begins with a quote. -/
theorem head?_spell_of_tidy_name {symbols : List Symbol} (h : Tidy .name symbols) (k : Nat) :
    (spell k symbols).head? ≠ some '"' := by
  cases symbols with
  | nil => simp [spell]
  | cons s rest =>
    obtain ⟨next, hs, -⟩ := tidy_cons.mp h
    cases s with
    | char c => simpa [spell] using ne_quote_of_follow hs
    | name n => simp [follow] at hs
    | value v => simp [spell, Parameters.toList_name]

/-- Tidy symbols are read back as their lexemes. -/
theorem scanFrom_spell {symbols : List Symbol} {start : Edge} (h : Tidy start symbols) (k : Nat) :
    Lexeme.scanFrom none (spell k symbols) = some (lexemes k symbols) := by
  induction symbols generalizing start k with
  | nil => rfl
  | cons s rest ih =>
    obtain ⟨next, hs, hrest⟩ := tidy_cons.mp h
    cases s with
    | char c =>
      rw [spell, Lexeme.scanFrom_outside (ne_quote_of_follow hs), ih hrest]
      rfl
    | name n =>
      have hname : next = .name := by simp [follow] at hs; exact hs.2.symm
      subst hname
      rw [spell, Lexeme.scanFrom_quotedText (head?_spell_of_tidy_name hrest k), ih hrest]
      simp [lexemes]
    | value v =>
      rw [spell, scanFrom_append_outside fun _ => ne_quote_of_mem_placeholder, ih hrest]
      rfl

/-! ## Telling symbols from what is written -/

/-- No text reads like a placeholder. -/
theorem lexemes_char_ne_value {start : Edge} {c : Char} {rest : List Symbol}
    (h : Tidy start (char c :: rest)) (k : Nat) (v : Value) (others : List Symbol) :
    lexemes k (char c :: rest) ≠ lexemes k (value v :: others) := by
  intro heq
  simp only [lexemes, Parameters.toList_name, List.map_cons, List.cons_append, List.cons.injEq,
    Lexeme.outside.injEq] at heq
  obtain ⟨rfl, heq⟩ := heq
  obtain ⟨next, hs, hrest⟩ := tidy_cons.mp h
  have hsign : next = .sign := by simp [follow] at hs; exact hs.2.symm
  subst hsign
  cases rest with
  | nil => simp [lexemes] at heq
  | cons s rest =>
    obtain ⟨last, hp, -⟩ := tidy_cons.mp hrest
    cases s with
    | char d =>
      simp only [lexemes, List.cons.injEq, Lexeme.outside.injEq] at heq
      obtain ⟨rfl, -⟩ := heq
      simp [follow, isWordChar] at hp
    | name n => simp [lexemes] at heq
    | value w => simp [lexemes, Parameters.toList_name] at heq

theorem lexemes_inj {a b : List Symbol} {start start' : Edge} (ha : Tidy start a)
    (hb : Tidy start' b) (k : Nat) (hl : lexemes k a = lexemes k b) (hv : values a = values b) :
    a = b := by
  induction a generalizing b start start' k with
  | nil =>
    cases b with
    | nil => rfl
    | cons t b => cases t <;> simp [lexemes, Parameters.toList_name] at hl
  | cons s a ih =>
    cases b with
    | nil => cases s <;> simp [lexemes, Parameters.toList_name] at hl
    | cons t b =>
      obtain ⟨next, -, ha'⟩ := tidy_cons.mp ha
      obtain ⟨next', -, hb'⟩ := tidy_cons.mp hb
      cases s with
      | char c =>
        cases t with
        | char d =>
          simp only [lexemes, List.cons.injEq, Lexeme.outside.injEq] at hl
          rw [hl.1, ih ha' hb' k hl.2 hv]
        | name n => simp [lexemes] at hl
        | value w => exact absurd hl (lexemes_char_ne_value ha k w b)
      | name m =>
        cases t with
        | char d => simp [lexemes] at hl
        | name n =>
          simp only [lexemes, List.cons.injEq, Lexeme.quoted.injEq] at hl
          rw [hl.1, ih ha' hb' k hl.2 hv]
        | value w => simp [lexemes, Parameters.toList_name] at hl
      | value v =>
        cases t with
        | char d => exact absurd hl.symm (lexemes_char_ne_value hb k v a)
        | name n => simp [lexemes, Parameters.toList_name] at hl
        | value w =>
          simp only [values, List.filterMap_cons, value?, List.cons.injEq] at hv
          rw [hv.1, ih ha' hb' (k + 1) (List.append_cancel_left hl) hv.2]

/-- Tidy symbols are told from their text and values. -/
theorem spell_inj {a b : List Symbol} {start start' : Edge} (ha : Tidy start a)
    (hb : Tidy start' b) (k : Nat) (hs : spell k a = spell k b) (hv : values a = values b) :
    a = b := by
  have hscan := scanFrom_spell ha k
  rw [hs, scanFrom_spell hb k] at hscan
  exact lexemes_inj ha hb k (Option.some.inj hscan).symm hv

end Symbol
end BoundSql
