import BoundSql.Fragment

/-
SQL text as a database reads it.

A double quote opens a name, which runs to the first quote that is not doubled;
inside it a doubled quote stands for one.  Every other character stands for
itself.  The main statements are `scanFrom_quotedText`, that a name that was
quoted is read back whole and reading goes on right after it, whatever the name
is, and `flatMap_text_of_scan`, that nothing of a text is lost in reading it.
-/

namespace BoundSql

inductive Lexeme where
  /-- A character outside quotes. -/
  | outside (c : Char)
  /-- A quoted name, without its quotes. -/
  | quoted (name : String)
  deriving DecidableEq

namespace Lexeme

/-- Read on, outside quotes or inside a name of which a part has been read.  A
name that is still open at the end is not read. -/
def scanFrom : Option (List Char) → List Char → Option (List Lexeme)
  | none, [] => some []
  | none, c :: rest =>
    if c = '"' then scanFrom (some []) rest else (scanFrom none rest).map (outside c :: ·)
  | some _, [] => none
  | some part, '"' :: '"' :: rest => scanFrom (some (part ++ ['"'])) rest
  | some part, c :: rest =>
    if c = '"' then (scanFrom none rest).map (quoted (String.ofList part) :: ·)
    else scanFrom (some (part ++ [c])) rest

/-- The lexemes of a text, if every name in it is closed. -/
def scan (sql : String) : Option (List Lexeme) :=
  scanFrom none sql.toList

/-- The name, if the lexeme is one. -/
def name? : Lexeme → Option String
  | outside _ => none
  | quoted name => some name

/-- The lexeme with its name hidden. -/
def hideName : Lexeme → Lexeme
  | outside c => outside c
  | quoted _ => quoted ""

/-! ## Quoted names -/

theorem scanFrom_outside {c : Char} (h : c ≠ '"') (rest : List Char) :
    scanFrom none (c :: rest) = (scanFrom none rest).map (outside c :: ·) := by
  rw [scanFrom, if_neg h]

/-- Inside a name, only a quote needs a second look. -/
theorem scanFrom_inside {c : Char} (h : c ≠ '"') (part rest : List Char) :
    scanFrom (some part) (c :: rest) = scanFrom (some (part ++ [c])) rest := by
  rw [scanFrom.eq_5 part c rest (fun _ hc => absurd hc h), if_neg h]

/-- The closing quote is the first one that no other follows. -/
theorem scanFrom_close {rest : List Char} (h : rest.head? ≠ some '"') (part : List Char) :
    scanFrom (some part) ('"' :: rest) =
      (scanFrom none rest).map (quoted (String.ofList part) :: ·) := by
  have hnot : ∀ tail, '"' = '"' → rest = '"' :: tail → False := by
    rintro tail - rfl
    exact h rfl
  rw [scanFrom.eq_5 part '"' rest hnot, if_pos rfl]

theorem scanFrom_doubled {rest : List Char} (h : rest.head? ≠ some '"') (name part : List Char) :
    scanFrom (some part) (Identifier.doubled name ++ '"' :: rest) =
      (scanFrom none rest).map (quoted (String.ofList (part ++ name)) :: ·) := by
  induction name generalizing part with
  | nil => rw [List.append_nil]; exact scanFrom_close h part
  | cons c name ih =>
    have happ : part ++ c :: name = (part ++ [c]) ++ name := by simp
    by_cases hc : c = '"'
    · subst hc
      rw [Identifier.doubled, if_pos rfl, happ, ← ih]
      rfl
    · rw [Identifier.doubled, if_neg hc, List.cons_append, scanFrom_inside hc, ih, happ]

/-- A quoted name is read back whole before anything that does not begin with a
quote. -/
theorem scanFrom_quotedText {rest : List Char} (h : rest.head? ≠ some '"') (name : List Char) :
    scanFrom none (Identifier.quotedText name ++ rest) =
      (scanFrom none rest).map (quoted (String.ofList name) :: ·) := by
  have := scanFrom_doubled h name []
  simpa [Identifier.quotedText, scanFrom] using this

/-! ## The text of lexemes -/

/-- The text of a lexeme. -/
def text : Lexeme → List Char
  | outside c => [c]
  | quoted name => Identifier.quotedText name.toList

/-- What has been read of a name that is still open. -/
def opened : Option (List Char) → List Char
  | none => []
  | some part => '"' :: Identifier.doubled part

theorem flatMap_text_of_scanFrom {state : Option (List Char)} {cs : List Char} {ls : List Lexeme}
    (h : scanFrom state cs = some ls) : ls.flatMap text = opened state ++ cs := by
  fun_induction scanFrom state cs generalizing ls with
  | case1 =>
    cases h
    rfl
  | case2 rest ih => exact ih h
  | case3 c rest hc ih =>
    obtain ⟨tail, htail, rfl⟩ := Option.map_eq_some_iff.mp h
    exact congrArg (c :: ·) (ih htail)
  | case4 => cases h
  | case5 part rest ih =>
    rw [ih h]
    simp [opened, Identifier.doubled_append, Identifier.doubled]
  | case6 part rest hnot ih =>
    obtain ⟨tail, htail, rfl⟩ := Option.map_eq_some_iff.mp h
    rw [List.flatMap_cons, ih htail]
    simp [opened, text, Identifier.quotedText]
  | case7 part c rest hnot hc ih =>
    rw [ih h]
    simp [opened, Identifier.doubled_append, Identifier.doubled, hc]

/-- Nothing of a text is lost when it is read. -/
theorem flatMap_text_of_scan {sql : String} {ls : List Lexeme} (h : scan sql = some ls) :
    String.ofList (ls.flatMap text) = sql := by
  rw [flatMap_text_of_scanFrom h]
  exact String.ofList_toList

end Lexeme
end BoundSql
