import BoundSql.Proofs.Build

/-
The placeholders of a text, as a database finds them.

A variable is an at sign outside quotes with the longest word after it, and a
placeholder is a variable that reads `p` and digits.  The main statement is
`placeholders_lexemes`: tidy symbols have one placeholder for each value, and the
placeholders are numbered from left to right.
-/

namespace BoundSql

namespace Lexeme

/-- The word at the start. -/
def word : List Lexeme → List Char
  | outside c :: rest => if Symbol.isWordChar c then c :: word rest else []
  | _ => []

/-- Every at sign outside quotes, with the word after it. -/
def variableNames : List Lexeme → List (List Char)
  | [] => []
  | outside c :: rest =>
    if c = '@' then ('@' :: word rest) :: variableNames rest else variableNames rest
  | quoted _ :: rest => variableNames rest

def isPlaceholder : List Char → Bool
  | '@' :: 'p' :: digits => !digits.isEmpty && digits.all Char.isDigit
  | _ => false

/-- The placeholders outside quotes, from left to right. -/
def placeholders (ls : List Lexeme) : List String :=
  ((variableNames ls).filter isPlaceholder).map String.ofList

theorem variableNames_outside {c : Char} (h : c ≠ '@') (ls : List Lexeme) :
    variableNames (outside c :: ls) = variableNames ls := by
  rw [variableNames, if_neg h]

theorem variableNames_append_outside {cs : List Char} (h : '@' ∉ cs) (ls : List Lexeme) :
    variableNames (cs.map outside ++ ls) = variableNames ls := by
  induction cs with
  | nil => rfl
  | cons c cs ih =>
    obtain ⟨hc, hcs⟩ := List.ne_and_not_mem_of_not_mem_cons h
    rw [List.map_cons, List.cons_append, variableNames_outside hc.symm, ih hcs]

/-- Word characters before anything else lengthen its word. -/
theorem word_append_outside {cs : List Char} (h : ∀ c ∈ cs, Symbol.isWordChar c = true)
    (ls : List Lexeme) : word (cs.map outside ++ ls) = cs ++ word ls := by
  induction cs with
  | nil => rfl
  | cons c cs ih =>
    rw [List.map_cons, List.cons_append, word, if_pos (h c List.mem_cons_self),
      ih fun d hd => h d (List.mem_cons_of_mem c hd), List.cons_append]

theorem isPlaceholder_name (k : Nat) : isPlaceholder (Parameters.name k).toList = true := by
  have hne : (Numeral.ofNat k).isEmpty = false := by simpa using Numeral.ofNat_ne_nil k
  have hdigits : (Numeral.ofNat k).all Char.isDigit = true :=
    List.all_eq_true.mpr fun _ hc => Numeral.isDigit_of_mem_ofNat hc
  rw [Parameters.toList_name, isPlaceholder, hne, hdigits]
  rfl

end Lexeme

/-! ## Placeholders of symbols -/

namespace Symbol

open Lexeme

theorem isWordChar_of_isDigit {c : Char} (h : c.isDigit = true) : isWordChar c = true := by
  simp [isWordChar, Char.isAlphanum, h]

/-- A placeholder ends where its digits end. -/
theorem word_of_tidy_value {symbols : List Symbol} (h : Tidy .value symbols) (k : Nat) :
    word (lexemes k symbols) = [] := by
  cases symbols with
  | nil => rfl
  | cons s rest =>
    obtain ⟨next, hs, -⟩ := tidy_cons.mp h
    cases s with
    | char c =>
      have hc : isWordChar c = false := by
        rw [Bool.eq_false_iff]
        intro hw
        have hat : c ≠ '@' := Numeral.ne_of_class hw rfl
        simp [follow, hat, hw] at hs
      simp [lexemes, word, hc]
    | name n => rfl
    | value v => simp [follow] at hs

/-- After an at sign no word begins with `p`. -/
theorem isPlaceholder_of_tidy_sign {symbols : List Symbol} (h : Tidy .sign symbols) (k : Nat) :
    isPlaceholder ('@' :: word (lexemes k symbols)) = false := by
  cases symbols with
  | nil => rfl
  | cons s rest =>
    obtain ⟨next, hs, -⟩ := tidy_cons.mp h
    cases s with
    | char c =>
      rw [lexemes, word]
      split
      · rename_i hw
        have hp : c ≠ 'p' := by
          intro heq
          subst heq
          simp [follow, isWordChar] at hs
        unfold isPlaceholder
        split
        · rename_i heq
          simp only [List.cons.injEq] at heq
          exact absurd heq.2.1 hp
        · rfl
      · rfl
    | name n => rfl
    | value v => simp [follow] at hs

theorem isWordChar_of_mem_placeholder {k : Nat} {c : Char} (h : c ∈ 'p' :: Numeral.ofNat k) :
    isWordChar c = true := by
  rcases List.mem_cons.mp h with rfl | hc
  · decide
  · exact isWordChar_of_isDigit (Numeral.isDigit_of_mem_ofNat hc)

/-- After the at sign of a placeholder stands the rest of it. -/
theorem word_placeholder {rest : List Symbol} (h : Tidy .value rest) (k : Nat) :
    word (('p' :: Numeral.ofNat k).map outside ++ lexemes (k + 1) rest) =
      'p' :: Numeral.ofNat k := by
  rw [word_append_outside fun _ => isWordChar_of_mem_placeholder, word_of_tidy_value h,
    List.append_nil]

theorem variableNames_value {rest : List Symbol} (h : Tidy .value rest) (k : Nat) (v : Value) :
    variableNames (lexemes k (value v :: rest)) =
      (Parameters.name k).toList :: variableNames (lexemes (k + 1) rest) := by
  have hat : '@' ∉ 'p' :: Numeral.ofNat k := fun hc =>
    absurd (isWordChar_of_mem_placeholder hc) (by decide)
  rw [lexemes, Parameters.toList_name, List.map_cons, List.cons_append, variableNames, if_pos rfl,
    word_placeholder h, variableNames_append_outside hat]

/-- Tidy symbols have one placeholder for each value, and no other. -/
theorem placeholders_lexemes {symbols : List Symbol} {start : Edge} (h : Tidy start symbols)
    (k : Nat) :
    placeholders (lexemes k symbols) =
      (List.range' k (values symbols).length).map Parameters.name := by
  induction symbols generalizing start k with
  | nil => rfl
  | cons s rest ih =>
    obtain ⟨next, hs, hrest⟩ := tidy_cons.mp h
    have hrec := ih hrest
    unfold placeholders at hrec ⊢
    cases s with
    | char c =>
      by_cases hat : c = '@'
      · subst hat
        have hsign : next = .sign := by simp [follow] at hs; exact hs.2.symm
        subst hsign
        rw [lexemes, variableNames, if_pos rfl,
          List.filter_cons_of_neg (by rw [isPlaceholder_of_tidy_sign hrest]; decide)]
        exact hrec k
      · rw [lexemes, variableNames_outside hat]
        exact hrec k
    | name n => exact hrec k
    | value v =>
      have hvalue : next = .value := by simp [follow] at hs; exact hs.2.symm
      subst hvalue
      rw [variableNames_value hrest, List.filter_cons_of_pos (isPlaceholder_name k), List.map_cons,
        hrec (k + 1), String.ofList_toList]
      rfl

end Symbol

namespace Statement

/-- The text has one placeholder for each value, in the order of binding, and the
value bound under each is the literal that stands there. -/
theorem placeholders_of_build {s : Statement} {b : Built} (h : s.build = .ok b) :
    ∃ ls, Lexeme.scan b.sql = some ls ∧
      Lexeme.placeholders ls = (List.range b.params.size).map Parameters.name ∧
      b.params.size = s.literals.length ∧
      ∀ i, b.params.get? (Parameters.name i) = s.literals[i]? := by
  have hsize : b.params.size = s.literals.length := by
    rw [← values_of_build h, Array.length_toList, Parameters.size]
  refine ⟨_, scan_of_build h, ?_, hsize, fun i => ?_⟩
  · have hnumbered := Symbol.placeholders_lexemes s.tidy_fragment 0
    rwa [← symbols, values_symbols (fault?_of_build h), ← hsize, ← List.range_eq_range']
      at hnumbered
  · rw [Parameters.get?_name, ← Array.getElem?_toList, values_of_build h]

/-- A union whose names look like placeholders. -/
def lookalikeUnion : Statement :=
  let t : Table := ⟨"@p7", none, none⟩
  let branch : Query := .ofClauses [.source (.table t),
    .filters [.equals (.column (t.column "@p0")) (.literal (.int 2))],
    .orderBy [.literal (.int 3)]]
  .select (.ofClauses [.columns [.literal (.int 1)], .source (.table t), .union branch,
    .orderBy [.literal (.int 4)]])

theorem placeholders_lookalikeUnion :
    ∃ b, lookalikeUnion.build = .ok b ∧
      (∃ ls, Lexeme.scan b.sql = some ls ∧
        Lexeme.placeholders ls = ["@p0", "@p1", "@p2", "@p3"]) ∧
      b.params.get? "@p2" = some (.int 3) := by
  obtain ⟨ls, hscan, hnames, -, hvalues⟩ := placeholders_of_build (s := lookalikeUnion)
    (build_of_no_fault rfl)
  exact ⟨_, build_of_no_fault rfl, ⟨ls, hscan, hnames⟩, hvalues 2⟩

end Statement
end BoundSql
