import BoundSql.Fragment

/-
Names read back from their quotes.

A reader with one character of look-ahead takes a name out of a text: after the opening
quote a doubled quote stands for one, and the first quote that is not doubled ends the
name.  What can be read is exactly a quoted name before a text that does not begin with a
quote, and the name and that text are what is read.  So where a name ends does not depend
on the name.  The main statement is `quoted_name_is_delimited`.
-/

namespace BoundSql
namespace Identifier

/-- Read on inside quotes, to the end of the name and the text after it. -/
def readInside? : List Char → Option (List Char × List Char)
  | [] => none
  | '"' :: '"' :: text => (readInside? text).map fun (name, rest) => ('"' :: name, rest)
  | c :: text =>
    if c = '"' then some ([], text)
    else (readInside? text).map fun (name, rest) => (c :: name, rest)

/-- Read a quoted name at the start of a text, and give the text after it. -/
def readChars? : List Char → Option (List Char × List Char)
  | [] => none
  | c :: text => if c = '"' then readInside? text else none

def read? (text : String) : Option (String × String) :=
  (readChars? text.toList).map fun (name, rest) => (String.ofList name, String.ofList rest)

/-! ## Inside the quotes -/

theorem readInside?_doubled (text : List Char) :
    readInside? ('"' :: '"' :: text) =
      (readInside? text).map fun (name, rest) => ('"' :: name, rest) := by
  rw [readInside?]

/-- The closing quote is the first one that no other follows. -/
theorem readInside?_close {text : List Char} (h : text.head? ≠ some '"') :
    readInside? ('"' :: text) = some ([], text) := by
  have hnot : ∀ rest, '"' = '"' → text = '"' :: rest → False := by
    rintro rest - rfl
    exact h rfl
  rw [readInside?.eq_3 '"' text hnot, if_pos rfl]

/-- Only a quote needs a second look. -/
theorem readInside?_of_ne {c : Char} (h : c ≠ '"') (text : List Char) :
    readInside? (c :: text) = (readInside? text).map fun (name, rest) => (c :: name, rest) := by
  rw [readInside?.eq_3 c text fun _ hc => absurd hc h, if_neg h]

theorem readInside?_doubled_append {rest : List Char} (h : rest.head? ≠ some '"')
    (name : List Char) : readInside? (doubled name ++ '"' :: rest) = some (name, rest) := by
  induction name with
  | nil => exact readInside?_close h
  | cons c name ih =>
    by_cases hc : c = '"'
    · subst hc
      rw [doubled, if_pos rfl, List.cons_append, List.cons_append, readInside?_doubled, ih]
      rfl
    · rw [doubled, if_neg hc, List.cons_append, readInside?_of_ne hc, ih]
      rfl

/-- Nothing else is read. -/
theorem eq_doubled_append_of_readInside? {text name rest : List Char}
    (h : readInside? text = some (name, rest)) :
    text = doubled name ++ '"' :: rest ∧ rest.head? ≠ some '"' := by
  -- By the steps of the reader: a doubled quote, the closing one, and any other character.
  fun_induction readInside? text generalizing name with
  | case1 => cases h
  | case2 text ih =>
    obtain ⟨⟨part, after⟩, hpart, heq⟩ := Option.map_eq_some_iff.mp h
    cases heq
    obtain ⟨htext, hrest⟩ := ih hpart
    rw [htext]
    exact ⟨rfl, hrest⟩
  | case3 text hnot =>
    cases h
    refine ⟨rfl, fun hhead => ?_⟩
    obtain ⟨after, hafter⟩ := List.head?_eq_some_iff.mp hhead
    exact hnot after rfl hafter
  | case4 c text hnot hc ih =>
    obtain ⟨⟨part, after⟩, hpart, heq⟩ := Option.map_eq_some_iff.mp h
    cases heq
    obtain ⟨htext, hrest⟩ := ih hpart
    rw [doubled, if_neg hc, htext]
    exact ⟨rfl, hrest⟩

theorem readChars?_eq_some_iff (text name rest : List Char) :
    readChars? text = some (name, rest) ↔
      text = quotedText name ++ rest ∧ rest.head? ≠ some '"' := by
  have hquoted : quotedText name ++ rest = '"' :: (doubled name ++ '"' :: rest) := by
    simp [quotedText]
  rw [hquoted]
  constructor
  · intro h
    cases text with
    | nil => cases h
    | cons c text =>
      rw [readChars?] at h
      split at h
      · rename_i hc
        obtain ⟨htext, hrest⟩ := eq_doubled_append_of_readInside? h
        exact ⟨by rw [hc, htext], hrest⟩
      · cases h
  · rintro ⟨rfl, hrest⟩
    rw [readChars?, if_pos rfl, readInside?_doubled_append hrest]

/-! ## Whole texts -/

theorem read?_eq_some_iff (text name rest : String) :
    read? text = some (name, rest) ↔
      text = quote name ++ rest ∧ rest.toList.head? ≠ some '"' := by
  have hchars : read? text = some (name, rest) ↔
      readChars? text.toList = some (name.toList, rest.toList) := by
    rw [read?, Option.map_eq_some_iff]
    constructor
    · rintro ⟨⟨part, after⟩, h, heq⟩
      cases heq
      rw [h, String.toList_ofList, String.toList_ofList]
    · intro h
      exact ⟨_, h, Prod.ext String.ofList_toList String.ofList_toList⟩
  rw [hchars, readChars?_eq_some_iff, ← String.toList_inj, String.toList_append, toList_quote]

/-- Whatever a name is, it is read back whole from its quotes, and what follows is left as it
is.  Nothing else is read.  So a text begins with one quoted name at most, and no two names
are quoted alike. -/
theorem quoted_name_is_delimited :
    (∀ text name rest : String, read? text = some (name, rest) ↔
      text = quote name ++ rest ∧ rest.toList.head? ≠ some '"') ∧
    (∀ name other rest after : String,
      rest.toList.head? ≠ some '"' → after.toList.head? ≠ some '"' →
      (quote name ++ rest = quote other ++ after ↔ name = other ∧ rest = after)) ∧
    Function.Injective quote := by
  have hunique (name other rest after : String) (hrest : rest.toList.head? ≠ some '"')
      (hafter : after.toList.head? ≠ some '"') :
      quote name ++ rest = quote other ++ after ↔ name = other ∧ rest = after := by
    constructor
    · intro h
      have hname := (read?_eq_some_iff _ name rest).mpr ⟨rfl, hrest⟩
      have hother := (read?_eq_some_iff _ other after).mpr ⟨h, hafter⟩
      exact Prod.mk.inj (Option.some.inj (hname.symm.trans hother))
    · rintro ⟨rfl, rfl⟩
      rfl
  refine ⟨read?_eq_some_iff, hunique, fun name other h => ?_⟩
  exact ((hunique name other "" "" (by decide) (by decide)).mp (congrArg (· ++ "") h)).1

/-- A name of quotes only before a quoted text, and a name that would pass for two. -/
theorem quoted_name_of_quotes :
    let rest := ".\"id\""
    let after := ", \"b\""
    (rest.toList.head? ≠ some '"' ∧ after.toList.head? ≠ some '"') ∧
      quote "\"\"" ++ rest = "\"\"\"\"\"\".\"id\"" ∧
      read? (quote "\"\"" ++ rest) = some ("\"\"", rest) ∧
      quote "a\", \"b" ++ "" ≠ quote "a" ++ after := by
  intro rest after
  have hrest : rest.toList.head? ≠ some '"' := by decide
  have hafter : after.toList.head? ≠ some '"' := by decide
  obtain ⟨hread, hunique, -⟩ := quoted_name_is_delimited
  refine ⟨⟨hrest, hafter⟩, by decide, (hread _ _ rest).mpr ⟨rfl, hrest⟩, fun h => ?_⟩
  exact absurd ((hunique "a\", \"b" "a" "" after (by decide) hafter).mp h).1 (by decide)

end Identifier
end BoundSql
