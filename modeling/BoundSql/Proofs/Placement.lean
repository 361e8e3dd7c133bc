import BoundSql.Proofs.Failure
import BoundSql.Proofs.Placeholders
import BoundSql.Proofs.Quoting

/-
Writing does not depend on what was written before, but for the numbering.

A node is written after any text and any bound values as it is written on its own:
it fails or succeeds in the same way, binds the same values, and its text is the same
with the numbers of the placeholders moved up.  `renumbered` does this to a text, as a
database reads it: it leaves names and all other characters alone, and a text without
placeholders as it is (`renumbered_of_no_placeholders`).  So the text of a statement
contains those of its parts, moved up by what was bound before them.  The main
statement is `Node.written_anywhere`.
-/

namespace BoundSql

/-! ## Moving placeholders up -/

namespace Lexeme

/-- The number of a placeholder. -/
def placeholder? : List Char → Option Nat
  | '@' :: 'p' :: digits => Numeral.value? digits
  | _ => none

/-- The lexemes with `k` added to the number of every placeholder.  `skip` is how many
still belong to the placeholder before. -/
def moveUp (k : Nat) : (skip : Nat) → List Lexeme → List Lexeme
  | _, [] => []
  | skip + 1, _ :: rest => moveUp k skip rest
  | 0, quoted n :: rest => quoted n :: moveUp k 0 rest
  | 0, outside c :: rest =>
    match placeholder? (c :: word rest) with
    | some i => (Parameters.name (k + i)).toList.map outside ++ moveUp k (word rest).length rest
    | none => outside c :: moveUp k 0 rest

/-- The text with `k` added to the number of every placeholder outside quotes, if every
name in it is closed. -/
def renumbered (k : Nat) (sql : String) : Option String :=
  (scan sql).map fun ls => String.ofList ((moveUp k 0 ls).flatMap text)

/-- What has a number is a placeholder. -/
theorem isPlaceholder_of_placeholder? {cs : List Char} {i : Nat} (h : placeholder? cs = some i) :
    isPlaceholder cs = true := by
  unfold placeholder? at h
  split at h
  · rename_i digits
    unfold Numeral.value? at h
    split at h
    · rename_i hdigits
      simpa [isPlaceholder] using hdigits
    · cases h
  · cases h

theorem moveUp_append_outside (k : Nat) (cs : List Char) (ls : List Lexeme) :
    moveUp k cs.length (cs.map outside ++ ls) = moveUp k 0 ls := by
  induction cs with
  | nil => rfl
  | cons c cs ih => exact ih

theorem moveUp_outside {c : Char} {ls : List Lexeme} (h : isPlaceholder (c :: word ls) = false)
    (k : Nat) : moveUp k 0 (outside c :: ls) = outside c :: moveUp k 0 ls := by
  rw [moveUp]
  split
  · rename_i i hi
    rw [isPlaceholder_of_placeholder? hi] at h
    cases h
  · rfl

/-- Only an at sign begins a placeholder. -/
theorem isPlaceholder_of_ne {c : Char} (h : c ≠ '@') (cs : List Char) :
    isPlaceholder (c :: cs) = false := by
  unfold isPlaceholder
  split
  · rename_i heq
    exact absurd (List.cons.inj heq).1 h
  · rfl

/-- A text without placeholders stays as it is. -/
theorem renumbered_of_no_placeholders {sql : String} {ls : List Lexeme} (hscan : scan sql = some ls)
    (hnone : placeholders ls = []) (k : Nat) : renumbered k sql = some sql := by
  have hsame : moveUp k 0 ls = ls := by
    have hvariables : (variableNames ls).filter isPlaceholder = [] := by
      simpa [placeholders] using hnone
    clear hscan hnone
    induction ls with
    | nil => rfl
    | cons l rest ih =>
      cases l with
      | quoted n => exact congrArg (quoted n :: ·) (ih hvariables)
      | outside c =>
        by_cases hat : c = '@'
        · subst hat
          rw [variableNames, if_pos rfl, List.filter_eq_nil_iff] at hvariables
          obtain ⟨hfirst, hrest⟩ := List.forall_mem_cons.mp hvariables
          rw [moveUp_outside (Bool.eq_false_iff.mpr hfirst), ih (List.filter_eq_nil_iff.mpr hrest)]
        · rw [variableNames_outside hat] at hvariables
          rw [moveUp_outside (isPlaceholder_of_ne hat _), ih hvariables]
  rw [renumbered, hscan, Option.map_some, hsame, flatMap_text_of_scan hscan]

end Lexeme

namespace Symbol

open Lexeme

/-- The lexemes of symbols that begin with the `i`-th placeholder, moved up. -/
theorem moveUp_lexemes {symbols : List Symbol} {start : Edge} (h : Tidy start symbols)
    (k i : Nat) : moveUp k 0 (lexemes i symbols) = lexemes (k + i) symbols := by
  induction symbols generalizing start i with
  | nil => rfl
  | cons s rest ih =>
    obtain ⟨next, hs, hrest⟩ := tidy_cons.mp h
    cases s with
    | char c =>
      -- A text has at signs, as in `@@IDENTITY`, but none that begins a placeholder.
      have hnot : isPlaceholder (c :: word (lexemes i rest)) = false := by
        by_cases hat : c = '@'
        · subst hat
          have hsign : next = .sign := by simp [follow] at hs; exact hs.2.symm
          subst hsign
          exact isPlaceholder_of_tidy_sign hrest i
        · exact isPlaceholder_of_ne hat _
      rw [lexemes, moveUp_outside hnot, ih hrest]
      rfl
    | name n => exact congrArg (quoted n :: ·) (ih hrest i)
    | value v =>
      have hvalue : next = .value := by simp [follow] at hs; exact hs.2.symm
      subst hvalue
      have hnumber : placeholder? ('@' :: 'p' :: Numeral.ofNat i) = some i :=
        Numeral.value?_ofNat i
      rw [lexemes, Parameters.toList_name, List.map_cons, List.cons_append, moveUp,
        word_placeholder hrest, hnumber]
      show (Parameters.name (k + i)).toList.map outside ++ _ = _
      rw [moveUp_append_outside, ih hrest]
      rfl

/-- A written text is renumbered as if more values had been bound before it. -/
theorem renumbered_spell {symbols : List Symbol} {start : Edge} (h : Tidy start symbols)
    (k i : Nat) :
    renumbered k (String.ofList (spell i symbols)) =
      some (String.ofList (spell (k + i) symbols)) := by
  rw [renumbered, scan, String.toList_ofList, scanFrom_spell h, Option.map_some,
    moveUp_lexemes h, spell_eq_flatMap]

/-- What follows is numbered on from the values before it. -/
theorem spell_append (k : Nat) (a b : List Symbol) :
    spell k (a ++ b) = spell k a ++ spell (k + (values a).length) b := by
  induction a generalizing k with
  | nil => rfl
  | cons s rest ih =>
    cases s with
    | char c => exact congrArg (c :: ·) (ih k)
    | name n =>
      rw [List.cons_append, spell, ih, spell, List.append_assoc]
      rfl
    | value v =>
      have hlength : (values (value v :: rest)).length = (values rest).length + 1 := rfl
      rw [List.cons_append, spell, ih, spell, List.append_assoc, hlength]
      congr 3
      omega

end Symbol

/-! ## Fragments after others -/

namespace Fragment

open BoundSql.Symbol

/-- What follows a fragment without a fault is bound after it. -/
theorem bound_append {f : Fragment} (hf : f.fault? = none) (g : Fragment) :
    bound (f ++ g) = f.bound ++ g.bound := by
  induction f with
  | nil => rfl
  | cons piece rest ih =>
    cases piece with
    | text s => exact ih hf
    | name n => exact ih hf
    | bind v => exact congrArg (v :: ·) (ih hf)
    | fault x => cases hf

/-- The text so far stays as it is. -/
theorem exists_added (f : Fragment) (out : Output) :
    ∃ added, (write out f).1.sql = out.sql ++ added := by
  induction f generalizing out with
  | nil => exact ⟨"", String.append_empty.symm⟩
  | cons piece rest ih =>
    cases piece with
    | text s =>
      obtain ⟨added, h⟩ := ih (out.addText s)
      exact ⟨s ++ added, h.trans String.append_assoc⟩
    | name n =>
      obtain ⟨added, h⟩ := ih (out.addName n)
      exact ⟨Identifier.quote n ++ added, h.trans String.append_assoc⟩
    | bind v =>
      obtain ⟨added, h⟩ := ih (out.bind v)
      exact ⟨(out.params.next v).1 ++ added, h.trans String.append_assoc⟩
    | fault f => exact ⟨"", String.append_empty.symm⟩

/-- The text of a fragment without a fault. -/
theorem sql_write {f : Fragment} (hf : f.fault? = none) (out : Output) :
    (write out f).1.sql = out.sql ++ String.ofList (spell out.params.size f.symbols) := by
  rw [← String.toList_inj, toList_write hf, String.toList_append, String.toList_ofList]

/-- Entries so far stay as they are, and new ones are numbered on from them. -/
theorem entries_write (f : Fragment) (out : Output) :
    (write out f).1.params.entries =
      out.params.entries ++
        (f.bound.zipIdx out.params.size).map fun (v, i) => (Parameters.name i, v) := by
  rw [Parameters.entries, values_write, List.zipIdx_append, List.map_append, Nat.zero_add,
    Array.length_toList]
  rfl

end Fragment

namespace Node

open Fragment BoundSql.Symbol

/-- What comes of writing a node on its own, and the fault that stops it. -/
def alone (n : Node) : Output × Option Fault :=
  write ⟨"", .empty⟩ n.fragment

theorem tidy_fragment (n : Node) : Tidy .clear n.fragment.symbols := by
  cases n with
  | expr e => exact e.tidy_fragment
  | source s => exact s.tidy_fragment
  | select rows => exact rows.tidy_fragment
  | statement s => exact s.tidy_fragment

theorem values_alone (n : Node) : n.alone.1.params.values.toList = n.fragment.bound :=
  values_write n.fragment ⟨"", .empty⟩

theorem sql_alone {n : Node} (h : n.fragment.fault? = none) :
    n.alone.1.sql = String.ofList (spell 0 n.fragment.symbols) := by
  rw [alone, sql_write h, String.empty_append]
  rfl

theorem renumbered_sql_alone {n : Node} (h : n.fragment.fault? = none) (k : Nat) :
    Lexeme.renumbered k n.alone.1.sql = some (String.ofList (spell k n.fragment.symbols)) := by
  rw [sql_alone h]
  exact renumbered_spell n.tidy_fragment k 0

/-- A part of a node that is written stands in the text and among the values of the
node as it is written on its own, with the numbers moved up by the values before. -/
theorem Reaches.stands_in {n m : Node} (h : n.Reaches m) (hn : n.fragment.fault? = none)
    (k : Nat) :
    m.fragment.fault? = none ∧ ∃ before part after earlier later,
      String.ofList (spell k n.fragment.symbols) = before ++ part ++ after ∧
      n.fragment.bound = earlier ++ m.fragment.bound ++ later ∧
      Lexeme.renumbered (k + earlier.length) m.alone.1.sql = some part := by
  obtain ⟨before, after, hsplit⟩ := h.exists_append
  have hall := hn
  rw [hsplit, fault?_append, fault?_append, Option.or_eq_none_iff, Option.or_eq_none_iff] at hall
  obtain ⟨⟨hbefore, hm⟩, hafter⟩ := hall
  have hfirst : Fragment.fault? (before ++ m.fragment) = none := by
    rw [fault?_append, hbefore, hm]
    rfl
  have hbound : n.fragment.bound = before.bound ++ m.fragment.bound ++ after.bound := by
    rw [hsplit, bound_append hfirst, bound_append hbefore]
  have htext : String.ofList (spell k n.fragment.symbols) =
      String.ofList (spell k before.symbols) ++
        String.ofList (spell (k + before.bound.length) m.fragment.symbols) ++
        String.ofList (spell (k + (before ++ m.fragment).bound.length) after.symbols) := by
    rw [hsplit, symbols_append, spell_append, Fragment.values_symbols hfirst, symbols_append,
      spell_append, Fragment.values_symbols hbefore, String.ofList_append, String.ofList_append]
  exact ⟨hm, _, _, _, before.bound, after.bound, htext, hbound, renumbered_sql_alone hm _⟩

/-- Written after any text and any bound values, a node stops where it stops on its own.
The text and the entries before stay as they are; the values added are those that it
binds on its own, numbered on; and unless it stops, the text added is its own, with the
numbers moved up.  In the same way every part of it stands in the text added. -/
theorem written_anywhere (n : Node) (out : Output) :
    (write out n.fragment).2 = n.alone.2 ∧
    (write out n.fragment).1.params.entries =
      out.params.entries ++ (n.alone.1.params.values.toList.zipIdx out.params.size).map
        (fun (v, i) => (Parameters.name i, v)) ∧
    ∃ added, (write out n.fragment).1.sql = out.sql ++ added ∧
      (n.alone.2 = none →
        Lexeme.renumbered out.params.size n.alone.1.sql = some added ∧
        ∀ m, n.Reaches m → m.alone.2 = none ∧ ∃ before part after earlier later,
          added = before ++ part ++ after ∧
          n.alone.1.params.values.toList =
            earlier ++ m.alone.1.params.values.toList ++ later ∧
          Lexeme.renumbered (out.params.size + earlier.length) m.alone.1.sql = some part) := by
  have hstop : n.alone.2 = n.fragment.fault? := write_snd n.fragment _
  refine ⟨(write_snd n.fragment out).trans hstop.symm, ?_, ?_⟩
  · rw [entries_write, values_alone]
  · cases hf : n.fragment.fault? with
    | some fault =>
      obtain ⟨added, hadded⟩ := exists_added n.fragment out
      refine ⟨added, hadded, fun hnone => ?_⟩
      rw [hstop, hf] at hnone
      cases hnone
    | none =>
      -- The parts are looked for in the text that is added, where the numbers are moved up.
      refine ⟨_, sql_write hf out, fun _ => ⟨renumbered_sql_alone hf _, fun m hm => ?_⟩⟩
      obtain ⟨hmf, before, part, after, earlier, later, htext, hvalues, hpart⟩ :=
        hm.stands_in hf out.params.size
      refine ⟨(write_snd m.fragment _).trans hmf, before, part, after, earlier, later, htext, ?_,
        hpart⟩
      rw [values_alone, values_alone, hvalues]

/-- A search for two numbers in a column whose name looks like a placeholder. -/
def lookalikeMember : Node :=
  .expr (.member (.column ((⟨"t", none, none⟩ : Table).column "@p1"))
    [.literal (.int 7), .literal (.int 8)])

/-- After nine values the second number gets longer, and the name stays as it is. -/
theorem written_anywhere_ninth :
    lookalikeMember.alone.1.sql = "(\"t\".\"@p1\" in (@p0, @p1))" ∧
      (write ⟨"where ", ⟨Array.replicate 9 .null⟩⟩ lookalikeMember.fragment).1.sql =
        "where (\"t\".\"@p1\" in (@p9, @p10))" := by
  have halone : lookalikeMember.alone.1.sql = "(\"t\".\"@p1\" in (@p0, @p1))" := by decide
  have hmoved : Lexeme.renumbered 9 "(\"t\".\"@p1\" in (@p0, @p1))" =
      some "(\"t\".\"@p1\" in (@p9, @p10))" := by decide
  obtain ⟨-, -, added, hsql, hadded⟩ :=
    written_anywhere lookalikeMember ⟨"where ", ⟨Array.replicate 9 .null⟩⟩
  have hown := (hadded rfl).1
  rw [halone] at hown
  have hend := Option.some.inj (hown.symm.trans hmoved)
  exact ⟨halone, by rw [hsql, hend]; decide⟩

end Node
end BoundSql
