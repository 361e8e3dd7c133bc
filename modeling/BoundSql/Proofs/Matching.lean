import BoundSql.Expr.Combinators
import BoundSql.Expr.Fragment
import Mathlib.Data.List.Infix

/-
What the patterns of the `like` operator match.

The items of a pattern match a text from its beginning to its end, where a run takes up any
part of it.  Escaping puts each character with a meaning of its own into a set, so an
escaped text is read as one item for each of its characters, which nothing else matches.
The main statement is `Expr.matches_literally`.
-/

namespace BoundSql
namespace Pattern

/-! ## Matching a text -/

/-- Whether items match a text from its beginning to its end. -/
def accepts : List Item → List Char → Bool
  | [], subject => subject.isEmpty
  | .run :: items, subject => subject.tails.any (accepts items)
  | _ :: _, [] => false
  | item :: items, c :: subject => item.admits c && accepts items subject

/-- Whether a pattern matches a text. -/
def matchesText (pattern subject : String) : Bool :=
  match items? none pattern.toList with
  | some items => accepts items subject.toList
  | none => false

/-! ## Escaped texts -/

/-- The item that matches only this character. -/
def literalItem (c : Char) : Item :=
  if isWildcard c then .set [c] else .char c

theorem accepts_literal_nil (c : Char) (items : List Item) :
    accepts (literalItem c :: items) [] = false := by
  unfold literalItem
  split <;> rfl

theorem accepts_literal_cons (c d : Char) (items : List Item) (subject : List Char) :
    accepts (literalItem c :: items) (d :: subject) = (d == c && accepts items subject) := by
  unfold literalItem
  split
  · show (inSet d [c] && accepts items subject) = _
    simp [inSet, isListed]
  · rfl

theorem items?_escapedChar (c : Char) (rest : List Char) :
    items? none (escapedChar c ++ rest) = (items? none rest).map (literalItem c :: ·) := by
  unfold escapedChar literalItem
  by_cases hwild : isWildcard c = true
  · rw [if_pos hwild, if_pos hwild]
    simp [items?]
  · rw [if_neg hwild, if_neg hwild]
    simp only [isWildcard, Bool.or_eq_true, beq_iff_eq, not_or] at hwild
    obtain ⟨⟨hrun, hone⟩, hset⟩ := hwild
    simp [items?, Item.ofChar, hrun, hone, hset]

/-- An escaped text is read as the items that match only its characters. -/
theorem items?_escaped (text rest : List Char) :
    items? none (escaped text ++ rest) = (items? none rest).map (text.map literalItem ++ ·) := by
  induction text with
  | nil => simp [escaped]
  | cons c text ih =>
    have hcons : escaped (c :: text) = escapedChar c ++ escaped text := List.flatMap_cons
    rw [hcons, List.append_assoc, items?_escapedChar, ih, Option.map_map]
    rfl

/-- They match a text that begins with theirs, of which other items match the rest. -/
theorem accepts_literal_append (text : List Char) (items : List Item) (subject : List Char) :
    accepts (text.map literalItem ++ items) subject = true ↔
      ∃ rest, subject = text ++ rest ∧ accepts items rest = true := by
  induction text generalizing subject with
  | nil => simp
  | cons c text ih =>
    rw [List.map_cons, List.cons_append]
    cases subject with
    | nil =>
      rw [accepts_literal_nil]
      simp
    | cons d subject =>
      rw [accepts_literal_cons, Bool.and_eq_true, ih, beq_iff_eq]
      constructor
      · rintro ⟨rfl, rest, rfl, hrest⟩
        exact ⟨rest, rfl, hrest⟩
      · rintro ⟨rest, hsubject, hrest⟩
        obtain ⟨hd, hs⟩ := List.cons.inj hsubject
        exact ⟨hd, rest, hs, hrest⟩

theorem accepts_run (items : List Item) (subject : List Char) :
    accepts (.run :: items) subject = true ↔
      ∃ before rest, subject = before ++ rest ∧ accepts items rest = true := by
  rw [accepts, List.any_eq_true]
  constructor
  · rintro ⟨rest, hmem, hrest⟩
    obtain ⟨before, rfl⟩ := (List.mem_tails rest subject).mp hmem
    exact ⟨before, rest, rfl, hrest⟩
  · rintro ⟨before, rest, rfl, hrest⟩
    exact ⟨rest, (List.mem_tails rest _).mpr (List.suffix_append before rest), hrest⟩

theorem accepts_nil (subject : List Char) : accepts [] subject = true ↔ subject = [] :=
  List.isEmpty_iff

theorem accepts_last_run (subject : List Char) : accepts [.run] subject = true :=
  (accepts_run [] subject).mpr ⟨subject, [], (List.append_nil subject).symm, rfl⟩

/-! ## Patterns made from texts -/

theorem matchesText_ofList {pattern : List Char} {items : List Item}
    (h : items? none pattern = some items) (subject : String) :
    matchesText (String.ofList pattern) subject = accepts items subject.toList := by
  rw [matchesText, String.toList_ofList, h]

theorem matchesText_containing (text subject : String) :
    matchesText (containing text) subject = true ↔ text.toList <:+: subject.toList := by
  have hitems : items? none ('%' :: (escaped text.toList ++ ['%'])) =
      some (.run :: (text.toList.map literalItem ++ [.run])) := by
    rw [items?, if_neg (by decide), items?_escaped]
    rfl
  rw [containing, List.cons_append, matchesText_ofList hitems, accepts_run]
  constructor
  · rintro ⟨before, rest, hsubject, hrest⟩
    obtain ⟨after, rfl, -⟩ := (accepts_literal_append _ _ _).mp hrest
    exact ⟨before, after, by rw [hsubject, List.append_assoc]⟩
  · rintro ⟨before, after, hsubject⟩
    exact ⟨before, text.toList ++ after, by rw [← hsubject, List.append_assoc],
      (accepts_literal_append _ _ _).mpr ⟨after, rfl, accepts_last_run after⟩⟩

theorem matchesText_startingWith (text subject : String) :
    matchesText (startingWith text) subject = true ↔ text.toList <+: subject.toList := by
  have hitems : items? none (escaped text.toList ++ ['%']) =
      some (text.toList.map literalItem ++ [.run]) := by
    rw [items?_escaped]
    rfl
  rw [startingWith, matchesText_ofList hitems, accepts_literal_append]
  constructor
  · rintro ⟨after, hsubject, -⟩
    exact ⟨after, hsubject.symm⟩
  · rintro ⟨after, hsubject⟩
    exact ⟨after, hsubject.symm, accepts_last_run after⟩

theorem matchesText_endingWith (text subject : String) :
    matchesText (endingWith text) subject = true ↔ text.toList <:+ subject.toList := by
  have hitems : items? none ('%' :: escaped text.toList) =
      some (.run :: (text.toList.map literalItem ++ [])) := by
    rw [items?, if_neg (by decide), ← List.append_nil (escaped text.toList), items?_escaped]
    rfl
  rw [endingWith, matchesText_ofList hitems, accepts_run]
  constructor
  · rintro ⟨before, rest, hsubject, hrest⟩
    obtain ⟨after, rfl, hafter⟩ := (accepts_literal_append _ _ _).mp hrest
    rw [(accepts_nil after).mp hafter, List.append_nil] at hsubject
    exact ⟨before, hsubject.symm⟩
  · rintro ⟨before, hsubject⟩
    exact ⟨before, text.toList, hsubject.symm,
      (accepts_literal_append _ _ _).mpr ⟨[], (List.append_nil _).symm, rfl⟩⟩

end Pattern

theorem Expr.fragment_like (e : Expr) (pattern : String) :
    (e.like pattern).fragment =
      .text "(" :: e.fragment ++ [.text " like ", .bind (.text pattern), .text ")"] := by
  rw [Expr.like, Expr.fragment, Expr.fragment, List.append_assoc]
  rfl

/-- A search for a text is a comparison with a bound pattern, and whatever characters the
text has, the pattern matches the texts in which it occurs, with which they begin or with
which they end. -/
theorem Expr.matches_literally (e : Expr) (text : String) :
    ∃ containing starting ending : String,
      (e.contains text).fragment =
        .text "(" :: e.fragment ++ [.text " like ", .bind (.text containing), .text ")"] ∧
      (e.startsWith text).fragment =
        .text "(" :: e.fragment ++ [.text " like ", .bind (.text starting), .text ")"] ∧
      (e.endsWith text).fragment =
        .text "(" :: e.fragment ++ [.text " like ", .bind (.text ending), .text ")"] ∧
      ∀ subject : String,
        (Pattern.matchesText containing subject ↔ text.toList <:+: subject.toList) ∧
        (Pattern.matchesText starting subject ↔ text.toList <+: subject.toList) ∧
        (Pattern.matchesText ending subject ↔ text.toList <:+ subject.toList) := by
  exact ⟨Pattern.containing text, Pattern.startingWith text, Pattern.endingWith text,
    e.fragment_like _, e.fragment_like _, e.fragment_like _, fun subject =>
      ⟨Pattern.matchesText_containing text subject, Pattern.matchesText_startingWith text subject,
        Pattern.matchesText_endingWith text subject⟩⟩

example : Pattern.matchesText (Pattern.startingWith "[^a]_") "[^a]_b" = true := by decide

example : Pattern.matchesText (Pattern.startingWith "[^a]_") "bcd" = false := by decide

end BoundSql
