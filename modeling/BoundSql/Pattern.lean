/-
Patterns of the `like` operator.

In a pattern `%`, `_` and `[` have a meaning of their own.  Each of them matches
only itself when it stands alone in a bracketed set.

A database reads a pattern from left to right.  A `%` stands for any text, a `_` for
any one character, and a `[` opens a set, which has at least one character and is
closed by the next `]`; it stands for one character of the set.  Every other
character stands for itself, and cases are told apart.
-/

namespace BoundSql
namespace Pattern

/-! ## Writing a pattern -/

def isWildcard (c : Char) : Bool :=
  c == '%' || c == '_' || c == '['

def escapedChar (c : Char) : List Char :=
  if isWildcard c then ['[', c, ']'] else [c]

/-- The pattern that matches exactly the given text. -/
def escaped (text : List Char) : List Char :=
  text.flatMap escapedChar

def escape (text : String) : String :=
  String.ofList (escaped text.toList)

/-- Matches what has `text` in it. -/
def containing (text : String) : String :=
  String.ofList ('%' :: escaped text.toList ++ ['%'])

/-- Matches what begins with `text`. -/
def startingWith (text : String) : String :=
  String.ofList (escaped text.toList ++ ['%'])

/-- Matches what ends with `text`. -/
def endingWith (text : String) : String :=
  String.ofList ('%' :: escaped text.toList)

/-! ## Reading a pattern -/

/-- What one place of a pattern stands for. -/
inductive Item where
  /-- Any text, be it empty. -/
  | run
  /-- Any one character. -/
  | one
  /-- One character of the set that is written between the brackets. -/
  | set (body : List Char)
  | char (c : Char)

/-- A character outside of sets. -/
def Item.ofChar (c : Char) : Item :=
  if c = '%' then run else if c = '_' then one else char c

/-- The items of a pattern, of which the beginning of a set may have been read.  A set that
is never closed makes a pattern that matches nothing. -/
def items? : Option (List Char) → List Char → Option (List Item)
  | none, [] => some []
  | none, c :: rest =>
    if c = '[' then items? (some []) rest else (items? none rest).map (Item.ofChar c :: ·)
  | some _, [] => none
  | some body, c :: rest =>
    if c = ']' ∧ body ≠ [] then (items? none rest).map (Item.set body :: ·)
    else items? (some (body ++ [c])) rest

/-- Whether a character is one of those listed, where a hyphen between two characters lists
all from the one to the other. -/
def isListed (c : Char) : List Char → Bool
  | low :: '-' :: high :: rest => (low ≤ c && c ≤ high) || isListed c rest
  | d :: rest => c == d || isListed c rest
  | [] => false

/-- A caret at its beginning makes a set of what is not listed. -/
def inSet (c : Char) : List Char → Bool
  | '^' :: d :: rest => !isListed c (d :: rest)
  | body => isListed c body

/-- Whether an item that stands for one character stands for this one. -/
def Item.admits (c : Char) : Item → Bool
  | run => false
  | one => true
  | set body => inSet c body
  | char d => c == d

end Pattern
end BoundSql
