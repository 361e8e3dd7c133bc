import BoundSql.Proofs.Build
import BoundSql.Proofs.Renaming

/-
No name and no value gets out of its quotes.

Two statements have the same shape if they differ in their names and literals
only.  What is compared is what they are built into: both are written or both
fail in the same way, and a reader of the two texts sees the same characters
outside quotes.  The shape is a renaming, so that the lexemes of a statement
with the names hidden are the lexemes of its shape.
-/

namespace BoundSql

/-- Of a table, no more than whether it has an alias. -/
def Table.shape (t : Table) : Table :=
  ⟨"", t.aliasName.map fun _ => "", none⟩

/-- Every name becomes the empty one, and every value null. -/
def Renaming.hide : Renaming :=
  ⟨Table.shape, Table.shape, fun _ => "", fun _ => .null⟩

theorem Renaming.hide_uniform : Renaming.hide.Uniform where
  name_table _ := rfl
  aliasName_table _ := rfl
  qualifier_qualifier t := by
    cases h : t.aliasName <;> simp [Renaming.hide, Table.shape, Table.qualifier, h]

namespace Statement

def shape (s : Statement) : Statement :=
  s.rename .hide

/-- The statements differ in their names and values only. -/
def SameShape (s t : Statement) : Prop :=
  s.shape = t.shape

end Statement

/-! ## Hidden lexemes -/

namespace Symbol

def rename (r : Renaming) : Symbol → Symbol
  | char c => char c
  | name n => name (r.name n)
  | value v => value (r.value v)

/-- No lexeme shows which value a placeholder stands for. -/
theorem lexemes_map_hide (k : Nat) (symbols : List Symbol) :
    lexemes k (symbols.map (rename .hide)) = (lexemes k symbols).map Lexeme.hideName := by
  have houtside (cs : List Char) :
      (cs.map Lexeme.outside).map Lexeme.hideName = cs.map Lexeme.outside := by
    rw [List.map_map]
    rfl
  induction symbols generalizing k with
  | nil => rfl
  | cons s rest ih =>
    cases s with
    | char c => exact congrArg (.outside c :: ·) (ih k)
    | name n => exact congrArg (.quoted "" :: ·) (ih k)
    | value v =>
      rw [List.map_cons, rename, lexemes, lexemes, List.map_append, houtside, ih]

end Symbol

theorem Piece.symbols_rename (r : Renaming) (p : Piece) :
    (p.rename r).symbols = p.symbols.map (Symbol.rename r) := by
  cases p with
  | text s =>
    rw [Piece.rename, Piece.symbols, Symbol.ofText, List.map_map]
    rfl
  | _ => rfl

theorem Fragment.symbols_rename (r : Renaming) (f : Fragment) :
    (f.rename r).symbols = f.symbols.map (Symbol.rename r) := by
  rw [Fragment.rename, Fragment.symbols, Fragment.symbols, List.flatMap_map, List.map_flatMap]
  simp only [Piece.symbols_rename]

/-- The quoted lexemes are the names, as they stand. -/
theorem Fragment.names_lexemes (f : Fragment) (k : Nat) :
    (Symbol.lexemes k f.symbols).filterMap Lexeme.name? = f.leaves.filterMap Leaf.name? := by
  have houtside (cs : List Char) : (cs.map Lexeme.outside).filterMap Lexeme.name? = [] := by
    simp [List.filterMap_map, Function.comp_def, Lexeme.name?]
  induction f generalizing k with
  | nil => rfl
  | cons piece rest ih =>
    cases piece with
    | text s =>
      rw [symbols_text, leaves_text, ← ih k, Symbol.ofText]
      induction s.toList with
      | nil => rfl
      | cons c cs ihc => exact ihc
    | name n => exact congrArg (n :: ·) (ih k)
    | bind v =>
      rw [symbols_bind, Symbol.lexemes, List.filterMap_append, houtside]
      exact ih (k + 1)
    | fault f => exact ih k

/-- Lexemes are told by what is outside the quotes and by the names. -/
theorem Lexeme.eq_of_hideName_of_name? {ls ms : List Lexeme}
    (hhide : ls.map hideName = ms.map hideName)
    (hname : ls.filterMap name? = ms.filterMap name?) : ls = ms := by
  induction ls generalizing ms with
  | nil => exact (List.map_eq_nil_iff.mp hhide.symm).symm
  | cons l ls ih =>
    cases ms with
    | nil => simp at hhide
    | cons m ms =>
      obtain ⟨hl, hrest⟩ := List.cons.inj hhide
      cases l with
      | outside c =>
        cases m with
        | outside d =>
          cases hl
          rw [ih hrest hname]
        | quoted n => cases hl
      | quoted n =>
        cases m with
        | outside d => cases hl
        | quoted o =>
          obtain ⟨rfl, hnames⟩ := List.cons.inj hname
          rw [ih hrest hnames]

theorem Symbol.spell_eq_flatMap (k : Nat) (symbols : List Symbol) :
    spell k symbols = (lexemes k symbols).flatMap Lexeme.text := by
  have houtside (cs : List Char) : (cs.map Lexeme.outside).flatMap Lexeme.text = cs := by
    rw [List.flatMap_map]
    exact List.flatMap_singleton' cs
  induction symbols generalizing k with
  | nil => rfl
  | cons s rest ih =>
    cases s with
    | char c => exact congrArg (c :: ·) (ih k)
    | name n => exact congrArg (Identifier.quotedText n.toList ++ ·) (ih k)
    | value v => rw [spell, lexemes, List.flatMap_append, houtside, ih]

namespace Statement

open BoundSql.Symbol

theorem names_lexemes {s : Statement} (h : s.fragment.fault? = none) (k : Nat) :
    (lexemes k s.symbols).filterMap Lexeme.name? = s.names := by
  rw [symbols, Fragment.names_lexemes, leaves_fragment h]
  rfl

/-! ## Statements of one shape -/

variable {s t : Statement}

theorem fragment_shape (s : Statement) : s.shape.fragment = s.fragment.rename .hide :=
  s.fragment_rename Renaming.hide_uniform

theorem SameShape.fault? (h : s.SameShape t) : s.fragment.fault? = t.fragment.fault? := by
  rw [← Fragment.fault?_rename .hide, ← fragment_shape, h, fragment_shape,
    Fragment.fault?_rename]

theorem SameShape.hideName_lexemes (h : s.SameShape t) (k : Nat) :
    (lexemes k s.symbols).map Lexeme.hideName = (lexemes k t.symbols).map Lexeme.hideName := by
  have hsymbols : s.symbols.map (Symbol.rename .hide) = t.symbols.map (Symbol.rename .hide) := by
    rw [symbols, symbols, ← Fragment.symbols_rename, ← Fragment.symbols_rename, ← fragment_shape,
      ← fragment_shape, h]
  rw [← lexemes_map_hide, ← lexemes_map_hide, hsymbols]

/-- Statements of one shape fail in the same way or are both built.  Then their
texts are the same outside the quotes, inside them are their own names, and no
value has any part in the text. -/
theorem build_of_sameShape (h : s.SameShape t) :
    (∃ e, s.build = .error e ∧ t.build = .error e) ∨
      ∃ b c, s.build = .ok b ∧ t.build = .ok c ∧
        (∃ ls ms, Lexeme.scan b.sql = some ls ∧ Lexeme.scan c.sql = some ms ∧
          ls.map Lexeme.hideName = ms.map Lexeme.hideName ∧
          ls.filterMap Lexeme.name? = s.names ∧ ms.filterMap Lexeme.name? = t.names) ∧
        (s.names = t.names → b.sql = c.sql) := by
  cases hs : s.fragment.fault? with
  | some f =>
    have ht : t.fragment.fault? = some f := h.fault?.symm.trans hs
    exact .inl ⟨.unwritable f, build_of_fault hs, build_of_fault ht⟩
  | none =>
    have ht : t.fragment.fault? = none := h.fault?.symm.trans hs
    have hb := build_of_no_fault hs
    have hc := build_of_no_fault ht
    refine .inr ⟨_, _, hb, hc, ⟨_, _, scan_of_build hb, scan_of_build hc, h.hideName_lexemes 0,
      names_lexemes hs 0, names_lexemes ht 0⟩, fun hnames => ?_⟩
    have hlexemes : lexemes 0 s.symbols = lexemes 0 t.symbols := by
      refine Lexeme.eq_of_hideName_of_name? (h.hideName_lexemes 0) ?_
      rw [names_lexemes hs, names_lexemes ht, hnames]
    rw [spell_eq_flatMap, spell_eq_flatMap, hlexemes]

/-- A search by text, for any names and any pattern. -/
def textSearch (table other column shown pattern : String) : Statement :=
  let t : Table := ⟨table, some other, none⟩
  .select (.ofClauses [.columns [.aliased (.column (t.column column)) shown], .source (.table t),
    .filters [.like (.column (t.column column)) pattern]])

/-- Names that try to close their quotes, or look like a placeholder, stay
inside. -/
theorem textSearch_hostile :
    ∃ b c, (textSearch "t" "a" "x" "y" "%").build = .ok b ∧
      (textSearch "t\" where 1 = 1; --" "@p0" "\"\"" "" "'; drop table t").build = .ok c ∧
      ∃ ls ms, Lexeme.scan b.sql = some ls ∧ Lexeme.scan c.sql = some ms ∧
        ls.map Lexeme.hideName = ms.map Lexeme.hideName ∧
        ms.filterMap Lexeme.name? =
          ["@p0", "\"\"", "", "t\" where 1 = 1; --", "@p0", "@p0", "\"\""] := by
  have hshape : (textSearch "t" "a" "x" "y" "%").SameShape
      (textSearch "t\" where 1 = 1; --" "@p0" "\"\"" "" "'; drop table t") := rfl
  rcases build_of_sameShape hshape with ⟨e, hs, -⟩ | ⟨b, c, hs, ht, hscan, -⟩
  · rw [build_of_no_fault rfl] at hs
    cases hs
  · obtain ⟨ls, ms, hl, hm, hhide, -, hnames⟩ := hscan
    exact ⟨b, c, hs, ht, ls, ms, hl, hm, hhide, hnames⟩

end Statement
end BoundSql
