import BoundSql.Db.Basic
import Mathlib.Data.String.Basic
import Mathlib.Order.Bounds.Basic

/-
How much of a statement the log shows.

A statement that is too long is cut between two of its characters.  The cut comes at the
last such place within the limit, which is where one arrives by stepping back from the
limit byte by byte.  Since a character has at most four bytes, at most three of those that
are allowed are left out.  The main statement is `Config.displaySql_cut_between_characters`.
-/

namespace BoundSql
namespace Config

open String (utf8Len)

/-! ## Characters that are kept -/

theorem cut_cons_of_le {bytes : Nat} {c : Char} (h : c.utf8Size ≤ bytes) (rest : List Char) :
    cut bytes (c :: rest) = c :: cut (bytes - c.utf8Size) rest := by
  rw [cut, if_pos h]

theorem cut_cons_of_lt {bytes : Nat} {c : Char} (h : bytes < c.utf8Size) (rest : List Char) :
    cut bytes (c :: rest) = [] := by
  rw [cut, if_neg (by omega)]

theorem cut_isPrefix (bytes : Nat) (cs : List Char) : cut bytes cs <+: cs := by
  induction cs generalizing bytes with
  | nil => exact List.nil_prefix
  | cons c rest ih =>
    by_cases h : c.utf8Size ≤ bytes
    · rw [cut_cons_of_le h]
      exact List.cons_prefix_cons.mpr ⟨rfl, ih _⟩
    · rw [cut_cons_of_lt (by omega)]
      exact List.nil_prefix

theorem utf8Len_cut_le (bytes : Nat) (cs : List Char) : utf8Len (cut bytes cs) ≤ bytes := by
  induction cs generalizing bytes with
  | nil => exact Nat.zero_le bytes
  | cons c rest ih =>
    by_cases h : c.utf8Size ≤ bytes
    · have hrest := ih (bytes - c.utf8Size)
      rw [cut_cons_of_le h, String.utf8Len_cons]
      omega
    · rw [cut_cons_of_lt (by omega)]
      exact Nat.zero_le bytes

/-- No longer beginning of the text fits. -/
theorem utf8Len_le_utf8Len_cut {bytes : Nat} {cs shown : List Char} (hshown : shown <+: cs)
    (hfits : utf8Len shown ≤ bytes) : utf8Len shown ≤ utf8Len (cut bytes cs) := by
  induction cs generalizing bytes shown with
  | nil =>
    rw [List.prefix_nil.mp hshown]
    exact Nat.zero_le _
  | cons c rest ih =>
    cases shown with
    | nil => exact Nat.zero_le _
    | cons d shown =>
      obtain ⟨rfl, hrest⟩ := List.cons_prefix_cons.mp hshown
      rw [String.utf8Len_cons] at hfits
      have hle : utf8Len shown ≤ utf8Len (cut (bytes - d.utf8Size) rest) := ih hrest (by omega)
      rw [cut_cons_of_le (by omega), String.utf8Len_cons, String.utf8Len_cons]
      omega

/-- The character at which a text is cut does not fit. -/
theorem lt_utf8Len_cut_add {bytes : Nat} {cs : List Char} (h : bytes < utf8Len cs) :
    bytes < utf8Len (cut bytes cs) + 4 := by
  induction cs generalizing bytes with
  | nil => exact absurd h (Nat.not_lt_zero bytes)
  | cons c rest ih =>
    have hsize := c.utf8Size_le_four
    rw [String.utf8Len_cons] at h
    by_cases hfits : c.utf8Size ≤ bytes
    · have hrest : bytes - c.utf8Size < utf8Len (cut (bytes - c.utf8Size) rest) + 4 :=
        ih (by omega)
      rw [cut_cons_of_le hfits, String.utf8Len_cons]
      omega
    · rw [cut_cons_of_lt (by omega)]
      omega

/-! ## Places between characters -/

/-- Go back from a place, byte by byte, until it is between two characters. -/
def stepBack (sql : String) : Nat → Nat
  | 0 => 0
  | k + 1 => if String.Pos.Raw.isValid sql ⟨k + 1⟩ then k + 1 else stepBack sql k

/-- The places between characters are where beginnings of the text end. -/
theorem isValid_iff_exists_beginning (sql : String) (k : Nat) :
    String.Pos.Raw.IsValid sql ⟨k⟩ ↔ ∃ shown, shown <+: sql.toList ∧ utf8Len shown = k := by
  rw [String.Pos.Raw.isValid_iff_exists_append]
  constructor
  · rintro ⟨first, rest, rfl, hk⟩
    refine ⟨first.toList, ⟨rest.toList, String.toList_append.symm⟩, ?_⟩
    rw [String.utf8Len_toList]
    exact (congrArg String.Pos.Raw.byteIdx hk).symm
  · rintro ⟨shown, ⟨rest, hsql⟩, rfl⟩
    refine ⟨String.ofList shown, String.ofList rest, ?_, ?_⟩
    · rw [← String.ofList_append, hsql, String.ofList_toList]
    · rw [String.Pos.Raw.ext_iff, String.byteIdx_rawEndPos, String.utf8ByteSize_ofList]

/-- The cut comes at the last place between characters within the limit. -/
theorem isGreatest_cut (sql : String) (limit : Nat) :
    IsGreatest {k | k ≤ limit ∧ String.Pos.Raw.IsValid sql ⟨k⟩}
      (utf8Len (cut limit sql.toList)) := by
  constructor
  · exact ⟨utf8Len_cut_le limit sql.toList, (isValid_iff_exists_beginning sql _).mpr
      ⟨cut limit sql.toList, cut_isPrefix limit sql.toList, rfl⟩⟩
  · rintro k ⟨hk, hvalid⟩
    obtain ⟨shown, hshown, rfl⟩ := (isValid_iff_exists_beginning sql k).mp hvalid
    exact utf8Len_le_utf8Len_cut hshown hk

theorem isGreatest_stepBack (sql : String) (limit : Nat) :
    IsGreatest {k | k ≤ limit ∧ String.Pos.Raw.IsValid sql ⟨k⟩} (stepBack sql limit) := by
  -- Every text has a place between characters at zero, so going back comes to an end.
  induction limit with
  | zero => exact ⟨⟨Nat.le_refl 0, String.Pos.Raw.isValid_zero⟩, fun k hk => hk.1⟩
  | succ limit ih =>
    rw [stepBack]
    split
    · rename_i hvalid
      exact ⟨⟨Nat.le_refl _, String.Pos.Raw.isValid_eq_true_iff.mp hvalid⟩, fun k hk => hk.1⟩
    · rename_i hinside
      refine ⟨⟨Nat.le_succ_of_le ih.1.1, ih.1.2⟩, fun k hk => ih.2 ⟨?_, hk.2⟩⟩
      have hne : k ≠ limit + 1 := by
        rintro rfl
        exact hinside (String.Pos.Raw.isValid_eq_true_iff.mpr hk.2)
      have := hk.1
      omega

/-! ## What is shown -/

theorem displaySql_of_le {config : Config} {sql : String}
    (h : ∀ limit, config.maxSqlLength = some limit → sql.utf8ByteSize ≤ limit) :
    config.displaySql sql = sql := by
  unfold displaySql
  cases hlimit : config.maxSqlLength with
  | none => rfl
  | some limit => exact if_pos (h limit hlimit)

theorem displaySql_of_lt {config : Config} {sql : String} {limit : Nat}
    (hlimit : config.maxSqlLength = some limit) (h : limit < sql.utf8ByteSize) :
    config.displaySql sql = String.ofList (cut limit sql.toList) ++ "..." := by
  rw [displaySql, hlimit]
  exact if_neg (by omega)

/-- A statement that is not longer than the limit is shown as it is.  Of a longer one a
beginning is shown, with three dots after it.  It ends between two characters, at the last
such place within the limit, which is found by stepping back from the limit, and less than
four bytes before it. -/
theorem displaySql_cut_between_characters (config : Config) (sql : String) :
    ((∀ limit, config.maxSqlLength = some limit → sql.utf8ByteSize ≤ limit) →
      config.displaySql sql = sql) ∧
    ∀ limit, config.maxSqlLength = some limit → limit < sql.utf8ByteSize →
      ∃ shown rest : String, sql = shown ++ rest ∧ config.displaySql sql = shown ++ "..." ∧
        IsGreatest {k | k ≤ limit ∧ String.Pos.Raw.IsValid sql ⟨k⟩} shown.utf8ByteSize ∧
        shown.utf8ByteSize = stepBack sql limit ∧ limit < shown.utf8ByteSize + 4 := by
  refine ⟨displaySql_of_le, fun limit hlimit hlong => ?_⟩
  obtain ⟨rest, hrest⟩ := cut_isPrefix limit sql.toList
  have hsize := String.utf8ByteSize_ofList (cut limit sql.toList)
  have hgreatest := isGreatest_cut sql limit
  refine ⟨String.ofList (cut limit sql.toList), String.ofList rest, ?_,
    displaySql_of_lt hlimit hlong, ?_, ?_, ?_⟩
  · rw [← String.ofList_append, hrest, String.ofList_toList]
  · rw [hsize]
    exact hgreatest
  · rw [hsize]
    exact hgreatest.unique (isGreatest_stepBack sql limit)
  · rw [hsize]
    exact lt_utf8Len_cut_add (by rwa [String.utf8Len_toList])

/-- A limit inside a character of four bytes, after characters of one, two and three. -/
theorem displaySql_inside_character :
    let config : Config := { maxSqlLength := some 8 }
    config.displaySql "aé€😀" = "aé€..." ∧
      ∃ shown rest : String, "aé€😀" = shown ++ rest ∧
        config.displaySql "aé€😀" = shown ++ "..." ∧
        IsGreatest {k | k ≤ 8 ∧ String.Pos.Raw.IsValid "aé€😀" ⟨k⟩} shown.utf8ByteSize ∧
        shown.utf8ByteSize = stepBack "aé€😀" 8 ∧ 8 < shown.utf8ByteSize + 4 := by
  intro config
  exact ⟨by decide, (displaySql_cut_between_characters config "aé€😀").2 8 rfl (by decide)⟩

end Config
end BoundSql
