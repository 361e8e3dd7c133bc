import BoundSql.Row.Decode
import Mathlib.Data.List.Forall2
import Mathlib.Data.List.Nodup

/-
Fields found by their names.

Two names agree if they have the same characters up to the case of ASCII letters.  Of the
fields whose names agree with the one asked for, the first of exactly that name is taken,
or else the first.  So the order of the fields and the case of letters matter only if
names of two fields agree.  If none do, a row is told by its folded fields, in which all
letters are in lower case, and what is found is a matter of membership among them.  The
main statement is `Row.field_by_name`.
-/

namespace BoundSql

/-! ## Names up to case -/

/-- An upper-case ASCII letter, and the same letter in lower case. -/
def IsCasePair (upper lower : Char) : Prop :=
  ('A' ≤ upper ∧ upper ≤ 'Z') ∧ lower.toNat = upper.toNat + 32

/-- The same character, or the two cases of one ASCII letter. -/
def SameLetter (c d : Char) : Prop :=
  c = d ∨ IsCasePair c d ∨ IsCasePair d c

/-- The names have the same characters in order, up to the case of ASCII letters. -/
def SameLetters (a b : String) : Prop :=
  List.Forall₂ SameLetter a.toList b.toList

theorem isCasePair_iff (c d : Char) :
    IsCasePair c d ↔ (65 ≤ c.toNat ∧ c.toNat ≤ 90) ∧ d.toNat = c.toNat + 32 :=
  Iff.rfl

theorem toNat_toLower (c : Char) :
    c.toLower.toNat = if 65 ≤ c.toNat ∧ c.toNat ≤ 90 then c.toNat + 32 else c.toNat := by
  split
  · rename_i h
    have hlower : c.toLower.toNat = (c.toNat + 32) % 2 ^ 32 :=
      congrArg Char.toNat (dif_pos (show c.val ≥ 'A'.val ∧ c.val ≤ 'Z'.val from h))
    omega
  · rename_i h
    exact congrArg Char.toNat (dif_neg (show ¬ (c.val ≥ 'A'.val ∧ c.val ≤ 'Z'.val) from h))

/-- The letters in lower case come after all those in upper case. -/
theorem toLower_eq_iff (c d : Char) : c.toLower = d.toLower ↔ SameLetter c d := by
  rw [SameLetter, isCasePair_iff, isCasePair_iff, ← Char.toNat_inj, ← Char.toNat_inj,
    toNat_toLower, toNat_toLower]
  split <;> split <;> omega

/-- The name with all ASCII letters in lower case. -/
def folded (name : String) : List Char :=
  name.toList.map Char.toLower

theorem folded_eq_iff (a b : String) : folded a = folded b ↔ SameLetters a b := by
  rw [folded, folded, ← List.forall₂_eq_eq_eq, List.forall₂_map_left_iff,
    List.forall₂_map_right_iff]
  simp only [toLower_eq_iff, SameLetters]

theorem sameName_iff (a b : String) : Row.sameName a b = true ↔ SameLetters a b := by
  rw [← folded_eq_iff]
  exact beq_iff_eq

instance (a b : String) : Decidable (SameLetters a b) :=
  decidable_of_iff _ (sameName_iff a b)

namespace Row

/-! ## What is looked up -/

/-- The value of the first field whose name has the property. -/
def First (r : Row) (p : String → Prop) (v : Value) : Prop :=
  ∃ before name after, r.fields = before ++ (name, v) :: after ∧ p name ∧
    ∀ field ∈ before, ¬ p field.1

theorem map_find?_eq_some_iff {p : String → Prop} {q : String → Bool}
    (h : ∀ name, q name = true ↔ p name) (r : Row) (v : Value) :
    (r.fields.find? fun field => q field.1).map Prod.snd = some v ↔ r.First p v := by
  rw [Option.map_eq_some_iff]
  simp only [List.find?_eq_some_iff_append, First, Bool.not_eq_true', ← Bool.not_eq_true, h]
  constructor
  · rintro ⟨⟨name, v⟩, ⟨hname, before, after, hfields, hbefore⟩, rfl⟩
    exact ⟨before, name, after, hfields, hname, hbefore⟩
  · rintro ⟨before, name, after, hfields, hname, hbefore⟩
    exact ⟨(name, v), ⟨hname, before, after, hfields, hbefore⟩, rfl⟩

variable {r : Row} {name : String} {v : Value}

theorem First.mem {p : String → Prop} (h : r.First p v) : ∃ n, (n, v) ∈ r.fields ∧ p n := by
  obtain ⟨before, n, after, hfields, hn, -⟩ := h
  exact ⟨n, hfields ▸ List.mem_append_right before List.mem_cons_self, hn⟩

/-- A field of exactly the name comes before all others whose names agree with it. -/
theorem get?_eq_some_iff (r : Row) (name : String) (v : Value) :
    r.get? name = some v ↔ r.First (· = name) v ∨
      (∀ field ∈ r.fields, field.1 ≠ name) ∧ r.First (SameLetters · name) v := by
  have hexact := map_find?_eq_some_iff (q := (· == name)) (fun _ => beq_iff_eq) r v
  have hfolded := map_find?_eq_some_iff (fun n => sameName_iff n name) r v
  rw [get?, Option.map_or, Option.or_eq_some_iff, hexact, hfolded, Option.map_eq_none_iff,
    List.find?_eq_none]
  simp only [beq_iff_eq, ne_eq]

theorem isSome_get?_iff (r : Row) (name : String) :
    (r.get? name).isSome ↔ ∃ field ∈ r.fields, SameLetters field.1 name := by
  rw [get?, Option.isSome_map, Option.isSome_or, Bool.or_eq_true, List.find?_isSome,
    List.find?_isSome]
  simp only [beq_iff_eq, sameName_iff]
  refine or_iff_right_of_imp fun ⟨field, hmem, hname⟩ => ⟨field, hmem, ?_⟩
  exact (folded_eq_iff _ _).mp (congrArg folded hname)

/-! ## Rows without names that agree -/

/-- No two fields have names that agree. -/
def Apart (r : Row) : Prop :=
  r.fields.Pairwise fun f g => ¬ SameLetters f.1 g.1

/-- The same values in another order, under names with letters in another case. -/
def Rearranged (r s : Row) : Prop :=
  ∃ fields, r.fields.Perm fields ∧
    List.Forall₂ (fun f g => SameLetters f.1 g.1 ∧ f.2 = g.2) fields s.fields

/-- A field with its name in lower case. -/
def foldedField (field : String × Value) : List Char × Value :=
  (folded field.1, field.2)

def foldedFields (r : Row) : List (List Char × Value) :=
  r.fields.map foldedField

theorem apart_iff (r : Row) : r.Apart ↔ (r.foldedFields.map Prod.fst).Nodup := by
  rw [Apart, foldedFields, List.map_map, List.Nodup, List.pairwise_map]
  simp only [← folded_eq_iff]
  rfl

theorem Rearranged.perm {r s : Row} (h : r.Rearranged s) :
    r.foldedFields.Perm s.foldedFields := by
  obtain ⟨fields, hperm, hcase⟩ := h
  have heq : fields.map foldedField = s.foldedFields := by
    rw [foldedFields, ← List.forall₂_eq_eq_eq, List.forall₂_map_left_iff,
      List.forall₂_map_right_iff]
    refine hcase.imp fun f g hfg => ?_
    rw [foldedField, foldedField, (folded_eq_iff f.1 g.1).mpr hfg.1, hfg.2]
  rw [← heq]
  exact hperm.map foldedField

theorem Rearranged.apart {r s : Row} (h : r.Rearranged s) (hr : r.Apart) : s.Apart :=
  s.apart_iff.mpr ((h.perm.map Prod.fst).nodup ((r.apart_iff).mp hr))

theorem mem_foldedFields_of_get? (h : r.get? name = some v) :
    (folded name, v) ∈ r.foldedFields := by
  have hmem : ∃ n, (n, v) ∈ r.fields ∧ folded n = folded name := by
    simp only [folded_eq_iff]
    rcases (get?_eq_some_iff r name v).mp h with hexact | ⟨-, hfirst⟩
    · obtain ⟨n, hn, rfl⟩ := hexact.mem
      exact ⟨n, hn, (folded_eq_iff n n).mp rfl⟩
    · exact hfirst.mem
  obtain ⟨n, hn, heq⟩ := hmem
  rw [← heq]
  exact List.mem_map_of_mem hn

/-- Among names that do not agree, it does not matter which field is the first. -/
theorem get?_eq_some_iff_mem (hr : r.Apart) :
    r.get? name = some v ↔ (folded name, v) ∈ r.foldedFields := by
  refine ⟨mem_foldedFields_of_get?, fun hmem => ?_⟩
  obtain ⟨field, hfield, heq⟩ := List.mem_map.mp hmem
  obtain ⟨w, hw⟩ := Option.isSome_iff_exists.mp ((isSome_get?_iff r name).mpr
    ⟨field, hfield, (folded_eq_iff _ _).mp (congrArg Prod.fst heq)⟩)
  -- Whichever field was taken, there is no other under this name.
  have hsame : (folded name, w) = (folded name, v) :=
    List.inj_on_of_nodup_map (r.apart_iff.mp hr) (mem_foldedFields_of_get? hw) hmem rfl
  rw [hw, (Prod.mk.inj hsame).2]

theorem get?_of_rearranged {r s : Row} (hr : r.Apart) (h : r.Rearranged s) {name other : String}
    (hname : SameLetters name other) : r.get? name = s.get? other := by
  refine Option.ext fun v => ?_
  rw [get?_eq_some_iff_mem hr, get?_eq_some_iff_mem (h.apart hr), h.perm.mem_iff,
    (folded_eq_iff name other).mpr hname]

/-! ## What is decoded -/

/-- What comes of a field that was looked up, under whatever name. -/
def decodeFound (α : Type) [FromValue α] : Option Value → Except DecodeFault α
  | some v => FromValue.fromValue v
  | none =>
    match (FromValue.fromMissing : Option α) with
    | some a => .ok a
    | none => .error .noSuchField

theorem decode_eq (α : Type) [FromValue α] (r : Row) (column : String) :
    r.decode α column = (decodeFound α (r.get? column)).mapError (Error.decode column) := by
  rw [decode]
  cases r.get? column with
  | some v =>
    rw [decodeFound]
    dsimp only
    cases (FromValue.fromValue v : Except DecodeFault α) <;> rfl
  | none =>
    rw [decodeFound]
    cases (FromValue.fromMissing : Option α) <;> rfl

/-- A field is found exactly if its name agrees with the one asked for, and it is the first of
exactly that name, or else the first.  What is decoded, to whatever type, is decoded from the
value found.  If no names in a row agree with each other, then in another order and with
letters in another case, in the row or in the name asked for, the same value is found and the
same is decoded.  An error quotes the name asked for and is otherwise the same. -/
theorem field_by_name :
    (∀ (r : Row) (name : String),
      ((r.get? name).isSome ↔ ∃ field ∈ r.fields, SameLetters field.1 name) ∧
      (∀ v, r.get? name = some v ↔ r.First (· = name) v ∨
        (∀ field ∈ r.fields, field.1 ≠ name) ∧ r.First (SameLetters · name) v) ∧
      ∀ (α : Type) [FromValue α],
        r.decode α name = (decodeFound α (r.get? name)).mapError (Error.decode name)) ∧
    ∀ r s : Row, r.Apart → r.Rearranged s → ∀ name other : String, SameLetters name other →
      r.get? name = s.get? other ∧
      ∀ (α : Type) [FromValue α], ∃ result : Except DecodeFault α,
        r.decode α name = result.mapError (Error.decode name) ∧
        s.decode α other = result.mapError (Error.decode other) := by
  refine ⟨fun r name => ⟨isSome_get?_iff r name, get?_eq_some_iff r name,
    fun α _ => decode_eq α r name⟩, ?_⟩
  intro r s hr hrs name other hname
  have hget : r.get? name = s.get? other := get?_of_rearranged hr hrs hname
  refine ⟨hget, fun α _ => ⟨decodeFound α (r.get? name), decode_eq α r name, ?_⟩⟩
  rw [hget, decode_eq]

/-- Letters other than ASCII ones have to agree as they are.  The field is found in a row put
the other way round, and a text that is no integer is refused in both under the same words
but for the name. -/
theorem field_by_name_recased :
    let r : Row := ⟨[("Id", .int 7), ("Größe", .text "klein"), ("nick", .null)]⟩
    let s : Row := ⟨[("NICK", .null), ("gRößE", .text "klein"), ("iD", .int 7)]⟩
    (r.Apart ∧ r.Rearranged s ∧ SameLetters "größe" "GRößE") ∧
      s.get? "GRößE" = some (.text "klein") ∧ s.get? "GRÖßE" = none ∧
      r.get? "größe" = s.get? "GRößE" ∧
      ∃ result : Except DecodeFault Int64,
        r.decode Int64 "größe" = result.mapError (Error.decode "größe") ∧
        s.decode Int64 "GRößE" = result.mapError (Error.decode "GRößE") := by
  intro r s
  have hr : r.Apart := by
    show List.Pairwise _ _
    decide
  have hrs : r.Rearranged s := by
    refine ⟨r.fields.reverse, r.fields.reverse_perm.symm, ?_⟩
    exact .cons ⟨by decide, rfl⟩ (.cons ⟨by decide, rfl⟩ (.cons ⟨by decide, rfl⟩ .nil))
  have hname : SameLetters "größe" "GRößE" := by decide
  obtain ⟨hget, hdecode⟩ := field_by_name.2 r s hr hrs "größe" "GRößE" hname
  exact ⟨⟨hr, hrs, hname⟩, rfl, rfl, hget, hdecode Int64⟩

/-- Between names that agree, the case of letters decides first, and the order after it. -/
example :
    let r : Row := ⟨[("Name", .text "Ada"), ("name", .text "exact")]⟩
    r.get? "name" = some (.text "exact") ∧ r.get? "NAME" = some (.text "Ada") :=
  ⟨rfl, rfl⟩

end Row
end BoundSql
