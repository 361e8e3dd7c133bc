import BoundSql.Proofs.Keys

/-
The serialization of the values bound one after another.

It lists the entries in the order of the bytes of their names, which is not the
order of binding once there are more than ten.  The order has no effect on what
is told: two lists of values have one serialization exactly if they are equal.
The main statement is `Parameters.serialization_of_values`.
-/

namespace BoundSql

/-! ## The order of bytes -/

/-- The bytes that a text is stored as. -/
def utf8Bytes (s : String) : List UInt8 :=
  s.toUTF8.data.toList

theorem utf8Bytes_eq (s : String) : utf8Bytes s = s.toList.flatMap String.utf8EncodeChar := by
  conv => lhs; rw [← String.ofList_toList (s := s)]
  rw [utf8Bytes, String.toUTF8_eq_toByteArray, String.toByteArray_ofList, List.utf8Encode,
    List.toList_data_toByteArray]

theorem utf8Bytes_of_ascii {s : String} (h : ∀ c ∈ s.toList, c.toNat < 128) :
    utf8Bytes s = s.toList.map Char.toUInt8 := by
  rw [utf8Bytes_eq]
  generalize s.toList = cs at h ⊢
  induction cs with
  | nil => rfl
  | cons c cs ih =>
    have hsize : c.utf8Size = 1 :=
      Char.utf8Size_eq_one_iff.mpr (Nat.le_of_lt_succ (h c List.mem_cons_self))
    rw [List.flatMap_cons, List.map_cons, String.utf8EncodeChar_eq_singleton hsize,
      ih fun d hd => h d (List.mem_cons_of_mem c hd)]
    rfl

/-- Bytes below 128 keep the order of the characters. -/
theorem map_toUInt8_lt {as bs : List Char} (ha : ∀ c ∈ as, c.toNat < 128)
    (hb : ∀ c ∈ bs, c.toNat < 128) (h : as < bs) :
    as.map Char.toUInt8 < bs.map Char.toUInt8 := by
  induction as generalizing bs with
  | nil =>
    cases bs with
    | nil => exact absurd h (List.lt_irrefl _)
    | cons b bs => exact List.nil_lt_cons _ _
  | cons a as ih =>
    cases bs with
    | nil => exact absurd h (List.not_lt_nil _)
    | cons b bs =>
      have hbyte {c : Char} (hc : c.toNat < 128) : c.toUInt8.toNat = c.toNat := by
        show c.toNat % 256 = c.toNat
        omega
      have hafirst := hbyte (ha a List.mem_cons_self)
      have hbfirst := hbyte (hb b List.mem_cons_self)
      rw [List.map_cons, List.map_cons, List.cons_lt_cons_iff]
      rcases List.cons_lt_cons_iff.mp h with hlt | ⟨rfl, hrest⟩
      · refine .inl ?_
        rw [UInt8.lt_iff_toNat_lt, hafirst, hbfirst]
        exact hlt
      · exact .inr ⟨rfl, ih (fun c hc => ha c (List.mem_cons_of_mem a hc))
          (fun c hc => hb c (List.mem_cons_of_mem a hc)) hrest⟩

namespace Parameters

/-! ## Entries in order -/

theorem isAscii_of_mem_name {i : Nat} {c : Char} (h : c ∈ (name i).toList) : c.toNat < 128 := by
  rcases mem_name h with rfl | rfl | h
  · decide
  · decide
  · exact Nat.lt_of_le_of_lt (Char.isDigit_iff_toNat.mp h).2 (by decide)

theorem utf8Bytes_name_lt {i j : Nat} (h : name i < name j) :
    utf8Bytes (name i) < utf8Bytes (name j) := by
  have hi : ∀ c ∈ (name i).toList, c.toNat < 128 := fun c => isAscii_of_mem_name
  have hj : ∀ c ∈ (name j).toList, c.toNat < 128 := fun c => isAscii_of_mem_name
  rw [utf8Bytes_of_ascii hi, utf8Bytes_of_ascii hj]
  exact map_toUInt8_lt hi hj h

theorem nodup_names (ps : Parameters) : (ps.entries.map Prod.fst).Nodup := by
  have hnames : ps.entries.map Prod.fst = (List.range' 0 ps.values.toList.length).map name := by
    rw [entries, ← List.zipIdx_map_snd, List.map_map, List.map_map]
    rfl
  rw [hnames]
  exact List.Nodup.map (fun _ _ => name_inj) List.nodup_range'

theorem sortedEntries_perm (ps : Parameters) : ps.sortedEntries.Perm ps.entries :=
  List.mergeSort_perm _ _

/-- No name stands twice, so the sorted names increase strictly. -/
theorem pairwise_sortedEntries (ps : Parameters) :
    ps.sortedEntries.Pairwise fun a b => utf8Bytes a.1 < utf8Bytes b.1 := by
  have hle : ps.sortedEntries.Pairwise fun a b => decide (a.1 ≤ b.1) = true := by
    refine List.pairwise_mergeSort (fun a b c hab hbc => ?_) (fun a b => ?_) ps.entries
    · exact decide_eq_true (String.le_trans (of_decide_eq_true hab) (of_decide_eq_true hbc))
    · rcases String.le_total a.1 b.1 with h | h <;> simp [h]
  have hne : ps.sortedEntries.Pairwise fun a b => a.1 ≠ b.1 :=
    List.pairwise_map.mp ((ps.sortedEntries_perm.map Prod.fst).nodup_iff.mpr ps.nodup_names)
  refine (hle.and hne).imp_of_mem fun {a b} ha hb hab => ?_
  obtain ⟨i, v, rfl, -⟩ := mem_sortedEntries ha
  obtain ⟨j, w, rfl, -⟩ := mem_sortedEntries hb
  refine utf8Bytes_name_lt (String.not_le.mp fun hba => ?_)
  exact hab.2 (String.le_antisymm (of_decide_eq_true hab.1) hba)

/-! ## Values bound one after another -/

/-- The values are bound in their order. -/
def ofValues (vs : List Value) : Parameters :=
  vs.foldl (fun ps v => (ps.next v).2) empty

theorem values_ofValues (vs : List Value) : (ofValues vs).values = vs.toArray := by
  have hfold (ps : Parameters) :
      (vs.foldl (fun ps v => (ps.next v).2) ps).values = ps.values ++ vs.toArray := by
    induction vs generalizing ps with
    | nil => simp
    | cons v vs ih => rw [List.foldl_cons, ih]; simp [next, push]
  rw [ofValues, hfold, empty, Array.empty_append]

theorem entries_ofValues (vs : List Value) :
    (ofValues vs).entries = vs.zipIdx.map fun (v, i) => (name i, v) := by
  rw [entries, values_ofValues]

/-- Lists of values have one serialization exactly if they are equal, and it shows
each value once under its placeholder, in the order of the bytes of the names. -/
theorem serialization_of_values :
    (∀ vs ws : List Value, (ofValues vs).serialize = (ofValues ws).serialize ↔ vs = ws) ∧
      ∀ vs : List Value, ∃ sorted : List (String × Value),
        sorted.Perm (vs.zipIdx.map fun (v, i) => (name i, v)) ∧
        sorted.Pairwise (fun a b => utf8Bytes a.1 < utf8Bytes b.1) ∧
        (ofValues vs).serialize = String.ofList
          ([','].intercalate (sorted.map fun (n, v) => n.toList ++ '=' :: v.keyText)) := by
  refine ⟨fun vs ws => ⟨fun h => ?_, fun h => by rw [h]⟩, fun vs => ?_⟩
  · have hvalues := congrArg values (serialize_injective h)
    rw [values_ofValues, values_ofValues] at hvalues
    exact congrArg Array.toList hvalues
  · refine ⟨(ofValues vs).sortedEntries, ?_, (ofValues vs).pairwise_sortedEntries, rfl⟩
    rw [← entries_ofValues]
    exact (ofValues vs).sortedEntries_perm

/-- The eleventh value is shown before the third. -/
example : utf8Bytes (name 10) < utf8Bytes (name 2) := by
  decide

end Parameters
end BoundSql
