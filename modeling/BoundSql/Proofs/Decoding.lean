import BoundSql.Db.Basic
import BoundSql.Proofs.Number.Integral

/-
Which integers values are decoded as.

An integer, a float, a numeral and a decimal each stand for at most one integer, and
nothing else stands for any.  Decoding gives that integer wherever it fits into 64 bits,
and where it does not fit there is an error, unless the value is a float: of a float beyond
64 bits the nearest integer that fits is taken.  That integer does not fit into 32 bits, so
what is decoded to 32 bits is always the integer that the value stands for.  The main
statements are `int64_exact_unless_clamped` and `int32_exact`.
-/

namespace BoundSql
namespace Value

/-- The value stands for this integer and no other number. -/
inductive Denotes : Value → Int → Prop
  | int (k : Int64) : Denotes (.int k) k.toInt
  | float {x : Double.Finite} {n : Int} (h : x.value = n) : Denotes (.float (.finite x)) n
  /-- A numeral with white space around it. -/
  | text {s : String} {before numeral after : List Char} {n : Int}
      (hbefore : ∀ c ∈ before, Blank.isBlank c = true)
      (hafter : ∀ c ∈ after, Blank.isBlank c = true)
      (hs : s.toList = before ++ numeral ++ after) (h : Numeral.Denotes numeral n) :
      Denotes (.text s) n
  | decimal {d : Decimal} {n : Int} (h : d.value = n) : Denotes (.decimal d) n

/-- The value is a float that stands for an integer beyond 64 bits, and this is the integer
of 64 bits nearest to it. -/
def ClampedTo (v : Value) (n : Int) : Prop :=
  ∃ x m, v = .float x ∧ v.Denotes m ∧
    (m < -2 ^ 63 ∧ n = -2 ^ 63 ∨ 2 ^ 63 ≤ m ∧ n = 2 ^ 63 - 1)

/-- The integer that a value stands for, of whatever size. -/
def integer? : Value → Option Int
  | .int k => some k.toInt
  | .float x => x.integer?
  | .text s => Numeral.intValue? (Blank.trim s.toList)
  | .decimal d => d.integer?
  | _ => none

theorem integer?_eq_some_iff (v : Value) (n : Int) : v.integer? = some n ↔ v.Denotes n := by
  constructor
  · intro h
    cases v with
    | int k =>
      cases h
      exact .int k
    | float x =>
      cases x with
      | finite x => exact .float ((x.integer?_eq_some_iff n).mp h)
      | _ => cases h
    | text s =>
      obtain ⟨before, numeral, after, hbefore, hafter, hs, hn⟩ :=
        (Blank.intValue?_trim_eq_some_iff s.toList n).mp h
      exact .text hbefore hafter hs hn
    | decimal d => exact .decimal ((d.integer?_eq_some_iff n).mp h)
    | _ => cases h
  · intro h
    cases h with
    | int k => rfl
    | float h => exact (Double.Finite.integer?_eq_some_iff _ n).mpr h
    | text hbefore hafter hs h =>
      exact (Blank.intValue?_trim_eq_some_iff _ n).mpr ⟨_, _, _, hbefore, hafter, hs, h⟩
    | decimal h => exact (Decimal.integer?_eq_some_iff _ n).mpr h

theorem Denotes.unique {v : Value} {m n : Int} (hm : v.Denotes m) (hn : v.Denotes n) : m = n :=
  Option.some.inj
    (((v.integer?_eq_some_iff m).mpr hm).symm.trans ((v.integer?_eq_some_iff n).mpr hn))

/-- A float is clamped to another integer than it stands for. -/
theorem ClampedTo.not_denotes {v : Value} {n : Int} (h : v.ClampedTo n) : ¬ v.Denotes n := by
  obtain ⟨x, m, -, hm, hn⟩ := h
  intro hdenotes
  have := hm.unique hdenotes
  omega

end Value

namespace FromValue

theorem map_eq_ok_iff {ε α β : Type} (result : Except ε α) (f : α → β) (b : β) :
    result.map f = .ok b ↔ ∃ a, result = .ok a ∧ f a = b := by
  cases result <;> simp [Except.map]

/-! ## Integers of 64 bits -/

/-- Every integer in the range is one of 64 bits. -/
theorem exists_toInt_eq {n : Int} (hlow : -2 ^ 63 ≤ n) (hhigh : n < 2 ^ 63) :
    ∃ k : Int64, k.toInt = n :=
  ⟨Int64.ofInt n, Int64.toInt_ofInt_of_le hlow hhigh⟩

theorem inRange64?_eq_some_iff (n : Int) (k : Int64) : inRange64? n = some k ↔ n = k.toInt := by
  have hlow := k.le_toInt
  have hhigh := k.toInt_lt
  rw [inRange64?, Int64.toInt_minValue, Int64.toInt_maxValue]
  constructor
  · intro h
    split at h
    · rename_i hrange
      rw [← Option.some.inj h, Int64.toInt_ofInt_of_le hrange.1 (by omega)]
    · cases h
  · rintro rfl
    rw [if_pos ⟨hlow, by omega⟩, Int64.ofInt_toInt]

theorem toInt_saturate (n : Int) : (saturate n).toInt = max (-2 ^ 63) (min n (2 ^ 63 - 1)) := by
  rw [saturate, Int64.toInt_minValue, Int64.toInt_maxValue]
  exact Int64.toInt_ofInt_of_le (by omega) (by omega)

theorem int64?_of_not_float {v : Value} (h : ∀ x, v ≠ .float x) :
    int64? v = v.integer?.bind inRange64? := by
  cases v with
  | int k => exact ((inRange64?_eq_some_iff k.toInt k).mpr rfl).symm
  | float x => exact absurd rfl (h x)
  | _ => rfl

/-- A float is decoded as the nearest integer of 64 bits, which is its own if that fits. -/
theorem int64?_float_eq_some_iff (x : Double) (k : Int64) :
    int64? (.float x) = some k ↔
      (Value.float x).Denotes k.toInt ∨ (Value.float x).ClampedTo k.toInt := by
  have hlow := k.le_toInt
  have hhigh := k.toInt_lt
  have hnearest (m : Int) :
      saturate m = k ↔ max (-2 ^ 63) (min m (2 ^ 63 - 1)) = k.toInt := by
    rw [← Int64.toInt_inj, toInt_saturate]
  show (Value.float x).integer?.map saturate = some k ↔ _
  rw [Option.map_eq_some_iff]
  simp only [Value.integer?_eq_some_iff, hnearest]
  constructor
  · rintro ⟨m, hm, hk⟩
    by_cases hrange : -2 ^ 63 ≤ m ∧ m < 2 ^ 63
    · have hsame : m = k.toInt := by omega
      exact .inl (hsame ▸ hm)
    · exact .inr ⟨x, m, rfl, hm, by omega⟩
  · rintro (h | ⟨-, m, -, hm, hk⟩)
    · exact ⟨k.toInt, h, by omega⟩
    · exact ⟨m, hm, by omega⟩

/-- Only a float can be decoded as another integer than it stands for. -/
theorem int64?_eq_some_iff (v : Value) (k : Int64) :
    int64? v = some k ↔ v.Denotes k.toInt ∨ v.ClampedTo k.toInt := by
  by_cases hfloat : ∃ x, v = .float x
  · obtain ⟨x, rfl⟩ := hfloat
    exact int64?_float_eq_some_iff x k
  · have hnot : ∀ x, v ≠ .float x := fun x hx => hfloat ⟨x, hx⟩
    have hclamped : ¬ v.ClampedTo k.toInt := fun ⟨x, _, hx, _⟩ => hnot x hx
    rw [int64?_of_not_float hnot, Option.bind_eq_some_iff]
    simp only [Value.integer?_eq_some_iff, inRange64?_eq_some_iff, hclamped, or_false]
    exact ⟨fun ⟨n, hn, h⟩ => h ▸ hn, fun h => ⟨k.toInt, h, rfl⟩⟩

theorem int64_eq_ok_iff (v : Value) (k : Int64) :
    int64 v = .ok k ↔ v.Denotes k.toInt ∨ v.ClampedTo k.toInt := by
  rw [← int64?_eq_some_iff, int64]
  cases int64? v <;> simp

/-- The integers that a value is decoded as: the one that it stands for or is clamped to. -/
theorem map_int64_eq_ok_iff (v : Value) (n : Int) :
    (int64 v).map Int64.toInt = .ok n ↔
      v.Denotes n ∧ -2 ^ 63 ≤ n ∧ n < 2 ^ 63 ∨ v.ClampedTo n := by
  rw [map_eq_ok_iff]
  constructor
  · rintro ⟨k, hk, rfl⟩
    exact ((int64_eq_ok_iff v k).mp hk).imp_left fun h => ⟨h, k.le_toInt, k.toInt_lt⟩
  · intro h
    have hrange : -2 ^ 63 ≤ n ∧ n < 2 ^ 63 := by
      rcases h with ⟨-, hrange⟩ | ⟨x, m, -, -, h⟩
      · exact hrange
      · omega
    obtain ⟨k, rfl⟩ := exists_toInt_eq hrange.1 hrange.2
    exact ⟨k, (int64_eq_ok_iff v k).mpr (h.imp_left And.left), rfl⟩

/-- There is an error exactly if the value stands for no integer that fits and is no float
that stands for one. -/
theorem int64_eq_error_iff (v : Value) :
    int64 v = .error (.mismatch .integer v) ↔
      ¬ ∃ n, v.Denotes n ∧ ((-2 ^ 63 ≤ n ∧ n < 2 ^ 63) ∨ ∃ x, v = .float x) := by
  have hsome : (∃ k, int64? v = some k) ↔
      ∃ n, v.Denotes n ∧ ((-2 ^ 63 ≤ n ∧ n < 2 ^ 63) ∨ ∃ x, v = .float x) := by
    constructor
    · rintro ⟨k, hk⟩
      rcases (int64?_eq_some_iff v k).mp hk with h | ⟨x, m, hx, hm, -⟩
      · exact ⟨k.toInt, h, .inl ⟨k.le_toInt, k.toInt_lt⟩⟩
      · exact ⟨m, hm, .inr ⟨x, hx⟩⟩
    · rintro ⟨n, hn, hfits | ⟨x, rfl⟩⟩
      · obtain ⟨k, rfl⟩ := exists_toInt_eq hfits.1 hfits.2
        exact ⟨k, (int64?_eq_some_iff v k).mpr (.inl hn)⟩
      · exact ⟨saturate n, congrArg (Option.map saturate)
          ((Value.integer?_eq_some_iff _ n).mpr hn)⟩
  rw [← hsome, int64]
  cases int64? v <;> simp

end FromValue

/-! ## Identities -/

/-- A field is decoded if there is one of the name, and from its value. -/
theorem Row.decode_int64_eq_ok_iff (r : Row) (column : String) (k : Int64) :
    r.decode Int64 column = .ok k ↔
      ∃ v, r.get? column = some v ∧ FromValue.int64 v = .ok k := by
  unfold Row.decode
  cases r.get? column with
  | none => exact ⟨nofun, nofun⟩
  | some v =>
    have hdecode : (FromValue.fromValue v : Except DecodeFault Int64) = FromValue.int64 v := rfl
    simp only [hdecode, Option.some.injEq, exists_eq_left']
    cases FromValue.int64 v <;> simp

/-- An identity is decoded from a field of the first row. -/
theorem Db.insert_eq_ok_iff {σ : Type} (db : Db σ) (i : Insert) (k : Int64) :
    (db.insert i).1 = .ok k ↔
      ∃ row rest v, (db.withBuilt (.insert i) db.fetchUncached).1 = .ok (row :: rest) ∧
        row.get? Insert.identityField = some v ∧ FromValue.int64 v = .ok k := by
  unfold Db.insert
  obtain ⟨result, after⟩ := db.withBuilt (.insert i) db.fetchUncached
  cases result with
  | error e => exact ⟨nofun, nofun⟩
  | ok rows =>
    cases rows with
    | nil => exact ⟨nofun, nofun⟩
    | cons row rest =>
      refine (row.decode_int64_eq_ok_iff Insert.identityField k).trans ⟨?_, ?_⟩
      · rintro ⟨v, hv, hk⟩
        exact ⟨row, rest, v, rfl, hv, hk⟩
      · rintro ⟨_, _, v, hrows, hv, hk⟩
        cases hrows
        exact ⟨v, hv, hk⟩

namespace FromValue

/-- What is decoded to 64 bits is the integer that the value stands for, or, if the value is
a float beyond 64 bits, the nearest integer of 64 bits; all that stands for no integer of 64
bits and is no such float is an error.  So decoding is exact but for these floats.  The
identity that an insert gives is decoded in this way from a field of the first row. -/
theorem int64_exact_unless_clamped (v : Value) :
    (∀ n : Int, (fromValue v : Except DecodeFault Int64).map Int64.toInt = .ok n ↔
      v.Denotes n ∧ -2 ^ 63 ≤ n ∧ n < 2 ^ 63 ∨ v.ClampedTo n) ∧
    ((fromValue v : Except DecodeFault Int64) = .error (.mismatch .integer v) ↔
      ¬ ∃ n, v.Denotes n ∧ ((-2 ^ 63 ≤ n ∧ n < 2 ^ 63) ∨ ∃ x, v = .float x)) ∧
    ((∀ n : Int, (fromValue v : Except DecodeFault Int64).map Int64.toInt = .ok n ↔
      v.Denotes n ∧ -2 ^ 63 ≤ n ∧ n < 2 ^ 63) ↔ ¬ ∃ n, v.ClampedTo n) ∧
    ∀ (σ : Type) (db : Db σ) (i : Insert) (k : Int64), (db.insert i).1 = .ok k ↔
      ∃ row rest w, (db.withBuilt (.insert i) db.fetchUncached).1 = .ok (row :: rest) ∧
        row.get? Insert.identityField = some w ∧ fromValue w = .ok k := by
  refine ⟨map_int64_eq_ok_iff v, int64_eq_error_iff v, ⟨?_, ?_⟩,
    fun _ db i k => db.insert_eq_ok_iff i k⟩
  · rintro hexact ⟨n, hn⟩
    exact hn.not_denotes ((hexact n).mp ((map_int64_eq_ok_iff v n).mpr (.inr hn))).1
  · intro hnone n
    have hn : ¬ v.ClampedTo n := fun h => hnone ⟨n, h⟩
    exact (map_int64_eq_ok_iff v n).trans (or_iff_left hn)

/-- The least float beyond 64 bits is decoded as another number. -/
theorem int64_of_two_pow_63 :
    let v := Value.float (.finite ⟨false, 1086, 0⟩)
    (fromValue v : Except DecodeFault Int64) = .ok Int64.maxValue ∧ v.Denotes (2 ^ 63) ∧
      ¬ v.Denotes Int64.maxValue.toInt := by
  intro v
  have hdenotes : v.Denotes (2 ^ 63) := (v.integer?_eq_some_iff _).mp rfl
  refine ⟨rfl, hdenotes, fun h => ?_⟩
  exact absurd (h.unique hdenotes) (by decide)

/-! ## Integers of 32 bits -/

/-- Of an integer of 64 bits, the range is all that is checked. -/
theorem int32_of_int64_eq_ok {v : Value} {n : Int64} (h : int64 v = .ok n) :
    (fromValue v : Except DecodeFault Int32) =
      if Int32.minValue.toInt ≤ n.toInt ∧ n.toInt ≤ Int32.maxValue.toInt then
        .ok (Int32.ofInt n.toInt)
      else .error (.outOfRange n) := by
  simp only [fromValue, h]

theorem int32_of_int64_eq_error {v : Value} {fault : DecodeFault} (h : int64 v = .error fault) :
    (fromValue v : Except DecodeFault Int32) = .error fault := by
  simp only [fromValue, h]

/-- What is decoded to 32 bits is what is decoded to 64 bits. -/
theorem int32_eq_ok_iff_int64 (v : Value) (k : Int32) :
    (fromValue v : Except DecodeFault Int32) = .ok k ↔
      ∃ n, int64 v = .ok n ∧ n.toInt = k.toInt := by
  have hlow := k.le_toInt
  have hhigh := k.toInt_lt
  cases h : int64 v with
  | error fault =>
    rw [int32_of_int64_eq_error h]
    exact ⟨nofun, nofun⟩
  | ok n =>
    rw [int32_of_int64_eq_ok h, Int32.toInt_minValue, Int32.toInt_maxValue]
    simp only [Except.ok.injEq, exists_eq_left']
    split
    · rename_i hrange
      rw [Except.ok.injEq, ← Int32.toInt_inj, Int32.toInt_ofInt_of_le hrange.1 (by omega)]
    · rename_i hrange
      exact ⟨nofun, fun h => absurd (by omega) hrange⟩

/-- An integer of 64 bits to which a float is clamped does not fit into 32 bits. -/
theorem int32_eq_ok_iff (v : Value) (k : Int32) :
    (fromValue v : Except DecodeFault Int32) = .ok k ↔ v.Denotes k.toInt := by
  have hlow := k.le_toInt
  have hhigh := k.toInt_lt
  rw [int32_eq_ok_iff_int64]
  constructor
  · rintro ⟨n, hn, heq⟩
    rcases (int64_eq_ok_iff v n).mp hn with h | ⟨x, m, -, -, h⟩
    · exact heq ▸ h
    · -- A clamped integer is the least or the greatest of 64 bits.
      omega
  · intro h
    obtain ⟨n, hn⟩ := exists_toInt_eq (n := k.toInt) (by omega) (by omega)
    exact ⟨n, (int64_eq_ok_iff v n).mpr (.inl (hn ▸ h)), hn⟩

/-- What is decoded to 32 bits is exactly the integer that the value stands for, and all that
stands for no integer of 32 bits is an error. -/
theorem int32_exact (v : Value) :
    (∀ n : Int, (fromValue v : Except DecodeFault Int32).map Int32.toInt = .ok n ↔
      v.Denotes n ∧ -2 ^ 31 ≤ n ∧ n < 2 ^ 31) ∧
    ((∃ fault, (fromValue v : Except DecodeFault Int32) = .error fault) ↔
      ¬ ∃ n, v.Denotes n ∧ -2 ^ 31 ≤ n ∧ n < 2 ^ 31) := by
  have hok (n : Int) : (fromValue v : Except DecodeFault Int32).map Int32.toInt = .ok n ↔
      v.Denotes n ∧ -2 ^ 31 ≤ n ∧ n < 2 ^ 31 := by
    rw [map_eq_ok_iff]
    simp only [int32_eq_ok_iff]
    constructor
    · rintro ⟨k, hk, rfl⟩
      exact ⟨hk, k.le_toInt, k.toInt_lt⟩
    · rintro ⟨hn, hlow, hhigh⟩
      have hk : (Int32.ofInt n).toInt = n := Int32.toInt_ofInt_of_le hlow hhigh
      exact ⟨Int32.ofInt n, hk.symm ▸ hn, hk⟩
  refine ⟨hok, ?_⟩
  simp only [← hok]
  cases (fromValue v : Except DecodeFault Int32) <;> simp [Except.map]

end FromValue
end BoundSql
