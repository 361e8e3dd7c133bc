import BoundSql.Parameters
import BoundSql.Proofs.Number.Canonical
import Mathlib.Data.List.Nodup

/-
Values bound and looked up, in any order.

The store is taken through calls that bind a value or look one up.  The value bound after
`i` others is given the placeholder `@p` with the decimal numeral of `i`, which was never
given out before, and is what is found under it from then on.  Nothing is found under any
other text.  The main statement is `bound_under_its_number`.
-/

namespace BoundSql
namespace Parameters

/-! ## Calls -/

inductive Op where
  | bind (v : Value)
  | lookUp (placeholder : String)

/-- What a call gives back. -/
inductive Answer where
  | given (placeholder : String)
  | found (value : Option Value)

namespace Op

/-- The value, if one is bound. -/
def value? : Op → Option Value
  | bind v => some v
  | lookUp _ => none

end Op

/-- The placeholder, if one is given out. -/
def Answer.placeholder? : Answer → Option String
  | given placeholder => some placeholder
  | found _ => none

def answer (ps : Parameters) : Op → Answer
  | .bind v => .given (ps.next v).1
  | .lookUp placeholder => .found (ps.get? placeholder)

def apply (ps : Parameters) : Op → Parameters
  | .bind v => (ps.next v).2
  | .lookUp _ => ps

def applyAll (ps : Parameters) (ops : List Op) : Parameters :=
  ops.foldl apply ps

/-- The answers to calls that are made one after another. -/
def answers (ps : Parameters) : List Op → List Answer
  | [] => []
  | op :: ops => ps.answer op :: (ps.apply op).answers ops

/-- The placeholders that are given out in the course of calls. -/
def placeholders (ps : Parameters) (ops : List Op) : List String :=
  (ps.answers ops).filterMap Answer.placeholder?

/-- The values that calls bind. -/
def bound (ops : List Op) : List Value :=
  ops.filterMap Op.value?

theorem applyAll_append (ps : Parameters) (a b : List Op) :
    ps.applyAll (a ++ b) = (ps.applyAll a).applyAll b :=
  List.foldl_append

theorem getElem?_answers {ops : List Op} {k : Nat} {op : Op} (h : ops[k]? = some op)
    (ps : Parameters) : (ps.answers ops)[k]? = some ((ps.applyAll (ops.take k)).answer op) := by
  induction ops generalizing ps k with
  | nil => cases h
  | cons first ops ih =>
    cases k with
    | zero =>
      cases h
      rfl
    | succ k => exact ih h (ps.apply first)

/-! ## The store after calls -/

/-- A call leaves the values as they are, or adds one after them. -/
theorem values_apply (ps : Parameters) (op : Op) :
    (ps.apply op).values.toList = ps.values.toList ++ op.value?.toList := by
  cases op with
  | bind v => exact Array.toList_push
  | lookUp placeholder => exact (List.append_nil _).symm

theorem bound_cons (op : Op) (ops : List Op) :
    bound (op :: ops) = op.value?.toList ++ bound ops := by
  cases op <;> rfl

theorem values_applyAll (ps : Parameters) (ops : List Op) :
    (ps.applyAll ops).values.toList = ps.values.toList ++ bound ops := by
  induction ops generalizing ps with
  | nil => exact (List.append_nil _).symm
  | cons op ops ih =>
    show ((ps.apply op).applyAll ops).values.toList = _
    rw [ih, values_apply, bound_cons, List.append_assoc]

/-- Placeholders are numbered on from the values that are bound already. -/
theorem placeholders_eq (ps : Parameters) (ops : List Op) :
    ps.placeholders ops = (List.range' ps.size (bound ops).length).map name := by
  induction ops generalizing ps with
  | nil => rfl
  | cons op ops ih =>
    cases op with
    | bind v =>
      show (ps.next v).1 :: (ps.push v).placeholders ops = _
      rw [ih, size_push]
      rfl
    | lookUp placeholder => exact ih ps

theorem get?_eq_some_iff (ps : Parameters) (s : String) (v : Value) :
    ps.get? s = some v ↔ ∃ i, s = name i ∧ ps.values.toList[i]? = some v := by
  simp only [Array.getElem?_toList]
  constructor
  · intro h
    obtain ⟨i, rfl⟩ := exists_name_of_get? h
    exact ⟨i, rfl, (ps.get?_name i).symm.trans h⟩
  · rintro ⟨i, rfl, h⟩
    exact (ps.get?_name i).trans h

/-- What is found is still found after more calls. -/
theorem get?_applyAll_of_some {ps : Parameters} {s : String} {v : Value}
    (h : ps.get? s = some v) (ops : List Op) : (ps.applyAll ops).get? s = some v := by
  obtain ⟨i, hi, hv⟩ := (get?_eq_some_iff ps s v).mp h
  obtain ⟨hlt, -⟩ := List.getElem?_eq_some_iff.mp hv
  refine (get?_eq_some_iff _ s v).mpr ⟨i, hi, ?_⟩
  rw [values_applyAll, List.getElem?_append_left hlt, hv]

/-- More is found only under placeholders that were given out since. -/
theorem get?_applyAll_of_not_given {ps : Parameters} {ops : List Op} {s : String}
    (h : s ∉ ps.placeholders ops) : (ps.applyAll ops).get? s = ps.get? s := by
  refine Option.ext fun v => ⟨fun hv => ?_, fun hv => get?_applyAll_of_some hv ops⟩
  obtain ⟨i, rfl, hi⟩ := (get?_eq_some_iff _ s v).mp hv
  rw [values_applyAll] at hi
  -- A number that was not taken yet is one of those given out by the calls.
  have hlt : i < ps.values.toList.length := by
    by_contra hge
    have hbound := (List.getElem?_eq_some_iff.mp hi).1
    rw [List.length_append] at hbound
    rw [placeholders_eq] at h
    exact h (List.mem_map_of_mem (List.mem_range'_1.mpr ⟨Nat.le_of_not_lt hge, hbound⟩))
  rw [List.getElem?_append_left hlt] at hi
  exact (get?_eq_some_iff ps _ v).mpr ⟨i, rfl, hi⟩

/-! ## Placeholders by their numbers -/

/-- The text is `@p` with the decimal numeral of `i` after it. -/
def IsName (i : Nat) (s : String) : Prop :=
  ∃ digits, Numeral.IsDecimal digits i ∧ s = "@p" ++ String.ofList digits

theorem isName_iff (i : Nat) (s : String) : IsName i s ↔ s = name i := by
  have hname : name i = "@p" ++ String.ofList (Numeral.ofNat i) := by
    rw [← String.toList_inj, toList_name, String.toList_append]
    exact congrArg (['@', 'p'] ++ ·) String.toList_ofList.symm
  simp only [IsName, Numeral.isDecimal_iff, exists_eq_left, hname]

theorem getElem?_placeholders (ops : List Op) (i : Nat) (s : String) :
    (empty.placeholders ops)[i]? = some s ↔ i < (bound ops).length ∧ IsName i s := by
  rw [placeholders_eq, isName_iff, List.getElem?_eq_some_iff]
  simp [empty, size, eq_comm]

theorem nodup_placeholders (ps : Parameters) (ops : List Op) : (ps.placeholders ops).Nodup := by
  rw [placeholders_eq]
  exact List.Nodup.map (fun _ _ => name_inj) List.nodup_range'

/-- Each entry has the placeholder that was given out for its value. -/
theorem entries_applyAll (ps : Parameters) (ops : List Op) :
    (ps.applyAll ops).entries = ps.entries ++ (ps.placeholders ops).zip (bound ops) := by
  induction ops generalizing ps with
  | nil => exact (List.append_nil _).symm
  | cons op ops ih =>
    cases op with
    | bind v =>
      show ((ps.push v).applyAll ops).entries =
        ps.entries ++ (name ps.size, v) :: ((ps.push v).placeholders ops).zip (bound ops)
      rw [ih, entries_push, List.append_assoc, List.singleton_append]
    | lookUp placeholder => exact ih ps

/-- After any calls on an empty store, as many placeholders are given out as values are bound:
`@p` and the numbers from zero on, each once and each beside its value.  A lookup finds what
is bound by then.  Under the placeholder with a number the value of that number is found, and
nothing under any other text.  What is found is not changed by more calls, and under a text
that they do not give out nothing changes at all. -/
theorem bound_under_its_number :
    (∀ ops : List Op,
      (∀ i s, (empty.placeholders ops)[i]? = some s ↔ i < (bound ops).length ∧ IsName i s) ∧
      (empty.placeholders ops).Nodup ∧
      (empty.applyAll ops).entries = (empty.placeholders ops).zip (bound ops) ∧
      ∀ s v, (empty.applyAll ops).get? s = some v ↔
        ∃ i, IsName i s ∧ (bound ops)[i]? = some v) ∧
    (∀ (ops : List Op) (k : Nat) (s : String), ops[k]? = some (.lookUp s) →
      (empty.answers ops)[k]? = some (.found ((empty.applyAll (ops.take k)).get? s))) ∧
    ∀ (before later : List Op) (s : String),
      (∀ v, (empty.applyAll before).get? s = some v →
        (empty.applyAll (before ++ later)).get? s = some v) ∧
      (s ∉ (empty.applyAll before).placeholders later →
        (empty.applyAll (before ++ later)).get? s = (empty.applyAll before).get? s) := by
  refine ⟨fun ops => ⟨getElem?_placeholders ops, nodup_placeholders empty ops,
    entries_applyAll empty ops, fun s v => ?_⟩, fun ops k s h => getElem?_answers h empty,
    fun before later s => ?_⟩
  · rw [get?_eq_some_iff, values_applyAll]
    simp only [isName_iff, show empty.values.toList = [] from rfl, List.nil_append]
  · rw [applyAll_append]
    exact ⟨fun v h => get?_applyAll_of_some h later, get?_applyAll_of_not_given⟩

/-- A placeholder that is looked up before it is given out and after it, and a text that is
never given out. -/
theorem bound_under_its_number_of_eleven :
    let before : List Op := [.lookUp "@p0", .bind (.int 7)]
    let later : List Op := List.replicate 9 (.bind .null) ++ [.lookUp "@p00", .bind (.bool true)]
    before[0]? = some (.lookUp "@p0") ∧
      (empty.applyAll before).get? "@p0" = some (.int 7) ∧
      "@p00" ∉ (empty.applyAll before).placeholders later ∧
      (empty.answers before)[0]? = some (.found none) ∧
      (empty.applyAll (before ++ later)).get? "@p0" = some (.int 7) ∧
      (empty.applyAll (before ++ later)).get? "@p10" = some (.bool true) ∧
      (empty.applyAll (before ++ later)).get? "@p00" = none := by
  intro before later
  have hfound : (empty.applyAll before).get? "@p0" = some (.int 7) := rfl
  have hnew : "@p00" ∉ (empty.applyAll before).placeholders later := by decide
  have hten : IsName 10 "@p10" := (isName_iff 10 "@p10").mpr rfl
  obtain ⟨hstore, hanswers, hstays⟩ := bound_under_its_number
  refine ⟨rfl, hfound, hnew, hanswers before 0 "@p0" rfl,
    (hstays before later "@p0").1 (.int 7) hfound, ?_, (hstays before later "@p00").2 hnew⟩
  exact ((hstore (before ++ later)).2.2.2 "@p10" (.bool true)).mpr ⟨10, hten, rfl⟩

end Parameters
end BoundSql
