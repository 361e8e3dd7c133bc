import BoundSql.Value.Text

/-
The values bound in the course of writing one statement.

The value bound first is `@p0`, the next one `@p1`, and so on.  Binding only
ever appends, so a name once given out keeps its value.
-/

namespace BoundSql

structure Parameters where
  values : Array Value

namespace Parameters

def empty : Parameters :=
  ⟨#[]⟩

/-- The placeholder of the value bound after `i` others. -/
def name (i : Nat) : String :=
  String.ofList ('@' :: 'p' :: Numeral.ofNat i)

def size (ps : Parameters) : Nat :=
  ps.values.size

def isEmpty (ps : Parameters) : Bool :=
  ps.values.isEmpty

/-- Bind one more value. -/
def push (ps : Parameters) (v : Value) : Parameters :=
  ⟨ps.values.push v⟩

/-- Bind one more value and give out its placeholder. -/
def next (ps : Parameters) (v : Value) : String × Parameters :=
  (name ps.size, ps.push v)

/-- Placeholders with their values, in the order of binding. -/
def entries (ps : Parameters) : List (String × Value) :=
  ps.values.toList.zipIdx.map fun (v, i) => (name i, v)

def get? (ps : Parameters) (placeholder : String) : Option Value :=
  (ps.entries.find? fun entry => entry.1 == placeholder).map Prod.snd

/-- All entries as `name=key`, in the order of the names, so that `@p10` comes
before `@p2`. -/
def serialize (ps : Parameters) : String :=
  let sorted := ps.entries.mergeSort fun a b => decide (a.1 ≤ b.1)
  String.ofList ([','].intercalate (sorted.map fun (n, v) => n.toList ++ '=' :: v.keyText))

theorem size_push (ps : Parameters) (v : Value) : (ps.push v).size = ps.size + 1 := by
  simp [push, size]

theorem entries_push (ps : Parameters) (v : Value) :
    (ps.push v).entries = ps.entries ++ [(name ps.size, v)] := by
  simp [push, entries, size, List.zipIdx_append]

/-! ## Values under their placeholders -/

theorem toList_name (i : Nat) : (name i).toList = '@' :: 'p' :: Numeral.ofNat i := by
  simp [name]

theorem mem_name {i : Nat} {c : Char} (h : c ∈ (name i).toList) :
    c = '@' ∨ c = 'p' ∨ c.isDigit = true := by
  rw [toList_name, List.mem_cons, List.mem_cons] at h
  exact h.imp_right fun h => h.imp_right Numeral.isDigit_of_mem_ofNat

theorem name_inj {i j : Nat} (h : name i = name j) : i = j := by
  have hlist := congrArg String.toList h
  rw [toList_name, toList_name] at hlist
  exact Numeral.ofNat_inj (List.cons.inj (List.cons.inj hlist).2).2

/-- Among values bound after `k` others. -/
theorem find?_name (vs : List Value) (k i : Nat) :
    (((vs.zipIdx k).map fun (v, i) => (name i, v)).find? fun entry =>
      entry.1 == name (k + i)).map Prod.snd = vs[i]? := by
  induction vs generalizing k i with
  | nil => rfl
  | cons v rest ih =>
    rw [List.zipIdx_cons, List.map_cons]
    cases i with
    | zero =>
      rw [List.find?_cons_of_pos (by simp)]
      rfl
    | succ i =>
      have hne : name k ≠ name (k + (i + 1)) := fun h => by
        have := name_inj h
        omega
      rw [List.find?_cons_of_neg (by simpa using hne), List.getElem?_cons_succ, ← ih (k + 1) i,
        show k + 1 + i = k + (i + 1) by omega]

/-- A placeholder stands for the value bound with it. -/
theorem get?_name (ps : Parameters) (i : Nat) : ps.get? (name i) = ps.values[i]? := by
  have h := find?_name ps.values.toList 0 i
  rw [Nat.zero_add, Array.getElem?_toList] at h
  exact h

/-- Nothing but placeholders is found. -/
theorem exists_name_of_get? {ps : Parameters} {placeholder : String} {v : Value}
    (h : ps.get? placeholder = some v) : ∃ i, placeholder = name i := by
  obtain ⟨entry, hfind, -⟩ := Option.map_eq_some_iff.mp h
  have hname := List.find?_some hfind
  obtain ⟨⟨w, i⟩, -, rfl⟩ := List.mem_map.mp (List.mem_of_find?_eq_some hfind)
  exact ⟨i, (beq_iff_eq.mp hname).symm⟩

end Parameters
end BoundSql
