import BoundSql.Proofs.Leaves
import BoundSql.Proofs.Tidy

/-
What a statement is built into.

A statement is built exactly if its fragment has no fault.  Then its text is that
of its symbols and its parameters are its literals, so all that is said about
written symbols holds of built statements.
-/

namespace BoundSql

namespace Statement

open BoundSql.Symbol

def symbols (s : Statement) : List Symbol :=
  s.fragment.symbols

theorem build_of_fault {s : Statement} {f : Fault} (h : s.fragment.fault? = some f) :
    s.build = .error (.unwritable f) := by
  have hsnd := Fragment.write_snd s.fragment ⟨"", .empty⟩
  cases hw : Fragment.write ⟨"", .empty⟩ s.fragment with
  | mk out stopped =>
    rw [hw, h] at hsnd
    dsimp only at hsnd
    subst hsnd
    simp [build, Fragment.render, hw]

/-- A statement without a fault is built, and this is what it is built into. -/
theorem build_of_no_fault {s : Statement} (h : s.fragment.fault? = none) :
    s.build = .ok ⟨s.kind, String.ofList (spell 0 s.symbols), ⟨s.fragment.bound.toArray⟩⟩ := by
  have hsnd := Fragment.write_snd s.fragment ⟨"", .empty⟩
  have hsql := Fragment.toList_write h ⟨"", .empty⟩
  have hvalues := Fragment.values_write s.fragment ⟨"", .empty⟩
  cases hw : Fragment.write ⟨"", .empty⟩ s.fragment with
  | mk out stopped =>
    rw [hw] at hsnd hsql hvalues
    rw [h] at hsnd
    dsimp only at hsnd hsql hvalues
    subst hsnd
    have hout : out.sql = String.ofList (spell 0 s.symbols) := by
      rw [← String.toList_inj, hsql]
      simp [symbols, Parameters.empty, Parameters.size]
    have hparams : out.params = ⟨s.fragment.bound.toArray⟩ := by
      have : out.params.values = s.fragment.bound.toArray := by
        rw [← Array.toList_inj, hvalues]
        simp [Parameters.empty]
      rw [← this]
    simp [build, Fragment.render, hw, hout, hparams]

theorem fault?_of_build {s : Statement} {b : Built} (h : s.build = .ok b) :
    s.fragment.fault? = none := by
  cases hf : s.fragment.fault? with
  | none => rfl
  | some f => rw [build_of_fault hf] at h; cases h

/-- The values stand in the order of the literals. -/
theorem values_symbols {s : Statement} (h : s.fragment.fault? = none) :
    Symbol.values s.symbols = s.literals := by
  rw [symbols, Fragment.values_symbols h, Fragment.bound_eq_literals h, leaves_fragment h]
  rfl

variable {s : Statement} {b : Built} (h : s.build = .ok b)
include h

theorem build_eq :
    b = ⟨s.kind, String.ofList (spell 0 s.symbols), ⟨s.fragment.bound.toArray⟩⟩ :=
  Except.ok.inj (h.symm.trans (build_of_no_fault (fault?_of_build h)))

theorem toList_sql_of_build : b.sql.toList = spell 0 s.symbols := by
  rw [build_eq h, String.toList_ofList]

/-- The values are bound in the order of the literals. -/
theorem values_of_build : b.params.values.toList = s.literals := by
  have hfault := fault?_of_build h
  rw [build_eq h, List.toList_toArray, ← Fragment.values_symbols hfault]
  exact values_symbols hfault

/-- The text is read back as the lexemes of the symbols. -/
theorem scan_of_build : Lexeme.scan b.sql = some (lexemes 0 s.symbols) := by
  rw [Lexeme.scan, toList_sql_of_build h]
  exact scanFrom_spell s.tidy_fragment 0

end Statement
end BoundSql
