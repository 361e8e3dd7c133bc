/-
Where a text can be cut.

A reader goes through a text from state to state and stops at a character that it
does not expect.  If it does not expect some mark in its last state, then only one
of the beginnings of a text is read to that state and has the mark after it: this
is `cut_unique`.  The states of a reader are what it knows of quoted parts, in
which marks stand for themselves.
-/

namespace BoundSql

abbrev Reader (σ : Type) := σ → Char → Option σ

namespace Reader

variable {σ : Type} (r : Reader σ)

/-- The text is read to its end. -/
def Reads (start : σ) (cs : List Char) (stop : σ) : Prop :=
  cs.foldlM r start = some stop

variable {r} {start stop : σ}

theorem reads_cons {c : Char} {cs : List Char} :
    r.Reads start (c :: cs) stop ↔ ∃ next, r start c = some next ∧ r.Reads next cs stop := by
  simp only [Reads, List.foldlM_cons, Option.bind_eq_bind, Option.bind_eq_some_iff]

theorem reads_append {a b : List Char} :
    r.Reads start (a ++ b) stop ↔ ∃ middle, r.Reads start a middle ∧ r.Reads middle b stop := by
  simp only [Reads, List.foldlM_append, Option.bind_eq_bind, Option.bind_eq_some_iff]

theorem Reads.append {middle : σ} {a b : List Char} (ha : r.Reads start a middle)
    (hb : r.Reads middle b stop) : r.Reads start (a ++ b) stop :=
  reads_append.mpr ⟨middle, ha, hb⟩

/-- Characters that change nothing are read. -/
theorem reads_of_forall {s : σ} {cs : List Char} (h : ∀ c ∈ cs, r s c = some s) :
    r.Reads s cs s := by
  induction cs with
  | nil => rfl
  | cons c cs ih =>
    exact reads_cons.mpr ⟨s, h c List.mem_cons_self, ih fun d hd => h d (List.mem_cons_of_mem c hd)⟩

variable {mark : Char} (hmark : r stop mark = none)
include hmark

/-- No text that is read to the end goes on after another one and a mark. -/
theorem Reads.ne_append_mark {a b x : List Char} (ha : r.Reads start a stop)
    (hb : r.Reads start b stop) : a ≠ b ++ mark :: x := by
  intro heq
  subst heq
  unfold Reads at ha hb
  rw [List.foldlM_append, hb] at ha
  simp [hmark] at ha

theorem Reads.cut_unique {a b x y : List Char} (ha : r.Reads start a stop)
    (hb : r.Reads start b stop) (h : a ++ mark :: x = b ++ mark :: y) : a = b ∧ x = y := by
  rw [List.append_eq_append_iff] at h
  rcases h with ⟨between, hbetween, hx⟩ | ⟨between, hbetween, hy⟩
  · cases between with
    | nil => exact ⟨by rw [hbetween, List.append_nil], (List.cons.inj hx).2⟩
    | cons c between =>
      rw [← (List.cons.inj hx).1] at hbetween
      exact absurd hbetween (hb.ne_append_mark hmark ha)
  · cases between with
    | nil => exact ⟨by rw [hbetween, List.append_nil], (List.cons.inj hy).2.symm⟩
    | cons c between =>
      rw [← (List.cons.inj hy).1] at hbetween
      exact absurd hbetween (ha.ne_append_mark hmark hb)

end Reader

/-- In a list with commas, each text but the first comes after its comma. -/
theorem intercalate_comma (text : List Char) (rest : List (List Char)) :
    [','].intercalate (text :: rest) = text ++ rest.flatMap (',' :: ·) := by
  induction rest generalizing text with
  | nil => simp
  | cons next rest ih => rw [List.intercalate_cons_cons, ih next]; simp

/-- A text is cut in one way at the first place where a mark stands. -/
theorem cut_unique_of_not_mem {mark : Char} {a b x y : List Char} (ha : mark ∉ a) (hb : mark ∉ b)
    (h : a ++ mark :: x = b ++ mark :: y) : a = b ∧ x = y := by
  let r : Reader Unit := fun _ c => if c = mark then none else some ()
  have hreads {cs : List Char} (hcs : mark ∉ cs) : r.Reads () cs () := by
    refine Reader.reads_of_forall fun c hc => if_neg ?_
    intro heq
    subst heq
    exact hcs hc
  exact (hreads ha).cut_unique (if_pos rfl) (hreads hb) h

end BoundSql
