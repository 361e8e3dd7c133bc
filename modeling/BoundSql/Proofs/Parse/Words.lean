import BoundSql.Proofs.Parse.Grammar

/-
Words, types and limits are read back.

A rule that reads with fuel has a result once there is enough of it.  Texts are
found where they stand, and a word ends at the first character that is no
capital; so the arguments of a type and a row limit are read as they were
written.
-/

namespace BoundSql

open BoundSql.Symbol (ofText)

/-! ## Reading with enough fuel -/

namespace Parse

/-- With enough fuel the result is this one. -/
def Eventually {α : Type} (p : Nat → Option α) (a : α) : Prop :=
  ∃ least, ∀ fuel, least ≤ fuel → p fuel = some a

section
variable {α β : Type} {p : Nat → Option α} {a : α}

theorem eventually_some (a : α) : Eventually (fun _ => some a) a :=
  ⟨0, fun _ _ => rfl⟩

theorem Eventually.bind {f : Nat → α → Option β} {b : β} (hp : Eventually p a)
    (hf : Eventually (fun fuel => f fuel a) b) :
    Eventually (fun fuel => (p fuel).bind (f fuel)) b := by
  obtain ⟨m, hm⟩ := hp
  obtain ⟨n, hn⟩ := hf
  refine ⟨max m n, fun fuel hfuel => ?_⟩
  show (p fuel).bind (f fuel) = some b
  rw [hm fuel (by omega)]
  exact hn fuel (by omega)

/-- One unit of fuel goes to the rule itself. -/
theorem Eventually.succ (h : Eventually (fun fuel => p (fuel + 1)) a) : Eventually p a := by
  obtain ⟨n, hn⟩ := h
  refine ⟨n + 1, fun fuel hfuel => ?_⟩
  obtain ⟨m, rfl⟩ : ∃ m, fuel = m + 1 := ⟨fuel - 1, by omega⟩
  exact hn m (by omega)

theorem Eventually.unique {b : α} (ha : Eventually p a) (hb : Eventually p b) : a = b := by
  obtain ⟨m, hm⟩ := ha
  obtain ⟨n, hn⟩ := hb
  have h := hm (max m n) (by omega)
  rw [hn (max m n) (by omega)] at h
  exact (Option.some.inj h).symm

end

/-! ## Texts and words -/

theorem after?_map (cs : List Char) (s : List Symbol) :
    after? cs (cs.map Symbol.char ++ s) = some s := by
  induction cs with
  | nil => rfl
  | cons c cs ih => rw [List.map_cons, List.cons_append, after?, if_pos rfl, ih]

@[simp] theorem text?_ofText (text : String) (s : List Symbol) :
    text? text (ofText text ++ s) = some s :=
  after?_map text.toList s

theorem ofText_append (a b : String) : ofText (a ++ b) = ofText a ++ ofText b := by
  simp [ofText]

theorem operator?_ofText (op : BinaryOp) (s : List Symbol) :
    operator? (ofText (" " ++ op.sql ++ " ") ++ s) = some (op, s) := by
  cases op <;> rfl

theorem text?_in_operator (op : BinaryOp) (s : List Symbol) :
    text? " in (" (ofText (" " ++ op.sql ++ " ") ++ s) = none := by
  cases op <;> rfl

/-- A text that begins with a clause does not begin like what the clause is not. -/
theorem text?_clause {text lead : String} (h : ∀ s, text? text (ofText lead ++ s) = none)
    {s : List Symbol} (hs : text? text s = none) (sep : String) (fs : List Fragment) :
    text? text ((Fragment.clause lead sep fs).symbols ++ s) = none := by
  cases fs with
  | nil => exact hs
  | cons f rest =>
    rw [Fragment.clause, Fragment.symbols_text, List.append_assoc]
    · exact h _
    · exact List.cons_ne_nil f rest

/-- Whether a word that comes before would go on. -/
def continues : List Symbol → Bool
  | .char c :: _ => isCapital c
  | _ => false

theorem word_of_not_continues {s : List Symbol} (hs : continues s = false) :
    word s = ([], s) := by
  cases s with
  | nil => rfl
  | cons x rest =>
    cases x with
    | char c =>
      rw [continues] at hs
      rw [word, hs]
      rfl
    | name n => rfl
    | value v => rfl

theorem word_map {cs : List Char} (h : ∀ c ∈ cs, isCapital c = true) {s : List Symbol}
    (hs : continues s = false) : word (cs.map Symbol.char ++ s) = (cs, s) := by
  induction cs with
  | nil => exact word_of_not_continues hs
  | cons c cs ih =>
    rw [List.map_cons, List.cons_append, word, if_pos (h c List.mem_cons_self),
      ih fun d hd => h d (List.mem_cons_of_mem c hd)]

/-! ## Types and limits -/

theorem isCapital_of_isDigit {c : Char} (h : c.isDigit = true) : isCapital c = true := by
  simp [isCapital, h]

theorem argument_text (a : TypeArgument) : argument a.text = a := by
  cases a with
  | max => rfl
  | number n =>
    have hne : TypeArgument.text (.number n) ≠ ['M', 'A', 'X'] := by
      intro h
      have hm : 'M' ∈ Numeral.ofNat n.toNat := by
        rw [TypeArgument.text] at h
        rw [h]
        decide
      exact absurd (Numeral.isDigit_of_mem_ofNat hm) (by decide)
    rw [argument, if_neg hne, TypeArgument.text, Numeral.number_ofNat, UInt32.ofNat_toNat]

theorem isCapital_of_mem_argument {a : TypeArgument} {c : Char} (h : c ∈ a.text) :
    isCapital c = true := by
  cases a with
  | max =>
    have hall : ∀ d ∈ ['M', 'A', 'X'], isCapital d = true := List.all_eq_true.mp rfl
    exact hall c h
  | number n => exact isCapital_of_isDigit (Numeral.isDigit_of_mem_ofNat h)

theorem arguments?_ofText (a : TypeArgument) (rest : List TypeArgument) (s : List Symbol) :
    Eventually (fun fuel => arguments? fuel
      (([',', ' '].intercalate ((a :: rest).map TypeArgument.text)).map Symbol.char ++
        (ofText ")" ++ s))) (a :: rest, s) := by
  induction rest generalizing a with
  | nil =>
    refine .succ ?_
    have hword := word_map (fun c => isCapital_of_mem_argument (a := a)) (s := ofText ")" ++ s) rfl
    simp only [List.map_cons, List.map_nil, List.intercalate_singleton, arguments?, hword]
    exact ⟨0, fun _ _ => by rw [argument_text]; rfl⟩
  | cons next rest ih =>
    refine .succ ?_
    have hsplit : ([',', ' '].intercalate ((a :: next :: rest).map TypeArgument.text)).map
        Symbol.char ++ (ofText ")" ++ s) = a.text.map Symbol.char ++ (ofText ", " ++
          (([',', ' '].intercalate ((next :: rest).map TypeArgument.text)).map Symbol.char ++
            (ofText ")" ++ s))) := by
      simp [ofText]
    have hword := word_map (fun c => isCapital_of_mem_argument (a := a))
      (s := ofText ", " ++ (([',', ' '].intercalate ((next :: rest).map TypeArgument.text)).map
        Symbol.char ++ (ofText ")" ++ s))) rfl
    simp only [hsplit, arguments?, hword, text?_ofText]
    refine (ih next).bind ?_
    rw [argument_text]
    exact eventually_some _

theorem keyword_capitals (t : SqlType) : ∀ c ∈ t.keyword.toList, isCapital c = true := by
  cases t <;> exact List.all_eq_true.mp rfl

theorem find?_keyword (t : SqlType) :
    SqlType.all.find? (·.keyword.toList == t.keyword.toList) = some t := by
  cases t <;> rfl

theorem type?_ofText (t : DataType) (s : List Symbol) :
    Eventually (fun fuel => type? fuel (ofText t.sql ++ (ofText ")" ++ s)))
      (t, ofText ")" ++ s) := by
  obtain ⟨type, arguments⟩ := t
  cases arguments with
  | nil =>
    have hword := word_map (keyword_capitals type) (s := ofText ")" ++ s) rfl
    have hsplit : ofText (DataType.sql ⟨type, []⟩) = type.keyword.toList.map Symbol.char := rfl
    simp only [hsplit, type?, hword, find?_keyword]
    exact eventually_some _
  | cons a rest =>
    have hsplit : ofText (DataType.sql ⟨type, a :: rest⟩) ++ (ofText ")" ++ s) =
        type.keyword.toList.map Symbol.char ++ (ofText "(" ++
          (([',', ' '].intercalate ((a :: rest).map TypeArgument.text)).map Symbol.char ++
            (ofText ")" ++ (ofText ")" ++ s)))) := by
      simp [DataType.sql, ofText]
    have hword := word_map (keyword_capitals type)
      (s := ofText "(" ++ (([',', ' '].intercalate ((a :: rest).map TypeArgument.text)).map
        Symbol.char ++ (ofText ")" ++ (ofText ")" ++ s)))) rfl
    simp only [hsplit, type?, hword, find?_keyword, text?_ofText]
    exact (arguments?_ofText a rest (ofText ")" ++ s)).bind (eventually_some _)

theorem limit?_limitFragment (limit : UInt64) {s : List Symbol} (hs : text? "top " s = none) :
    limit? ((Select.limitFragment limit).symbols ++ s) = some (limit, s) := by
  unfold Select.limitFragment
  split
  · rename_i hzero
    rw [hzero, Fragment.symbols_nil, List.nil_append, limit?, hs]
  · have hsplit : Fragment.symbols
        [.text (String.ofList ("top ".toList ++ Numeral.ofNat limit.toNat ++ [' ']))] ++ s =
        ofText "top " ++ ((Numeral.ofNat limit.toNat).map Symbol.char ++ (ofText " " ++ s)) := by
      simp [ofText]
    have hword := word_map
      (fun c hc => isCapital_of_isDigit (Numeral.isDigit_of_mem_ofNat (n := limit.toNat) hc))
      (s := ofText " " ++ s) rfl
    simp only [hsplit, limit?, text?_ofText, hword, Numeral.number_ofNat, UInt64.ofNat_toNat]
    rfl

end Parse

end BoundSql
