import BoundSql.Json
import BoundSql.Proofs.Number.Reading

/-
JSON documents told from their texts.

The texts are told apart from the left: the first character shows the variant, a
string runs to the first quote that is not escaped, and a number to the first
character that can be in none.  So the main statement, `text_inj`, is about a
text with more after it, and its induction goes through the lists of a document
together with the document.
-/

namespace BoundSql
namespace Json

/-! ## Strings -/

/-- One character of a string and what follows it. -/
def readChar? : List Char → Option (Char × List Char)
  | '\\' :: '"' :: rest => some ('"', rest)
  | '\\' :: '\\' :: rest => some ('\\', rest)
  | '\\' :: 'b' :: rest => some ('\x08', rest)
  | '\\' :: 'f' :: rest => some ('\x0c', rest)
  | '\\' :: 'n' :: rest => some ('\n', rest)
  | '\\' :: 'r' :: rest => some ('\r', rest)
  | '\\' :: 't' :: rest => some ('\t', rest)
  | '\\' :: 'u' :: rest =>
    (Numeral.hexValue? 0 (rest.take 4)).map fun n => (Char.ofNat n, rest.drop 4)
  | c :: rest => some (c, rest)
  | [] => none

/-- A character that needs no escape is read as it stands. -/
theorem readChar?_of_ne {c : Char} (h : c ≠ '\\') (rest : List Char) :
    readChar? (c :: rest) = some (c, rest) := by
  unfold readChar?
  split <;> simp_all

theorem readChar?_stringChar (c : Char) (rest : List Char) :
    readChar? (stringChar c ++ rest) = some (c, rest) := by
  have hhex : ∀ n : Fin 32, Numeral.hexValue? 0 (Numeral.hex 4 n) = some n.val := by decide
  unfold stringChar
  split
  any_goals rfl
  rename_i hquote hslash _ _ _ _ _
  split
  · rename_i hc
    have hlength : (Numeral.hex 4 c.toNat).length = 4 := Numeral.length_hex 4 _
    show (Numeral.hexValue? 0 ((Numeral.hex 4 c.toNat ++ rest).take 4)).map
      (fun n => (Char.ofNat n, (Numeral.hex 4 c.toNat ++ rest).drop 4)) = some (c, rest)
    rw [List.take_left' hlength, List.drop_left' hlength, hhex ⟨c.toNat, hc⟩, Option.map_some,
      Char.ofNat_toNat]
  · exact readChar?_of_ne hslash rest

/-- No character of a string begins like its end. -/
theorem stringChar_eq_cons (c : Char) : ∃ d rest, stringChar c = d :: rest ∧ d ≠ '"' := by
  unfold stringChar
  split
  any_goals exact ⟨'\\', _, rfl, by decide⟩
  rename_i hquote _ _ _ _ _ _
  split
  · exact ⟨'\\', _, rfl, by decide⟩
  · exact ⟨c, [], rfl, hquote⟩

theorem stringBody_inj {s t x y : List Char}
    (h : s.flatMap stringChar ++ '"' :: x = t.flatMap stringChar ++ '"' :: y) :
    s = t ∧ x = y := by
  have hend (c : Char) (u v w : List Char) : '"' :: u ≠ stringChar c ++ v ++ w := by
    obtain ⟨d, rest, hd, hne⟩ := stringChar_eq_cons c
    rw [hd]
    exact fun h => hne (List.cons.inj h).1.symm
  induction s generalizing t with
  | nil =>
    cases t with
    | nil => exact ⟨rfl, (List.cons.inj h).2⟩
    | cons d t => exact absurd h (hend d _ _ _)
  | cons c s ih =>
    cases t with
    | nil => exact absurd h.symm (hend c _ _ _)
    | cons d t =>
      rw [List.flatMap_cons, List.flatMap_cons, List.append_assoc, List.append_assoc] at h
      have hread := congrArg readChar? h
      rw [readChar?_stringChar, readChar?_stringChar] at hread
      obtain ⟨rfl, hrest⟩ := Prod.mk.inj (Option.some.inj hread)
      obtain ⟨rfl, hxy⟩ := ih hrest
      exact ⟨rfl, hxy⟩

theorem stringText_inj {s t : String} {x y : List Char}
    (h : stringText s ++ x = stringText t ++ y) : s = t ∧ x = y := by
  simp only [stringText, List.cons_append, List.append_assoc] at h
  obtain ⟨hs, hxy⟩ := stringBody_inj (List.cons.inj h).2
  exact ⟨String.toList_inj.mp hs, hxy⟩

/-! ## Numbers -/

open Layout (isNumberChar isNumberChar_of_mem_ofInt isNumberChar_of_mem_finiteText)

theorem Number.isNumberChar_of_mem_text {n : Number} {c : Char} (h : c ∈ n.text) :
    isNumberChar c = true := by
  cases n with
  | integer n => exact isNumberChar_of_mem_ofInt h
  | float x => exact isNumberChar_of_mem_finiteText h

theorem Number.text_injective : Function.Injective Number.text := by
  have hmark (n : Int) (x : Double.Finite) : Numeral.ofInt n ≠ Layout.json.finiteText x := by
    intro h
    have hkept : Layout.json.keepsPoint = true := rfl
    rcases Layout.mark_mem_finiteText hkept x with hm | hm
    · rw [← h] at hm
      exact absurd (Numeral.mem_ofInt hm) (by decide)
    · rw [← h] at hm
      exact absurd (Numeral.mem_ofInt hm) (by decide)
  intro m n h
  cases m with
  | integer m =>
    cases n with
    | integer n => rw [Numeral.ofInt_inj h]
    | float y => exact absurd h (hmark m y)
  | float x =>
    cases n with
    | integer n => exact absurd h.symm (hmark n x)
    | float y => rw [Layout.json.finiteText_injective h]

theorem Number.text_eq_cons (n : Number) :
    ∃ c rest, n.text = c :: rest ∧ (c = '-' ∨ c.isDigit = true) := by
  cases n with
  | integer n =>
    obtain ⟨c, rest, hc⟩ := List.exists_cons_of_ne_nil (Numeral.ofInt_ne_nil n)
    exact ⟨c, rest, hc, Numeral.mem_ofInt (hc ▸ List.mem_cons_self)⟩
  | float x => exact Layout.json.finiteText_eq_cons x

/-- What follows does not go on with a number. -/
def EndsNumber (x : List Char) : Prop :=
  ∀ c, x.head? = some c → isNumberChar c = false

theorem Number.text_append_inj {m n : Number} {x y : List Char} (hx : EndsNumber x)
    (hy : EndsNumber y) (h : m.text ++ x = n.text ++ y) : m = n ∧ x = y := by
  have htake {k : Number} {z : List Char} (hz : EndsNumber z) :
      (k.text ++ z).takeWhile isNumberChar = k.text := by
    rw [List.takeWhile_append_of_pos fun c => isNumberChar_of_mem_text]
    cases z with
    | nil => simp
    | cons c z => rw [List.takeWhile_cons_of_neg (by simp [hz c rfl]), List.append_nil]
  have htext : m.text = n.text := by rw [← htake hx, h, htake hy]
  rw [htext] at h
  exact ⟨text_injective htext, List.append_cancel_left h⟩

/-! ## Documents -/

/-- The variant of a document. -/
def variant : Json → Nat
  | .null => 0
  | .bool _ => 1
  | .number _ => 2
  | .string _ => 3
  | .array _ => 4
  | .object _ => 5

/-- The variant that a first character shows, if it can begin a document. -/
def variantOf : Char → Option Nat
  | 'n' => some 0
  | 't' => some 1
  | 'f' => some 1
  | '"' => some 3
  | '[' => some 4
  | '\x7b' => some 5
  | c => if c = '-' ∨ c.isDigit then some 2 else none

theorem text_eq_cons (a : Json) : ∃ c rest, a.text = c :: rest ∧ variantOf c = some a.variant := by
  cases a with
  | null => exact ⟨'n', _, rfl, rfl⟩
  | bool b =>
    cases b with
    | true => exact ⟨'t', _, rfl, rfl⟩
    | false => exact ⟨'f', _, rfl, rfl⟩
  | number n =>
    obtain ⟨c, rest, hc, hd⟩ := n.text_eq_cons
    refine ⟨c, rest, hc, ?_⟩
    unfold variantOf
    split
    case h_7 => exact if_pos hd
    all_goals exact absurd hd (by decide)
  | string s => exact ⟨'"', _, rfl, rfl⟩
  | array items => exact ⟨'[', _, rfl, rfl⟩
  | object members => exact ⟨'\x7b', _, rfl, rfl⟩

theorem variant_eq {a b : Json} {x y : List Char} (h : a.text ++ x = b.text ++ y) :
    a.variant = b.variant := by
  obtain ⟨c, rest, ha, hc⟩ := a.text_eq_cons
  obtain ⟨d, others, hb, hd⟩ := b.text_eq_cons
  rw [ha, hb] at h
  rw [← Option.some_inj, ← hc, ← hd, (List.cons.inj h).1]

theorem text_append_ne_close (a : Json) (x y : List Char) : a.text ++ x ≠ ']' :: y := by
  obtain ⟨c, rest, ha, hc⟩ := a.text_eq_cons
  rw [ha]
  intro h
  rw [(List.cons.inj h).1] at hc
  cases hc

/-- The items after the first, each after its comma, and the closing mark. -/
def restText (close : Char) (texts : List (List Char)) : List Char :=
  texts.flatMap (',' :: ·) ++ [close]

theorem restText_cons (close : Char) (text : List Char) (rest : List (List Char)) :
    restText close (text :: rest) = ',' :: text ++ restText close rest := by
  simp [restText]

theorem endsNumber_restText {close : Char} (hclose : isNumberChar close = false)
    (texts : List (List Char)) (x : List Char) : EndsNumber (restText close texts ++ x) := by
  cases texts with
  | nil => rintro c ⟨⟩; exact hclose
  | cons text rest => rintro c ⟨⟩; rfl

theorem text_array_cons (item : Json) (rest : List Json) :
    (Json.array (item :: rest)).text = '[' :: item.text ++ restText ']' (itemTexts rest) := by
  rw [text, itemTexts, intercalate_comma, List.cons_append, List.append_assoc]
  rfl

theorem text_object_cons (name : String) (value : Json) (rest : List (String × Json)) :
    (Json.object ((name, value) :: rest)).text =
      '\x7b' :: stringText name ++ ':' :: value.text ++ restText '\x7d' (memberTexts rest) := by
  rw [text, memberTexts, intercalate_comma]
  simp [restText]

mutual

/-- Documents are told from the texts that begin with theirs. -/
theorem text_inj (a b : Json) {x y : List Char} (hx : EndsNumber x) (hy : EndsNumber y)
    (h : a.text ++ x = b.text ++ y) : a = b ∧ x = y := by
  have hv := variant_eq h
  cases a with
  | null =>
    cases b with
    | null => exact ⟨rfl, List.append_cancel_left h⟩
    | _ => cases hv
  | bool v =>
    cases b with
    | bool w =>
      cases v with
      | true =>
        cases w with
        | true => exact ⟨rfl, List.append_cancel_left h⟩
        | false => simp [text, boolText] at h
      | false =>
        cases w with
        | true => simp [text, boolText] at h
        | false => exact ⟨rfl, List.append_cancel_left h⟩
    | _ => cases hv
  | number m =>
    cases b with
    | number n =>
      obtain ⟨rfl, hxy⟩ := Number.text_append_inj hx hy h
      exact ⟨rfl, hxy⟩
    | _ => cases hv
  | string s =>
    cases b with
    | string t =>
      obtain ⟨rfl, hxy⟩ := stringText_inj h
      exact ⟨rfl, hxy⟩
    | _ => cases hv
  | array items =>
    cases b with
    | array others =>
      cases items with
      | nil =>
        cases others with
        | nil => exact ⟨rfl, List.append_cancel_left h⟩
        | cons other others =>
          rw [text_array_cons, List.append_assoc] at h
          exact absurd (List.cons.inj h).2.symm (text_append_ne_close other _ _)
      | cons item items =>
        cases others with
        | nil =>
          rw [text_array_cons, List.append_assoc] at h
          exact absurd (List.cons.inj h).2 (text_append_ne_close item _ _)
        | cons other others =>
          rw [text_array_cons, text_array_cons, List.append_assoc, List.append_assoc] at h
          obtain ⟨rfl, hrest⟩ := text_inj item other (endsNumber_restText rfl _ _)
            (endsNumber_restText rfl _ _) (List.cons.inj h).2
          obtain ⟨rfl, hxy⟩ := items_inj items others hrest
          exact ⟨rfl, hxy⟩
    | _ => cases hv
  | object members =>
    cases b with
    | object others =>
      cases members with
      | nil =>
        cases others with
        | nil => exact ⟨rfl, List.append_cancel_left h⟩
        | cons other others =>
          obtain ⟨name, value⟩ := other
          rw [text_object_cons] at h
          exact absurd (List.cons.inj (List.cons.inj h).2).1 (by decide)
      | cons member members =>
        obtain ⟨name, value⟩ := member
        cases others with
        | nil =>
          rw [text_object_cons] at h
          exact absurd (List.cons.inj (List.cons.inj h).2).1 (by decide)
        | cons other others =>
          obtain ⟨name', value'⟩ := other
          simp only [text_object_cons, List.append_assoc, List.cons_append] at h
          obtain ⟨rfl, hvalue⟩ := stringText_inj (List.cons.inj h).2
          obtain ⟨rfl, hrest⟩ := text_inj value value' (endsNumber_restText rfl _ _)
            (endsNumber_restText rfl _ _) (List.cons.inj hvalue).2
          obtain ⟨rfl, hxy⟩ := members_inj members others hrest
          exact ⟨rfl, hxy⟩
    | _ => cases hv
  termination_by structural a

theorem items_inj (items others : List Json) {x y : List Char}
    (h : restText ']' (itemTexts items) ++ x = restText ']' (itemTexts others) ++ y) :
    items = others ∧ x = y := by
  cases items with
  | nil =>
    cases others with
    | nil => exact ⟨rfl, List.append_cancel_left h⟩
    | cons other others => exact absurd (List.cons.inj h).1 (by decide)
  | cons item items =>
    cases others with
    | nil => exact absurd (List.cons.inj h).1 (by decide)
    | cons other others =>
      simp only [itemTexts, restText_cons, List.append_assoc, List.cons_append] at h
      obtain ⟨rfl, hrest⟩ := text_inj item other (endsNumber_restText rfl _ _)
        (endsNumber_restText rfl _ _) (List.cons.inj h).2
      obtain ⟨rfl, hxy⟩ := items_inj items others hrest
      exact ⟨rfl, hxy⟩
  termination_by structural items

theorem members_inj (members others : List (String × Json)) {x y : List Char}
    (h : restText '\x7d' (memberTexts members) ++ x =
      restText '\x7d' (memberTexts others) ++ y) : members = others ∧ x = y := by
  cases members with
  | nil =>
    cases others with
    | nil => exact ⟨rfl, List.append_cancel_left h⟩
    | cons other others => exact absurd (List.cons.inj h).1 (by decide)
  | cons member members =>
    obtain ⟨name, value⟩ := member
    cases others with
    | nil => exact absurd (List.cons.inj h).1 (by decide)
    | cons other others =>
      obtain ⟨name', value'⟩ := other
      simp only [memberTexts, restText_cons, List.append_assoc, List.cons_append] at h
      obtain ⟨rfl, hvalue⟩ := stringText_inj (List.cons.inj h).2
      obtain ⟨rfl, hrest⟩ := text_inj value value' (endsNumber_restText rfl _ _)
        (endsNumber_restText rfl _ _) (List.cons.inj hvalue).2
      obtain ⟨rfl, hxy⟩ := members_inj members others hrest
      exact ⟨rfl, hxy⟩
  termination_by structural members

end

theorem text_injective : Function.Injective text := fun a b h => by
  have hend : EndsNumber [] := fun c hc => by cases hc
  exact (text_inj a b hend hend (by rw [h])).1

end Json
end BoundSql
