import BoundSql.Parameters
import BoundSql.Proofs.Calendar
import BoundSql.Proofs.Json

/-
Values told from their keys, and parameters from their serialization.

A key shows its variant by its first two characters, and after them stands a text
that is told from any other of the variant.  In a serialization an at sign
outside strings is always the first character of an entry, so it is cut into its
entries, and each of these at its first equals sign.  The main statements are
`Value.keyText_injective` and `Parameters.serialize_injective`.
-/

namespace BoundSql

/-! ## Composed texts -/

/-- A character that is no mark of an entry and has no part in the quoting of strings. -/
def IsBare (c : Char) : Prop :=
  c ≠ '"' ∧ c ≠ '\\' ∧ c ≠ '@'

instance (c : Char) : Decidable (IsBare c) :=
  inferInstanceAs (Decidable (_ ∧ _))

/-- A text put together from strings of JSON and bare characters. -/
inductive Composed : List Char → Prop
  | nil : Composed []
  | char {c : Char} {cs : List Char} (hc : IsBare c) (hcs : Composed cs) : Composed (c :: cs)
  | string (s : String) {cs : List Char} (hcs : Composed cs) :
      Composed (Json.stringText s ++ cs)

theorem Composed.append {a b : List Char} (ha : Composed a) (hb : Composed b) :
    Composed (a ++ b) := by
  induction ha with
  | nil => exact hb
  | char hc _ ih => exact .char hc ih
  | string s _ ih =>
    rw [List.append_assoc]
    exact .string s ih

theorem composed_of_forall {cs : List Char} (h : ∀ c ∈ cs, IsBare c) : Composed cs := by
  induction cs with
  | nil => exact .nil
  | cons c cs ih =>
    exact .char (h c List.mem_cons_self) (ih fun d hd => h d (List.mem_cons_of_mem c hd))

theorem composed_of_token {cs : List Char} (h : ∀ c ∈ cs, isTokenChar c = true) :
    Composed cs :=
  composed_of_forall fun c hc => by
    have hne {d : Char} (hd : isTokenChar d = false) : c ≠ d := Numeral.ne_of_class (h c hc) hd
    exact ⟨hne rfl, hne rfl, hne rfl⟩

theorem composed_singleton {c : Char} (h : IsBare c) : Composed [c] :=
  .char h .nil

theorem composed_intercalate {texts : List (List Char)} (h : ∀ text ∈ texts, Composed text) :
    Composed ([','].intercalate texts) := by
  induction texts with
  | nil => exact .nil
  | cons text rest ih =>
    have hfirst := h text List.mem_cons_self
    have hrest := ih fun t ht => h t (List.mem_cons_of_mem text ht)
    cases rest with
    | nil => simpa using hfirst
    | cons next rest =>
      rw [List.intercalate_cons_cons]
      exact (hfirst.append (composed_singleton (by decide))).append hrest

namespace Json

theorem composed_stringText (s : String) : Composed (stringText s) := by
  have h := Composed.string s .nil
  rwa [List.append_nil] at h

theorem composed_boolText (b : Bool) : Composed (boolText b) := by
  cases b <;> exact composed_of_token (List.all_eq_true.mp rfl)

mutual

theorem composed_text (a : Json) : Composed a.text := by
  cases a with
  | null => exact composed_of_token (List.all_eq_true.mp rfl)
  | bool b => exact composed_boolText b
  | number n =>
    exact composed_of_token fun c hc =>
      Layout.isTokenChar_of_isNumberChar (Number.isNumberChar_of_mem_text hc)
  | string s => exact composed_stringText s
  | array items =>
    exact .char (by decide) ((composed_intercalate (composed_itemTexts items)).append
      (composed_singleton (by decide)))
  | object members =>
    exact .char (by decide) ((composed_intercalate (composed_memberTexts members)).append
      (composed_singleton (by decide)))
  termination_by structural a

theorem composed_itemTexts (items : List Json) : ∀ text ∈ itemTexts items, Composed text := by
  cases items with
  | nil => exact fun _ h => absurd h List.not_mem_nil
  | cons item rest =>
    intro text h
    rcases List.mem_cons.mp h with rfl | h
    · exact composed_text item
    · exact composed_itemTexts rest text h
  termination_by structural items

theorem composed_memberTexts (members : List (String × Json)) :
    ∀ text ∈ memberTexts members, Composed text := by
  cases members with
  | nil => exact fun _ h => absurd h List.not_mem_nil
  | cons member rest =>
    obtain ⟨name, value⟩ := member
    intro text h
    rcases List.mem_cons.mp h with rfl | h
    · exact (composed_stringText name).append (.char (by decide) (composed_text value))
    · exact composed_memberTexts rest text h
  termination_by structural members

end

end Json

/-! ## Readers of composed texts -/

/-- The reader goes through strings of JSON and keeps outside of them on bare characters. -/
structure FollowsStrings {σ : Type} (r : Reader σ) (Outside : σ → Prop)
    (inside escaped after : σ) : Prop where
  on_bare : ∀ s c, Outside s → IsBare c → ∃ next, r s c = some next ∧ Outside next
  on_quote : ∀ s, Outside s → r s '"' = some inside
  on_inside : ∀ c, r inside c =
    if c = '"' then some after else if c = '\\' then some escaped else some inside
  on_escaped : ∀ c, r escaped c = some inside
  outside_after : Outside after

namespace FollowsStrings

variable {σ : Type} {r : Reader σ} {Outside : σ → Prop} {inside escaped after : σ}
  (hr : FollowsStrings r Outside inside escaped after)
include hr

/-- A character of a string leaves the reader inside. -/
theorem reads_stringChar (c : Char) : r.Reads inside (Json.stringChar c) inside := by
  have hescape (d : Char) : r.Reads inside ['\\', d] inside :=
    Reader.reads_cons.mpr ⟨escaped, hr.on_inside '\\', Reader.reads_cons.mpr
      ⟨inside, hr.on_escaped d, rfl⟩⟩
  have hstay {d : Char} (h : d ≠ '"' ∧ d ≠ '\\') : r inside d = some inside := by
    rw [hr.on_inside, if_neg h.1, if_neg h.2]
  unfold Json.stringChar
  split
  any_goals exact hescape _
  rename_i hquote hslash _ _ _ _ _
  split
  · refine (hescape 'u').append (Reader.reads_of_forall fun d hd => hstay ?_)
    have hhex := Numeral.isAlphanum_of_mem_hex hd
    exact ⟨Numeral.ne_of_class hhex rfl, Numeral.ne_of_class hhex rfl⟩
  · refine Reader.reads_of_forall fun d hd => hstay ?_
    rw [List.mem_singleton.mp hd]
    exact ⟨hquote, hslash⟩

theorem reads_stringText {s : σ} (hs : Outside s) (text : String) :
    r.Reads s (Json.stringText text) after := by
  have hbody (cs : List Char) : r.Reads inside (cs.flatMap Json.stringChar) inside := by
    induction cs with
    | nil => rfl
    | cons c cs ih => exact (hr.reads_stringChar c).append ih
  have hend : r.Reads inside ['"'] after :=
    Reader.reads_cons.mpr ⟨after, hr.on_inside '"', rfl⟩
  exact Reader.reads_cons.mpr ⟨inside, hr.on_quote s hs, (hbody text.toList).append hend⟩

/-- A composed text is read from outside of strings to outside of them. -/
theorem reads_composed {cs : List Char} (hcs : Composed cs) {s : σ} (hs : Outside s) :
    ∃ stop, r.Reads s cs stop ∧ Outside stop := by
  induction hcs generalizing s with
  | nil => exact ⟨s, rfl, hs⟩
  | char hc _ ih =>
    obtain ⟨next, hnext, hout⟩ := hr.on_bare s _ hs hc
    obtain ⟨stop, hstop, hend⟩ := ih hout
    exact ⟨stop, Reader.reads_cons.mpr ⟨next, hnext, hstop⟩, hend⟩
  | string text _ ih =>
    obtain ⟨stop, hstop, hend⟩ := ih hr.outside_after
    exact ⟨stop, (hr.reads_stringText hs text).append hstop, hend⟩

end FollowsStrings

/-! ## Sealed texts -/

/-- Where in a string of JSON a reader is. -/
inductive StringState where
  | outside
  | inside
  | escaped

/-- It reads strings, and no at sign outside them. -/
def stringReader : Reader StringState
  | .outside, c => if c = '"' then some .inside else if c = '@' then none else some .outside
  | .inside, c =>
    if c = '"' then some .outside else if c = '\\' then some .escaped else some .inside
  | .escaped, _ => some .inside

/-- Every string in the text is closed, and no at sign stands outside them. -/
def Sealed (cs : List Char) : Prop :=
  stringReader.Reads .outside cs .outside

theorem Sealed.append {a b : List Char} (ha : Sealed a) (hb : Sealed b) : Sealed (a ++ b) :=
  Reader.Reads.append ha hb

theorem follows_stringReader :
    FollowsStrings stringReader (· = .outside) .inside .escaped .outside where
  on_bare s c hs hc := by
    subst hs
    exact ⟨.outside, by rw [stringReader, if_neg hc.1, if_neg hc.2.2], rfl⟩
  on_quote s hs := by
    subst hs
    rfl
  on_inside _ := rfl
  on_escaped _ := rfl
  outside_after := rfl

theorem Composed.sealed {cs : List Char} (h : Composed cs) : Sealed cs := by
  obtain ⟨stop, hstop, rfl⟩ := follows_stringReader.reads_composed h rfl
  exact hstop

/-! ## Keys of values -/

namespace Value

theorem bytesText_injective : Function.Injective bytesText := by
  intro as bs h
  induction as generalizing bs with
  | nil =>
    cases bs with
    | nil => rfl
    | cons b bs => simp [bytesText, Numeral.hex] at h
  | cons a as ih =>
    cases bs with
    | nil => simp [bytesText, Numeral.hex] at h
    | cons b bs =>
      rw [bytesText, bytesText, List.flatMap_cons, List.flatMap_cons] at h
      obtain ⟨hbyte, hrest⟩ := List.append_inj h (by rw [Numeral.length_hex, Numeral.length_hex])
      rw [UInt8.toNat_inj.mp (Numeral.hex_inj a.toNat_lt b.toNat_lt hbyte), ih hrest]

theorem isTokenChar_of_mem_bytesText {bs : List UInt8} {c : Char} (h : c ∈ bytesText bs) :
    isTokenChar c = true := by
  obtain ⟨b, -, hc⟩ := List.mem_flatMap.mp h
  simp [isTokenChar, Numeral.isAlphanum_of_mem_hex hc]

def variant : Value → Nat
  | null => 0
  | bool _ => 1
  | int _ => 2
  | float _ => 3
  | text _ => 4
  | bytes _ => 5
  | uuid _ => 6
  | timestamp _ => 7
  | date _ => 8
  | json _ => 9
  | decimal _ => 10

/-- The variant that a key shows by its first two characters. -/
def variantOf : List Char → Nat
  | 'n' :: _ => 0
  | 't' :: 'r' :: _ => 1
  | 'f' :: 'a' :: _ => 1
  | 'f' :: ':' :: _ => 3
  | '"' :: _ => 4
  | 'x' :: _ => 5
  | 'u' :: _ => 6
  | 't' :: 's' :: _ => 7
  | 'd' :: _ => 8
  | 'j' :: _ => 9
  | 'm' :: _ => 10
  | _ => 2

theorem variantOf_keyText (v : Value) : variantOf v.keyText = v.variant := by
  cases v with
  | bool b => cases b <;> rfl
  | int n =>
    rw [keyText]
    have hmem := fun c => Numeral.mem_ofInt (n := n.toInt) (c := c)
    cases hn : Numeral.ofInt n.toInt with
    | nil => rfl
    | cons c rest =>
      have hc := hmem c (by rw [hn]; exact List.mem_cons_self)
      unfold variantOf
      split
      case h_12 => rfl
      all_goals
        rename_i heq
        rw [(List.cons.inj heq).1] at hc
        exact absurd hc (by decide)
  | _ => rfl

/-- Values are told from their keys, by variant and by payload. -/
theorem keyText_injective : Function.Injective keyText := by
  intro v w h
  have hv : v.variant = w.variant := by
    rw [← variantOf_keyText, ← variantOf_keyText, h]
  cases v with
  | null =>
    cases w with
    | null => rfl
    | _ => cases hv
  | bool a =>
    cases w with
    | bool b => cases a <;> cases b <;> first | rfl | cases h
    | _ => cases hv
  | int m =>
    cases w with
    | int n => rw [Int64.toInt_inj.mp (Numeral.ofInt_inj h)]
    | _ => cases hv
  | float x =>
    cases w with
    | float y =>
      simp only [keyText, List.cons.injEq, true_and] at h
      rw [Layout.exact.text_injective h]
    | _ => cases hv
  | text s =>
    cases w with
    | text t => rw [(Json.stringText_inj (congrArg (· ++ []) h)).1]
    | _ => cases hv
  | bytes as =>
    cases w with
    | bytes bs =>
      simp only [keyText, List.cons.injEq, true_and] at h
      rw [bytesText_injective h]
    | _ => cases hv
  | uuid u =>
    cases w with
    | uuid u' =>
      simp only [keyText, List.cons.injEq, true_and] at h
      rw [Uuid.text_injective h]
    | _ => cases hv
  | timestamp t =>
    cases w with
    | timestamp t' =>
      simp only [keyText, List.cons.injEq, true_and] at h
      rw [Timestamp.text_injective h]
    | _ => cases hv
  | date d =>
    cases w with
    | date d' =>
      simp only [keyText, List.cons.injEq, true_and] at h
      rw [Date.text_injective h]
    | _ => cases hv
  | json j =>
    cases w with
    | json j' =>
      simp only [keyText, List.cons.injEq, true_and] at h
      rw [Json.text_injective h]
    | _ => cases hv
  | decimal d =>
    cases w with
    | decimal d' =>
      simp only [keyText, List.cons.injEq, true_and] at h
      rw [Decimal.text_injective h]
    | _ => cases hv

theorem composed_keyText (v : Value) : Composed v.keyText := by
  have hmarked {a : Char} {cs : List Char} (ha : IsBare a)
      (hcs : ∀ c ∈ cs, isTokenChar c = true) : Composed (a :: ':' :: cs) :=
    .char ha (.char (by decide) (composed_of_token hcs))
  cases v with
  | null => exact composed_of_token (List.all_eq_true.mp rfl)
  | bool b => exact Json.composed_boolText b
  | int n =>
    exact composed_of_token fun c hc =>
      Layout.isTokenChar_of_isNumberChar (Layout.isNumberChar_of_mem_ofInt hc)
  | float x => exact hmarked (by decide) fun c => Layout.isTokenChar_of_mem_text
  | text s => exact Json.composed_stringText s
  | bytes bs => exact hmarked (by decide) fun c => isTokenChar_of_mem_bytesText
  | uuid u => exact hmarked (by decide) fun c => Uuid.isTokenChar_of_mem_text
  | timestamp t =>
    exact .char (by decide) (hmarked (by decide) fun c => Timestamp.isTokenChar_of_mem_text)
  | date d => exact hmarked (by decide) fun c => Date.isTokenChar_of_mem_text
  | json j => exact .char (by decide) (.char (by decide) j.composed_text)
  | decimal d => exact hmarked (by decide) fun c => Decimal.isTokenChar_of_mem_text

end Value

/-! ## Serializations -/

/-- Sealed texts are told from a list of them, each after an at sign. -/
theorem intercalate_sign_inj {a b : List Char} {as bs : List (List Char)} (ha : Sealed a)
    (hb : Sealed b) (has : ∀ c ∈ as, Sealed c) (hbs : ∀ c ∈ bs, Sealed c)
    (h : a ++ as.flatMap (',' :: '@' :: ·) = b ++ bs.flatMap (',' :: '@' :: ·)) :
    a = b ∧ as = bs := by
  have hcomma {t : List Char} (ht : Sealed t) : Sealed (t ++ [',']) := ht.append rfl
  have hcons (t u : List Char) (us : List (List Char)) :
      t ++ (u :: us).flatMap (',' :: '@' :: ·) =
        (t ++ [',']) ++ '@' :: (u ++ us.flatMap (',' :: '@' :: ·)) := by
    simp
  induction as generalizing a b bs with
  | nil =>
    rw [List.flatMap_nil, List.append_nil] at h
    cases bs with
    | nil => exact ⟨by simpa using h, rfl⟩
    | cons d bs =>
      rw [hcons] at h
      exact absurd h (ha.ne_append_mark rfl (hcomma hb))
  | cons c as ih =>
    rw [hcons] at h
    cases bs with
    | nil =>
      rw [List.flatMap_nil, List.append_nil] at h
      exact absurd h.symm (hb.ne_append_mark rfl (hcomma ha))
    | cons d bs =>
      rw [hcons] at h
      obtain ⟨hab, hrest⟩ := (hcomma ha).cut_unique rfl (hcomma hb) h
      obtain ⟨rfl, rfl⟩ := ih (has c List.mem_cons_self) (hbs d List.mem_cons_self)
        (fun e he => has e (List.mem_cons_of_mem c he))
        (fun e he => hbs e (List.mem_cons_of_mem d he)) hrest
      exact ⟨List.append_cancel_right hab, rfl⟩

namespace Parameters

def sortedEntries (ps : Parameters) : List (String × Value) :=
  ps.entries.mergeSort fun a b => decide (a.1 ≤ b.1)

/-- The text of an entry after its at sign. -/
def entryText (entry : String × Value) : List Char :=
  entry.1.toList.tail ++ '=' :: entry.2.keyText

theorem mem_entries {ps : Parameters} {i : Nat} {v : Value} :
    (name i, v) ∈ ps.entries ↔ ps.values[i]? = some v := by
  rw [entries, List.mem_map, ← Array.getElem?_toList, ← List.mk_mem_zipIdx_iff_getElem?]
  constructor
  · rintro ⟨⟨w, j⟩, hmem, heq⟩
    obtain ⟨hname, rfl⟩ := Prod.mk.inj heq
    rwa [← name_inj hname]
  · exact fun h => ⟨(v, i), h, rfl⟩

theorem mem_sortedEntries {ps : Parameters} {entry : String × Value}
    (h : entry ∈ ps.sortedEntries) : ∃ i v, entry = (name i, v) ∧ ps.values[i]? = some v := by
  obtain ⟨⟨v, i⟩, -, rfl⟩ := List.mem_map.mp (List.mem_mergeSort.mp h)
  exact ⟨i, v, rfl, mem_entries.mp (List.mem_mergeSort.mp h)⟩

theorem entryText_name (i : Nat) (v : Value) :
    entryText (name i, v) = ('p' :: Numeral.ofNat i) ++ '=' :: v.keyText := by
  rw [entryText, toList_name]
  rfl

theorem entryText_inj {i j : Nat} {v w : Value}
    (h : entryText (name i, v) = entryText (name j, w)) : i = j ∧ v = w := by
  have hmark (k : Nat) : '=' ∉ 'p' :: Numeral.ofNat k := by
    intro hm
    rcases List.mem_cons.mp hm with heq | hm
    · cases heq
    · exact absurd (Numeral.isDigit_of_mem_ofNat hm) (by decide)
  rw [entryText_name, entryText_name] at h
  obtain ⟨hname, hkey⟩ := cut_unique_of_not_mem (hmark i) (hmark j) h
  exact ⟨Numeral.ofNat_inj (List.cons.inj hname).2, Value.keyText_injective hkey⟩

/-- Whether a value is bound under a placeholder is told from the entry texts. -/
theorem mem_map_entryText {ps : Parameters} {i : Nat} {v : Value} :
    entryText (name i, v) ∈ ps.sortedEntries.map entryText ↔ ps.values[i]? = some v := by
  constructor
  · intro h
    obtain ⟨entry, hmem, heq⟩ := List.mem_map.mp h
    obtain ⟨j, w, rfl, hvalue⟩ := mem_sortedEntries hmem
    obtain ⟨rfl, rfl⟩ := entryText_inj heq
    exact hvalue
  · exact fun h => List.mem_map_of_mem (List.mem_mergeSort.mpr (mem_entries.mpr h))

theorem composed_entryText {ps : Parameters} {entry : String × Value}
    (h : entry ∈ ps.sortedEntries) : Composed (entryText entry) := by
  obtain ⟨i, v, rfl, -⟩ := mem_sortedEntries h
  rw [entryText_name]
  refine .append (.char (by decide) (composed_of_token fun c hc => ?_))
    (.char (by decide) v.composed_keyText)
  exact isTokenChar_of_isDigit (Numeral.isDigit_of_mem_ofNat hc)

theorem toList_serialize (ps : Parameters) :
    ps.serialize.toList =
      [','].intercalate ((ps.sortedEntries.map entryText).map ('@' :: ·)) := by
  have hentry : ∀ entry ∈ ps.sortedEntries,
      entry.1.toList ++ '=' :: entry.2.keyText = '@' :: entryText entry := by
    intro entry h
    obtain ⟨i, v, rfl, -⟩ := mem_sortedEntries h
    rw [entryText_name, toList_name]
    rfl
  rw [serialize, String.toList_ofList, List.map_map]
  exact congrArg _ (List.map_congr_left hentry)

/-- Parameters are told from their serialization. -/
theorem serialize_injective : Function.Injective serialize := by
  intro ps qs h
  have htexts : ps.sortedEntries.map entryText = qs.sortedEntries.map entryText := by
    have hps : ∀ text ∈ ps.sortedEntries.map entryText, Sealed text := by
      intro text htext
      obtain ⟨entry, hmem, rfl⟩ := List.mem_map.mp htext
      exact (composed_entryText hmem).sealed
    have hqs : ∀ text ∈ qs.sortedEntries.map entryText, Sealed text := by
      intro text htext
      obtain ⟨entry, hmem, rfl⟩ := List.mem_map.mp htext
      exact (composed_entryText hmem).sealed
    have hlist := congrArg String.toList h
    rw [toList_serialize, toList_serialize] at hlist
    generalize ps.sortedEntries.map entryText = as at *
    generalize qs.sortedEntries.map entryText = bs at *
    cases as with
    | nil =>
      cases bs with
      | nil => rfl
      | cons b bs =>
        rw [List.map_cons, intercalate_comma] at hlist
        cases hlist
    | cons a as =>
      cases bs with
      | nil =>
        rw [List.map_cons, intercalate_comma] at hlist
        cases hlist
      | cons b bs =>
        rw [List.map_cons, List.map_cons, intercalate_comma, intercalate_comma, List.flatMap_map,
          List.flatMap_map] at hlist
        obtain ⟨rfl, rfl⟩ := intercalate_sign_inj (hps a List.mem_cons_self)
          (hqs b List.mem_cons_self) (fun c hc => hps c (List.mem_cons_of_mem a hc))
          (fun c hc => hqs c (List.mem_cons_of_mem b hc)) (List.cons.inj hlist).2
        rfl
  have hvalues : ps.values = qs.values := by
    refine Array.ext_getElem? fun i => Option.ext fun v => ?_
    rw [← mem_map_entryText, ← mem_map_entryText, htexts]
  cases ps
  cases qs
  cases hvalues
  rfl

end Parameters
end BoundSql
