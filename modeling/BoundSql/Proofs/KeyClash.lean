import BoundSql.Proofs.CacheKey

/-
Keys of texts that no statement has written.

The text of a statement has no colon outside its names, so its key is cut there.  Any
other text may go on like the key of a shorter one, and then the serialization behind
the shorter text has a colon in it with another serialization behind.  An at sign
cannot follow a colon outside strings.  Behind a colon in a string the rest would be
read with inside and outside exchanged, and would leave the string open.  So nothing
is behind that colon, and the only value whose key ends in one is the empty byte
string.  The main statement is `Built.cacheKey_eq_iff_or_clash`.
-/

namespace BoundSql

/-! ## Reading a serialization -/

/-- What is known of a serialization from the characters before. -/
inductive EntryState where
  | plain
  | afterColon
  | inside
  | escaped

namespace EntryState

def IsOutside (s : EntryState) : Prop :=
  s = plain ∨ s = afterColon

/-- Outside strings there is no backslash. -/
def ofOutside (c : Char) : Option EntryState :=
  if c = '"' then some inside
  else if c = '\\' then none
  else if c = ':' then some afterColon
  else some plain

end EntryState

/-- It reads strings, and no at sign right after a colon outside them. -/
def entryReader : Reader EntryState
  | .plain, c => EntryState.ofOutside c
  | .afterColon, c => if c = '@' then none else EntryState.ofOutside c
  | .inside, c =>
    if c = '"' then some .plain else if c = '\\' then some .escaped else some .inside
  | .escaped, _ => some .inside

namespace EntryState

theorem ofOutside_of_isBare {c : Char} (hc : IsBare c) :
    ∃ next, ofOutside c = some next ∧ next.IsOutside := by
  rw [ofOutside, if_neg hc.1, if_neg hc.2.1]
  split
  · exact ⟨afterColon, rfl, .inr rfl⟩
  · exact ⟨plain, rfl, .inl rfl⟩

theorem follows_entryReader : FollowsStrings entryReader IsOutside inside escaped plain where
  on_bare s c hs hc := by
    rcases hs with rfl | rfl
    · exact ofOutside_of_isBare hc
    · rw [entryReader, if_neg hc.2.2]
      exact ofOutside_of_isBare hc
  on_quote s hs := by
    rcases hs with rfl | rfl <;> rfl
  on_inside _ := rfl
  on_escaped _ := rfl
  outside_after := .inl rfl

/-- One of two readers is inside a string and the other one outside. -/
def Apart (s t : EntryState) : Prop :=
  (s.IsOutside ∧ t = inside) ∨ (s = inside ∧ t.IsOutside)

/-- What a reader outside does is all that it can do there. -/
theorem ofOutside_of_entryReader {s next : EntryState} {c : Char} (hs : s.IsOutside)
    (h : entryReader s c = some next) : ofOutside c = some next := by
  rcases hs with rfl | rfl
  · exact h
  · rw [entryReader] at h
    split at h
    · cases h
    · exact h

theorem apart_step {s s' t' : EntryState} {c : Char} (hs : s.IsOutside)
    (h : entryReader s c = some s') (h' : entryReader inside c = some t') : Apart s' t' := by
  have hout := ofOutside_of_entryReader hs h
  rw [ofOutside] at hout
  rw [entryReader] at h'
  by_cases hquote : c = '"'
  · rw [if_pos hquote] at hout h'
    cases hout
    cases h'
    exact .inr ⟨rfl, .inl rfl⟩
  · rw [if_neg hquote] at hout h'
    by_cases hslash : c = '\\'
    · rw [if_pos hslash] at hout
      cases hout
    · rw [if_neg hslash] at hout h'
      cases h'
      refine .inl ⟨?_, rfl⟩
      split at hout
      · cases hout
        exact .inr rfl
      · cases hout
        exact .inl rfl

/-- Two readers that are apart stay so.  A backslash would keep the one inside from
the next quote, but the one outside does not read it. -/
theorem Apart.reads {s t s' t' : EntryState} {cs : List Char} (h : Apart s t)
    (hs : entryReader.Reads s cs s') (ht : entryReader.Reads t cs t') : Apart s' t' := by
  induction cs generalizing s t with
  | nil =>
    cases hs
    cases ht
    exact h
  | cons c cs ih =>
    obtain ⟨s₁, hs₁, hs⟩ := Reader.reads_cons.mp hs
    obtain ⟨t₁, ht₁, ht⟩ := Reader.reads_cons.mp ht
    refine ih ?_ hs ht
    rcases h with ⟨hout, rfl⟩ | ⟨rfl, hout⟩
    · exact apart_step hout hs₁ ht₁
    · exact (apart_step hout ht₁ hs₁).symm.imp And.symm And.symm

/-- A text that is read from outside of strings to outside is not so read from inside. -/
theorem not_reads_inside {cs : List Char} {stop stop' : EntryState}
    (h : entryReader.Reads plain cs stop) (hstop : stop.IsOutside)
    (h' : entryReader.Reads inside cs stop') : ¬stop'.IsOutside := by
  have hapart : Apart stop stop' := Apart.reads (.inl ⟨.inl rfl, rfl⟩) h h'
  intro hstop'
  rcases hapart with ⟨-, rfl⟩ | ⟨rfl, -⟩
  · rcases hstop' with h | h <;> cases h
  · rcases hstop with h | h <;> cases h

end EntryState

open EntryState

theorem reads_entries {texts : List (List Char)} (h : ∀ text ∈ texts, Composed text) :
    ∃ stop, entryReader.Reads .plain ([','].intercalate (texts.map ('@' :: ·))) stop ∧
      stop.IsOutside := by
  induction texts with
  | nil => exact ⟨.plain, rfl, .inl rfl⟩
  | cons text rest ih =>
    obtain ⟨next, hnext, hout⟩ :=
      follows_entryReader.reads_composed (h text List.mem_cons_self) (.inl rfl)
    have hfirst : entryReader.Reads .plain ('@' :: text) next :=
      Reader.reads_cons.mpr ⟨.plain, rfl, hnext⟩
    cases rest with
    | nil =>
      rw [List.map_cons, List.map_nil, List.intercalate_singleton]
      exact ⟨next, hfirst, hout⟩
    | cons other rest =>
      obtain ⟨stop, hstop, hend⟩ := ih fun t ht => h t (List.mem_cons_of_mem text ht)
      have hcomma : entryReader.Reads next [','] .plain := by
        rcases hout with rfl | rfl <;> rfl
      rw [List.map_cons, List.map_cons, List.intercalate_cons_cons]
      exact ⟨stop, (hfirst.append hcomma).append hstop, hend⟩

namespace Parameters

theorem reads_serialize (ps : Parameters) :
    ∃ stop, entryReader.Reads .plain ps.serialize.toList stop ∧ stop.IsOutside := by
  rw [toList_serialize]
  refine reads_entries fun text htext => ?_
  obtain ⟨entry, hmem, rfl⟩ := List.mem_map.mp htext
  exact composed_entryText hmem

theorem serialize_empty : empty.serialize = "" := by
  simp [serialize, entries, empty]

/-- A serialization begins with an at sign, if there are values. -/
theorem serialize_eq_sign (ps : Parameters) :
    ps = empty ∨ ∃ rest, ps.serialize.toList = '@' :: rest := by
  cases hsorted : ps.sortedEntries with
  | nil =>
    refine .inl (serialize_injective (String.toList_inj.mp ?_))
    rw [toList_serialize, hsorted, serialize_empty]
    rfl
  | cons entry rest =>
    rw [toList_serialize, hsorted, List.map_cons, List.map_cons, intercalate_comma]
    exact .inr ⟨_, rfl⟩

/-- No serialization of values stands after a colon of another one. -/
theorem eq_empty_of_serialize_eq {ps qs : Parameters} {before : List Char}
    (h : ps.serialize.toList = before ++ ':' :: qs.serialize.toList) : qs = empty := by
  obtain ⟨stop, hstop, hout⟩ := ps.reads_serialize
  obtain ⟨stop', hstop', hout'⟩ := qs.reads_serialize
  rw [h] at hstop
  obtain ⟨s, -, hs⟩ := Reader.reads_append.mp hstop
  obtain ⟨next, hnext, hrest⟩ := Reader.reads_cons.mp hs
  have hcolon : next = .afterColon ∨ next = .inside := by
    cases s <;> cases hnext <;> simp
  rcases hcolon with rfl | rfl
  · rcases qs.serialize_eq_sign with hempty | ⟨rest, hsign⟩
    · exact hempty
    · rw [hsign] at hrest
      obtain ⟨_, hsign, -⟩ := Reader.reads_cons.mp hrest
      cases hsign
  · exact absurd hout (not_reads_inside hstop' hout' hrest)

end Parameters

/-! ## Last characters -/

/-- The text has a last character, and it is no colon. -/
def EndsOffColon (cs : List Char) : Prop :=
  ∃ c, cs.getLast? = some c ∧ c ≠ ':'

namespace EndsOffColon

theorem concat (cs : List Char) {c : Char} (hc : c ≠ ':') : EndsOffColon (cs ++ [c]) :=
  ⟨c, List.getLast?_concat, hc⟩

theorem append (before : List Char) {cs : List Char} (h : EndsOffColon cs) :
    EndsOffColon (before ++ cs) := by
  obtain ⟨c, hlast, hc⟩ := h
  exact ⟨c, by rw [List.getLast?_append, hlast, Option.some_or], hc⟩

theorem cons (first : Char) {cs : List Char} (h : EndsOffColon cs) : EndsOffColon (first :: cs) :=
  h.append [first]

theorem of_not_mem {cs : List Char} (hne : cs ≠ []) (h : ':' ∉ cs) : EndsOffColon cs := by
  refine ⟨cs.getLast hne, List.getLast?_eq_some_getLast hne, fun heq => h ?_⟩
  rw [← heq]
  exact List.getLast_mem hne

theorem ne_concat {cs before : List Char} (h : EndsOffColon cs) : cs ≠ before ++ [':'] := by
  rintro rfl
  obtain ⟨c, hlast, hc⟩ := h
  rw [List.getLast?_concat] at hlast
  exact hc (Option.some.inj hlast).symm

end EndsOffColon

theorem Numeral.endsOffColon_of_digits {cs : List Char} (hne : cs ≠ [])
    (h : ∀ c ∈ cs, c.isDigit = true) : EndsOffColon cs :=
  .of_not_mem hne fun hc => absurd (h ':' hc) (by decide)

theorem Numeral.endsOffColon_ofInt (n : Int) : EndsOffColon (ofInt n) :=
  .of_not_mem (ofInt_ne_nil n) fun hc => absurd (mem_ofInt hc) (by decide)

theorem Numeral.not_mem_hex (width n : Nat) : ':' ∉ hex width n := fun hc =>
  absurd (isAlphanum_of_mem_hex hc) (by decide)

theorem Layout.endsOffColon_finiteText (layout : Layout) (x : Double.Finite) :
    EndsOffColon (layout.finiteText x) := by
  obtain ⟨c, rest, hcons, -⟩ := layout.finiteText_eq_cons x
  refine .of_not_mem (by rw [hcons]; exact List.cons_ne_nil c rest) fun hc => ?_
  exact absurd (isNumberChar_of_mem_finiteText hc) (by decide)

theorem Layout.endsOffColon_text (layout : Layout) (x : Double) :
    EndsOffColon (layout.text x) := by
  cases x with
  | nan => exact ⟨'N', rfl, by decide⟩
  | infinite s => cases s <;> exact ⟨'f', rfl, by decide⟩
  | finite x => exact layout.endsOffColon_finiteText x

theorem Uuid.endsOffColon_text (u : Uuid) : EndsOffColon u.text := by
  have hlength : (u.hexText.drop 20).length = 12 := by
    rw [List.length_drop, hexText, Numeral.length_hex]
  have hlast : EndsOffColon (u.hexText.drop 20) := by
    refine .of_not_mem (List.ne_nil_of_length_eq_add_one hlength) fun hc => ?_
    exact Numeral.not_mem_hex 32 _ (List.mem_of_mem_drop hc)
  exact (hlast.cons '-').append _

theorem Calendar.endsOffColon_dateText (y : Int) (m d : Nat) : EndsOffColon (dateText y m d) := by
  have hday : EndsOffColon (Numeral.padded 2 d) := by
    refine Numeral.endsOffColon_of_digits (fun h => ?_) fun c => Numeral.isDigit_of_mem_padded
    have hlength := Numeral.le_length_padded 2 d
    rw [h] at hlength
    exact absurd hlength (by decide)
  exact (hday.cons '-').append _

theorem Timestamp.endsOffColon_text (t : Timestamp) : EndsOffColon t.text := by
  have hoffset : EndsOffColon ['+', '0', '0', ':', '0', '0'] := ⟨'0', rfl, by decide⟩
  exact hoffset.append t.localText

theorem Decimal.endsOffColon_text (d : Decimal) : EndsOffColon d.text := by
  have hmagnitude : EndsOffColon d.magnitudeText := by
    unfold magnitudeText
    split
    · rw [List.append_nil]
      exact Numeral.endsOffColon_of_digits d.whole_ne_nil fun c hc =>
        isDigit_of_mem_digits (List.mem_of_mem_take hc)
    · rename_i hscale
      have hfraction : d.fraction ≠ [] := fun h =>
        hscale (by rw [← d.length_fraction, h, List.length_nil])
      refine (EndsOffColon.cons '.' ?_).append _
      exact Numeral.endsOffColon_of_digits hfraction fun c hc =>
        isDigit_of_mem_digits (List.mem_of_mem_drop hc)
  rw [text_eq]
  exact hmagnitude.append _

namespace Json

theorem endsOffColon_stringText (s : String) : EndsOffColon (stringText s) :=
  .concat _ (by decide)

theorem endsOffColon_boolText (b : Bool) : EndsOffColon (boolText b) := by
  cases b <;> exact ⟨'e', rfl, by decide⟩

theorem endsOffColon_text (a : Json) : EndsOffColon a.text := by
  cases a with
  | null => exact ⟨'l', rfl, by decide⟩
  | bool b => exact endsOffColon_boolText b
  | number n =>
    cases n with
    | integer n => exact Numeral.endsOffColon_ofInt n
    | float x => exact Layout.json.endsOffColon_finiteText x
  | string s => exact endsOffColon_stringText s
  | array items => exact .concat _ (by decide)
  | object members => exact .concat _ (by decide)

end Json

/-- Of all keys only that of the empty byte string ends in a colon. -/
theorem Value.eq_bytes_nil_or_endsOffColon (v : Value) :
    v = bytes [] ∨ EndsOffColon v.keyText := by
  have hmarked (a : Char) {cs : List Char} (h : EndsOffColon cs) : EndsOffColon (a :: ':' :: cs) :=
    (h.cons ':').cons a
  cases v with
  | null => exact .inr ⟨'l', rfl, by decide⟩
  | bool b => exact .inr (Json.endsOffColon_boolText b)
  | int n => exact .inr (Numeral.endsOffColon_ofInt n.toInt)
  | float x => exact .inr (hmarked 'f' (Layout.exact.endsOffColon_text x))
  | text s => exact .inr (Json.endsOffColon_stringText s)
  | bytes bs =>
    cases bs with
    | nil => exact .inl rfl
    | cons b bs =>
      refine .inr (hmarked 'x' (.of_not_mem ?_ fun hc => ?_))
      · simp [bytesText, Numeral.hex]
      · obtain ⟨d, -, hd⟩ := List.mem_flatMap.mp hc
        exact Numeral.not_mem_hex 2 _ hd
  | uuid u => exact .inr (hmarked 'u' u.endsOffColon_text)
  | timestamp t => exact .inr ((hmarked 's' t.endsOffColon_text).cons 't')
  | date d => exact .inr (hmarked 'd' (Calendar.endsOffColon_dateText d.year d.month d.day))
  | json j => exact .inr (hmarked 'j' j.endsOffColon_text)
  | decimal d => exact .inr (hmarked 'm' d.endsOffColon_text)

/-- A joined text ends in its last part. -/
theorem exists_intercalate_eq_append {texts : List (List Char)} {last : List Char}
    (h : texts.getLast? = some last) :
    ∃ before, [','].intercalate texts = before ++ last := by
  induction texts with
  | nil => cases h
  | cons text rest ih =>
    cases rest with
    | nil =>
      cases h
      exact ⟨[], List.intercalate_singleton⟩
    | cons other rest =>
      rw [List.getLast?_cons_cons] at h
      obtain ⟨before, hbefore⟩ := ih h
      exact ⟨text ++ [','] ++ before, by
        rw [List.intercalate_cons_cons, hbefore, List.append_assoc _ before]⟩

namespace Parameters

/-- A serialization that ends in a colon ends in the key of the empty byte string. -/
theorem last_of_serialize_eq {ps : Parameters} {before : List Char}
    (h : ps.serialize.toList = before ++ [':']) :
    ps.sortedEntries.getLast?.map Prod.snd = some (.bytes []) := by
  cases hlast : ps.sortedEntries.getLast? with
  | none =>
    rw [toList_serialize, List.getLast?_eq_none_iff.mp hlast] at h
    exact absurd h.symm (List.concat_ne_nil ':' before)
  | some entry =>
    have htexts : ((ps.sortedEntries.map entryText).map ('@' :: ·)).getLast? =
        some ('@' :: entryText entry) := by
      rw [List.getLast?_map, List.getLast?_map, hlast]
      rfl
    obtain ⟨front, hfront⟩ := exists_intercalate_eq_append htexts
    rw [toList_serialize, hfront, entryText] at h
    rcases entry.2.eq_bytes_nil_or_endsOffColon with hvalue | hkey
    · rw [Option.map_some, hvalue]
    · have hentry := ((hkey.cons '=').append entry.1.toList.tail).cons '@'
      exact absurd h (hentry.append front).ne_concat

end Parameters

/-! ## Clashes -/

namespace Built

/-- The second statement has no values, and its text is the first one's with the
serialization of the values, which ends in an empty byte string, after a colon.
The last colon of the serialization is not part of the text. -/
structure Clashes (b c : Built) : Prop where
  no_values : c.params.values = #[]
  last_value : b.params.sortedEntries.getLast?.map Prod.snd = some (.bytes [])
  text : c.sql ++ ":" = b.sql ++ ":" ++ b.params.serialize

theorem Clashes.cacheKey_eq {b c : Built} (h : b.Clashes c) : b.cacheKey = c.cacheKey := by
  have hparams : c.params = Parameters.empty := by
    rw [Parameters.empty, ← h.no_values]
  calc b.cacheKey = "query:" ++ (b.sql ++ ":" ++ b.params.serialize) := by
        rw [cacheKey, String.append_assoc, String.append_assoc, String.append_assoc]
    _ = "query:" ++ (c.sql ++ ":") := by rw [h.text]
    _ = c.cacheKey := by
        rw [cacheKey, hparams, Parameters.serialize_empty, String.append_empty,
          String.append_assoc]

/-- The keys after their common part are one text, which the second statement cuts
no earlier than the first. -/
theorem alike_or_clashes {b c : Built} {between : List Char}
    (hsql : c.sql.toList = b.sql.toList ++ between)
    (h : ':' :: b.params.serialize.toList = between ++ ':' :: c.params.serialize.toList) :
    b.Alike c ∨ b.Clashes c := by
  cases between with
  | nil =>
    rw [List.append_nil] at hsql
    have hparams := Parameters.serialize_injective (String.toList_inj.mp (List.cons.inj h).2)
    exact .inl ⟨(String.toList_inj.mp hsql).symm, congrArg Parameters.values hparams⟩
  | cons first before =>
    obtain ⟨rfl, hserialize⟩ := List.cons.inj h
    have hempty := Parameters.eq_empty_of_serialize_eq hserialize
    rw [hempty, Parameters.serialize_empty] at hserialize
    refine .inr ⟨by rw [hempty]; rfl, Parameters.last_of_serialize_eq hserialize, ?_⟩
    refine String.toList_inj.mp ?_
    rw [String.toList_append, String.toList_append, String.toList_append, hsql, hserialize]
    simp

/-- Of any two texts with any values, the keys are equal exactly if the texts and the
values are, or if one of them clashes with the other. -/
theorem cacheKey_eq_iff_or_clash (b c : Built) :
    b.cacheKey = c.cacheKey ↔ b.Alike c ∨ b.Clashes c ∨ c.Clashes b := by
  constructor
  · intro h
    have hlist := congrArg String.toList h
    rw [Statement.toList_cacheKey, Statement.toList_cacheKey] at hlist
    rcases List.append_eq_append_iff.mp (List.append_cancel_left hlist) with
      ⟨between, hsql, hrest⟩ | ⟨between, hsql, hrest⟩
    · exact (alike_or_clashes hsql hrest).imp_right .inl
    · rcases alike_or_clashes hsql hrest with halike | hclash
      · exact .inl ⟨halike.1.symm, halike.2.symm⟩
      · exact .inr (.inr hclash)
  · rintro (h | h | h)
    · exact cacheKey_eq_of_alike h
    · exact h.cacheKey_eq
    · exact h.cacheKey_eq.symm

/-- A comment ends the text, after an empty byte string. -/
def emptyBytes : Built :=
  ⟨.select, "select @p0 --", ⟨#[.bytes []]⟩⟩

/-- Nothing is bound, and the comment reads like the serialization. -/
def lookalike : Built :=
  ⟨.select, "select @p0 --:@p0=x", ⟨#[]⟩⟩

theorem emptyBytes_clashes_lookalike : emptyBytes.Clashes lookalike where
  no_values := rfl
  last_value := by simp [emptyBytes, Parameters.sortedEntries, Parameters.entries]
  text := by
    have hserialize : emptyBytes.params.serialize = "@p0=x:" := by
      simp only [emptyBytes, Parameters.serialize, Parameters.entries, List.zipIdx_cons,
        List.zipIdx_nil, List.map_cons, List.map_nil, List.mergeSort_singleton,
        List.intercalate_singleton]
      rfl
    rw [hserialize]
    rfl

theorem cacheKey_emptyBytes :
    emptyBytes.cacheKey = lookalike.cacheKey ∧ emptyBytes.sql ≠ lookalike.sql ∧
      emptyBytes.params.values ≠ lookalike.params.values :=
  ⟨emptyBytes_clashes_lookalike.cacheKey_eq, by decide, by simp [emptyBytes, lookalike]⟩

end Built
end BoundSql
