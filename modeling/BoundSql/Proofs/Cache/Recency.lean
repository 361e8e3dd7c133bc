import BoundSql.Proofs.Cache.Upkeep
import Mathlib.Data.Finset.Card
import Mathlib.Data.Finset.Lattice.Lemmas

/-
Which keys a cache still has.

A key that was used stays until as many other keys as fit have been used after it.
The queue shows this: behind the key stand keys that were used since, and while
nothing is removed these are all of them.  What is found under a key is what was put
under it last.  The main statement is `found_iff_few_others_used`.
-/

namespace BoundSql
namespace Cache

variable {α : Type}

/-! ## Keys used since -/

/-- The key is in the queue, and `newer` are the keys behind it. -/
def Stands (order : List String) (key : String) (newer : Finset String) : Prop :=
  ∃ older rest, order = older ++ key :: rest ∧ rest.toFinset = newer

theorem Stands.mem {order : List String} {key : String} {newer : Finset String}
    (h : Stands order key newer) : key ∈ order := by
  obtain ⟨older, rest, rfl, -⟩ := h
  exact List.mem_append_right older List.mem_cons_self

theorem card_lt_of_stands {order : List String} {key : String} {newer : Finset String}
    (h : Stands order key newer) : newer.card < order.length := by
  obtain ⟨older, rest, rfl, rfl⟩ := h
  have hcard := rest.toFinset_card_le
  rw [List.length_append, List.length_cons]
  omega

/-- A key that was just used is the last one. -/
theorem stands_afterUse_self {capacity : Nat} (hpos : 0 < capacity) (order : List String)
    (key : String) : Stands (afterUse capacity order key) key ∅ := by
  refine ⟨(order.erase key).drop ((order.erase key ++ [key]).length - capacity), [], ?_, rfl⟩
  rw [afterUse, List.drop_append_of_le_length]
  rw [List.length_append, List.length_singleton]
  omega

theorem not_mem_afterUse {capacity : Nat} {order : List String} {key other : String}
    (hkey : key ∉ order) (hne : other ≠ key) : key ∉ afterUse capacity order other := by
  intro hmem
  rcases List.mem_append.mp (List.mem_of_mem_drop hmem) with hmem | hmem
  · exact hkey (List.mem_of_mem_erase hmem)
  · exact hne (List.mem_singleton.mp hmem).symm

section
variable {order : List String} {key other : String} {newer : Finset String}
  (hnodup : order.Nodup) (h : Stands order key newer) (hne : other ≠ key)
include hnodup h hne

theorem Stands.erase : Stands (order.erase other) key (newer.erase other) := by
  obtain ⟨older, rest, rfl, rfl⟩ := h
  refine ⟨older.filter (· != other), rest.filter (· != other), ?_, ?_⟩
  · rw [hnodup.erase_eq_filter, List.filter_append, List.filter_cons_of_pos]
    simpa using hne.symm
  · ext k
    simp [and_comm]

/-- Behind the key stand those that stood there before, and the one that is used. -/
theorem Stands.moved :
    ∃ older rest, order.erase other ++ [other] = older ++ key :: rest ∧ key ∉ rest ∧
      rest.toFinset = insert other newer ∧ rest.length = (insert other newer).card := by
  obtain ⟨older, rest, horder, hrest⟩ := h.erase hnodup hne
  have hset : (rest ++ [other]).toFinset = insert other newer := by
    rw [List.toFinset_append, hrest]
    ext k
    by_cases hk : k = other <;> simp [hk]
  have hmoved : order.erase other ++ [other] = older ++ key :: (rest ++ [other]) := by
    rw [horder, List.append_assoc, List.cons_append]
  have hsplit := nodup_moved hnodup other
  rw [hmoved] at hsplit
  obtain ⟨hkey, hrestNodup⟩ := List.nodup_cons.mp hsplit.of_append_right
  refine ⟨older, rest ++ [other], hmoved, hkey, hset, ?_⟩
  rw [← hset, List.toFinset_card_of_nodup hrestNodup]

/-- The key stays as long as it and those behind it fit. -/
theorem Stands.afterUse {capacity : Nat} (hfew : (insert other newer).card < capacity) :
    Stands (afterUse capacity order other) key (insert other newer) := by
  obtain ⟨older, rest, hmoved, -, hset, hlength⟩ := h.moved hnodup hne
  refine ⟨older.drop ((order.erase other ++ [other]).length - capacity), rest, ?_, hset⟩
  rw [Cache.afterUse, hmoved, List.drop_append_of_le_length]
  rw [List.length_append, List.length_cons]
  omega

/-- The key is gone once those behind it fill the cache. -/
theorem Stands.not_mem_afterUse {capacity : Nat} (hmany : capacity ≤ (insert other newer).card) :
    key ∉ Cache.afterUse capacity order other := by
  obtain ⟨older, rest, hmoved, hkey, -, hlength⟩ := h.moved hnodup hne
  intro hmem
  have hsuffix : (older ++ key :: rest).drop ((older ++ key :: rest).length - capacity) =
      rest.drop (rest.length - capacity) := by
    rw [List.length_append, List.length_cons, List.drop_append,
      List.drop_of_length_le (by omega), List.nil_append,
      show older.length + (rest.length + 1) - capacity - older.length =
        rest.length - capacity + 1 by omega, List.drop_succ_cons]
  rw [Cache.afterUse, hmoved, hsuffix] at hmem
  exact hkey (List.mem_of_mem_drop hmem)

end

/-! ## Operations that do not use the key -/

theorem Kept.order_remove {c : Cache α} (hc : c.Kept) (key : String) :
    (c.remove key).2.order = c.order.erase key := by
  unfold Cache.remove
  split
  · rfl
  · rename_i hnone
    have hkey : key ∉ c.order := by
      rw [hc.mem_order_iff_isSome, hnone]
      exact Bool.false_ne_true
    exact (List.erase_of_not_mem hkey).symm

/-- A use puts the used key last, and only a removal or a clearing changes the queue
in another way. -/
theorem Kept.order_apply {c : Cache α} (hc : c.Kept) (op : Op α) :
    (∃ other, c.used? op = some other ∧
      (c.apply op).order = afterUse c.capacity c.order other) ∨
    (c.used? op = none ∧
      ((c.apply op).order = c.order ∨
        (∃ other, op = .remove other ∧ (c.apply op).order = c.order.erase other) ∨
        op = .clear)) := by
  cases hused : c.used? op with
  | some other => exact .inl ⟨other, rfl, hc.order_of_used hused⟩
  | none =>
    refine .inr ⟨rfl, ?_⟩
    cases op with
    | put key a => cases hused
    | get key =>
      left
      show (c.get? key).2.order = c.order
      rw [get?_of_not_found (Option.map_eq_none_iff.mp hused)]
    | remove key => exact .inr (.inl ⟨key, rfl, hc.order_remove key⟩)
    | clear => exact .inr (.inr rfl)

theorem not_mem_applyAll {c : Cache α} (hc : c.Kept) {key : String} (hkey : key ∉ c.order)
    {ops : List (Op α)} (hnot : key ∉ c.uses ops) : key ∉ (c.applyAll ops).order := by
  induction ops generalizing c with
  | nil => exact hkey
  | cons op ops ih =>
    rw [uses, List.mem_append, not_or] at hnot
    refine ih (hc.apply op) ?_ hnot.2
    cases hused : c.used? op with
    | none => exact fun hmem => hkey ((sublist_of_not_used hused).mem hmem)
    | some other =>
      rw [hused, Option.toList_some, List.mem_singleton] at hnot
      rw [hc.order_of_used hused]
      exact not_mem_afterUse hkey (Ne.symm hnot.1)

section
variable {c : Cache α} {key : String} {newer : Finset String} {ops : List (Op α)}

/-- While few other keys are used, the key stays. -/
theorem mem_applyAll (hc : c.Kept) (hstands : Stands c.order key newer)
    (hremove : .remove key ∉ ops) (hclear : .clear ∉ ops) (hnot : key ∉ c.uses ops)
    (hfew : (newer ∪ (c.uses ops).toFinset).card < c.capacity) :
    key ∈ (c.applyAll ops).order := by
  induction ops generalizing c newer with
  | nil => exact hstands.mem
  | cons op ops ih =>
    rw [List.mem_cons, not_or] at hremove hclear
    rw [uses, List.mem_append, not_or] at hnot
    rw [uses, List.toFinset_append] at hfew
    have hstep {newer' : Finset String} (hstands' : Stands (c.apply op).order key newer')
        (hsub : newer' ⊆ newer ∪ (c.used? op).toList.toFinset) :
        key ∈ ((c.apply op).applyAll ops).order := by
      refine ih (hc.apply op) hstands' hremove.2 hclear.2 hnot.2 ?_
      rw [capacity_apply]
      refine Nat.lt_of_le_of_lt (Finset.card_le_card ?_) hfew
      rw [← Finset.union_assoc]
      exact Finset.union_subset_union_left hsub
    rcases hc.order_apply op with ⟨other, hused, horder⟩ | ⟨hused, horder | horder | horder⟩
    · rw [hused, Option.toList_some, List.mem_singleton] at hnot
      have hinsert : insert other newer = newer ∪ (c.used? op).toList.toFinset := by
        rw [hused, Finset.union_comm]
        rfl
      refine hstep ?_ hinsert.subset
      rw [horder]
      refine hstands.afterUse hc.nodup (Ne.symm hnot.1) (Nat.lt_of_le_of_lt ?_ hfew)
      rw [hinsert, ← Finset.union_assoc]
      exact Finset.card_le_card Finset.subset_union_left
    · rw [← horder] at hstands
      exact hstep hstands Finset.subset_union_left
    · obtain ⟨other, rfl, horder⟩ := horder
      have hne : other ≠ key := fun heq => hremove.1 (by rw [heq])
      have herase := hstands.erase hc.nodup hne
      rw [← horder] at herase
      exact hstep herase ((Finset.erase_subset other newer).trans Finset.subset_union_left)
    · exact absurd horder.symm hclear.1

/-- Once many other keys have been used, the key is gone. -/
theorem not_mem_applyAll_of_many (hc : c.Kept) (hstands : Stands c.order key newer)
    (hremove : ∀ other, .remove other ∉ ops) (hclear : .clear ∉ ops) (hnot : key ∉ c.uses ops)
    (hmany : c.capacity ≤ (newer ∪ (c.uses ops).toFinset).card) :
    key ∉ (c.applyAll ops).order := by
  induction ops generalizing c newer with
  | nil =>
    have hcard := card_lt_of_stands hstands
    have hlength := hc.length_le
    rw [uses, List.toFinset_nil, Finset.union_empty] at hmany
    omega
  | cons op ops ih =>
    rw [List.mem_cons, not_or] at hclear
    rw [uses, List.mem_append, not_or] at hnot
    rw [uses, List.toFinset_append] at hmany
    have hremove' (other : String) : .remove other ∉ ops :=
      fun hmem => hremove other (List.mem_cons_of_mem op hmem)
    rcases hc.order_apply op with ⟨other, hused, horder⟩ | ⟨hused, horder | horder | horder⟩
    · rw [hused, Option.toList_some] at hmany hnot
      rw [List.mem_singleton] at hnot
      by_cases hfew : (insert other newer).card < c.capacity
      · have hstands' := hstands.afterUse hc.nodup (Ne.symm hnot.1) hfew
        rw [← horder] at hstands'
        refine ih (hc.apply op) hstands' hremove' hclear.2 hnot.2 ?_
        rw [capacity_apply]
        refine Nat.le_trans hmany (Finset.card_le_card ?_)
        rw [List.toFinset_cons, List.toFinset_nil, ← Finset.union_assoc]
        refine Finset.union_subset_union_left ?_
        rw [Finset.union_comm]
        rfl
      · refine not_mem_applyAll (hc.apply op) ?_ hnot.2
        rw [horder]
        exact hstands.not_mem_afterUse hc.nodup (Ne.symm hnot.1) (Nat.le_of_not_lt hfew)
    · rw [← horder] at hstands
      rw [hused, Option.toList_none, List.toFinset_nil, Finset.empty_union] at hmany
      rw [← c.capacity_apply op] at hmany
      exact ih (hc.apply op) hstands hremove' hclear.2 hnot.2 hmany
    · obtain ⟨other, rfl, -⟩ := horder
      exact absurd List.mem_cons_self (hremove other)
    · exact absurd horder.symm hclear.1

end

/-! ## What is found -/

/-- What an operation puts under a key. -/
def Op.put? (key : String) : Op α → Option α
  | .put other a => if other = key then some a else none
  | _ => none

/-- What operations put under a key last. -/
def lastPut (key : String) (ops : List (Op α)) : Option α :=
  (ops.filterMap (Op.put? key)).getLast?

theorem lastPut_concat (key : String) (ops : List (Op α)) (op : Op α) :
    lastPut key (ops ++ [op]) = (op.put? key).or (lastPut key ops) := by
  unfold lastPut
  rw [List.filterMap_append]
  cases hput : op.put? key with
  | none => simp [hput]
  | some a => simp [hput]

/-- An operation leaves under a key what it puts there, or what was there before. -/
theorem Kept.getElem?_of_apply {c : Cache α} (hc : c.Kept) {op : Op α} {key : String} {a : α}
    (h : (c.apply op).entries[key]? = some a) :
    op.put? key = some a ∨ (op.put? key = none ∧ c.entries[key]? = some a) := by
  cases op with
  | put other b =>
    have hstored : (c.put other b).entries[key]? = some a := h
    by_cases hzero : c.capacity = 0
    · have hmem : key ∈ (c.put other b).order := by
        rw [(hc.put other b).mem_order_iff_isSome, hstored]
        rfl
      rw [put_of_capacity_eq_zero c hzero] at hmem
      exact absurd hzero (hc.capacity_pos_of_mem hmem).ne'
    · rw [put_of_capacity_ne_zero c hzero] at hstored
      have hinserted := getElem?_of_evict hstored
      rw [Std.TreeMap.getElem?_insert] at hinserted
      by_cases heq : other = key
      · rw [if_pos (Std.LawfulEqCmp.compare_eq_iff_eq.mpr heq)] at hinserted
        exact .inl (by rw [Op.put?, if_pos heq, hinserted])
      · rw [if_neg (mt Std.LawfulEqCmp.eq_of_compare heq)] at hinserted
        exact .inr ⟨if_neg heq, hinserted⟩
  | get other =>
    have hnot : ¬ c.Concerns (.get other) key := not_false
    rw [getElem?_apply hnot] at h
    exact .inr ⟨rfl, h⟩
  | remove other =>
    refine .inr ⟨rfl, ?_⟩
    by_cases heq : key = other
    · have hgone : key ∉ (c.remove other).2.order := by
        rw [hc.order_remove, heq]
        exact hc.nodup.not_mem_erase
      rw [(hc.remove other).mem_order_iff_isSome] at hgone
      rw [show (c.remove other).2.entries[key]? = some a from h] at hgone
      exact absurd rfl hgone
    · have hnot : ¬ c.Concerns (.remove other) key := heq
      rwa [getElem?_apply hnot] at h
  | clear =>
    have hempty : (∅ : Std.TreeMap String α)[key]? = some a := h
    simp at hempty

/-- What is found under a key is what was put there last. -/
theorem lastPut_of_getElem? {capacity : Nat} {ops : List (Op α)} {key : String} {a : α}
    (h : (after capacity ops).entries[key]? = some a) : lastPut key ops = some a := by
  induction ops using List.reverseRecOn with
  | nil =>
    have hempty : (∅ : Std.TreeMap String α)[key]? = some a := h
    simp at hempty
  | append_singleton ops op ih =>
    rw [after_append] at h
    rw [lastPut_concat]
    rcases (kept_after capacity ops).getElem?_of_apply h with hput | ⟨hput, hbefore⟩
    · rw [hput]
      rfl
    · rw [hput, Option.none_or]
      exact ih hbefore

theorem isSome_get?_after (capacity : Nat) (ops : List (Op α)) (key : String) :
    ((after capacity ops).get? key).1.isSome ↔ key ∈ (after capacity ops).order := by
  rw [get?_fst, (kept_after capacity ops).mem_order_iff_isSome]

/-- A key that was used just now stands last. -/
theorem stands_after {capacity : Nat} (hpos : 0 < capacity) {before : List (Op α)} {op : Op α}
    {key : String} (hused : (after capacity before).used? op = some key) :
    Stands (after capacity (before ++ [op])).order key ∅ := by
  have horder := (kept_after capacity before).order_of_used hused
  rw [capacity_after] at horder
  rw [after_append]
  show Stands ((after capacity before).apply op).order key ∅
  rw [horder]
  exact stands_afterUse_self hpos _ key

/-- Take a use of a key, and operations after it that neither use nor remove the key
nor clear the cache.  If they use fewer other keys than fit, what was put under the
key last is found; and if they remove nothing, it is found only then.  A cache
without room never has anything. -/
theorem found_iff_few_others_used (capacity : Nat) :
    (∀ (before later : List (Op α)) (op : Op α) (key : String),
      (after capacity before).used? op = some key →
      .remove key ∉ later → .clear ∉ later →
      key ∉ (after capacity (before ++ [op])).uses later →
        (((after capacity (before ++ [op])).uses later).toFinset.card < capacity →
          ∃ a, lastPut key (before ++ [op] ++ later) = some a ∧
            ((after capacity (before ++ [op] ++ later)).get? key).1 = some a) ∧
        ((∀ other, .remove other ∉ later) →
          (((after capacity (before ++ [op] ++ later)).get? key).1.isSome ↔
            ((after capacity (before ++ [op])).uses later).toFinset.card < capacity))) ∧
    (capacity = 0 → ∀ (ops : List (Op α)) (key : String),
      ((after capacity ops).get? key).1 = none) := by
  refine ⟨fun before later op key hused hremove hclear hnot => ?_, fun hzero ops key => ?_⟩
  · have hkept := kept_after capacity (before ++ [op])
    have hstays (hfew : ((after capacity (before ++ [op])).uses later).toFinset.card < capacity) :
        ((after capacity (before ++ [op] ++ later)).get? key).1.isSome := by
      rw [isSome_get?_after, after_append]
      refine mem_applyAll hkept (stands_after (by omega) hused) hremove hclear hnot ?_
      rw [Finset.empty_union, capacity_after]
      exact hfew
    refine ⟨fun hfew => ?_, fun hremoves => ⟨fun hfound => ?_, hstays⟩⟩
    · obtain ⟨a, ha⟩ := Option.isSome_iff_exists.mp (hstays hfew)
      have hentry := ha
      rw [get?_fst] at hentry
      exact ⟨a, lastPut_of_getElem? hentry, ha⟩
    · by_contra hmany
      rw [isSome_get?_after] at hfound
      have hpos := (kept_after capacity (before ++ [op] ++ later)).capacity_pos_of_mem hfound
      rw [capacity_after] at hpos
      rw [after_append] at hfound
      refine not_mem_applyAll_of_many hkept (stands_after hpos hused) hremoves hclear hnot ?_ hfound
      rw [Finset.empty_union, capacity_after]
      omega
  · rw [← Option.not_isSome_iff_eq_none, isSome_get?_after]
    intro hkey
    have hpos := (kept_after capacity ops).capacity_pos_of_mem hkey
    rw [capacity_after] at hpos
    omega

/-- In a cache with room for two, looking `a` up saves it from the third key, and `b`
goes instead.  The key that was looked for in vain does not count. -/
theorem found_after_lookup :
    ((after 2 [.put "a" 1, .put "b" 2, .get "a", .get "d", .put "c" 3]).get? "a").1 = some 1 ∧
      ((after 2 [.put "a" 1, .put "b" 2, .get "a", .get "d", .put "c" 3]).get? "b").1 = none := by
  constructor
  · have huse := (found_iff_few_others_used 2).1 [.put "a" 1, .put "b" 2] [.get "d", .put "c" 3]
      (.get "a") "a" rfl (by simp) (by simp) (by decide)
    obtain ⟨a, hput, hfound⟩ := huse.1 (by decide)
    cases hput
    exact hfound
  · have huse := (found_iff_few_others_used 2).1 [.put "a" 1] [.get "a", .get "d", .put "c" 3]
      (.put "b" 2) "b" rfl (by simp) (by simp) (by decide)
    have hiff := huse.2 (by simp)
    rw [← Option.not_isSome_iff_eq_none]
    exact mt hiff.mp (by decide)

end Cache
end BoundSql
