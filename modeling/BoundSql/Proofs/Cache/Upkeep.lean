import BoundSql.Cache
import Mathlib.Data.List.Nodup

/-
What operations keep true of a cache.

The queue has the keys of the entries, each once, and no more of them than the
capacity.  So a key that is put in takes the place of at most one other, the one
at the head of the queue.  Along a run the queue is in the order of the last
uses; `lastUse` counts uses, of which there is one whenever a key is put or found.
The main statement is `reachable_upkeep`.
-/

namespace BoundSql
namespace Cache

variable {α : Type}

/-! ## Operations and uses -/

inductive Op (α : Type) where
  | put (key : String) (a : α)
  | get (key : String)
  | remove (key : String)
  | clear

def apply (c : Cache α) : Op α → Cache α
  | .put key a => c.put key a
  | .get key => (c.get? key).2
  | .remove key => (c.remove key).2
  | .clear => c.clear

def applyAll (c : Cache α) (ops : List (Op α)) : Cache α :=
  ops.foldl apply c

/-- The key that is used.  A key is used if it is put or found. -/
def used? (c : Cache α) : Op α → Option String
  | .put key _ => some key
  | .get key => (c.get? key).1.map fun _ => key
  | .remove _ => none
  | .clear => none

/-- The keys used in the course of operations, one for each use. -/
def uses (c : Cache α) : List (Op α) → List String
  | [] => []
  | op :: ops => (c.used? op).toList ++ (c.apply op).uses ops

/-- The number of uses up to the last one of a key, or zero if it was never used. -/
def lastUse (uses : List String) (key : String) : Nat :=
  uses.length - uses.reverse.idxOf key

theorem lastUse_le (uses : List String) (key : String) : lastUse uses key ≤ uses.length :=
  Nat.sub_le _ _

theorem lastUse_concat_self (uses : List String) (key : String) :
    lastUse (uses ++ [key]) key = uses.length + 1 := by
  simp [lastUse]

theorem lastUse_concat_of_ne (uses : List String) {key other : String} (h : key ≠ other) :
    lastUse (uses ++ [other]) key = lastUse uses key := by
  rw [lastUse, lastUse, List.reverse_append, List.reverse_singleton, List.singleton_append,
    List.idxOf_cons_ne _ h.symm, List.length_append, List.length_singleton]
  omega

/-! ## Moving a key to the end -/

/-- A key that is moved to the end is there once. -/
theorem nodup_moved {order : List String} (h : order.Nodup) (key : String) :
    (order.erase key ++ [key]).Nodup := by
  refine List.Nodup.append (h.erase key) (List.nodup_singleton key) ?_
  rw [List.disjoint_singleton]
  exact h.not_mem_erase

theorem length_moved (order : List String) (key : String) :
    (order.erase key ++ [key]).length =
      if key ∈ order then order.length else order.length + 1 := by
  rw [List.length_append, List.length_singleton]
  split
  · rename_i hkey
    have hpos := List.length_pos_of_mem hkey
    rw [List.length_erase_of_mem hkey]
    omega
  · rename_i hkey
    rw [List.erase_of_not_mem hkey]

/-! ## Taking entries out -/

/-- The rounds of `evict`: the key that each takes out, or none if the queue is
empty before enough entries are out. -/
def rounds (capacity : Nat) (entries : Std.TreeMap String α) : List String → List (Option String)
  | [] => if capacity < entries.size then [none] else []
  | oldest :: rest =>
    if capacity < entries.size then some oldest :: rounds capacity (entries.erase oldest) rest
    else []

/-- The queue holds the keys of the entries, each once. -/
structure Matches (entries : Std.TreeMap String α) (order : List String) : Prop where
  nodup : order.Nodup
  mem_order : ∀ key, key ∈ order ↔ key ∈ entries
  length_order : order.length = entries.size

section
variable {entries : Std.TreeMap String α} {order : List String}

/-- What is not taken out is kept. -/
theorem getElem?_evict {capacity : Nat} {key : String}
    (h : some key ∉ rounds capacity entries order) :
    (evict capacity entries order).1[key]? = entries[key]? := by
  induction order generalizing entries with
  | nil => rfl
  | cons oldest rest ih =>
    by_cases hsize : capacity < entries.size
    · rw [rounds, if_pos hsize, List.mem_cons, not_or] at h
      have hne : oldest ≠ key := fun heq => h.1 (congrArg some heq.symm)
      rw [evict, if_pos hsize, ih h.2, Std.TreeMap.getElem?_erase,
        if_neg (mt Std.LawfulEqCmp.eq_of_compare hne)]
    · rw [evict, if_neg hsize]

theorem getElem?_of_evict {capacity : Nat} {key : String} {a : α}
    (h : (evict capacity entries order).1[key]? = some a) : entries[key]? = some a := by
  induction order generalizing entries with
  | nil => exact h
  | cons oldest rest ih =>
    by_cases hsize : capacity < entries.size
    · rw [evict, if_pos hsize] at h
      have hrest := ih h
      rw [Std.TreeMap.getElem?_erase] at hrest
      split at hrest
      · cases hrest
      · exact hrest
    · rw [evict, if_neg hsize] at h
      exact h

namespace Matches

/-- The queue has the keys under which something is found. -/
theorem mem_order_iff_isSome (h : Matches entries order) (key : String) :
    key ∈ order ↔ entries[key]?.isSome := by
  rw [h.mem_order, Std.TreeMap.mem_iff_isSome_getElem?]

theorem insert (h : Matches entries order) (key : String) (a : α) :
    Matches (entries.insert key a) (order.erase key ++ [key]) where
  nodup := nodup_moved h.nodup key
  mem_order other := by
    rw [List.mem_append, List.mem_singleton, h.nodup.mem_erase_iff, Std.TreeMap.mem_insert,
      Std.LawfulEqCmp.compare_eq_iff_eq, h.mem_order other]
    by_cases hkey : other = key
    · simp [hkey]
    · simp [hkey, Ne.symm hkey]
  length_order := by
    rw [length_moved, Std.TreeMap.size_insert, ← h.length_order]
    simp [h.mem_order]

theorem erase (h : Matches entries order) (key : String) :
    Matches (entries.erase key) (order.erase key) where
  nodup := h.nodup.erase key
  mem_order other := by
    rw [h.nodup.mem_erase_iff, Std.TreeMap.mem_erase, Std.LawfulEqCmp.compare_eq_iff_eq.ne,
      h.mem_order other, ne_comm]
  length_order := by
    rw [Std.TreeMap.size_erase, ← h.length_order, List.length_erase]
    simp [h.mem_order]

/-- Moving a key to the end changes nothing but its place. -/
theorem requeue (h : Matches entries order) {key : String} (hkey : key ∈ order) :
    Matches entries (order.erase key ++ [key]) := by
  have hperm : (order.erase key ++ [key]).Perm order :=
    (List.perm_append_singleton key (order.erase key)).trans (List.perm_cons_erase hkey).symm
  exact ⟨hperm.nodup_iff.mpr h.nodup, fun other => hperm.mem_iff.trans (h.mem_order other),
    hperm.length_eq.trans h.length_order⟩

theorem tail {oldest : String} {rest : List String} (h : Matches entries (oldest :: rest)) :
    Matches (entries.erase oldest) rest := by
  have hrest := h.erase oldest
  rwa [List.erase_cons_head] at hrest

/-- As many keys are taken off the head of the queue as are too many. -/
theorem evict (h : Matches entries order) (capacity : Nat) :
    Matches (evict capacity entries order).1 (evict capacity entries order).2 ∧
      (Cache.evict capacity entries order).2 = order.drop (order.length - capacity) := by
  induction order generalizing entries with
  | nil => exact ⟨h, by simp [Cache.evict]⟩
  | cons oldest rest ih =>
    have hlength := h.length_order
    rw [List.length_cons] at hlength
    by_cases hsize : capacity < entries.size
    · rw [Cache.evict, if_pos hsize]
      obtain ⟨hmatches, hdrop⟩ := ih h.tail
      refine ⟨hmatches, ?_⟩
      rw [hdrop, List.length_cons, show rest.length + 1 - capacity = rest.length - capacity + 1
        by omega, List.drop_succ_cons]
    · rw [Cache.evict, if_neg hsize]
      refine ⟨h, ?_⟩
      rw [List.length_cons, show rest.length + 1 - capacity = 0 by omega, List.drop_zero]

/-- The queue is never empty before enough entries are out. -/
theorem rounds_eq (h : Matches entries order) (capacity : Nat) :
    rounds capacity entries order = (order.take (order.length - capacity)).map some := by
  induction order generalizing entries with
  | nil =>
    have hsize : ¬ capacity < entries.size := by
      rw [← h.length_order]
      exact Nat.not_lt_zero capacity
    rw [rounds, if_neg hsize]
    simp
  | cons oldest rest ih =>
    have hlength := h.length_order
    rw [List.length_cons] at hlength
    by_cases hsize : capacity < entries.size
    · rw [rounds, if_pos hsize, ih h.tail, List.length_cons,
        show rest.length + 1 - capacity = rest.length - capacity + 1 by omega, List.take_succ_cons,
        List.map_cons]
    · rw [rounds, if_neg hsize, List.length_cons,
        show rest.length + 1 - capacity = 0 by omega, List.take_zero, List.map_nil]

end Matches
end

/-! ## One operation -/

/-- The queue matches the entries, and there are not too many of them. -/
structure Kept (c : Cache α) : Prop extends Matches c.entries c.order where
  length_le : c.order.length ≤ c.capacity

/-- The queue once a key has been put, with nothing taken out yet. -/
def queued (c : Cache α) (key : String) : List String :=
  if c.entries.contains key then touch key c.order else c.order ++ [key]

/-- The rounds in which putting a key takes entries out. -/
def putRounds (c : Cache α) (key : String) (a : α) : List (Option String) :=
  if c.capacity = 0 then [] else rounds c.capacity (c.entries.insert key a) (c.queued key)

theorem put_of_capacity_ne_zero (c : Cache α) (h : c.capacity ≠ 0) (key : String) (a : α) :
    c.put key a =
      ⟨c.capacity, (evict c.capacity (c.entries.insert key a) (c.queued key)).1,
        (evict c.capacity (c.entries.insert key a) (c.queued key)).2⟩ := by
  rw [put, if_neg h]
  rfl

theorem touch_of_mem {key : String} {order : List String} (h : key ∈ order) :
    touch key order = order.erase key ++ [key] := by
  rw [touch, if_pos (List.contains_iff_mem.mpr h)]

@[simp] theorem capacity_apply (c : Cache α) (op : Op α) : (c.apply op).capacity = c.capacity := by
  cases op with
  | put key a =>
    rw [apply, put]
    split <;> rfl
  | get key =>
    rw [apply, get?]
    split <;> rfl
  | remove key =>
    rw [apply, remove]
    split <;> rfl
  | clear => rfl

@[simp] theorem capacity_applyAll (c : Cache α) (ops : List (Op α)) :
    (c.applyAll ops).capacity = c.capacity := by
  induction ops generalizing c with
  | nil => rfl
  | cons op ops ih => exact (ih (c.apply op)).trans (c.capacity_apply op)

theorem applyAll_append (c : Cache α) (a b : List (Op α)) :
    c.applyAll (a ++ b) = (c.applyAll a).applyAll b :=
  List.foldl_append

/-- The queue after the use of a key: the key stands at the end, and what is too
much is gone from the head. -/
def afterUse (capacity : Nat) (order : List String) (key : String) : List String :=
  (order.erase key ++ [key]).drop ((order.erase key ++ [key]).length - capacity)

namespace Kept

theorem empty (capacity : Nat) : (empty capacity : Cache α).Kept where
  nodup := List.nodup_nil
  mem_order key := by simp [Cache.empty]
  length_order := rfl
  length_le := Nat.zero_le capacity

variable {c : Cache α} (hc : c.Kept)
include hc

/-- A cache without room has no keys. -/
theorem capacity_pos_of_mem {key : String} (h : key ∈ c.order) : 0 < c.capacity :=
  Nat.lt_of_lt_of_le (List.length_pos_of_mem h) hc.length_le

theorem queued_eq (key : String) : c.queued key = c.order.erase key ++ [key] := by
  unfold queued
  split
  · rename_i hkey
    rw [touch_of_mem ((hc.mem_order key).mpr (Std.TreeMap.contains_iff_mem.mp hkey))]
  · rename_i hkey
    have hnot : key ∉ c.order :=
      fun hmem => hkey (Std.TreeMap.contains_iff_mem.mpr ((hc.mem_order key).mp hmem))
    rw [List.erase_of_not_mem hnot]

theorem matches_queued (key : String) (a : α) :
    Matches (c.entries.insert key a) (c.queued key) := by
  rw [hc.queued_eq key]
  exact hc.insert key a

theorem put (key : String) (a : α) : (c.put key a).Kept := by
  by_cases hzero : c.capacity = 0
  · rw [put_of_capacity_eq_zero c hzero]
    exact hc
  · obtain ⟨hmatches, hdrop⟩ := (hc.matches_queued key a).evict c.capacity
    rw [put_of_capacity_ne_zero c hzero]
    refine ⟨hmatches, ?_⟩
    show (evict c.capacity (c.entries.insert key a) (c.queued key)).2.length ≤ c.capacity
    rw [hdrop, List.length_drop]
    omega

theorem get (key : String) : (c.get? key).2.Kept := by
  unfold get?
  split
  · rename_i a hkey
    have hmem : key ∈ c.order := by
      rw [hc.mem_order_iff_isSome, hkey]
      rfl
    show Kept ⟨c.capacity, c.entries, touch key c.order⟩
    rw [touch_of_mem hmem]
    refine ⟨hc.requeue hmem, ?_⟩
    show (c.order.erase key ++ [key]).length ≤ c.capacity
    rw [length_moved, if_pos hmem]
    exact hc.length_le
  · exact hc

theorem remove (key : String) : (c.remove key).2.Kept := by
  unfold Cache.remove
  split
  · exact ⟨hc.erase key, Nat.le_trans (List.length_erase_le) hc.length_le⟩
  · exact hc

theorem apply (op : Op α) : (c.apply op).Kept := by
  cases op with
  | put key a => exact hc.put key a
  | get key => exact hc.get key
  | remove key => exact hc.remove key
  | clear => exact .empty c.capacity

theorem applyAll (ops : List (Op α)) : (c.applyAll ops).Kept := by
  induction ops generalizing c with
  | nil => exact hc
  | cons op ops ih => exact ih (hc.apply op)

theorem order_put (key : String) (a : α) :
    (c.put key a).order = afterUse c.capacity c.order key := by
  by_cases hzero : c.capacity = 0
  · have hlength := hc.length_le
    rw [hzero, Nat.le_zero, List.length_eq_zero_iff] at hlength
    rw [put_of_capacity_eq_zero c hzero, hlength, afterUse, hzero, Nat.sub_zero, List.drop_length]
  · obtain ⟨-, hdrop⟩ := (hc.matches_queued key a).evict c.capacity
    rw [put_of_capacity_ne_zero c hzero, afterUse, ← hc.queued_eq key]
    exact hdrop

theorem order_of_used {op : Op α} {key : String} (h : c.used? op = some key) :
    (c.apply op).order = afterUse c.capacity c.order key := by
  cases op with
  | put other a =>
    cases h
    exact hc.order_put key a
  | get other =>
    show (c.get? other).2.order = _
    have hfound : (c.get? other).1.isSome ∧ other = key := by
      simpa [used?, Option.isSome_iff_exists, ← exists_and_right] using h
    obtain ⟨hfound, rfl⟩ := hfound
    unfold get? at hfound ⊢
    split at hfound
    · rename_i a hget
      have hmem : other ∈ c.order := by
        rw [hc.mem_order_iff_isSome, hget]
        rfl
      rw [afterUse, length_moved, if_pos hmem, Nat.sub_eq_zero_of_le hc.length_le,
        List.drop_zero]
      exact touch_of_mem hmem
    · cases hfound
  | remove other => cases h
  | clear => cases h

end Kept

theorem get?_fst (c : Cache α) (key : String) : (c.get? key).1 = c.entries[key]? := by
  unfold get?
  split
  · rename_i a h
    exact h.symm
  · rename_i h
    exact h.symm

/-- Looking for what is not there changes nothing. -/
theorem get?_of_not_found {c : Cache α} {key : String} (h : (c.get? key).1 = none) :
    (c.get? key).2 = c := by
  unfold get? at h ⊢
  split at h
  · cases h
  · rfl

/-- What is not a use takes keys out of the queue, or leaves it as it is. -/
theorem sublist_of_not_used {c : Cache α} {op : Op α} (h : c.used? op = none) :
    (c.apply op).order.Sublist c.order := by
  cases op with
  | put key a => cases h
  | get key =>
    show (c.get? key).2.order.Sublist c.order
    rw [get?_of_not_found (Option.map_eq_none_iff.mp h)]
  | remove key =>
    show (c.remove key).2.order.Sublist c.order
    unfold remove
    split
    · exact List.erase_sublist
    · exact List.Sublist.refl c.order
  | clear => exact List.nil_sublist c.order

/-! ## The order of the last uses -/

/-- The queue is in the order in which its keys were used last. -/
structure Ordered (uses order : List String) : Prop where
  sorted : order.Pairwise fun key later => lastUse uses key < lastUse uses later
  used : ∀ key ∈ order, key ∈ uses

theorem Ordered.sublist {uses order rest : List String} (h : Ordered uses order)
    (hrest : rest.Sublist order) : Ordered uses rest :=
  ⟨h.sorted.sublist hrest, fun key hkey => h.used key (hrest.mem hkey)⟩

theorem Ordered.afterUse {uses order : List String} (h : Ordered uses order)
    (hnodup : order.Nodup) (capacity : Nat) (key : String) :
    Ordered (uses ++ [key]) (afterUse capacity order key) := by
  have hmoved : Ordered (uses ++ [key]) (order.erase key ++ [key]) := by
    refine ⟨?_, fun other hother => ?_⟩
    · rw [List.pairwise_append]
      refine ⟨?_, List.pairwise_singleton _ key, fun other hother last hlast => ?_⟩
      · refine (h.sorted.sublist List.erase_sublist).imp_of_mem fun ha hb hlt => ?_
        rw [lastUse_concat_of_ne uses (hnodup.mem_erase_iff.mp ha).1,
          lastUse_concat_of_ne uses (hnodup.mem_erase_iff.mp hb).1]
        exact hlt
      · have hle := lastUse_le uses other
        rw [List.mem_singleton.mp hlast, lastUse_concat_self,
          lastUse_concat_of_ne uses (hnodup.mem_erase_iff.mp hother).1]
        omega
    · rcases List.mem_append.mp hother with hother | hother
      · exact List.mem_append_left _ (h.used other (List.mem_of_mem_erase hother))
      · exact List.mem_append_right _ hother
  exact hmoved.sublist (List.drop_sublist _ _)

theorem Ordered.apply {c : Cache α} {uses : List String} (h : Ordered uses c.order) (hc : c.Kept)
    (op : Op α) : Ordered (uses ++ (c.used? op).toList) (c.apply op).order := by
  cases hused : c.used? op with
  | none =>
    rw [Option.toList_none, List.append_nil]
    exact h.sublist (sublist_of_not_used hused)
  | some key =>
    rw [hc.order_of_used hused]
    exact h.afterUse hc.nodup c.capacity key

theorem Ordered.applyAll {c : Cache α} {uses : List String} (h : Ordered uses c.order)
    (hc : c.Kept) (ops : List (Op α)) :
    Ordered (uses ++ c.uses ops) (c.applyAll ops).order := by
  induction ops generalizing c uses with
  | nil =>
    rw [Cache.uses, List.append_nil]
    exact h
  | cons op ops ih =>
    rw [Cache.uses, ← List.append_assoc]
    exact ih (h.apply hc op) (hc.apply op)

/-! ## Every reachable state -/

/-- The cache after operations on an empty one. -/
def after (capacity : Nat) (ops : List (Op α)) : Cache α :=
  (empty capacity).applyAll ops

/-- The keys that these operations use. -/
def history (capacity : Nat) (ops : List (Op α)) : List String :=
  (empty capacity : Cache α).uses ops

theorem after_append (capacity : Nat) (a b : List (Op α)) :
    after capacity (a ++ b) = (after capacity a).applyAll b :=
  applyAll_append (empty capacity) a b

theorem kept_after (capacity : Nat) (ops : List (Op α)) : (after capacity ops).Kept :=
  (Kept.empty capacity).applyAll ops

theorem ordered_after (capacity : Nat) (ops : List (Op α)) :
    Ordered (history capacity ops) (after capacity ops).order := by
  have hempty : Ordered [] (empty capacity : Cache α).order :=
    ⟨List.Pairwise.nil, fun key hkey => by cases hkey⟩
  exact hempty.applyAll (Kept.empty capacity) ops

theorem capacity_after (capacity : Nat) (ops : List (Op α)) :
    (after capacity ops).capacity = capacity :=
  capacity_applyAll (empty capacity) ops

/-- Putting a key takes out the head of the queue, if the cache was full and did
not have the key. -/
theorem Kept.putRounds_eq {c : Cache α} (hc : c.Kept) (key : String) (a : α) :
    c.putRounds key a = [] ∨
      ∃ oldest rest, c.order = oldest :: rest ∧ oldest ≠ key ∧ c.putRounds key a = [some oldest] ∧
        oldest ∉ (c.put key a).entries := by
  by_cases hzero : c.capacity = 0
  · exact .inl (if_pos hzero)
  · have hmatches := hc.matches_queued key a
    have hrounds := hmatches.rounds_eq c.capacity
    have hlength := hc.length_le
    rw [putRounds, if_neg hzero, hrounds, hc.queued_eq key]
    by_cases hfull : key ∉ c.order ∧ c.order.length = c.capacity
    · obtain ⟨hkey, hfull⟩ := hfull
      obtain ⟨oldest, rest, horder⟩ := List.exists_cons_of_ne_nil
        (List.ne_nil_of_length_pos (by omega : 0 < c.order.length))
      have hone : (c.order.erase key ++ [key]).length - c.capacity = 1 := by
        rw [length_moved, if_neg hkey, hfull, Nat.add_sub_cancel_left]
      have hmoved : c.order.erase key ++ [key] = oldest :: (rest ++ [key]) := by
        rw [List.erase_of_not_mem hkey, horder, List.cons_append]
      have hnodup := hc.nodup
      rw [horder, List.nodup_cons] at hnodup
      rw [horder, List.mem_cons, not_or] at hkey
      refine .inr ⟨oldest, rest, horder, Ne.symm hkey.1, ?_, ?_⟩
      · rw [hone, hmoved]
        rfl
      · rw [← (hc.put key a).mem_order, hc.order_put key a, afterUse, hone, hmoved,
          List.drop_succ_cons, List.drop_zero, List.mem_append, List.mem_singleton]
        exact not_or.mpr ⟨hnodup.1, Ne.symm hkey.1⟩
    · refine .inl ?_
      have hfits : (c.order.erase key ++ [key]).length ≤ c.capacity := by
        rw [length_moved]
        split
        · exact hlength
        · rename_i hkey
          have hnot : c.order.length ≠ c.capacity := fun heq => hfull ⟨hkey, heq⟩
          omega
      rw [Nat.sub_eq_zero_of_le hfits, List.take_zero, List.map_nil]

/-- What is put into a cache with room is there. -/
theorem Kept.getElem?_put_self {c : Cache α} (hc : c.Kept) (hpos : c.capacity ≠ 0) (key : String)
    (a : α) : (c.put key a).entries[key]? = some a := by
  have hrounds : some key ∉ rounds c.capacity (c.entries.insert key a) (c.queued key) := by
    have hput := hc.putRounds_eq key a
    rw [putRounds, if_neg hpos] at hput
    rcases hput with hnone | ⟨oldest, -, -, hne, hone, -⟩
    · rw [hnone]
      exact List.not_mem_nil
    · rw [hone, List.mem_singleton]
      exact fun heq => hne (Option.some.inj heq).symm
  rw [put_of_capacity_ne_zero c hpos]
  show (evict c.capacity (c.entries.insert key a) (c.queued key)).1[key]? = some a
  rw [getElem?_evict hrounds, Std.TreeMap.getElem?_insert_self]

/-- The keys whose entries an operation may change: one that is put or removed, and
those that are taken out for it. -/
def Concerns (c : Cache α) : Op α → String → Prop
  | .put key a, other => other = key ∨ some other ∈ c.putRounds key a
  | .get _, _ => False
  | .remove key, other => other = key
  | .clear, _ => True

/-- No other entry is changed. -/
theorem getElem?_apply {c : Cache α} {op : Op α} {key : String} (h : ¬ c.Concerns op key) :
    (c.apply op).entries[key]? = c.entries[key]? := by
  cases op with
  | put other a =>
    obtain ⟨hne, hrounds⟩ := not_or.mp h
    show (c.put other a).entries[key]? = _
    by_cases hzero : c.capacity = 0
    · rw [put_of_capacity_eq_zero c hzero]
    · rw [putRounds, if_neg hzero] at hrounds
      rw [put_of_capacity_ne_zero c hzero]
      show (evict c.capacity (c.entries.insert other a) (c.queued other)).1[key]? = _
      rw [getElem?_evict hrounds, Std.TreeMap.getElem?_insert,
        if_neg (mt Std.LawfulEqCmp.eq_of_compare (Ne.symm hne))]
  | get other =>
    show (c.get? other).2.entries[key]? = _
    unfold get?
    split <;> rfl
  | remove other =>
    show (c.remove other).2.entries[key]? = _
    unfold remove
    split
    · show (c.entries.erase other)[key]? = _
      rw [Std.TreeMap.getElem?_erase, if_neg (mt Std.LawfulEqCmp.eq_of_compare (Ne.symm h))]
    · rfl
  | clear => exact absurd trivial h

/-- After any operations the queue has the keys of the entries, each once, in the
order of their last uses and no more than the capacity.  Putting a key then takes
out at most one other, the one that was used least recently, and never looks for
one in an empty queue.  Entries that an operation does not concern are kept. -/
theorem reachable_upkeep (capacity : Nat) (ops : List (Op α)) :
    ((after capacity ops).order.Nodup ∧
      (∀ key, key ∈ (after capacity ops).order ↔ key ∈ (after capacity ops).entries) ∧
      ((after capacity ops).order.Pairwise fun key later =>
        lastUse (history capacity ops) key < lastUse (history capacity ops) later) ∧
      (∀ key ∈ (after capacity ops).order, key ∈ history capacity ops) ∧
      (after capacity ops).order.length ≤ capacity) ∧
    (∀ key a, (after capacity ops).putRounds key a = [] ∨
      ∃ oldest ∈ (after capacity ops).order, oldest ≠ key ∧
        (after capacity ops).putRounds key a = [some oldest] ∧
        oldest ∉ ((after capacity ops).put key a).entries ∧
        ∀ other ∈ (after capacity ops).order, other ≠ oldest →
          lastUse (history capacity ops) oldest < lastUse (history capacity ops) other) ∧
    ∀ op key, ¬ (after capacity ops).Concerns op key →
      ((after capacity ops).apply op).entries[key]? = (after capacity ops).entries[key]? := by
  have hkept := kept_after capacity ops
  have hordered := ordered_after capacity ops
  have hlength := hkept.length_le
  rw [capacity_after] at hlength
  refine ⟨⟨hkept.nodup, hkept.mem_order, hordered.sorted, hordered.used, hlength⟩,
    fun key a => ?_, fun op key => getElem?_apply⟩
  rcases hkept.putRounds_eq key a with hnone | ⟨oldest, rest, horder, hne, hone, hgone⟩
  · exact .inl hnone
  · refine .inr ⟨oldest, ?_, hne, hone, hgone, fun other hother hdiffers => ?_⟩
    · rw [horder]
      exact List.mem_cons_self
    · have hsorted := hordered.sorted
      rw [horder] at hother hsorted
      rcases List.mem_cons.mp hother with heq | hother
      · exact absurd heq hdiffers
      · exact (List.pairwise_cons.mp hsorted).1 other hother

/-- In a full cache the key that was not looked up makes room for a new one, and the
other keeps its entry. -/
theorem upkeep_full :
    (after 2 [.put "a" 1, .put "b" 2, .get "a"]).putRounds "c" 3 = [some "b"] ∧
      ((after 2 [.put "a" 1, .put "b" 2, .get "a"]).apply (.put "c" 3)).entries["a"]? = some 1 := by
  have hrounds : (after 2 [.put "a" 1, .put "b" 2, .get "a"]).putRounds "c" 3 = [some "b"] := rfl
  obtain ⟨-, -, hkept⟩ := reachable_upkeep 2 [.put "a" 1, .put "b" 2, .get "a"]
  refine ⟨hrounds, ?_⟩
  rw [hkept (.put "c" 3) "a" (by simp [Concerns, hrounds])]
  rfl

end Cache
end BoundSql
