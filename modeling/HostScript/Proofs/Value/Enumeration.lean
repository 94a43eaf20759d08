import HostScript.Proofs.OrderedMap
import HostScript.Proofs.Value.Keys
import HostScript.Proofs.Value.Stores

/-!
# Enumeration and membership

The keys that a loop visits are the keys that are found, each of them once; only the `length` of an
array is found and not visited. The indices among them come first and ascend, the other keys follow
in the order in which they were first written. Two keys never name one index, so there is only one
such order, however the indices are sorted.

* `KeysInOrder`: the order of the keys.
* `orderedKeys_inOrder`, `orderedKeys_eq_of_sorted`: an object's keys are in this order, which any
  way of sorting comes to.
* `Value.HoldsProperties`: objects, and arrays that are no longer than the longest.
* `Heap.Written.holdsProperties`, `Heap.Written.keys_object`: what they are after writes.
* `enumeration_agrees`: enumeration, membership, reading and writing agree.
-/

namespace HostScript

/-! ## The order of the keys -/

/-- Both keys name indices, the first one the smaller of the two. -/
def IndexLt (key other : String) : Prop :=
  ∃ index index', arrayIndex? key = some index ∧ arrayIndex? other = some index' ∧ index < index'

/-- Keys in order: ascending indices, then the keys in `named`, which are none. -/
structure KeysInOrder (named listed : List String) : Prop where
  exists_indexed : ∃ indexed, listed = indexed ++ named ∧ indexed.Pairwise IndexLt ∧
    ∀ key ∈ indexed, (arrayIndex? key).isSome
  named_eq : ∀ key ∈ named, arrayIndex? key = none

theorem arrayIndex?_of_mem_indexedKeys {keys : List String} {entry : Nat × String}
    (hentry : entry ∈ indexedKeys keys) : arrayIndex? entry.2 = some entry.1 ∧ entry.2 ∈ keys := by
  obtain ⟨key, hkey, hindexed⟩ := List.mem_filterMap.1 hentry
  obtain ⟨index, hindex, rfl⟩ := Option.map_eq_some_iff.1 hindexed
  exact ⟨hindex, hkey⟩

theorem pairwise_mergeSort_indices (entries : List (Nat × String)) :
    (entries.mergeSort fun a b => a.1 ≤ b.1).Pairwise fun a b => a.1 ≤ b.1 := by
  refine (List.pairwise_mergeSort (fun a b c hab hbc => ?_) (fun a b => ?_) _).imp of_decide_eq_true
  · exact decide_eq_true ((of_decide_eq_true hab).trans (of_decide_eq_true hbc))
  · rw [Bool.or_eq_true, decide_eq_true_iff, decide_eq_true_iff]
    exact Nat.le_total ..

/-- Whichever way the indices are sorted, the order is the same: two entries with one index are the
same entry, so there is nothing that could change places. -/
theorem orderedKeys_eq_of_sorted {keys : List String} {sorted : List (Nat × String)}
    (hperm : sorted.Perm (indexedKeys keys)) (hsorted : sorted.Pairwise fun a b => a.1 ≤ b.1) :
    orderedKeys keys = sorted.map Prod.snd ++ namedKeys keys := by
  have hmergePerm := List.mergeSort_perm (indexedKeys keys) fun a b => a.1 ≤ b.1
  have hsame : sorted = (indexedKeys keys).mergeSort fun a b => a.1 ≤ b.1 := by
    refine List.Perm.eq_of_pairwise (fun a b ha hb hab hba => ?_) hsorted
      (pairwise_mergeSort_indices _) (hperm.trans hmergePerm.symm)
    have hindex : a.1 = b.1 := Nat.le_antisymm hab hba
    obtain ⟨ha, -⟩ := arrayIndex?_of_mem_indexedKeys (hperm.mem_iff.1 ha)
    obtain ⟨hb, -⟩ := arrayIndex?_of_mem_indexedKeys (hmergePerm.mem_iff.1 hb)
    rw [hindex] at ha
    exact Prod.ext hindex (arrayIndex?_injective ha hb)
  rw [hsame]
  rfl

theorem orderedKeys_inOrder {keys : List String} (hnodup : keys.Nodup) :
    KeysInOrder (namedKeys keys) (orderedKeys keys) := by
  have hmem {entry : Nat × String}
      (hentry : entry ∈ (indexedKeys keys).mergeSort fun a b => a.1 ≤ b.1) :
      arrayIndex? entry.2 = some entry.1 :=
    (arrayIndex?_of_mem_indexedKeys ((List.mergeSort_perm ..).mem_iff.1 hentry)).1
  -- Sorted indices ascend weakly. They do so strictly because no key is listed twice.
  have hdistinct : ((indexedKeys keys).mergeSort fun a b => a.1 ≤ b.1).Pairwise
      fun a b => a.2 ≠ b.2 :=
    List.pairwise_map.1 ((orderedKeys_perm keys).nodup_iff.2 hnodup).of_append_left
  refine ⟨⟨_, rfl, ?_, fun key hkey => ?_⟩, fun key hkey => ?_⟩
  · refine List.pairwise_map.2 (((pairwise_mergeSort_indices _).and hdistinct).imp_of_mem ?_)
    rintro a b ha hb ⟨hle, hne⟩
    refine ⟨a.1, b.1, hmem ha, hmem hb, lt_of_le_of_ne hle fun hindex => hne ?_⟩
    exact arrayIndex?_injective (hindex ▸ hmem ha) (hmem hb)
  · obtain ⟨entry, hentry, rfl⟩ := List.mem_map.1 hkey
    rw [hmem hentry, Option.isSome_some]
  · exact Option.isNone_iff_eq_none.1 (List.mem_filter.1 hkey).2

/-- The keys of an array are its indices in order, and no others. -/
theorem indexKeys_inOrder {length : Nat} (hlength : length ≤ maxArrayLength) :
    KeysInOrder [] (indexKeys length) := by
  refine ⟨⟨indexKeys length, (List.append_nil _).symm, ?_, fun key hkey => ?_⟩, by simp⟩
  · refine List.pairwise_map.2 (List.pairwise_lt_range.imp_of_mem ?_)
    intro index index' hindex hindex' hlt
    rw [List.mem_range] at hindex hindex'
    exact ⟨index, index', arrayIndex?_decimalText (by omega), arrayIndex?_decimalText (by omega),
      hlt⟩
  · obtain ⟨index, hindex, -⟩ := (mem_indexKeys hlength).1 hkey
    rw [hindex, Option.isSome_some]

/-! ## Objects and arrays under writes -/

/-- An object, or an array that is no longer than the longest. -/
inductive Value.HoldsProperties (h : Heap) : Value → Prop where
  | object {a : Addr} {properties : OrderedMap Value} (ha : h.cell a = .object properties) :
    HoldsProperties h (.object a)
  | array {a : Addr} {elements : Array Value} (ha : h.cell a = .array elements)
    (hsize : elements.size ≤ maxArrayLength) : HoldsProperties h (.array a)

/-- What a write adds to the object at an address. -/
def PropertyWrite.added? (write : PropertyWrite) (a : Addr) : Option (String × Value) :=
  match write.target with
  | .object b => if b = a then some (write.key, write.value) else none
  | _ => none

/-- The keys that a value has after some writes and that are no indices, in the order in which they
were first written. Arrays have none. -/
def Value.namesAfter (h : Heap) (writes : List PropertyWrite) : Value → List String
  | .object a =>
    namedKeys ((h.object a).keys ++ (writes.filterMap (·.added? a)).map Prod.fst).eraseDups
  | _ => []

theorem PropertyWrite.cell_of_done {write : PropertyWrite} {h h' : Heap} {a : Addr}
    {properties : OrderedMap Value} (hwrite : write.result? h = some (.ok h'))
    (ha : h.cell a = .object properties) :
    h'.cell a = .object (properties.insertAll (write.added? a).toList) := by
  have hcell := Value.writesCell_of_setProperty hwrite a
  rw [ha] at hcell
  generalize h'.cell a = c at hcell ⊢
  cases hcell with
  | same harray hobject =>
    -- The cell is that of an object, so the write was to another one.
    have hnone : write.added? a = none := by
      unfold added?
      split
      · next b htarget =>
        refine if_neg ?_
        rintro rfl
        exact hobject htarget properties rfl
      · rfl
    rw [hnone]
    rfl
  | object properties htarget =>
    have hadded : write.added? a = some (write.key, write.value) := by
      rw [added?, htarget]
      exact if_pos rfl
    rw [hadded]
    rfl

/-- A write that is refused is none to an object. -/
theorem PropertyWrite.added?_of_refused {write : PropertyWrite} {h : Heap} {e : EvalError}
    (hwrite : write.result? h = some (.error e)) (a : Addr) : write.added? a = none := by
  unfold added?
  split
  · next b htarget =>
    rw [result?, htarget] at hwrite
    cases hwrite
  · rfl

namespace Heap.Written

variable {h h' : Heap} {writes : List PropertyWrite}

/-- An object holds what it held and what was written to it, one after another. -/
theorem cell_object {a : Addr} {properties : OrderedMap Value} (hwritten : h.Written writes h')
    (ha : h.cell a = .object properties) :
    h'.cell a = .object (properties.insertAll (writes.filterMap (·.added? a))) := by
  induction hwritten generalizing properties with
  | nil => exact ha
  | @done h h' h'' write writes hwrite hrest ih =>
    rw [ih (write.cell_of_done hwrite ha), ← OrderedMap.insertAll_append, List.filterMap_cons]
    cases write.added? a <;> rfl
  | refused hwrite hrest ih =>
    rw [ih ha, List.filterMap_cons, PropertyWrite.added?_of_refused hwrite]

theorem holdsProperties {v : Value} (hwritten : h.Written writes h') (hv : v.HoldsProperties h) :
    v.HoldsProperties h' := by
  cases hv with
  | object ha => exact .object (hwritten.cell_object ha)
  | array ha hsize =>
    obtain ⟨after, hafter, hmost, -⟩ := hwritten.exists_array ha hsize
    exact .array hafter hmost

theorem keys_object {a : Addr} {properties : OrderedMap Value} (hwritten : h.Written writes h')
    (ha : h.cell a = .object properties) :
    (h'.object a).keys =
      ((h.object a).keys ++ (writes.filterMap (·.added? a)).map Prod.fst).eraseDups := by
  rw [object, hwritten.cell_object ha, object, ha]
  exact OrderedMap.keys_insertAll_eq_eraseDups ..

end Heap.Written

/-! ## Enumeration, membership, reading and writing -/

namespace Value

variable {h h' : Heap} {v : Value} {key : String}

/-- The one property that is found and not visited. -/
def IsHidden (v : Value) (key : String) : Prop := key = "length" ∧ ∃ a, v = .array a

theorem mem_orderedKeys {keys : List String} : key ∈ orderedKeys keys ↔ key ∈ keys :=
  (orderedKeys_perm keys).mem_iff

/-- Objects and arrays can be asked for every key, and the answer is whether a loop visits it. -/
theorem HoldsProperties.hasProperty_eq (hv : v.HoldsProperties h) (key : String) :
    ∃ found, v.hasProperty h key = .ok found ∧
      (found = true ↔ key ∈ v.enumerableKeys h ∨ v.IsHidden key) := by
  cases hv with
  | @object a properties ha =>
    refine ⟨_, rfl, ?_⟩
    rw [enumerableKeys, mem_orderedKeys, OrderedMap.contains_iff_mem_keys]
    simp [IsHidden]
  | @array a elements ha hsize =>
    have hlength : (h.array a).size ≤ maxArrayLength := by rw [Heap.array, ha]; exact hsize
    refine ⟨_, rfl, ?_⟩
    rw [enumerableKeys, mem_indexKeys hlength, Bool.or_eq_true, beq_iff_eq, Option.any_eq_true]
    simp [IsHidden, or_comm]

theorem HoldsProperties.keysInOrder (hv : v.HoldsProperties h)
    {writes : List PropertyWrite} (hwritten : h.Written writes h') :
    KeysInOrder (v.namesAfter h writes) (v.enumerableKeys h') := by
  cases hv with
  | @object a properties ha =>
    rw [namesAfter, ← hwritten.keys_object ha]
    exact orderedKeys_inOrder (h'.object a).nodup
  | array ha hsize =>
    obtain ⟨after, hafter, hmost, -⟩ := hwritten.exists_array ha hsize
    refine indexKeys_inOrder ?_
    rw [Heap.array, hafter]
    exact hmost

/-- What is not found reads as undefined. -/
theorem HoldsProperties.getProperty_of_not_found (hv : v.HoldsProperties h)
    (hfound : v.hasProperty h key = .ok false) : v.getProperty h key = .ok .undefined := by
  cases hv with
  | @object a properties ha =>
    have hnone : (h.object a).get? key = none :=
      Option.isNone_iff_eq_none.1 (Option.isSome_eq_false_iff.1 (Except.ok.inj hfound))
    rw [getProperty, hnone, Option.getD_none]
  | @array a elements ha hsize =>
    obtain ⟨hlength, hindex⟩ := Bool.or_eq_false_iff.1 (Except.ok.inj hfound)
    rw [getProperty_array, arrayProperty, if_neg (by simpa using hlength)]
    cases hkey : arrayIndex? key with
    | none => rfl
    | some index =>
      rw [hkey, Option.any_some, decide_eq_false_iff_not] at hindex
      rw [Option.map_some, Option.getD_some, elementAt_of_size_le (not_lt.1 hindex)]

/-- What has been written is found. -/
theorem HoldsProperties.hasProperty_of_written {value : Value} (hv : v.HoldsProperties h)
    (hset : v.setProperty h key value = some (.ok h')) : v.hasProperty h' key = .ok true := by
  cases hv with
  | @object a properties ha =>
    obtain rfl : h.modifyObject a (·.insert key value) = h' := Except.ok.inj (Option.some.inj hset)
    rw [hasProperty, h.object_modifyObject_self a _ ha, OrderedMap.contains,
      OrderedMap.get?_insert_self, Option.isSome_some]
  | @array a elements ha hsize =>
    obtain ⟨after, haccepts, rfl⟩ := (setProperty_array_eq_ok_iff ha).1 hset
    rw [hasProperty, h.array_modifyArray_self a _ ha]
    cases hkey : arrayIndex? key with
    | some index =>
      have hsize := haccepts.size_of_index hkey
      simp [hsize]
    | none =>
      -- Without an index it was the length that was written, which is always found.
      cases haccepts with
      | element hindex =>
        rw [hkey] at hindex
        cases hindex
      | length hlength => simp [hlength]

/-- What is found already stays where it is when it is written again. -/
theorem HoldsProperties.enumerableKeys_of_overwritten {value : Value} (hv : v.HoldsProperties h)
    (hset : v.setProperty h key value = some (.ok h')) (hfound : v.hasProperty h key = .ok true)
    (hshown : ¬ v.IsHidden key) : v.enumerableKeys h' = v.enumerableKeys h := by
  cases hv with
  | @object a properties ha =>
    obtain rfl : h.modifyObject a (·.insert key value) = h' := Except.ok.inj (Option.some.inj hset)
    have hmem : key ∈ (h.object a).keys :=
      (OrderedMap.contains_iff_mem_keys ..).1 (Except.ok.inj hfound)
    have hbefore : h.object a = properties := by rw [Heap.object, ha]
    rw [hbefore] at hmem
    rw [enumerableKeys, enumerableKeys, h.object_modifyObject_self a _ ha, OrderedMap.keys_insert,
      if_pos hmem, hbefore]
  | @array a elements ha hsize =>
    obtain ⟨after, haccepts, rfl⟩ := (setProperty_array_eq_ok_iff ha).1 hset
    have hbefore : h.array a = elements := by rw [Heap.array, ha]
    have hlength : key ≠ "length" := fun hlength => hshown ⟨hlength, a, rfl⟩
    have hfound := Bool.or_eq_true_iff.1 (Except.ok.inj hfound)
    -- The key that was found is no length, hence an index inside of the array.
    obtain ⟨index, hkey, hinside⟩ :=
      (Option.any_eq_true ..).1 (hfound.resolve_left (by simpa using hlength))
    have hsize := haccepts.size_of_index hkey
    rw [hbefore, decide_eq_true_iff] at hinside
    rw [enumerableKeys, enumerableKeys, h.array_modifyArray_self a _ ha, hbefore, hsize,
      Nat.max_eq_left hinside]

end Value

/-- After any sequence of writes, a loop over an object or an array visits each key that is found
once, apart from the `length` of an array: indices first and in ascending order, then the other keys
in the order in which they were first written, whichever way the indices have been sorted. What is
not found reads as undefined; what is written next is found then, and stays where it was if it was
found already. -/
theorem enumeration_agrees {h h' : Heap} {writes : List PropertyWrite} {v : Value}
    (hv : v.HoldsProperties h) (hwritten : h.Written writes h') :
    (v.enumerableKeys h').Nodup ∧
      (∀ key, ∃ found, v.hasProperty h' key = .ok found ∧
        (found = true ↔ key ∈ v.enumerableKeys h' ∨ v.IsHidden key)) ∧
      (∀ key, v.IsHidden key → key ∉ v.enumerableKeys h') ∧
      KeysInOrder (v.namesAfter h writes) (v.enumerableKeys h') ∧
      (∀ a (sorted : List (Nat × String)), v = .object a →
        sorted.Perm (indexedKeys (h'.object a).keys) →
        (sorted.Pairwise fun entry other => entry.1 ≤ other.1) →
        v.enumerableKeys h' = sorted.map Prod.snd ++ v.namesAfter h writes) ∧
      (∀ key, v.hasProperty h' key = .ok false → v.getProperty h' key = .ok .undefined) ∧
      ∀ key value h'', v.setProperty h' key value = some (.ok h'') →
        v.hasProperty h'' key = .ok true ∧
          (v.hasProperty h' key = .ok true → ¬ v.IsHidden key →
            v.enumerableKeys h'' = v.enumerableKeys h') := by
  have hv' := hwritten.holdsProperties hv
  refine ⟨v.enumerableKeys_nodup h', hv'.hasProperty_eq, ?_, hv.keysInOrder hwritten, ?_,
    fun key => hv'.getProperty_of_not_found, fun key value h'' hset =>
      ⟨hv'.hasProperty_of_written hset, hv'.enumerableKeys_of_overwritten hset⟩⟩
  · rintro key ⟨rfl, a, rfl⟩ hmem
    cases hv' with
    | array ha hsize =>
      have hlength : (h'.array a).size ≤ maxArrayLength := by rw [Heap.array, ha]; exact hsize
      obtain ⟨index, hindex, -⟩ := (mem_indexKeys hlength).1 hmem
      exact ne_length_of_arrayIndex? hindex rfl
  · rintro a sorted rfl hperm hsorted
    cases hv with
    | object ha =>
      rw [Value.namesAfter, ← hwritten.keys_object ha]
      exact orderedKeys_eq_of_sorted hperm hsorted

/-- A heap with one object, of two keys of which the second is an index. -/
def nameAndIndex : Heap := { cells := #[.object (.ofList [("b", .null), ("2", .null)])] }

/-- A smaller index, a new name and a known one, written to that object. -/
def threeWrites : List PropertyWrite :=
  [⟨.object 0, "1", .null⟩, ⟨.object 0, "a", .null⟩, ⟨.object 0, "b", .bool true⟩]

/-- The indices come first, the known name stays in front of the new one. -/
theorem enumeration_agrees_of_three_writes :
    ∃ h', (Value.object 0).HoldsProperties nameAndIndex ∧ nameAndIndex.Written threeWrites h' ∧
      (Value.object 0).enumerableKeys h' = ["1", "2", "b", "a"] ∧
      (Value.object 0).getProperty h' "c" = .ok .undefined := by
  have hv : (Value.object 0).HoldsProperties nameAndIndex := .object rfl
  have hwritten := show nameAndIndex.Written threeWrites _ from
    .done rfl (.done rfl (.done rfl (.nil _)))
  obtain ⟨-, -, -, -, hsorted, hmissing, -⟩ := enumeration_agrees hv hwritten
  refine ⟨_, hv, hwritten, ?_, hmissing "c" rfl⟩
  exact hsorted 0 [(1, "1"), (2, "2")] rfl (by decide) (by decide)

end HostScript
