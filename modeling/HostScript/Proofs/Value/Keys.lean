import Mathlib.Data.List.Nodup
import HostScript.Proofs.Number.Digits
import HostScript.Value.Property

/-!
# The keys that a loop visits

* `orderedKeys_perm`: an object's keys are only put in another order.
* `Value.enumerableKeys_nodup`: no key of a value is listed twice.
-/

namespace HostScript

/-- Different indices have different numerals. -/
theorem indexKeys_nodup (length : Nat) : (indexKeys length).Nodup :=
  List.Nodup.map decimalText_injective List.nodup_range

/-- The keys that name indices, each with its index. -/
def indexedKeys (keys : List String) : List (Nat × String) :=
  keys.filterMap fun key => (arrayIndex? key).map fun index => (index, key)

/-- The keys that name no index. -/
def namedKeys (keys : List String) : List String := keys.filter fun key => (arrayIndex? key).isNone

/-- The keys that are indices, in the order in which they were. -/
theorem map_snd_indexedKeys (keys : List String) :
    (indexedKeys keys).map Prod.snd = keys.filter fun key => !(arrayIndex? key).isNone := by
  induction keys with
  | nil => rfl
  | cons key rest ih =>
    rw [indexedKeys] at ih ⊢
    cases hindex : arrayIndex? key <;> simp [hindex, ih]

/-- Each key is either an index or not, so putting one kind before the other only reorders. -/
theorem orderedKeys_perm (keys : List String) : (orderedKeys keys).Perm keys := by
  have hindexed := (List.mergeSort_perm (indexedKeys keys) fun a b => a.1 ≤ b.1).map Prod.snd
  rw [map_snd_indexedKeys] at hindexed
  have hall := List.filter_append_perm (fun key => (arrayIndex? key).isNone) keys
  exact ((hindexed.append_right _).trans List.perm_append_comm).trans hall

/-- Arrays and strings have distinct indices, and objects distinct keys. -/
theorem Value.enumerableKeys_nodup (h : Heap) (v : Value) : (v.enumerableKeys h).Nodup := by
  cases v with
  | object a => exact (orderedKeys_perm _).nodup_iff.2 (h.object a).nodup
  | array a => exact indexKeys_nodup _
  | string s => exact indexKeys_nodup _
  | _ => exact List.nodup_nil

end HostScript
