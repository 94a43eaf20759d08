import Mathlib.Data.List.Induction
import Mathlib.Data.List.Perm.Subperm
import HostScript.OrderedMap

/-!
# What insertions do to a map

The keys and values of a map after one binding (`mem_values_insert`) and after many
(`keys_insertAll`, `get?_insertAll`): keys that were bound before keep their place, new ones follow
in the order in which they come. A map is what its keys and look-ups are (`ext_get?`), so bindings
that come in two goes come to the same as in one (`insertAll_insertAll`). Look-ups alone do not
depend on the order of the keys (`get?_of_perm`).

`map` changes the values and keeps the keys where they are.
-/

namespace HostScript.OrderedMap

variable {α β : Type}

/-! ## Entries and look-ups -/

/-- Keys are distinct, so a look-up finds the entry with its key, wherever that stands. -/
theorem get?_eq_some_iff (m : OrderedMap α) {key : String} {value : α} :
    m.get? key = some value ↔ (key, value) ∈ m.entries := by
  have hentries : ∀ entries : List (String × α), (entries.map Prod.fst).Nodup →
      (entries.lookup key = some value ↔ (key, value) ∈ entries) := by
    intro entries
    induction entries with
    | nil => simp
    | cons entry rest ih =>
      obtain ⟨k, v⟩ := entry
      intro hnodup
      obtain ⟨hk, hrest⟩ := List.nodup_cons.1 hnodup
      by_cases hkey : key = k
      · subst hkey
        have hnot : (key, value) ∉ rest := fun hmem => hk (List.mem_map.2 ⟨_, hmem, rfl⟩)
        simp [hnot, eq_comm]
      · simp [List.lookup_cons, beq_eq_false_iff_ne.2 hkey, hkey, ih hrest]
  exact hentries m.entries m.nodup

theorem mem_values_of_get? (m : OrderedMap α) {key : String} {value : α}
    (hvalue : m.get? key = some value) : value ∈ m.values :=
  List.mem_map.2 ⟨_, m.get?_eq_some_iff.1 hvalue, rfl⟩

theorem mem_keys_of_get? (m : OrderedMap α) {key : String} {value : α}
    (hvalue : m.get? key = some value) : key ∈ m.keys :=
  List.mem_map.2 ⟨_, m.get?_eq_some_iff.1 hvalue, rfl⟩

theorem mem_values_iff (m : OrderedMap α) {value : α} :
    value ∈ m.values ↔ ∃ key, m.get? key = some value := by
  constructor
  · intro hvalue
    obtain ⟨⟨key, v⟩, hmem, rfl⟩ := List.mem_map.1 hvalue
    exact ⟨key, m.get?_eq_some_iff.2 hmem⟩
  · rintro ⟨key, hkey⟩
    exact m.mem_values_of_get? hkey

/-! ## The same keys -/

section Keys

variable {m n : OrderedMap α}

/-- Maps with the same keys are of one size. -/
theorem size_eq_of_keys (hkeys : ∀ key, key ∈ m.keys ↔ key ∈ n.keys) : m.size = n.size := by
  have hperm : m.keys.Perm n.keys := (List.perm_ext_iff_of_nodup m.nodup n.nodup).2 hkeys
  simpa [keys, size] using hperm.length_eq

/-- Of two maps of one size, if one has all keys of the other one, both have the same. -/
theorem keys_iff_of_size_eq (hsize : m.size = n.size) (hsub : ∀ key ∈ m.keys, key ∈ n.keys)
    (key : String) : key ∈ m.keys ↔ key ∈ n.keys := by
  have hlength : n.keys.length ≤ m.keys.length := by simpa [keys, size] using Nat.le_of_eq hsize.symm
  exact ((List.subperm_of_subset m.nodup hsub).perm_of_length_le hlength).mem_iff

/-- The order of the entries does not matter to what is bound. -/
theorem get?_of_perm (hperm : m.entries.Perm n.entries) (key : String) :
    m.get? key = n.get? key := by
  refine Option.ext fun v => ?_
  rw [get?_eq_some_iff, get?_eq_some_iff, hperm.mem_iff]

end Keys

/-! ## One binding -/

/-- A binding brings in no value but its own. -/
theorem mem_values_insert {m : OrderedMap α} {key : String} {value v : α}
    (hv : v ∈ (m.insert key value).values) : v ∈ m.values ∨ v = value := by
  obtain ⟨⟨k, u⟩, hmem, rfl⟩ := List.mem_map.1 hv
  have hget := (get?_eq_some_iff _).2 hmem
  rw [get?_insert] at hget
  split at hget
  · exact .inr (Option.some.inj hget).symm
  · exact .inl (mem_values_of_get? m hget)

/-! ## Many bindings -/

theorem mem_values_of_filter {m : OrderedMap α} {keep : String → Bool} {value : α}
    (h : value ∈ (m.filter keep).values) : value ∈ m.values := by
  obtain ⟨name, hname⟩ := (mem_values_iff _).1 h
  rw [get?_filter] at hname
  split at hname
  · exact m.mem_values_of_get? hname
  · cases hname

theorem insertAll_append (m : OrderedMap α) (first second : List (String × α)) :
    m.insertAll (first ++ second) = (m.insertAll first).insertAll second :=
  List.foldl_append

theorem ofList_append_singleton (entries : List (String × α)) (key : String) (value : α) :
    ofList (entries ++ [(key, value)]) = (ofList entries).insert key value :=
  insertAll_append ..

/-- Keys bound before keep their place; new ones follow in the order in which they come. -/
theorem keys_insertAll (m : OrderedMap α) (entries : List (String × α))
    (hnodup : (entries.map Prod.fst).Nodup) :
    (m.insertAll entries).keys =
      m.keys ++ (entries.map Prod.fst).filter fun key => !m.contains key := by
  induction entries generalizing m with
  | nil => simp [insertAll]
  | cons entry rest ih =>
    obtain ⟨key, value⟩ := entry
    obtain ⟨hkey, hrest⟩ := List.nodup_cons.1 hnodup
    have hsame : (rest.map Prod.fst).filter (fun k => !(m.insert key value).contains k) =
        (rest.map Prod.fst).filter (fun k => !m.contains k) :=
      List.filter_congr fun k hk => by
        rw [contains, get?_insert_of_ne m value (by rintro rfl; exact hkey hk), contains]
    show ((m.insert key value).insertAll rest).keys = _
    rw [ih _ hrest, hsame, keys_insert, List.map_cons, List.filter_cons]
    by_cases hbound : key ∈ m.keys
    · simp [hbound, (contains_iff_mem_keys m key).2 hbound]
    · have hfree : m.contains key = false := by
        rw [← Bool.not_eq_true, contains_iff_mem_keys]
        exact hbound
      simp [hbound, hfree]

/-- The keys of a list of entries, each where it stands first. -/
theorem keys_ofList (entries : List (String × α)) :
    (ofList entries).keys = (entries.map Prod.fst).eraseDups := by
  induction entries using List.reverseRecOn with
  | nil => rfl
  | append_singleton entries entry ih =>
    obtain ⟨key, value⟩ := entry
    rw [ofList_append_singleton, keys_insert, ih, List.map_append, List.eraseDups_append]
    simp only [List.mem_eraseDups, List.map_cons, List.map_nil, List.cons_removeAll,
      List.nil_removeAll, List.elem_eq_mem]
    by_cases hkey : key ∈ entries.map Prod.fst
    · simp [hkey]
    · simp [hkey, List.eraseDups_cons]

example : (ofList [("x", 1), ("y", 2), ("x", 3)]).keys = ["x", "y"] := by decide

/-- The entries of another map hide those bound before. -/
theorem get?_insertAll (m n : OrderedMap α) (key : String) :
    (m.insertAll n.entries).get? key = (n.get? key).or (m.get? key) := by
  -- By induction on the entries, whose keys are distinct: a later entry does not change what an
  -- earlier one has bound.
  have hentries : ∀ (entries : List (String × α)) (m : OrderedMap α),
      (entries.map Prod.fst).Nodup →
      (m.insertAll entries).get? key = (entries.lookup key).or (m.get? key) := by
    intro entries
    induction entries with
    | nil =>
      intro m _
      simp [insertAll]
    | cons entry rest ih =>
      obtain ⟨k, v⟩ := entry
      intro m hnodup
      obtain ⟨hk, hrest⟩ := List.nodup_cons.1 hnodup
      show ((m.insert k v).insertAll rest).get? key = _
      rw [ih _ hrest, get?_insert]
      by_cases hkey : key = k
      · subst hkey
        have hnone : rest.lookup key = none := by
          rw [← Option.not_isSome_iff_eq_none, isSome_lookup_iff]
          exact hk
        simp [hnone]
      · simp [List.lookup_cons, beq_eq_false_iff_ne.2 hkey, hkey]
  exact hentries n.entries m n.nodup

/-! ## Maps with the same entries -/

/-- Maps with the same keys in the same order and the same look-ups are the same. -/
theorem ext_get? {m n : OrderedMap α} (hkeys : m.keys = n.keys)
    (hget : ∀ key, m.get? key = n.get? key) : m = n := by
  have hentries : ∀ first second : List (String × α), (first.map Prod.fst).Nodup →
      first.map Prod.fst = second.map Prod.fst →
      (∀ key, first.lookup key = second.lookup key) → first = second := by
    intro first
    induction first with
    | nil =>
      intro second _ hkeys _
      exact (List.map_eq_nil_iff.1 hkeys.symm).symm
    | cons entry rest ih =>
      obtain ⟨key, value⟩ := entry
      intro second hnodup hkeys hlookup
      cases second with
      | nil => cases hkeys
      | cons entry' rest' =>
        obtain ⟨key', value'⟩ := entry'
        obtain ⟨hkey, hrest⟩ := List.cons.inj hkeys
        obtain rfl : key = key' := hkey
        obtain ⟨hfresh, hnodup⟩ := List.nodup_cons.1 hnodup
        have hvalue := hlookup key
        rw [List.lookup_cons_self, List.lookup_cons_self, Option.some.injEq] at hvalue
        rw [hvalue, ih rest' hnodup hrest fun other => ?_]
        -- The first key stands in neither rest; every other is looked up there.
        by_cases hother : other = key
        · subst hother
          have hnone : ∀ entries : List (String × α), other ∉ entries.map Prod.fst →
              entries.lookup other = none := fun entries hmem => by
            rw [← Option.not_isSome_iff_eq_none, isSome_lookup_iff]
            exact hmem
          have hfresh' : other ∉ rest'.map Prod.fst := by
            rw [← hrest]
            exact hfresh
          rw [hnone rest hfresh, hnone rest' hfresh']
        · have hsame := hlookup other
          rwa [List.lookup_cons, List.lookup_cons, beq_eq_false_iff_ne.2 hother] at hsame
  exact ext (hentries m.entries n.entries m.nodup hkeys hget)

theorem contains_insertAll (m n : OrderedMap α) (key : String) :
    (m.insertAll n.entries).contains key = (n.contains key || m.contains key) := by
  rw [contains, get?_insertAll, Option.isSome_or, contains, contains]

/-- Bindings that come in two goes. -/
theorem insertAll_insertAll (m n d : OrderedMap α) :
    m.insertAll (n.insertAll d.entries).entries = (m.insertAll n.entries).insertAll d.entries := by
  apply ext_get?
  · have hkeys : (n.insertAll d.entries).entries.map Prod.fst =
        n.keys ++ d.keys.filter fun key => !n.contains key :=
      n.keys_insertAll d.entries d.nodup
    have hkeys' : (m.insertAll n.entries).keys =
        m.keys ++ n.keys.filter fun key => !m.contains key :=
      m.keys_insertAll n.entries n.nodup
    rw [keys_insertAll _ _ (n.insertAll d.entries).nodup, hkeys, keys_insertAll _ _ d.nodup, hkeys',
      List.filter_append, List.filter_filter, List.append_assoc]
    -- A key of the last map is new if neither of the others has it.
    congr 3
    funext key
    rw [contains_insertAll, Bool.not_or, Bool.and_comm]
  · intro key
    simp only [get?_insertAll, Option.or_assoc]

/-- A map is what its entries make of the empty one. -/
theorem ofList_entries (m : OrderedMap α) : ofList m.entries = m := by
  apply ext_get?
  · rw [ofList, keys_insertAll _ _ m.nodup]
    exact List.filter_eq_self.2 fun _ _ => rfl
  · intro key
    rw [ofList, get?_insertAll, get?_empty, Option.or_none]

/-- However often keys are bound again, each stands where it was bound first. -/
theorem keys_insertAll_eq_eraseDups (m : OrderedMap α) (entries : List (String × α)) :
    (m.insertAll entries).keys = (m.keys ++ entries.map Prod.fst).eraseDups := by
  have hlist : ofList (m.entries ++ entries) = m.insertAll entries := by
    rw [ofList, insertAll_append, ← ofList, ofList_entries]
  rw [← hlist, keys_ofList, List.map_append, keys]

theorem insertAll_insert (m d : OrderedMap α) (key : String) (value : α) :
    m.insertAll (d.insert key value).entries = (m.insertAll d.entries).insert key value :=
  insertAll_insertAll m d (empty.insert key value)

/-! ## Other values under the same keys -/

/-- Change all values. -/
def map (f : α → β) (m : OrderedMap α) : OrderedMap β where
  entries := m.entries.map fun entry => (entry.1, f entry.2)
  nodup := by
    rw [List.map_map]
    exact m.nodup

@[simp] theorem keys_map (f : α → β) (m : OrderedMap α) : (m.map f).keys = m.keys :=
  List.map_map

@[simp] theorem values_map (f : α → β) (m : OrderedMap α) : (m.map f).values = m.values.map f := by
  simp only [values, map, List.map_map]
  rfl

@[simp] theorem size_map (f : α → β) (m : OrderedMap α) : (m.map f).size = m.size :=
  List.length_map _

/-- A look-up in a map with other values finds the other value. -/
@[simp] theorem get?_map (f : α → β) (m : OrderedMap α) (key : String) :
    (m.map f).get? key = (m.get? key).map f := by
  have hentries : ∀ entries : List (String × α),
      (entries.map fun entry => (entry.1, f entry.2)).lookup key = (entries.lookup key).map f := by
    intro entries
    induction entries with
    | nil => rfl
    | cons entry rest ih =>
      obtain ⟨k, v⟩ := entry
      rw [List.map_cons, List.lookup_cons, List.lookup_cons, ih]
      cases key == k <;> rfl
  exact hentries m.entries

@[simp] theorem contains_map (f : α → β) (m : OrderedMap α) (key : String) :
    (m.map f).contains key = m.contains key := by
  rw [contains, get?_map, Option.isSome_map, contains]

/-- Binding a key and changing all values may be done in either order. -/
theorem map_insert (f : α → β) (m : OrderedMap α) (key : String) (value : α) :
    (m.insert key value).map f = (m.map f).insert key (f value) := by
  apply ext_get?
  · rw [keys_map, keys_insert, keys_insert, keys_map]
  · intro other
    rw [get?_map, get?_insert, get?_insert, get?_map]
    split <;> rfl

theorem map_insertAll (f : α → β) (m n : OrderedMap α) :
    (m.insertAll n.entries).map f = (m.map f).insertAll (n.map f).entries := by
  apply ext_get?
  · have hkeys : (n.map f).entries.map Prod.fst = n.entries.map Prod.fst := keys_map f n
    rw [keys_map, keys_insertAll _ _ n.nodup, keys_insertAll _ _ (n.map f).nodup, hkeys, keys_map]
    simp only [contains_map]
  · intro key
    simp only [get?_map, get?_insertAll, Option.map_or]

/-- Values that `f` leaves as they are. -/
theorem map_eq_self {f : α → α} {m : OrderedMap α} (hf : ∀ v ∈ m.values, f v = v) :
    m.map f = m := by
  apply ext
  show m.entries.map _ = m.entries
  have hentry : ∀ entry ∈ m.entries, (entry.1, f entry.2) = entry := fun entry hentry => by
    rw [hf entry.2 (List.mem_map.2 ⟨entry, hentry, rfl⟩)]
  exact (List.map_congr_left hentry).trans (List.map_id _)

end HostScript.OrderedMap
