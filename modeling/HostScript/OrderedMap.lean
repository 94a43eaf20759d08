/-!
# Maps that remember the order of their keys

An `OrderedMap` binds strings to values and lists its keys in the order in which they were first
bound. Binding a key again replaces its value and leaves the key where it stands; erasing a key
leaves the order of the others alone.

Frames, objects and contexts are such maps, and what a script or its host can list about them is
exactly this order.
-/

namespace HostScript

/-- An insertion-ordered map from strings. No key stands in it twice. -/
structure OrderedMap (α : Type) where
  entries : List (String × α)
  nodup : (entries.map Prod.fst).Nodup

namespace OrderedMap

variable {α β : Type}

@[ext] theorem ext {m n : OrderedMap α} (h : m.entries = n.entries) : m = n := by
  cases m; cases n; cases h; rfl

def empty : OrderedMap α := ⟨[], .nil⟩

instance : EmptyCollection (OrderedMap α) := ⟨empty⟩
instance : Inhabited (OrderedMap α) := ⟨empty⟩

def keys (m : OrderedMap α) : List String := m.entries.map Prod.fst

def values (m : OrderedMap α) : List α := m.entries.map Prod.snd

def size (m : OrderedMap α) : Nat := m.entries.length

def isEmpty (m : OrderedMap α) : Bool := m.entries.isEmpty

/-- The value bound to `key`. -/
def get? (m : OrderedMap α) (key : String) : Option α := m.entries.lookup key

def contains (m : OrderedMap α) (key : String) : Bool := (m.get? key).isSome

/-- Bind `key` where it already stands, or at the end. -/
def bindEntry (key : String) (value : α) : List (String × α) → List (String × α)
  | [] => [(key, value)]
  | (k, v) :: rest => if k = key then (k, value) :: rest else (k, v) :: bindEntry key value rest

/-- A key that is bound keeps its place, and a new one goes to the end. -/
theorem keys_bindEntry (key : String) (value : α) (entries : List (String × α)) :
    (bindEntry key value entries).map Prod.fst =
      if key ∈ entries.map Prod.fst then entries.map Prod.fst
      else entries.map Prod.fst ++ [key] := by
  induction entries with
  | nil => simp [bindEntry]
  | cons entry rest ih =>
    obtain ⟨k, v⟩ := entry
    by_cases h : k = key
    · simp [bindEntry, h]
    · have h' : ¬ key = k := fun e => h e.symm
      simp only [bindEntry, h, ↓reduceIte, List.map_cons, ih, List.mem_cons, h', false_or]
      split <;> simp

/-- Whether the key was bound before makes no difference to look-ups. -/
theorem lookup_bindEntry (key other : String) (value : α) (entries : List (String × α)) :
    (bindEntry key value entries).lookup other =
      if other = key then some value else entries.lookup other := by
  induction entries with
  | nil =>
    by_cases h : other = key
    · simp [bindEntry, h]
    · simp [bindEntry, List.lookup_cons, h, beq_eq_false_iff_ne.2 h]
  | cons entry rest ih =>
    obtain ⟨k, v⟩ := entry
    by_cases h : k = key
    · subst h
      by_cases ho : other = k
      · simp [bindEntry, ho]
      · simp [bindEntry, List.lookup_cons, ho, beq_eq_false_iff_ne.2 ho]
    · by_cases ho : other = k
      · subst ho
        simp [bindEntry, h]
      · simp [bindEntry, List.lookup_cons, h, beq_eq_false_iff_ne.2 ho, ih]

/-- Bind `key` to `value`. A key bound before keeps its place. -/
def insert (m : OrderedMap α) (key : String) (value : α) : OrderedMap α where
  entries := bindEntry key value m.entries
  nodup := by
    rw [keys_bindEntry]
    split
    · exact m.nodup
    · rename_i h
      exact List.nodup_append.2 ⟨m.nodup, by simp, fun a ha b hb e => h (by simp_all)⟩

/-- Forget `key`; the others keep their order. -/
def erase (m : OrderedMap α) (key : String) : OrderedMap α where
  entries := m.entries.filter fun entry => entry.1 != key
  nodup := m.nodup.sublist (List.Sublist.map _ List.filter_sublist)

/-- Bind the entries of a list one after another. -/
def insertAll (m : OrderedMap α) (entries : List (String × α)) : OrderedMap α :=
  entries.foldl (fun m entry => m.insert entry.1 entry.2) m

def ofList (entries : List (String × α)) : OrderedMap α := empty.insertAll entries

/-- The entries that satisfy `keep`, in their order. -/
def filter (m : OrderedMap α) (keep : String → Bool) : OrderedMap α where
  entries := m.entries.filter fun entry => keep entry.1
  nodup := m.nodup.sublist (List.Sublist.map _ List.filter_sublist)

@[simp] theorem get?_empty (key : String) : (empty : OrderedMap α).get? key = none := rfl

@[simp] theorem entries_empty : (empty : OrderedMap α).entries = [] := rfl

theorem get?_insert (m : OrderedMap α) (key other : String) (value : α) :
    (m.insert key value).get? other = if other = key then some value else m.get? other :=
  lookup_bindEntry key other value m.entries

@[simp] theorem get?_insert_self (m : OrderedMap α) (key : String) (value : α) :
    (m.insert key value).get? key = some value := by simp [get?_insert]

theorem get?_insert_of_ne (m : OrderedMap α) {key other : String} (value : α) (h : other ≠ key) :
    (m.insert key value).get? other = m.get? other := by simp [get?_insert, h]

theorem keys_insert (m : OrderedMap α) (key : String) (value : α) :
    (m.insert key value).keys = if key ∈ m.keys then m.keys else m.keys ++ [key] :=
  keys_bindEntry key value m.entries

theorem isSome_lookup_iff (entries : List (String × α)) (key : String) :
    (entries.lookup key).isSome = true ↔ key ∈ entries.map Prod.fst := by
  induction entries with
  | nil => simp
  | cons entry rest ih =>
    obtain ⟨k, v⟩ := entry
    by_cases h : key = k
    · simp [h]
    · simp [List.lookup_cons, h, beq_eq_false_iff_ne.2 h, ih]

theorem contains_iff_mem_keys (m : OrderedMap α) (key : String) :
    m.contains key = true ↔ key ∈ m.keys :=
  isSome_lookup_iff m.entries key

/-- Filtering by keys keeps an entry or takes it away, whatever its value. -/
theorem lookup_filter_key (keep : String → Bool) (entries : List (String × α)) (key : String) :
    (entries.filter fun entry => keep entry.1).lookup key =
      if keep key then entries.lookup key else none := by
  induction entries with
  | nil => simp
  | cons entry rest ih =>
    obtain ⟨k, v⟩ := entry
    by_cases h : key = k
    · subst h
      cases hk : keep key <;> simp [hk, ih]
    · cases hk : keep k <;> simp [hk, List.lookup_cons, beq_eq_false_iff_ne.2 h, ih]

theorem get?_filter (m : OrderedMap α) (keep : String → Bool) (key : String) :
    (m.filter keep).get? key = if keep key then m.get? key else none :=
  lookup_filter_key keep m.entries key

theorem get?_erase (m : OrderedMap α) (key other : String) :
    (m.erase key).get? other = if other = key then none else m.get? other := by
  refine (lookup_filter_key (· != key) m.entries other).trans ?_
  by_cases h : other = key <;> simp [h, get?]

end OrderedMap

end HostScript
