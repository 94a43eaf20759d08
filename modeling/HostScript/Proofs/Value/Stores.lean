import Mathlib.Data.Nat.PSub
import HostScript.Proofs.Run.Cells
import HostScript.Proofs.Value.Indices

/-!
# Writes to arrays

A write to an array sets one element, for which the array may have to grow, or it sets the length;
or it is refused and the array stays as it is. `ArrayAccepts` and `ArrayRefuses` say which of the
two happens, and what the elements are or the failure is. `Stores.write` performs a write the way a
machine does, on elements that it changes in place, with a subtraction that must not go below zero
and a store that must not leave the array: it is the same as `setProperty`, and neither of them can
go wrong.

* `Value.arrayLength?_eq_some_iff`, `Value.arrayLength?_eq_none_iff`: which numbers are lengths.
* `Stores.write_eq_none_iff`, `Stores.write_eq_ok_iff`, `Stores.write_eq_error_iff`: how a write
  ends.
* `Value.setProperty_array_eq_write`: the machine does what `setProperty` does.
* `Heap.Written`: what a sequence of writes makes of the heap.
* `array_writes_exact`: writes to arrays are exact, bounded, and all or nothing.
-/

namespace HostScript

/-! ## Lengths -/

/-- Why a number is no length of an array. -/
inductive NoLength (n : Float) : Prop where
  | nan (hn : Number.parts n = .nan)
  | infinite {negative : Bool} (hn : Number.parts n = .infinite negative)
  | fractional {negative : Bool} {m : Nat} {e : Int} (hn : Number.parts n = .finite negative m e)
    (hrest : m % 2 ^ (-e).toNat ≠ 0)
  | negative {k : Int} (hn : Number.toInt? n = some k) (hk : k < 0)
  | tooLarge {k : Int} (hn : Number.toInt? n = some k) (hk : maxArrayLength < k)

namespace Value

variable {n : Float} {length : Nat}

/-- A length is a whole number within the bound, whatever the sign of its zero. -/
theorem arrayLength?_eq_some_iff :
    arrayLength? n = some length ↔
      Number.toInt? n = some (length : Int) ∧ length ≤ maxArrayLength := by
  unfold arrayLength?
  constructor
  · intro hn
    split at hn
    · next k hk =>
      obtain ⟨hle, ⟨⟩⟩ := Option.ite_none_right_eq_some.1 hn
      exact ⟨hk, hle⟩
    · cases hn
  · rintro ⟨hn, hle⟩
    rw [hn]
    exact if_pos hle

theorem arrayLength?_eq_none_iff : arrayLength? n = none ↔ NoLength n := by
  constructor
  · intro hnone
    -- A natural number can only be refused for its size.
    have hbound (k : Nat) (hk : Number.toInt? n = some (k : Int)) : maxArrayLength < k := by
      by_contra hle
      rw [arrayLength?_eq_some_iff.2 ⟨hk, not_lt.1 hle⟩] at hnone
      cases hnone
    cases hwhole : Number.toInt? n with
    | some k =>
      rcases lt_or_ge k 0 with hneg | hpos
      · exact .negative hwhole hneg
      · obtain ⟨k, rfl⟩ := Int.eq_ofNat_of_zero_le hpos
        exact .tooLarge hwhole (by exact_mod_cast hbound k hwhole)
    | none =>
      cases hparts : Number.parts n with
      | nan => exact .nan hparts
      | infinite negative => exact .infinite hparts
      | finite negative m e =>
        refine .fractional hparts fun hrest => ?_
        rw [Number.toInt?, hparts] at hwhole
        dsimp only at hwhole
        rw [Nat.one_shiftLeft, if_pos hrest] at hwhole
        cases hwhole
  · intro hn
    by_contra hsome
    obtain ⟨length, hlength⟩ := Option.ne_none_iff_exists'.1 hsome
    obtain ⟨hwhole, hle⟩ := arrayLength?_eq_some_iff.1 hlength
    cases hn with
    | nan hn =>
      rw [Number.toInt?, hn] at hwhole
      cases hwhole
    | infinite hn =>
      rw [Number.toInt?, hn] at hwhole
      cases hwhole
    | fractional hn hrest =>
      rw [Number.toInt?, hn] at hwhole
      dsimp only at hwhole
      rw [Nat.one_shiftLeft, if_neg hrest] at hwhole
      cases hwhole
    | negative hn hk =>
      rw [hwhole] at hn
      cases hn
      omega
    | tooLarge hn hk =>
      rw [hwhole] at hn
      cases hn
      omega

end Value

/-! ## What a write does -/

/-- The elements followed by undefined ones, up to a length. -/
def padded (elements : List Value) (length : Nat) : List Value :=
  elements ++ List.replicate (length - elements.length) .undefined

/-- A write to the property `key` of an array is done, and makes these elements of those before. -/
inductive ArrayAccepts (h : Heap) (before : Array Value) (key : String) (value : Value)
    (after : Array Value) : Prop where
  | element {index : Nat} (hkey : arrayIndex? key = some index)
    (hroom : index + 1 ≤ before.size + maxArrayGrowth)
    (hafter : after.toList =
      (padded before.toList (max before.size (index + 1))).set index value)
  | length {n : Float} {length : Nat} (hkey : key = "length") (hn : value.toNumber h = some n)
    (hwhole : Number.toInt? n = some (length : Int)) (hmost : length ≤ maxArrayLength)
    (hroom : length ≤ before.size + maxArrayGrowth)
    (hafter : after.toList = padded (before.toList.take length) length)

/-- A write to the property `key` of an array is refused. -/
inductive ArrayRefuses (h : Heap) (before : Array Value) (key : String) (value : Value) :
    EvalError → Prop where
  | key (hkey : arrayIndex? key = none) (hlength : key ≠ "length") :
    ArrayRefuses h before key value (.type (.unwritable key "object"))
  | length {n : Float} (hkey : key = "length") (hn : value.toNumber h = some n)
    (hnone : NoLength n) : ArrayRefuses h before key value (.type (.arrayLength n))
  | elementGrowth {index : Nat} (hkey : arrayIndex? key = some index)
    (hgrowth : before.size + maxArrayGrowth < index + 1) :
    ArrayRefuses h before key value (.type (.arrayGrowth before.size (index + 1)))
  | lengthGrowth {n : Float} {length : Nat} (hkey : key = "length")
    (hn : value.toNumber h = some n) (hwhole : Number.toInt? n = some (length : Int))
    (hmost : length ≤ maxArrayLength) (hgrowth : before.size + maxArrayGrowth < length) :
    ArrayRefuses h before key value (.type (.arrayGrowth before.size length))

/-- An array that is resized is cut off or filled up. -/
theorem toList_resized (elements : Array Value) (length : Nat) :
    (resized elements length).toList = padded (elements.toList.take length) length := by
  unfold resized padded
  split
  · next hle => simp [hle]
  · next hlt => simp [List.take_of_length_le (not_le.1 hlt).le]

/-! ## Writes as a machine performs them -/

/-- What becomes of the elements of an array, with the failure that is reported. It is absent if a
subtraction would go below zero, if a store would leave the array or if a value has no text. -/
abbrev Stores := Option (Except EvalError Unit × Array Value)

namespace Stores

/-- Lengthen an array, unless too many elements would be added. -/
def growTo (elements : Array Value) (length : Nat) : Stores :=
  (length.psub elements.size).map fun added =>
    if maxArrayGrowth < added then (.error (.type (.arrayGrowth elements.size length)), elements)
    else (.ok (), elements ++ Array.replicate added .undefined)

/-- Store an element within the array. -/
def store (elements : Array Value) (index : Nat) (value : Value) : Stores :=
  if hindex : index < elements.size then some (.ok (), elements.set index value hindex) else none

/-- Make room for an element, and store it if that was possible. -/
def storeGrowing (elements : Array Value) (index : Nat) (value : Value) : Stores :=
  if elements.size ≤ index then
    (growTo elements (index + 1)).bind fun
      | (.ok (), grown) => store grown index value
      | (.error e, same) => some (.error e, same)
  else store elements index value

def setLength (elements : Array Value) (n : Float) : Stores :=
  match Value.arrayLength? n with
  | some length =>
    if elements.size < length then growTo elements length
    else some (.ok (), elements.take length)
  | none => some (.error (.type (.arrayLength n)), elements)

/-- Write the property `key` of an array with these elements. -/
def write (h : Heap) (elements : Array Value) (key : String) (value : Value) : Stores :=
  match arrayIndex? key with
  | some index => storeGrowing elements index value
  | none =>
    if key = "length" then (value.toNumber h).bind (setLength elements)
    else some (.error (.type (.unwritable key "object")), elements)

/-! ### Each of them always has a result -/

variable {elements : Array Value}

/-- An array grows unless it would grow by too much at once. -/
theorem growTo_eq {length : Nat} (hle : elements.size ≤ length) :
    growTo elements length = some
      (if elements.size + maxArrayGrowth < length then
        (.error (.type (.arrayGrowth elements.size length)), elements)
      else (.ok (), resized elements length)) := by
  rw [growTo, Nat.psub_eq_sub hle, Option.map_some]
  by_cases hgrowth : elements.size + maxArrayGrowth < length
  · rw [if_pos hgrowth, if_pos (by omega)]
  · rw [if_neg hgrowth, if_neg (by omega), resized]
    split
    · next hge =>
      obtain rfl : length = elements.size := by omega
      simp
    · rfl

theorem store_eq {index : Nat} (value : Value) (hindex : index < elements.size) :
    store elements index value = some (.ok (), elements.setIfInBounds index value) := by
  rw [store, dif_pos hindex, Array.setIfInBounds, dif_pos hindex]

/-- An element that there is room for is stored; the array never shrinks for it. -/
theorem storeGrowing_eq (index : Nat) (value : Value) :
    storeGrowing elements index value = some
      (if elements.size + maxArrayGrowth < index + 1 then
        (.error (.type (.arrayGrowth elements.size (index + 1))), elements)
      else
        (.ok (),
          (resized elements (max elements.size (index + 1))).setIfInBounds index value)) := by
  unfold storeGrowing
  split
  · next hout =>
    -- The index lies outside, so there is nothing below zero, and inside once the array has grown.
    rw [growTo_eq (Nat.le_succ_of_le hout), Option.bind_some, Nat.max_eq_right (by omega)]
    by_cases hgrowth : elements.size + maxArrayGrowth < index + 1
    · rw [if_pos hgrowth, if_pos hgrowth]
    · rw [if_neg hgrowth, if_neg hgrowth]
      exact store_eq value (by rw [size_resized]; omega)
  · next hin =>
    -- An index inside needs no room, so the growth of the statement is none.
    have hsame : resized elements elements.size = elements := by simp [resized]
    rw [store_eq value (by omega), if_neg (by omega), Nat.max_eq_left (by omega), hsame]

/-- A length is set by growing or by cutting off. -/
theorem setLength_eq_of_some {n : Float} {length : Nat}
    (hlength : Value.arrayLength? n = some length) :
    setLength elements n = some
      (if elements.size + maxArrayGrowth < length then
        (.error (.type (.arrayGrowth elements.size length)), elements)
      else (.ok (), resized elements length)) := by
  unfold setLength
  rw [hlength]
  dsimp only
  split
  · next hlt => exact growTo_eq hlt.le
  · next hge => rw [if_neg (by omega), resized, if_pos (not_lt.1 hge)]

theorem setLength_eq_of_none {n : Float} (hlength : Value.arrayLength? n = none) :
    setLength elements n = some (.error (.type (.arrayLength n)), elements) := by
  rw [setLength, hlength]

/-! ### How a write ends -/

variable {h : Heap} {key : String} {value : Value} {after : Array Value} {e : EvalError}

/-- The only write without an end is that of a length by an array without text. -/
theorem write_eq_none_iff :
    write h elements key value = none ↔ key = "length" ∧ value.toNumber h = none := by
  unfold write
  split
  · next index hkey =>
    rw [storeGrowing_eq]
    have hne := ne_length_of_arrayIndex? hkey
    simp [hne]
  · split
    · next hlength =>
      cases hn : value.toNumber h with
      | none => simp [hlength]
      | some n =>
        rw [Option.bind_some]
        cases hwhole : Value.arrayLength? n with
        | none => simp [setLength_eq_of_none hwhole]
        | some length => simp [setLength_eq_of_some hwhole]
    · next hlength => simp [hlength]

theorem write_eq_ok_iff :
    write h elements key value = some (.ok (), after) ↔
      ArrayAccepts h elements key value after := by
  constructor
  · intro hwrite
    unfold write at hwrite
    split at hwrite
    · next index hkey =>
      rw [storeGrowing_eq, Option.some.injEq] at hwrite
      split at hwrite
      · cases hwrite
      · next hroom =>
        cases hwrite
        refine .element hkey (by omega) ?_
        rw [Array.toList_setIfInBounds, toList_resized, List.take_of_length_le (by simp)]
    · split at hwrite
      · next hlength =>
        obtain ⟨n, hn, hset⟩ := Option.bind_eq_some_iff.1 hwrite
        cases hwhole : Value.arrayLength? n with
        | none =>
          rw [setLength_eq_of_none hwhole] at hset
          cases hset
        | some length =>
          rw [setLength_eq_of_some hwhole, Option.some.injEq] at hset
          split at hset
          · cases hset
          · next hroom =>
            cases hset
            obtain ⟨hint, hmost⟩ := Value.arrayLength?_eq_some_iff.1 hwhole
            exact .length hlength hn hint hmost (by omega) (toList_resized ..)
      · cases hwrite
  · intro haccepts
    -- The lists of `ArrayAccepts` determine the array, which is the one that was written.
    cases haccepts with
    | @element index hkey hroom hafter =>
      have hstored : after = (resized elements (max elements.size (index + 1))).setIfInBounds index
          value := by
        apply Array.toList_inj.1
        rw [hafter, Array.toList_setIfInBounds, toList_resized, List.take_of_length_le (by simp)]
      rw [write, hkey]
      dsimp only
      rw [storeGrowing_eq, if_neg (by omega), hstored]
    | @length n length hkey hn hwhole hmost hroom hafter =>
      have hlength := Value.arrayLength?_eq_some_iff.2 ⟨hwhole, hmost⟩
      have hresized : after = resized elements length := by
        apply Array.toList_inj.1
        rw [hafter, toList_resized]
      rw [write, hkey, arrayIndex?_length]
      dsimp only
      rw [if_pos rfl, hn, Option.bind_some, setLength_eq_of_some hlength, if_neg (by omega),
        hresized]

/-- A failure leaves the elements as they were. -/
theorem write_eq_error_iff :
    write h elements key value = some (.error e, after) ↔
      after = elements ∧ ArrayRefuses h elements key value e := by
  constructor
  · intro hwrite
    unfold write at hwrite
    -- The key is an index, the length, or neither.
    split at hwrite
    · next index hkey =>
      rw [storeGrowing_eq, Option.some.injEq] at hwrite
      split at hwrite
      · next hgrowth =>
        cases hwrite
        exact ⟨rfl, .elementGrowth hkey hgrowth⟩
      · cases hwrite
    · next hkey =>
      split at hwrite
      · next hlength =>
        obtain ⟨n, hn, hset⟩ := Option.bind_eq_some_iff.1 hwrite
        cases hwhole : Value.arrayLength? n with
        | none =>
          rw [setLength_eq_of_none hwhole] at hset
          cases hset
          exact ⟨rfl, .length hlength hn (Value.arrayLength?_eq_none_iff.1 hwhole)⟩
        | some length =>
          rw [setLength_eq_of_some hwhole, Option.some.injEq] at hset
          split at hset
          · next hgrowth =>
            cases hset
            obtain ⟨hint, hmost⟩ := Value.arrayLength?_eq_some_iff.1 hwhole
            exact ⟨rfl, .lengthGrowth hlength hn hint hmost hgrowth⟩
          · cases hset
      · next hlength =>
        cases hwrite
        exact ⟨rfl, .key hkey hlength⟩
  · rintro ⟨rfl, hrefuses⟩
    cases hrefuses with
    | key hkey hlength =>
      rw [write, hkey]
      exact if_neg hlength
    | length hkey hn hnone =>
      rw [write, hkey, arrayIndex?_length]
      dsimp only
      rw [if_pos rfl, hn, Option.bind_some,
        setLength_eq_of_none (Value.arrayLength?_eq_none_iff.2 hnone)]
    | elementGrowth hkey hgrowth =>
      rw [write, hkey]
      dsimp only
      rw [storeGrowing_eq, if_pos hgrowth]
    | lengthGrowth hkey hn hwhole hmost hgrowth =>
      have hlength := Value.arrayLength?_eq_some_iff.2 ⟨hwhole, hmost⟩
      rw [write, hkey, arrayIndex?_length]
      dsimp only
      rw [if_pos rfl, hn, Option.bind_some, setLength_eq_of_some hlength, if_pos hgrowth]

end Stores

/-! ## The heap after a write -/

namespace Heap

variable {h h' : Heap} {a : Addr} {before : Array Value}

/-- A change of an array is what it makes of the elements. -/
theorem modifyArray_congr {f g : Array Value → Array Value} (ha : h.cell a = .array before)
    (hfg : f before = g before) : h.modifyArray a f = h.modifyArray a g := by
  unfold modifyArray modifyCell
  congr 1
  refine Array.ext_getElem? fun b => ?_
  rw [Array.getElem?_modify, Array.getElem?_modify]
  split
  · next hab =>
    subst hab
    rw [cell, Array.getD_eq_getD_getElem?] at ha
    cases hcell : h.cells[a]? with
    | none => rfl
    | some c =>
      rw [hcell, Option.getD_some] at ha
      rw [ha]
      simp [hfg]
  · rfl

end Heap

namespace Value

variable {h h' : Heap} {a : Addr} {before : Array Value}

/-- The machine does what `setProperty` does. -/
theorem setProperty_array_eq_write (ha : h.cell a = .array before) (key : String) (value : Value) :
    (array a).setProperty h key value = (Stores.write h before key value).map fun result =>
      result.1.map fun _ => h.modifyArray a fun _ => result.2 := by
  have hbefore : h.array a = before := by rw [Heap.array, ha]
  have hresizing (length : Nat) : resizing h a length =
      if before.size + maxArrayGrowth < length then
        .error (.type (.arrayGrowth before.size length))
      else .ok (·.modifyArray a (resized · length)) := by
    rw [resizing, hbefore]
  have hdone {g g' : Heap} (hg : g = g') :
      (some (.ok g) : Option (Except EvalError Heap)) = some (.ok g') := by rw [hg]
  unfold setProperty writing Stores.write
  cases hkey : arrayIndex? key with
  | some index =>
    dsimp only
    rw [hbefore, Stores.storeGrowing_eq, hresizing]
    -- Growth and store are two changes of the heap here and a single one there.
    split
    · next hinside =>
      rw [if_neg (by omega), Nat.max_eq_left (by omega)]
      refine hdone (Heap.modifyArray_congr ha ?_)
      simp [resized]
    · next houtside =>
      rw [Nat.max_eq_right (by omega)]
      split
      · rfl
      · exact hdone ((h.modifyArray_modifyArray a _ _).trans (Heap.modifyArray_congr ha rfl))
  | none =>
    dsimp only
    split
    · cases value.toNumber h with
      | none => rfl
      | some n =>
        rw [Option.map_some, Option.bind_some]
        cases hn : arrayLength? n with
        | none =>
          rw [Stores.setLength_eq_of_none hn]
          rfl
        | some length =>
          dsimp only
          rw [Stores.setLength_eq_of_some hn, hresizing]
          split
          · rfl
          · exact hdone (Heap.modifyArray_congr ha rfl)
    · rfl

variable {key : String} {value : Value}

/-- A write to an array succeeds just if the array accepts it. -/
theorem setProperty_array_eq_ok_iff (ha : h.cell a = .array before) :
    (array a).setProperty h key value = some (.ok h') ↔
      ∃ after, ArrayAccepts h before key value after ∧ h' = h.modifyArray a fun _ => after := by
  rw [setProperty_array_eq_write ha, Option.map_eq_some_iff]
  constructor
  · rintro ⟨⟨result, after⟩, hwrite, hresult⟩
    cases result with
    | ok =>
      cases hresult
      exact ⟨after, Stores.write_eq_ok_iff.1 hwrite, rfl⟩
    | error e => cases hresult
  · rintro ⟨after, haccepts, rfl⟩
    exact ⟨_, Stores.write_eq_ok_iff.2 haccepts, rfl⟩

/-- A write to an array fails just if the array refuses it, and with the same failure. -/
theorem setProperty_array_eq_error_iff {e : EvalError} (ha : h.cell a = .array before) :
    (array a).setProperty h key value = some (.error e) ↔ ArrayRefuses h before key value e := by
  rw [setProperty_array_eq_write ha, Option.map_eq_some_iff]
  constructor
  · rintro ⟨⟨result, after⟩, hwrite, hresult⟩
    cases result with
    | ok => cases hresult
    | error e =>
      cases hresult
      exact (Stores.write_eq_error_iff.1 hwrite).2
  · intro hrefuses
    exact ⟨_, Stores.write_eq_error_iff.2 ⟨rfl, hrefuses⟩, rfl⟩

/-- What a write makes of a cell: only the array or the object that it is a write to changes. -/
inductive WritesCell (h : Heap) (target : Value) (key : String) (value : Value) (b : Addr) :
    Cell → Cell → Prop where
  | same {c : Cell} (harray : target = .array b → ∀ elements, c ≠ .array elements)
    (hobject : target = .object b → ∀ properties, c ≠ .object properties) :
    WritesCell h target key value b c c
  | array {before after : Array Value} (htarget : target = .array b)
    (haccepts : ArrayAccepts h before key value after) :
    WritesCell h target key value b (.array before) (.array after)
  | object (properties : OrderedMap Value) (htarget : target = .object b) :
    WritesCell h target key value b (.object properties) (.object (properties.insert key value))

theorem writesCell_of_setProperty {target : Value}
    (hset : target.setProperty h key value = some (.ok h')) (b : Addr) :
    WritesCell h target key value b (h.cell b) (h'.cell b) := by
  obtain ⟨result, hwriting, hresult⟩ := Option.map_eq_some_iff.1 hset
  cases result with
  | error e => cases hresult
  | ok change =>
    obtain rfl : change h = h' := Except.ok.inj hresult
    cases target with
    | array a =>
      obtain ⟨f, rfl, -⟩ := writing_array_eq_ok hwriting
      by_cases hba : b = a
      · subst hba
        -- An address that holds no array keeps what it holds.
        cases hcell : h.cell b with
        | array before =>
          obtain ⟨after, haccepts, hafter⟩ := (setProperty_array_eq_ok_iff hcell).1 hset
          dsimp only at hafter ⊢
          rw [hafter, Heap.modifyArray, Heap.cell_modifyCell_self _ _ _ rfl, hcell]
          exact .array rfl haccepts
        | _ =>
          dsimp only
          rw [Heap.modifyArray, Heap.cell_modifyCell_self _ _ _ rfl, hcell]
          exact .same (by rintro - _ ⟨⟩) (by rintro ⟨⟩)
      · dsimp only
        rw [Heap.modifyArray, Heap.cell_modifyCell_of_ne h _ hba]
        exact .same (fun htarget => absurd (array.inj htarget).symm hba) (by rintro ⟨⟩)
    | object a =>
      cases hwriting
      dsimp only
      by_cases hba : b = a
      · subst hba
        rw [Heap.modifyObject, Heap.cell_modifyCell_self _ _ _ rfl]
        cases h.cell b with
        | object properties => exact .object properties rfl
        | _ => exact .same (by rintro ⟨⟩) (by rintro - _ ⟨⟩)
      · rw [Heap.modifyObject, Heap.cell_modifyCell_of_ne h _ hba]
        exact .same (by rintro ⟨⟩) fun htarget => absurd (object.inj htarget).symm hba
    | _ => cases hwriting

end Value

/-! ## Lengths after a write -/

theorem length_padded (elements : List Value) (length : Nat) :
    (padded elements length).length = max elements.length length := by
  rw [padded, List.length_append, List.length_replicate]
  omega

namespace ArrayAccepts

variable {h : Heap} {before after : Array Value} {key : String} {value : Value}

/-- An index beyond the end makes the array end just behind it. -/
theorem size_of_index {index : Nat} (haccepts : ArrayAccepts h before key value after)
    (hkey : arrayIndex? key = some index) : after.size = max before.size (index + 1) := by
  cases haccepts with
  | element hkey' hroom hafter =>
    obtain rfl : index = _ := Option.some.inj (hkey.symm.trans hkey')
    have hsize := congrArg List.length hafter
    rw [List.length_set, length_padded, Array.length_toList, Array.length_toList] at hsize
    omega
  | length hlength =>
    rw [hlength, arrayIndex?_length] at hkey
    cases hkey

/-- No write makes an array longer than the bound, or longer by more than may be grown at once. -/
theorem size_le (haccepts : ArrayAccepts h before key value after) :
    after.size ≤ max before.size maxArrayLength ∧ after.size ≤ before.size + maxArrayGrowth := by
  cases haccepts with
  | element hkey hroom hafter =>
    have hsize := (ArrayAccepts.element (h := h) hkey hroom hafter).size_of_index hkey
    obtain ⟨hindex, -⟩ := arrayIndex?_eq_some_iff.1 hkey
    omega
  | length hkey hn hwhole hmost hroom hafter =>
    have hsize := congrArg List.length hafter
    rw [length_padded, List.length_take, Array.length_toList, Array.length_toList] at hsize
    omega

end ArrayAccepts

/-! ## Sequences of writes -/

/-- A write to a property. -/
structure PropertyWrite where
  target : Value
  key : String
  value : Value

/-- What a write comes to. -/
def PropertyWrite.result? (write : PropertyWrite) (h : Heap) : Option (Except EvalError Heap) :=
  write.target.setProperty h write.key write.value

/-- What one write after another makes of the heap. Those that are refused do nothing. -/
inductive Heap.Written : Heap → List PropertyWrite → Heap → Prop where
  | nil (h : Heap) : Written h [] h
  | done {h h' h'' : Heap} {write : PropertyWrite} {writes : List PropertyWrite}
    (hwrite : write.result? h = some (.ok h')) (hrest : Written h' writes h'') :
    Written h (write :: writes) h''
  | refused {h h' : Heap} {e : EvalError} {write : PropertyWrite} {writes : List PropertyWrite}
    (hwrite : write.result? h = some (.error e)) (hrest : Written h writes h') :
    Written h (write :: writes) h'

/-- However many writes there are, an array is no longer than the longest one, and each write has
added no more than one may add. -/
theorem Heap.Written.exists_array {h h' : Heap} {writes : List PropertyWrite} {a : Addr}
    {before : Array Value} (hwritten : h.Written writes h') (ha : h.cell a = .array before)
    (hsize : before.size ≤ maxArrayLength) :
    ∃ after, h'.cell a = .array after ∧ after.size ≤ maxArrayLength ∧
      after.size ≤ before.size + maxArrayGrowth * writes.length := by
  induction hwritten generalizing before with
  | nil h => exact ⟨before, ha, hsize, Nat.le_add_right ..⟩
  | @done h h' h'' write writes hwrite hrest ih =>
    have hcell := Value.writesCell_of_setProperty hwrite a
    rw [ha] at hcell
    -- Each write keeps the bound that the next one starts from.
    have hstep : ∃ middle, h'.cell a = .array middle ∧ middle.size ≤ maxArrayLength ∧
        middle.size ≤ before.size + maxArrayGrowth := by
      generalize h'.cell a = c at hcell ⊢
      cases hcell with
      | same => exact ⟨before, rfl, hsize, Nat.le_add_right ..⟩
      | array htarget haccepts =>
        obtain ⟨hmost, hgrowth⟩ := haccepts.size_le
        exact ⟨_, rfl, by omega, hgrowth⟩
    obtain ⟨middle, hmiddle, hmost, hgrowth⟩ := hstep
    obtain ⟨after, hafter, hmost', hgrowth'⟩ := ih hmiddle hmost
    exact ⟨after, hafter, hmost', by rw [List.length_cons, Nat.mul_succ]; omega⟩
  | refused hwrite hrest ih =>
    obtain ⟨after, hafter, hmost, hgrowth⟩ := ih ha hsize
    exact ⟨after, hafter, hmost, by rw [List.length_cons, Nat.mul_succ]; omega⟩

/-- A write to an array that is no longer than `2 ^ 32 - 1` is done or refused as `ArrayAccepts` and
`ArrayRefuses` say, and has no end only if an array without text is to be the length. The machine
that performs it never subtracts below zero or stores out of range, ends alike, and has changed
nothing when it fails. However many writes follow each other, the array is never longer than that,
and grows by at most `2 ^ 16` elements with each of them. -/
theorem array_writes_exact {h : Heap} {a : Addr} {before : Array Value}
    (ha : h.cell a = .array before) (hsize : before.size ≤ 2 ^ 32 - 1) (key : String)
    (value : Value) :
    (∀ h', (Value.array a).setProperty h key value = some (.ok h') ↔
        ∃ after, ArrayAccepts h before key value after ∧ h' = h.modifyArray a fun _ => after) ∧
      (∀ e, (Value.array a).setProperty h key value = some (.error e) ↔
        ArrayRefuses h before key value e) ∧
      (∀ w w' e, (Place.property (.array a) key).write value w = .failed e w' → w' = w) ∧
      (Stores.write h before key value = none ↔ key = "length" ∧ value.toNumber h = none) ∧
      (∀ result after, Stores.write h before key value = some (result, after) →
        (Value.array a).setProperty h key value =
            some (result.map fun _ => h.modifyArray a fun _ => after) ∧
          ∀ e, result = .error e → after = before) ∧
      (∀ after, ArrayAccepts h before key value after →
        after.size ≤ 2 ^ 32 - 1 ∧ after.size ≤ before.size + 2 ^ 16) ∧
      ∀ writes h', h.Written writes h' →
        (h'.array a).size ≤ 2 ^ 32 - 1 ∧
          (h'.array a).size ≤ before.size + 2 ^ 16 * writes.length := by
  refine ⟨fun h' => Value.setProperty_array_eq_ok_iff ha,
    fun e => Value.setProperty_array_eq_error_iff ha,
    fun w w' e => Place.world_of_write_failed, Stores.write_eq_none_iff,
    fun result after hwrite => ⟨?_, ?_⟩, fun after haccepts => ?_, fun writes h' hwritten => ?_⟩
  · rw [Value.setProperty_array_eq_write ha, hwrite]
    rfl
  · rintro e rfl
    exact (Stores.write_eq_error_iff.1 hwrite).1
  · obtain ⟨hmost, hgrowth⟩ := haccepts.size_le
    rw [Nat.max_eq_right (show before.size ≤ maxArrayLength from hsize)] at hmost
    exact ⟨hmost, hgrowth⟩
  · obtain ⟨after, hafter, hbounds⟩ := hwritten.exists_array ha hsize
    rw [Heap.array, hafter]
    exact hbounds

/-- A heap with one array, of two elements. -/
def twoElements : Heap := { cells := #[.array #[.null, .bool true]] }

/-- A write beyond the end fills the gap, one to a numeral with a leading zero is refused, and
neither can any sequence of writes lengthen the array further than it may. -/
theorem array_writes_exact_of_two :
    twoElements.cell 0 = .array #[.null, .bool true] ∧
      (#[.null, .bool true] : Array Value).size ≤ 2 ^ 32 - 1 ∧
      (Value.array 0).setProperty twoElements "3" .null = some (.ok
        (twoElements.modifyArray 0 fun _ => #[.null, .bool true, .undefined, .null])) ∧
      (Value.array 0).setProperty twoElements "03" .null =
        some (.error (.type (.unwritable "03" "object"))) ∧
      ∀ writes h', twoElements.Written writes h' →
        (h'.array 0).size ≤ 2 + 2 ^ 16 * writes.length := by
  have ha : twoElements.cell 0 = .array #[.null, .bool true] := rfl
  have hsize : (#[.null, .bool true] : Array Value).size ≤ 2 ^ 32 - 1 := by decide
  have haccepts : ArrayAccepts twoElements #[.null, .bool true] "3" .null
      #[.null, .bool true, .undefined, .null] :=
    .element (show arrayIndex? "3" = some 3 by decide) (by decide) rfl
  have hrefuses : ArrayRefuses twoElements #[.null, .bool true] "03" .null
      (.type (.unwritable "03" "object")) := .key (by decide) (by decide)
  exact ⟨ha, hsize, ((array_writes_exact ha hsize "3" .null).1 _).2 ⟨_, haccepts, rfl⟩,
    ((array_writes_exact ha hsize "03" .null).2.1 _).2 hrefuses, fun writes h' hwritten =>
    ((array_writes_exact ha hsize "3" .null).2.2.2.2.2.2 writes h' hwritten).2⟩

end HostScript
