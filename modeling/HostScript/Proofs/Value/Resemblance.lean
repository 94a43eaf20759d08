import HostScript.Proofs.Value.Renaming
import HostScript.Proofs.Value.Yield

/-!
# What conversions, operators and properties see of a heap

They read arrays, objects and the names of functions, and nothing of frames; and they do not depend
on the addresses of what they read. So they agree in heaps that *resemble* each other: be it on an
answer, on a failure or on having no end.

* `Heap.Resembles`: the values that code may hold, with their addresses renamed, are the same in a
  second heap.
* `Heap.Resembles.binaryApply`, `Heap.Resembles.getProperty` and so on: one agreement for each
  operation.
* `Heap.Resembles.writing`: a write changes the same array or object in the same way.
-/

namespace HostScript

/-- Values that code may hold read the same in a second heap, where they go by other addresses. -/
structure Heap.Resembles (ρ : Addr → Addr) (held : Value → Prop) (h h' : Heap) : Prop where
  injective : Function.Injective ρ
  plain {v : Value} : v.addr? = none → held v
  array {a : Addr} : held (.array a) → h'.array (ρ a) = renamed ρ (h.array a)
  object {a : Addr} : held (.object a) → h'.object (ρ a) = renamed ρ (h.object a)
  functionName {a : Addr} : held (.function a) → h'.functionName? (ρ a) = h.functionName? a
  nativeName {a : Addr} : held (.native a) → h'.nativeName (ρ a) = h.nativeName a
  text {v : Value} : held v → (renamed ρ v).text h' = v.text h
  element {a : Addr} {v : Value} : held (.array a) → v ∈ h.array a → held v
  property {a : Addr} {v : Value} : held (.object a) → v ∈ (h.object a).values → held v

namespace Heap.Resembles

variable {ρ : Addr → Addr} {held : Value → Prop} {h h' : Heap}

/-! ## Conversions -/

/-- The text of a value without handle does not look into the heap. -/
theorem text_of_plain (reads : h.Resembles ρ held h') {v : Value} (hv : v.addr? = none) :
    v.text h' = v.text h := by
  have htext := reads.text (reads.plain hv)
  rwa [Value.renamed_of_plain hv] at htext

/-- The number of an array or object is that of its text. -/
theorem toNumber (reads : h.Resembles ρ held h') {v : Value} (hv : held v) :
    (renamed ρ v).toNumber h' = v.toNumber h := by
  cases v with
  | array a => exact congrArg (Option.map Number.ofText) (reads.text hv)
  | _ => rfl

theorem toNumber_of_plain (reads : h.Resembles ρ held h') {v : Value} (hv : v.addr? = none) :
    v.toNumber h' = v.toNumber h := by
  have hnumber := reads.toNumber (reads.plain hv)
  rwa [Value.renamed_of_plain hv] at hnumber

theorem toUInt32 (reads : h.Resembles ρ held h') {v : Value} (hv : held v) :
    (renamed ρ v).toUInt32 h' = v.toUInt32 h := by
  rw [Value.toUInt32, reads.toNumber hv, Value.toUInt32]

theorem toInt32 (reads : h.Resembles ρ held h') {v : Value} (hv : held v) :
    (renamed ρ v).toInt32 h' = v.toInt32 h := by
  rw [Value.toInt32, reads.toNumber hv, Value.toInt32]

/-- Arrays and objects turn into texts, and other values stay. -/
theorem toPrimitive (reads : h.Resembles ρ held h') {v : Value} (hv : held v) :
    (renamed ρ v).toPrimitive h' = v.toPrimitive h := by
  unfold Value.toPrimitive
  rw [Value.isCompound_renamed]
  split
  · rw [reads.text hv]
  · next hplain =>
    rw [Value.renamed_of_plain (Value.addr?_of_not_isCompound (Bool.eq_false_iff.2 hplain))]

theorem toKey (reads : h.Resembles ρ held h') {v : Value} (hv : held v) :
    (renamed ρ v).toKey h' = v.toKey h := reads.text hv

/-- A message names values by their texts, and functions by their names. -/
theorem describe (reads : h.Resembles ρ held h') {v : Value} (hv : held v) :
    (renamed ρ v).describe h' = v.describe h := by
  have htext := reads.text hv
  cases v with
  | string s => rfl
  | array a | object a => rfl
  | _ => exact congrArg (Option.getD · "") htext

/-! ## Operators -/

/-- A sum of primitives is one of strings or one of numbers. -/
theorem plus (reads : h.Resembles ρ held h') {a b : Value} (ha : held a) (hb : held b) :
    (renamed ρ a).plus h' (renamed ρ b) = a.plus h b := by
  unfold Value.plus
  rw [reads.toPrimitive ha, reads.toPrimitive hb]
  refine Option.bind_congr fun p hp => Option.bind_congr fun q hq => ?_
  have hptext := reads.text_of_plain (Value.addr?_of_toPrimitive hp)
  have hqtext := reads.text_of_plain (Value.addr?_of_toPrimitive hq)
  have hpnumber := reads.toNumber_of_plain (Value.addr?_of_toPrimitive hp)
  have hqnumber := reads.toNumber_of_plain (Value.addr?_of_toPrimitive hq)
  -- Whichever of the two is a string, the other is shown or both become numbers.
  cases p <;> cases q <;> simp only [hptext, hqtext, hpnumber, hqnumber]

/-- A comparison looks at the primitives that its operands turn into. -/
theorem compare (reads : h.Resembles ρ held h') {a b : Value} (ha : held a) (hb : held b) :
    Value.compare h' (renamed ρ a) (renamed ρ b) = Value.compare h a b := by
  unfold Value.compare
  rw [reads.toPrimitive ha, reads.toPrimitive hb]
  refine Option.bind_congr fun p hp => Option.bind_congr fun q hq => ?_
  have hpnumber := reads.toNumber_of_plain (Value.addr?_of_toPrimitive hp)
  have hqnumber := reads.toNumber_of_plain (Value.addr?_of_toPrimitive hq)
  cases p <;> cases q <;> simp only [hpnumber, hqnumber]

/-- Arrays and objects are compared by identity among each other, and by their texts otherwise. -/
theorem looseEquals (reads : h.Resembles ρ held h') {a b : Value} (ha : held a) (hb : held b) :
    (renamed ρ a).looseEquals h' (renamed ρ b) = a.looseEquals h b := by
  have hheld : ∀ {v : Value}, held v → held v.boolAsNumber := fun {v} hv => by
    cases v with
    | bool b => exact reads.plain rfl
    | _ => exact hv
  unfold Value.looseEquals
  simp only [Value.isNullish_renamed, Value.boolAsNumber_renamed, Value.isCompound_renamed,
    Value.mixedEquals_renamed reads.injective, reads.toPrimitive (hheld ha),
    reads.toPrimitive (hheld hb)]

/-- A property is there in both heaps or in neither. -/
theorem hasProperty (reads : h.Resembles ρ held h') {v : Value} (hv : held v) (key : String) :
    (renamed ρ v).hasProperty h' key = v.hasProperty h key := by
  cases v with
  | object a =>
    show Except.ok ((h'.object (ρ a)).contains key) = _
    rw [reads.object hv, renamed_map, OrderedMap.contains_map]
    rfl
  | array a =>
    show Except.ok (key == "length" || (arrayIndex? key).any fun index =>
      index < (h'.array (ρ a)).size) = _
    rw [reads.array hv, renamed_array, Array.size_map]
    rfl
  | _ => rfl

/-- No operator tells resembling heaps apart. One case for each of them. -/
theorem binaryApply (reads : h.Resembles ρ held h') (op : BinaryOp) {a b : Value} (ha : held a)
    (hb : held b) : op.apply h' (renamed ρ a) (renamed ρ b) = op.apply h a b := by
  cases op <;>
    simp only [BinaryOp.apply, Value.onNumbers, Value.onOrder, Value.onWords, Value.shiftSigned,
      Value.shiftUnsigned, Value.shiftCount, reads.plus ha hb, reads.compare ha hb,
      reads.toNumber ha, reads.toNumber hb, reads.toUInt32 ha, reads.toUInt32 hb,
      reads.toInt32 ha, reads.toInt32 hb, reads.toKey ha, reads.looseEquals ha hb,
      reads.hasProperty hb, Value.strictEquals_renamed reads.injective]

theorem unaryApply (reads : h.Resembles ρ held h') (op : UnaryOp) {v : Value} (hv : held v) :
    op.apply h' (renamed ρ v) = op.apply h v := by
  cases op <;>
    simp only [UnaryOp.apply, reads.toNumber hv, reads.toInt32 hv, Value.truthy_renamed,
      Value.typeName_renamed]

/-! ## Properties -/

/-- A property reads alike: where it is found does not depend on addresses, only what is found there
does. -/
theorem getProperty (reads : h.Resembles ρ held h') {v : Value} (hv : held v) (key : String) :
    (renamed ρ v).getProperty h' key = renamed ρ (v.getProperty h key) := by
  cases v with
  | undefined | null => rfl
  | bool b | number n => rfl
  | string s =>
    show Except.ok (Value.stringProperty s key) = .ok (renamed ρ (Value.stringProperty s key))
    -- What a string has for properties has no address.
    rw [Value.renamed_of_plain (Value.addr?_stringProperty s key)]
  | array a =>
    show (if key = "length" then Except.ok (.number (Number.ofNat (h'.array (ρ a)).size))
      else .ok (((arrayIndex? key).bind ((h'.array (ρ a))[·]?)).getD .undefined)) =
      renamed ρ (if key = "length" then _ else _)
    rw [reads.array hv, renamed_array, Array.size_map]
    split
    · rfl
    · cases arrayIndex? key with
      | none => rfl
      | some i =>
        show Except.ok (((h.array a).map (renamed ρ))[i]?.getD .undefined) =
          .ok (renamed ρ ((h.array a)[i]?.getD .undefined))
        rw [Array.getElem?_map]
        cases (h.array a)[i]? <;> rfl
  | object a =>
    show Except.ok (((h'.object (ρ a)).get? key).getD .undefined) =
      .ok (renamed ρ (((h.object a).get? key).getD .undefined))
    rw [reads.object hv, renamed_map, OrderedMap.get?_map]
    cases (h.object a).get? key <;> rfl
  | function a =>
    show Except.ok (if key = "name" then _ else _) = .ok (renamed ρ (if key = "name" then _ else _))
    rw [reads.functionName hv]
    split <;> rfl
  | native a =>
    show Except.ok (if key = "name" then _ else _) = .ok (renamed ρ (if key = "name" then _ else _))
    rw [reads.nativeName hv]
    split <;> rfl

/-- Keys are texts, and they are those of the same array or object. -/
theorem enumerableKeys (reads : h.Resembles ρ held h') {v : Value} (hv : held v) :
    (renamed ρ v).enumerableKeys h' = v.enumerableKeys h := by
  cases v with
  | object a =>
    show orderedKeys (h'.object (ρ a)).keys = _
    rw [reads.object hv, renamed_map, OrderedMap.keys_map]
    rfl
  | array a =>
    show indexKeys (h'.array (ρ a)).size = _
    rw [reads.array hv, renamed_array, Array.size_map]
    rfl
  | _ => rfl

/-! ## Writes -/

end Heap.Resembles

/-- What an array is filled up with has no address. -/
theorem resized_renamed {ρ : Addr → Addr} (elements : Array Value) (length : Nat) :
    resized (renamed ρ elements) length = renamed ρ (resized elements length) := by
  unfold resized
  rw [renamed_array, Array.size_map]
  split
  · exact Array.map_extract.symm
  · rw [renamed_array, Array.map_append, Array.map_replicate]
    rfl

namespace Value

/-- A write and the same write of renamed data into another heap: without an end, refused with the
same failure, or changes of the same object or array. -/
inductive WritesAlike (ρ : Addr → Addr) (target : Value) (key : String) (value : Value) :
    Option (Except EvalError (Heap → Heap)) → Option (Except EvalError (Heap → Heap)) → Prop where
  | never : WritesAlike ρ target key value none none
  | refused (e : EvalError) : WritesAlike ρ target key value (some (.error e)) (some (.error e))
  | object (a : Addr) (htarget : target = .object a) :
    WritesAlike ρ target key value (some (.ok (·.modifyObject a (·.insert key value))))
      (some (.ok (·.modifyObject (ρ a) (·.insert key (renamed ρ value)))))
  | array (a : Addr) (f f' : Array Value → Array Value) (htarget : target = .array a)
    (hf : BringsIn value f) (hsame : ∀ elements, f' (renamed ρ elements) = renamed ρ (f elements)) :
    WritesAlike ρ target key value (some (.ok (·.modifyArray a f)))
      (some (.ok (·.modifyArray (ρ a) f')))

end Value

namespace Heap.Resembles

variable {ρ : Addr → Addr} {held : Value → Prop} {h h' : Heap}

/-- A new length is refused in both heaps or in neither. -/
theorem resizing (reads : h.Resembles ρ held h') {a : Addr} (length : Nat)
    (ha : held (.array a)) :
    (∃ e, Value.resizing h a length = .error e ∧ Value.resizing h' (ρ a) length = .error e) ∨
      Value.resizing h a length = .ok (·.modifyArray a (resized · length)) ∧
        Value.resizing h' (ρ a) length = .ok (·.modifyArray (ρ a) (resized · length)) := by
  unfold Value.resizing
  rw [reads.array ha, renamed_array, Array.size_map]
  dsimp only
  split
  · exact .inl ⟨_, rfl, rfl⟩
  · exact .inr ⟨rfl, rfl⟩

/-- How a write goes is told by the key, and by the size of the array. -/
theorem writing (reads : h.Resembles ρ held h') {target value : Value} (key : String)
    (htarget : held target) (hvalue : held value) :
    Value.WritesAlike ρ target key value (target.writing h key value)
      ((renamed ρ target).writing h' key (renamed ρ value)) := by
  cases target with
  | object a => exact .object a rfl
  | array a =>
    have hsize : (h'.array (ρ a)).size = (h.array a).size := by
      rw [reads.array htarget, renamed_array, Array.size_map]
    have hset : ∀ (index : Nat) (elements : Array Value),
        (renamed ρ elements).setIfInBounds index (renamed ρ value) =
          renamed ρ (elements.setIfInBounds index value) := fun index elements =>
      Array.map_setIfInBounds.symm
    show Value.WritesAlike ρ _ _ _ _ ((Value.array (ρ a)).writing h' key (renamed ρ value))
    unfold Value.writing
    dsimp only
    cases arrayIndex? key with
    | some index =>
      dsimp only
      rw [hsize]
      split
      · exact .array a _ _ rfl (Value.bringsIn_set value index) (hset index)
      · -- Past the end the array first grows, by elements that are undefined.
        rcases reads.resizing (index + 1) htarget with ⟨e, hfirst, hsecond⟩ | ⟨hfirst, hsecond⟩
        · rw [hfirst, hsecond]
          exact .refused e
        · rw [hfirst, hsecond]
          have hgrows : ∀ (v : Value) (b : Addr), (fun g : Heap =>
              (g.modifyArray b (resized · (index + 1))).modifyArray b
                (·.setIfInBounds index v)) =
              (·.modifyArray b ((·.setIfInBounds index v) ∘ (resized · (index + 1)))) :=
            fun v b => funext fun g => g.modifyArray_modifyArray b _ _
          show Value.WritesAlike ρ _ _ _ (some (.ok fun g => (g.modifyArray a _).modifyArray a _))
            (some (.ok fun g => (g.modifyArray (ρ a) _).modifyArray (ρ a) _))
          rw [hgrows, hgrows]
          refine .array a _ _ rfl ?_ fun elements => ?_
          · exact (Value.bringsIn_set value index).comp (Value.bringsIn_resized value (index + 1))
          · show (resized (renamed ρ elements) (index + 1)).setIfInBounds index (renamed ρ value) = _
            rw [resized_renamed, hset]
            rfl
    | none =>
      dsimp only
      split
      · rw [reads.toNumber hvalue]
        cases value.toNumber h with
        | none => exact .never
        | some n =>
          -- A new length cuts elements off or adds undefined ones.
          simp only [Option.map_some]
          cases Value.arrayLength? n with
          | none => exact .refused _
          | some length =>
            dsimp only
            rcases reads.resizing length htarget with ⟨e, hfirst, hsecond⟩ | ⟨hfirst, hsecond⟩
            · rw [hfirst, hsecond]
              exact .refused e
            · rw [hfirst, hsecond]
              exact .array a _ _ rfl (Value.bringsIn_resized value length) fun elements =>
                resized_renamed elements length
      · exact .refused _
  | _ => exact .refused _

end Heap.Resembles

end HostScript
