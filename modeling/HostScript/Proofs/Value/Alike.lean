import HostScript.Proofs.Value.Resemblance

/-!
# Heaps that differ in frames at most

In heaps that are *alike* up to their frames, conversions, operators and properties agree, since
they see nothing of frames: `Heap.Alike.resembles`.
-/

namespace HostScript

namespace Heap

/-- Heaps of one size with the same arrays, objects and functions. -/
structure Alike (h h' : Heap) : Prop where
  size : h'.size = h.size
  array : ∀ a, h'.array a = h.array a
  object : ∀ a, h'.object a = h.object a
  closure : ∀ a, h'.closure? a = h.closure? a
  native : ∀ a, h'.native? a = h.native? a

/-- Heaps whose cells are the same or frames are alike. -/
theorem alike_of_cells {h h' : Heap} (hsize : h'.size = h.size)
    (hcell : ∀ a, h'.cell a = h.cell a ∨
      ∃ f f', h.cell a = .frame f ∧ h'.cell a = .frame f') : h.Alike h' := by
  refine ⟨hsize, fun a => ?_, fun a => ?_, fun a => ?_, fun a => ?_⟩
  · rcases hcell a with hsame | ⟨f, f', hf, hf'⟩
    · rw [array, hsame, array]
    · rw [array, hf', array, hf]
  · rcases hcell a with hsame | ⟨f, f', hf, hf'⟩
    · rw [object, hsame, object]
    · rw [object, hf', object, hf]
  · rcases hcell a with hsame | ⟨f, f', hf, hf'⟩
    · rw [closure?, hsame, closure?]
    · rw [closure?, hf', closure?, hf]
  · rcases hcell a with hsame | ⟨f, f', hf, hf'⟩
    · rw [native?, hsame, native?]
    · rw [native?, hf', native?, hf]

namespace Alike

variable {h h' : Heap}

protected theorem refl (h : Heap) : h.Alike h :=
  ⟨rfl, fun _ => rfl, fun _ => rfl, fun _ => rfl, fun _ => rfl⟩

theorem functionName (alike : h.Alike h') (a : Addr) :
    h'.functionName? a = h.functionName? a := by
  rw [functionName?, alike.closure, functionName?]

theorem nativeName (alike : h.Alike h') (a : Addr) : h'.nativeName a = h.nativeName a := by
  rw [Heap.nativeName, alike.native, Heap.nativeName]

theorem textUpTo (alike : h.Alike h') :
    ∀ (depth : Nat) (v : Value), v.textUpTo h' depth = v.textUpTo h depth := by
  intro depth
  induction depth with
  | zero =>
    intro v
    cases v <;> simp only [Value.textUpTo, alike.functionName, alike.nativeName]
  | succ depth ih =>
    intro v
    cases v <;> simp only [Value.textUpTo, alike.functionName, alike.nativeName, alike.array, ih]

theorem text (alike : h.Alike h') (v : Value) : v.text h' = v.text h := by
  rw [Value.text, alike.size, alike.textUpTo, Value.text]

/-- Under the same addresses, values that a closed set has read the same in heaps that are alike. -/
theorem resembles (alike : h.Alike h') {held : Value → Prop}
    (hplain : ∀ {v : Value}, v.addr? = none → held v)
    (helement : ∀ {a : Addr} {v : Value}, held (.array a) → v ∈ h.array a → held v)
    (hproperty : ∀ {a : Addr} {v : Value}, held (.object a) → v ∈ (h.object a).values → held v) :
    h.Resembles id held h' where
  injective := Function.injective_id
  plain := hplain
  array _ := (alike.array _).trans (renamed_id _).symm
  object _ := (alike.object _).trans (renamed_id _).symm
  functionName _ := alike.functionName _
  nativeName _ := alike.nativeName _
  text {v} _ := by rw [renamed_id, alike.text]
  element := helement
  property := hproperty

/-- All values read the same. -/
theorem resembles_all (alike : h.Alike h') : h.Resembles id (fun _ => True) h' :=
  alike.resembles (fun _ => trivial) (fun _ _ => trivial) fun _ _ => trivial

theorem toNumber (alike : h.Alike h') (v : Value) : v.toNumber h' = v.toNumber h := by
  simpa using alike.resembles_all.toNumber (v := v) trivial

theorem toUInt32 (alike : h.Alike h') (v : Value) : v.toUInt32 h' = v.toUInt32 h := by
  simpa using alike.resembles_all.toUInt32 (v := v) trivial

theorem toKey (alike : h.Alike h') (v : Value) : v.toKey h' = v.toKey h := alike.text v

theorem getProperty (alike : h.Alike h') (v : Value) (key : String) :
    v.getProperty h' key = v.getProperty h key := by
  simpa using alike.resembles_all.getProperty (v := v) trivial key

theorem enumerableKeys (alike : h.Alike h') (v : Value) :
    v.enumerableKeys h' = v.enumerableKeys h := by
  simpa using alike.resembles_all.enumerableKeys (v := v) trivial

theorem writing (alike : h.Alike h') (target : Value) (key : String) (value : Value) :
    target.writing h' key value = target.writing h key value := by
  have hwrites : Value.WritesAlike id target key value (target.writing h key value)
      ((renamed id target).writing h' key (renamed id value)) :=
    alike.resembles_all.writing key trivial trivial
  rw [renamed_id, renamed_id] at hwrites
  generalize target.writing h key value = first, target.writing h' key value = second at hwrites
  cases hwrites with
  | never => rfl
  | refused e => rfl
  | object a => rw [renamed_id]; rfl
  | array a f f' _ _ hsame =>
    have hf : f' = f := funext fun elements => by simpa using hsame elements
    rw [hf]
    rfl

end Alike

end Heap

/-- A write puts a key of an object or changes the elements of an array. -/
theorem Value.writing_eq_ok {h : Heap} {key : String} {target value : Value} {change : Heap → Heap}
    (hchange : target.writing h key value = some (.ok change)) :
    (∃ a, target = .object a ∧ change = (·.modifyObject a (·.insert key value))) ∨
      ∃ a f, target = .array a ∧ Value.BringsIn value f ∧ change = (·.modifyArray a f) := by
  have hwrites : Value.WritesAlike id target key value (target.writing h key value)
      ((renamed id target).writing h key (renamed id value)) :=
    (Heap.Alike.refl h).resembles_all.writing key trivial trivial
  rw [hchange] at hwrites
  generalize (renamed id target).writing h key (renamed id value) = second at hwrites
  cases hwrites with
  | object a htarget => exact .inl ⟨a, htarget, rfl⟩
  | array a f f' htarget hf _ => exact .inr ⟨a, f, htarget, hf, rfl⟩

end HostScript
