import HostScript.Heap.Handles
import HostScript.Proofs.OrderedMap
import HostScript.Run.Completion
import HostScript.Run.Place
import HostScript.Value.Equality

/-!
# Renaming addresses

Nothing that code computes depends on which addresses its cells have. To say so, addresses are
renamed in all data that holds any: `renamed ρ` puts `ρ a` in the place of every address `a`.

* `Renamable`: data in which addresses can be renamed.
* `Cell.handles_renamed`, `Value.addr?_renamed`: renaming data renames its handles.
* `Cell.renamed_eq_self`, `Value.renamed_eq_self`: a renaming that moves none of the handles of some
  data leaves it as it is.
-/

namespace HostScript

/-- Data in which the addresses of cells can be renamed. -/
class Renamable (α : Type) where
  renamed : (Addr → Addr) → α → α
  renamed_id : ∀ a : α, renamed id a = a

export Renamable (renamed renamed_id)

attribute [simp] renamed_id

theorem renamed_id_eq {α : Type} [Renamable α] : (renamed id : α → α) = id := funext renamed_id

variable {ρ : Addr → Addr}

/-! ## Data without addresses -/

instance : Renamable Unit := ⟨fun _ x => x, fun _ => rfl⟩
instance : Renamable Bool := ⟨fun _ x => x, fun _ => rfl⟩
instance : Renamable Float := ⟨fun _ x => x, fun _ => rfl⟩
instance : Renamable String := ⟨fun _ x => x, fun _ => rfl⟩
instance : Renamable UpdateOp := ⟨fun _ x => x, fun _ => rfl⟩
instance : Renamable EvalError := ⟨fun _ x => x, fun _ => rfl⟩

@[simp] theorem renamed_bool (b : Bool) : renamed ρ b = b := rfl

/-! ## Containers -/

section Containers

variable {α β : Type} [Renamable α] [Renamable β]

instance : Renamable (Option α) where
  renamed ρ := Option.map (renamed ρ)
  renamed_id x := by cases x <;> simp

instance : Renamable (List α) where
  renamed ρ := List.map (renamed ρ)
  renamed_id x := by rw [renamed_id_eq, List.map_id]

instance : Renamable (Array α) where
  renamed ρ := Array.map (renamed ρ)
  renamed_id x := by rw [renamed_id_eq, Array.map_id]

instance : Renamable (α × β) where
  renamed ρ := Prod.map (renamed ρ) (renamed ρ)
  renamed_id x := by rw [renamed_id_eq, renamed_id_eq, Prod.map_id]; rfl

instance : Renamable (Except α β) where
  renamed ρ
    | .error a => .error (renamed ρ a)
    | .ok b => .ok (renamed ρ b)
  renamed_id x := by cases x <;> simp

instance : Renamable (OrderedMap α) where
  renamed ρ := OrderedMap.map (renamed ρ)
  renamed_id _ := OrderedMap.map_eq_self fun v _ => renamed_id v

theorem renamed_option (x : Option α) : renamed ρ x = x.map (renamed ρ) := rfl

theorem renamed_list (xs : List α) : renamed ρ xs = xs.map (renamed ρ) := rfl

theorem renamed_array (xs : Array α) : renamed ρ xs = xs.map (renamed ρ) := rfl

theorem renamed_map (m : OrderedMap α) : renamed ρ m = m.map (renamed ρ) := rfl

theorem renamed_option_eq_self {x : Option α} (hx : ∀ a : α, renamed ρ a = a) :
    renamed ρ x = x := by
  cases x with
  | none => rfl
  | some a => exact congrArg some (hx a)

@[simp] theorem renamed_none : renamed ρ (none : Option α) = none := rfl

@[simp] theorem renamed_some (a : α) : renamed ρ (some a) = some (renamed ρ a) := rfl

@[simp] theorem renamed_nil : renamed ρ ([] : List α) = [] := rfl

@[simp] theorem renamed_cons (a : α) (rest : List α) :
    renamed ρ (a :: rest) = renamed ρ a :: renamed ρ rest := rfl

@[simp] theorem renamed_append (first second : List α) :
    renamed ρ (first ++ second) = renamed ρ first ++ renamed ρ second :=
  List.map_append

end Containers

@[simp] theorem renamed_strings (names : List String) : renamed ρ names = names := List.map_id _

/-! ## Values, cells and the like -/

instance : Renamable Value where
  renamed ρ
    | .array a => .array (ρ a)
    | .object a => .object (ρ a)
    | .function a => .function (ρ a)
    | .native a => .native (ρ a)
    | v => v
  renamed_id v := by cases v <;> rfl

instance : Renamable Env where
  renamed ρ e := ⟨ρ e.frame, ρ e.root⟩
  renamed_id _ := rfl

instance : Renamable Place where
  renamed ρ
    | .binding frame name => .binding (renamed ρ frame) name
    | .property object key => .property (renamed ρ object) key
  renamed_id p := by cases p <;> simp

instance : Renamable Completion where
  renamed ρ
    | .normal v => .normal (renamed ρ v)
    | .ret v => .ret (renamed ρ v)
    | .brk => .brk
    | .cont => .cont
  renamed_id c := by cases c <;> simp

instance : Renamable Frame where
  renamed ρ f := {
    bindings := renamed ρ f.bindings
    host := renamed ρ f.host
    parent := f.parent.map ρ }
  renamed_id f := by simp

instance : Renamable Closure where
  renamed ρ c := { c with env := renamed ρ c.env }
  renamed_id c := by simp

instance : Renamable HostFunction where
  renamed ρ fn := { fn with captured := renamed ρ fn.captured }
  renamed_id fn := by simp

instance : Renamable Cell where
  renamed ρ
    | .frame frame => .frame (renamed ρ frame)
    | .array elements => .array (renamed ρ elements)
    | .object properties => .object (renamed ρ properties)
    | .function closure => .function (renamed ρ closure)
    | .native function => .native (renamed ρ function)
    | .released => .released
  renamed_id c := by cases c <;> simp

instance : Renamable HostCall where
  renamed ρ call := ⟨ρ call.function, renamed ρ call.receiver, renamed ρ call.arguments⟩
  renamed_id call := by simp

instance : Renamable Definition where
  renamed ρ d := { d with env := renamed ρ d.env, value := renamed ρ d.value }
  renamed_id d := by simp

/-! ## What renaming leaves alone -/

namespace Value

theorem renamed_function (a : Addr) : renamed ρ (Value.function a) = .function (ρ a) := rfl

theorem renamed_native (a : Addr) : renamed ρ (Value.native a) = .native (ρ a) := rfl

/-- The handle of a renamed value is the renamed handle. -/
theorem addr?_renamed (v : Value) : (renamed ρ v).addr? = v.addr?.map ρ := by
  cases v <;> rfl

/-- A value is left as it is if its handle is, or if it has none. -/
theorem renamed_eq_self {v : Value} (hv : ∀ a, v.addr? = some a → ρ a = a) : renamed ρ v = v := by
  cases v with
  | array a => exact congrArg Value.array (hv a rfl)
  | object a => exact congrArg Value.object (hv a rfl)
  | function a => exact congrArg Value.function (hv a rfl)
  | native a => exact congrArg Value.native (hv a rfl)
  | _ => rfl

theorem renamed_of_plain {v : Value} (hv : v.addr? = none) : renamed ρ v = v :=
  renamed_eq_self fun a ha => by
    rw [hv] at ha
    cases ha

/-- What follows depends on the kind of a value, never on its address. -/
@[simp] theorem truthy_renamed (v : Value) : (renamed ρ v).truthy = v.truthy := by
  cases v <;> rfl

@[simp] theorem typeName_renamed (v : Value) : (renamed ρ v).typeName = v.typeName := by
  cases v <;> rfl

@[simp] theorem isNullish_renamed (v : Value) : (renamed ρ v).isNullish = v.isNullish := by
  cases v <;> rfl

@[simp] theorem isCallable_renamed (v : Value) : (renamed ρ v).isCallable = v.isCallable := by
  cases v <;> rfl

@[simp] theorem isCompound_renamed (v : Value) : (renamed ρ v).isCompound = v.isCompound := by
  cases v <;> rfl

/-- Conversions between values without handles commute with renaming. -/
theorem boolAsNumber_renamed (v : Value) :
    (renamed ρ v).boolAsNumber = renamed ρ v.boolAsNumber := by
  cases v <;> rfl

/-- Renamed handles are the same if they were before, since no two addresses get one name. -/
theorem strictEquals_renamed (hρ : Function.Injective ρ) (a b : Value) :
    (renamed ρ a).strictEquals (renamed ρ b) = a.strictEquals b := by
  have haddr : ∀ m n : Addr, (ρ m == ρ n) = (m == n) := fun m n => by
    rw [Bool.eq_iff_iff, beq_iff_eq, beq_iff_eq, hρ.eq_iff]
  cases a <;> cases b <;> first | exact haddr _ _ | rfl

/-- Two handles are the same if their new names are, which is why the renaming has to be
injective. -/
theorem mixedEquals_renamed (hρ : Function.Injective ρ) (a b : Value) :
    (renamed ρ a).mixedEquals (renamed ρ b) = a.mixedEquals b := by
  have hstrict := strictEquals_renamed hρ a b
  cases a <;> cases b <;> first | exact hstrict | rfl

end Value

theorem renamed_argument (arguments : List Value) (index : Nat) :
    argument (renamed ρ arguments) index = renamed ρ (argument arguments index) := by
  rw [argument, renamed_list, List.getElem?_map, argument]
  cases arguments[index]? <;> rfl

/-- An operator that chooses between its operands chooses alike. -/
theorem LogicalOp.choose_renamed (op : LogicalOp) (a b : Value) :
    op.choose (renamed ρ a) (renamed ρ b) = renamed ρ (op.choose a b) := by
  cases op <;>
    simp only [LogicalOp.choose, Value.truthy_renamed, Value.isNullish_renamed] <;>
    split <;> rfl

namespace Completion

/-- How a completion ends loops, switches and calls does not depend on its value. -/
theorem endsLoop?_renamed (c : Completion) : (renamed ρ c).endsLoop? = renamed ρ c.endsLoop? := by
  cases c <;> rfl

theorem endsSwitch?_renamed (c : Completion) :
    (renamed ρ c).endsSwitch? = renamed ρ c.endsSwitch? := by
  cases c <;> rfl

theorem result_renamed (c : Completion) : (renamed ρ c).result = renamed ρ c.result := by
  cases c <;> rfl

end Completion

/-! ## Frames and cells -/

namespace Frame

/-- Names are not renamed, only what they are bound to. -/
theorem lookup_renamed (f : Frame) (name : String) :
    (renamed ρ f).lookup name = renamed ρ (f.lookup name) := by
  show ((renamed ρ f.bindings).get? name).or ((renamed ρ f.host).bind (·.get? name)) =
    Option.map (renamed ρ) (f.lookup name)
  rw [renamed_map, OrderedMap.get?_map, lookup, Option.map_or]
  cases f.host with
  | none => rfl
  | some host =>
    congr 1
    exact OrderedMap.get?_map (renamed ρ) host name

theorem define_renamed (f : Frame) (name : String) (value : Value) :
    (renamed ρ f).define name (renamed ρ value) = renamed ρ (f.define name value) := by
  unfold define
  congr 1
  exact (OrderedMap.map_insert (renamed ρ) f.bindings name value).symm

end Frame

/-- The handles of renamed values are the renamed handles. -/
theorem filterMap_addr?_renamed (values : List Value) :
    (values.map (renamed ρ)).filterMap Value.addr? = (values.filterMap Value.addr?).map ρ := by
  rw [List.filterMap_map, List.map_filterMap]
  congr 1
  funext v
  exact v.addr?_renamed

theorem map_renamed_eq_self {values : List Value}
    (hvalues : ∀ a ∈ values.filterMap Value.addr?, ρ a = a) : values.map (renamed ρ) = values := by
  have hself : ∀ v ∈ values, renamed ρ v = v := fun v hv =>
    Value.renamed_eq_self fun a ha => hvalues a (List.mem_filterMap.2 ⟨v, hv, ha⟩)
  exact (List.map_congr_left hself).trans (List.map_id _)

namespace Cell

/-- Renaming a cell renames its handles. -/
theorem handles_renamed (c : Cell) : (renamed ρ c).handles = c.handles.map ρ := by
  cases c with
  -- A frame has three lots of handles: its parent, its own bindings and those of its host layer.
  | frame f =>
    show (f.parent.map ρ).toList ++ (renamed ρ f.bindings).values.filterMap Value.addr? ++
      (((renamed ρ f.host).map fun host => host.values.filterMap Value.addr?).getD []) = _
    rw [renamed_map, OrderedMap.values_map, filterMap_addr?_renamed, handles, List.map_append,
      List.map_append]
    congr 1
    · congr 1
      cases f.parent <;> rfl
    · cases f.host with
      | none => rfl
      | some host =>
        show (renamed ρ host).values.filterMap Value.addr? = (host.values.filterMap _).map ρ
        rw [renamed_map, OrderedMap.values_map, filterMap_addr?_renamed]
  | array elements =>
    show (elements.map (renamed ρ)).toList.filterMap Value.addr? = _
    rw [Array.toList_map, filterMap_addr?_renamed, handles]
  | object properties =>
    show (properties.map (renamed ρ)).values.filterMap Value.addr? = _
    rw [OrderedMap.values_map, filterMap_addr?_renamed, handles]
  | function closure => rfl
  | native fn => exact filterMap_addr?_renamed fn.captured
  | released => rfl

/-- A cell with no handle that the renaming moves. -/
theorem renamed_eq_self {c : Cell} (hc : ∀ a ∈ c.handles, ρ a = a) : renamed ρ c = c := by
  -- Both maps of a frame and that of an object are renamed value by value.
  have hmap : ∀ {m : OrderedMap Value}, (∀ a ∈ m.values.filterMap Value.addr?, ρ a = a) →
      m.map (renamed ρ) = m := fun hm =>
    OrderedMap.map_eq_self fun v hv =>
      Value.renamed_eq_self fun a ha => hm a (List.mem_filterMap.2 ⟨v, hv, ha⟩)
  cases c with
  | frame f =>
    obtain ⟨bindings, host, parent⟩ := f
    simp only [handles, List.mem_append] at hc
    have hbindings : bindings.map (renamed ρ) = bindings := hmap fun a ha => hc a (.inl (.inr ha))
    have hhost : host.map (renamed ρ) = host := by
      cases host with
      | none => rfl
      | some host => exact congrArg some (hmap fun a ha => hc a (.inr ha))
    have hparent : parent.map ρ = parent := by
      cases parent with
      | none => rfl
      | some p => exact congrArg some (hc p (.inl (.inl (by simp))))
    show Cell.frame ⟨bindings.map (renamed ρ), host.map (renamed ρ), parent.map ρ⟩ = _
    rw [hbindings, hhost, hparent]
  | array elements =>
    have helements : elements.toList.map (renamed ρ) = elements.toList := map_renamed_eq_self hc
    rw [← Array.toList_map, Array.toList_inj] at helements
    exact congrArg Cell.array helements
  | object properties => exact congrArg Cell.object (hmap hc)
  | function closure =>
    obtain ⟨code, frame, root⟩ := closure
    show Cell.function ⟨code, ρ frame, ρ root⟩ = _
    rw [hc frame (by simp [handles]), hc root (by simp [handles])]
  | native fn =>
    obtain ⟨name, operation, captured⟩ := fn
    show Cell.native ⟨name, operation, captured.map (renamed ρ)⟩ = _
    rw [map_renamed_eq_self hc]
  | released => rfl

end Cell

end HostScript
