import HostScript.Proofs.Tree.Leaves
import HostScript.Proofs.Tree.Table

/-!
# What reading a tree ends with

Reading a value ends with a node that the value describes, where it is one of the format, or else
with its first fault (`Node.ofJson_ends`); no value is both (`IsNode.not_faulty`).

* `Node.ofJson_succeeds_iff`, `Node.describes_of_ofJson`, `Node.faulty_of_ofJson`.
-/

namespace HostScript

/-! ## What reading ends with -/

/-- A reading ends with a value that is as `D` tells, or with a fault as `F` tells. -/
inductive Loaded.Ends {α : Type} (D : α → Prop) (F : String → NodeFault → Prop) :
    Loaded α → Prop where
  | ok {a : α} (ha : D a) : Ends D F (.ok a)
  | malformed {kind : String} {fault : NodeFault} (hfault : F kind fault) :
      Ends D F (.error (.malformed kind fault))

namespace Loaded

variable {α β : Type} {D : α → Prop} {E : β → Prop} {F F' : String → NodeFault → Prop}

/-- A result may be changed together with what is known of it. -/
theorem Ends.map {x : Loaded α} {f : α → β} (hx : Ends D F x)
    (hF : ∀ kind fault, F kind fault → F' kind fault) (hf : ∀ a, D a → E (f a)) :
    Ends E F' (x.map f) := by
  cases hx with
  | ok ha => exact .ok (hf _ ha)
  | malformed hfault => exact .malformed (hF _ _ hfault)

/-- A value read on, or a fault that ends the whole reading. -/
theorem Ends.bind {x : Loaded α} {f : α → Loaded β} (hx : Ends D F x)
    (hF : ∀ kind fault, F kind fault → F' kind fault) (hf : ∀ a, D a → Ends E F' (f a)) :
    Ends E F' (x >>= f) := by
  cases hx with
  | ok ha => exact hf _ ha
  | malformed hfault => exact .malformed (hF _ _ hfault)

end Loaded

/-- What reading a value as a node ends with: the node it describes, or its first fault. -/
def EndsAsNode (json : Json) : Loaded Node → Prop :=
  Loaded.Ends (fun node => IsNode json ∧ Describes json node) (Faulty json)

namespace Json

/-- An item is nested less deep than its list. -/
theorem depth_le_of_mem {json : Json} {items : List Json} (h : json ∈ items) :
    json.depth ≤ itemsDepth items := by
  induction items with
  | nil => cases h
  | cons item rest ih =>
    rw [itemsDepth]
    rcases List.mem_cons.1 h with rfl | h
    · exact Nat.le_max_left _ _
    · exact Nat.le_trans (ih h) (Nat.le_max_right _ _)

/-- A field is nested less deep than its record, and an absent one is not nested at all. -/
theorem depth_field_le (fields : List (String × Json)) (name : String) :
    (field fields name).depth ≤ fieldsDepth fields := by
  induction fields with
  | nil => exact Nat.le_refl 0
  | cons entry rest ih =>
    obtain ⟨key, value⟩ := entry
    rw [field, List.lookup_cons, fieldsDepth]
    split
    · exact Nat.le_max_left _ _
    · exact Nat.le_trans ih (Nat.le_max_right _ _)

end Json

section Ends

variable {load : NodeLoader} {bound : Nat}

/-- What reading values less deep than `bound` as items ends with. -/
def ListItem.Ends (load : NodeLoader) (bound : Nat) (item : ListItem) : Prop :=
  ∀ json : Json, json.depth < bound →
    Loaded.Ends (fun part => IsItem item json ∧ DescribesItem item json part)
      (FaultyItem item json) (item.read load json)

/-- The items of a list are read up to the first fault. -/
theorem ListItem.Ends.mapM {item : ListItem} (hitem : item.Ends load bound) {items : List Json}
    (hdepth : ∀ json ∈ items, json.depth < bound) :
    Loaded.Ends (fun parts => HasItems item items ∧ DescribesItems item items parts)
      (FaultyItems item items) (items.mapM (item.read load)) := by
  induction items with
  | nil => exact .ok ⟨.nil item, .nil item⟩
  | cons json rest ih =>
    rw [List.mapM_cons]
    refine Loaded.Ends.bind (hitem json (hdepth json (by simp))) (fun _ _ => .here) ?_
    intro part hpart
    exact (ih fun json hjson => hdepth json (by simp [hjson])).bind (fun _ _ => .later hpart.1)
      fun parts hparts => .ok ⟨.cons hpart.1 hparts.1, .cons hpart.2 hparts.2⟩

namespace Record

variable {r : Record} {name : String}

theorem node?_of_ne_null (hnull : r.get name ≠ .null) :
    r.node? load name = (load (r.get name)).map some := by
  rw [node?]
  split
  · next h => exact absurd h hnull
  · rfl

theorem node?_of_null (hnull : r.get name = .null) : r.node? load name = .ok none := by
  rw [node?, hnull]

/-- What is no array is refused as such. -/
theorem list_of_not_array {α : Type} {item : Json → Loaded α}
    (hget : ∀ items, r.get name ≠ .array items) :
    r.list name item = r.malformed (.wrongShape name .array) := by
  rw [list]
  split
  · next items h => exact absurd h (hget items)
  · rfl

theorem node_of_null (hnull : r.get name = .null) :
    r.node load name = r.malformed (.missing name) := by
  rw [node, node?_of_null hnull]
  rfl

theorem node_of_ne_null (hnull : r.get name ≠ .null) : r.node load name = load (r.get name) := by
  rw [node, node?_of_ne_null hnull]
  cases load (r.get name) <;> rfl

/-- What reading a field ends with: a part in the form it has to have, or its first fault. -/
theorem readForm_ends (hload : ∀ json : Json, json.depth < bound → EndsAsNode json (load json))
    {form : Form} (hitem : ∀ item, form = .list item → item.Ends load bound)
    (hdepth : (r.get name).depth < bound) :
    Loaded.Ends
      (fun part => HasForm form (r.get name) ∧ DescribesForm name form (r.get name) part)
      (FaultyForm r.kind name form (r.get name)) (r.readForm load name form) := by
  have hread := hload _ hdepth
  cases form with
  | node =>
    rw [readForm]
    by_cases hnull : r.get name = .null
    · rw [node_of_null hnull, hnull]
      exact .malformed (.missing r.kind name)
    · rw [node_of_ne_null hnull]
      exact hread.map (fun _ _ => .node hnull) fun node hnode => ⟨.node hnode.1, .node hnode.2⟩
  | optional =>
    rw [readForm]
    by_cases hnull : r.get name = .null
    · rw [node?_of_null hnull, hnull]
      exact .ok ⟨.absent, .absent name⟩
    · rw [node?_of_ne_null hnull, Loaded.map_map]
      exact hread.map (fun _ _ => .optional hnull)
        fun node hnode => ⟨.optional hnode.1, .optional hnode.2⟩
  | list item =>
    rw [readForm]
    -- An array is read item by item. Anything else has the wrong shape.
    by_cases harray : ∃ items, r.get name = .array items
    · obtain ⟨items, harray⟩ := harray
      have hitems : ∀ json ∈ items, json.depth < bound := fun json hjson => by
        have := Json.depth_le_of_mem hjson
        rw [harray, Json.depth] at hdepth
        omega
      have hlist : r.list name (item.read load) = items.mapM (item.read load) := by
        rw [list, harray]
      rw [hlist, harray]
      exact ((hitem item rfl).mapM hitems).map (fun _ _ => .list)
        fun parts hparts => ⟨.list hparts.1, .list hparts.2⟩
    · have hget : ∀ items, r.get name ≠ .array items := fun items h => harray ⟨items, h⟩
      rw [list_of_not_array hget]
      exact .malformed (.noArray hget)
  | leaf leaf =>
    rw [readForm]
    cases hleaf : leaf.read name (r.get name) with
    | ok value => exact .ok ⟨.leaf (Leaf.decodes_read.1 ⟨value, hleaf⟩), .leaf hleaf⟩
    | error fault => exact .malformed (.leaf hleaf)

/-- By induction on the listed fields: the first fault is that of the first field that has one. -/
theorem readFields_ends (hload : ∀ json : Json, json.depth < bound → EndsAsNode json (load json))
    (hdepth : Json.fieldsDepth r.fields < bound) {listed : List (String × Form)}
    (hitem : ∀ name item, (name, Form.list item) ∈ listed → item.Ends load bound) :
    Loaded.Ends
      (fun parts => HasFields listed r.fields ∧ DescribesFields listed r.fields parts)
      (FaultyFields r.kind listed r.fields) (r.readFields load listed) := by
  induction listed with
  | nil => exact .ok ⟨.nil _, .nil _⟩
  | cons field rest ih =>
    obtain ⟨name, form⟩ := field
    have hfirst : ∀ item, form = .list item → item.Ends load bound := by
      rintro item rfl
      exact hitem name item (by simp)
    have hshallow : (r.get name).depth < bound :=
      Nat.lt_of_le_of_lt (Json.depth_field_le r.fields name) hdepth
    have hform := readForm_ends hload hfirst hshallow
    rw [readFields]
    refine hform.bind (fun _ _ => .here) fun part hpart => ?_
    exact (ih fun name item h => hitem name item (by simp [h])).bind (fun _ _ => .later hpart.1)
      fun parts hparts => .ok ⟨.cons hpart.1 hparts.1, .cons hpart.2 hparts.2⟩

end Record

/-! ### Entries -/

theorem loadElement_of_ne_null {json : Json} (hnull : json ≠ .null) :
    loadElement load json = (load json).map some := by
  cases json with
  | null => exact absurd rfl hnull
  | _ => rfl

/-- An entry is read like a record whose kind may be left out. -/
theorem ListItem.read_entry (entry : Entry) (json : Json) :
    ListItem.read load (.entry entry) json =
      Record.ofJson (some entry.kind) json >>= fun r =>
        (r.readFields load entry.fields).map .list := by
  cases entry with
  | declarator =>
    simp only [read, loadDeclarator, Entry.kind, Entry.fields, Record.readFields,
      Record.readForm_node, Record.readForm_optional, Loaded.map_bind, Loaded.bind_map,
      Loaded.bind_assoc, Loaded.pure_bind]
    rfl
  | clause =>
    simp only [read, loadCase, Entry.kind, Entry.fields, Record.readFields,
      Record.readForm_nodes, Record.readForm_optional, Loaded.map_bind, Loaded.bind_map,
      Loaded.bind_assoc, Loaded.pure_bind]
    rfl

/-- A record without type is of the kind that is expected. -/
theorem Record.ofJson_entry (entry : Entry) (fields : List (String × Json)) :
    Record.ofJson (some entry.kind) (.object fields) =
      .ok { kind := entry.kindOf fields, span := Span.ofFields fields, fields } := by
  unfold ofJson Entry.kindOf
  dsimp only
  cases Json.field fields "type" <;> rfl

theorem Record.ofJson_of_not_object {default : Option String} {json : Json}
    (hjson : ∀ fields, json ≠ .object fields) :
    Record.ofJson default json = .error (.malformed (default.getD untypedKind) .notAnObject) := by
  cases json with
  | object fields => exact absurd rfl (hjson fields)
  | _ => rfl

/-- One case for each kind of item. Entries hold lists themselves, but only of nodes. -/
theorem ListItem.ends (hload : ∀ json : Json, json.depth < bound → EndsAsNode json (load json))
    (item : ListItem) : item.Ends load bound := by
  have hnode : ListItem.node.Ends load bound := fun json hdepth =>
    (hload json hdepth).map (fun _ _ => .node) fun node hnode => ⟨.node hnode.1, .node hnode.2⟩
  intro json hdepth
  cases item with
  | node => exact hnode json hdepth
  | element =>
    by_cases hnull : json = .null
    · rw [hnull]
      exact .ok ⟨.hole, .hole⟩
    · have hread : ListItem.read load .element json = (load json).map .node := by
        rw [read, loadElement_of_ne_null hnull, Loaded.map_map]
        rfl
      rw [hread]
      exact (hload json hdepth).map (fun _ _ => .element hnull)
        fun node hnode => ⟨.element hnode.1, .element hnode.2⟩
  | entry entry =>
    rw [read_entry]
    by_cases hobject : ∃ fields, json = .object fields
    · obtain ⟨fields, rfl⟩ := hobject
      rw [Json.depth] at hdepth
      -- The one list in an entry holds nodes, which are read already.
      have hitem : ∀ name item, (name, Form.list item) ∈ entry.fields →
          item.Ends load bound := by
        intro name item hmem
        cases entry <;> simp [Entry.fields] at hmem
        rw [hmem.2]
        exact hnode
      rw [Record.ofJson_entry]
      exact (Record.readFields_ends hload (by show Json.fieldsDepth fields < bound; omega)
        hitem).map (fun _ _ => .entry) fun parts hparts => ⟨.entry hparts.1, .entry hparts.2⟩
    · have hjson : ∀ fields, json ≠ .object fields := fun fields h => hobject ⟨fields, h⟩
      rw [Record.ofJson_of_not_object hjson]
      exact .malformed (.noEntry hjson)
  | template =>
    rw [read, loadTemplateElement]
    cases htemplate : decodeTemplateElement json with
    | ok element =>
      exact .ok ⟨.template (decodes_templateElement.1 ⟨element, htemplate⟩), .template htemplate⟩
    | error fault => exact .malformed (.template htemplate)

/-! ### Nodes -/

/-- An offset is a number that is a natural one. -/
theorem Json.natural?_eq_some_iff {json : Json} {n : Nat} :
    json.natural? = some n ↔ json = .number (.natural n) := by
  constructor
  · intro h
    unfold natural? at h
    split at h <;> cases h
    rfl
  · rintro rfl
    rfl

/-- A record has a span just if both offsets are there and fit into 32 bits. -/
theorem hasSpan_ofFields (fields : List (String × Json)) :
    HasSpan fields (Span.ofFields fields) := by
  intro s
  rw [← Json.natural?_eq_some_iff, ← Json.natural?_eq_some_iff]
  unfold Span.ofFields
  cases (Json.field fields "start").natural? with
  | none => simp
  | some start =>
    cases (Json.field fields "end").natural? with
    | none => simp
    | some stop =>
      show (if start < UInt32.size ∧ stop < UInt32.size then
        some ⟨start.toUInt32, stop.toUInt32⟩ else none) = some s ↔ _
      have hstart : s.start.toNat < UInt32.size := s.start.toNat_lt_size
      have hstop : s.stop.toNat < UInt32.size := s.stop.toNat_lt_size
      split
      · next h =>
        rw [Option.some.injEq, Option.some.injEq, Option.some.injEq]
        constructor
        · rintro rfl
          exact ⟨(UInt32.toNat_ofNat_of_lt h.1).symm, (UInt32.toNat_ofNat_of_lt h.2).symm⟩
        · rintro ⟨rfl, rfl⟩
          simp
      · next h =>
        -- Offsets of a span always fit, so one that does not is in none.
        constructor
        · intro h'
          cases h'
        · rintro ⟨⟨⟩, ⟨⟩⟩
          exact absurd ⟨hstart, hstop⟩ h

/-- A record with a type is one of this kind. -/
theorem Record.ofJson_of_typed {fields : List (String × Json)} {kind : String}
    (htype : Json.field fields "type" = .string kind) :
    Record.ofJson none (.object fields) = .ok { kind, span := Span.ofFields fields, fields } := by
  rw [ofJson]
  simp only [htype]

/-- A record without a type is refused where no kind is expected. -/
theorem Record.ofJson_of_untyped {fields : List (String × Json)}
    (htype : ∀ kind, Json.field fields "type" ≠ .string kind) :
    Record.ofJson none (.object fields) = .error (.malformed untypedKind .untyped) := by
  unfold Record.ofJson
  dsimp only
  split
  · next h => exact absurd h (htype _)
  · next h _ => cases h
  · rfl

/-- What reading the kind of a record ends with. -/
theorem NodeKind.ofRecord_ends
    (hload : ∀ json : Json, json.depth < bound → EndsAsNode json (load json)) {r : Record}
    (hdepth : Json.fieldsDepth r.fields < bound) {listed : List (String × Form)}
    (hkind : fieldsOf r.kind = some listed) :
    Loaded.Ends
      (fun kind => HasFields listed r.fields ∧ kind.name = r.kind ∧
        DescribesFields listed r.fields kind.parts)
      (FaultyFields r.kind listed r.fields) (ofRecord load r) := by
  have hfields := Record.readFields_ends hload hdepth
    (fun _ item (_ : (_, Form.list item) ∈ listed) => item.ends hload)
  have hparts : (ofRecord load r).map parts = r.readFields load listed := map_parts_ofRecord hkind
  have hname : (ofRecord load r).map name = (ofRecord load r).map fun _ => r.kind :=
    map_name_ofRecord
  rw [← hparts] at hfields
  cases hread : ofRecord load r with
  | ok kind =>
    rw [hread] at hfields hname
    cases hfields with
    | ok h => exact .ok ⟨h.1, Except.ok.inj hname, h.2⟩
  | error e =>
    rw [hread] at hfields
    cases hfields with
    | malformed h => exact .malformed h

/-- A node is a record of a listed kind, or one of a kind that is kept by its name alone. -/
theorem Node.ofObject_ends
    (hload : ∀ json : Json, json.depth < bound → EndsAsNode json (load json)) {json : Json}
    (hdepth : json.depth ≤ bound) : EndsAsNode json (ofObject load json) := by
  rw [ofObject]
  by_cases hobject : ∃ fields, json = .object fields
  · obtain ⟨fields, rfl⟩ := hobject
    by_cases htyped : ∃ kind, Json.field fields "type" = .string kind
    · obtain ⟨kind, htype⟩ := htyped
      have hspan := hasSpan_ofFields fields
      rw [Record.ofJson_of_typed htype]
      show EndsAsNode _ (NodeKind.ofRecord load ⟨kind, Span.ofFields fields, fields⟩ >>= _)
      cases hkind : fieldsOf kind with
      | none =>
        rw [NodeKind.ofRecord_of_unlisted hkind]
        exact .ok ⟨.unlisted htype hkind, .unlisted htype hkind hspan⟩
      | some listed =>
        -- The fields of a listed kind are less deep than the record, so the assumption applies to
        -- them.
        rw [Json.depth] at hdepth
        have hread := NodeKind.ofRecord_ends (r := ⟨kind, Span.ofFields fields, fields⟩) hload
          (by show Json.fieldsDepth fields < bound; omega) hkind
        refine hread.bind (fun _ _ => .field htype hkind) fun k hk => ?_
        obtain ⟨hfields, rfl, hparts⟩ := hk
        exact .ok ⟨.listed htype hkind hfields, .listed htype hkind hspan hparts⟩
    · have htype : ∀ kind, Json.field fields "type" ≠ .string kind := fun k h => htyped ⟨k, h⟩
      rw [Record.ofJson_of_untyped htype]
      exact .malformed (.untyped htype)
  · have hjson : ∀ fields, json ≠ .object fields := fun fields h => hobject ⟨fields, h⟩
    rw [Record.ofJson_of_not_object hjson]
    exact .malformed (.noObject hjson)

/-- By induction on the depth, which limits how deep nodes may be nested. -/
theorem Node.ofJsonUpTo_ends (depth : Nat) : ∀ json : Json, json.depth ≤ depth →
    EndsAsNode json (ofJsonUpTo depth json) := by
  induction depth with
  | zero =>
    intro json hdepth
    refine .malformed (.noObject ?_)
    rintro fields rfl
    rw [Json.depth] at hdepth
    omega
  | succ depth ih =>
    intro json hdepth
    exact ofObject_ends (fun json h => ih json (Nat.lt_succ_iff.1 h)) hdepth

/-- The depth of the value itself is enough. -/
theorem Node.ofJson_ends (json : Json) : EndsAsNode json (ofJson json) :=
  ofJsonUpTo_ends json.depth json (Nat.le_refl _)

end Ends

/-! ## No value is a node and faulty -/

mutual

/-- By induction on the fault, together with the theorems on fields and items. -/
theorem IsNode.not_faulty : ∀ {json : Json} {kind : String} {fault : NodeFault},
    IsNode json → ¬ Faulty json kind fault
  | _, _, _, .unlisted _ _, .noObject hjson => hjson _ rfl
  | _, _, _, .unlisted htype _, .untyped hno => hno _ htype
  | _, _, _, .unlisted htype hkind, .field htype' hkind' _ => by
    cases htype.symm.trans htype'
    rw [hkind] at hkind'
    cases hkind'
  | _, _, _, .listed _ _ _, .noObject hjson => hjson _ rfl
  | _, _, _, .listed htype _ _, .untyped hno => hno _ htype
  | _, _, _, .listed htype hkind hfields, .field htype' hkind' hfaults => by
    have hkinds := Json.string.inj (htype.symm.trans htype')
    have hlisted := Option.some.inj (hkind.symm.trans (hkinds ▸ hkind'))
    exact hfields.not_faulty (hlisted ▸ hfaults)

theorem HasFields.not_faulty : ∀ {listed : List (String × Form)} {fields : List (String × Json)}
    {record kind : String} {fault : NodeFault},
    HasFields listed fields → ¬ FaultyFields record listed fields kind fault
  | _, _, _, _, _, .cons hfield _, .here hfault => hfield.not_faulty hfault
  | _, _, _, _, _, .cons _ hrest, .later _ hfault => hrest.not_faulty hfault

theorem HasForm.not_faulty : ∀ {form : Form} {json : Json} {record name kind : String}
    {fault : NodeFault}, HasForm form json → ¬ FaultyForm record name form json kind fault
  | _, _, _, _, _, _, .node hnode, .missing _ _ => by cases hnode
  | _, _, _, _, _, _, .node hnode, .node _ hfault => hnode.not_faulty hfault
  | _, _, _, _, _, _, .absent, .optional hnull _ => hnull rfl
  | _, _, _, _, _, _, .optional hnode, .optional _ hfault => hnode.not_faulty hfault
  | _, _, _, _, _, _, .list _, .noArray hjson => hjson _ rfl
  | _, _, _, _, _, _, .list hitems, .list hfault => hitems.not_faulty hfault
  | _, _, _, _, _, _, .leaf hleaf, .leaf hfault => by
    obtain ⟨value, hvalue⟩ := Leaf.decodes_read.2 hleaf
    rw [hvalue] at hfault
    cases hfault

theorem HasItems.not_faulty : ∀ {item : ListItem} {items : List Json} {kind : String}
    {fault : NodeFault}, HasItems item items → ¬ FaultyItems item items kind fault
  | _, _, _, _, .cons hitem _, .here hfault => hitem.not_faulty hfault
  | _, _, _, _, .cons _ hrest, .later _ hfault => hrest.not_faulty hfault

theorem IsItem.not_faulty : ∀ {item : ListItem} {json : Json} {kind : String}
    {fault : NodeFault}, IsItem item json → ¬ FaultyItem item json kind fault
  | _, _, _, _, .node hnode, .node hfault => hnode.not_faulty hfault
  | _, _, _, _, .hole, .element hnull _ => hnull rfl
  | _, _, _, _, .element hnode, .element _ hfault => hnode.not_faulty hfault
  | _, _, _, _, .entry _, .noEntry hjson => hjson _ rfl
  | _, _, _, _, .entry hfields, .entry hfault => hfields.not_faulty hfault
  | _, _, _, _, .template htemplate, .template hfault => by
    obtain ⟨element, helement⟩ := decodes_templateElement.2 htemplate
    rw [helement] at hfault
    cases hfault

end

namespace Node

/-- Just the nodes of the format are read. -/
theorem ofJson_succeeds_iff (json : Json) : (∃ node, ofJson json = .ok node) ↔ IsNode json := by
  have hends := ofJson_ends json
  constructor
  · rintro ⟨node, hnode⟩
    rw [hnode] at hends
    cases hends with
    | ok h => exact h.1
  · intro hjson
    generalize ofJson json = x at hends
    cases hends with
    | ok h => exact ⟨_, rfl⟩
    | malformed hfault => exact absurd hfault hjson.not_faulty

/-- What is read is what the value describes. -/
theorem describes_of_ofJson {json : Json} {node : Node} (h : ofJson json = .ok node) :
    Describes json node := by
  have hends := ofJson_ends json
  rw [h] at hends
  cases hends with
  | ok h => exact h.2

/-- The error is the first fault. -/
theorem faulty_of_ofJson {json : Json} {e : TreeError} (h : ofJson json = .error e) :
    ∃ kind fault, e = .malformed kind fault ∧ Faulty json kind fault := by
  have hends := ofJson_ends json
  rw [h] at hends
  cases hends with
  | malformed hfault => exact ⟨_, _, rfl, hfault⟩

end Node

end HostScript
