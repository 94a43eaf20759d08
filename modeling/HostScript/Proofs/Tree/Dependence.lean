import HostScript.Proofs.Tree.Alike

/-!
# Values that are the same to the reader are read alike

`Node.ofJson_alike`, by recursion on how the two values are the same. The lemmas before it are the
steps: the parts that two records yield for one field, given that the values inside are read alike.
-/

namespace HostScript

/-! ## One step of reading -/

section Steps

variable {load load' : NodeLoader} {r r' : Record} {name : String}

theorem Loaded.alike_malformed {α : Type} {R : α → α → Prop} (kind : String) (fault : NodeFault) :
    Loaded.Alike R (.error (.malformed kind fault)) (.error (.malformed kind fault)) :=
  .error (.malformed kind rfl)

theorem PartAlike.ofOption {node node' : Node} (h : node.Alike node') :
    PartAlike (.ofOption (some node)) (.ofOption (some node')) :=
  .node h

/-- A required node: missing in both records, or read alike. -/
theorem Record.readForm_node_alike (hkind : r.kind = r'.kind)
    (hnull : r.get name = .null ↔ r'.get name = .null)
    (hload : Loaded.Alike Node.Alike (load (r.get name)) (load' (r'.get name))) :
    Loaded.Alike PartAlike (r.readForm load name .node) (r'.readForm load' name .node) := by
  rw [readForm, readForm]
  by_cases h : r.get name = .null
  · rw [node_of_null h, node_of_null (hnull.1 h), malformed, malformed, hkind]
    exact Loaded.alike_malformed _ _
  · rw [node_of_ne_null h, node_of_ne_null (mt hnull.2 h)]
    exact hload.map fun _ _ => .node

/-- An optional node: absent in both records, or read alike. -/
theorem Record.readForm_optional_alike (hnull : r.get name = .null ↔ r'.get name = .null)
    (hload : Loaded.Alike Node.Alike (load (r.get name)) (load' (r'.get name))) :
    Loaded.Alike PartAlike (r.readForm load name .optional) (r'.readForm load' name .optional) := by
  rw [readForm, readForm]
  by_cases h : r.get name = .null
  · rw [node?_of_null h, node?_of_null (hnull.1 h)]
    exact .ok .absent
  · rw [node?_of_ne_null h, node?_of_ne_null (mt hnull.2 h), Loaded.map_map, Loaded.map_map]
    exact hload.map fun _ _ => .ofOption

/-- A list: all items are read alike, one after another. -/
theorem Record.readForm_list_alike {item : ListItem} {items items' : List Json}
    (hget : r.get name = .array items) (hget' : r'.get name = .array items')
    (hitems : Loaded.Alike PartsAlike (items.mapM (item.read load))
      (items'.mapM (item.read load'))) :
    Loaded.Alike PartAlike (r.readForm load name (.list item))
      (r'.readForm load' name (.list item)) := by
  rw [readForm, readForm, list, list, hget, hget']
  exact hitems.map fun _ _ => .list

/-- What is no array is the same fault in both records, whatever it is instead. -/
theorem Record.readForm_noArray_alike {item : ListItem} (hkind : r.kind = r'.kind)
    (hget : ∀ items, r.get name ≠ .array items) (hget' : ∀ items, r'.get name ≠ .array items) :
    Loaded.Alike PartAlike (r.readForm load name (.list item))
      (r'.readForm load' name (.list item)) := by
  rw [readForm, readForm, list_of_not_array hget, list_of_not_array hget', malformed, malformed,
    hkind]
  exact Loaded.alike_malformed _ _

/-- A leaf is read without reading nodes. -/
theorem Record.readForm_leaf_alike {leaf : Leaf} (hkind : r.kind = r'.kind)
    (hleaf : SameLeaf leaf (r.get name) (r'.get name)) :
    Loaded.Alike PartAlike (r.readForm load name (.leaf leaf))
      (r'.readForm load' name (.leaf leaf)) := by
  have hread := Leaf.read_alike hleaf name
  rw [readForm, readForm]
  generalize leaf.read name (r.get name) = x at hread ⊢
  generalize leaf.read name (r'.get name) = x' at hread ⊢
  cases hread with
  | ok hvalue => exact .ok (.leaf hvalue)
  | error hmessage =>
    show Loaded.Alike PartAlike (.error (.malformed r.kind _)) (.error (.malformed r'.kind _))
    rw [hkind]
    exact .error (.malformed _ hmessage)

/-- One part and then the others. -/
theorem Loaded.Alike.cons {x x' : Loaded Part} {y y' : Loaded (List Part)}
    (hx : Loaded.Alike PartAlike x x') (hy : Loaded.Alike PartsAlike y y') :
    Loaded.Alike PartsAlike (x >>= fun part => y >>= fun parts => .ok (part :: parts))
      (x' >>= fun part => y' >>= fun parts => .ok (part :: parts)) :=
  hx.bind fun _ _ hpart => hy.bind fun _ _ hparts => .ok (.cons hpart hparts)

/-- An element of an array literal: a hole in both, or read alike. -/
theorem ListItem.read_element_alike {json json' : Json} (hnull : json = .null ↔ json' = .null)
    (hload : Loaded.Alike Node.Alike (load json) (load' json')) :
    Loaded.Alike PartAlike (ListItem.element.read load json)
      (ListItem.element.read load' json') := by
  by_cases h : json = .null
  · rw [h, hnull.1 h]
    exact .ok .absent
  · rw [read, read, loadElement_of_ne_null h, loadElement_of_ne_null (mt hnull.2 h),
      Loaded.map_map, Loaded.map_map]
    exact hload.map fun _ _ => .ofOption

/-- An element of a template is a record of its own. -/
theorem ListItem.read_template_alike {json json' : Json} (h : SameTemplate json json') :
    Loaded.Alike PartAlike (ListItem.template.read load json)
      (ListItem.template.read load' json') := by
  have hdecode := decodeTemplateElement_alike h
  rw [read, read, loadTemplateElement, loadTemplateElement]
  generalize decodeTemplateElement json = x at hdecode ⊢
  generalize decodeTemplateElement json' = x' at hdecode ⊢
  cases hdecode with
  | ok heq =>
    rw [← heq]
    exact .ok (.template _)
  | error hmessage => exact .error (.malformed _ hmessage)

/-- An entry that is no record is the same fault in both. -/
theorem ListItem.read_noEntry_alike {entry : Entry} {json json' : Json}
    (hjson : ∀ fields, json ≠ .object fields) (hjson' : ∀ fields, json' ≠ .object fields) :
    Loaded.Alike PartAlike (ListItem.read load (.entry entry) json)
      (ListItem.read load' (.entry entry) json') := by
  rw [read_entry, read_entry, Record.ofJson_of_not_object hjson,
    Record.ofJson_of_not_object hjson']
  exact Loaded.alike_malformed _ _

/-- The parts that are read for a known kind tell the nodes apart. -/
theorem NodeKind.ofRecord_alike {listed : List (String × Form)} (hkind : r.kind = r'.kind)
    (hlisted : fieldsOf r.kind = some listed) (hspan : r.span = r'.span)
    (hfields : Loaded.Alike PartsAlike (r.readFields load listed) (r'.readFields load' listed)) :
    Loaded.Alike Node.Alike ((ofRecord load r).map (.mk r.span))
      ((ofRecord load' r').map (.mk r'.span)) := by
  -- The kinds have one name, and by the table their parts are what the fields are read as.
  have hname : (ofRecord load r).map name = (ofRecord load r).map fun _ => r.kind :=
    map_name_ofRecord
  have hname' : (ofRecord load' r').map name = (ofRecord load' r').map fun _ => r'.kind :=
    map_name_ofRecord
  rw [← map_parts_ofRecord hlisted, ← map_parts_ofRecord (hkind ▸ hlisted)] at hfields
  rw [← hspan]
  cases hread : ofRecord load r with
  | ok kind =>
    cases hread' : ofRecord load' r' with
    | ok kind' =>
      rw [hread] at hname hfields
      rw [hread'] at hname' hfields
      have heq : kind.name = kind'.name := by
        rw [Except.ok.inj hname, Except.ok.inj hname', hkind]
      cases hfields with
      | ok hparts => exact .ok (.mk _ heq hparts)
    | error e =>
      rw [hread, hread'] at hfields
      cases hfields
  | error e =>
    cases hread' : ofRecord load' r' with
    | ok kind' =>
      rw [hread, hread'] at hfields
      cases hfields
    | error e' =>
      rw [hread, hread'] at hfields
      cases hfields with
      | error h => exact .error h

theorem Node.ofJsonUpTo_of_not_object {json : Json} (hjson : ∀ fields, json ≠ .object fields)
    (depth : Nat) :
    ofJsonUpTo depth json = .error (.malformed untypedKind .notAnObject) := by
  cases depth with
  | zero => rfl
  | succ depth =>
    rw [ofJsonUpTo, ofObject, Record.ofJson_of_not_object hjson]
    rfl

theorem Node.ofObject_of_typed {fields : List (String × Json)} {kind : String}
    (htype : Json.field fields "type" = .string kind) :
    ofObject load (.object fields) =
      (NodeKind.ofRecord load ⟨kind, Span.ofFields fields, fields⟩).map
        (.mk (Span.ofFields fields)) := by
  rw [ofObject, Record.ofJson_of_typed htype]
  show NodeKind.ofRecord load ⟨kind, Span.ofFields fields, fields⟩ >>= _ = _
  cases NodeKind.ofRecord load ⟨kind, Span.ofFields fields, fields⟩ <;> rfl

end Steps

/-! ## Whole trees -/

mutual

/-- By recursion on how the two values are the same. The depths only have to be large enough, and
each for its own value. -/
theorem SameNode.alike : ∀ {json json' : Json}, SameNode json json' → ∀ {d d' : Nat},
    json.depth ≤ d → json'.depth ≤ d' →
      Loaded.Alike Node.Alike (Node.ofJsonUpTo d json) (Node.ofJsonUpTo d' json')
  | _, _, .noObject hjson hjson', _, _, _, _ => by
    rw [Node.ofJsonUpTo_of_not_object hjson, Node.ofJsonUpTo_of_not_object hjson']
    exact Loaded.alike_malformed _ _
  | _, _, .untyped htype htype', d + 1, d' + 1, _, _ => by
    rw [Node.ofJsonUpTo, Node.ofJsonUpTo, Node.ofObject, Node.ofObject,
      Record.ofJson_of_untyped htype, Record.ofJson_of_untyped htype']
    exact Loaded.alike_malformed _ _
  | _, _, .unlisted htype htype' hkind hspan, d + 1, d' + 1, _, _ => by
    rw [Node.ofJsonUpTo, Node.ofJsonUpTo, Node.ofObject_of_typed htype,
      Node.ofObject_of_typed htype', NodeKind.ofRecord_of_unlisted hkind,
      NodeKind.ofRecord_of_unlisted hkind, hspan]
    exact .ok (.mk _ rfl .nil)
  | _, _, .listed htype htype' hkind hspan hfields, d + 1, d' + 1, hd, hd' => by
    rw [Node.ofJsonUpTo, Node.ofJsonUpTo, Node.ofObject_of_typed htype,
      Node.ofObject_of_typed htype']
    exact NodeKind.ofRecord_alike rfl hkind hspan
      (hfields.alike rfl rfl rfl (Nat.le_of_succ_le_succ hd) (Nat.le_of_succ_le_succ hd'))

/-- The fields of a record are read in the order of the table, not in that of the record. -/
theorem SameFields.alike : ∀ {listed : List (String × Form)}
    {fields fields' : List (String × Json)}, SameFields listed fields fields' →
    ∀ {r r' : Record} {d d' : Nat}, r.kind = r'.kind → r.fields = fields → r'.fields = fields' →
      Json.fieldsDepth fields ≤ d → Json.fieldsDepth fields' ≤ d' →
        Loaded.Alike PartsAlike (r.readFields (Node.ofJsonUpTo d) listed)
          (r'.readFields (Node.ofJsonUpTo d') listed)
  | _, _, _, .nil _ _, _, _, _, _, _, _, _, _, _ => .ok .nil
  | _, _, _, .cons hfield hrest, _, _, _, _, hkind, hr, hr', hd, hd' =>
    .cons
      (hfield.alike hkind (by rw [Record.get, hr]) (by rw [Record.get, hr'])
        (Nat.le_trans (Json.depth_field_le _ _) hd) (Nat.le_trans (Json.depth_field_le _ _) hd'))
      (hrest.alike hkind hr hr' hd hd')

/-- One case for each way in which a field may be filled. -/
theorem SameForm.alike : ∀ {form : Form} {json json' : Json}, SameForm form json json' →
    ∀ {r r' : Record} {name : String} {d d' : Nat}, r.kind = r'.kind → r.get name = json →
      r'.get name = json' → json.depth ≤ d → json'.depth ≤ d' →
        Loaded.Alike PartAlike (r.readForm (Node.ofJsonUpTo d) name form)
          (r'.readForm (Node.ofJsonUpTo d') name form)
  | _, _, _, .node hnull hnode, _, _, _, _, _, hkind, hr, hr', hd, hd' =>
    Record.readForm_node_alike hkind (by rw [hr, hr', hnull])
      (by rw [hr, hr']; exact hnode.alike hd hd')
  | _, _, _, .optional hnull hnode, _, _, _, _, _, _, hr, hr', hd, hd' =>
    Record.readForm_optional_alike (by rw [hr, hr', hnull])
      (by rw [hr, hr']; exact hnode.alike hd hd')
  | _, _, _, .noArray hjson hjson', _, _, _, _, _, hkind, hr, hr', _, _ =>
    Record.readForm_noArray_alike hkind (hr ▸ hjson) (hr' ▸ hjson')
  | _, _, _, .list hitems, _, _, _, _, _, _, hr, hr', hd, hd' =>
    Record.readForm_list_alike hr hr'
      (hitems.alike (Nat.le_of_succ_le hd) (Nat.le_of_succ_le hd'))
  | _, _, _, .leaf hleaf, _, _, _, _, _, hkind, hr, hr', _, _ =>
    Record.readForm_leaf_alike hkind (by rw [hr, hr']; exact hleaf)

/-- The items of two lists are read one after another, up to the same fault if there is one. -/
theorem SameItems.alike : ∀ {item : ListItem} {items items' : List Json},
    SameItems item items items' → ∀ {d d' : Nat}, Json.itemsDepth items ≤ d →
      Json.itemsDepth items' ≤ d' →
        Loaded.Alike PartsAlike (items.mapM (item.read (Node.ofJsonUpTo d)))
          (items'.mapM (item.read (Node.ofJsonUpTo d')))
  | _, _, _, .nil _, _, _, _, _ => .ok .nil
  | _, _, _, .cons hitem hrest, _, _, hd, hd' => by
    rw [Json.itemsDepth, Nat.max_le] at hd hd'
    rw [List.mapM_cons, List.mapM_cons]
    exact .cons (hitem.alike hd.1 hd'.1) (hrest.alike hd.2 hd'.2)

/-- An item of a list is read alike: a node, a hole, an entry or an element of a template. -/
theorem SameItem.alike : ∀ {item : ListItem} {json json' : Json}, SameItem item json json' →
    ∀ {d d' : Nat}, json.depth ≤ d → json'.depth ≤ d' →
      Loaded.Alike PartAlike (item.read (Node.ofJsonUpTo d) json)
        (item.read (Node.ofJsonUpTo d') json')
  | _, _, _, .node hnode, _, _, hd, hd' => (hnode.alike hd hd').map fun _ _ => .node
  | _, _, _, .element hnull hnode, _, _, hd, hd' =>
    ListItem.read_element_alike hnull (hnode.alike hd hd')
  | _, _, _, .noEntry hjson hjson', _, _, _, _ => ListItem.read_noEntry_alike hjson hjson'
  | _, _, _, .entry hkind hfields, _, _, hd, hd' => by
    rw [ListItem.read_entry, ListItem.read_entry, Record.ofJson_entry, Record.ofJson_entry]
    exact (hfields.alike hkind rfl rfl (Nat.le_of_succ_le hd) (Nat.le_of_succ_le hd')).map
      fun _ _ => .list
  | _, _, _, .template htemplate, _, _, _, _ => ListItem.read_template_alike htemplate

end

/-- Values that are the same to the reader are read alike. -/
theorem Node.ofJson_alike {json json' : Json} (h : SameNode json json') :
    Loaded.Alike Node.Alike (ofJson json) (ofJson json') :=
  h.alike (Nat.le_refl _) (Nat.le_refl _)

end HostScript
