import HostScript.Proofs.Tree.Format

/-!
# Reading by the table of fields

The reader goes through its kinds one by one. Here it is told as one reader for all of them, which
follows the table of fields: what the reader of a kind yields has the parts that reading the fields
of the table yields (`NodeKind.map_parts_ofRecord`), and the name of its kind
(`NodeKind.map_name_ofRecord`).
-/

namespace HostScript

/-! ## Plumbing -/

section Plumbing

variable {α β γ : Type}

theorem Loaded.map_bind (x : Loaded α) (g : α → Loaded β) (f : β → γ) :
    (x >>= g).map f = x >>= fun a => (g a).map f := by
  cases x <;> rfl

theorem Loaded.bind_map (x : Loaded α) (f : α → β) (g : β → Loaded γ) :
    x.map f >>= g = x >>= fun a => g (f a) := by
  cases x <;> rfl

theorem Loaded.bind_assoc (x : Loaded α) (f : α → Loaded β) (g : β → Loaded γ) :
    x >>= f >>= g = x >>= fun a => f a >>= g := by
  cases x <;> rfl

theorem Loaded.map_map (x : Loaded α) (f : α → β) (g : β → γ) :
    (x.map f).map g = x.map (g ∘ f) := by
  cases x <;> rfl

theorem Loaded.pure_bind (a : α) (g : α → Loaded γ) : (pure a : Loaded α) >>= g = g a := rfl

/-- Results may be changed one by one or all at the end. -/
theorem Loaded.map_mapM (item : Json → Loaded α) (f : α → β) (items : List Json) :
    items.mapM (fun json => (item json).map f) = (items.mapM item).map (List.map f) := by
  induction items with
  | nil => rfl
  | cons json rest ih =>
    rw [List.mapM_cons, List.mapM_cons, ih]
    cases item json with
    | error e => rfl
    | ok a => cases List.mapM item rest <;> rfl

end Plumbing

/-! ## Reading by the table -/

/-- Read an item of a list. -/
def ListItem.read (load : NodeLoader) : ListItem → Json → Loaded Part
  | .node, json => (load json).map .node
  | .element, json => (loadElement load json).map .ofOption
  | .entry .declarator, json => (loadDeclarator load json).map .ofDeclarator
  | .entry .clause, json => (loadCase load json).map .ofClause
  | .template, json => (loadTemplateElement json).map .template

namespace Record

variable (r : Record) (load : NodeLoader) (name : String)

/-- Read a field of a form. -/
def readForm : Form → Loaded Part
  | .node => (r.node load name).map .node
  | .optional => (r.node? load name).map .ofOption
  | .list item => (r.list name (item.read load)).map .list
  | .leaf leaf =>
    match leaf.read name (r.get name) with
    | .ok value => .ok (.leaf value)
    | .error fault => r.malformed fault

/-- Read the listed fields one after another. -/
def readFields :
    List (String × Form) → Loaded (List Part)
  | [] => return []
  | (name, form) :: rest => do
    let part ← r.readForm load name form
    let parts ← readFields rest
    return part :: parts

theorem list_map {α β : Type} (item : Json → Loaded α) (f : α → β) :
    r.list name (fun json => (item json).map f) = (r.list name item).map (List.map f) := by
  unfold list
  split
  · exact Loaded.map_mapM item f _
  · rfl

theorem readForm_node : r.readForm load name .node = (r.node load name).map .node := rfl

theorem readForm_optional : r.readForm load name .optional = (r.node? load name).map .ofOption :=
  rfl

/-- Items are read by the reader for their kind, and then made parts. -/
theorem readForm_list {α : Type} {item : ListItem} {read : Json → Loaded α} {f : α → Part}
    (hread : item.read load = fun json => (read json).map f) :
    r.readForm load name (.list item) = (r.list name read).map fun as => .list (as.map f) := by
  rw [readForm, hread, list_map]
  cases r.list name read <;> rfl

theorem readForm_nodes : r.readForm load name (.list .node) = (r.nodes load name).map .nodes :=
  r.readForm_list load name rfl

theorem readForm_elements : r.readForm load name (.list .element) =
    (r.list name (loadElement load)).map fun elements => .list (elements.map .ofOption) :=
  r.readForm_list load name rfl

theorem readForm_declarators : r.readForm load name (.list (.entry .declarator)) =
    (r.list name (loadDeclarator load)).map fun ds => .list (ds.map .ofDeclarator) :=
  r.readForm_list load name rfl

theorem readForm_clauses : r.readForm load name (.list (.entry .clause)) =
    (r.list name (loadCase load)).map fun cases => .list (cases.map .ofClause) :=
  r.readForm_list load name rfl

theorem readForm_templates : r.readForm load name (.list .template) =
    (r.list name loadTemplateElement).map fun quasis => .list (quasis.map .template) :=
  r.readForm_list load name rfl

theorem readForm_string : r.readForm load name (.leaf .string) = (r.string name).map .string := by
  rw [readForm, string]
  cases r.get name <;> rfl

theorem readForm_flag : r.readForm load name (.leaf .flag) = (r.flag name).map .flag := by
  rw [readForm, flag]
  cases r.get name <;> rfl

theorem readForm_declarationKind : r.readForm load name (.leaf .declarationKind) =
    (r.decode name decodeDeclarationKind).map fun kind => .leaf (.declarationKind kind) := by
  rw [readForm, decode, Leaf.read]
  cases decodeDeclarationKind (r.get name) <;> rfl

theorem readForm_propertyKind : r.readForm load name (.leaf .propertyKind) =
    (r.decodeOr .init name decodePropertyKind).map fun kind => .leaf (.propertyKind kind) := by
  rw [readForm, decodeOr, decode]
  cases r.get name with
  | null => rfl
  | _ json =>
    simp only [Leaf.read]
    cases decodePropertyKind _ <;> rfl

theorem readForm_literal : r.readForm load name (.leaf .literal) =
    .ok (.leaf (.literal (.ofJson (r.get name)))) := rfl

theorem readForm_functionName : r.readForm load name (.leaf .functionName) =
    (r.decodeOr none name fun json => (decodeIdentifier json).map some).map fun name =>
      .leaf (.functionName name) := by
  rw [readForm, decodeOr, decode]
  cases r.get name with
  | null => rfl
  | _ json =>
    simp only [Leaf.read]
    cases decodeIdentifier _ <;> rfl

/-- The parts of a function are those of its listed fields. -/
theorem map_parts_function : (r.function load).map FunctionNode.parts =
    r.readFields load functionFields := by
  simp only [function, functionFields, readFields, readForm_functionName, readForm_nodes,
    readForm_node, readForm_flag, Loaded.map_bind, Loaded.bind_map, Loaded.bind_assoc,
    Loaded.pure_bind]
  rfl

end Record

namespace NodeKind

variable {r : Record} {load : NodeLoader}

/-- What is read of a known kind is what its table lists. -/
theorem map_parts_ofRecord {listed : List (String × Form)} (hkind : fieldsOf r.kind = some listed) :
    (ofRecord load r).map parts = r.readFields load listed := by
  unfold ofRecord
  split
  -- The last case is for kinds that are not in the table.
  case h_34 =>
    unfold fieldsOf at hkind
    split at hkind <;> contradiction
  all_goals
    rename_i heq
    rw [heq] at hkind
    obtain rfl := Option.some.inj hkind
    simp only [Record.readFields, operationFields, ← Record.map_parts_function,
      Record.readForm_node, Record.readForm_optional, Record.readForm_nodes,
      Record.readForm_elements, Record.readForm_declarators, Record.readForm_clauses,
      Record.readForm_templates, Record.readForm_string, Record.readForm_flag,
      Record.readForm_declarationKind, Record.readForm_propertyKind, Record.readForm_literal,
      Loaded.map_bind, Loaded.bind_map, Loaded.bind_assoc, Loaded.pure_bind]
    rfl

/-- A node has the name of the kind that it was read as. -/
theorem map_name_ofRecord :
    (ofRecord load r).map name = (ofRecord load r).map fun _ => r.kind := by
  unfold ofRecord
  split
  case h_34 => rfl
  all_goals
    rename_i heq
    rw [heq]
    first
    | rfl
    | simp only [Loaded.map_bind]; rfl

/-- A kind that the table does not list is kept by its name alone. -/
theorem ofRecord_of_unlisted (hkind : fieldsOf r.kind = none) :
    ofRecord load r = .ok (.unsupported r.kind) := by
  unfold ofRecord
  split
  case h_34 => rfl
  all_goals
    rename_i heq
    rw [heq] at hkind
    cases hkind

end NodeKind

end HostScript
