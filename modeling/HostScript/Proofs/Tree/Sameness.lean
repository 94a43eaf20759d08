import HostScript.Proofs.Tree.Reading
import Mathlib.Data.List.Forall2

/-!
# Values that are the same to the reader

Two values are the same to the reader (`SameNode`) if they agree on the type, the offsets and the
listed fields of each node, an absent field counting as `null`; all other fields may differ, and
the keys may come in any order.

* `SameNode.of_alike`: values that differ in the order of keys only.
* `SameNode.of_fields`: records that differ in unlisted fields only.
-/

namespace HostScript

/-! ## Values up to the order of keys -/

/-- The same value but for the order of keys. -/
inductive Json.Alike : Json → Json → Prop where
  | null : Alike .null .null
  | bool (b : Bool) : Alike (.bool b) (.bool b)
  | number (n : JsonNumber) : Alike (.number n) (.number n)
  | string (s : String) : Alike (.string s) (.string s)
  | array {items items' : List Json} (hitems : List.Forall₂ Alike items items') :
      Alike (.array items) (.array items')
  | object {fields fields' : List (String × Json)} (hlength : fields.length = fields'.length)
      (hfields : ∀ name, Option.Rel Alike (fields.lookup name) (fields'.lookup name)) :
      Alike (.object fields) (.object fields')

/-! ## The same records -/

/-- The same to a reader of names. -/
inductive SameIdentifier : Json → Json → Prop where
  | alike {json json' : Json} (hjson : json.Alike json') : SameIdentifier json json'
  | object {fields fields' : List (String × Json)}
      (hname : Option.Rel Json.Alike (fields.lookup "name") (fields'.lookup "name")) :
      SameIdentifier (.object fields) (.object fields')

/-- The same to a reader of the texts of a template element. -/
inductive SameText : Json → Json → Prop where
  | alike {json json' : Json} (hjson : json.Alike json') : SameText json json'
  | object {fields fields' : List (String × Json)}
      (hraw : Option.Rel Json.Alike (fields.lookup "raw") (fields'.lookup "raw"))
      (hcooked : Option.Rel Json.Alike (fields.lookup "cooked") (fields'.lookup "cooked")) :
      SameText (.object fields) (.object fields')

/-- The same to a reader of template elements. -/
inductive SameTemplate : Json → Json → Prop where
  | alike {json json' : Json} (hjson : json.Alike json') : SameTemplate json json'
  | object {fields fields' : List (String × Json)}
      (hvalue : Option.Rel SameText (fields.lookup "value") (fields'.lookup "value"))
      (htail : Option.Rel Json.Alike (fields.lookup "tail") (fields'.lookup "tail")) :
      SameTemplate (.object fields) (.object fields')

/-- The same to a reader of leaves. -/
inductive SameLeaf : Leaf → Json → Json → Prop where
  | alike (leaf : Leaf) {json json' : Json} (hjson : json.Alike json') : SameLeaf leaf json json'
  | identifier {json json' : Json} (hjson : SameIdentifier json json') :
      SameLeaf .functionName json json'

mutual

/-- The same to a reader of nodes. -/
inductive SameNode : Json → Json → Prop where
  | noObject {json json' : Json} (hjson : ∀ fields, json ≠ .object fields)
      (hjson' : ∀ fields, json' ≠ .object fields) : SameNode json json'
  | untyped {fields fields' : List (String × Json)}
      (htype : ∀ kind, Json.field fields "type" ≠ .string kind)
      (htype' : ∀ kind, Json.field fields' "type" ≠ .string kind) :
      SameNode (.object fields) (.object fields')
  | unlisted {fields fields' : List (String × Json)} {kind : String}
      (htype : Json.field fields "type" = .string kind)
      (htype' : Json.field fields' "type" = .string kind) (hkind : fieldsOf kind = none)
      (hspan : Span.ofFields fields = Span.ofFields fields') :
      SameNode (.object fields) (.object fields')
  | listed {fields fields' : List (String × Json)} {kind : String}
      {listed : List (String × Form)} (htype : Json.field fields "type" = .string kind)
      (htype' : Json.field fields' "type" = .string kind) (hkind : fieldsOf kind = some listed)
      (hspan : Span.ofFields fields = Span.ofFields fields')
      (hfields : SameFields listed fields fields') : SameNode (.object fields) (.object fields')

inductive SameFields : List (String × Form) → List (String × Json) → List (String × Json) → Prop
  where
  | nil (fields fields' : List (String × Json)) : SameFields [] fields fields'
  | cons {name : String} {form : Form} {rest : List (String × Form)}
      {fields fields' : List (String × Json)}
      (hfield : SameForm form (Json.field fields name) (Json.field fields' name))
      (hrest : SameFields rest fields fields') : SameFields ((name, form) :: rest) fields fields'

inductive SameForm : Form → Json → Json → Prop where
  | node {json json' : Json} (hnull : json = .null ↔ json' = .null)
      (hnode : SameNode json json') : SameForm .node json json'
  | optional {json json' : Json} (hnull : json = .null ↔ json' = .null)
      (hnode : SameNode json json') : SameForm .optional json json'
  | noArray {item : ListItem} {json json' : Json} (hjson : ∀ items, json ≠ .array items)
      (hjson' : ∀ items, json' ≠ .array items) : SameForm (.list item) json json'
  | list {item : ListItem} {items items' : List Json} (hitems : SameItems item items items') :
      SameForm (.list item) (.array items) (.array items')
  | leaf {leaf : Leaf} {json json' : Json} (hleaf : SameLeaf leaf json json') :
      SameForm (.leaf leaf) json json'

inductive SameItems : ListItem → List Json → List Json → Prop where
  | nil (item : ListItem) : SameItems item [] []
  | cons {item : ListItem} {json json' : Json} {rest rest' : List Json}
      (hitem : SameItem item json json') (hrest : SameItems item rest rest') :
      SameItems item (json :: rest) (json' :: rest')

inductive SameItem : ListItem → Json → Json → Prop where
  | node {json json' : Json} (hnode : SameNode json json') : SameItem .node json json'
  | element {json json' : Json} (hnull : json = .null ↔ json' = .null)
      (hnode : SameNode json json') : SameItem .element json json'
  | noEntry {entry : Entry} {json json' : Json} (hjson : ∀ fields, json ≠ .object fields)
      (hjson' : ∀ fields, json' ≠ .object fields) : SameItem (.entry entry) json json'
  | entry {entry : Entry} {fields fields' : List (String × Json)}
      (hkind : entry.kindOf fields = entry.kindOf fields')
      (hfields : SameFields entry.fields fields fields') :
      SameItem (.entry entry) (.object fields) (.object fields')
  | template {json json' : Json} (htemplate : SameTemplate json json') :
      SameItem .template json json'

end

/-! ## Which values are the same -/

namespace Json

/-- The kind of a value does not depend on the order of its keys. -/
theorem Alike.found_eq {json json' : Json} (h : json.Alike json') : json.found = json'.found := by
  cases h with
  | array => rw [found, found]
  | object => rw [found, found]
  | _ => rfl

theorem Alike.null_iff {json json' : Json} (h : json.Alike json') :
    json = .null ↔ json' = .null := by
  cases h <;> simp

theorem depth_le_of_lookup {fields : List (String × Json)} {name : String} {json : Json}
    (h : fields.lookup name = some json) : json.depth ≤ fieldsDepth fields := by
  have := depth_field_le fields name
  rwa [field, h] at this

/-- Every value is like itself. By induction on its depth. -/
theorem Alike.of_depth (n : Nat) : ∀ json : Json, json.depth ≤ n → json.Alike json := by
  induction n with
  | zero =>
    intro json hdepth
    cases json with
    | null => exact .null
    | bool b => exact .bool b
    | number n => exact .number n
    | string s => exact .string s
    | array items => rw [depth] at hdepth; omega
    | object fields => rw [depth] at hdepth; omega
  | succ n ih =>
    intro json hdepth
    cases json with
    | null => exact .null
    | bool b => exact .bool b
    | number n => exact .number n
    | string s => exact .string s
    | array items =>
      rw [depth] at hdepth
      refine .array (List.forall₂_same.2 fun item hitem => ih item ?_)
      have := depth_le_of_mem hitem
      omega
    | object fields =>
      rw [depth] at hdepth
      refine .object rfl fun name => ?_
      -- What a field holds is less deep than the record.
      cases hlookup : fields.lookup name with
      | none => exact .none
      | some json =>
        have := depth_le_of_lookup hlookup
        exact .some (ih json (by omega))

theorem Alike.refl (json : Json) : json.Alike json := Alike.of_depth _ json (Nat.le_refl _)

/-- Where keys are distinct their order does not matter. -/
theorem lookup_eq_of_perm {fields fields' : List (String × Json)}
    (distinct : (fields.map Prod.fst).Nodup) (hperm : fields.Perm fields') (name : String) :
    fields.lookup name = fields'.lookup name := by
  induction hperm with
  | nil => rfl
  | cons entry _ ih =>
    obtain ⟨key, json⟩ := entry
    rw [List.lookup_cons, List.lookup_cons, ih (List.nodup_cons.1 distinct).2]
  | swap first second rest =>
    obtain ⟨key, json⟩ := first
    obtain ⟨key', json'⟩ := second
    -- Two keys that change places are not the same one, so it does not matter which comes first.
    have hne : key' ≠ key := by
      rintro rfl
      simp at distinct
    rw [List.lookup_cons, List.lookup_cons, List.lookup_cons, List.lookup_cons]
    by_cases h : name = key
    · rw [h, beq_eq_false_iff_ne.2 hne.symm]
    · rw [beq_eq_false_iff_ne.2 h]
  | trans hfirst _ ih ih' => exact (ih distinct).trans (ih' ((hfirst.map _).nodup_iff.1 distinct))

/-- A record with distinct keys may have them in any order. -/
theorem Alike.of_perm {fields fields' : List (String × Json)}
    (distinct : (fields.map Prod.fst).Nodup) (hperm : fields.Perm fields') :
    Alike (.object fields) (.object fields') := by
  refine .object hperm.length_eq fun name => ?_
  rw [← lookup_eq_of_perm distinct hperm name]
  cases fields.lookup name with
  | none => exact .none
  | some json => exact .some (.refl json)

/-- Records that are alike have fields that are alike, absent ones included. -/
theorem Alike.field {fields fields' : List (String × Json)}
    (h : Alike (.object fields) (.object fields')) (name : String) :
    (field fields name).Alike (field fields' name) := by
  cases h with
  | object _ hfields =>
    have hname := hfields name
    rw [Json.field, Json.field]
    generalize fields.lookup name = x at hname ⊢
    generalize fields'.lookup name = x' at hname ⊢
    cases hname with
    | none => exact .null
    | some hjson => exact hjson

end Json

section Same

variable {bound : Nat} {fields fields' : List (String × Json)}

theorem Json.Alike.string_iff {json json' : Json} (h : json.Alike json') (s : String) :
    json = .string s ↔ json' = .string s := by
  cases h <;> simp

theorem Json.Alike.natural?_eq {json json' : Json} (h : json.Alike json') :
    json.natural? = json'.natural? := by
  cases h <;> rfl

theorem Json.Alike.ofFields_eq (h : (Json.object fields).Alike (.object fields')) :
    Span.ofFields fields = Span.ofFields fields' := by
  rw [Span.ofFields, Span.ofFields, (h.field "start").natural?_eq, (h.field "end").natural?_eq]

/-- Items that are alike one by one are the same. -/
theorem SameItems.of_alike {item : ListItem}
    (hitem : ∀ json json' : Json, json.depth < bound → json.Alike json' →
      SameItem item json json') {items items' : List Json} (hdepth : Json.itemsDepth items < bound)
    (h : List.Forall₂ Json.Alike items items') : SameItems item items items' := by
  induction h with
  | nil => exact .nil item
  | cons hjson _ ih =>
    rw [Json.itemsDepth] at hdepth
    exact .cons (hitem _ _ (by omega) hjson) (ih (by omega))

/-- Records are the same if their listed fields are. -/
theorem SameFields.of_forms {listed : List (String × Form)}
    (hfields : ∀ name form, (name, form) ∈ listed →
      SameForm form (Json.field fields name) (Json.field fields' name)) :
    SameFields listed fields fields' := by
  induction listed with
  | nil => exact .nil _ _
  | cons field rest ih =>
    obtain ⟨name, form⟩ := field
    exact .cons (hfields name form (by simp)) (ih fun n f h => hfields n f (by simp [h]))

variable (hnode : ∀ json json' : Json, json.depth < bound → json.Alike json' →
  SameNode json json')
include hnode

/-- A field that is alike is the same in each form. -/
theorem SameForm.of_alike {form : Form}
    (hitem : ∀ item, form = .list item → ∀ json json' : Json, json.depth < bound →
      json.Alike json' → SameItem item json json') {json json' : Json}
    (hdepth : json.depth < bound) (h : json.Alike json') : SameForm form json json' := by
  cases form with
  | node => exact .node h.null_iff (hnode _ _ hdepth h)
  | optional => exact .optional h.null_iff (hnode _ _ hdepth h)
  | leaf leaf => exact .leaf (.alike leaf h)
  | list item =>
    cases h with
    | array hitems =>
      rw [Json.depth] at hdepth
      exact .list (.of_alike (hitem item rfl) (by omega) hitems)
    | _ => exact .noArray (fun _ h => by cases h) fun _ h => by cases h

/-- An item that is alike is the same, of each kind. In entries, the fields are looked up by
name. -/
theorem SameItem.of_alike (item : ListItem) (json json' : Json) (hdepth : json.depth < bound)
    (h : json.Alike json') : SameItem item json json' := by
  cases item with
  | node => exact .node (hnode _ _ hdepth h)
  | element => exact .element h.null_iff (hnode _ _ hdepth h)
  | template => exact .template (.alike h)
  | entry entry =>
    cases h with
    | object hlength hfields =>
      rename_i fields fields'
      rw [Json.depth] at hdepth
      have halike := Json.Alike.object hlength hfields
      have hkind : entry.kindOf fields = entry.kindOf fields' := by
        have htype := halike.field "type"
        rw [Entry.kindOf, Entry.kindOf]
        generalize Json.field fields "type" = x at htype ⊢
        generalize Json.field fields' "type" = x' at htype ⊢
        cases htype <;> rfl
      refine .entry hkind (.of_forms fun name form hmem => ?_)
      refine SameForm.of_alike hnode ?_ ?_ (halike.field name)
      -- The items of an entry are nodes, to which the assumption on nodes applies.
      · rintro item rfl json json' hdepth h
        have hitem : item = .node := by cases entry <;> simp_all [Entry.fields]
        rw [hitem]
        exact .node (hnode _ _ hdepth h)
      · have := Json.depth_field_le fields name
        omega
    | _ => exact .noEntry (fun _ h => by cases h) fun _ h => by cases h

end Same

/-- By induction on the depth: a record is the same as one with its keys in another order. -/
theorem SameNode.of_alike_of_depth (n : Nat) : ∀ json json' : Json, json.depth < n →
    json.Alike json' → SameNode json json' := by
  induction n with
  | zero => exact fun _ _ h => absurd h (Nat.not_lt_zero _)
  | succ n ih =>
    intro json json' hdepth h
    cases h with
    | object hlength hfields =>
      rename_i fields fields'
      rw [Json.depth] at hdepth
      have halike := Json.Alike.object hlength hfields
      have htype := halike.field "type"
      by_cases htyped : ∃ kind, Json.field fields "type" = .string kind
      · obtain ⟨kind, hkind⟩ := htyped
        have hkind' := (htype.string_iff kind).1 hkind
        cases hlisted : fieldsOf kind with
        | none => exact .unlisted hkind hkind' hlisted halike.ofFields_eq
        | some listed =>
          refine .listed hkind hkind' hlisted halike.ofFields_eq (.of_forms fun name form _ => ?_)
          have := Json.depth_field_le fields name
          exact .of_alike ih (fun item _ => .of_alike ih item) (by omega) (halike.field name)
      · refine .untyped (fun kind h => htyped ⟨kind, h⟩) fun kind h => htyped ⟨kind, ?_⟩
        exact (htype.string_iff kind).2 h
    | _ => exact .noObject (fun _ h => by cases h) fun _ h => by cases h

/-- The order of keys does not matter, at any depth. -/
theorem SameNode.of_alike {json json' : Json} (h : json.Alike json') : SameNode json json' :=
  of_alike_of_depth _ _ _ (Nat.lt_succ_self _) h

/-- Nor does what else a record has besides its type, its offsets and its listed fields. -/
theorem SameNode.of_fields {fields fields' : List (String × Json)} {kind : String}
    (htype : Json.field fields "type" = .string kind)
    (htype' : Json.field fields' "type" = .string kind)
    (hspan : Span.ofFields fields = Span.ofFields fields')
    (hfields : ∀ listed, fieldsOf kind = some listed → ∀ name form, (name, form) ∈ listed →
      Json.field fields name = Json.field fields' name) :
    SameNode (.object fields) (.object fields') := by
  cases hlisted : fieldsOf kind with
  | none => exact .unlisted htype htype' hlisted hspan
  | some listed =>
    refine .listed htype htype' hlisted hspan (.of_forms fun name form hmem => ?_)
    rw [hfields listed hlisted name form hmem]
    exact .of_alike (fun _ _ _ => SameNode.of_alike)
      (fun item _ => .of_alike (fun _ _ _ => SameNode.of_alike) item) (Nat.lt_succ_self _)
      (.refl _)

end HostScript
