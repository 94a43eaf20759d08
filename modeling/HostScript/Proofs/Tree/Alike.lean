import HostScript.Proofs.Tree.Sameness

/-!
# Readings that end alike

Two readings end alike (`EndAlike`) if both have a result or both an error and the two are related.
Trees are related if they differ at most in the order of keys inside the payload of a literal
(`Node.Alike`), errors if they name one kind of record and have one message. Small records and
leaves that are the same to the reader are read alike (`Leaf.read_alike`).
-/

namespace HostScript

/-! ## Results up to the order of keys in payloads -/

/-- The same value of a literal, but for the order of keys in a payload. -/
inductive LeafValue.Alike : LeafValue → LeafValue → Prop where
  | same (value : LeafValue) : Alike value value
  | payload {json json' : Json} (hjson : json.Alike json') :
      Alike (.literal (.other json)) (.literal (.other json'))

mutual

/-- The same tree, but for the order of keys in payloads. -/
inductive Node.Alike : Node → Node → Prop where
  | mk (span : Option Span) {kind kind' : NodeKind} (hname : kind.name = kind'.name)
      (hparts : PartsAlike kind.parts kind'.parts) : Node.Alike (.mk span kind) (.mk span kind')

inductive PartsAlike : List Part → List Part → Prop where
  | nil : PartsAlike [] []
  | cons {part part' : Part} {rest rest' : List Part} (hpart : PartAlike part part')
      (hrest : PartsAlike rest rest') : PartsAlike (part :: rest) (part' :: rest')

inductive PartAlike : Part → Part → Prop where
  | node {node node' : Node} (hnode : node.Alike node') : PartAlike (.node node) (.node node')
  | absent : PartAlike .absent .absent
  | list {parts parts' : List Part} (hparts : PartsAlike parts parts') :
      PartAlike (.list parts) (.list parts')
  | leaf {value value' : LeafValue} (hvalue : value.Alike value') :
      PartAlike (.leaf value) (.leaf value')
  | template (element : TemplateElement) : PartAlike (.template element) (.template element)

end

/-- Two readings end with related values or with related errors. -/
inductive EndAlike {ε α : Type} (E : ε → ε → Prop) (R : α → α → Prop) :
    Except ε α → Except ε α → Prop where
  | ok {a b : α} (h : R a b) : EndAlike E R (.ok a) (.ok b)
  | error {e f : ε} (h : E e f) : EndAlike E R (.error e) (.error f)

/-- Two errors of one kind of record, with one message. -/
inductive TreeError.Alike : TreeError → TreeError → Prop where
  | malformed (kind : String) {fault fault' : NodeFault}
      (hmessage : fault.message = fault'.message) :
      Alike (.malformed kind fault) (.malformed kind fault')

/-- Two readings with alike results or alike errors. -/
abbrev Loaded.Alike {α : Type} (R : α → α → Prop) : Loaded α → Loaded α → Prop :=
  EndAlike TreeError.Alike R

/-- Two decodings with one result or with one message. -/
abbrev Decoded.Alike {α : Type} (R : α → α → Prop) : Decoded α → Decoded α → Prop :=
  EndAlike (fun fault fault' => fault.message = fault'.message) R

namespace EndAlike

variable {ε α β : Type} {E : ε → ε → Prop} {R : α → α → Prop} {S : β → β → Prop}

/-- Readings that end alike may go on as long as they do so from related results. -/
theorem bind {x x' : Except ε α} {f f' : α → Except ε β} (hx : EndAlike E R x x')
    (hf : ∀ a a', R a a' → EndAlike E S (f a) (f' a')) : EndAlike E S (x >>= f) (x' >>= f') := by
  cases hx with
  | ok h => exact hf _ _ h
  | error h => exact .error h

theorem map {x x' : Except ε α} {f f' : α → β} (hx : EndAlike E R x x')
    (hf : ∀ a a', R a a' → S (f a) (f' a')) : EndAlike E S (x.map f) (x'.map f') := by
  cases hx with
  | ok h => exact .ok (hf _ _ h)
  | error h => exact .error h

end EndAlike

/-! ## Small records are decoded alike -/

section Decoding

variable {α β : Type} {json json' : Json} {fields fields' : List (String × Json)} {name : String}

theorem Decoded.alike_self (x : Decoded α) : Decoded.Alike Eq x x := by
  cases x with
  | ok a => exact .ok rfl
  | error e => exact .error rfl

/-- Where the first results are equal, both go on in the same way. -/
theorem Decoded.Alike.bind_eq {x x' : Decoded α} {f f' : α → Decoded β}
    (hx : Decoded.Alike Eq x x') (hf : ∀ a, Decoded.Alike Eq (f a) (f' a)) :
    Decoded.Alike Eq (x >>= f) (x' >>= f') := by
  refine EndAlike.bind hx fun a a' h => ?_
  rw [← h]
  exact hf a

theorem message_unexpected (json : Json) (expected : String) :
    (DecodeFault.unexpected json expected).message =
      "invalid type: " ++ json.found ++ ", expected " ++ expected := rfl

/-- The message names the kind of value that was found, which is the same for both. -/
theorem unexpected_alike {R : α → α → Prop} (h : json.Alike json') (expected : String) :
    Decoded.Alike R (.error (.unexpected json expected))
      (.error (.unexpected json' expected)) := by
  refine .error ?_
  rw [message_unexpected, message_unexpected, h.found_eq]

theorem decodeString_alike (h : json.Alike json') :
    Decoded.Alike Eq (decodeString json) (decodeString json') := by
  cases h with
  | array hitems => exact unexpected_alike (.array hitems) _
  | object hlength hfields => exact unexpected_alike (.object hlength hfields) _
  | _ => exact Decoded.alike_self _

theorem decodeBool_alike (h : json.Alike json') :
    Decoded.Alike Eq (decodeBool json) (decodeBool json') := by
  cases h with
  | array hitems => exact unexpected_alike (.array hitems) _
  | object hlength hfields => exact unexpected_alike (.object hlength hfields) _
  | _ => exact Decoded.alike_self _

theorem decodeOptionalString_alike (h : json.Alike json') :
    Decoded.Alike Eq (decodeOptionalString json) (decodeOptionalString json') := by
  cases h with
  | array hitems => exact unexpected_alike (.array hitems) _
  | object hlength hfields => exact unexpected_alike (.object hlength hfields) _
  | _ => exact Decoded.alike_self _

/-- A value that is alike an object of one key is one. -/
theorem Json.Alike.singleton {value : Json} (h : (Json.object [(name, value)]).Alike json) :
    ∃ value', json = .object [(name, value')] ∧ value.Alike value' := by
  cases h with
  | object hlength hfields =>
    obtain ⟨⟨key, value'⟩, rfl⟩ := List.length_eq_one_iff.1 hlength.symm
    have hname := hfields name
    by_cases hkey : name = key
    · subst hkey
      simp only [List.lookup_cons_self] at hname
      cases hname with
      | some hvalue => exact ⟨value', rfl, hvalue⟩
    · have habsent : [(key, value')].lookup name = none := by
        rw [List.lookup_cons, beq_eq_false_iff_ne.2 hkey]
        rfl
      rw [List.lookup_cons_self, habsent] at hname
      cases hname

/-- Only a record with one key may stand for a keyword. -/
theorem decodeKeyword_of_many {keywords : List (String × α)} (h : fields.length ≠ 1) :
    decodeKeyword keywords (.object fields) = .error .notOneKey := by
  match fields with
  | [] => rfl
  | [_] => exact absurd rfl h
  | _ :: _ :: _ => rfl

/-- A keyword in the form of an object. -/
theorem decodeKeyword_singleton (keywords : List (String × α)) (value : Json) :
    decodeKeyword keywords (.object [(name, value)]) =
      decodeKeyword keywords (.string name) >>= fun a =>
        match value with
        | .null => .ok a
        | found => .error (.unexpected found "unit") := by
  unfold decodeKeyword
  dsimp only
  cases keywords.lookup name with
  | none => rfl
  | some a => cases value <;> rfl

/-- Keywords are read alike: from a string, or from the one key of a record. -/
theorem decodeKeyword_alike (keywords : List (String × α)) (h : json.Alike json') :
    Decoded.Alike Eq (decodeKeyword keywords json) (decodeKeyword keywords json') := by
  cases h with
  | array hitems => exact unexpected_alike (.array hitems) _
  | object hlength hfields =>
    rename_i fields fields'
    -- A record with one key has no other order of keys. Any other is no keyword.
    by_cases hone : fields.length = 1
    · obtain ⟨⟨name, value⟩, rfl⟩ := List.length_eq_one_iff.1 hone
      obtain ⟨value', hsame, hvalue⟩ := Json.Alike.singleton (.object hlength hfields)
      rw [hsame, decodeKeyword_singleton, decodeKeyword_singleton]
      refine (Decoded.alike_self _).bind_eq fun a => ?_
      cases hvalue with
      | array hitems => exact unexpected_alike (.array hitems) _
      | object hsize hentries => exact unexpected_alike (.object hsize hentries) _
      | _ => exact Decoded.alike_self _
    · rw [decodeKeyword_of_many hone, decodeKeyword_of_many (hlength ▸ hone)]
      exact Decoded.alike_self _
  | _ => exact Decoded.alike_self _

/-- An optional field is read alike if it is absent in both records, or if its values are. -/
theorem optionalField_alike {R : Json → Json → Prop} {decode : Json → Decoded α}
    (hdecode : ∀ json json', R json json' → Decoded.Alike Eq (decode json) (decode json'))
    (hfield : Option.Rel R (fields.lookup name) (fields'.lookup name)) :
    Decoded.Alike Eq (optionalField fields name decode) (optionalField fields' name decode) := by
  rw [optionalField, optionalField]
  generalize fields.lookup name = x at hfield ⊢
  generalize fields'.lookup name = x' at hfield ⊢
  cases hfield with
  | none => exact Decoded.alike_self _
  | some h => exact (hdecode _ _ h).map fun _ _ => congrArg some

/-- Of the fields of an identifier only the name counts, wherever it stands. -/
theorem decodeIdentifier_alike (h : SameIdentifier json json') :
    Decoded.Alike Eq (decodeIdentifier json) (decodeIdentifier json') := by
  have hobject : ∀ {fields fields' : List (String × Json)},
      Option.Rel Json.Alike (fields.lookup "name") (fields'.lookup "name") →
      Decoded.Alike Eq (decodeIdentifier (.object fields))
        (decodeIdentifier (.object fields')) := by
    intro fields fields' hname
    rw [decodeIdentifier, decodeIdentifier]
    refine (optionalField_alike (fun _ _ h => decodeString_alike h) hname).bind_eq fun name => ?_
    exact Decoded.alike_self _
  cases h with
  | object hname => exact hobject hname
  | alike hjson =>
    cases hjson with
    | object _ hfields => exact hobject (hfields "name")
    -- A sequence gives the fields by position, so it has no keys to be reordered.
    | array hitems =>
      have hlength := hitems.length_eq
      cases hitems with
      | nil => exact Decoded.alike_self _
      | cons hname hrest =>
        refine (decodeString_alike hname).bind_eq fun a => ?_
        rw [atMost, atMost, hlength]
        exact Decoded.alike_self _
    | _ => exact Decoded.alike_self _

/-- Of a template's text only the two spellings count. -/
theorem decodeTemplateText_alike (h : SameText json json') :
    Decoded.Alike Eq (decodeTemplateText json) (decodeTemplateText json') := by
  have hobject : ∀ {fields fields' : List (String × Json)},
      Option.Rel Json.Alike (fields.lookup "raw") (fields'.lookup "raw") →
      Option.Rel Json.Alike (fields.lookup "cooked") (fields'.lookup "cooked") →
      Decoded.Alike Eq (decodeTemplateText (.object fields))
        (decodeTemplateText (.object fields')) := by
    intro fields fields' hraw hcooked
    rw [decodeTemplateText, decodeTemplateText]
    refine (optionalField_alike (fun _ _ h => decodeOptionalString_alike h) hcooked).bind_eq
      fun cooked => ?_
    refine (optionalField_alike (fun _ _ h => decodeString_alike h) hraw).bind_eq fun raw => ?_
    exact Decoded.alike_self _
  cases h with
  | object hraw hcooked => exact hobject hraw hcooked
  | alike hjson =>
    cases hjson with
    | object _ hfields => exact hobject (hfields "raw") (hfields "cooked")
    -- By position again: the raw spelling, then the cooked one.
    | array hitems =>
      have hlength := hitems.length_eq
      cases hitems with
      | nil => exact Decoded.alike_self _
      | cons hraw hrest =>
        cases hrest with
        | nil => exact (decodeString_alike hraw).bind_eq fun _ => Decoded.alike_self _
        | cons hcooked hrest =>
          refine (decodeString_alike hraw).bind_eq fun a => ?_
          refine (decodeOptionalString_alike hcooked).bind_eq fun b => ?_
          rw [atMost, atMost, hlength]
          exact Decoded.alike_self _
    | _ => exact Decoded.alike_self _

theorem rel_imp {R S : Json → Json → Prop} (h : ∀ json json', R json json' → S json json') :
    ∀ {x x' : Option Json}, Option.Rel R x x' → Option.Rel S x x'
  | _, _, .none => .none
  | _, _, .some hjson => .some (h _ _ hjson)

/-- Of an element of a template only its text counts and whether it is the last. -/
theorem decodeTemplateElement_alike (h : SameTemplate json json') :
    Decoded.Alike Eq (decodeTemplateElement json) (decodeTemplateElement json') := by
  have hobject : ∀ {fields fields' : List (String × Json)},
      Option.Rel SameText (fields.lookup "value") (fields'.lookup "value") →
      Option.Rel Json.Alike (fields.lookup "tail") (fields'.lookup "tail") →
      Decoded.Alike Eq (decodeTemplateElement (.object fields))
        (decodeTemplateElement (.object fields')) := by
    intro fields fields' hvalue htail
    rw [decodeTemplateElement, decodeTemplateElement]
    refine (optionalField_alike (fun _ _ h => decodeBool_alike h) htail).bind_eq fun tail => ?_
    refine (optionalField_alike (fun _ _ h => decodeTemplateText_alike h) hvalue).bind_eq
      fun text => ?_
    exact Decoded.alike_self _
  cases h with
  | object hvalue htail => exact hobject hvalue htail
  | alike hjson =>
    cases hjson with
    | object _ hfields =>
      refine hobject ?_ (hfields "tail")
      exact rel_imp (fun _ _ => .alike) (hfields "value")
    | array hitems =>
      have hlength := hitems.length_eq
      cases hitems with
      | nil => exact Decoded.alike_self _
      | cons htext hrest =>
        cases hrest with
        | nil =>
          exact (decodeTemplateText_alike (.alike htext)).bind_eq fun _ => Decoded.alike_self _
        | cons htail hrest =>
          refine (decodeTemplateText_alike (.alike htext)).bind_eq fun a => ?_
          refine (decodeBool_alike htail).bind_eq fun b => ?_
          rw [atMost, atMost, hlength]
          exact Decoded.alike_self _
    | _ => exact Decoded.alike_self _

/-! ### Leaves -/

/-- Two readings of a leaf with alike values or with one message. -/
abbrev LeafValue.ReadAlike : Except NodeFault LeafValue → Except NodeFault LeafValue → Prop :=
  EndAlike (fun fault fault' => fault.message = fault'.message) LeafValue.Alike

theorem LeafValue.readAlike_self (x : Except NodeFault LeafValue) : LeafValue.ReadAlike x x := by
  cases x with
  | ok value => exact .ok (.same value)
  | error e => exact .error rfl

theorem message_fieldDecode (field : String) (fault : DecodeFault) :
    (NodeFault.fieldDecode field fault).message = "field `" ++ field ++ "` " ++ fault.message :=
  rfl

/-- Leaves are read alike if what they decode is. Their faults name the field and repeat the
message. -/
theorem Decoded.Alike.leaf {x x' : Decoded α} (hx : Decoded.Alike Eq x x') (field : String)
    (value : α → LeafValue) :
    LeafValue.ReadAlike ((x.map value).mapError (.fieldDecode field))
      ((x'.map value).mapError (.fieldDecode field)) := by
  cases hx with
  | ok h =>
    rw [← h]
    exact LeafValue.readAlike_self _
  | error h =>
    refine .error ?_
    rw [message_fieldDecode, message_fieldDecode, h]

/-- The payload of a literal is kept as it is, and so may differ in the order of keys. -/
theorem LiteralValue.ofJson_alike (h : json.Alike json') :
    (LeafValue.literal (.ofJson json)).Alike (.literal (.ofJson json')) := by
  cases h with
  | array hitems => exact .payload (.array hitems)
  | object hlength hfields => exact .payload (.object hlength hfields)
  | _ => exact .same _

/-- Two identifiers that are the same are absent together. -/
theorem SameIdentifier.null_iff (h : SameIdentifier json json') :
    json = .null ↔ json' = .null := by
  cases h with
  | alike hjson => exact hjson.null_iff
  | object => simp

/-- Leaves that are the same to the reader are read alike, or are the same fault. One case for each
kind of leaf. -/
theorem Leaf.read_alike {leaf : Leaf} (h : SameLeaf leaf json json') (field : String) :
    LeafValue.ReadAlike (leaf.read field json) (leaf.read field json') := by
  have hname : ∀ {json json' : Json}, SameIdentifier json json' →
      LeafValue.ReadAlike (read field .functionName json) (read field .functionName json') := by
    intro json json' h
    by_cases hnull : json = .null
    · rw [hnull, h.null_iff.1 hnull]
      exact LeafValue.readAlike_self _
    · rw [read_functionName hnull, read_functionName (mt h.null_iff.2 hnull)]
      exact (decodeIdentifier_alike h).leaf field fun name => .functionName (some name)
  cases h with
  | identifier hjson => exact hname hjson
  | alike leaf hjson =>
    cases leaf with
    | string | flag => cases hjson <;> exact LeafValue.readAlike_self _
    | declarationKind => exact (decodeKeyword_alike _ hjson).leaf field .declarationKind
    | propertyKind =>
      by_cases hnull : json = .null
      · rw [hnull, hjson.null_iff.1 hnull]
        exact LeafValue.readAlike_self _
      · rw [read_propertyKind hnull, read_propertyKind (mt hjson.null_iff.2 hnull)]
        exact (decodeKeyword_alike _ hjson).leaf field .propertyKind
    | literal => exact .ok (LiteralValue.ofJson_alike hjson)
    | functionName => exact hname (.alike hjson)

end Decoding

end HostScript
