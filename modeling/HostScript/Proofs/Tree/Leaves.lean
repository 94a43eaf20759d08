import HostScript.Proofs.OrderedMap
import HostScript.Proofs.Tree.Format

/-!
# Which values decode

The decoders of small records yield a value for just the values that the format allows:
`decodes_keyword`, `decodes_identifier`, `decodes_templateElement`, and for all leaves
`Leaf.decodes_read`.
-/

namespace HostScript

section Leaves

variable {α β : Type}

/-- Whether decoding ends with a value. -/
def Decodes {ε : Type} (x : Except ε α) : Prop := ∃ a, x = .ok a

@[simp] theorem decodes_ok {ε : Type} (a : α) : Decodes (.ok a : Except ε α) := ⟨a, rfl⟩

@[simp] theorem not_decodes_error {ε : Type} (e : ε) : ¬ Decodes (.error e : Except ε α) := nofun

@[simp] theorem decodes_map {ε : Type} (x : Except ε α) (f : α → β) :
    Decodes (x.map f) ↔ Decodes x := by
  cases x <;> simp [Except.map]

@[simp] theorem decodes_mapError {ε ε' : Type} (x : Except ε α) (f : ε → ε') :
    Decodes (x.mapError f) ↔ Decodes x := by
  cases x <;> simp [Except.mapError]

theorem decodes_bind {ε : Type} (x : Except ε α) (f : α → Except ε β) :
    Decodes (x >>= f) ↔ ∃ a, x = .ok a ∧ Decodes (f a) := by
  cases x with
  | ok a =>
    show Decodes (f a) ↔ _
    simp
  | error e =>
    show Decodes (.error e) ↔ _
    simp

/-- A name decodes if it is one of the keywords. -/
theorem decodes_named {ε : Type} {keywords : List (String × α)} {name : String} {e : ε} :
    Decodes (match keywords.lookup name with | some a => .ok a | none => .error e : Except ε α) ↔
      name ∈ keywords.map Prod.fst := by
  rw [← OrderedMap.isSome_lookup_iff]
  cases keywords.lookup name <;> simp

/-- A keyword is a string, or a record with the keyword as its one key and nothing under it. -/
theorem decodes_keyword {keywords : List (String × α)} {json : Json} :
    Decodes (decodeKeyword keywords json) ↔ IsKeyword (keywords.map Prod.fst) json := by
  constructor
  · intro h
    unfold decodeKeyword at h
    dsimp only at h
    split at h
    · exact .string (decodes_named.1 h)
    · next name value =>
      split at h
      · next a hnamed => exact .object (decodes_named.1 ⟨a, hnamed⟩)
      · exact absurd h (not_decodes_error _)
      · exact absurd h (not_decodes_error _)
    · exact absurd h (not_decodes_error _)
    · exact absurd h (not_decodes_error _)
  · rintro (hknown | hknown)
    · exact decodes_named.2 hknown
    · next name =>
      have hsome := (OrderedMap.isSome_lookup_iff keywords name).2 hknown
      obtain ⟨a, ha⟩ := Option.isSome_iff_exists.1 hsome
      exact ⟨a, by simp only [decodeKeyword, ha]⟩

theorem decodes_string {json : Json} : Decodes (decodeString json) ↔ ∃ s, json = .string s := by
  cases json <;> simp [decodeString]

theorem decodes_bool {json : Json} : Decodes (decodeBool json) ↔ ∃ b, json = .bool b := by
  cases json <;> simp [decodeBool]

/-- The cooked text is a string or absent. -/
theorem decodes_cooked {json : Json} : Decodes (decodeOptionalString json) ↔ IsCooked json := by
  constructor
  · intro h
    cases json with
    | null => exact .null
    | string s => exact .string s
    | _ => exact absurd h (not_decodes_error _)
  · rintro (_ | s)
    · exact decodes_ok _
    · exact decodes_ok _

/-- An optional field may be absent, but not be something else. -/
theorem decodes_optionalField {fields : List (String × Json)} {name : String}
    {decode : Json → Decoded α} :
    Decodes (optionalField fields name decode) ↔
      ∀ json, fields.lookup name = some json → Decodes (decode json) := by
  rw [optionalField]
  cases fields.lookup name with
  | none => simp
  | some json => simp

/-- A field that has to be there. -/
theorem decodes_required {fields : List (String × Json)} {name : String}
    {decode : Json → Decoded α} {next : α → Decoded β} :
    Decodes (optionalField fields name decode >>= fun x => present name x >>= next) ↔
      ∃ json a, fields.lookup name = some json ∧ decode json = .ok a ∧ Decodes (next a) := by
  rw [optionalField]
  cases fields.lookup name with
  | none => simp [decodes_bind, present]
  | some json => cases hdecode : decode json <;> simp [decodes_bind, present, Except.map, hdecode]

/-- A sequence may not be longer than the record has fields. -/
theorem decodes_atMost {size : Nat} {items : List Json} {a : α} :
    Decodes (atMost size items a) ↔ items.length ≤ size := by
  rw [atMost]
  split <;> simp <;> omega

/-- An identifier is a record with a name, or a sequence of the name alone. -/
theorem decodes_identifier {json : Json} : Decodes (decodeIdentifier json) ↔ IsIdentifier json := by
  constructor
  · intro h
    cases json with
    | object fields =>
      have hbind : decodeIdentifier (.object fields) =
          optionalField fields "name" decodeString >>= fun x => present "name" x >>= .ok := by
        rw [decodeIdentifier]
        congr 1
        funext x
        cases x <;> rfl
      rw [hbind, decodes_required] at h
      obtain ⟨json, name, hlookup, hname, -⟩ := h
      obtain ⟨s, rfl⟩ := decodes_string.1 ⟨name, hname⟩
      exact .object hlookup
    | array items =>
      -- By position: no name, the name alone, or too many items.
      match items with
      | [] => exact absurd h (not_decodes_error _)
      | [json] =>
        rw [decodeIdentifier, decodes_bind] at h
        obtain ⟨name, hname, -⟩ := h
        obtain ⟨s, rfl⟩ := decodes_string.1 ⟨name, hname⟩
        exact .array s
      | json :: second :: rest =>
        rw [decodeIdentifier, decodes_bind] at h
        obtain ⟨name, -, hlength⟩ := h
        simp [decodes_atMost] at hlength
    | _ => exact absurd h (not_decodes_error _)
  · rintro (hname | name)
    · rw [decodeIdentifier, optionalField, hname]
      exact decodes_ok _
    · exact decodes_ok _

/-- A template's text is a record with its two spellings, or a sequence of both. -/
theorem decodes_templateText {json : Json} :
    Decodes (decodeTemplateText json) ↔ IsTemplateText json := by
  constructor
  · intro h
    cases json with
    | object fields =>
      rw [decodeTemplateText, decodes_bind] at h
      obtain ⟨cooked, hcooked, h⟩ := h
      obtain ⟨json, raw, hlookup, hraw, -⟩ := decodes_required.1 h
      obtain ⟨s, rfl⟩ := decodes_string.1 ⟨raw, hraw⟩
      refine .object hlookup fun json hjson => ?_
      exact decodes_cooked.1 (decodes_optionalField.1 ⟨cooked, hcooked⟩ json hjson)
    | array items =>
      match items with
      | [] => exact absurd h (not_decodes_error _)
      -- In a sequence the cooked text may not be left out, as it may in a record.
      | [raw] =>
        rw [decodeTemplateText, decodes_bind] at h
        obtain ⟨_, -, h⟩ := h
        exact absurd h (not_decodes_error _)
      | [raw, cooked] =>
        rw [decodeTemplateText, decodes_bind] at h
        obtain ⟨r, hraw, h⟩ := h
        rw [decodes_bind] at h
        obtain ⟨c, hcooked, -⟩ := h
        obtain ⟨s, rfl⟩ := decodes_string.1 ⟨r, hraw⟩
        exact .array s (decodes_cooked.1 ⟨c, hcooked⟩)
      | raw :: cooked :: third :: rest =>
        rw [decodeTemplateText, decodes_bind] at h
        obtain ⟨r, -, h⟩ := h
        rw [decodes_bind] at h
        obtain ⟨c, -, hlength⟩ := h
        simp [decodes_atMost] at hlength
    | _ => exact absurd h (not_decodes_error _)
  · rintro (⟨hraw, hcooked⟩ | ⟨raw, hcooked⟩)
    · rw [decodeTemplateText, decodes_bind]
      have hok := decodes_optionalField.2 fun json hjson => decodes_cooked.2 (hcooked json hjson)
      obtain ⟨cooked, hok⟩ := hok
      exact ⟨cooked, hok, decodes_required.2 ⟨_, _, hraw, rfl, decodes_ok _⟩⟩
    · obtain ⟨c, hc⟩ := decodes_cooked.2 hcooked
      rw [decodeTemplateText, decodes_bind]
      exact ⟨raw, rfl, (decodes_bind _ _).2 ⟨c, hc, decodes_ok _⟩⟩

/-- An element of a template has its text and, unless left out, says whether it is the last. -/
theorem decodes_templateElement {json : Json} :
    Decodes (decodeTemplateElement json) ↔ IsTemplate json := by
  constructor
  · intro h
    cases json with
    | object fields =>
      rw [decodeTemplateElement, decodes_bind] at h
      obtain ⟨tail, htail, h⟩ := h
      obtain ⟨json, text, hlookup, htext, -⟩ := decodes_required.1 h
      refine .object hlookup (decodes_templateText.1 ⟨text, htext⟩) fun json hjson => ?_
      exact decodes_bool.1 (decodes_optionalField.1 ⟨tail, htail⟩ json hjson)
    | array items =>
      match items with
      | [] => exact absurd h (not_decodes_error _)
      -- Here the second item may be left out.
      | [json] =>
        rw [decodeTemplateElement, decodes_bind] at h
        obtain ⟨text, htext, -⟩ := h
        exact .text (decodes_templateText.1 ⟨text, htext⟩)
      | [json, last] =>
        rw [decodeTemplateElement, decodes_bind] at h
        obtain ⟨text, htext, h⟩ := h
        obtain ⟨tail, htail, -⟩ := (decodes_bind _ _).1 h
        obtain ⟨b, rfl⟩ := decodes_bool.1 ⟨tail, htail⟩
        exact .array (decodes_templateText.1 ⟨text, htext⟩) b
      | json :: last :: third :: rest =>
        rw [decodeTemplateElement, decodes_bind] at h
        obtain ⟨text, -, h⟩ := h
        obtain ⟨tail, -, hlength⟩ := (decodes_bind _ _).1 h
        simp [decodes_atMost] at hlength
    | _ => exact absurd h (not_decodes_error _)
  · rintro (⟨hvalue, htext, htail⟩ | htext | ⟨htext, tail⟩)
    · have hok := decodes_optionalField.2 fun json hjson => decodes_bool.2 (htail json hjson)
      obtain ⟨tail, hok⟩ := hok
      obtain ⟨text, htext⟩ := decodes_templateText.2 htext
      rw [decodeTemplateElement, decodes_bind]
      exact ⟨tail, hok, decodes_required.2 ⟨_, text, hvalue, htext, decodes_ok _⟩⟩
    · obtain ⟨text, htext⟩ := decodes_templateText.2 htext
      rw [decodeTemplateElement, decodes_bind]
      exact ⟨text, htext, decodes_ok _⟩
    · obtain ⟨text, htext⟩ := decodes_templateText.2 htext
      rw [decodeTemplateElement, decodes_bind]
      exact ⟨text, htext, (decodes_bind _ _).2 ⟨tail, rfl, decodes_ok _⟩⟩

theorem Leaf.read_propertyKind {field : String} {json : Json} (hjson : json ≠ .null) :
    read field .propertyKind json =
      ((decodePropertyKind json).map .propertyKind).mapError (.fieldDecode field) := by
  cases json with
  | null => exact absurd rfl hjson
  | _ => rfl

theorem Leaf.read_functionName {field : String} {json : Json} (hjson : json ≠ .null) :
    read field .functionName json =
      ((decodeIdentifier json).map fun name => .functionName (some name)).mapError
        (.fieldDecode field) := by
  cases json with
  | null => exact absurd rfl hjson
  | _ => rfl

theorem IsKeyword.ne_null {names : List String} {json : Json} (h : IsKeyword names json) :
    json ≠ .null := by
  rintro rfl
  cases h

theorem IsIdentifier.ne_null {json : Json} (h : IsIdentifier json) : json ≠ .null := by
  rintro rfl
  cases h

/-- A leaf is read from just the values that it may be. -/
theorem Leaf.decodes_read {leaf : Leaf} {field : String} {json : Json} :
    Decodes (leaf.read field json) ↔ IsLeaf leaf json := by
  constructor
  · intro h
    cases leaf with
    | string =>
      cases json with
      | string s => exact .string s
      | _ => exact absurd h (not_decodes_error _)
    | flag =>
      cases json with
      | bool b => exact .flag b
      | null => exact .noFlag
      | _ => exact absurd h (not_decodes_error _)
    | declarationKind =>
      rw [read, decodes_mapError, decodes_map, decodeDeclarationKind, decodes_keyword] at h
      exact .declarationKind h
    | propertyKind =>
      -- The kind of a property may be left out.
      by_cases hnull : json = .null
      · rw [hnull]
        exact .noPropertyKind
      · rw [read_propertyKind hnull, decodes_mapError, decodes_map, decodePropertyKind,
          decodes_keyword] at h
        exact .propertyKind h
    | literal => exact .literal json
    | functionName =>
      by_cases hnull : json = .null
      · rw [hnull]
        exact .noFunctionName
      · rw [read_functionName hnull, decodes_mapError, decodes_map, decodes_identifier] at h
        exact .functionName h
  · intro h
    cases h with
    | string | flag | noFlag | noPropertyKind | literal | noFunctionName => exact decodes_ok _
    | declarationKind hkeyword =>
      rw [read, decodes_mapError, decodes_map, decodeDeclarationKind, decodes_keyword]
      exact hkeyword
    | propertyKind hkeyword =>
      rw [read_propertyKind hkeyword.ne_null, decodes_mapError, decodes_map, decodePropertyKind,
        decodes_keyword]
      exact hkeyword
    | functionName hidentifier =>
      rw [read_functionName hidentifier.ne_null, decodes_mapError, decodes_map, decodes_identifier]
      exact hidentifier

end Leaves

end HostScript
