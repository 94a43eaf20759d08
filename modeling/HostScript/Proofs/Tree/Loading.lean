import HostScript.Proofs.Tree.Dependence

/-!
# The reader accepts its format

`Node.ofJson_follows_format`: the values that are read are those of the format, what is read is what
the value describes, an error is the first fault, and only what the format lists counts. The same is
shown of programs, which are lists of nodes under a root of their own.
-/

namespace HostScript

/-! ## Programs -/

/-- A program is an object of the type `Program` whose body is a list of nodes. -/
inductive IsProgram : Json → Prop where
  | mk {fields : List (String × Json)} {body : List Json}
      (htype : Json.field fields "type" = .string "Program")
      (hbody : Json.field fields "body" = .array body) (hitems : HasItems .node body) :
      IsProgram (.object fields)

/-- A value describes a program of the nodes that its body describes. -/
inductive DescribesProgram : Json → Program → Prop where
  | mk {fields : List (String × Json)} {body : List Json} {program : Program}
      (hbody : Json.field fields "body" = .array body)
      (hitems : DescribesItems .node body (program.body.map .node)) :
      DescribesProgram (.object fields) program

/-- A value is no program, for this reason. -/
inductive FaultyProgram : Json → TreeError → Prop where
  | noObject {json : Json} (hjson : ∀ fields, json ≠ .object fields) :
      FaultyProgram json (.notAProgram untypedKind)
  | untyped {fields : List (String × Json)}
      (htype : ∀ kind, Json.field fields "type" ≠ .string kind) :
      FaultyProgram (.object fields) (.notAProgram untypedKind)
  | other {fields : List (String × Json)} {kind : String}
      (htype : Json.field fields "type" = .string kind) (hkind : kind ≠ "Program") :
      FaultyProgram (.object fields) (.notAProgram kind)
  | noArray {fields : List (String × Json)}
      (htype : Json.field fields "type" = .string "Program")
      (hbody : ∀ body, Json.field fields "body" ≠ .array body) :
      FaultyProgram (.object fields) (.malformed "Program" (.wrongShape "body" .array))
  | body {fields : List (String × Json)} {body : List Json} {kind : String} {fault : NodeFault}
      (htype : Json.field fields "type" = .string "Program")
      (hbody : Json.field fields "body" = .array body)
      (hitems : FaultyItems .node body kind fault) :
      FaultyProgram (.object fields) (.malformed kind fault)

/-- No value is a program and faulty. -/
theorem IsProgram.not_faulty {json : Json} {e : TreeError} (h : IsProgram json) :
    ¬ FaultyProgram json e := by
  cases h with
  | mk htype hbody hitems =>
    intro hfault
    cases hfault with
    | noObject hjson => exact hjson _ rfl
    | untyped hno => exact hno _ htype
    | other htype' hkind => exact hkind (Json.string.inj (htype'.symm.trans htype))
    | noArray _ hno => exact hno _ hbody
    | body _ hbody' hfaults =>
      cases hbody.symm.trans hbody'
      exact hitems.not_faulty hfaults

namespace Program

/-- What reading a program ends with. -/
def Ends (json : Json) : Loaded Program → Prop
  | .ok program => IsProgram json ∧ DescribesProgram json program
  | .error e => FaultyProgram json e

/-- The statements of a program are read one after another. -/
theorem body_ends (body : List Json) :
    Loaded.Ends (fun nodes => HasItems .node body ∧ DescribesItems .node body (nodes.map .node))
      (FaultyItems .node body) (body.mapM Node.ofJson) := by
  have hload : ∀ json : Json, json.depth < Json.itemsDepth body + 1 →
      EndsAsNode json (Node.ofJson json) := fun json _ => Node.ofJson_ends json
  have hdepth : ∀ json ∈ body, json.depth < Json.itemsDepth body + 1 :=
    fun json h => Nat.lt_succ_of_le (Json.depth_le_of_mem h)
  have hends := (ListItem.node.ends hload).mapM hdepth
  have hread : body.mapM (ListItem.node.read Node.ofJson) =
      (body.mapM Node.ofJson).map (List.map .node) := Loaded.map_mapM _ _ _
  rw [hread] at hends
  cases hbody : body.mapM Node.ofJson with
  | ok nodes =>
    rw [hbody] at hends
    cases hends with
    | ok h => exact .ok h
  | error e =>
    rw [hbody] at hends
    cases hends with
    | malformed h => exact .malformed h

/-- Reading ends with a program of the format, or with the first fault: of the root, of its type, or
of the body. -/
theorem ofJson_ends (json : Json) : Ends json (ofJson json) := by
  unfold ofJson
  split
  · next fields =>
    split
    · next htype =>
      split
      · next body hbody =>
        have hends := body_ends body
        generalize body.mapM Node.ofJson = x at hends ⊢
        cases hends with
        | ok h => exact ⟨.mk htype hbody h.1, .mk hbody h.2⟩
        | malformed h => exact .body htype hbody h
      · next hbody => exact .noArray htype hbody
    · next kind hkind htype => exact .other htype hkind
    · next hkind => exact .untyped hkind
  · next hjson => exact .noObject hjson

/-- Just the programs of the format are read. -/
theorem ofJson_succeeds_iff (json : Json) :
    (∃ program, ofJson json = .ok program) ↔ IsProgram json := by
  have hends := ofJson_ends json
  cases hread : ofJson json with
  | ok program =>
    rw [hread] at hends
    exact ⟨fun _ => hends.1, fun _ => ⟨program, rfl⟩⟩
  | error e =>
    rw [hread] at hends
    exact ⟨nofun, fun h => absurd hends h.not_faulty⟩

end Program

/-! ## The reader and its format -/

/-- Reading a value yields a node just where the value is one of the format, and then the node that
the value describes; else the error is the first fault in reading order. Two values that are the
same but for unlisted fields, absent ones and the order of keys are read alike. A program is read
just where the value is one, and is then the one it describes, else the error says why. -/
theorem Node.ofJson_follows_format (json : Json) :
    ((∃ node, Node.ofJson json = .ok node) ↔ IsNode json) ∧
      (∀ node, Node.ofJson json = .ok node → Describes json node) ∧
      (∀ e, Node.ofJson json = .error e →
        ∃ kind fault, e = .malformed kind fault ∧ Faulty json kind fault) ∧
      (∀ json', SameNode json json' →
        Loaded.Alike Node.Alike (Node.ofJson json) (Node.ofJson json')) ∧
      ((∃ program, Program.ofJson json = .ok program) ↔ IsProgram json) ∧
      (∀ program, Program.ofJson json = .ok program → DescribesProgram json program) ∧
      (∀ e, Program.ofJson json = .error e → FaultyProgram json e) := by
  have hprogram := Program.ofJson_ends json
  refine ⟨ofJson_succeeds_iff json, fun _ => describes_of_ofJson, fun _ => faulty_of_ofJson,
    fun _ => ofJson_alike, Program.ofJson_succeeds_iff json, fun program hread => ?_,
    fun e hread => ?_⟩
  · rw [hread] at hprogram
    exact hprogram.2
  · rw [hread] at hprogram
    exact hprogram

/-- A name, two sets of fields that mean it, a statement with a name that lacks its text, and a
program and a value that is none. -/
theorem Node.ofJson_follows_format_of_name :
    let name : Json := .object [("type", .string "Identifier"), ("name", .string "x")]
    let extended : Json := .object [("name", .string "x"), ("loc", .null), ("start", .null),
      ("type", .string "Identifier")]
    let nameless : Json := .object [("type", .string "Identifier")]
    let statement : Json := .object [("type", .string "ReturnStatement"), ("argument", nameless)]
    let program : Json := .object [("type", .string "Program"), ("body", .array [name])]
    IsNode name ∧ Describes name (.mk none (.identifier "x")) ∧
      (∃ kind fault, TreeError.malformed "Identifier" (.wrongShape "name" .string) =
        .malformed kind fault ∧ Faulty statement kind fault) ∧
      Loaded.Alike Node.Alike (Node.ofJson name) (Node.ofJson extended) ∧
      DescribesProgram program ⟨[.mk none (.identifier "x")]⟩ ∧
      FaultyProgram name (.notAProgram "Identifier") := by
  intro name extended nameless statement program
  have hsame : SameNode name extended := by
    refine .of_fields rfl rfl rfl fun listed hlisted field form hmem => ?_
    obtain rfl := Option.some.inj hlisted
    rw [List.mem_singleton] at hmem
    obtain ⟨rfl, rfl⟩ := Prod.mk.inj hmem
    rfl
  have hread : Node.ofJson name = .ok (.mk none (.identifier "x")) := rfl
  have hfault : Node.ofJson statement =
      .error (.malformed "Identifier" (.wrongShape "name" .string)) := rfl
  have hprogram : Program.ofJson program = .ok ⟨[.mk none (.identifier "x")]⟩ := rfl
  have hname : Program.ofJson name = .error (.notAProgram "Identifier") := rfl
  obtain ⟨haccept, hdescribe, -, halike, -, -, hno⟩ := Node.ofJson_follows_format name
  refine ⟨haccept.1 ⟨_, hread⟩, hdescribe _ hread, ?_, halike extended hsame, ?_, hno _ hname⟩
  · exact (Node.ofJson_follows_format statement).2.2.1 _ hfault
  · exact (Node.ofJson_follows_format program).2.2.2.2.2.1 _ hprogram

end HostScript
