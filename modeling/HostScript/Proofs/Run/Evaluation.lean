import HostScript.Proofs.Run.Places

/-!
# Evaluation in tandem

Code keeps runs in tandem if the calls that it makes do. The proof follows the code: one theorem for
each kind of code, `Expr.eval_inTandem`, `Stmt.run_inTandem` and their like, and in it one case for
each construct. The stages of the tandem are passed on from each part of a construct to the next, so
what code has got hold of in one part it may still use in a later one.
-/

namespace HostScript

open Tandem Tandem.InTandem

variable {Stage : Type} [Preorder Stage] {T : Tandem Stage}

namespace Tandem

/-- What calls do keeps runs in tandem. -/
def Calls (T : Tandem Stage) (call : Caller) : Prop :=
  ∀ (k : Stage) (function this : Value) (arguments : List Value), T.value k function →
    T.value k this → T.values k arguments →
    T.InTandem k (call function this arguments)
      (call (renamed T.rename function) (renamed T.rename this) (renamed T.rename arguments))
      T.value

/-- The value of a completion. -/
def completion (T : Tandem Stage) (k : Stage) : Completion → Prop
  | .normal v | .ret v => T.value k v
  | .brk | .cont => True

theorem completion_mono {k k' : Stage} (hk : k ≤ k') {c : Completion} (hc : T.completion k c) :
    T.completion k' c := by
  cases c with
  | normal v | ret v => exact T.value_mono hk hc
  | brk | cont => trivial

theorem completion_undefined (k : Stage) : T.completion k (.normal .undefined) :=
  T.value_of_plain rfl

/-- A round of a loop that ends it ends it with a completion that code may hold. -/
theorem completion_endsLoop? {k : Stage} {c : Completion} (hc : T.completion k c) :
    ofSome T.completion k c.endsLoop? := by
  intro ending hending
  cases c with
  | normal v | cont => cases hending
  | brk => cases hending; exact completion_undefined k
  | ret v => cases hending; exact hc

/-- A clause that ends a switch ends it with what code may hold. Unlike a loop, a switch passes
`continue` on. -/
theorem completion_endsSwitch? {k : Stage} {c : Completion} (hc : T.completion k c) :
    ofSome T.completion k c.endsSwitch? := by
  intro ending hending
  cases c with
  | normal v => cases hending
  | brk => cases hending; exact completion_undefined k
  | cont => cases hending; trivial
  | ret v => cases hending; exact hc

theorem value_result {k : Stage} {c : Completion} (hc : T.completion k c) :
    T.value k c.result := by
  cases c with
  | normal v | ret v => exact hc
  | brk | cont => exact T.value_of_plain rfl

variable {k : Stage}

/-- Texts of corresponding values are the same, since no address shows in a text. -/
theorem toKey_inTandem {v : Value} (hv : T.value k v) :
    T.InTandem k (Action.query v.toKey) (Action.query (renamed T.rename v).toKey) anything := by
  refine query fun k' w w' hk hw => ⟨?_, fun _ _ => trivial⟩
  rw [(T.reads hw).toKey (T.value_mono hk hv)]
  exact (renamed_option_eq_self fun _ => rfl).symm

/-- A new array is at the next address of each heap, and these correspond. -/
theorem newArray_inTandem {vs : List Value} (hvs : T.values k vs) :
    T.InTandem k
      (Action.change fun h =>
        let (addr, h) := h.alloc (.array vs.toArray)
        (.array addr, h))
      (Action.change fun h =>
        let (addr, h) := h.alloc (.array (renamed T.rename vs).toArray)
        (.array addr, h)) T.value := by
  have hvs' : (renamed T.rename vs).toArray = renamed T.rename vs.toArray := List.map_toArray.symm
  rw [hvs']
  refine change fun k' w w' hk hw => ⟨?_, ?_⟩
  · exact congrArg Value.array (T.fresh hw).symm
  · exact T.newArray hw fun v hv => T.value_mono hk (hvs v (List.mem_toArray.1 hv))

theorem newObject_inTandem {m : OrderedMap Value} (hm : T.entries k m) :
    T.InTandem k
      (Action.change fun h =>
        let (addr, h) := h.alloc (.object m)
        (.object addr, h))
      (Action.change fun h =>
        let (addr, h) := h.alloc (.object (renamed T.rename m))
        (.object addr, h)) T.value := by
  refine change fun k' w w' hk hw => ⟨?_, ?_⟩
  · exact congrArg Value.object (T.fresh hw).symm
  · exact T.newObject hw (entries_mono hk hm)

/-- Operators on two values yield primitives, the same ones in both runs. -/
theorem binaryApply_inTandem {op : BinaryOp} {a b : Value} (ha : T.value k a) (hb : T.value k b) :
    T.InTandem k (Action.queryExcept fun h => op.apply h a b)
      (Action.queryExcept fun h => op.apply h (renamed T.rename a) (renamed T.rename b))
      T.value := by
  refine queryExcept fun k' w w' hk hw => ⟨?_, fun v hv => ?_⟩
  · rw [(T.reads hw).binaryApply op (T.value_mono hk ha) (T.value_mono hk hb)]
    cases hanswer : op.apply w.heap a b with
    | none => rfl
    | some answer =>
      cases answer with
      | error e => rfl
      | ok v =>
        show some (Except.ok v) = some (.ok (renamed T.rename v))
        rw [Value.renamed_of_plain (BinaryOp.addr?_of_apply hanswer)]
  · exact T.value_of_plain (BinaryOp.addr?_of_apply hv)

/-- Every operator on one operand yields a value without handle. -/
theorem unaryApply_inTandem {op : UnaryOp} {v : Value} (hv : T.value k v) :
    T.InTandem k (Action.query fun h => op.apply h v)
      (Action.query fun h => op.apply h (renamed T.rename v)) T.value := by
  refine query fun k' w w' hk hw => ⟨?_, fun result hresult => ?_⟩
  · rw [(T.reads hw).unaryApply op (T.value_mono hk hv)]
    cases hanswer : op.apply w.heap v with
    | none => rfl
    | some result =>
      show some result = some (renamed T.rename result)
      rw [Value.renamed_of_plain (UnaryOp.addr?_of_apply hanswer)]
  · exact T.value_of_plain (UnaryOp.addr?_of_apply hresult)

/-- A call fails in both runs alike if its callee is no function, and else does what `call` does. -/
theorem apply_inTandem {call : Caller} (hcall : T.Calls call) {function this : Value}
    {arguments : List Value} {description : String} (hfunction : T.value k function)
    (hthis : T.value k this) (harguments : T.values k arguments) :
    T.InTandem k (call.apply function this arguments description)
      (call.apply (renamed T.rename function) (renamed T.rename this) (renamed T.rename arguments)
        description) T.value := by
  unfold Caller.apply
  rw [Value.isCallable_renamed]
  split
  · exact hcall k function this arguments hfunction hthis harguments
  · exact fail _

end Tandem

/-! ## Code -/

section Code

-- Each theorem hands `hcall` on to the others.
set_option linter.unusedSectionVars false

variable {call : Caller} (limit : Nat) (hcall : T.Calls call)

include hcall

mutual

/-- An expression keeps runs in tandem. By induction on the expression: what each of its parts
yields may be held at the later stages too. -/
theorem Expr.eval_inTandem : ∀ (x : Expr) {k : Stage} {e : Env}, T.env k e →
    T.Sees e.root x.mentions →
    T.InTandem k (x.eval call limit e) (x.eval call limit (renamed T.rename e)) T.value
  | .ident name, k, e, he, hsees => by
    rw [Expr.eval, Expr.eval]
    exact get_inTandem he (hsees _ (by simp [Expr.mentions]))
  | .literal l, k, e, _, _ => by
    have hplain := Value.addr?_ofLiteral l
    rw [Expr.eval, Expr.eval]
    exact pure (Value.renamed_of_plain hplain).symm fun _ _ => T.value_of_plain hplain
  | .this, k, e, he, _ => by
    rw [Expr.eval, Expr.eval]
    exact getD_resolve_inTandem he (.inr rfl) id (fun _ _ hv => hv) fun _ => rfl
  | .array elements, k, e, he, hsees => by
    rw [Expr.eval, Expr.eval]
    exact (evalElements_inTandem elements he hsees).bind fun k' vs _ hvs => newArray_inTandem hvs
  | .object properties, k, e, he, hsees => by
    have hempty : T.entries k ∅ := List.forall_mem_nil _
    rw [Expr.eval, Expr.eval]
    exact (evalProperties_inTandem properties he hsees hempty).bind fun k' m _ hm =>
      newObject_inTandem hm
  | .template segments, k, e, he, hsees => by
    rw [Expr.eval, Expr.eval]
    exact evalSegments_inTandem segments he hsees ""
  | .function code, k, e, he, hsees => by
    rw [Expr.eval, Expr.eval]
    exact create_inTandem he (hsees _ (by simp [Expr.mentions]))
  | .unary op operand, k, e, he, hsees => by
    rw [Expr.eval, Expr.eval]
    exact (operand.eval_inTandem he hsees).bind fun k' v _ hv => unaryApply_inTandem hv
  | .typeOfName name, k, e, he, hsees => by
    rw [Expr.eval, Expr.eval]
    refine getD_resolve_inTandem he (.inl (hsees _ (by simp [Expr.mentions])))
      (fun v => .string v.typeName) (fun _ _ _ => T.value_of_plain rfl) fun v => ?_
    exact congrArg Value.string v.typeName_renamed
  | .update op yieldsNew target, k, e, he, hsees => by
    rw [Expr.eval, Expr.eval]
    refine (target.place_inTandem he hsees).bind fun k' p _ hp => ?_
    exact (update_inTandem hp).bind fun _ ⟨old, new⟩ _ _ =>
      pure rfl fun _ _ => T.value_of_plain rfl
  | .binary op left right, k, e, he, hsees => by
    obtain ⟨hleft, hright⟩ := sees_append.1 hsees
    rw [Expr.eval, Expr.eval]
    refine (left.eval_inTandem he hleft).bind fun k₁ ⟨lhs, first⟩ hk₁ hfirst => ?_
    refine (right.eval_inTandem (T.env_mono hk₁ he) hright).bind
      fun k₂ ⟨rhs, second⟩ hk₂ hsecond => ?_
    refine (binaryApply_inTandem (T.value_mono hk₂ hfirst.1) hsecond.1).bind
      fun k₃ result hk₃ hv => ?_
    -- The updates that the operands have put off come after the operator.
    have hpending : T.updates k₃ (first ++ second) := fun update hupdate => by
      rcases List.mem_append.1 hupdate with hupdate | hupdate
      · exact place_mono (hk₂.trans hk₃) (hfirst.2 update hupdate)
      · exact place_mono hk₃ (hsecond.2 update hupdate)
    have hperform := performAll_inTandem hpending
    rw [renamed_append] at hperform
    exact hperform.bind fun k₄ _ hk₄ _ => pure rfl fun _ hk => T.value_mono (hk₄.trans hk) hv
  | .logical op left right, k, e, he, hsees => by
    obtain ⟨hleft, hright⟩ := sees_append.1 hsees
    rw [Expr.eval, Expr.eval]
    refine (left.eval_inTandem he hleft).bind fun k₁ lhs hk₁ hlhs => ?_
    refine (right.eval_inTandem (T.env_mono hk₁ he) hright).bind fun k₂ rhs hk₂ hrhs => ?_
    refine pure (op.choose_renamed lhs rhs) fun k₃ hk₃ => ?_
    -- The operator chooses one of two values that are there already.
    rcases op.choose_eq lhs rhs with hchoice | hchoice
    · rw [hchoice]
      exact T.value_mono (hk₂.trans hk₃) hlhs
    · rw [hchoice]
      exact T.value_mono hk₃ hrhs
  | .assign .assign target value, k, e, he, hsees => by
    obtain ⟨htarget, hvalue⟩ := sees_append.1 hsees
    rw [Expr.eval, Expr.eval]
    refine (target.place_inTandem he htarget).bind fun k₁ p hk₁ hp => ?_
    refine (value.eval_inTandem (T.env_mono hk₁ he) hvalue).bind fun k₂ v hk₂ hv => ?_
    exact (write_inTandem (place_mono hk₂ hp) hv).bind fun k₃ _ hk₃ _ =>
      pure rfl fun _ hk => T.value_mono (hk₃.trans hk) hv
  | .assign (.compound op) target value, k, e, he, hsees => by
    obtain ⟨htarget, hvalue⟩ := sees_append.1 hsees
    rw [Expr.eval, Expr.eval]
    refine (target.place_inTandem he htarget).bind fun k₁ p hk₁ hp => ?_
    -- The place is read before the value is there and written after it.
    refine (read_inTandem hp).bind fun k₂ current hk₂ hcurrent => ?_
    refine (value.eval_inTandem (T.env_mono (hk₁.trans hk₂) he) hvalue).bind
      fun k₃ v hk₃ hv => ?_
    refine (binaryApply_inTandem (T.value_mono hk₃ hcurrent) hv).bind fun k₄ new hk₄ hnew => ?_
    have hp' : T.place k₄ p := place_mono ((hk₂.trans hk₃).trans hk₄) hp
    exact (write_inTandem hp' hnew).bind fun k₅ _ hk₅ _ =>
      pure rfl fun _ hk => T.value_mono (hk₅.trans hk) hnew
  | .conditional test consequent alternate, k, e, he, hsees => by
    obtain ⟨hsees, halternate⟩ := sees_append.1 hsees
    obtain ⟨htest, hconsequent⟩ := sees_append.1 hsees
    rw [Expr.eval, Expr.eval]
    refine (test.eval_inTandem he htest).bind fun k₁ condition hk₁ _ => ?_
    rw [Value.truthy_renamed]
    split
    · exact consequent.eval_inTandem (T.env_mono hk₁ he) hconsequent
    · exact alternate.eval_inTandem (T.env_mono hk₁ he) halternate
  | .sequence expressions, k, e, he, hsees => by
    rw [Expr.eval, Expr.eval]
    exact evalSequence_inTandem expressions he hsees (T.value_of_plain rfl)
  | .call callee arguments description, k, e, he, hsees => by
    obtain ⟨hcallee, harguments⟩ := sees_append.1 hsees
    rw [Expr.eval, Expr.eval]
    refine (callee.eval_inTandem he hcallee).bind fun k₁ function hk₁ hfunction => ?_
    refine (evalArguments_inTandem arguments (T.env_mono hk₁ he) harguments).bind
      fun k₂ vs hk₂ hvs => ?_
    exact apply_inTandem hcall (T.value_mono hk₂ hfunction) (T.value_of_plain rfl) hvs
  | .callMethod object key arguments description, k, e, he, hsees => by
    obtain ⟨hsees, harguments⟩ := sees_append.1 hsees
    obtain ⟨hobject, hkey⟩ := sees_append.1 hsees
    rw [Expr.eval, Expr.eval]
    refine (object.eval_inTandem he hobject).bind fun k₁ receiver hk₁ hreceiver => ?_
    refine (key.eval_inTandem (T.env_mono hk₁ he) hkey).bind fun k₂ name hk₂ hname => ?_
    refine (toKey_inTandem hname).bind fun k₃ name hk₃ _ => ?_
    refine (getProperty_inTandem (T.value_mono (hk₂.trans hk₃) hreceiver)).bind
      fun k₄ function hk₄ hfunction => ?_
    have hk : k₁ ≤ k₄ := (hk₂.trans hk₃).trans hk₄
    refine (evalArguments_inTandem arguments (T.env_mono (hk₁.trans hk) he) harguments).bind
      fun k₅ vs hk₅ hvs => ?_
    have hfunction₅ : T.value k₅ function := T.value_mono hk₅ hfunction
    have hreceiver₅ : T.value k₅ receiver := T.value_mono (hk.trans hk₅) hreceiver
    exact apply_inTandem hcall hfunction₅ hreceiver₅ hvs
  | .member object key, k, e, he, hsees => by
    obtain ⟨hobject, hkey⟩ := sees_append.1 hsees
    rw [Expr.eval, Expr.eval]
    refine (object.eval_inTandem he hobject).bind fun k₁ v hk₁ hv => ?_
    refine (key.eval_inTandem (T.env_mono hk₁ he) hkey).bind fun k₂ name hk₂ hname => ?_
    refine (toKey_inTandem hname).bind fun k₃ name hk₃ _ => ?_
    exact getProperty_inTandem (T.value_mono (hk₂.trans hk₃) hv)

theorem evalOption_inTandem : ∀ (x : Option Expr) {k : Stage} {e : Env}, T.env k e →
    T.Sees e.root (optionMentions x) →
    T.InTandem k (evalOption call limit x e) (evalOption call limit x (renamed T.rename e)) T.value
  | none, k, e, _, _ => by
    rw [evalOption, evalOption]
    exact pure rfl fun _ _ => T.value_of_plain rfl
  | some x, k, e, he, hsees => by
    rw [evalOption, evalOption]
    exact x.eval_inTandem he hsees

theorem evalElements_inTandem : ∀ (xs : List (Option Expr)) {k : Stage} {e : Env}, T.env k e →
    T.Sees e.root (elementsMentions xs) →
    T.InTandem k (evalElements call limit xs e) (evalElements call limit xs (renamed T.rename e))
      T.values
  | [], k, e, _, _ => by
    rw [evalElements, evalElements]
    exact pure rfl fun _ _ => List.forall_mem_nil _
  | x :: rest, k, e, he, hsees => by
    obtain ⟨hx, hrest⟩ := sees_append.1 hsees
    rw [evalElements, evalElements]
    refine (evalOption_inTandem x he hx).bind fun k₁ v hk₁ hv => ?_
    refine (evalElements_inTandem rest (T.env_mono hk₁ he) hrest).bind fun k₂ vs hk₂ hvs => ?_
    refine pure rfl fun k₃ hk₃ => List.forall_mem_cons.2 ⟨?_, values_mono hk₃ hvs⟩
    exact T.value_mono (hk₂.trans hk₃) hv

theorem evalArguments_inTandem : ∀ (xs : List Expr) {k : Stage} {e : Env}, T.env k e →
    T.Sees e.root (listMentions xs) →
    T.InTandem k (evalArguments call limit xs e) (evalArguments call limit xs (renamed T.rename e))
      T.values
  | [], k, e, _, _ => by
    rw [evalArguments, evalArguments]
    exact pure rfl fun _ _ => List.forall_mem_nil _
  | x :: rest, k, e, he, hsees => by
    obtain ⟨hx, hrest⟩ := sees_append.1 hsees
    rw [evalArguments, evalArguments]
    refine (x.eval_inTandem he hx).bind fun k₁ v hk₁ hv => ?_
    refine (evalArguments_inTandem rest (T.env_mono hk₁ he) hrest).bind fun k₂ vs hk₂ hvs => ?_
    refine pure rfl fun k₃ hk₃ => List.forall_mem_cons.2 ⟨?_, values_mono hk₃ hvs⟩
    exact T.value_mono (hk₂.trans hk₃) hv

/-- The properties of an object are evaluated one after another, and a later one of the same key
replaces the earlier. -/
theorem evalProperties_inTandem : ∀ (properties : List (Expr × Expr)) {k : Stage} {e : Env}
    {m : OrderedMap Value}, T.env k e → T.Sees e.root (propertiesMentions properties) →
    T.entries k m →
    T.InTandem k (evalProperties call limit properties e m)
      (evalProperties call limit properties (renamed T.rename e) (renamed T.rename m)) T.entries
  | [], k, e, m, _, _, hm => by
    rw [evalProperties, evalProperties]
    exact pure rfl fun _ hk => entries_mono hk hm
  | (key, value) :: rest, k, e, m, he, hsees, hm => by
    obtain ⟨hsees, hrest⟩ := sees_append.1 hsees
    obtain ⟨hkey, hvalue⟩ := sees_append.1 hsees
    rw [evalProperties, evalProperties]
    refine (key.eval_inTandem he hkey).bind fun k₁ name hk₁ hname => ?_
    refine (toKey_inTandem hname).bind fun k₂ name hk₂ _ => ?_
    have he₂ : T.env k₂ e := T.env_mono (hk₁.trans hk₂) he
    refine (value.eval_inTandem he₂ hvalue).bind fun k₃ v hk₃ hv => ?_
    have hm₃ : T.entries k₃ m := entries_mono ((hk₁.trans hk₂).trans hk₃) hm
    -- Keys are texts, so inserting commutes with renaming.
    have hinsert : (renamed T.rename m).insert name (renamed T.rename v) =
        renamed T.rename (m.insert name v) := (OrderedMap.map_insert _ m name v).symm
    have hentries : T.entries k₃ (m.insert name v) := entries_insert hm₃ hv
    have hrest' := evalProperties_inTandem rest (T.env_mono hk₃ he₂) hrest hentries
    rw [← hinsert] at hrest'
    exact hrest'

theorem evalSegments_inTandem : ∀ (segments : List (String × Option Expr)) {k : Stage} {e : Env},
    T.env k e → T.Sees e.root (segmentsMentions segments) →
    ∀ before : String, T.InTandem k (evalSegments call limit segments e before)
      (evalSegments call limit segments (renamed T.rename e) before) T.value
  | [], k, e, _, _, before => by
    rw [evalSegments, evalSegments]
    exact pure rfl fun _ _ => T.value_of_plain rfl
  | (text, none) :: rest, k, e, he, hsees, before => by
    rw [evalSegments, evalSegments]
    exact evalSegments_inTandem rest he (sees_append.1 hsees).2 _
  | (text, some x) :: rest, k, e, he, hsees, before => by
    obtain ⟨hx, hrest⟩ := sees_append.1 hsees
    rw [evalSegments, evalSegments]
    refine (x.eval_inTandem he hx).bind fun k₁ v hk₁ hv => ?_
    -- A segment is shown as the same text that a key would be.
    refine (toKey_inTandem hv).bind fun k₂ shown hk₂ _ => ?_
    exact evalSegments_inTandem rest (T.env_mono (hk₁.trans hk₂) he) hrest _

theorem evalSequence_inTandem : ∀ (xs : List Expr) {k : Stage} {e : Env} {last : Value},
    T.env k e → T.Sees e.root (listMentions xs) → T.value k last →
    T.InTandem k (evalSequence call limit xs e last)
      (evalSequence call limit xs (renamed T.rename e) (renamed T.rename last)) T.value
  | [], k, e, last, _, _, hlast => by
    rw [evalSequence, evalSequence]
    exact pure rfl fun _ hk => T.value_mono hk hlast
  | x :: rest, k, e, last, he, hsees, _ => by
    obtain ⟨hx, hrest⟩ := sees_append.1 hsees
    rw [evalSequence, evalSequence]
    refine (x.eval_inTandem he hx).bind fun k₁ v hk₁ hv => ?_
    exact evalSequence_inTandem rest (T.env_mono hk₁ he) hrest hv

/-- Corresponding targets lead to corresponding places. -/
theorem Target.place_inTandem : ∀ (t : Target) {k : Stage} {e : Env}, T.env k e →
    T.Sees e.root t.mentions →
    T.InTandem k (t.place call limit e) (t.place call limit (renamed T.rename e)) T.place
  | .name name, k, e, he, hsees => by
    rw [Target.place, Target.place]
    exact ofName_inTandem he (hsees _ (by simp [Target.mentions]))
  | .property object key, k, e, he, hsees => by
    obtain ⟨hobject, hkey⟩ := sees_append.1 hsees
    rw [Target.place, Target.place]
    refine (object.eval_inTandem he hobject).bind fun k₁ v hk₁ hv => ?_
    refine (key.eval_inTandem (T.env_mono hk₁ he) hkey).bind fun k₂ name hk₂ hname => ?_
    refine (toKey_inTandem hname).bind fun k₃ name hk₃ _ => ?_
    exact pure rfl fun k₄ hk₄ => T.value_mono ((hk₂.trans hk₃).trans hk₄) hv

/-- What an operand leaves to its operator corresponds as well: the same updates, at corresponding
places. -/
theorem Operand.eval_inTandem : ∀ (operand : Operand) {k : Stage} {e : Env}, T.env k e →
    T.Sees e.root operand.mentions →
    T.InTandem k (operand.eval call limit e) (operand.eval call limit (renamed T.rename e))
      fun k result => T.value k result.1 ∧ T.updates k result.2
  | .plain x, k, e, he, hsees => by
    rw [Operand.eval, Operand.eval]
    refine (x.eval_inTandem he hsees).bind fun k₁ v _ hv => pure rfl fun _ hk => ?_
    exact ⟨T.value_mono hk hv, List.forall_mem_nil _⟩
  | .deferred op target, k, e, he, hsees => by
    rw [Operand.eval, Operand.eval]
    refine (target.place_inTandem he hsees).bind fun k₁ p _ hp => ?_
    refine (readNumber_inTandem hp).bind fun k₂ old hk₂ _ => pure rfl fun k₃ hk₃ => ?_
    refine ⟨T.value_of_plain rfl, fun update hupdate => ?_⟩
    rw [List.mem_singleton.1 hupdate]
    exact place_mono (hk₂.trans hk₃) hp

/-- A statement keeps runs in tandem. By induction on the statement. The frames that it enters are
children of its own, and see the same mentions. -/
theorem Stmt.run_inTandem : ∀ (s : Stmt) {k : Stage} {e : Env}, T.env k e →
    T.Sees e.root s.mentions →
    T.InTandem k (s.run call limit e) (s.run call limit (renamed T.rename e)) T.completion
  | .expr x, k, e, he, hsees => by
    rw [Stmt.run, Stmt.run]
    exact (x.eval_inTandem he hsees).bind fun _ _ _ hv =>
      pure rfl fun _ hk => T.value_mono hk hv
  | .block body, k, e, he, hsees => by
    rw [Stmt.run, Stmt.run]
    exact runAll_inTandem body .undefined he hsees (T.value_of_plain rfl)
  | .empty, k, e, _, _ => by
    rw [Stmt.run, Stmt.run]
    exact pure rfl fun k _ => completion_undefined k
  | .ret argument, k, e, he, hsees => by
    rw [Stmt.run, Stmt.run]
    exact (evalOption_inTandem argument he hsees).bind fun _ _ _ hv =>
      pure rfl fun _ hk => T.value_mono hk hv
  | .brk, k, e, _, _ => by
    rw [Stmt.run, Stmt.run]
    exact pure rfl fun _ _ => trivial
  | .cont, k, e, _, _ => by
    rw [Stmt.run, Stmt.run]
    exact pure rfl fun _ _ => trivial
  | .ifElse test consequent alternate, k, e, he, hsees => by
    obtain ⟨hsees, halternate⟩ := sees_append.1 hsees
    obtain ⟨htest, hconsequent⟩ := sees_append.1 hsees
    rw [Stmt.run, Stmt.run]
    refine (test.eval_inTandem he htest).bind fun k₁ condition hk₁ _ => ?_
    have he₁ : T.env k₁ e := T.env_mono hk₁ he
    rw [Value.truthy_renamed]
    split
    -- A branch that is taken runs in a frame of its own.
    · refine (entered_inTandem he₁).bind fun k₂ inner hk₂ hinner => ?_
      exact consequent.run_inTandem hinner.env (hinner.sees hconsequent)
    · exact runOption_inTandem alternate he₁ halternate
  | .switch discriminant clauses, k, e, he, hsees => by
    obtain ⟨hdiscriminant, hclauses⟩ := sees_append.1 hsees
    rw [Stmt.run, Stmt.run]
    refine (discriminant.eval_inTandem he hdiscriminant).bind fun k₁ v hk₁ _ => ?_
    exact runClauses_inTandem clauses v (T.env_mono hk₁ he) hclauses
  | .whileLoop test body, k, e, he, hsees => by
    obtain ⟨htest, hbody⟩ := sees_append.1 hsees
    rw [Stmt.run, Stmt.run]
    -- All rounds run in one frame.
    refine (entered_inTandem he).bind fun k₁ frame hk₁ hframe => ?_
    refine rounds ((test.eval_inTandem hframe.env (hframe.sees htest)).bind
      fun k₂ condition hk₂ _ => ?_) limit
    have hframe₂ : T.child e k₂ frame := hframe.mono hk₂
    rw [Value.truthy_renamed]
    split
    · refine (body.run_inTandem hframe₂.env (hframe₂.sees hbody)).bind fun k₃ c _ hc => ?_
      exact pure c.endsLoop?_renamed fun _ hk => completion_endsLoop? (completion_mono hk hc)
    · exact pure rfl fun k _ ending hending => Option.some.inj hending ▸ completion_undefined k
  | .forLoop init test update body, k, e, he, hsees => by
    obtain ⟨hsees, hbody⟩ := sees_append.1 hsees
    obtain ⟨hsees, hupdate⟩ := sees_append.1 hsees
    obtain ⟨hinit, htest⟩ := sees_append.1 hsees
    rw [Stmt.run, Stmt.run]
    refine (entered_inTandem he).bind fun k₁ frame hk₁ hframe => ?_
    refine (init.run_inTandem hframe.env (hframe.sees hinit)).bind fun k₂ _ hk₂ _ => ?_
    have hframe₂ : T.child e k₂ frame := hframe.mono hk₂
    refine rounds ((evalTest_inTandem test hframe₂.env (hframe₂.sees htest)).bind
      fun k₃ goesOn hk₃ _ => ?_) limit
    have hframe₃ : T.child e k₃ frame := hframe₂.mono hk₃
    rw [renamed_bool]
    split
    · refine (body.run_inTandem hframe₃.env (hframe₃.sees hbody)).bind fun k₄ c hk₄ hc => ?_
      have hframe₄ : T.child e k₄ frame := hframe₃.mono hk₄
      rw [Completion.endsLoop?_renamed]
      cases hending : c.endsLoop? with
      | some ending =>
        refine pure rfl fun k₅ hk₅ other hother => ?_
        exact Option.some.inj hother ▸ completion_endsLoop? (completion_mono hk₅ hc) ending hending
      | none =>
        refine (evalOption_inTandem update hframe₄.env (hframe₄.sees hupdate)).bind
          fun _ _ _ _ => ?_
        refine pure rfl fun _ _ other hother => ?_
        cases hother
    · exact pure rfl fun k _ ending hending => Option.some.inj hending ▸ completion_undefined k
  | .forIn target object body, k, e, he, hsees => by
    obtain ⟨hsees, hbody⟩ := sees_append.1 hsees
    obtain ⟨htarget, hobject⟩ := sees_append.1 hsees
    rw [Stmt.run, Stmt.run]
    refine (object.eval_inTandem he hobject).bind fun k₁ v hk₁ hv => ?_
    refine (entered_inTandem (T.env_mono hk₁ he)).bind fun k₂ frame hk₂ hframe => ?_
    -- The keys are listed before the first round.
    have hkeys : T.InTandem k₂ (Action.read v.enumerableKeys)
        (Action.read (renamed T.rename v).enumerableKeys) anything :=
      read fun k' w w' hk hw => by
        rw [(T.reads hw).enumerableKeys (T.value_mono (hk₂.trans hk) hv), renamed_strings]
        exact ⟨rfl, trivial⟩
    refine hkeys.bind fun k₃ keys hk₃ _ => ?_
    rw [renamed_strings]
    have hframe₃ : T.child e k₃ frame := hframe.mono hk₃
    have hround : ∀ key ∈ keys, T.InTandem k₃
        (do
          target.bind call limit frame key
          let completion ← body.run call limit frame
          return completion.endsLoop?)
        (do
          target.bind call limit (renamed T.rename frame) key
          let completion ← body.run call limit (renamed T.rename frame)
          return completion.endsLoop?) (ofSome T.completion) := fun key _ => by
      refine (target.bind_inTandem hframe₃ htarget key).bind fun k₄ _ hk₄ _ => ?_
      have hframe₄ : T.child e k₄ frame := hframe₃.mono hk₄
      refine (body.run_inTandem hframe₄.env (hframe₄.sees hbody)).bind fun k₅ c _ hc => ?_
      exact pure c.endsLoop?_renamed fun _ hk => completion_endsLoop? (completion_mono hk hc)
    refine (firstAnswer hround).bind fun k₄ ending _ hending => ?_
    cases ending with
    | none => exact pure rfl fun k₅ _ => completion_undefined k₅
    | some c => exact pure rfl fun k₅ hk₅ => completion_mono hk₅ (hending c rfl)
  | .declare declarations, k, e, he, hsees => by
    rw [Stmt.run, Stmt.run]
    exact (runDeclarations_inTandem declarations he hsees).bind fun _ _ _ _ =>
      pure rfl fun k _ => completion_undefined k
  | .function code, k, e, he, hsees => by
    rw [Stmt.run, Stmt.run]
    exact (create_inTandem he (hsees _ (by simp [Stmt.mentions]))).bind fun _ _ _ hv =>
      pure rfl fun _ hk => T.value_mono hk hv

theorem runOption_inTandem : ∀ (s : Option Stmt) {k : Stage} {e : Env}, T.env k e →
    T.Sees e.root (optionStmtMentions s) →
    T.InTandem k (runOption call limit s e) (runOption call limit s (renamed T.rename e))
      T.completion
  | none, k, e, _, _ => by
    rw [runOption, runOption]
    exact pure rfl fun k _ => completion_undefined k
  | some s, k, e, he, hsees => by
    rw [runOption, runOption]
    refine (entered_inTandem he).bind fun k₁ inner hk₁ hinner => ?_
    exact s.run_inTandem hinner.env (hinner.sees hsees)

/-- Statements run one after another until one completes abruptly. -/
theorem runAll_inTandem : ∀ (body : List Stmt) (last : Value) {k : Stage} {e : Env}, T.env k e →
    T.Sees e.root (stmtsMentions body) → T.value k last →
    T.InTandem k (runAll call limit body e last)
      (runAll call limit body (renamed T.rename e) (renamed T.rename last)) T.completion
  | [], last, k, e, _, _, hlast => by
    rw [runAll, runAll]
    exact pure rfl fun _ hk => T.value_mono hk hlast
  | s :: rest, last, k, e, he, hsees, _ => by
    obtain ⟨hs, hrest⟩ := sees_append.1 hsees
    rw [runAll, runAll]
    refine (s.run_inTandem he hs).bind fun k₁ c hk₁ hc => ?_
    cases c with
    | normal v => exact runAll_inTandem rest v (T.env_mono hk₁ he) hrest hc
    | ret v => exact pure rfl fun _ hk => completion_mono hk hc
    | brk | cont => exact pure rfl fun _ _ => trivial

/-- Clauses are tried one after another until one ends the switch. -/
theorem runClauses_inTandem : ∀ (clauses : List (Option Expr × Option Stmt)) {k : Stage} {e : Env}
    (v : Value), T.env k e → T.Sees e.root (clausesMentions clauses) →
    T.InTandem k (runClauses call limit clauses v e)
      (runClauses call limit clauses (renamed T.rename v) (renamed T.rename e)) T.completion
  | [], k, e, v, _, _ => by
    rw [runClauses, runClauses]
    exact pure rfl fun k _ => completion_undefined k
  | (test, body) :: rest, k, e, v, he, hsees => by
    obtain ⟨hsees, hrest⟩ := sees_append.1 hsees
    obtain ⟨htest, hbody⟩ := sees_append.1 hsees
    rw [runClauses, runClauses]
    refine (clauseMatches_inTandem test v he htest).bind fun k₁ found hk₁ _ => ?_
    have he₁ : T.env k₁ e := T.env_mono hk₁ he
    rw [renamed_bool]
    split
    · -- Unless the clause ends the switch, the next one is tried.
      refine (runOption_inTandem body he₁ hbody).bind fun k₂ c hk₂ hc => ?_
      rw [Completion.endsSwitch?_renamed]
      cases hending : c.endsSwitch? with
      | some ending =>
        exact pure rfl fun _ hk => completion_endsSwitch? (completion_mono hk hc) ending hending
      | none => exact runClauses_inTandem rest v (T.env_mono hk₂ he₁) hrest
    · exact runClauses_inTandem rest v he₁ hrest

theorem clauseMatches_inTandem : ∀ (test : Option Expr) {k : Stage} {e : Env} (v : Value),
    T.env k e → T.Sees e.root (optionMentions test) →
    T.InTandem k (clauseMatches call limit test v e)
      (clauseMatches call limit test (renamed T.rename v) (renamed T.rename e)) anything
  | none, k, e, v, _, _ => by
    rw [clauseMatches, clauseMatches]
    exact pure rfl fun _ _ => trivial
  | some test, k, e, v, he, hsees => by
    rw [clauseMatches, clauseMatches]
    exact (test.eval_inTandem he hsees).bind fun _ candidate _ _ =>
      pure (Value.strictEquals_renamed T.injective v candidate) fun _ _ => trivial

theorem evalTest_inTandem : ∀ (test : Option Expr) {k : Stage} {e : Env}, T.env k e →
    T.Sees e.root (optionMentions test) →
    T.InTandem k (evalTest call limit test e) (evalTest call limit test (renamed T.rename e))
      anything
  | none, k, e, _, _ => by
    rw [evalTest, evalTest]
    exact pure rfl fun _ _ => trivial
  | some test, k, e, he, hsees => by
    rw [evalTest, evalTest]
    exact (test.eval_inTandem he hsees).bind fun _ v _ _ =>
      pure v.truthy_renamed fun _ _ => trivial

theorem runDeclarations_inTandem : ∀ (declarations : List (String × Option Expr)) {k : Stage}
    {e : Env}, T.env k e → T.Sees e.root (bindingsMentions declarations) →
    T.InTandem k (runDeclarations call limit declarations e)
      (runDeclarations call limit declarations (renamed T.rename e)) anything
  | [], k, e, _, _ => by
    rw [runDeclarations, runDeclarations]
    exact pure rfl fun _ _ => trivial
  | (name, init) :: rest, k, e, he, hsees => by
    obtain ⟨hname, hsees⟩ := sees_cons.1 hsees
    obtain ⟨hinit, hrest⟩ := sees_append.1 hsees
    rw [runDeclarations, runDeclarations]
    refine (evalOption_inTandem init he hinit).bind fun k₁ v hk₁ hv => ?_
    have he₁ : T.env k₁ e := T.env_mono hk₁ he
    refine (set_inTandem he₁ hv (.inl ⟨hname, by simp⟩)).bind fun k₂ _ hk₂ _ => ?_
    exact runDeclarations_inTandem rest (T.env_mono hk₂ he₁) hrest

theorem ForInit.run_inTandem : ∀ (init : ForInit) {k : Stage} {e : Env}, T.env k e →
    T.Sees e.root init.mentions →
    T.InTandem k (init.run call limit e) (init.run call limit (renamed T.rename e)) anything
  | .none, k, e, _, _ => by
    rw [ForInit.run, ForInit.run]
    exact pure rfl fun _ _ => trivial
  | .declare declarations, k, e, he, hsees => by
    rw [ForInit.run, ForInit.run]
    exact runDeclarations_inTandem declarations he hsees
  | .expr x, k, e, he, hsees => by
    rw [ForInit.run, ForInit.run]
    exact (x.eval_inTandem he hsees).bind fun _ _ _ _ => pure rfl fun _ _ => trivial

/-- The key of a loop is a text, and so the same in both runs. -/
theorem LoopTarget.bind_inTandem : ∀ (target : LoopTarget) {k : Stage} {e frame : Env},
    T.child e k frame → T.Sees e.root target.mentions →
    ∀ key : String, T.InTandem k (target.bind call limit frame key)
      (target.bind call limit (renamed T.rename frame) key) anything
  | .declare name, k, e, frame, hframe, _, key => by
    rw [LoopTarget.bind, LoopTarget.bind]
    exact set_inTandem hframe.env (T.value_of_plain rfl) (.inr hframe.1)
  | .assign target, k, e, frame, hframe, hsees, key => by
    rw [LoopTarget.bind, LoopTarget.bind]
    refine (target.place_inTandem hframe.env (hframe.sees hsees)).bind fun k₁ p _ hp => ?_
    exact write_inTandem hp (T.value_of_plain rfl)

end

end Code

end HostScript
