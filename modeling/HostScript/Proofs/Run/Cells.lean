import HostScript.Proofs.Heap.Definitions
import HostScript.Proofs.Number.Count
import HostScript.Proofs.Run.Outcome
import HostScript.Proofs.Value.Alike
import HostScript.Proofs.Value.Writing

/-!
# Places are cells

A place reads as what was last written there, and a write to one place leaves all others as they
are. Two places are the same cell if they are one property of one array or object, or one name that
is looked up in one frame, however far out. Only the length of an array and its indices touch each
other, where the array grows or is cut off.

* `Place.content`: what a place reads as.
* `Place.Touches`: the places that a write may change.
* `Place.Keeps`: what a place reads as once it has been written.
* `Env.Assigned`: what the assignment of a name changes.
* `places_are_independent_cells`: writes do this, and failing ones nothing at all.
-/

namespace HostScript

/-- Definitions do not concern arrays, objects and functions. -/
theorem Heap.alike_define (h : Heap) (env : Env) (name : String) (value : Value) :
    h.Alike (env.define h name value) := by
  refine Heap.alike_of_cells (h.size_modifyFrame env.frame _) fun a => ?_
  rw [Env.define, Heap.cell_modifyFrame]
  split
  · cases h.cell a with
    | frame f => exact .inr ⟨f, _, rfl, rfl⟩
    | _ => exact .inl rfl
  · exact .inl rfl

/-! ## Places -/

namespace Place

/-- What a place reads as. -/
def content (h : Heap) : Place → Except EvalError Value
  | binding env name =>
    match env.resolve h name with
    | some value => .ok value
    | none => .error (.unresolved name)
  | property object key => object.getProperty h key

/-- Reading a place ends at once with its content, and changes nothing. -/
theorem read_eq (p : Place) (w : World) :
    p.read w = match p.content w.heap with
      | .ok value => .done value w
      | .error e => .failed e w := by
  cases p with
  | binding env name =>
    rw [read, content, Env.get]
    cases env.resolve w.heap name <;> rfl
  | property object key =>
    rw [read, content, Action.queryExcept]
    cases object.getProperty w.heap key <;> rfl

/-- The frame, the array or the object of a place is there. Other values have no properties that
could be written. -/
def IsThere (h : Heap) : Place → Prop
  | binding env _ => ∃ f, h.cell env.frame = .frame f
  | property (.array a) _ => ∃ elements, h.cell a = .array elements
  | property (.object a) _ => ∃ properties, h.cell a = .object properties
  | property _ _ => True

/-- What a place reads as once a value has been written to it: this value, and of the `length` of an
array the number that the value converts to. A length has no sign. -/
inductive Keeps (h : Heap) (v : Value) : Place → Value → Prop where
  | binding {env : Env} {name : String} : Keeps h v (.binding env name) v
  | property {object : Value} {key : String} (hlength : ∀ a, object = .array a → key ≠ "length") :
    Keeps h v (.property object key) v
  | length {a : Addr} {n : Float} (hn : v.toNumber h = some n) (hzero : n ≠ Number.zero true) :
    Keeps h v (.property (.array a) "length") (.number n)
  | minusZero {a : Addr} (hn : v.toNumber h = some (Number.zero true)) :
    Keeps h v (.property (.array a) "length") (.number (Number.zero false))

/-- The places that writing a value to the first place may change: those that are the same cell,
the length of an array that grows, and the indices of an array that are cut off. -/
inductive Touches (h : Heap) (v : Value) : Place → Place → Prop where
  | sameName {env other : Env} {name : String} (hreaches : other.Reaches h env.frame name) :
    Touches h v (.binding env name) (.binding other name)
  | sameKey {object : Value} {key : String} :
    Touches h v (.property object key) (.property object key)
  | grown {a : Addr} {key : String} {index : Nat} (hindex : arrayIndex? key = some index)
    (hbeyond : (h.array a).size ≤ index) :
    Touches h v (.property (.array a) key) (.property (.array a) "length")
  | cutOff {a : Addr} {n : Float} {length index : Nat} {key : String}
    (hn : v.toNumber h = some n) (hlength : Value.arrayLength? n = some length)
    (hindex : arrayIndex? key = some index) (hinside : index < (h.array a).size)
    (hbeyond : length ≤ index) :
    Touches h v (.property (.array a) "length") (.property (.array a) key)

/-- A write has stored its value and changed nothing that it does not touch. -/
structure Written (p : Place) (v : Value) (h h' : Heap) : Prop where
  isThere : p.IsThere h'
  self : ∃ kept, p.Keeps h v kept ∧ p.content h' = .ok kept
  others : ∀ q, ¬ Touches h v p q → q.content h' = q.content h

variable {h : Heap} {v : Value}

/-- The definition of a name reaches exactly the look-ups that come to its frame first. -/
theorem written_binding {env : Env} {f : Frame} (hcell : h.cell env.frame = .frame f)
    (name : String) : Written (.binding env name) v h (env.define h name v) := by
  have hafter : (env.define h name v).cell env.frame = .frame (f.define name v) := by
    rw [Env.define, Heap.cell_modifyFrame, if_pos rfl, hcell]
  refine ⟨⟨_, hafter⟩, ⟨v, .binding, ?_⟩, fun q hq => ?_⟩
  · rw [content, Env.resolve_define_of_reaches hcell (env.reaches_self h name)]
  · cases q with
    | binding other x =>
      have hmissed : x = name → ¬ other.Reaches h env.frame name := by
        rintro rfl hreaches
        exact hq (.sameName hreaches)
      rw [content, content, Env.resolve_define_of_not_reaches hmissed]
    | property object key => exact (h.alike_define env name v).getProperty object key

/-- Changes of arrays and objects do not concern names. -/
theorem content_binding_of_sameScopes {h' : Heap} (hsame : h.SameScopes h') (env : Env)
    (name : String) : (binding env name).content h' = (binding env name).content h := by
  have hchain : h'.chain env.frame = h.chain env.frame :=
    Heap.chain_congr (P := fun _ => True) (fun _ _ _ _ => trivial)
      (fun a _ => by rw [hsame.frame]) trivial
  rw [content, content, Env.resolve_congr hchain fun a _ => by rw [hsame.frame]]

/-- A write to an object touches one property of it. -/
theorem written_object {a : Addr} {properties : OrderedMap Value}
    (hcell : h.cell a = .object properties) (key : String) :
    Written (.property (.object a) key) v h (h.modifyObject a (·.insert key v)) := by
  have hafter : (h.modifyObject a (·.insert key v)).cell a = .object (properties.insert key v) := by
    rw [Heap.modifyObject, Heap.cell_modifyCell_self h a _ rfl, hcell]
  refine ⟨⟨_, hafter⟩, ⟨v, .property (fun _ ha => by cases ha), ?_⟩, fun q hq => ?_⟩
  · rw [content, Value.getProperty_insert hcell, if_pos rfl]
  -- Names are looked up as before, and only this object has changed.
  · cases q with
    | binding env name =>
      exact content_binding_of_sameScopes
        (.modifyCell h a (Cell.changesContents_object (·.insert key v))) env name
    | property object other =>
      rw [content, content]
      by_cases hobject : object = .object a
      · subst hobject
        have hkey : other ≠ key := by
          rintro rfl
          exact hq .sameKey
        rw [Value.getProperty_insert hcell, if_neg hkey]
      · exact Value.getProperty_modifyObject_of_ne _ hobject other

/-- The length that an array gets is the number it is given. -/
theorem keeps_length {a : Addr} {n : Float} {length : Nat} (hn : v.toNumber h = some n)
    (hlength : Value.arrayLength? n = some length) :
    Keeps h v (.property (.array a) "length") (.number (Number.ofNat length)) := by
  have hwhole : Number.toInt? n = some (length : Int) := by
    unfold Value.arrayLength? at hlength
    split at hlength
    · next heq =>
      obtain ⟨-, ⟨⟩⟩ := Option.ite_none_right_eq_some.1 hlength
      exact heq
    · cases hlength
  -- A length is a whole number, which determines the float but for the sign of zero.
  by_cases hzero : n = Number.zero true
  · have hnone : Number.toInt? (Number.zero true) = some 0 := by decide
    rw [hzero, hnone] at hwhole
    obtain rfl : length = 0 := by have := Option.some.inj hwhole; omega
    exact .minusZero (hzero ▸ hn)
  · rw [← (Number.eq_ofNat_or_minusZero hwhole).resolve_right hzero]
    exact .length hn hzero

/-- A write to an array touches its length if the array grows, and the indices that it cuts off. -/
theorem written_array {a : Addr} {elements : Array Value} (hcell : h.cell a = .array elements)
    {key : String} {f : Array Value → Array Value}
    (hwrite : ArrayWrite h elements key v (f elements)) :
    Written (.property (.array a) key) v h (h.modifyArray a f) := by
  have hbefore : h.array a = elements := by rw [Heap.array, hcell]
  have hafter : (h.modifyArray a f).cell a = .array (f elements) := by
    rw [Heap.modifyArray, Heap.cell_modifyCell_self h a _ rfl, hcell]
  refine ⟨⟨_, hafter⟩, ?_, fun q hq => ?_⟩
  · rw [content, Value.getProperty_array, h.array_modifyArray_self a f hcell]
    -- The key itself: either an element or the length.
    rcases hwrite.arrayProperty_self with ⟨hkey, hvalue⟩ | ⟨rfl, n, length, hn, hlength, hvalue⟩
    · exact ⟨v, .property fun _ _ => hkey, by rw [hvalue]⟩
    · exact ⟨_, keeps_length hn hlength, by rw [hvalue]⟩
  · cases q with
    | binding env name =>
      exact content_binding_of_sameScopes
        (.modifyCell h a (Cell.changesContents_array f)) env name
    | property object other =>
      rw [content, content]
      by_cases hobject : object = .array a
      · subst hobject
        rw [Value.getProperty_array, Value.getProperty_array, h.array_modifyArray_self a f hcell,
          hbefore, hwrite.arrayProperty_of_ne]
        · rintro rfl
          exact hq .sameKey
        -- Another key of this array reads differently only in the two ways that `Touches` lists.
        · rintro rfl index hindex
          by_contra hbeyond
          exact hq (.grown hindex (by rw [hbefore]; omega))
        · rintro rfl n length index hn hlength hindex hinside
          by_contra hbeyond
          exact hq (.cutOff hn hlength hindex (by rwa [hbefore]) (by omega))
      · exact Value.getProperty_modifyArray_of_ne f hobject other

/-- A write that succeeds stores its value and changes no other cell. -/
theorem written_of_write {p : Place} {w w' : World} (hp : p.IsThere w.heap)
    (hwrite : p.write v w = .done () w') : Written p v w.heap w'.heap := by
  cases p with
  | binding env name =>
    obtain ⟨f, hcell⟩ := hp
    cases hwrite
    exact written_binding hcell name
  | property object key =>
    rw [write, Action.updateExcept] at hwrite
    split at hwrite
    -- A change that fails, or does not come about, is no write.
    case h_2 | h_3 => cases hwrite
    rename_i change hchange
    cases hwrite
    cases object with
    | object a =>
      obtain ⟨properties, hcell⟩ := hp
      cases hchange
      exact written_object hcell key
    | array a =>
      obtain ⟨elements, hcell⟩ := hp
      obtain ⟨f, rfl, harray⟩ := Value.writing_array_eq_ok hchange
      have hbefore : w.heap.array a = elements := by rw [Heap.array, hcell]
      exact written_array hcell (hbefore ▸ harray)
    | _ => cases hchange

/-- A write that fails changes nothing. -/
theorem world_of_write_failed {p : Place} {w w' : World} {e : EvalError}
    (hwrite : p.write v w = .failed e w') : w' = w := by
  cases p with
  | binding env name => cases hwrite
  | property object key =>
    rw [write, Action.updateExcept] at hwrite
    split at hwrite
    case h_2 => cases hwrite; rfl
    case h_1 | h_3 => cases hwrite

end Place

/-! ## The assignment of a name -/

/-- A name has been assigned from `env` on, in the frame of `owner`. -/
structure Env.Assigned (env owner : Env) (name : String) (v : Value) (h h' : Heap) : Prop where
  resolves : env.resolve h' name = some v
  bindings : h'.frame owner.frame = (h.frame owner.frame).define name v
  elsewhere : ∀ a, a ≠ owner.frame → h'.cell a = h.cell a
  ancestors : ∀ p, (h.frame owner.frame).parent = some p → ∀ a, h.Outwards p a →
    h'.cell a = h.cell a

/-- The owner of a name is a frame of the same stack, so what is assigned stays grounded. -/
theorem Env.grounded_owner {h : Heap} {env : Env} (hg : h.Grounded env.root env.frame)
    (name : String) : h.Grounded env.root ((env.ownerOf h name).getD env).frame := by
  cases howner : env.ownerOf h name with
  | none => exact hg
  | some owner => exact hg.of_outwards (hg.mem_chain_iff.1 (mem_chain_of_ownerOf howner).1)

/-- Writing to the place of a name assigns the name, in the frame that owns it or, without one, in
the current frame. -/
theorem Env.assigned_define {h : Heap} {env : Env} (hg : h.Grounded env.root env.frame)
    (name : String) (v : Value) :
    env.Assigned ((env.ownerOf h name).getD env) name v h
      (((env.ownerOf h name).getD env).define h name v) := by
  have howner := grounded_owner hg name
  have hreaches := reaches_owner env h name
  generalize (env.ownerOf h name).getD env = owner at howner hreaches
  have helsewhere : ∀ a, a ≠ owner.frame → (owner.define h name v).cell a = h.cell a :=
    fun a ha => Heap.cell_modifyCell_of_ne h _ ha
  refine ⟨resolve_define_of_reaches howner.cell hreaches, ?_, helsewhere, fun p hp a ha => ?_⟩
  · rw [define, Heap.frame_modifyFrame_self h _ howner.cell]
  · obtain ⟨hgp, hlt⟩ := howner.parent hp
    exact helsewhere a (Nat.ne_of_lt (Nat.lt_of_le_of_lt (hgp.le_of_outwards ha) hlt))

/-- A write to a place that is there stores its value, so that the place reads as it, and leaves
what all places read as that are other cells; one that fails leaves everything as it was. Writing
to the place of a name makes the name resolve to the value, changes what one frame itself binds, and
leaves the frames outside of this one. -/
theorem places_are_independent_cells {w : World} {p : Place} (hp : p.IsThere w.heap) (v : Value)
    (env : Env) (hg : w.heap.Grounded env.root env.frame) (name : String) :
    (∀ w', p.write v w = .done () w' →
        (∃ kept, p.Keeps w.heap v kept ∧ p.read w' = .done kept w') ∧
          ∀ q, ¬ Place.Touches w.heap v p q → q.content w'.heap = q.content w.heap) ∧
      (∀ e w', p.write v w = .failed e w' → w' = w) ∧
      ∃ owner w', Place.ofName env name w.heap = .binding owner name ∧
        (Place.ofName env name w.heap).write v w = .done () w' ∧
        env.Assigned owner name v w.heap w'.heap := by
  refine ⟨fun w' hwrite => ?_, fun e w' => Place.world_of_write_failed, ?_⟩
  · obtain ⟨-, ⟨kept, hkeeps, hcontent⟩, hothers⟩ := Place.written_of_write hp hwrite
    refine ⟨⟨kept, hkeeps, ?_⟩, hothers⟩
    rw [Place.read_eq, hcontent]
  · exact ⟨(env.ownerOf w.heap name).getD env, _, rfl, rfl, Env.assigned_define hg name v⟩

/-- A child frame over a root frame, both of which bind `x`. -/
def shadowing : World where
  heap := { cells := #[
    .frame { bindings := .ofList [("x", .number 1)], host := some ∅ },
    .frame { bindings := .ofList [("x", .number 2)], parent := some 0 }] }

theorem shadowing_grounded : shadowing.heap.Grounded 0 1 :=
  .child rfl rfl rfl (by decide) (.root rfl rfl rfl)

/-- The frames of a chain and the one behind them are cells of their own. -/
theorem inner_write_spares_outer_binding :
    ∃ w', (Place.binding ⟨1, 0⟩ "x").write (.number 7) shadowing = .done () w' ∧
      (Place.binding ⟨1, 0⟩ "x").read w' = .done (.number 7) w' ∧
      (Place.binding ⟨0, 0⟩ "x").content w'.heap =
        (Place.binding ⟨0, 0⟩ "x").content shadowing.heap ∧
      ∃ owner w'', (Place.ofName ⟨1, 0⟩ "x" shadowing.heap).write (.number 7) shadowing =
        .done () w'' ∧ Env.Assigned ⟨1, 0⟩ owner "x" (.number 7) shadowing.heap w''.heap := by
  obtain ⟨hwritten, -, owner, w'', -, hwrite, hassigned⟩ :=
    places_are_independent_cells (w := shadowing) (p := .binding ⟨1, 0⟩ "x") ⟨_, rfl⟩ (.number 7)
      ⟨1, 0⟩ shadowing_grounded "x"
  obtain ⟨⟨kept, hkeeps, hread⟩, hothers⟩ := hwritten _ rfl
  refine ⟨_, rfl, ?_, hothers _ ?_, owner, w'', hwrite, hassigned⟩
  · cases hkeeps
    exact hread
  · rintro (⟨before, after, hchain, -⟩ | _)
    have hmem : 1 ∈ shadowing.heap.chain 0 := by
      rw [hchain]
      simp
    revert hmem
    decide

/-- The `length` of an array need not read as the number it was given: minus zero loses its sign. -/
theorem length_loses_sign :
    ¬ ∀ (w w' : World) (a : Addr) (v : Value) (n : Float),
      (Place.property (.array a) "length").IsThere w.heap → v.toNumber w.heap = some n →
      (Place.property (.array a) "length").write v w = .done () w' →
      (Place.property (.array a) "length").read w' = .done (.number n) w' := by
  intro h
  have hread := h { heap := { cells := #[.array #[]] } } _ 0 (.number (Number.zero true)) _
    ⟨_, rfl⟩ rfl rfl
  have hnumber : Number.zero false = Number.zero true := Value.number.inj (Outcome.done.inj hread).1
  exact absurd (Float.toBits_inj.2 hnumber) (by decide)

end HostScript
