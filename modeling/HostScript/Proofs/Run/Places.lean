import HostScript.Proofs.Heap.Frames
import HostScript.Proofs.Run.Tandem

/-!
# Reads and writes in tandem

The smallest actions of code: looking a name up, defining it, entering a frame, reading and writing
a place, creating a function. Each keeps runs in tandem as long as it is given what code may hold.
-/

namespace HostScript.Tandem

open InTandem

variable {Stage : Type} [Preorder Stage] (T : Tandem Stage)

/-! ## What code may hold -/

/-- Code may mention all of a list in environments of a root. -/
def Sees (root : Addr) (mentions : List Mention) : Prop := ∀ m ∈ mentions, T.permits root m

/-- A place that code may read and write. -/
def place (k : Stage) : Place → Prop
  | .binding e name => T.env k e ∧ T.permits e.root (.name name)
  | .property object _ => T.value k object

def values (k : Stage) (vs : List Value) : Prop := ∀ v ∈ vs, T.value k v

def entries (k : Stage) (m : OrderedMap Value) : Prop := ∀ v ∈ m.values, T.value k v

/-- A frame that code has entered from an environment. -/
def child (e : Env) (k : Stage) (frame : Env) : Prop := T.entered k frame ∧ frame.root = e.root

/-- Updates that wait for an operator. -/
def updates (k : Stage) (pending : List (Place × UpdateOp)) : Prop :=
  ∀ update ∈ pending, T.place k update.1

variable {T} {k k' : Stage}

@[simp] theorem sees_nil (root : Addr) : T.Sees root [] := List.forall_mem_nil _

@[simp] theorem sees_cons {root : Addr} {m : Mention} {mentions : List Mention} :
    T.Sees root (m :: mentions) ↔ T.permits root m ∧ T.Sees root mentions := by
  simp [Sees]

@[simp] theorem sees_append {root : Addr} {first second : List Mention} :
    T.Sees root (first ++ second) ↔ T.Sees root first ∧ T.Sees root second := by
  simp [Sees, or_imp, forall_and]

/-- What code may hold at one stage it may hold at all later ones. -/
theorem place_mono (hk : k ≤ k') {p : Place} (hp : T.place k p) : T.place k' p := by
  cases p with
  | binding e name => exact ⟨T.env_mono hk hp.1, hp.2⟩
  | property object key => exact T.value_mono hk hp

theorem values_mono (hk : k ≤ k') {vs : List Value} (hvs : T.values k vs) : T.values k' vs :=
  fun v hv => T.value_mono hk (hvs v hv)

theorem entries_mono (hk : k ≤ k') {m : OrderedMap Value} (hm : T.entries k m) : T.entries k' m :=
  fun v hv => T.value_mono hk (hm v hv)

theorem updates_mono (hk : k ≤ k') {pending : List (Place × UpdateOp)}
    (hpending : T.updates k pending) : T.updates k' pending :=
  fun update hupdate => place_mono hk (hpending update hupdate)

theorem entries_insert {m : OrderedMap Value} {key : String} {v : Value} (hm : T.entries k m)
    (hv : T.value k v) : T.entries k (m.insert key v) := fun u hu => by
  rcases OrderedMap.mem_values_insert hu with hu | rfl
  · exact hm u hu
  · exact hv

theorem child.env {e frame : Env} (hchild : T.child e k frame) : T.env k frame :=
  T.env_of_entered hchild.1

theorem child.mono {e frame : Env} (hk : k ≤ k') (hchild : T.child e k frame) :
    T.child e k' frame :=
  ⟨T.entered_mono hk hchild.1, hchild.2⟩

/-- A frame that code has entered sees the mentions that its parent sees. -/
theorem child.sees {e frame : Env} {mentions : List Mention} (hchild : T.child e k frame)
    (hsees : T.Sees e.root mentions) : T.Sees frame.root mentions := by
  rw [hchild.2]
  exact hsees

/-! ## Names -/

/-- The owner of a name that code may see is the same in both runs, up to renaming. -/
theorem get_inTandem {e : Env} {name : String} (he : T.env k e)
    (hname : T.permits e.root (.name name)) :
    T.InTandem k (e.get name) ((renamed T.rename e).get name) T.value := by
  intro k' w w' hk hw
  have he' := T.env_mono hk he
  unfold Env.get
  rw [T.resolve hw he' (.inl hname)]
  cases hfound : e.resolve w.heap name with
  | none => exact .failed le_rfl hw
  | some v => exact .done le_rfl hw (T.value_of_resolve hw he' hfound)

/-- The receiver, or the type of a name, is undefined where no frame binds it. -/
theorem getD_resolve_inTandem {e : Env} {name : String} (he : T.env k e)
    (hname : T.permits e.root (.name name) ∨ name = receiverName) (f : Value → Value)
    (hf : ∀ k v, T.value k v → T.value k (f v))
    (hsame : ∀ v, f (renamed T.rename v) = renamed T.rename (f v)) :
    T.InTandem k (Action.read fun h => f ((e.resolve h name).getD .undefined))
      (Action.read fun h => f (((renamed T.rename e).resolve h name).getD .undefined)) T.value := by
  refine read fun k' w w' hk hw => ?_
  have he' := T.env_mono hk he
  rw [T.resolve hw he' hname]
  cases hfound : e.resolve w.heap name with
  | none => exact ⟨hsame .undefined, hf _ _ (T.value_of_plain rfl)⟩
  | some v => exact ⟨hsame v, hf _ _ (T.value_of_resolve hw he' hfound)⟩

/-- A name is defined in tandem if it is one that code may define there, or if the frame is one that
the code has entered itself. -/
theorem set_inTandem {e : Env} {binder : Binder} {name : String} {v : Value} (he : T.env k e)
    (hv : T.value k v)
    (hbinder : T.permits e.root (.name name) ∧ binder ∈ [.declaration, .function, .assignment] ∨
      T.entered k e) :
    T.InTandem k (e.set binder name v) ((renamed T.rename e).set binder name (renamed T.rename v))
      anything := by
  intro k' w w' hk hw
  obtain ⟨k'', hk', hw'⟩ := T.define (d := ⟨binder, e, name, v⟩) hw (T.env_mono hk he)
    (T.value_mono hk hv) (hbinder.imp_right (T.entered_mono hk))
  exact .done hk' hw' trivial

/-- The frames that two runs enter correspond from then on. -/
theorem entered_inTandem {e : Env} (he : T.env k e) :
    T.InTandem k e.entered (renamed T.rename e).entered (T.child e) := by
  refine change fun k' w w' hk hw => ?_
  obtain ⟨k'', hk', hw', hentered⟩ := T.enter hw (T.env_mono hk he)
  refine ⟨?_, k'', hk', hw', hentered, rfl⟩
  show (⟨w'.heap.size, T.rename e.root⟩ : Env) = ⟨T.rename w.heap.size, T.rename e.root⟩
  rw [T.fresh hw]

/-! ## Places -/

/-- A name leads to corresponding places, in the frame of its owner or in the frame itself. -/
theorem ofName_inTandem {e : Env} {name : String} (he : T.env k e)
    (hname : T.permits e.root (.name name)) :
    T.InTandem k (Action.read (Place.ofName e name))
      (Action.read (Place.ofName (renamed T.rename e) name)) T.place := by
  refine read fun k' w w' hk hw => ?_
  have he' := T.env_mono hk he
  unfold Place.ofName
  rw [T.owner hw he' hname]
  cases howner : e.ownerOf w.heap name with
  | none => exact ⟨rfl, he', hname⟩
  | some o =>
    refine ⟨rfl, T.env_of_owner hw he' howner, ?_⟩
    show T.permits o.root (.name name)
    rwa [(Env.mem_chain_of_ownerOf howner).2]

/-- What a property reads as is again something that code may hold. -/
theorem getProperty_inTandem {v : Value} {key : String} (hv : T.value k v) :
    T.InTandem k (Action.queryExcept fun h => some (v.getProperty h key))
      (Action.queryExcept fun h => some ((renamed T.rename v).getProperty h key)) T.value := by
  refine queryExcept fun k' w w' hk hw => ?_
  have hreads := T.reads hw
  have hv' := T.value_mono hk hv
  refine ⟨congrArg some (hreads.getProperty hv' key), fun found hfound => ?_⟩
  rcases Value.getProperty_eq_ok (Option.some.inj hfound) with
    hplain | ⟨a, rfl, hmem⟩ | ⟨a, rfl, hmem⟩
  · exact T.value_of_plain hplain
  · exact hreads.element hv' hmem
  · exact hreads.property hv' hmem

theorem read_inTandem {p : Place} (hp : T.place k p) :
    T.InTandem k p.read (renamed T.rename p).read T.value := by
  cases p with
  | binding e name => exact get_inTandem hp.1 hp.2
  | property object key => exact getProperty_inTandem hp

/-- Both runs write, or both are refused for the same reason. -/
theorem write_inTandem {p : Place} {v : Value} (hp : T.place k p) (hv : T.value k v) :
    T.InTandem k (p.write v) ((renamed T.rename p).write (renamed T.rename v)) anything := by
  cases p with
  | binding e name => exact set_inTandem hp.1 hv (.inl ⟨hp.2, by simp⟩)
  | property object key =>
    intro k' w w' hk hw
    have hobject : T.value k' object := T.value_mono hk hp
    have hv' : T.value k' v := T.value_mono hk hv
    -- How a property is written is told by the heap alone, and the two heaps tell it alike.
    have hwrites := (T.reads hw).writing key hobject hv'
    show T.Agree k' anything (Action.updateExcept (fun h => object.writing h key v) w)
      (Action.updateExcept
        (fun h => (renamed T.rename object).writing h key (renamed T.rename v)) w')
    unfold Action.updateExcept
    dsimp only
    generalize object.writing w.heap key v = first,
      (renamed T.rename object).writing w'.heap key (renamed T.rename v) = second at hwrites ⊢
    cases hwrites with
    | never => exact .exhausted
    | refused e => exact .failed le_rfl hw
    | object a htarget =>
      obtain ⟨k'', hk', hw'⟩ := T.setObject hw (htarget ▸ hobject) hv'
      exact .done hk' hw' trivial
    | array a f f' htarget hf hsame =>
      obtain ⟨k'', hk', hw'⟩ := T.setArray hw (htarget ▸ hobject) hv' hf hsame
      exact .done hk' hw' trivial

theorem readNumber_inTandem {p : Place} (hp : T.place k p) :
    T.InTandem k p.readNumber (renamed T.rename p).readNumber anything := by
  refine (read_inTandem hp).bind fun k' v _ hv =>
    query fun k'' w w' hk hw => ⟨?_, fun _ _ => trivial⟩
  rw [(T.reads hw).toNumber (T.value_mono hk hv)]
  exact (renamed_option_eq_self fun _ => rfl).symm

/-- An update reads a number and writes one, and numbers are the same in both runs. -/
theorem update_inTandem {p : Place} {op : UpdateOp} (hp : T.place k p) :
    T.InTandem k (p.update op) ((renamed T.rename p).update op) anything :=
  (readNumber_inTandem hp).bind fun _ _ hk _ =>
    (write_inTandem (place_mono hk hp) (T.value_of_plain rfl)).bind fun _ _ _ _ =>
      pure rfl fun _ _ => trivial

/-- Waiting updates are performed in tandem, by induction on those that wait. -/
theorem performAll_inTandem {pending : List (Place × UpdateOp)} (hpending : T.updates k pending) :
    T.InTandem k (performAll pending) (performAll (renamed T.rename pending)) anything := by
  induction pending generalizing k with
  | nil => exact pure rfl fun _ _ => trivial
  | cons update rest ih =>
    refine (update_inTandem (hpending update (by simp))).bind fun k' _ hk _ => ih ?_
    exact updates_mono hk fun update hupdate => hpending update (by simp [hupdate])

/-! ## Functions -/

/-- A new function is known by its address until it is bound. -/
local instance : Renamable Addr := ⟨fun ρ a => ρ a, fun _ => rfl⟩

/-- Two functions created in tandem correspond, and are bound to their name if they have one. -/
theorem create_inTandem {code : FunctionCode} {e : Env} (he : T.env k e)
    (hcode : T.permits e.root (.function code)) :
    T.InTandem k (code.create e) (code.create (renamed T.rename e)) T.value := by
  have halloc : T.InTandem k (Action.change (·.alloc (.function ⟨code, e⟩)))
      (Action.change (·.alloc (.function ⟨code, renamed T.rename e⟩)))
      fun k addr => T.value k (.function addr) := by
    refine change fun k' w w' hk hw => ⟨?_, ?_⟩
    · exact (T.fresh hw).symm
    · exact T.newFunction (c := ⟨code, e⟩) hw (T.env_mono hk he) hcode
  refine halloc.bind fun k' addr hk haddr => ?_
  -- The name of a function is defined in the frame where it is created, before anything calls it.
  cases hname : code.name with
  | none => exact pure rfl fun _ hk' => T.value_mono hk' haddr
  | some name =>
    have hpermits : T.permits e.root (.name name) := T.permits_name hcode hname
    refine (set_inTandem (T.env_mono hk he) haddr (.inl ⟨hpermits, by simp⟩)).bind ?_
    exact fun k'' _ hk' _ => pure rfl fun _ hk'' => T.value_mono (hk'.trans hk'') haddr

end HostScript.Tandem
