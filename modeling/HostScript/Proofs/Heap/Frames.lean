import Mathlib.Data.List.Find
import HostScript.Heap.Environment

/-!
# Frames under change

Look-ups see a frame's parent and what the frames of a chain bind to one name, and nothing else of
the heap. So they agree in heaps that agree on this (`resolve_congr`, `ownerOf_congr`). A name that
resolves has an owner in the chain, which binds it to just that value (`isSome_ownerOf`,
`lookup_of_ownerOf`).

`Cell.Indistinct` relates cells that no look-up and no property access can tell apart. Definitions
keep it (`indistinct_defineAll`), so look-ups in heaps of indistinct cells agree for good.
-/

namespace HostScript

/-! ## Cells after a change -/

/-- After a definition the name has the new value, even if the host layer binds it too. -/
theorem Frame.lookup_define (f : Frame) (name other : String) (value : Value) :
    (f.define name value).lookup other = if other = name then some value else f.lookup other := by
  rw [lookup, define, OrderedMap.get?_insert]
  split <;> rfl

namespace Heap

variable (h : Heap)

/-- A change of a frame is one of its cell, if a frame is there. -/
theorem cell_modifyFrame (a : Addr) (f : Frame → Frame) (b : Addr) :
    (h.modifyFrame a f).cell b =
      if b = a then
        match h.cell b with
        | .frame frame => .frame (f frame)
        | cell => cell
      else h.cell b := by
  by_cases hba : b = a
  · subst hba
    rw [if_pos rfl]
    exact cell_modifyCell_self h b _ rfl
  · rw [if_neg hba]
    exact cell_modifyCell_of_ne h _ hba

theorem frame_modifyFrame_of_ne {a b : Addr} (f : Frame → Frame) (hba : b ≠ a) :
    (h.modifyFrame a f).frame b = h.frame b := by
  rw [frame, cell_modifyFrame, if_neg hba, frame]

theorem frame_modifyFrame_self {a : Addr} {frame : Frame} (f : Frame → Frame)
    (ha : h.cell a = .frame frame) : (h.modifyFrame a f).frame a = f frame := by
  rw [Heap.frame, cell_modifyFrame, if_pos rfl, ha]

theorem closure?_modifyFrame (a : Addr) (f : Frame → Frame) (b : Addr) :
    (h.modifyFrame a f).closure? b = h.closure? b := by
  unfold closure?
  rw [cell_modifyFrame]
  by_cases hba : b = a
  · rw [if_pos hba]
    cases h.cell b <;> rfl
  · rw [if_neg hba]

theorem frame_alloc_self (frame : Frame) : (h.alloc (.frame frame)).2.frame h.size = frame := by
  rw [Heap.frame, cell_alloc, if_pos rfl]

theorem frame_alloc_of_ne (c : Cell) {a : Addr} (ha : a ≠ h.size) :
    (h.alloc c).2.frame a = h.frame a := by
  rw [frame, cell_alloc, if_neg ha, frame]

theorem closure?_alloc_of_ne (c : Cell) {a : Addr} (ha : a ≠ h.size) :
    (h.alloc c).2.closure? a = h.closure? a := by
  rw [closure?, cell_alloc, if_neg ha, closure?]

@[simp] theorem size_modifyFrame (a : Addr) (f : Frame → Frame) :
    (h.modifyFrame a f).size = h.size :=
  size_modifyCell h a _

/-- A frame that binds something is there. -/
theorem cell_of_lookup {h : Heap} {a : Addr} {name : String} {value : Value}
    (hv : (h.frame a).lookup name = some value) : h.cell a = .frame (h.frame a) := by
  unfold frame at hv ⊢
  cases hcell : h.cell a with
  | frame f => rfl
  | _ =>
    rw [hcell] at hv
    cases hv

/-- A change that keeps the parent of a frame keeps all parents. -/
theorem parent_modifyFrame (a : Addr) {f : Frame → Frame}
    (hf : ∀ frame, (f frame).parent = frame.parent) (b : Addr) :
    ((h.modifyFrame a f).frame b).parent = (h.frame b).parent := by
  by_cases hba : b = a
  · subst hba
    unfold frame
    rw [cell_modifyFrame, if_pos rfl]
    cases h.cell b <;> simp [hf]
  · rw [frame_modifyFrame_of_ne h f hba]

end Heap

/-! ## Changes that do not concern frames

Arrays and objects come and change without any look-up noticing. -/

/-- The second heap has the frames and the functions of scripts of the first, and no others. -/
structure Heap.SameScopes (h h' : Heap) : Prop where
  frames : ∀ a f, h'.cell a = .frame f ↔ h.cell a = .frame f
  functions : ∀ a c, h'.cell a = .function c ↔ h.cell a = .function c

/-- A change of a cell that changes what an array or an object holds and nothing else. -/
def Cell.ChangesContents (f : Cell → Cell) : Prop :=
  ∀ c, f c = c ∨ (∃ xs ys, c = .array xs ∧ f c = .array ys) ∨
    ∃ m n, c = .object m ∧ f c = .object n

namespace Cell

/-- A change of elements is one of contents. -/
theorem changesContents_array (f : Array Value → Array Value) :
    ChangesContents fun
      | .array elements => .array (f elements)
      | c => c := fun c => by
  cases c with
  | array xs => exact .inr (.inl ⟨xs, _, rfl, rfl⟩)
  | _ => exact .inl rfl

theorem changesContents_object (f : OrderedMap Value → OrderedMap Value) :
    ChangesContents fun
      | .object properties => .object (f properties)
      | c => c := fun c => by
  cases c with
  | object m => exact .inr (.inr ⟨m, _, rfl, rfl⟩)
  | _ => exact .inl rfl

theorem ChangesContents.released {f : Cell → Cell} (hf : ChangesContents f) :
    f .released = .released := by
  rcases hf .released with h | ⟨xs, ys, ⟨⟩, -⟩ | ⟨m, n, ⟨⟩, -⟩
  exact h

/-- A cell of any other kind is as it was. -/
theorem ChangesContents.eq_iff {f : Cell → Cell} (hf : ChangesContents f) {c d : Cell}
    (harray : ∀ xs, d ≠ .array xs) (hobject : ∀ m, d ≠ .object m) : f c = d ↔ c = d := by
  rcases hf c with h | ⟨xs, ys, h, h'⟩ | ⟨m, n, h, h'⟩
  · rw [h]
  · rw [h']
    exact ⟨fun hd => absurd hd.symm (harray ys), fun hd => absurd (h ▸ hd.symm) (harray xs)⟩
  · rw [h']
    exact ⟨fun hd => absurd hd.symm (hobject n), fun hd => absurd (h ▸ hd.symm) (hobject m)⟩

end Cell

namespace Heap

variable {h h' : Heap}

/-- A frame is what its cell says it is. -/
theorem frame_congr {a : Addr} (hframe : ∀ f, h'.cell a = .frame f ↔ h.cell a = .frame f) :
    h'.frame a = h.frame a := by
  unfold frame
  cases hc : h.cell a with
  | frame f => rw [(hframe f).2 hc]
  | _ =>
    cases hc' : h'.cell a with
    | frame f =>
      rw [(hframe f).1 hc'] at hc
      cases hc
    | _ => rfl

/-- Frames are the same, and so is what look-ups see. -/
theorem SameScopes.frame (hsame : h.SameScopes h') (a : Addr) : h'.frame a = h.frame a :=
  frame_congr (hsame.frames a)

theorem SameScopes.closure (hsame : h.SameScopes h') (a : Addr) :
    h'.closure? a = h.closure? a := by
  unfold closure?
  cases hc : h.cell a with
  | function c => rw [(hsame.functions a c).2 hc]
  | _ =>
    cases hc' : h'.cell a with
    | function c =>
      rw [(hsame.functions a c).1 hc'] at hc
      cases hc
    | _ => rfl

theorem SameScopes.refl (h : Heap) : h.SameScopes h := ⟨fun _ _ => .rfl, fun _ _ => .rfl⟩

/-- A new array or object is no frame and no function. -/
theorem SameScopes.alloc (h : Heap) {c : Cell} (hframe : ∀ f, c ≠ .frame f)
    (hfunction : ∀ f, c ≠ .function f) : h.SameScopes (h.alloc c).2 := by
  have hfree : h.cell h.size = .released := cell_eq_released_of_size_le (Nat.le_refl _)
  refine ⟨fun a f => ?_, fun a f => ?_⟩
  · rw [cell_alloc]
    split
    · next ha => simp [ha, hfree, hframe]
    · exact .rfl
  · rw [cell_alloc]
    split
    · next ha => simp [ha, hfree, hfunction]
    · exact .rfl

/-- A change of contents makes no frame of another cell, nor another cell of a frame. -/
theorem SameScopes.modifyCell (h : Heap) (a : Addr) {f : Cell → Cell}
    (hf : Cell.ChangesContents f) : h.SameScopes (h.modifyCell a f) := by
  have hsame : ∀ (b : Addr) (d : Cell), (∀ xs, d ≠ .array xs) → (∀ m, d ≠ .object m) →
      ((h.modifyCell a f).cell b = d ↔ h.cell b = d) := fun b d harray hobject => by
    by_cases hba : b = a
    · rw [hba, cell_modifyCell_self h a f hf.released]
      exact hf.eq_iff harray hobject
    · rw [cell_modifyCell_of_ne h f hba]
  exact ⟨fun b g => hsame b _ (by simp) (by simp), fun b c => hsame b _ (by simp) (by simp)⟩

end Heap

/-! ## Look-ups along a chain -/

section Chains

variable {h h' : Heap} {P : Addr → Prop}

/-- A property that frames hand on to their parents holds all along a chain. -/
theorem Heap.forall_mem_chainUpTo (hparent : ∀ a, P a → ∀ p, (h.frame a).parent = some p → P p) :
    ∀ (count : Nat) (a : Addr), P a → ∀ b ∈ h.chainUpTo count a, P b := by
  intro count
  induction count with
  | zero => intro a _ b hb; simp [Heap.chainUpTo] at hb
  | succ count ih =>
    intro a ha b hb
    simp only [Heap.chainUpTo] at hb
    split at hb
    · next p hp =>
      rcases List.mem_cons.1 hb with rfl | hb
      · exact ha
      · exact ih p (hparent a ha p hp) b hb
    · rw [List.mem_singleton.1 hb]
      exact ha

/-- What parents pass on holds along the whole chain. -/
theorem Heap.forall_mem_chain (hparent : ∀ a, P a → ∀ p, (h.frame a).parent = some p → P p)
    {a : Addr} (ha : P a) : ∀ b ∈ h.chain a, P b :=
  Heap.forall_mem_chainUpTo hparent (a + 1) a ha

/-- Chains are the same where parents are, by induction on their length. -/
theorem Heap.chainUpTo_congr (hparent : ∀ a, P a → ∀ p, (h.frame a).parent = some p → P p)
    (hsame : ∀ a, P a → (h'.frame a).parent = (h.frame a).parent) :
    ∀ (count : Nat) (a : Addr), P a → h'.chainUpTo count a = h.chainUpTo count a := by
  intro count
  induction count with
  | zero => exact fun a _ => rfl
  | succ count ih =>
    intro a ha
    simp only [Heap.chainUpTo, hsame a ha]
    cases hp : (h.frame a).parent with
    | none => rfl
    | some p => simp only [ih p (hparent a ha p hp)]

theorem Heap.chain_congr (hparent : ∀ a, P a → ∀ p, (h.frame a).parent = some p → P p)
    (hsame : ∀ a, P a → (h'.frame a).parent = (h.frame a).parent) {a : Addr} (ha : P a) :
    h'.chain a = h.chain a :=
  Heap.chainUpTo_congr hparent hsame (a + 1) a ha

/-- Where parents are older, no chain is cut short. -/
theorem Heap.chainUpTo_eq_chain
    (hparent : ∀ a, P a → ∀ p, (h.frame a).parent = some p → P p ∧ p < a) :
    ∀ (a : Addr), P a → ∀ count, a < count → h.chainUpTo count a = h.chain a := by
  intro a
  induction a using Nat.strongRecOn with
  | ind a ih =>
    intro ha count hcount
    obtain ⟨count, rfl⟩ : ∃ n, count = n + 1 :=
      Nat.exists_eq_succ_of_ne_zero (Nat.ne_zero_of_lt hcount)
    simp only [chain, chainUpTo]
    cases hp : (h.frame a).parent with
    | none => rfl
    | some p =>
      obtain ⟨hP, hlt⟩ := hparent a ha p hp
      -- The parent is older, so both counts are enough for its chain.
      have hpcount : p < count := Nat.lt_of_lt_of_le hlt (Nat.le_of_lt_succ hcount)
      dsimp only
      rw [ih p hlt hP count hpcount, ih p hlt hP a hlt]

/-- Where parents are older, a chain goes on with the chain of the parent. -/
theorem Heap.chain_of_parent (hparent : ∀ a, P a → ∀ p, (h.frame a).parent = some p → P p ∧ p < a)
    {a p : Addr} (ha : P a) (hp : (h.frame a).parent = some p) : h.chain a = a :: h.chain p := by
  obtain ⟨hP, hlt⟩ := hparent a ha p hp
  rw [chain, chainUpTo, hp]
  dsimp only
  rw [chainUpTo_eq_chain hparent p hP a hlt]

theorem Heap.chain_of_no_parent {a : Addr} (hp : (h.frame a).parent = none) : h.chain a = [a] := by
  rw [chain, chainUpTo, hp]

theorem findSome?_congr {α β : Type} {f g : α → Option β} {l : List α}
    (hfg : ∀ a ∈ l, f a = g a) : l.findSome? f = l.findSome? g := by
  induction l with
  | nil => rfl
  | cons a rest ih =>
    rw [List.findSome?_cons, List.findSome?_cons, hfg a (by simp),
      ih fun b hb => hfg b (by simp [hb])]

namespace Env

variable {env : Env} {name : String}

/-- A name resolves alike in heaps in which its chain and what the chain binds to it are the
same. -/
theorem resolve_congr (hchain : h'.chain env.frame = h.chain env.frame)
    (hlookup : ∀ a ∈ h.chain env.frame, (h'.frame a).lookup name = (h.frame a).lookup name) :
    env.resolve h' name = env.resolve h name := by
  rw [resolve, resolve, hchain]
  exact findSome?_congr hlookup

/-- A name has the same owner in heaps in which its chain and what the chain binds to it are the
same. -/
theorem ownerOf_congr (hchain : h'.chain env.frame = h.chain env.frame)
    (hlookup : ∀ a ∈ h.chain env.frame, (h'.frame a).lookup name = (h.frame a).lookup name) :
    env.ownerOf h' name = env.ownerOf h name := by
  rw [ownerOf, ownerOf, hchain]
  congr 1
  exact List.find?_congr fun a ha => by rw [Frame.binds, Frame.binds, hlookup a ha]

/-- A resolved value is what some frame of the chain binds. -/
theorem exists_lookup_of_resolve {value : Value} (hv : env.resolve h name = some value) :
    ∃ a ∈ h.chain env.frame, (h.frame a).lookup name = some value :=
  List.exists_of_findSome?_eq_some hv

/-- A frame that binds the name itself is asked first. -/
theorem resolve_of_lookup {value : Value} (hv : (h.frame env.frame).lookup name = some value) :
    env.resolve h name = some value := by
  rw [resolve, Heap.chain, Heap.chainUpTo]
  split <;> rw [List.findSome?_cons, hv]

/-- What a name resolves to is what its owner binds it to. -/
theorem lookup_of_ownerOf {owner : Env} (howner : env.ownerOf h name = some owner) :
    (h.frame owner.frame).lookup name = env.resolve h name := by
  obtain ⟨a, ha, rfl⟩ := Option.map_eq_some_iff.1 howner
  obtain ⟨hbinds, before, after, hchain, hbefore⟩ := List.find?_eq_some_iff_append.1 ha
  obtain ⟨value, hvalue⟩ := Option.isSome_iff_exists.1 hbinds
  have hnone : before.findSome? (fun a => (h.frame a).lookup name) = none := by
    refine List.findSome?_eq_none_iff.2 fun b hb => ?_
    simpa [Frame.binds] using hbefore b hb
  rw [resolve, hchain, List.findSome?_append, hnone, Option.none_or, List.findSome?_cons, hvalue]

/-- A name that resolves has an owner. -/
theorem isSome_ownerOf : (env.ownerOf h name).isSome = (env.resolve h name).isSome := by
  rw [ownerOf, resolve, Option.isSome_map, Bool.eq_iff_iff, List.find?_isSome,
    List.findSome?_isSome_iff]
  rfl

/-- Resolving a name from its owner gives the same value. -/
theorem resolve_of_ownerOf {owner : Env} (howner : env.ownerOf h name = some owner) :
    owner.resolve h name = env.resolve h name := by
  have hsome : (env.resolve h name).isSome := by rw [← isSome_ownerOf, howner]; rfl
  obtain ⟨value, hvalue⟩ := Option.isSome_iff_exists.1 hsome
  rw [hvalue]
  exact resolve_of_lookup ((lookup_of_ownerOf howner).trans hvalue)

/-- The owner of a name is a frame of the chain, with the same root. -/
theorem mem_chain_of_ownerOf {owner : Env} (howner : env.ownerOf h name = some owner) :
    owner.frame ∈ h.chain env.frame ∧ owner.root = env.root := by
  obtain ⟨a, ha, rfl⟩ := Option.map_eq_some_iff.1 howner
  exact ⟨List.mem_of_find?_eq_some ha, rfl⟩

end Env

end Chains

/-! ## Cells that cannot be told apart -/

/-- The same cells, or frames that differ only in entries of their host layers which their own
bindings hide. -/
inductive Cell.Indistinct : Cell → Cell → Prop where
  | same (c : Cell) : Indistinct c c
  | frame (f f' : Frame) (hbindings : f'.bindings = f.bindings) (hparent : f'.parent = f.parent)
      (hhost : ∀ name, f.bindings.get? name = none →
        f'.host.bind (·.get? name) = f.host.bind (·.get? name)) :
      Indistinct (.frame f) (.frame f')

/-- Host layers need to agree only where the frame itself binds nothing. -/
theorem Frame.lookup_eq_of_indistinct {f f' : Frame} (hbindings : f'.bindings = f.bindings)
    (hhost : ∀ name, f.bindings.get? name = none →
      f'.host.bind (·.get? name) = f.host.bind (·.get? name)) (name : String) :
    f'.lookup name = f.lookup name := by
  rw [lookup, lookup, hbindings]
  cases hget : f.bindings.get? name with
  | some value => rfl
  | none => exact hhost name hget

namespace Heap

/-- Bind names in environments, one after another. -/
def defineAll (h : Heap) (definitions : List (Env × String × Value)) : Heap :=
  definitions.foldl (fun h d => d.1.define h d.2.1 d.2.2) h

/-- No definition changes a parent. -/
theorem parent_define (h : Heap) (env : Env) (name : String) (value : Value) (a : Addr) :
    ((env.define h name value).frame a).parent = (h.frame a).parent :=
  h.parent_modifyFrame env.frame (f := (·.define name value)) (fun _ => rfl) a

theorem parent_defineAll (h : Heap) (definitions : List (Env × String × Value)) (a : Addr) :
    ((h.defineAll definitions).frame a).parent = (h.frame a).parent := by
  induction definitions generalizing h with
  | nil => rfl
  | cons d rest ih =>
    exact (ih (d.1.define h d.2.1 d.2.2)).trans (parent_define h d.1 d.2.1 d.2.2 a)

variable {h h' : Heap} {a : Addr}

theorem parent_eq_of_indistinct (ha : (h.cell a).Indistinct (h'.cell a)) :
    (h'.frame a).parent = (h.frame a).parent := by
  unfold frame
  generalize h.cell a = c, h'.cell a = c' at ha
  cases ha with
  | same => rfl
  | frame f f' _ hparent _ => exact hparent

theorem lookup_eq_of_indistinct (ha : (h.cell a).Indistinct (h'.cell a)) (name : String) :
    (h'.frame a).lookup name = (h.frame a).lookup name := by
  unfold frame
  generalize h.cell a = c, h'.cell a = c' at ha
  cases ha with
  | same => rfl
  | frame f f' hbindings _ hhost => exact Frame.lookup_eq_of_indistinct hbindings hhost name

/-- A definition hides the same host entry in both of two indistinct frames. -/
theorem indistinct_define (env : Env) (name : String) (value : Value)
    (ha : (h.cell a).Indistinct (h'.cell a)) :
    ((env.define h name value).cell a).Indistinct ((env.define h' name value).cell a) := by
  unfold Env.define
  rw [cell_modifyFrame, cell_modifyFrame]
  split
  · generalize h.cell a = c, h'.cell a = c' at ha
    cases ha with
    | same => exact .same _
    | frame f f' hbindings hparent hhost =>
      refine .frame _ _ (by simp [Frame.define, hbindings]) hparent fun other hother => ?_
      -- A name that is still free after the definition was free before it.
      rw [Frame.define, OrderedMap.get?_insert] at hother
      split at hother
      · cases hother
      · exact hhost other hother
  · exact ha

theorem indistinct_defineAll (definitions : List (Env × String × Value))
    (ha : (h.cell a).Indistinct (h'.cell a)) :
    ((h.defineAll definitions).cell a).Indistinct ((h'.defineAll definitions).cell a) := by
  induction definitions generalizing h h' with
  | nil => exact ha
  | cons d rest ih => exact ih (indistinct_define d.1 d.2.1 d.2.2 ha)

/-- Where all cells of a chain are indistinct, names resolve to the same values and have the same
owners, now and after any definitions. -/
theorem lookups_eq_of_indistinct {P : Addr → Prop}
    (hparent : ∀ a, P a → ∀ p, (h.frame a).parent = some p → P p)
    (hsame : ∀ a, P a → (h.cell a).Indistinct (h'.cell a)) (env : Env) (henv : P env.frame)
    (later : List (Env × String × Value)) (name : String) :
    env.resolve (h'.defineAll later) name = env.resolve (h.defineAll later) name ∧
      env.ownerOf (h'.defineAll later) name = env.ownerOf (h.defineAll later) name := by
  -- Definitions leave parents as they are, so the chain is in `P` after them as before.
  have hparent' : ∀ a, P a → ∀ p, ((h.defineAll later).frame a).parent = some p → P p :=
    fun a ha p hp => hparent a ha p (by rwa [parent_defineAll] at hp)
  have hcells : ∀ a, P a →
      ((h.defineAll later).cell a).Indistinct ((h'.defineAll later).cell a) :=
    fun a ha => indistinct_defineAll later (hsame a ha)
  have hchain : (h'.defineAll later).chain env.frame = (h.defineAll later).chain env.frame :=
    chain_congr hparent' (fun a ha => parent_eq_of_indistinct (hcells a ha)) henv
  have hlookup : ∀ a ∈ (h.defineAll later).chain env.frame,
      ((h'.defineAll later).frame a).lookup name = ((h.defineAll later).frame a).lookup name :=
    fun a ha => lookup_eq_of_indistinct (hcells a (forall_mem_chain hparent' henv a ha)) name
  exact ⟨Env.resolve_congr hchain hlookup, Env.ownerOf_congr hchain hlookup⟩

end Heap

end HostScript
