import HostScript.Proofs.Heap.Grounded

/-!
# Names after definitions

A definition gives a name its value wherever look-ups come to its frame before another frame that
binds the name, and nowhere else (`Env.resolve_define_of_reaches`,
`Env.resolve_define_of_not_reaches`).

Between the moment when the owner of a name is found and the moment when it is assigned there may be
other definitions. A `Route` is the way from an environment to that owner, and `Unshadowed` says
that the frames inside of it still do not bind the name; only a definition of the name in one of
them ends this.

* `Unshadowed.define`, `Unshadowed.alloc`, `Unshadowed.of_frames`: changes that keep it.
* `Unshadowed.not_inner_owner`: no assignment of the name concerns these frames.
* `Unshadowed.resolve_define`: once the name is assigned it has the new value from there on.
* `exists_route`: there is such a route from every environment to the owner of a name.
-/

namespace HostScript

/-! ## Names after a definition -/

/-- A chain begins with the frame that it is the chain of. -/
theorem Heap.chainUpTo_succ (h : Heap) (count : Nat) (a : Addr) :
    ∃ rest, h.chainUpTo (count + 1) a = a :: rest := by
  rw [chainUpTo]
  split
  · exact ⟨_, rfl⟩
  · exact ⟨[], rfl⟩

namespace Env

/-- Looked up from here, the name is asked of frame `a` before any other frame that binds it. -/
def Reaches (env : Env) (h : Heap) (a : Addr) (name : String) : Prop :=
  ∃ before after, h.chain env.frame = before ++ a :: after ∧
    ∀ b ∈ before, (h.frame b).binds name = false

variable {h : Heap} {env other : Env} {name : String} {value : Value}

theorem chain_define (h : Heap) (env : Env) (name : String) (value : Value) (a : Addr) :
    (env.define h name value).chain a = h.chain a :=
  Heap.chain_congr (P := fun _ => True) (fun _ _ _ _ => trivial)
    (fun a _ => h.parent_define env name value a) trivial

theorem lookup_define_of_ne (h : Heap) (name : String) (value : Value) {a : Addr}
    (ha : a ≠ env.frame) (x : String) :
    ((env.define h name value).frame a).lookup x = (h.frame a).lookup x := by
  rw [define, Heap.frame_modifyFrame_of_ne h _ ha]

theorem lookup_define_self {f : Frame} (hcell : h.cell env.frame = .frame f) :
    ((env.define h name value).frame env.frame).lookup name = some value := by
  rw [define, Heap.frame_modifyFrame_self h _ hcell, Frame.lookup_define, if_pos rfl]

/-- A definition of one name does not concern the others. -/
theorem lookup_define_of_name_ne (h : Heap) (value : Value) (a : Addr) {x : String}
    (hx : x ≠ name) : ((env.define h name value).frame a).lookup x = (h.frame a).lookup x := by
  by_cases ha : a = env.frame
  · unfold define Heap.frame
    rw [Heap.cell_modifyFrame, if_pos ha]
    cases h.cell a with
    | frame f => rw [Frame.lookup_define, if_neg hx]
    | _ => rfl
  · exact lookup_define_of_ne h name value ha x

/-- Wherever a name comes to the frame of a definition it has the new value. -/
theorem resolve_define_of_reaches {f : Frame} (hcell : h.cell env.frame = .frame f)
    (hreaches : other.Reaches h env.frame name) :
    other.resolve (env.define h name value) name = some value := by
  obtain ⟨before, after, hchain, hbefore⟩ := hreaches
  rw [resolve, chain_define, hchain]
  clear hchain
  induction before with
  | nil => rw [List.nil_append, List.findSome?_cons, lookup_define_self hcell]
  | cons b before ih =>
    obtain ⟨hb, hbefore⟩ := List.forall_mem_cons.1 hbefore
    rw [List.cons_append, List.findSome?_cons]
    by_cases hself : b = env.frame
    · rw [hself, lookup_define_self hcell]
    · have hnone : (h.frame b).lookup name = none := by simpa [Frame.binds] using hb
      rw [lookup_define_of_ne h name value hself, hnone]
      exact ih hbefore

/-- All other names, and this name elsewhere, have the values they had. -/
theorem resolve_define_of_not_reaches {x : String}
    (hreaches : x = name → ¬ other.Reaches h env.frame name) :
    other.resolve (env.define h name value) x = other.resolve h x := by
  by_cases hx : x = name
  case neg =>
    exact resolve_congr (chain_define h env name value _) fun a _ =>
      lookup_define_of_name_ne h value a hx
  subst hx
  have hmissed := hreaches rfl
  unfold Reaches at hmissed
  rw [resolve, resolve, chain_define]
  generalize h.chain other.frame = chain at hmissed
  induction chain with
  | nil => rfl
  | cons a chain ih =>
    -- The frame would be reached at once.
    have ha : a ≠ env.frame := by
      rintro rfl
      exact hmissed ⟨[], chain, rfl, List.forall_mem_nil _⟩
    rw [List.findSome?_cons, List.findSome?_cons, lookup_define_of_ne h x value ha]
    cases hlookup : (h.frame a).lookup x with
    | some found => rfl
    | none =>
      refine ih ?_
      rintro ⟨before, after, hchain, hbefore⟩
      refine hmissed ⟨a :: before, after, by rw [hchain, List.cons_append], ?_⟩
      refine List.forall_mem_cons.2 ⟨?_, hbefore⟩
      rw [Frame.binds, hlookup]
      rfl

/-- A name is first asked of the frame where it is looked up. -/
theorem reaches_self (env : Env) (h : Heap) (name : String) : env.Reaches h env.frame name := by
  obtain ⟨rest, hchain⟩ := h.chainUpTo_succ env.frame env.frame
  exact ⟨[], rest, hchain, List.forall_mem_nil _⟩

/-- A name reaches the frame that owns it, and without an owner the frame where it is looked up. -/
theorem reaches_owner (env : Env) (h : Heap) (name : String) :
    env.Reaches h ((env.ownerOf h name).getD env).frame name := by
  cases howner : env.ownerOf h name with
  | none => exact reaches_self env h name
  | some owner =>
    obtain ⟨a, hfind, rfl⟩ := Option.map_eq_some_iff.1 howner
    obtain ⟨-, before, after, hchain, hbefore⟩ := List.find?_eq_some_iff_append.1 hfind
    exact ⟨before, after, hchain, fun b hb => by simpa using hbefore b hb⟩

end Env

/-! ## Names that inner frames leave alone -/

/-- A name, a frame to define it in, and frames on the way outwards to that frame. The inner ones
among them are not to bind the name. -/
structure Route where
  name : String
  outer : Addr
  way : Addr → Prop
  inner : Addr → Prop
  way_of_inner : ∀ {a : Addr}, inner a → way a

/-- No way but to define the name at once. -/
def Route.here (name : String) (outer : Addr) : Route where
  name
  outer
  way _ := False
  inner _ := False
  way_of_inner := id

/-- The outer frame is there, and on the way parents lead outwards to it, through inner frames. It
binds the name, and these do not. -/
structure Unshadowed (r : Route) (h : Heap) : Prop where
  isFrame : ∃ f, h.cell r.outer = .frame f
  free : ∀ a, r.inner a → (h.frame a).lookup r.name = none
  bound : ∀ a, r.way a → (h.frame r.outer).binds r.name = true
  parent : ∀ a, r.way a →
    ∃ p, (h.frame a).parent = some p ∧ p < a ∧ (r.inner p ∨ p = r.outer)

namespace Unshadowed

variable {r : Route} {name : String} {h h' : Heap}

theorem outer_lt_size (hr : Unshadowed r h) : r.outer < h.size := by
  obtain ⟨f, hcell⟩ := hr.isFrame
  refine Heap.lt_size_of_cell_ne_released ?_
  rw [hcell]
  nofun

theorem lt_size (hr : Unshadowed r h) {a : Addr} (ha : r.way a) : a < h.size := by
  obtain ⟨p, hp, -⟩ := hr.parent a ha
  refine Heap.lt_size_of_cell_ne_released fun hreleased => ?_
  rw [Heap.frame, hreleased] at hp
  cases hp

/-- A frame that is not there yet is not one of the inner frames. -/
theorem not_inner_size (hr : Unshadowed r h) : ¬ r.inner h.size :=
  fun hinner => Nat.lt_irrefl _ (hr.lt_size (r.way_of_inner hinner))

/-- Changes that leave the frames on the way and the outer one as they are. -/
theorem of_frames (hr : Unshadowed r h)
    (hcells : ∀ a f, r.way a ∨ a = r.outer → (h'.cell a = .frame f ↔ h.cell a = .frame f)) :
    Unshadowed r h' := by
  have hframe : ∀ a, r.way a ∨ a = r.outer → h'.frame a = h.frame a :=
    fun a ha => Heap.frame_congr fun f => hcells a f ha
  obtain ⟨f, hcell⟩ := hr.isFrame
  refine ⟨⟨f, (hcells r.outer f (.inr rfl)).2 hcell⟩, fun a ha => ?_, fun a ha => ?_,
    fun a ha => ?_⟩
  · rw [hframe a (.inl (r.way_of_inner ha))]
    exact hr.free a ha
  · rw [hframe r.outer (.inr rfl)]
    exact hr.bound a ha
  · rw [hframe a (.inl ha)]
    exact hr.parent a ha

theorem of_sameScopes (hr : Unshadowed r h) (hsame : h.SameScopes h') : Unshadowed r h' :=
  hr.of_frames fun a f _ => hsame.frames a f

theorem alloc (hr : Unshadowed r h) (cell : Cell) : Unshadowed r (h.alloc cell).2 := by
  refine hr.of_frames fun a f ha => ?_
  have hlt : a < h.size := ha.elim hr.lt_size fun houter => houter ▸ hr.outer_lt_size
  rw [Heap.cell_alloc, if_neg (Nat.ne_of_lt hlt)]

/-- Definitions, unless they are of this name in an inner frame. -/
theorem define (hr : Unshadowed r h) {env : Env} (value : Value)
    (hspares : r.inner env.frame → name ≠ r.name) :
    Unshadowed r (env.define h name value) := by
  obtain ⟨f, hcell⟩ := hr.isFrame
  refine ⟨?_, fun a ha => ?_, fun a ha => ?_, fun a ha => ?_⟩
  · rw [Env.define, Heap.cell_modifyFrame, hcell]
    split
    · exact ⟨_, rfl⟩
    · exact ⟨f, rfl⟩
  · rw [← hr.free a ha]
    by_cases hself : a = env.frame
    · have hname : name ≠ r.name := hspares (hself ▸ ha)
      exact Env.lookup_define_of_name_ne h value a hname.symm
    · exact Env.lookup_define_of_ne h name value hself r.name
  · have hbound := hr.bound a ha
    unfold Frame.binds at hbound ⊢
    -- The outer frame binds the name before and after, be it to another value.
    by_cases hself : r.outer = env.frame
    · by_cases hname : r.name = name
      · rw [hname, hself, Env.lookup_define_self (hself ▸ hcell)]
        rfl
      · rwa [Env.lookup_define_of_name_ne h value _ hname]
    · rwa [Env.lookup_define_of_ne h name value hself]
  · rw [Heap.parent_define]
    exact hr.parent a ha

/-- From a frame on the way that does not bind the name, the search for it ends with the outer
frame. -/
theorem find?_chainUpTo (hr : Unshadowed r h) :
    ∀ (count : Nat) (a : Addr), r.way a → (h.frame a).lookup r.name = none → a < count →
      (h.chainUpTo count a).find? (fun b => (h.frame b).binds r.name) = some r.outer := by
  intro count
  induction count with
  | zero => exact fun a _ _ ha => absurd ha (Nat.not_lt_zero a)
  | succ count ih =>
    intro a ha hfree hcount
    obtain ⟨p, hp, hlt, hpinner⟩ := hr.parent a ha
    have hbinds : (h.frame a).binds r.name = false := by rw [Frame.binds, hfree]; rfl
    rw [Heap.chainUpTo, hp, List.find?_cons, hbinds]
    have hpcount : p < count := Nat.lt_of_lt_of_le hlt (Nat.le_of_lt_succ hcount)
    rcases hpinner with hpinner | rfl
    · exact ih p (r.way_of_inner hpinner) (hr.free p hpinner) hpcount
    · -- The outer frame is the first of its own chain.
      obtain ⟨count, rfl⟩ := Nat.exists_eq_succ_of_ne_zero (Nat.ne_zero_of_lt hpcount)
      obtain ⟨rest, hchain⟩ := h.chainUpTo_succ count r.outer
      show (h.chainUpTo (count + 1) r.outer).find? _ = some r.outer
      rw [hchain, List.find?_cons, hr.bound a ha]

theorem ownerOf (hr : Unshadowed r h) {env : Env} (henv : r.way env.frame)
    (hfree : (h.frame env.frame).lookup r.name = none) :
    env.ownerOf h r.name = some { env with frame := r.outer } := by
  rw [Env.ownerOf, Heap.chain, hr.find?_chainUpTo _ _ henv hfree (Nat.lt_succ_self _)]
  rfl

/-- The place of the name is never in an inner frame. -/
theorem not_inner_owner (hr : Unshadowed r h) (env : Env) :
    ¬ r.inner ((env.ownerOf h r.name).getD env).frame := by
  intro hinner
  cases howner : env.ownerOf h r.name with
  | none =>
    rw [howner, Option.getD_none] at hinner
    rw [hr.ownerOf (r.way_of_inner hinner) (hr.free _ hinner)] at howner
    cases howner
  | some owner =>
    rw [howner] at hinner
    obtain ⟨a, hfind, rfl⟩ := Option.map_eq_some_iff.1 howner
    have hbinds := List.find?_some hfind
    rw [Frame.binds, hr.free a hinner] at hbinds
    cases hbinds

/-- Defined in the outer frame, the name has its new value there and from all frames on the way
that do not bind it themselves. -/
theorem resolve_define (hr : Unshadowed r h) {env owner : Env} (howner : owner.frame = r.outer)
    (henv : env.frame = r.outer ∨
      r.way env.frame ∧ (h.frame env.frame).lookup r.name = none) (value : Value) :
    env.resolve (owner.define h r.name value) r.name = some value := by
  obtain ⟨f, hcell⟩ := hr.isFrame
  refine Env.resolve_define_of_reaches (howner ▸ hcell) ?_
  rcases henv with henv | ⟨henv, hfree⟩
  · rw [howner, ← henv]
    exact env.reaches_self h r.name
  · have hreaches := env.reaches_owner h r.name
    rwa [hr.ownerOf henv hfree, Option.getD_some, ← howner] at hreaches

end Unshadowed

theorem Heap.Grounded.le_of_outwards {h : Heap} {root a b : Addr} (hg : h.Grounded root a)
    (hb : h.Outwards a b) : b ≤ a := by
  induction hb with
  | refl => exact Nat.le_refl a
  | tail hab hp ih => exact Nat.le_trans (Nat.le_of_lt ((hg.of_outwards hab).parent hp).2) ih

/-- The frame that a chain begins with is that of its environment. -/
theorem Heap.mem_before_or_eq {h : Heap} {a outer : Addr} {before after : List Addr}
    (hchain : h.chain a = before ++ outer :: after) : a ∈ before ∨ a = outer := by
  obtain ⟨rest, hhead⟩ := h.chainUpTo_succ a a
  rw [show h.chain a = a :: rest from hhead] at hchain
  cases before with
  | nil => exact .inr (List.cons.inj hchain).1
  | cons b before =>
    left
    rw [(List.cons.inj hchain).1]
    exact List.mem_cons_self

/-- In a chain, parents lead from the frames before one frame to that frame. -/
theorem Heap.Grounded.parent_of_mem_before {h : Heap} {root a outer : Addr}
    (hg : h.Grounded root a) {before after : List Addr}
    (hchain : h.chain a = before ++ outer :: after) :
    ∀ b ∈ before, ∃ p, (h.frame b).parent = some p ∧ p < b ∧ (p ∈ before ∨ p = outer) := by
  induction hg using Heap.Grounded.outwards_rec generalizing before with
  | atRoot hg hp hroot =>
    rw [hroot] at hchain
    obtain ⟨rfl, -⟩ : before = [] ∧ outer = root ∧ after = [] := by
      simpa [List.cons_eq_append_iff] using hchain
    exact List.forall_mem_nil _
  | inside a p hg hgp hp hcons ih =>
    cases before with
    | nil => exact List.forall_mem_nil _
    | cons b before =>
      rw [hcons, List.cons_append] at hchain
      obtain ⟨rfl, hrest⟩ := List.cons.inj hchain
      -- The parent is the next frame of the chain.
      have hnext : p ∈ before ∨ p = outer := Heap.mem_before_or_eq hrest
      refine List.forall_mem_cons.2 ⟨⟨p, hp, (hg.parent hp).2, ?_⟩, fun c hc => ?_⟩
      · exact hnext.imp_left (List.mem_cons_of_mem a)
      · obtain ⟨q, hq, hlt, hqbefore⟩ := ih hrest c hc
        exact ⟨q, hq, hlt, hqbefore.imp_left (List.mem_cons_of_mem a)⟩

/-- The way from an environment to the owner of a name. It begins in the frame of the environment,
which is an inner frame unless it may come to bind the name. -/
theorem exists_route {h : Heap} {env owner : Env} {name : String}
    (hg : h.Grounded env.root env.frame) (howner : env.ownerOf h name = some owner)
    (mayBind : Prop) :
    ∃ r : Route, r.name = name ∧ r.outer = owner.frame ∧ Unshadowed r h ∧
      (r.inner env.frame → ¬ mayBind) ∧
      (env.frame = r.outer ∨ r.way env.frame ∧ (¬ mayBind → r.inner env.frame)) := by
  obtain ⟨outer, hfind, rfl⟩ := Option.map_eq_some_iff.1 howner
  obtain ⟨hbinds, before, after, hchain, hbefore⟩ := List.find?_eq_some_iff_append.1 hfind
  have hmem : ∀ a ∈ before ++ outer :: after, h.Outwards env.frame a := fun a ha =>
    hg.mem_chain_iff.1 (hchain ▸ ha)
  have houter : h.Outwards env.frame outer := hmem outer (by simp)
  let r : Route := {
    name, outer
    way := (· ∈ before)
    inner := fun a => a ∈ before ∧ (mayBind → a ≠ env.frame)
    way_of_inner := And.left }
  have hr : Unshadowed r h := by
    refine ⟨⟨_, (hg.of_outwards houter).cell⟩, fun a ha => ?_, fun _ _ => hbinds, fun a ha => ?_⟩
    · simpa [Frame.binds] using hbefore a ha.1
    · obtain ⟨p, hp, hlt, hnext⟩ := hg.parent_of_mem_before hchain a ha
      -- Parents are older, so none is the frame that the chain begins with.
      have hle : a ≤ env.frame := hg.le_of_outwards (hmem a (List.mem_append_left _ ha))
      have hne : p ≠ env.frame := Nat.ne_of_lt (Nat.lt_of_lt_of_le hlt hle)
      exact ⟨p, hp, hlt, hnext.imp_left fun hp => ⟨hp, fun _ => hne⟩⟩
  refine ⟨r, rfl, rfl, hr, fun hinner hmay => hinner.2 hmay rfl, ?_⟩
  refine (Heap.mem_before_or_eq hchain).symm.imp_right fun hway => ?_
  exact ⟨hway, fun hmay => ⟨hway, fun h => absurd h hmay⟩⟩

end HostScript
