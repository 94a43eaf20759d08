import HostScript.Proofs.Heap.Grounded
import HostScript.Proofs.Heap.Growth
import HostScript.Proofs.Script.Cleanup
import HostScript.Proofs.Session.Operations

/-!
# What sessions keep

Two things hold as long as a session goes on. All environments that can be got at are grounded
(`Session.WellFormed`). And an environment that can be got at later could be got at before, unless
it is new; its frame has kept its parent and all its names (`Session.Precedes`).

* `Operation.keeps`: a single operation.
* `Operations.keeps`: a session as a whole.
-/

namespace HostScript

/-! ## Host layers without what they hide -/

/-- Pruning keeps all names of a frame: those that it takes from the layer are bound by the frame
itself. -/
theorem Heap.FrameGrows.of_prune {h : Heap} {a : Addr} (hframe : h.cell a = .frame (h.frame a))
    (e : Env) : h.FrameGrows (e.pruneShadowedHost h) a := by
  refine of_modifyFrame hframe fun heq => ?_
  have hpruned : (e.pruneShadowedHost h).frame a =
      { h.frame a with host := (h.frame a).host.map (·.filter fun name =>
        !(h.frame a).bindings.contains name) } := by
    rw [Env.pruneShadowedHost, heq, frame_modifyFrame_self h _ hframe]
  refine ⟨rfl, by simp, fun name hname => ?_⟩
  -- What is hidden is bound by the frame itself.
  have hlookup := lookup_eq_of_indistinct (Script.indistinct_prune e h a) name
  rw [hpruned] at hlookup
  rw [Frame.binds, hlookup]
  exact hname

namespace Session

/-! ## The invariant and the order of time -/

/-- All environments that can be got at are grounded. -/
def WellFormed (σ : Session) : Prop :=
  ∀ e : Env, σ.Reaches (.env e) → σ.heap.Grounded e.root e.frame

/-- What can be got at of the environments that were there before, could be got at then, and their
frames have grown. -/
structure Precedes (σ τ : Session) : Prop where
  size : σ.heap.size ≤ τ.heap.size
  env : ∀ e : Env, τ.Reaches (.env e) → e.frame < σ.heap.size → σ.Reaches (.env e)
  frame : ∀ e : Env, τ.Reaches (.env e) → e.frame < σ.heap.size →
    σ.heap.FrameGrows τ.heap e.frame

variable {σ τ υ : Session}

/-- A set of handles that nothing leads out of has all that can be got at. -/
theorem Reaches.mem {S : Handle → Prop} {x : Handle} (hx : σ.Reaches x)
    (hholds : ∀ x ∈ σ.holds, S x) (hkept : ∀ v ∈ σ.world.held, S (.value v))
    (hplain : ∀ v : Value, v.addr? = none → S (.value v))
    (hleads : ∀ x y, S x → σ.heap.Leads x y → S y) : S x := by
  induction hx with
  | held hx => exact hholds _ hx
  | kept hv => exact hkept _ hv
  | plain hv => exact hplain _ hv
  | lead _ hy ih => exact hleads _ _ ih hy

namespace Precedes

theorem refl (hσ : σ.WellFormed) : σ.Precedes σ :=
  ⟨Nat.le_refl _, fun _ he _ => he, fun e he _ => .of_cell (hσ e he).cell rfl⟩

theorem trans (h : σ.Precedes τ) (h' : τ.Precedes υ) : σ.Precedes υ := by
  refine ⟨h.size.trans h'.size, fun e he hlt => ?_, fun e he hlt => ?_⟩
  · exact h.env e (h'.env e he (hlt.trans_le h.size)) hlt
  · have hbetween := h'.env e he (hlt.trans_le h.size)
    exact (h.frame e hbetween hlt).trans (h'.frame e he (hlt.trans_le h.size))

/-- Environments stay grounded as long as they can be got at. -/
theorem grounded (h : σ.Precedes τ) {root a : Addr} (hg : σ.heap.Grounded root a)
    (ha : τ.Reaches (.env ⟨a, root⟩)) : τ.heap.Grounded root a := by
  induction hg with
  | root hcell hparent hhost =>
    have hg : σ.heap.Grounded root root := .root hcell hparent hhost
    obtain ⟨hcell', hgrows⟩ := h.frame ⟨root, root⟩ ha hg.lt_size
    rw [Heap.frame_of_cell hcell] at hgrows
    exact .root hcell' (hgrows.parent.trans hparent) (hgrows.host.trans hhost)
  | child hcell hparent hhost hlt hp ih =>
    have hg := Heap.Grounded.child hcell hparent hhost hlt hp
    obtain ⟨hcell', hgrows⟩ := h.frame ⟨_, root⟩ ha hg.lt_size
    rw [Heap.frame_of_cell hcell] at hgrows
    have hparent' := hgrows.parent.trans hparent
    exact .child hcell' hparent' (hgrows.host.trans hhost) hlt (ih (.lead ha (.parent hparent')))

/-- What is not new is grounded as it was before. -/
theorem wellFormed (h : σ.Precedes τ) (hσ : σ.WellFormed)
    (hnew : ∀ e : Env, τ.Reaches (.env e) → σ.heap.size ≤ e.frame →
      τ.heap.Grounded e.root e.frame) : τ.WellFormed := by
  intro e he
  rcases Nat.lt_or_ge e.frame σ.heap.size with hlt | hge
  · exact h.grounded (hσ e (h.env e he hlt)) he
  · exact hnew e he hge

end Precedes

/-! ## Operations -/

/-- An operation that makes no new environment. -/
theorem precedes_of_reaches (hσ : σ.WellFormed) (hsize : σ.heap.size ≤ τ.heap.size)
    (henv : ∀ e : Env, τ.Reaches (.env e) → σ.Reaches (.env e))
    (hframe : ∀ e : Env, σ.Reaches (.env e) → τ.Reaches (.env e) →
      σ.heap.FrameGrows τ.heap e.frame) : σ.Precedes τ ∧ τ.WellFormed := by
  have hprecedes : σ.Precedes τ :=
    ⟨hsize, fun e he _ => henv e he, fun e he _ => hframe e (henv e he) he⟩
  refine ⟨hprecedes, hprecedes.wellFormed hσ fun e he hge => ?_⟩
  exact absurd (hσ e (henv e he)).lt_size (Nat.not_lt.2 hge)

/-- An operation on a single cell that is there. -/
theorem precedes_onHeap (hσ : σ.WellFormed) {f : Heap → Heap}
    (hsize : (f σ.heap).size = σ.heap.size)
    (hleads : ∀ x y, (f σ.heap).Leads x y → σ.heap.Leads x y ∨ σ.Reaches y)
    (hframe : ∀ e : Env, σ.Reaches (.env e) → σ.heap.FrameGrows (f σ.heap) e.frame) :
    σ.Precedes (σ.onHeap f) ∧ (σ.onHeap f).WellFormed := by
  refine precedes_of_reaches hσ hsize.ge (fun e he => ?_) fun e he _ => hframe e he
  refine he.mem (S := σ.Reaches) (fun x hx => .held hx) (fun v hv => .kept hv)
    (fun v hv => .plain hv) fun x y hx hxy => ?_
  exact (hleads x y hxy).elim (.lead hx) id

/-- After a cell has been added, its handle and no other can be got at besides. -/
theorem reaches_alloc (hσ : σ.WellFormed) {c : Cell} {fresh : Handle}
    (hcontents : ∀ y ∈ c.contents, σ.Reaches y)
    (hleads : ∀ y, (σ.heap.alloc c).2.Leads fresh y → σ.Reaches y ∨ y = fresh) {x : Handle}
    (hx : ((σ.onHeap fun h => (h.alloc c).2).holding fresh).Reaches x) :
    σ.Reaches x ∨ x = fresh := by
  refine hx.mem (S := fun x => σ.Reaches x ∨ x = fresh) ?_ (fun v hv => .inl (.kept hv))
    (fun v hv => .inl (.plain hv)) ?_
  · rintro x (rfl | hx)
    · exact .inr rfl
    · exact .inl (.held hx)
  · rintro x y (hx | rfl) hxy
    · change (σ.heap.alloc c).2.Leads x y at hxy
      by_cases hcell : x.cell? = some σ.heap.size
      · -- Only a dangling value has led to the cell before it was there.
        cases x with
        | env e =>
          exact absurd (Option.some.inj hcell) (hσ e hx).lt_size.ne
        | value v =>
          cases hxy with
          | content hv hy =>
            cases hv.symm.trans hcell
            rw [Heap.cell_alloc, if_pos rfl] at hy
            exact .inl (hcontents y hy)
      · refine .inl (.lead hx (hxy.of_cell fun a ha => ?_))
        rw [Heap.cell_alloc, if_neg]
        rintro rfl
        exact hcell ha
    · exact hleads y hxy

/-- Adding a cell leaves the frames that are there as they are. -/
theorem frameGrows_alloc (hσ : σ.WellFormed) (c : Cell) {e : Env} (he : σ.Reaches (.env e)) :
    σ.heap.FrameGrows (σ.heap.alloc c).2 e.frame :=
  .of_alloc (hσ e he).cell c

/-- A new environment, if it is grounded. -/
theorem precedes_newEnv (hσ : σ.WellFormed) {f : Frame} {root : Addr}
    (hbound : ∀ v ∈ f.values, σ.Reaches (.value v))
    (hparent : ∀ p, f.parent = some p → σ.Reaches (.env ⟨p, root⟩))
    (hroot : root = σ.heap.size ∨ σ.Reaches (.env ⟨root, root⟩))
    (hg : let τ := (σ.onHeap fun h => (h.alloc (.frame f)).2).holding (.env ⟨σ.heap.size, root⟩)
      σ.Precedes τ → τ.heap.Grounded root σ.heap.size) :
    let τ := (σ.onHeap fun h => (h.alloc (.frame f)).2).holding (.env ⟨σ.heap.size, root⟩)
    σ.Precedes τ ∧ τ.WellFormed := by
  intro τ
  have hframe : (σ.heap.alloc (.frame f)).2.frame σ.heap.size = f := Heap.frame_alloc_self ..
  -- The new frame leads to nothing that could not be got at before, but to itself.
  have hreaches : ∀ x, τ.Reaches x → σ.Reaches x ∨ x = .env ⟨σ.heap.size, root⟩ := fun x hx => by
    refine reaches_alloc hσ (fun y hy => absurd hy List.not_mem_nil) (fun y hy => ?_) hx
    cases hy with
    | bound hv =>
      rw [hframe] at hv
      exact .inl (hbound _ hv)
    | parent hp =>
      rw [hframe] at hp
      exact .inl (hparent _ hp)
    | root =>
      rcases hroot with rfl | hroot
      · exact .inr rfl
      · exact .inl hroot
  have henv : ∀ e : Env, τ.Reaches (.env e) → e.frame < σ.heap.size → σ.Reaches (.env e) := by
    intro e he hlt
    rcases hreaches _ he with he | he
    · exact he
    · cases he
      exact absurd hlt (Nat.lt_irrefl _)
  have hprecedes : σ.Precedes τ := by
    refine ⟨?_, henv, fun e he hlt => frameGrows_alloc hσ _ (henv e he hlt)⟩
    show σ.heap.size ≤ (σ.heap.alloc (.frame f)).2.size
    rw [Heap.size_alloc]
    exact Nat.le_succ _
  refine ⟨hprecedes, hprecedes.wellFormed hσ fun e he hge => ?_⟩
  rcases hreaches _ he with he | he
  · exact absurd (hσ e he).lt_size (Nat.not_lt.2 hge)
  · cases he
    exact hg hprecedes

/-- What is held is spared by a cleanup, and so is all that it leads to. -/
theorem reaches_cleanUp {seeds outside : List Addr}
    (hholds : ∀ x ∈ σ.holds, ∀ a ∈ x.addrs, a ∈ outside)
    (hheld : ∀ a ∈ σ.world.heldAddrs, a ∈ outside) {x : Handle}
    (hx : (σ.onHeap fun h => (h.settle (seeds ++ outside)).reclaim seeds outside).Reaches x) :
    σ.Reaches x ∧ ∀ a ∈ x.addrs, σ.heap.Reaches Cell.handles outside a := by
  refine hx.mem
    (S := fun x => σ.Reaches x ∧ ∀ a ∈ x.addrs, σ.heap.Reaches Cell.handles outside a)
    (fun x hx => ⟨.held hx, fun a ha => .root (hholds x hx a ha)⟩) (fun v hv => ⟨.kept hv, ?_⟩)
    (fun v hv => ⟨.plain hv, ?_⟩) ?_
  · intro a ha
    refine .root (hheld a (List.mem_filterMap.2 ⟨v, Array.mem_toList_iff.2 hv, ?_⟩))
    exact Option.mem_toList.1 ha
  · intro a ha
    rw [Handle.addrs, hv] at ha
    exact absurd ha List.not_mem_nil
  · rintro x y ⟨hx, haddrs⟩ hxy
    have hlead : σ.heap.Leads x y :=
      hxy.of_cell fun a ha => Heap.cell_cleanUp seeds (haddrs a (Heap.Leads.cell?_mem_addrs ha))
    exact ⟨.lead hx hlead, hlead.addrs_reached haddrs⟩

/-- One case for each operation. It is to be shown that nothing is got at that could not be before,
and that frames only grow. -/
theorem Operation.keeps (hσ : σ.WellFormed) (hop : Operation σ τ) :
    σ.Precedes τ ∧ τ.WellFormed := by
  cases hop with
  | hold holds hreach =>
    refine precedes_of_reaches hσ (Nat.le_refl _) (fun e he => ?_)
      fun e he _ => .of_cell (hσ e he).cell rfl
    exact he.mem (S := σ.Reaches) hreach (fun v hv => .kept hv) (fun v hv => .plain hv)
      fun x y hx hxy => .lead hx hxy
  | record w hheap hheld =>
    have hleads : ∀ x y, w.heap.Leads x y → σ.heap.Leads x y := by
      rw [hheap]
      exact fun x y => id
    refine precedes_of_reaches hσ (by show σ.heap.size ≤ w.heap.size; rw [hheap]) (fun e he => ?_)
      fun e he _ => .of_cell (hσ e he).cell (by show w.heap.cell _ = _; rw [hheap])
    exact he.mem (S := σ.Reaches) (fun x hx => .held hx) hheld (fun v hv => .plain hv)
      fun x y hx hxy => .lead hx (hleads x y hxy)
  | newRoot layer hlayer =>
    refine precedes_newEnv hσ (fun v hv => hlayer v ?_) (fun p hp => by cases hp) (.inl rfl)
      fun _ => ?_
    · exact (List.mem_append.1 hv).resolve_left List.not_mem_nil
    · exact .root (Heap.cell_alloc .. ▸ if_pos rfl) rfl rfl
  -- The new frame has the environment as its parent, which can be got at and is grounded.
  | @enter e he =>
    refine precedes_newEnv hσ (fun v hv => absurd hv List.not_mem_nil) (fun p hp => ?_)
      (.inr (.lead he (.root e))) fun hprecedes => ?_
    · cases hp
      exact he
    · have hg := hσ e he
      refine .child (f := { parent := some e.frame }) ?_ rfl rfl hg.lt_size
        (hprecedes.grounded hg ?_)
      · show (σ.heap.alloc _).2.cell _ = _
        rw [Heap.cell_alloc, if_pos rfl]
      · refine .lead (.held (Set.mem_insert _ _)) (.parent ?_)
        show ((σ.heap.alloc _).2.frame _).parent = _
        rw [Heap.frame_alloc_self]
  | @define e he name v hv =>
    refine precedes_onHeap hσ (Heap.size_modifyFrame ..) (fun x y hxy => ?_) fun e' he' => ?_
    · refine hxy.of_define.imp_right ?_
      rintro rfl
      exact hv
    · exact .of_modifyFrame (hσ e' he').cell fun _ => .define _ _ _
  | @create c hframe hcontents v hv =>
    have hreaches : ∀ e : Env, ((σ.onHeap fun h => (h.alloc c).2).holding (.value v)).Reaches
        (.env e) → σ.Reaches (.env e) := by
      intro e he
      refine (reaches_alloc hσ hcontents (fun y hy => ?_) he).resolve_right nofun
      cases hy with
      | content hv' hy =>
        cases hv.symm.trans hv'
        rw [Heap.cell_alloc, if_pos rfl] at hy
        exact .inl (hcontents y hy)
    refine precedes_of_reaches hσ ?_ hreaches fun e he _ => frameGrows_alloc hσ c he
    show σ.heap.size ≤ (σ.heap.alloc c).2.size
    rw [Heap.size_alloc]
    exact Nat.le_succ _
  | setArray a f hf =>
    refine precedes_onHeap hσ (Heap.size_modifyCell ..) (fun x y hxy => ?_) fun e he =>
      .of_modifyCell (hσ e he).cell a (Cell.changesContents_array f)
    refine hxy.of_setArray.imp_right ?_
    rintro ⟨v, hv, rfl⟩
    exact hf v hv
  | setObject a f hf =>
    refine precedes_onHeap hσ (Heap.size_modifyCell ..) (fun x y hxy => ?_) fun e he =>
      .of_modifyCell (hσ e he).cell a (Cell.changesContents_object f)
    refine hxy.of_setObject.imp_right ?_
    rintro ⟨v, hv, rfl⟩
    exact hf v hv
  | @prune e he =>
    refine precedes_onHeap hσ (Heap.size_modifyFrame ..) (fun x y hxy => .inl hxy.of_prune)
      fun e' he' => .of_prune (hσ e' he').cell e
  -- The cleanup empties cells, but none that can be got at from what is held.
  | cleanUp seeds outside hholds hheld =>
    have hreaches := @reaches_cleanUp σ seeds outside hholds hheld
    refine precedes_of_reaches hσ ?_ (fun e he => (hreaches he).1) fun e he he' => ?_
    · show σ.heap.size ≤ ((σ.heap.settle _).reclaim seeds outside).size
      rw [Heap.size_reclaim, Heap.size_settle]
    · refine .of_cell (hσ e he).cell (Heap.cell_cleanUp seeds ((hreaches he').2 _ ?_))
      exact List.mem_cons_self

/-- However long a session goes on, it stays well-formed, and later states follow earlier ones. -/
theorem Operations.keeps (hσ : σ.WellFormed) (hops : Operations σ τ) :
    σ.Precedes τ ∧ τ.WellFormed := by
  induction hops with
  | refl => exact ⟨.refl hσ, hσ⟩
  | tail _ hop ih =>
    obtain ⟨hprecedes, hτ⟩ := ih
    obtain ⟨hlast, hυ⟩ := hop.keeps hτ
    exact ⟨hprecedes.trans hlast, hυ⟩

end Session

end HostScript
