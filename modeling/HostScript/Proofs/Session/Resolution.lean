import HostScript.Proofs.Session.Events

/-!
# Resolution over time

As long as an environment can be got at, its chain of frames stays the same and each frame of it
keeps all names that it binds. So a name that has resolved once resolves for good, from the same
frame or from a nearer one: `resolution_is_monotone`.
-/

namespace HostScript.Session

variable {σ τ : Session} {e : Env} {name : String}

namespace Precedes

/-- The chain of an environment is the same at both moments. -/
theorem chain_eq (hprecedes : σ.Precedes τ) (hσ : σ.WellFormed) (he : σ.Reaches (.env e))
    (he' : τ.Reaches (.env e)) : τ.heap.chain e.frame = σ.heap.chain e.frame := by
  let there (a : Addr) : Prop := σ.Reaches (.env ⟨a, e.root⟩) ∧ τ.Reaches (.env ⟨a, e.root⟩)
  have hsame : ∀ a, there a → (τ.heap.frame a).parent = (σ.heap.frame a).parent := fun a ha =>
    (hprecedes.frame _ ha.2 (hσ _ ha.1).lt_size).grows.parent
  refine Heap.chain_congr (P := there) (fun a ha p hp => ?_) hsame ⟨he, he'⟩
  exact ⟨.lead ha.1 (.parent hp), .lead ha.2 (.parent ((hsame a ha).trans hp))⟩

/-- A frame on the way binds later on all that it has bound. -/
theorem binds_of_mem_chain (hprecedes : σ.Precedes τ) (hσ : σ.WellFormed)
    (he : σ.Reaches (.env e)) (he' : τ.Reaches (.env e)) {a : Addr}
    (ha : a ∈ σ.heap.chain e.frame) (hbinds : (σ.heap.frame a).binds name = true) :
    (τ.heap.frame a).binds name = true := by
  have ha' : a ∈ τ.heap.chain e.frame := by rwa [hprecedes.chain_eq hσ he he']
  exact (hprecedes.frame ⟨a, e.root⟩ (he'.chain a ha') (hσ _ (he.chain a ha)).lt_size).grows.binds
    name hbinds

/-- Later on the owner of a name is the same frame or a nearer one. -/
theorem exists_owner (hprecedes : σ.Precedes τ) (hσ : σ.WellFormed) (hτ : τ.WellFormed)
    (he : σ.Reaches (.env e)) (he' : τ.Reaches (.env e)) {o : Env}
    (ho : e.ownerOf σ.heap name = some o) :
    ∃ o', e.ownerOf τ.heap name = some o' ∧ τ.heap.Outwards e.frame o'.frame ∧
      τ.heap.Outwards o'.frame o.frame := by
  have hg := hτ e he'
  obtain ⟨a, ha, rfl⟩ := Option.map_eq_some_iff.1 ho
  have hmem : a ∈ σ.heap.chain e.frame := List.mem_of_find?_eq_some ha
  have hbound : (σ.heap.frame a).binds name = true :=
    List.find?_some (p := fun a => (σ.heap.frame a).binds name) ha
  have hbinds : (τ.heap.frame a).binds name = true :=
    hprecedes.binds_of_mem_chain hσ he he' hmem hbound
  rw [← hprecedes.chain_eq hσ he he'] at hmem
  have hfound : ((τ.heap.chain e.frame).find? fun a => (τ.heap.frame a).binds name).isSome :=
    List.find?_isSome.2 ⟨a, hmem, hbinds⟩
  obtain ⟨b, hb⟩ := Option.isSome_iff_exists.1 hfound
  obtain ⟨-, before, after, hchain, hbefore⟩ := List.find?_eq_some_iff_append.1 hb
  have hout : τ.heap.Outwards e.frame b := hg.mem_chain_iff.1 (List.mem_of_find?_eq_some hb)
  refine ⟨⟨b, e.root⟩, by rw [Env.ownerOf, hb]; rfl, hout, ?_⟩
  -- No frame before the first one that binds the name now has bound it before.
  refine (hg.of_outwards hout).mem_chain_iff.1 ?_
  rw [hg.chain_suffix hchain]
  rw [hchain] at hmem
  refine (List.mem_append.1 hmem).resolve_left fun hfirst => ?_
  simpa [hbinds] using hbefore a hfirst

end Precedes

/-- Take two moments of a session at both of which an environment can be got at, and a name that
resolves from it at the earlier one. At the later one the name resolves from it too. Its owner is
then the same frame as before, or one nearer to the frame of the environment. To evaluate the name
there, or to read it as a place, does not fail. -/
theorem resolution_is_monotone {host : Host} (hhost : host.Operates) {σ τ : Session}
    (hσ : Reached host σ) (hτ : Relation.ReflTransGen (Next host) σ τ) {e : Env}
    (he : σ.Reaches (.env e)) (he' : τ.Reaches (.env e)) {name : String}
    (hresolves : (e.resolve σ.heap name).isSome = true) :
    ∃ o o' v, e.ownerOf σ.heap name = some o ∧ e.ownerOf τ.heap name = some o' ∧
      τ.heap.Outwards e.frame o'.frame ∧ τ.heap.Outwards o'.frame o.frame ∧
      e.resolve τ.heap name = some v ∧
      (∀ call limit, (Expr.ident name).eval call limit e τ.world = .done v τ.world) ∧
      ∀ p ∈ [Place.binding e name, Place.ofName e name τ.heap],
        p.read τ.world = .done v τ.world := by
  have hwf : σ.WellFormed := hσ.wellFormed hhost
  obtain ⟨hprecedes, hwf'⟩ := precedes_of_next hhost hwf hτ
  obtain ⟨o, ho⟩ := Option.isSome_iff_exists.1 (Env.isSome_ownerOf.trans hresolves)
  -- A name that has an owner keeps one, and a name with an owner resolves.
  obtain ⟨o', ho', hout, hnearer⟩ := hprecedes.exists_owner hwf hwf' he he' ho
  have hsome : (e.resolve τ.heap name).isSome = true := by
    rw [← Env.isSome_ownerOf, ho']
    rfl
  obtain ⟨v, hv⟩ := Option.isSome_iff_exists.1 hsome
  have hget : ∀ {e : Env}, e.resolve τ.heap name = some v → e.get name τ.world = .done v τ.world :=
    fun hv => by rw [Env.get, hv]
  refine ⟨o, o', v, ho, ho', hout, hnearer, hv, fun call limit => ?_, ?_⟩
  · rw [Expr.eval]
    exact hget hv
  · rw [Place.ofName, ho', Option.getD_some]
    have howner : o'.resolve τ.heap name = some v := (Env.resolve_of_ownerOf ho').trans hv
    exact List.forall_mem_cons.2 ⟨hget hv, List.forall_mem_singleton.2 (hget howner)⟩

/-- In the frame that has been entered, `var x = true;` is run. -/
def declared : Outcome Completion :=
  (Stmt.declare [("x", some (.literal (.bool true)))]).run (Library.host.call 0) 0 ⟨2, 0⟩
    afterEnter.world

def afterDeclare : Session :=
  (⟨declared.world?.getD {}, afterEnter.holds⟩ : Session).keeping (declared.gives ([·.result]))

theorem resolution_is_monotone_afterDeclare :
    (⟨2, 0⟩ : Env).resolve afterEnter.heap "x" = some .null ∧
      ∃ o o' v, (⟨2, 0⟩ : Env).ownerOf afterEnter.heap "x" = some o ∧
        (⟨2, 0⟩ : Env).ownerOf afterDeclare.heap "x" = some o' ∧
        afterDeclare.heap.Outwards o'.frame o.frame ∧ o'.frame = 2 ∧ o.frame = 0 ∧
        v = Value.bool true ∧ (⟨2, 0⟩ : Env).resolve afterDeclare.heap "x" = some v := by
  have hdeclare : Next Library.host afterEnter afterDeclare := .run reaches_afterEnter rfl
  have hreaches : afterDeclare.Reaches (.env ⟨2, 0⟩) := .held (.inl (.inl rfl))
  have hresolves : ((⟨2, 0⟩ : Env).resolve afterEnter.heap "x").isSome = true := rfl
  obtain ⟨o, o', v, ho, ho', -, hnearer, hv, -⟩ :=
    resolution_is_monotone Library.host_operates reached_afterEnter (.single hdeclare)
      reaches_afterEnter hreaches hresolves
  refine ⟨rfl, o, o', v, ho, ho', hnearer, ?_, ?_, ?_, hv⟩
  · cases ho'
    rfl
  · cases ho
    rfl
  · cases hv
    rfl

end HostScript.Session
