import HostScript.Proofs.Session.Events

/-!
# Environments in a session

Whatever a session has done, every environment that can be got at fits together: its frame, its root
and the frames on the way. `environments_stay_wellFormed` says so, and what follows for look-ups.
-/

namespace HostScript.Session

/-- In every state of every session, from the frame of each environment that can be got at parents
lead to the root that it names. This is the only frame on the way without a parent and the only one
with a host layer.

* Look-ups of values and of owners end, with what asking frame after frame comes to.
* Who enters a frame and leaves it is back. An environment is a root where its frame has no parent.
* A name has an owner if it resolves. The owner is a frame on the way, and the name resolves to the
  same value there.
* The frame outside, the root and the owners of names can be got at too, and so can the environment
  of a function: all this holds of them as well. -/
theorem environments_stay_wellFormed {host : Host} (hhost : host.Operates) {σ : Session}
    (hσ : Reached host σ) {e : Env} (he : σ.Reaches (.env e)) :
    let h := σ.heap
    h.Outwards e.frame e.root ∧
    (∀ a, h.Outwards e.frame a →
      ((h.frame a).parent = none ↔ a = e.root) ∧ ((h.frame a).host.isSome = true ↔ a = e.root)) ∧
    (∃ inner, h.chain e.frame = inner ++ [e.root]) ∧
    (∀ a, a ∈ h.chain e.frame ↔ h.Outwards e.frame a) ∧
    (∀ name, h.Search (fun a => (h.frame a).lookup name) e.frame (e.resolve h name) ∧
      h.Search (fun a => if (h.frame a).binds name then some (⟨a, e.root⟩ : Env) else none) e.frame
        (e.ownerOf h name)) ∧
    (e.enter h).1.exit (e.enter h).2 = e ∧
    (e.isRoot = true ↔ (h.frame e.frame).parent = none) ∧
    (∀ name, ((e.ownerOf h name).isSome = true ↔ (e.resolve h name).isSome = true) ∧
      ∀ o, e.ownerOf h name = some o → h.Outwards e.frame o.frame ∧ o.root = e.root ∧
        o.resolve h name = e.resolve h name ∧ σ.Reaches (.env o)) ∧
    σ.Reaches (.env (e.exit h)) ∧ σ.Reaches (.env e.atRoot) ∧
    ∀ a c, σ.Reaches (.value (.function a)) → h.closure? a = some c → σ.Reaches (.env c.env) := by
  intro h
  have hg : h.Grounded e.root e.frame := hσ.wellFormed hhost e he
  have hroot : h.Outwards e.frame e.root := by
    obtain ⟨inner, hinner⟩ := hg.chain_eq
    refine hg.mem_chain_iff.1 ?_
    rw [hinner]
    exact List.mem_append_right _ (List.mem_singleton_self _)
  refine ⟨hroot, fun a ha => ⟨(hg.of_outwards ha).parent_eq_none_iff, (hg.of_outwards ha).host_iff⟩,
    hg.chain_eq, fun a => hg.mem_chain_iff,
    fun name => ⟨Env.search_resolve hg name, Env.search_ownerOf hg name⟩, e.exit_enter h,
    Env.isRoot_iff hg, fun name => ⟨by rw [Env.isSome_ownerOf], fun o ho => ?_⟩, he.exit, he.atRoot,
    fun a c ha hc => ha.closure hc⟩
  obtain ⟨hmem, hsame⟩ := Env.mem_chain_of_ownerOf ho
  exact ⟨hg.mem_chain_iff.1 hmem, hsame, Env.resolve_of_ownerOf ho, he.owner ho⟩

theorem environments_stay_wellFormed_afterEnter :
    ∃ o, afterEnter.heap.Outwards 2 0 ∧ (⟨2, 0⟩ : Env).ownerOf afterEnter.heap "x" = some o ∧
      o.isRoot = true ∧ (⟨2, 0⟩ : Env).resolve afterEnter.heap "x" = some .null ∧
      o.resolve afterEnter.heap "x" = some .null := by
  obtain ⟨hout, -, -, -, -, -, -, howner, -⟩ :=
    environments_stay_wellFormed Library.host_operates reached_afterEnter reaches_afterEnter
  refine ⟨⟨0, 0⟩, hout, rfl, rfl, rfl, ?_⟩
  rw [((howner "x").2 ⟨0, 0⟩ rfl).2.2.1]
  rfl

end HostScript.Session
