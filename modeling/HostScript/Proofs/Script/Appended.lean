import HostScript.Proofs.Run.Blocks
import HostScript.Proofs.Script.Handover

/-!
# Programs one after another

The context carries what a program has defined on to the next one. Under its names the next program
finds what it would have found in the root frame of the first, had it been appended to it. So both
ways come to the same, up to the addresses of cells.

* `Script.evaluate_append`: two runs, one after the other, against the run of both programs as one.
* `Script.EndsAlike`: what being the same means: value, context, host calls and all cells that can
  be reached afterwards.
-/

namespace HostScript

/-! ## Root frames without hidden entries -/

/-- A root frame without hidden host entries leads to what look-ups find in it, and to nothing
else. -/
theorem mem_handles_prune {h : Heap} {env : Env} {f : Frame} (hroot : h.cell env.root = .frame f)
    (hparent : f.parent = none) {b : Addr} :
    b ∈ ((env.pruneShadowedHost h).cell env.root).handles ↔
      ∃ name v, (h.frame env.root).lookup name = some v ∧ v.addr? = some b := by
  constructor
  · intro hb
    rw [Env.pruneShadowedHost, Heap.cell_modifyFrame, if_pos rfl, hroot] at hb
    rw [Heap.frame, hroot]
    simp only [Cell.handles, hparent, Option.toList_none, List.nil_append, List.mem_append,
      List.mem_filterMap] at hb
    rcases hb with ⟨v, hv, hvb⟩ | hb
    · obtain ⟨name, hname⟩ := f.bindings.mem_values_iff.1 hv
      exact ⟨name, v, by rw [Frame.lookup, hname]; rfl, hvb⟩
    · cases hhost : f.host with
      | none =>
        rw [hhost] at hb
        cases hb
      | some host =>
        rw [hhost] at hb
        obtain ⟨v, hv, hvb⟩ := List.mem_filterMap.1 hb
        obtain ⟨name, hname⟩ := (OrderedMap.mem_values_iff _).1 hv
        rw [OrderedMap.get?_filter] at hname
        split at hname
        · next hkeep =>
          -- The entry is not hidden, so it is what the look-up finds.
          have hfree : f.bindings.get? name = none := by
            simpa [OrderedMap.contains] using hkeep
          refine ⟨name, v, ?_, hvb⟩
          rw [Frame.lookup, hfree, hhost]
          exact hname
        · cases hname
  · rintro ⟨name, v, hv, hvb⟩
    rw [← Heap.lookup_eq_of_indistinct (Script.indistinct_prune env h env.root)] at hv
    exact Heap.mem_handles_of_lookup hv hvb

/-! ## Reaching in two heaps -/

section Reaching

variable {h h' : Heap} {ρ : Addr → Addr} {live : Addr → Prop} {roots : List Addr}

/-- Live cells lead to live cells, so whatever is reached from them is live. -/
theorem live_of_reaches (hroots : ∀ a ∈ roots, live a)
    (hlive : ∀ a, live a → ∀ b ∈ (h.cell a).handles, live b) {a : Addr}
    (ha : h.Reaches Cell.handles roots a) : live a := by
  induction ha with
  | root ha => exact hroots _ ha
  | step _ hb ih => exact hlive _ ih _ hb

/-- Where live cells lead to the same, up to addresses, the same can be reached. -/
theorem reaches_map_iff (hroots : ∀ a ∈ roots, live a)
    (hlive : ∀ a, live a → ∀ b ∈ (h.cell a).handles, live b)
    (hsame : ∀ a, live a → ∀ b, b ∈ (h'.cell (ρ a)).handles ↔ ∃ d ∈ (h.cell a).handles, ρ d = b)
    {b : Addr} :
    h'.Reaches Cell.handles (roots.map ρ) b ↔ ∃ a, h.Reaches Cell.handles roots a ∧ ρ a = b := by
  constructor
  · intro hb
    induction hb with
    | root hb =>
      obtain ⟨a, ha, rfl⟩ := List.mem_map.1 hb
      exact ⟨a, .root ha, rfl⟩
    | step _ hb ih =>
      obtain ⟨a, ha, rfl⟩ := ih
      obtain ⟨d, hd, rfl⟩ := (hsame a (live_of_reaches hroots hlive ha) _).1 hb
      exact ⟨d, .step ha hd, rfl⟩
  · rintro ⟨a, ha, rfl⟩
    induction ha with
    | root ha => exact .root (List.mem_map.2 ⟨_, ha, rfl⟩)
    | step ha hb ih =>
      exact .step ih ((hsame _ (live_of_reaches hroots hlive ha) _).2 ⟨_, hb, rfl⟩)

end Reaching

/-! ## The ends of twin runs -/

namespace Handover.Twins

variable {s : Handover} {before : List HostCall} {w w' : World}

/-- The heap without the hidden entries of the root frame that the first run goes on in. -/
def rootHeap (s : Handover) (w : World) : Heap :=
  Env.pruneShadowedHost ⟨s.root, s.root⟩ w.heap

/-- The heap without the hidden entries of the fresh root frame. -/
def freshHeap (s : Handover) (w : World) : Heap :=
  Env.pruneShadowedHost ⟨s.next, s.next⟩ w.heap

/-- Pruning one root leaves all other cells. -/
theorem cell_rootHeap {a : Addr} (ha : a ≠ s.root) :
    (rootHeap s w).cell a = w.heap.cell a := Script.cell_prune_of_ne ha

theorem cell_freshHeap {a : Addr} (ha : a ≠ s.root) :
    (freshHeap s w').cell (s.rename a) = w'.heap.cell (s.rename a) :=
  Script.cell_prune_of_ne fun h => ha (injective_rename (h.trans rename_root.symm))

/-- Pruning takes away only what was hidden, so no look-up notices. -/
theorem lookups_rootHeap (s : Handover) (w : World) (a : Addr) :
    ((rootHeap s w).frame a).parent = (w.heap.frame a).parent ∧
      ∀ name, ((rootHeap s w).frame a).lookup name = (w.heap.frame a).lookup name :=
  have hsame := Script.indistinct_prune ⟨s.root, s.root⟩ w.heap a
  ⟨Heap.parent_eq_of_indistinct hsame, Heap.lookup_eq_of_indistinct hsame⟩

theorem lookups_freshHeap (s : Handover) (w' : World) (a : Addr) :
    ((freshHeap s w').frame a).parent = (w'.heap.frame a).parent ∧
      ∀ name, ((freshHeap s w').frame a).lookup name = (w'.heap.frame a).lookup name :=
  have hsame := Script.indistinct_prune ⟨s.next, s.next⟩ w'.heap a
  ⟨Heap.parent_eq_of_indistinct hsame, Heap.lookup_eq_of_indistinct hsame⟩

/-- Frames correspond after pruning as they did before. -/
theorem corresponds_pruned (hw : s.Twins before w w') {a : Addr} (ha : s.live a) :
    ((rootHeap s w).frame a).Corresponds s.rename ((freshHeap s w').frame (s.rename a)) := by
  obtain ⟨hparent, hlookup⟩ := lookups_rootHeap s w a
  obtain ⟨hparent', hlookup'⟩ := lookups_freshHeap s w' (s.rename a)
  have hsame : (w.heap.frame a).Corresponds s.rename (w'.heap.frame (s.rename a)) :=
    Relocation.corresponds (R := s.relocation before) hw ha
  refine ⟨?_, fun name => ?_⟩
  · rw [hparent', hparent, hsame.parent]
  · rw [hlookup', hlookup, hsame.lookup]

/-- Once nothing is hidden, the handles of a root are those to what its names are bound to. -/
theorem mem_handles_rootHeap {f : Frame} (hcell : w.heap.cell s.root = .frame f)
    (hparent : f.parent = none) {b : Addr} :
    b ∈ ((rootHeap s w).cell s.root).handles ↔
      ∃ name v, (w.heap.frame s.root).lookup name = some v ∧ v.addr? = some b :=
  have hroot : w.heap.cell (⟨s.root, s.root⟩ : Env).root = .frame f := hcell
  mem_handles_prune hroot hparent

theorem mem_handles_freshHeap {f : Frame} (hcell : w'.heap.cell s.next = .frame f)
    (hparent : f.parent = none) {b : Addr} :
    b ∈ ((freshHeap s w').cell s.next).handles ↔
      ∃ name v, (w'.heap.frame s.next).lookup name = some v ∧ v.addr? = some b :=
  have hroot : w'.heap.cell (⟨s.next, s.next⟩ : Env).root = .frame f := hcell
  mem_handles_prune hroot hparent

/-- Live cells lead to live cells. -/
theorem live_of_mem_handles (hw : s.Twins before w w') {a b : Addr} (ha : s.live a)
    (hb : b ∈ ((rootHeap s w).cell a).handles) : s.live b := by
  by_cases hroot : a = s.root
  · obtain ⟨defined, hcell, -⟩ := hw.roots
    rw [hroot] at hb
    have hlookup : ∃ name v, (w.heap.frame s.root).lookup name = some v ∧ v.addr? = some b :=
      (mem_handles_rootHeap hcell rfl).1 hb
    obtain ⟨name, v, hv, hvb⟩ := hlookup
    exact (hw.within_of_root_lookup hv b hvb).1
  · rw [cell_rootHeap hroot] at hb
    exact (hw.heap.handles a ha hroot b hb).1

/-- Live cells lead to the same in both heaps. -/
theorem mem_handles_iff (hw : s.Twins before w w') {a b : Addr} (ha : s.live a) :
    b ∈ ((freshHeap s w').cell (s.rename a)).handles ↔
      ∃ d ∈ ((rootHeap s w).cell a).handles, s.rename d = b := by
  -- The two roots hold the same in different layers. Elsewhere the cells are the same up to
  -- renaming.
  by_cases hroot : a = s.root
  · obtain ⟨defined, hcell, hcell', -⟩ := hw.roots
    have hsame : ∀ name, (w'.heap.frame s.next).lookup name =
        ((w.heap.frame s.root).lookup name).map (renamed s.rename) := hw.root_corresponds.lookup
    rw [hroot, rename_root, mem_handles_freshHeap hcell' rfl]
    simp only [mem_handles_rootHeap hcell rfl, hsame]
    constructor
    · rintro ⟨name, v, hv, hvb⟩
      obtain ⟨u, hu, rfl⟩ := Option.map_eq_some_iff.1 hv
      rw [Value.addr?_renamed] at hvb
      obtain ⟨d, hd, hdb⟩ := Option.map_eq_some_iff.1 hvb
      exact ⟨d, ⟨name, u, hu, hd⟩, hdb⟩
    · rintro ⟨d, ⟨name, u, hu, hd⟩, rfl⟩
      refine ⟨name, renamed s.rename u, Option.map_eq_some_iff.2 ⟨u, hu, rfl⟩, ?_⟩
      rw [Value.addr?_renamed, hd]
      rfl
  · rw [cell_freshHeap hroot, cell_rootHeap hroot, hw.heap.cell a ha hroot, Cell.handles_renamed]
    exact List.mem_map

/-- Heaps in which the cells that can be reached are those of the twins: the same can be reached in
both, and it is the same. -/
theorem reached_alike (hw : s.Twins before w w') {h h' : Heap} {roots : List Addr}
    (hroots : ∀ a ∈ roots, s.live a)
    (hcell : ∀ a, (rootHeap s w).Reaches Cell.handles roots a → h.cell a = (rootHeap s w).cell a)
    (hcell' : ∀ b, (freshHeap s w').Reaches Cell.handles (roots.map s.rename) b →
      h'.cell b = (freshHeap s w').cell b) :
    (∀ b, h'.Reaches Cell.handles (roots.map s.rename) b ↔
      ∃ a, h.Reaches Cell.handles roots a ∧ s.rename a = b) ∧
    (∀ a, h.Reaches Cell.handles roots a → a ≠ s.root →
      h'.cell (s.rename a) = renamed s.rename (h.cell a)) ∧
    (∀ e : Env, h.Reaches Cell.handles roots e.frame → ∀ name,
      (renamed s.rename e).resolve h' name = renamed s.rename (e.resolve h name) ∧
      (renamed s.rename e).ownerOf h' name = renamed s.rename (e.ownerOf h name)) := by
  have hreaches : ∀ a, h.Reaches Cell.handles roots a ↔
      (rootHeap s w).Reaches Cell.handles roots a := fun a => Heap.Reaches.congr_iff hcell
  have hmapped : ∀ b, (freshHeap s w').Reaches Cell.handles (roots.map s.rename) b ↔
      ∃ a, h.Reaches Cell.handles roots a ∧ s.rename a = b := fun b => by
    simp only [hreaches]
    exact reaches_map_iff hroots (fun a ha d hd => hw.live_of_mem_handles ha hd)
      fun a ha d => hw.mem_handles_iff ha
  -- What can be reached is live, and its cell is the one at the end of the code in both heaps.
  have hlive : ∀ a, h.Reaches Cell.handles roots a → s.live a := fun a ha =>
    live_of_reaches hroots (fun a ha d hd => hw.live_of_mem_handles ha hd) ((hreaches a).1 ha)
  have hfirst : ∀ a, h.Reaches Cell.handles roots a → h.cell a = (rootHeap s w).cell a :=
    fun a ha => hcell a ((hreaches a).1 ha)
  have hsecond : ∀ a, h.Reaches Cell.handles roots a →
      h'.cell (s.rename a) = (freshHeap s w').cell (s.rename a) := fun a ha =>
    hcell' _ ((hmapped _).2 ⟨a, ha, rfl⟩)
  have hparent : ∀ a, h.Reaches Cell.handles roots a → ∀ p, (h.frame a).parent = some p →
      h.Reaches Cell.handles roots p ∧ p < a ∧ s.rename p < s.rename a := fun a ha p hp => by
    refine ⟨.step ha (Heap.parent_mem_handles hp), ?_⟩
    rw [Heap.frame, hfirst a ha] at hp
    have hparent : (w.heap.frame a).parent = some p := (lookups_rootHeap s w a).1.symm.trans hp
    exact (Relocation.parent (R := s.relocation before) hw (hlive a ha) hparent).2
  have hframe : ∀ a, h.Reaches Cell.handles roots a →
      (h.frame a).Corresponds s.rename (h'.frame (s.rename a)) := fun a ha => by
    rw [Heap.frame, Heap.frame, hfirst a ha, hsecond a ha]
    exact hw.corresponds_pruned (hlive a ha)
  refine ⟨fun b => (Heap.Reaches.congr_iff hcell').trans (hmapped b), fun a ha hne => ?_,
    fun e he name => ⟨?_, ?_⟩⟩
  · rw [hsecond a ha, hfirst a ha, cell_freshHeap hne, cell_rootHeap hne,
      hw.heap.cell a (hlive a ha) hne]
  · exact Env.resolve_renamed hparent hframe he name
  · exact Env.ownerOf_renamed hparent hframe he name

end Handover.Twins

/-! ## What is the same at the end -/

namespace Script

/-- Two runs that have ended alike, up to the addresses of cells: with the same value and the same
context, in the order of its names; the same host functions have been called since `before`, with
the same receivers and arguments, and have logged and put aside the same. The same cells can be
reached from outside, and they hold the same. The root frames may bind a name in different ways, but
in every environment that can be reached, theirs among them, each name resolves to the same value
and belongs to the same frame. -/
structure EndsAlike (ρ : Addr → Addr) (root : Addr) (before : List HostCall) (outside : List Addr)
    (v v' : Value) (c c' : Context) (w w' : World) : Prop where
  value : v' = renamed ρ v
  context : c' = renamed ρ c
  calls : ∃ new, w.calls = new ++ before ∧ w'.calls = renamed ρ new ++ before
  log : w'.log = w.log
  held : w'.held = renamed ρ w.held
  reaches : ∀ b, w'.heap.Reaches Cell.handles (leftHeld outside v' c' w') b ↔
    ∃ a, w.heap.Reaches Cell.handles (leftHeld outside v c w) a ∧ ρ a = b
  cell : ∀ a, w.heap.Reaches Cell.handles (leftHeld outside v c w) a → a ≠ root →
    w'.heap.cell (ρ a) = renamed ρ (w.heap.cell a)
  names : ∀ e : Env, w.heap.Reaches Cell.handles (leftHeld outside v c w) e.frame → ∀ name,
    (renamed ρ e).resolve w'.heap name = renamed ρ (e.resolve w.heap name) ∧
    (renamed ρ e).ownerOf w'.heap name = renamed ρ (e.ownerOf w.heap name)

theorem held_of_done {s : Script} {context after : Context} {outside : List Addr} {env : Env}
    {body : Outcome Completion} {v : Value} {w w' : World}
    (hended : s.finish context outside env body = .done (v, after) w') :
    s.held context outside env body w = leftHeld outside v after w := by
  rw [held, hended]
  rfl

/-- What is held from outside goes by the other addresses. -/
theorem leftHeld_renamed {ρ : Addr → Addr} {outside : List Addr} (houtside : ∀ a ∈ outside, ρ a = a)
    {w w' : World} (hheld : w'.held = renamed ρ w.held) (v : Value) (c : Context) :
    leftHeld outside (renamed ρ v) (renamed ρ c) w' = (leftHeld outside v c w).map ρ := by
  have hvalues : renamed ρ v :: (renamed ρ c).values = (v :: c.values).map (renamed ρ) := by
    rw [renamed_map, OrderedMap.values_map, List.map_cons]
  have houtside' : outside.map ρ = outside :=
    (List.map_congr_left houtside).trans (List.map_id _)
  have hheld' : w'.heldAddrs = w.heldAddrs.map ρ := by
    rw [World.heldAddrs, hheld, renamed_array, Array.toList_map, filterMap_addr?_renamed]
    rfl
  rw [leftHeld, hvalues, filterMap_addr?_renamed, hheld', leftHeld, List.map_append,
    List.map_append, houtside']

section Ends

variable {t : Handover} {before : List HostCall} {s s' : Script} {context : Context}
  {outside kept : List Addr} {c : Completion} {u u' w w' : World} {v v' : Value} {c₁ c₂ : Context}

/-- What is written back in one go and what is written back in two is the same. -/
theorem writeBack_renamed {ρ : Addr → Addr} {bindings defined : OrderedMap Value}
    (hkept : ∀ x ∈ (context.writeBack bindings).values, renamed ρ x = x) :
    (context.writeBack bindings).writeBack (renamed ρ defined) =
      renamed ρ (context.writeBack (bindings.insertAll defined.entries)) := by
  have hself : (context.writeBack bindings).map (renamed ρ) = context.writeBack bindings :=
    OrderedMap.map_eq_self hkept
  have htwice : context.writeBack (bindings.insertAll defined.entries) =
      (context.writeBack bindings).insertAll defined.entries :=
    OrderedMap.insertAll_insertAll context bindings defined
  rw [htwice, renamed_map, renamed_map, OrderedMap.map_insertAll, hself]
  rfl

/-- All that is held at the end is live: the value, the context, and what the host keeps. -/
theorem live_of_mem_leftHeld (hu : t.Twins before u u') {defined : OrderedMap Value}
    (hdefined : ∀ x ∈ defined.values, x.Within t.live u.heap.size)
    (hcontext : ∀ x ∈ (context.writeBack t.bindings).values, ∀ a, x.addr? = some a → t.kept a)
    (houtside : ∀ a ∈ outside, t.kept a) (hv : v.Within t.live u.heap.size) :
    ∀ a ∈ leftHeld outside v (context.writeBack (t.bindings.insertAll defined.entries)) u,
      t.live a := by
  intro a ha
  rcases mem_leftHeld.1 ha with ⟨x, hx, hxa⟩ | ha | ⟨x, hx, hxa⟩
  · rcases List.mem_cons.1 hx with rfl | hx
    · exact (hv a hxa).1
    obtain ⟨name, hname⟩ := (OrderedMap.mem_values_iff _).1 hx
    rw [get?_writeBack, OrderedMap.get?_insertAll, Option.or_assoc] at hname
    rcases Option.or_eq_some_iff.1 hname with hnew | ⟨-, hold⟩
    · exact (hdefined x (defined.mem_values_of_get? hnew) a hxa).1
    · rw [← get?_writeBack] at hold
      exact Handover.live_kept (hcontext x (OrderedMap.mem_values_of_get? _ hold) a hxa)
  · exact Handover.live_kept (houtside a ha)
  · exact (hu.within x hx a hxa).1

/-- The end of a run holds what is held after it, and what else the caller keeps. -/
theorem mem_leftHeld_of_records (hheld : w.held = u.held) (kept : List Addr) {a : Addr}
    (ha : a ∈ leftHeld outside v c₁ w) : a ∈ leftHeld (outside ++ kept) v c₁ u := by
  rw [mem_leftHeld] at ha ⊢
  exact ha.imp_right (.imp (List.mem_append_left kept) fun hput => hheld ▸ hput)

theorem value_of_finish {env : Env}
    (hended : s.finish context outside env (.done c u) = .done (v, c₁) w) : v = c.result := by
  have hresults : [c.result] = [v] := congrArg Outcome.results hended
  exact (List.singleton_inj.1 hresults).symm

/-- The context has in it what the root frame binds at the end. -/
theorem context_of_finish {root : Addr} {f : Frame} (hroot : u.heap.cell root = .frame f)
    (hwrite : s.settings.writeBack = true)
    (hended : s.finish context outside ⟨root, root⟩ (.done c u) = .done (v, c₁) w) :
    c₁ = context.writeBack f.bindings := by
  have hcell : u.heap.cell (⟨root, root⟩ : Env).root = .frame f := hroot
  have hafter := context_finish_of_done rfl hcell hended
  rw [hended, hwrite] at hafter
  exact hafter

/-- The ends of twin runs end alike, since the cleanup finds the same cells held. -/
theorem endsAlike_finish (hu : t.Twins before u u') (hwrite : s.settings.writeBack = true)
    (hwrite' : s'.settings.writeBack = true) (hc : c.result.Within t.live u.heap.size)
    (hcontext : ∀ x ∈ (context.writeBack t.bindings).values, ∀ a, x.addr? = some a → t.kept a)
    (houtside : ∀ a ∈ outside, t.kept a)
    (hended : s.finish context outside ⟨t.root, t.root⟩ (.done c u) = .done (v, c₁) w)
    (hended' : s'.finish (context.writeBack t.bindings) (outside ++ kept) ⟨t.next, t.next⟩
      (.done (renamed t.rename c) u') = .done (v', c₂) w') :
    EndsAlike t.rename t.root before outside v v' c₁ c₂ w w' := by
  obtain ⟨defined, hroot, hnext, hdefined⟩ := hu.roots
  have hv : v = c.result := value_of_finish hended
  have hv' : v' = renamed t.rename v := by
    rw [value_of_finish hended', Completion.result_renamed, hv]
  have hc₁ := context_of_finish hroot hwrite hended
  have hc₂ := context_of_finish hnext hwrite' hended'
  have hc₂' : c₂ = renamed t.rename c₁ := by
    rw [hc₁, hc₂]
    exact writeBack_renamed fun x hx =>
      Value.renamed_eq_self fun a ha => Handover.rename_kept (hcontext x hx a ha)
  -- The ends of the runs touch the heaps alone.
  have hw : (s.finish context outside ⟨t.root, t.root⟩ (.done c u)).world? = some w := by
    rw [hended]
    rfl
  have hw' : (s'.finish (context.writeBack t.bindings) (outside ++ kept) ⟨t.next, t.next⟩
      (.done (renamed t.rename c) u')).world? = some w' := by
    rw [hended']
    rfl
  obtain ⟨hcalls, -, hlog, hheld⟩ := records_finish rfl hw
  obtain ⟨hcalls', -, hlog', hheld'⟩ := records_finish rfl hw'
  have hput : w'.held = renamed t.rename w.held := by rw [hheld, hheld', hu.held]
  have hroots : leftHeld outside v c₁ w = leftHeld outside v c₁ u := by
    rw [leftHeld, World.heldAddrs, hheld]
    rfl
  have hroots' : leftHeld outside v' c₂ w' = (leftHeld outside v c₁ w).map t.rename := by
    rw [hv', hc₂']
    exact leftHeld_renamed (fun a ha => Handover.rename_kept (houtside a ha)) hput v c₁
  have hlive : ∀ a ∈ leftHeld outside v c₁ w, t.live a := by
    rw [hroots, hc₁]
    exact live_of_mem_leftHeld hu hdefined hcontext houtside (hv ▸ hc)
  have hspared : ∀ a, (Handover.Twins.rootHeap t u).Reaches Cell.handles
      (leftHeld outside v c₁ w) a → w.heap.cell a = (Handover.Twins.rootHeap t u).cell a :=
    fun a ha => cell_finish rfl hw (by rwa [held_of_done hended, ← hroots])
  have hspared' : ∀ b, (Handover.Twins.freshHeap t u').Reaches Cell.handles
      ((leftHeld outside v c₁ w).map t.rename) b →
      w'.heap.cell b = (Handover.Twins.freshHeap t u').cell b := fun b hb => by
    refine cell_finish rfl hw' (hb.mono fun a ha => ?_)
    rw [← hroots'] at ha
    rw [held_of_done hended']
    exact mem_leftHeld_of_records hheld' kept ha
  obtain ⟨hreaches, hcell, hnames⟩ := hu.reached_alike hlive hspared hspared'
  rw [← hroots'] at hreaches
  refine ⟨hv', hc₂', ?_, ?_, hput, hreaches, hcell, hnames⟩
  · obtain ⟨new, hnew, hnew'⟩ := hu.calls
    exact ⟨new, hcalls.trans hnew, hcalls'.trans hnew'⟩
  · rw [hlog', hu.log, hlog]

end Ends

/-! ## The programs as one -/

section Programs

variable {host : Host} {limit : Nat} {first second : List Stmt} {settings : Settings}
  {outside kept : List Addr} {context : Context} {w u : World} {last : Value}

/-- The second program goes on where the first one has ended, in its root frame. -/
theorem body_append (hnonempty : second ≠ [])
    (hnormal : body ⟨first, settings⟩ host limit context w = .done (.normal last) u) :
    body ⟨first ++ second, settings⟩ host limit context w =
      runAll (host.call limit) limit second ⟨w.heap.size, w.heap.size⟩ .undefined u := by
  have hparts : body ⟨first ++ second, settings⟩ host limit context w =
      runAll (host.call limit) limit second ⟨w.heap.size, w.heap.size⟩ last u :=
    (congrFun (runAll_append first second .undefined) _).trans (Action.bind_of_done hnormal)
  rw [hparts, runAll_last hnonempty last .undefined]

variable (limit second) in
/-- The code of the second program, in the root frame of the first one and in one of its own. -/
theorem agree_second {t : Handover} {before : List HostCall} (hhost : host.SeesNoAddresses)
    {u' : World} (hu : t.Twins before u u') :
    (t.relocation before).tandem.Agree u.heap.size (t.relocation before).tandem.completion
      (runAll (host.call limit) limit second ⟨t.root, t.root⟩ .undefined u)
      (runAll (host.call limit) limit second ⟨t.next, t.next⟩ .undefined u') := by
  have hlive : t.live t.root ∧ t.root < u.heap.size := ⟨Handover.live_root, hu.root_lt⟩
  have henv : (t.relocation before).Reaches u.heap.size ⟨t.root, t.root⟩ := ⟨hlive, hlive⟩
  have hrun := Relocation.runAll_agree hhost limit second hu henv
  have hroot : renamed t.rename (⟨t.root, t.root⟩ : Env) = ⟨t.next, t.next⟩ :=
    congrArg₂ Env.mk Handover.rename_root Handover.rename_root
  rwa [show (t.relocation before).rename = t.rename from rfl, hroot] at hrun

/-- What the first program leaves to the second one. -/
theorem exists_handover (hhost : host.SeesNoAddresses) (hwrite : settings.writeBack = true)
    (hready : w.Ready context outside) (hfree : FunctionFree first)
    (hnormal : body ⟨first, settings⟩ host limit context w = .done (.normal last) u)
    {v₁ : Value} {c₁ : Context} {w₁ : World}
    (hfirst : evaluate ⟨first, settings⟩ host limit outside context w = .done (v₁, c₁) w₁) :
    ∃ t : Handover, t.root = w.heap.size ∧ t.next = w₁.heap.size ∧
      c₁ = context.writeBack t.bindings ∧
      (∀ x ∈ c₁.values, ∀ a, x.addr? = some a → t.kept a) ∧ (∀ a ∈ outside, t.kept a) ∧
      t.Twins w₁.calls u (start (c₁.hostLayer settings.globals) w₁) := by
  obtain ⟨k, hk, hu, hlast⟩ := sealed_body hhost hready hfree hnormal
  obtain ⟨bindings, hcell, hbindings⟩ := exists_bindings hu
  rw [evaluate_eq_finish, hnormal] at hfirst
  have hv₁ : v₁ = last := value_of_finish hfirst
  have hc₁ : c₁ = context.writeBack bindings := context_of_finish hcell hwrite hfirst
  subst hv₁ hc₁
  -- Nothing that is held from outside leads to the root frame of the run.
  have hheldForeign := foreign_of_mem_leftHeld hready hk hu hbindings (hu.bound ▸ hlast)
  have hforeign : ∀ a, LeftOver context outside w u v₁ bindings a →
      k.foreign a ∧ a < u.heap.size := fun a ha => foreign_of_reaches hu hheldForeign ha
  have hlt : w.heap.size < u.heap.size := Nat.lt_of_lt_of_le (Nat.lt_succ_self _)
    (hk.1.trans hu.bound.le)
  have hkept : ∀ a, LeftOver context outside w u v₁ bindings a →
      a < u.heap.size ∧ a ≠ w.heap.size :=
    fun a ha => ⟨(hforeign a ha).2, fun h => (hforeign a ha).1 (h ▸ hu.root)⟩
  have hw₁ : (finish ⟨first, settings⟩ context outside ⟨w.heap.size, w.heap.size⟩
      (.done (.normal v₁) u)).world? = some w₁ :=
    congrArg Outcome.world? hfirst
  have hsize : w₁.heap.size = u.heap.size := size_finish rfl hw₁
  have hsame : ∀ a, LeftOver context outside w u v₁ bindings a →
      w₁.heap.cell a = ((rootEnv w).pruneShadowedHost u.heap).cell a := fun a ha => by
    refine cell_finish rfl hw₁ ?_
    rw [held_of_done hfirst]
    exact ha
  obtain ⟨hcalls, -, hlog, hheld⟩ := records_finish rfl hw₁
  refine ⟨handover context outside w u v₁ bindings settings.globals hlt hkept, rfl, hsize.symm, rfl,
    fun x hx a ha => .root ?_, fun a ha => .root ?_, ?_⟩
  · exact mem_leftHeld.2 (.inl ⟨x, List.mem_cons_of_mem _ hx, ha⟩)
  · exact mem_leftHeld.2 (.inr (.inl ha))
  · rw [hcalls]
    exact twins_start hu (fun a ha => (hforeign a ha).1) hcell hsize hsame hcalls hlog hheld

variable (limit first second settings outside kept) in
/-- A program without functions in it ends normally, and then another one, which is not empty, ends
well against the context that it leaves. Then the two programs as one end well too, and alike: the
root frame of both together corresponds to that of the second run, and what was there between the
runs stays where it was. -/
theorem evaluate_append (hhost : host.SeesNoAddresses) (hwrite : settings.writeBack = true)
    (hready : w.Ready context outside) (hfree : FunctionFree first) (hnonempty : second ≠ [])
    (hnormal : body ⟨first, settings⟩ host limit context w = .done (.normal last) u)
    {v₁ v₂ : Value} {c₁ c₂ : Context} {w₁ w₂ : World}
    (hfirst : evaluate ⟨first, settings⟩ host limit outside context w = .done (v₁, c₁) w₁)
    (hsecond : evaluate ⟨second, settings⟩ host limit (outside ++ kept) c₁ w₁ =
      .done (v₂, c₂) w₂) :
    ∃ ρ : Addr → Addr, Function.Injective ρ ∧ ρ w.heap.size = w₁.heap.size ∧
      (∀ a < w₁.heap.size, a ≠ w.heap.size → ρ a = a) ∧
      ∃ v c w', evaluate ⟨first ++ second, settings⟩ host limit outside context w =
          .done (v, c) w' ∧
        EndsAlike ρ w.heap.size w₁.calls outside v v₂ c c₂ w' w₂ := by
  obtain ⟨t, hroot, hnext, hc₁, hcontext, houtside, hu⟩ :=
    exists_handover hhost hwrite hready hfree hnormal hfirst
  refine ⟨t.rename, Handover.injective_rename, ?_, fun a ha hne => ?_, ?_⟩
  · rw [← hroot, ← hnext, Handover.rename_root]
  · rw [← hnext] at ha
    exact Handover.rename_of_lt ha (hroot ▸ hne)
  have hrun := agree_second limit second hhost hu
  rw [evaluate_eq_finish, body_append hnonempty hnormal, ← hroot]
  rw [evaluate_eq_finish, body, ← hnext] at hsecond
  generalize runAll (host.call limit) limit second ⟨t.root, t.root⟩ .undefined u = o at hrun ⊢
  generalize runAll (host.call limit) limit second ⟨t.next, t.next⟩ .undefined _ = o'
    at hrun hsecond
  -- Both second parts end in the same way.
  cases hrun with
  | @done c v v' k hk hv hc =>
    obtain ⟨rfl, hv⟩ := hv
    have hresult : c.result.Within t.live v.heap.size := Tandem.value_result hc
    subst hc₁
    exact ⟨_, _, _, rfl,
      endsAlike_finish hv hwrite hwrite hresult hcontext houtside rfl hsecond⟩
  | failed => cases hsecond
  | exhausted => cases hsecond

/-- A host function that returns its argument. -/
def withId : World where
  heap := ⟨#[.native (Library.function "id")]⟩

theorem ready_withId : withId.Ready (.ofList [("id", .native 0), ("y", .bool true)]) [] := by
  have hcell : ∀ a, (withId.heap.cell a).handles = [] ∧ (withId.heap.cell a).parent? = none
    | 0 => ⟨rfl, rfl⟩
    | _ + 1 => ⟨rfl, rfl⟩
  refine ⟨⟨fun a b hb => ?_, fun a p hp => ?_, fun v hv => ?_⟩, ?_, List.forall_mem_nil _⟩
  · rw [(hcell a).1] at hb
    cases hb
  · rw [(hcell a).2] at hp
    cases hp
  · cases Array.mem_toList_iff.2 hv
  · decide

/-- `x = id(y)` -/
def copyThroughHost : List Stmt :=
  [.expr (.assign .assign (.name "x") (.call (.ident "id") [.ident "y"] "id"))]

/-- `f = function () { return x }` -/
def closeOverCopy : List Stmt :=
  [.expr (.assign .assign (.name "f") (.function (.mk none [] [.ret (some (.ident "x"))] false)))]

/-- The function that is created over the copy corresponds to the one of the second run, and its
root frame to the root frame there. -/
theorem evaluate_append_closes_over_copy :
    ∃ c₁ w₁ c₂ w₂,
      evaluate ⟨copyThroughHost, {}⟩ Library.host 3 []
        (.ofList [("id", .native 0), ("y", .bool true)]) withId = .done (.bool true, c₁) w₁ ∧
      evaluate ⟨closeOverCopy, {}⟩ Library.host 3 [] c₁ w₁ = .done (.function 3, c₂) w₂ ∧
      w₂.calls = [⟨0, .undefined, [.bool true]⟩] ∧ c₂.keys = ["id", "y", "x", "f"] ∧
      ∃ ρ v c w', ρ 1 = 2 ∧ v = .function 2 ∧
        evaluate ⟨copyThroughHost ++ closeOverCopy, {}⟩ Library.host 3 []
          (.ofList [("id", .native 0), ("y", .bool true)]) withId = .done (v, c) w' ∧
        EndsAlike ρ 1 w₁.calls [] v (.function 3) c c₂ w' w₂ := by
  refine ⟨_, _, _, _, rfl, rfl, rfl, by decide, ?_⟩
  have hfree : FunctionFree copyThroughHost := by
    intro code hmem
    simp [copyThroughHost, stmtsMentions, Stmt.mentions, Expr.mentions, Target.mentions,
      listMentions] at hmem
  obtain ⟨ρ, -, hroot, -, v, c, w', hboth, halike⟩ :=
    evaluate_append 3 copyThroughHost closeOverCopy {} [] [] Library.host_seesNoAddresses rfl
      ready_withId hfree (List.cons_ne_nil _ _) rfl rfl rfl
  have hresults : (evaluate ⟨copyThroughHost ++ closeOverCopy, {}⟩ Library.host 3 []
      (.ofList [("id", .native 0), ("y", .bool true)]) withId).results = [.function 2] := rfl
  rw [hboth] at hresults
  exact ⟨ρ, v, c, w', hroot, List.singleton_inj.1 hresults, hboth, halike⟩

end Programs

end Script

end HostScript
