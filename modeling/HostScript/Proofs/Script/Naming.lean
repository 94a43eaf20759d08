import HostScript.Proofs.Script.Driver

/-!
# What a run sees of its context

A run finds entries of its context by name only. So contexts that agree on the receiver and on the
names that the code mentions cannot be told apart by it: `evaluate_sees_only_named`. The same goes
for the global names, which come into the root frame's host layer like entries of the context.
-/

namespace HostScript

/-- What an evaluation comes to, apart from the context. -/
def Outcome.answer? : Outcome (Value × Context) → Option (Except EvalError Value)
  | done (result, _) _ => some (.ok result)
  | failed e _ => some (.error e)
  | exhausted => none

namespace Script

variable {s s' : Script} {context context' : Context} {w : World}

/-! ## The host layer -/

/-- An entry of the context hides a global name. -/
theorem get?_hostLayer (context : Context) (withGlobals : Bool) (name : String) :
    (context.hostLayer withGlobals).get? name =
      (context.get? name).or (if withGlobals then Context.globals.get? name else none) := by
  unfold Context.hostLayer
  rw [OrderedMap.get?_insertAll]
  cases withGlobals <;> rfl

theorem get?_globals_receiverName : Context.globals.get? receiverName = none := rfl

/-- Host layers agree on names on which the contexts agree, if both or neither offer the global
names or none of these is asked for. -/
theorem hostLayers_agree {names : List String}
    (hnamed : ∀ name ∈ receiverName :: names, context'.get? name = context.get? name)
    (hglobals : s'.settings.globals = s.settings.globals ∨
      ∀ name ∈ Context.globals.keys, name ∉ names) (name : String)
    (hname : name ∈ names ∨ name = receiverName) :
    (context'.hostLayer s'.settings.globals).get? name =
      (context.hostLayer s.settings.globals).get? name := by
  have hcontext : context'.get? name = context.get? name :=
    hnamed name (List.mem_cons.2 hname.symm)
  rw [get?_hostLayer, get?_hostLayer, hcontext]
  rcases hglobals with hsame | hnone
  · rw [hsame]
  · have hglobal : Context.globals.get? name = none := by
      rcases hname with hname | rfl
      · by_contra hsome
        obtain ⟨value, hvalue⟩ := Option.ne_none_iff_exists'.1 hsome
        exact hnone name (Context.globals.mem_keys_of_get? hvalue) hname
      · exact get?_globals_receiverName
    rw [hglobal]
    simp

/-! ## Two runs -/

/-- Runs that start with different layers start in worlds that differ in the layer. -/
theorem start_eq_withHost (layer layer' : OrderedMap Value) (w : World) :
    start layer' w = (start layer w).withHost w.heap.size layer' := by
  have hheap : (w.heap.alloc (.frame { host := some layer' })).2 =
      (w.heap.alloc (.frame { host := some layer })).2.withHost w.heap.size layer' := by
    refine Heap.ext_cell ?_ fun a => ?_
    · rw [Heap.size_withHost, Heap.size_alloc, Heap.size_alloc]
    · rw [Heap.cell_withHost, Heap.cell_alloc, Heap.cell_alloc]
      by_cases ha : a = w.heap.size
      · simp only [ha, if_true]
      · simp only [ha, if_false]
  exact congrArg (fun h => ({ w with heap := h } : World)) hheap

/-- The code of a script ends the same way from both layers, in worlds that differ in the layer. -/
theorem body_twice {host : Host} (hhost : host.SeesNoFrames) (limit : Nat)
    (hclosed : w.heap.Closed) (hcode : s'.code = s.code)
    (hlayers : ∀ name, name ∈ stmtsNames s.code ∨ name = receiverName →
      (context'.hostLayer s'.settings.globals).get? name =
        (context.hostLayer s.settings.globals).get? name) :
    (s.body host limit context w = .exhausted ∧ s'.body host limit context' w = .exhausted) ∨
      ∃ k u, Governs w.heap.size (context.hostLayer s.settings.globals) (· ∈ stmtsNames s.code)
          w.definitions k u ∧
        let u' := u.withHost w.heap.size (context'.hostLayer s'.settings.globals)
        (∃ c, s.body host limit context w = .done c u ∧
          s'.body host limit context' w = .done c u') ∨
        ∃ e, s.body host limit context w = .failed e u ∧
          s'.body host limit context' w = .failed e u' := by
  let layer := context.hostLayer s.settings.globals
  let layer' := context'.hostLayer s'.settings.globals
  let L := lineage w.heap.size layer layer' (· ∈ stmtsNames s.code) w.definitions hlayers
  have hstart := governs_start layer (· ∈ stmtsNames s.code) hclosed
  have hserves : L.Serves host := lineage_serves_of_seesNoFrames hhost hlayers
  -- Both runs are runs of one list of statements, from worlds that differ in the layer.
  have hbody := runAll_inStep limit (Lockstep.call_inStep hserves limit) s.code .undefined
    (has_startLineage w) (fun name hname _ => hname) trivial
  have hagree := hbody _ _ _ le_rfl ⟨hstart, start_eq_withHost _ _ w⟩
  unfold body
  rw [hcode]
  generalize runAll (host.call limit) limit s.code _ _ (start _ w) = o at hagree ⊢
  generalize runAll (host.call limit) limit s.code _ _ (start _ w) = o' at hagree ⊢
  cases hagree with
  | @done c u _ k _ hu _ =>
    obtain ⟨hgoverns, rfl⟩ := hu
    exact .inr ⟨k, u, hgoverns, .inl ⟨c, rfl, rfl⟩⟩
  | @failed e u _ k _ hu =>
    obtain ⟨hgoverns, rfl⟩ := hu
    exact .inr ⟨k, u, hgoverns, .inr ⟨e, rfl, rfl⟩⟩
  | exhausted => exact .inl ⟨rfl, rfl⟩

/-- Pruning touches the root frame alone, and not its own bindings. -/
theorem cell_prune_of_ne {env : Env} {h : Heap} {a : Addr} (ha : a ≠ env.root) :
    (env.pruneShadowedHost h).cell a = h.cell a := by
  rw [Env.pruneShadowedHost, Heap.cell_modifyFrame, if_neg ha]

/-- Writing back entries leaves all others as they are. -/
theorem get?_writeBack_of_not_mem {context : Context} {defined : OrderedMap Value} {name : String}
    (hname : name ∉ defined.keys) : (context.writeBack defined).get? name = context.get? name := by
  unfold Context.writeBack
  rw [OrderedMap.get?_insertAll]
  cases hvalue : defined.get? name with
  | none => rfl
  | some value => exact absurd (defined.mem_keys_of_get? hvalue) hname

theorem answer?_finish_failed (s : Script) (context : Context) (outside : List Addr) (env : Env)
    (e : EvalError) (w : World) :
    (s.finish context outside env (.failed e w)).answer? = some (.error e) := rfl

/-- Runs whose code has ended the same way, with the same bindings in the root frame, come to the
same answer and write back the same. -/
theorem finish_twice (env : Env) {body body' : Outcome Completion} {u u' : World} {f f' : Frame}
    (outside outside' : List Addr)
    (hends : (∃ c, body = .done c u ∧ body' = .done c u') ∨
      ∃ e, body = .failed e u ∧ body' = .failed e u')
    (hroot : u.heap.cell env.root = .frame f) (hroot' : u'.heap.cell env.root = .frame f')
    (hbindings : f'.bindings = f.bindings)
    (hwrite : s'.settings.writeBack = s.settings.writeBack) :
    body.world? = some u ∧ body'.world? = some u' ∧
      (s'.finish context' outside' env body').answer? =
        (s.finish context outside env body).answer? ∧
      ∃ defined : OrderedMap Value, (∀ name ∈ defined.keys, name ∈ f.bindings.keys) ∧
        (s.finish context outside env body).context context = context.writeBack defined ∧
        (s'.finish context' outside' env body').context context' = context'.writeBack defined := by
  rcases hends with ⟨c, rfl, rfl⟩ | ⟨e, rfl, rfl⟩
  · refine ⟨rfl, rfl, rfl, if s.settings.writeBack then f.bindings else ∅, fun name hname => ?_,
      context_finish_of_done rfl hroot rfl, ?_⟩
    · split at hname
      · exact hname
      · exact absurd hname List.not_mem_nil
    · rw [← hwrite, ← hbindings]
      exact context_finish_of_done rfl hroot' rfl
  · refine ⟨rfl, rfl, ?_, ∅, List.forall_mem_nil _, context_finish_of_failed rfl,
      context_finish_of_failed rfl⟩
    rw [answer?_finish_failed, answer?_finish_failed]

/-- A cell that is spared after both runs holds the same, but for the layer of the root frame. -/
theorem cell_finish_twice {env : Env} {body body' : Outcome Completion} {u v v' : World}
    {layer : OrderedMap Value} {f : Frame} {outside outside' : List Addr}
    (hbody : body.world? = some u) (hbody' : body'.world? = some (u.withHost env.root layer))
    (hroot : u.heap.cell env.root = .frame f)
    (hended : (s.finish context outside env body).world? = some v)
    (hended' : (s'.finish context' outside' env body').world? = some v') {a : Addr}
    (ha : (env.pruneShadowedHost u.heap).Reaches Cell.handles
      (s.held context outside env body u) a)
    (ha' : (env.pruneShadowedHost (u.withHost env.root layer).heap).Reaches Cell.handles
      (s'.held context' outside' env body' (u.withHost env.root layer)) a) :
    (a ≠ env.root → v'.heap.cell a = v.heap.cell a) ∧
      (v'.heap.frame a).bindings = (v.heap.frame a).bindings := by
  have hcell : v.heap.cell a = (env.pruneShadowedHost u.heap).cell a := cell_finish hbody hended ha
  have hcell' : v'.heap.cell a =
      (env.pruneShadowedHost (u.withHost env.root layer).heap).cell a :=
    cell_finish hbody' hended' ha'
  by_cases har : a = env.root
  · -- The layers differ, the own bindings do not.
    refine ⟨fun hne => absurd har hne, ?_⟩
    have hroot' : (u.withHost env.root layer).heap.cell env.root =
        .frame { f with host := some layer } := by
      show (u.heap.withHost env.root layer).cell env.root = _
      rw [Heap.cell_withHost, if_pos rfl, hroot]
    have hframe : v.heap.frame a = (env.pruneShadowedHost u.heap).frame env.root := by
      rw [Heap.frame, hcell, har, Heap.frame]
    have hframe' : v'.heap.frame a =
        (env.pruneShadowedHost (u.withHost env.root layer).heap).frame env.root := by
      rw [Heap.frame, hcell', har, Heap.frame]
    rw [hframe, hframe']
    exact (rootBindings_prune env hroot').trans (rootBindings_prune env hroot).symm
  · have hsame : v'.heap.cell a = v.heap.cell a := by
      rw [hcell, hcell', cell_prune_of_ne har, cell_prune_of_ne har]
      exact Heap.cell_withHost_of_ne har
    refine ⟨fun _ => hsame, ?_⟩
    rw [Heap.frame, hsame, Heap.frame]

/-- Two scripts with the same code that both write back or both do not, run against two contexts
that agree on the receiver and on the names that the code mentions; both offer the global names or
neither does, unless the code mentions none of them. If one run ends, so does the other, and with
the same answer: the same value or the same failure.

* The same host functions have been called, in the same order and with the same receivers and
  arguments; the same has been defined, logged and put aside.
* The code of both ends in the same world, but for the host layer of the root frame, and defines the
  same root bindings with the same values.
* The same bindings are written back, all of them of names that the code mentions, and every entry
  of another name keeps its value in both contexts.
* Every cell that can be reached from outside after both runs holds the same, but for that layer. -/
theorem evaluate_sees_only_named (s s' : Script) (host : Host) (hhost : host.SeesNoFrames)
    (limit : Nat) (outside outside' : List Addr) (context context' : Context) (w : World)
    (hclosed : w.heap.Closed) (hcode : s'.code = s.code)
    (hwrite : s'.settings.writeBack = s.settings.writeBack)
    (hnamed : ∀ name ∈ receiverName :: stmtsNames s.code, context'.get? name = context.get? name)
    (hglobals : s'.settings.globals = s.settings.globals ∨
      ∀ name ∈ Context.globals.keys, name ∉ stmtsNames s.code) :
    let root : Env := ⟨w.heap.size, w.heap.size⟩
    let o := s.evaluate host limit outside context w
    let o' := s'.evaluate host limit outside' context' w
    o'.answer? = o.answer? ∧
    ∀ v v', o.world? = some v → o'.world? = some v' →
      (v'.calls = v.calls ∧ v'.definitions = v.definitions ∧ v'.log = v.log ∧ v'.held = v.held) ∧
      ∃ (u u' : World) (defined : OrderedMap Value),
        (s.body host limit context w).world? = some u ∧
        (s'.body host limit context' w).world? = some u' ∧
        u' = u.withHost root.root (context'.hostLayer s'.settings.globals) ∧
        root.rootBindings u'.heap = root.rootBindings u.heap ∧
        (∀ name ∈ defined.keys, name ∈ stmtsNames s.code) ∧
        o.context context = context.writeBack defined ∧
        o'.context context' = context'.writeBack defined ∧
        (∀ name, name ∉ stmtsNames s.code → (o.context context).get? name = context.get? name ∧
          (o'.context context').get? name = context'.get? name) ∧
        ∀ a, (root.pruneShadowedHost u.heap).Reaches Cell.handles
            (o.handedOut context ++ outside ++ u.heldAddrs) a →
          (root.pruneShadowedHost u'.heap).Reaches Cell.handles
            (o'.handedOut context' ++ outside' ++ u'.heldAddrs) a →
          (a ≠ root.frame → v'.heap.cell a = v.heap.cell a) ∧
          (v'.heap.frame a).bindings = (v.heap.frame a).bindings := by
  intro root o o'
  have hlayers := hostLayers_agree hnamed hglobals
  rcases body_twice hhost limit hclosed hcode hlayers with ⟨hb, hb'⟩ | ⟨k, u, hu, hends⟩
  · have ho : o = .exhausted := congrArg (s.finish context outside root) hb
    have ho' : o' = .exhausted := congrArg (s'.finish context' outside' root) hb'
    rw [ho, ho']
    refine ⟨rfl, fun v v' hv => ?_⟩
    cases hv
  -- The code has ended in worlds that differ in the layer; the root frames bind the same.
  obtain ⟨new, -, hroot, hall⟩ := hu.definitions
  let u' := u.withHost root.root (context'.hostLayer s'.settings.globals)
  have hroot' : u'.heap.cell root.root = .frame {
      bindings := .ofList (Definition.entriesIn root.root new)
      host := some (context'.hostLayer s'.settings.globals) } := by
    show (u.heap.withHost root.root _).cell root.root = _
    rw [Heap.cell_withHost, if_pos rfl, hroot]
  have hbindings : root.rootBindings u'.heap = root.rootBindings u.heap := by
    unfold Env.rootBindings Heap.frame
    rw [hroot, hroot']
  have hkeys : ∀ name ∈ (OrderedMap.ofList (Definition.entriesIn root.root new)).keys,
      name ∈ stmtsNames s.code := fun name hname => by
    obtain ⟨d, hd, rfl, hframe⟩ := Definition.exists_of_mem_keys hname
    exact (hall d hd hframe).2.2
  obtain ⟨hbody, hbody', hanswer, defined, hmem, hafter, hafter'⟩ :=
    finish_twice root outside outside' hends hroot hroot' rfl hwrite
  have hdefined : ∀ name ∈ defined.keys, name ∈ stmtsNames s.code :=
    fun name hname => hkeys name (hmem name hname)
  refine ⟨hanswer, fun v v' hv hv' => ⟨?_, u, u', defined, hbody, hbody', rfl, hbindings, hdefined,
    hafter, hafter', fun name hname => ?_, fun a ha ha' => ?_⟩⟩
  · obtain ⟨hcalls, hdefinitions, hlog, hheld⟩ := records_finish hbody hv
    obtain ⟨hcalls', hdefinitions', hlog', hheld'⟩ := records_finish hbody' hv'
    exact ⟨hcalls'.trans hcalls.symm, hdefinitions'.trans hdefinitions.symm,
      hlog'.trans hlog.symm, hheld'.trans hheld.symm⟩
  · have hnot : name ∉ defined.keys := fun hmem => hname (hdefined name hmem)
    refine ⟨?_, ?_⟩
    · rw [show o.context context = context.writeBack defined from hafter]
      exact get?_writeBack_of_not_mem hnot
    · rw [show o'.context context' = context'.writeBack defined from hafter']
      exact get?_writeBack_of_not_mem hnot
  · exact cell_finish_twice hbody hbody' hroot hv hv' ha ha'

/-- `x = y`, with the global names or without. -/
def copies (globals : Bool) : Script where
  code := [.expr (.assign .assign (.name "x") (.ident "y"))]
  settings := { globals }

theorem evaluate_copies_sees_no_secret :
    let o := (copies false).evaluate Library.host 3 []
      (.ofList [("y", .bool true), ("secret", .null)]) leftover
    let o' := (copies true).evaluate Library.host 3 [] (.ofList [("y", .bool true)]) leftover
    o.answer? = some (.ok (.bool true)) ∧ o'.answer? = o.answer? := by
  refine ⟨rfl, ?_⟩
  refine (evaluate_sees_only_named (copies false) (copies true) Library.host
    Library.host_seesNoFrames 3 [] [] (.ofList [("y", .bool true), ("secret", .null)])
    (.ofList [("y", .bool true)]) leftover closed_leftover rfl rfl ?_ (.inr (by decide))).1
  exact List.forall_mem_cons.2 ⟨rfl, List.forall_mem_cons.2 ⟨rfl,
    List.forall_mem_cons.2 ⟨rfl, List.forall_mem_nil _⟩⟩⟩

end Script

end HostScript
