import HostScript.Proofs.Run.Steps
import HostScript.Proofs.Session.Runs

/-!
# The parts of a run in a session

Whatever part of a run is under way, operations have led to its world, and what the part works with
is held there. Parts are those of code (`Arrives.part`) and the calls that host functions make
(`Arrives.begins`).
-/

namespace HostScript

/-! ## What a task works with -/

def Place.handles : Place → List Handle
  | .binding e _ => [.env e]
  | .property object _ => [.value object]

/-- The handles that a task works with. -/
def Task.handles : Task → List Handle
  | .expr _ e | .option _ e | .elements _ e | .arguments _ e | .segments _ e _ | .place _ e
  | .operand _ e | .stmt _ e | .branch _ e | .loopTest _ e | .declarations _ e | .forInit _ e
  | .loopTarget _ e _ | .whileRounds _ _ e _ | .forRounds _ _ _ e _ | .forInRounds _ _ e _ =>
    [.env e]
  | .properties _ e entries => .env e :: entries.values.map .value
  | .sequence _ e v | .stmts _ e v | .clauses _ v e | .clauseTest _ v e => [.env e, .value v]
  | .read p | .update p _ => p.handles
  | .write p v => .value v :: p.handles
  | .updates waiting => waiting.flatMap (·.1.handles)
  | .call function this given => (function :: this :: given).map .value
  | .params _ given frame => .env frame :: given.map .value

namespace Session

variable {start : Session} {K : Set Handle} {w u : World}

/-- All handles of a list are held. -/
def Holds (K : Set Handle) (handles : List Handle) : Prop := ∀ x ∈ handles, x ∈ K

@[simp] theorem holds_nil : Holds K [] := List.forall_mem_nil _

@[simp] theorem holds_cons {x : Handle} {handles : List Handle} :
    Holds K (x :: handles) ↔ x ∈ K ∧ Holds K handles := List.forall_mem_cons

@[simp] theorem holds_append {first second : List Handle} :
    Holds K (first ++ second) ↔ Holds K first ∧ Holds K second := List.forall_mem_append

theorem Holds.mono {K' : Set Handle} {handles : List Handle} (hk : K ⊆ K')
    (h : Holds K handles) : Holds K' handles := fun x hx => hk (h x hx)

namespace Arrives

theorem mem_of_value {v : Value} (hw : start.Arrives K w)
    (hv : (inStep start).value K v) : .value v ∈ K :=
  hw.full _ (reaches hv)

/-- In an invariant of one run, values are allowed if they are held. -/
theorem holds_of_values {vs : List Value} (hw : start.Arrives K w)
    (hvs : ∀ v ∈ vs, (inStep start).value K v) : Holds K (vs.map .value) := fun x hx => by
  obtain ⟨v, hv, rfl⟩ := List.mem_map.1 hx
  exact hw.mem_of_value (hvs v hv)

theorem values_of_holds {vs : List Value} (hvs : Holds K (vs.map .value)) :
    (inStep start).toTandem.values K vs := fun v hv _ _ =>
  hvs _ (List.mem_map.2 ⟨v, hv, rfl⟩)

theorem mem_plain {v : Value} (hw : start.Arrives K w) (hv : v.addr? = none) : .value v ∈ K :=
  hw.full _ (.plain hv)

/-- A place is held by its environment or by its object. -/
theorem holds_of_place {p : Place} (hw : start.Arrives K w)
    (hp : (inStep start).toTandem.place K p) : Holds K p.handles := by
  cases p with
  | binding e name => exact holds_cons.2 ⟨hp.1, holds_nil⟩
  | property object key => exact holds_cons.2 ⟨hw.mem_of_value hp, holds_nil⟩

theorem place_of_holds {p : Place} (hp : Holds K p.handles) :
    (inStep start).toTandem.place K p := by
  cases p with
  | binding e name => exact ⟨(holds_cons.1 hp).1, fun _ _ => trivial⟩
  | property object key => exact fun _ _ => (holds_cons.1 hp).1

theorem holds_of_updates {waiting : List (Place × UpdateOp)} (hw : start.Arrives K w)
    (hwaiting : (inStep start).toTandem.updates K waiting) :
    Holds K (waiting.flatMap (·.1.handles)) := fun x hx => by
  obtain ⟨update, hupdate, hx⟩ := List.mem_flatMap.1 hx
  exact hw.holds_of_place (hwaiting update hupdate) x hx

/-! ## What has ended before -/

/-- An action that has ended has led to its world, and what is known of its answer holds there. -/
theorem of_done {α : Type} [Renamable α] {P : Set Handle → α → Prop} {x x' : Action α} {a : α}
    (hw : start.Arrives K w) (hx : (inStep start).toTandem.InTandem K x x' P)
    (hdone : x w = .done a u) : ∃ K', K ⊆ K' ∧ start.Arrives K' u ∧ P K' a := by
  have hagree := hx K w w le_rfl ⟨rfl, hw⟩
  rw [hdone] at hagree
  generalize x' w = o at hagree
  cases hagree with
  | done hk hu ha => exact ⟨_, hk, hu.2, ha⟩

section Parts

variable {host : Host} {n : Nat} {e : Env} {v : Value}

theorem calls (hhost : host.Operates) (n : Nat) : (inStep start).toTandem.Calls (host.call n) :=
  Lockstep.calls_iff.2 (inStep_calls start hhost n)

theorem sees (root : Addr) (mentions : List Mention) :
    (inStep start).toTandem.Sees root mentions := fun _ _ _ _ => trivial

variable (hw : start.Arrives K w) (hhost : host.Operates)

section Primitives

include hw

/-- Code that enters a frame holds the frame from then on. -/
theorem entered {frame : Env} (he : .env e ∈ K) (hdone : e.entered w = .done frame u) :
    ∃ K', K ⊆ K' ∧ start.Arrives K' u ∧ .env frame ∈ K' := by
  obtain ⟨K', hk, hu, hframe⟩ := hw.of_done (Tandem.entered_inTandem he) hdone
  exact ⟨K', hk, hu, hframe.1⟩

/-- A definition keeps all that is held. -/
theorem set {binder : Binder} {name : String} (he : .env e ∈ K) (hv : .value v ∈ K)
    (hdone : e.set binder name v w = .done () u) : ∃ K', K ⊆ K' ∧ start.Arrives K' u := by
  obtain ⟨K', hk, hu, -⟩ := hw.of_done
    (Tandem.set_inTandem (T := (inStep start).toTandem) he (fun _ _ => hv) (.inr he)) hdone
  exact ⟨K', hk, hu⟩

/-- What is read from a place is held from then on. -/
theorem read {p : Place} (hp : Holds K p.handles) (hdone : p.read w = .done v u) :
    ∃ K', K ⊆ K' ∧ start.Arrives K' u ∧ .value v ∈ K' := by
  obtain ⟨K', hk, hu, hv⟩ := hw.of_done (Tandem.read_inTandem (place_of_holds hp)) hdone
  exact ⟨K', hk, hu, hu.mem_of_value hv⟩

/-- The frame of an activation, once the receiver is bound. -/
theorem receiver {a : Addr} {closure : Closure} {this : Value} {frame : Env} {v : World}
    (ha : .value (.function a) ∈ K) (hthis : .value this ∈ K)
    (hclosure : w.heap.closure? a = some closure) (hframe : closure.env.entered w = .done frame u)
    (hbound : closure.bindReceiver this frame u = .done () v) :
    ∃ K', K ⊆ K' ∧ start.Arrives K' v ∧ .env frame ∈ K' := by
  have henv : .env closure.env ∈ K := hw.full _ (Reaches.closure (.held ha) hclosure)
  obtain ⟨K₁, hk₁, hu, he⟩ := hw.entered henv hframe
  unfold Closure.bindReceiver at hbound
  split at hbound
  · obtain ⟨-, rfl⟩ := Action.pure_eq_done_iff.1 hbound
    exact ⟨K₁, hk₁, hu, he⟩
  · obtain ⟨K₂, hk₂, hv⟩ := hu.set he (hk₁ hthis) hbound
    exact ⟨K₂, hk₁.trans hk₂, hv, hk₂ he⟩

end Primitives

section Code

include hw in
/-- What a property reads as is held already, as part of what the object leads to. -/
theorem property {key : String} {found : Value} (hv : .value v ∈ K)
    (hfound : v.getProperty w.heap key = .ok found) : .value found ∈ K := by
  rcases Value.getProperty_eq_ok hfound with hplain | ⟨a, rfl, hmem⟩ | ⟨a, rfl, hmem⟩
  · exact hw.mem_plain hplain
  · exact hw.full _ (Reaches.element (.held hv) hmem)
  · exact hw.full _ (Reaches.property (.held hv) hmem)

include hw hhost

/-- The value of an expression is held. -/
theorem expr {x : Expr} (he : .env e ∈ K) (hdone : x.eval (host.call n) n e w = .done v u) :
    ∃ K', K ⊆ K' ∧ start.Arrives K' u ∧ .value v ∈ K' := by
  obtain ⟨K', hk, hu, hv⟩ := hw.of_done
    (x.eval_inTandem n (calls hhost n) he (sees _ _)) hdone
  exact ⟨K', hk, hu, hu.mem_of_value hv⟩

theorem option {x : Option Expr} (he : .env e ∈ K)
    (hdone : evalOption (host.call n) n x e w = .done v u) :
    ∃ K', K ⊆ K' ∧ start.Arrives K' u ∧ .value v ∈ K' := by
  obtain ⟨K', hk, hu, hv⟩ := hw.of_done
    (evalOption_inTandem n (calls hhost n) x he (sees _ _)) hdone
  exact ⟨K', hk, hu, hu.mem_of_value hv⟩

/-- The values of arguments are held. -/
theorem arguments {xs : List Expr} {vs : List Value} (he : .env e ∈ K)
    (hdone : evalArguments (host.call n) n xs e w = .done vs u) :
    ∃ K', K ⊆ K' ∧ start.Arrives K' u ∧ Holds K' (vs.map .value) := by
  obtain ⟨K', hk, hu, hvs⟩ := hw.of_done
    (evalArguments_inTandem n (calls hhost n) xs he (sees _ _)) hdone
  exact ⟨K', hk, hu, hu.holds_of_values hvs⟩

/-- A place that code has come to is held by its handles. -/
theorem place {t : Target} {p : Place} (he : .env e ∈ K)
    (hdone : t.place (host.call n) n e w = .done p u) :
    ∃ K', K ⊆ K' ∧ start.Arrives K' u ∧ Holds K' p.handles := by
  obtain ⟨K', hk, hu, hp⟩ := hw.of_done
    (t.place_inTandem n (calls hhost n) he (sees _ _)) hdone
  exact ⟨K', hk, hu, hu.holds_of_place hp⟩

/-- The places of the updates that wait are held. -/
theorem operand {x : Operand} {waiting : List (Place × UpdateOp)} (he : .env e ∈ K)
    (hdone : x.eval (host.call n) n e w = .done (v, waiting) u) :
    ∃ K', K ⊆ K' ∧ start.Arrives K' u ∧ Holds K' (waiting.flatMap (·.1.handles)) := by
  obtain ⟨K', hk, hu, -, hwaiting⟩ := hw.of_done
    (x.eval_inTandem n (calls hhost n) he (sees _ _)) hdone
  exact ⟨K', hk, hu, hu.holds_of_updates hwaiting⟩

/-- What a statement completes with is held. -/
theorem stmt {s : Stmt} {c : Completion} (he : .env e ∈ K)
    (hdone : s.run (host.call n) n e w = .done c u) :
    ∃ K', K ⊆ K' ∧ start.Arrives K' u ∧ .value c.result ∈ K' := by
  obtain ⟨K', hk, hu, hc⟩ := hw.of_done
    (s.run_inTandem n (calls hhost n) he (sees _ _)) hdone
  exact ⟨K', hk, hu, hu.mem_of_value (Tandem.value_result hc)⟩

/-! ### Rounds -/

open HostScript.Action

variable {body : Stmt} {frame : Env}

theorem whileRound {test : Expr} {answer : Option Completion} (he : .env frame ∈ K)
    (hround : HostScript.whileRound (host.call n) n test body frame w = .done answer u) :
    ∃ K', K ⊆ K' ∧ start.Arrives K' u := by
  unfold HostScript.whileRound at hround
  obtain ⟨value, v, htest, hrest⟩ := bind_eq_done_iff.1 hround
  obtain ⟨K₁, hk₁, hv, -⟩ := hw.expr hhost he htest
  split at hrest
  · obtain ⟨c, v', hbody, hends⟩ := bind_eq_done_iff.1 hrest
    obtain ⟨-, rfl⟩ := pure_eq_done_iff.1 hends
    obtain ⟨K₂, hk₂, hu, -⟩ := hv.stmt hhost (hk₁ he) hbody
    exact ⟨K₂, hk₁.trans hk₂, hu⟩
  · obtain ⟨-, rfl⟩ := pure_eq_done_iff.1 hrest
    exact ⟨K₁, hk₁, hv⟩

/-- A round of a `for` loop: the test, the body and, unless the loop ends, the update. -/
theorem forRound {test update : Option Expr} {answer : Option Completion} (he : .env frame ∈ K)
    (hround : HostScript.forRound (host.call n) n test update body frame w = .done answer u) :
    ∃ K', K ⊆ K' ∧ start.Arrives K' u := by
  unfold HostScript.forRound at hround
  obtain ⟨goesOn, v, htest, hrest⟩ := bind_eq_done_iff.1 hround
  obtain ⟨K₁, hk₁, hv, -⟩ := hw.of_done
    (evalTest_inTandem n (calls hhost n) test he (sees _ _)) htest
  split at hrest
  · obtain ⟨c, v', hbody, hrest⟩ := bind_eq_done_iff.1 hrest
    obtain ⟨K₂, hk₂, hv', -⟩ := hv.stmt hhost (hk₁ he) hbody
    -- Only a round that goes on comes to the update.
    cases hending : c.endsLoop? with
    | some ending =>
      rw [hending] at hrest
      obtain ⟨-, rfl⟩ := pure_eq_done_iff.1 hrest
      exact ⟨K₂, hk₁.trans hk₂, hv'⟩
    | none =>
      rw [hending] at hrest
      obtain ⟨value, u', hupdate, hends⟩ := bind_eq_done_iff.1 hrest
      obtain ⟨-, rfl⟩ := pure_eq_done_iff.1 hends
      obtain ⟨K₃, hk₃, hu, -⟩ := hv'.option hhost (hk₂ (hk₁ he)) hupdate
      exact ⟨K₃, (hk₁.trans hk₂).trans hk₃, hu⟩
  · obtain ⟨-, rfl⟩ := pure_eq_done_iff.1 hrest
    exact ⟨K₁, hk₁, hv⟩

theorem loopTarget {target : LoopTarget} {key : String} (he : .env frame ∈ K)
    (hbound : target.bind (host.call n) n frame key w = .done () u) :
    ∃ K', K ⊆ K' ∧ start.Arrives K' u := by
  obtain ⟨K', hk, hu, -⟩ := hw.of_done
    (target.bind_inTandem n (calls hhost n) ⟨he, rfl⟩ (sees _ _) key) hbound
  exact ⟨K', hk, hu⟩

theorem forInRound {target : LoopTarget} {key : String} {answer : Option Completion}
    (he : .env frame ∈ K)
    (hround : HostScript.forInRound (host.call n) n target body frame key w = .done answer u) :
    ∃ K', K ⊆ K' ∧ start.Arrives K' u := by
  unfold HostScript.forInRound at hround
  obtain ⟨_, v, htarget, hrest⟩ := bind_eq_done_iff.1 hround
  obtain ⟨K₁, hk₁, hv⟩ := hw.loopTarget hhost he htarget
  obtain ⟨c, v', hbody, hends⟩ := bind_eq_done_iff.1 hrest
  obtain ⟨-, rfl⟩ := pure_eq_done_iff.1 hends
  obtain ⟨K₂, hk₂, hu, -⟩ := hv.stmt hhost (hk₁ he) hbody
  exact ⟨K₂, hk₁.trans hk₂, hu⟩

end Code

end Parts

/-! ## The parts -/

open HostScript.Action in
/-- If operations have led to a task and all that it works with is held, then they lead to each part
of it. What has been held is held there too. -/
theorem part {host : Host} (hhost : host.Operates) {p q : Point} (hstep : Step host p q)
    (hw : start.Arrives K p.world) (hp : Holds K p.task.handles) :
    ∃ K', K ⊆ K' ∧ start.Arrives K' q.world ∧ Holds K' q.task.handles := by
  cases hstep
  all_goals simp only [Task.handles, List.map_cons, List.flatMap_cons, holds_cons, holds_nil,
    holds_append, and_true] at hp ⊢
  -- The first part of a task begins where the task does.
  case array | template | unary | updateTarget | binaryLeft | logicalLeft | assignTarget
      | conditionalTest | callee | methodObject | memberObject | option | elementsHead
      | argumentsHead | segmentsText | segmentsHead | placeObject | operandPlain | operandTarget
      | stmtExpr | stmtRet | stmtTest | stmtDiscriminant | stmtForInObject | stmtDeclare | loopTest
      | whileTest | forTest | forInTarget | loopTargetPlace | declarationsHead | forInitDeclare
      | forInitExpr | updateRead | clausesTest =>
    exact ⟨K, subset_rfl, hw, hp⟩
  case propertiesKey | sequenceHead | stmtsHead | clauseTest | paramsDefault =>
    exact ⟨K, subset_rfl, hw, hp.1⟩
  case sequence | stmtBlock =>
    exact ⟨K, subset_rfl, hw, hp, hw.mem_plain rfl⟩
  case object =>
    exact ⟨K, subset_rfl, hw, hp, holds_nil⟩
  case updatesHead =>
    exact ⟨K, subset_rfl, hw, hp.1⟩
  -- Others begin once an expression has ended.
  case logicalRight hx | conditionalYes hx _ | conditionalNo hx _ | callArguments hx | methodKey hx
      | memberKey hx | argumentsTail hx | segmentsTail hx _ | placeKey hx | stmtNo hx _
      | whileBody hx _ =>
    obtain ⟨K', hk, hu, -⟩ := hw.expr hhost hp hx
    exact ⟨K', hk, hu, hk hp⟩
  case propertiesValue hx _ =>
    obtain ⟨K', hk, hu, -⟩ := hw.expr hhost hp.1 hx
    exact ⟨K', hk, hu, hk hp.1⟩
  case sequenceTail hx =>
    obtain ⟨K', hk, hu, hv⟩ := hw.expr hhost hp.1 hx
    exact ⟨K', hk, hu, hk hp.1, hv⟩
  case stmtClauses hx =>
    obtain ⟨K', hk, hu, hv⟩ := hw.expr hhost hp hx
    exact ⟨K', hk, hu, hk hp, hv⟩
  case elementsTail hx =>
    obtain ⟨K', hk, hu, -⟩ := hw.option hhost hp hx
    exact ⟨K', hk, hu, hk hp⟩
  case propertiesTail hkey _ hx =>
    obtain ⟨K₁, hk₁, hu, -⟩ := hw.expr hhost hp.1 hkey
    obtain ⟨K₂, hk₂, hv, hentry⟩ := hu.expr hhost (hk₁ hp.1) hx
    refine ⟨K₂, hk₁.trans hk₂, hv, hk₂ (hk₁ hp.1), fun x hx => ?_⟩
    obtain ⟨value, hvalue, rfl⟩ := List.mem_map.1 hx
    rcases OrderedMap.mem_values_insert hvalue with hold | rfl
    · exact hk₂ (hk₁ (hp.2 _ (List.mem_map.2 ⟨value, hold, rfl⟩)))
    · exact hentry
  -- Places and what is read from them.
  case update hplace | compoundRead hplace | operandRead hplace =>
    exact hw.place hhost hp hplace
  case assignValue hplace =>
    obtain ⟨K', hk, hu, -⟩ := hw.place hhost hp hplace
    exact ⟨K', hk, hu, hk hp⟩
  case assignWrite hplace hvalue =>
    obtain ⟨K₁, hk₁, hu, hp₁⟩ := hw.place hhost hp hplace
    obtain ⟨K₂, hk₂, hv, hvalue⟩ := hu.expr hhost (hk₁ hp) hvalue
    exact ⟨K₂, hk₁.trans hk₂, hv, hvalue, hp₁.mono hk₂⟩
  case compoundValue hplace hread =>
    obtain ⟨K₁, hk₁, hu, hp₁⟩ := hw.place hhost hp hplace
    obtain ⟨K₂, hk₂, hv, -⟩ := hu.read hp₁ hread
    exact ⟨K₂, hk₁.trans hk₂, hv, hk₂ (hk₁ hp)⟩
  case compoundWrite hplace hread hvalue hop =>
    obtain ⟨K₁, hk₁, hu, hp₁⟩ := hw.place hhost hp hplace
    obtain ⟨K₂, hk₂, hv, -⟩ := hu.read hp₁ hread
    obtain ⟨K₃, hk₃, hv', -⟩ := hv.expr hhost (hk₂ (hk₁ hp)) hvalue
    exact ⟨K₃, (hk₁.trans hk₂).trans hk₃, hv', hv'.mem_plain (BinaryOp.addr?_of_apply hop),
      hp₁.mono (hk₂.trans hk₃)⟩
  case loopTargetWrite hplace =>
    obtain ⟨K', hk, hu, hplace⟩ := hw.place hhost hp hplace
    exact ⟨K', hk, hu, hu.mem_plain rfl, hplace⟩
  case binaryRight hleft =>
    obtain ⟨K', hk, hu, -⟩ := hw.operand hhost hp hleft
    exact ⟨K', hk, hu, hk hp⟩
  case binaryUpdates hleft hright _ =>
    obtain ⟨K₁, hk₁, hu, hfirst⟩ := hw.operand hhost hp hleft
    obtain ⟨K₂, hk₂, hv, hsecond⟩ := hu.operand hhost (hk₁ hp) hright
    refine ⟨K₂, hk₁.trans hk₂, hv, ?_⟩
    rw [List.flatMap_append]
    exact holds_append.2 ⟨hfirst.mono hk₂, hsecond⟩
  case updateWrite hold =>
    obtain ⟨K', hk, hu, -⟩ := hw.of_done (Tandem.readNumber_inTandem (place_of_holds hp)) hold
    exact ⟨K', hk, hu, hu.mem_plain rfl, hp.mono hk⟩
  case updatesTail hupdate =>
    obtain ⟨K', hk, hu, -⟩ := hw.of_done (Tandem.update_inTandem (place_of_holds hp.1)) hupdate
    exact ⟨K', hk, hu, hp.2.mono hk⟩
  -- Calls.
  case call hcallee harguments _ =>
    obtain ⟨K₁, hk₁, hu, hfunction⟩ := hw.expr hhost hp hcallee
    obtain ⟨K₂, hk₂, hv, hvalues⟩ := hu.arguments hhost (hk₁ hp) harguments
    exact ⟨K₂, hk₁.trans hk₂, hv, hk₂ hfunction, hv.mem_plain rfl, hvalues⟩
  case methodArguments hobject hkey _ _ =>
    obtain ⟨K₁, hk₁, hu, -⟩ := hw.expr hhost hp hobject
    obtain ⟨K₂, hk₂, hv, -⟩ := hu.expr hhost (hk₁ hp) hkey
    exact ⟨K₂, hk₁.trans hk₂, hv, hk₂ (hk₁ hp)⟩
  case method hobject hkey _ hfunction harguments _ =>
    obtain ⟨K₁, hk₁, hu, hreceiver⟩ := hw.expr hhost hp hobject
    obtain ⟨K₂, hk₂, hv, -⟩ := hu.expr hhost (hk₁ hp) hkey
    have hfunction := hv.property (hk₂ hreceiver) hfunction
    obtain ⟨K₃, hk₃, hv', hvalues⟩ := hv.arguments hhost (hk₂ (hk₁ hp)) harguments
    exact ⟨K₃, (hk₁.trans hk₂).trans hk₃, hv', hk₃ hfunction, hk₃ (hk₂ hreceiver), hvalues⟩
  case params hclosure hframe hthis =>
    obtain ⟨K', hk, hv, he⟩ := hw.receiver hp.1 hp.2.1 hclosure hframe hthis
    exact ⟨K', hk, hv, he, hp.2.2.mono hk⟩
  case body hclosure hframe hthis hparams =>
    obtain ⟨K₁, hk₁, hv, he⟩ := hw.receiver hp.1 hp.2.1 hclosure hframe hthis
    obtain ⟨K₂, hk₂, hv', -⟩ := hv.of_done (bindParams_inTandem _ (calls hhost _) _ ⟨he, rfl⟩
      (sees _ _) (values_of_holds (hp.2.2.mono hk₁))) hparams
    exact ⟨K₂, hk₁.trans hk₂, hv', hk₂ he, hv'.mem_plain rfl⟩
  case paramsGiven hset =>
    obtain ⟨K', hk, hu⟩ := hw.set hp.1 hp.2.1 hset
    exact ⟨K', hk, hu, hk hp.1, hp.2.2.mono hk⟩
  case paramsTail hdefault hset =>
    obtain ⟨K₁, hk₁, hu, hvalue⟩ := hw.option hhost hp.1 hdefault
    obtain ⟨K₂, hk₂, hv⟩ := hu.set (hk₁ hp.1) hvalue hset
    exact ⟨K₂, hk₁.trans hk₂, hv, hk₂ (hk₁ hp.1), holds_nil⟩
  -- Statements and the frames that they enter.
  case stmtYes hx _ hframe =>
    obtain ⟨K₁, hk₁, hu, -⟩ := hw.expr hhost hp hx
    obtain ⟨K₂, hk₂, hv, he⟩ := hu.entered (hk₁ hp) hframe
    exact ⟨K₂, hk₁.trans hk₂, hv, he⟩
  case stmtWhile hframe | stmtForInit hframe | branch hframe =>
    exact hw.entered hp hframe
  case stmtFor hframe hinit =>
    obtain ⟨K₁, hk₁, hu, he⟩ := hw.entered hp hframe
    obtain ⟨K₂, hk₂, hv, -⟩ := hu.of_done
      (ForInit.run_inTandem _ (calls hhost _) _ he (sees _ _)) hinit
    exact ⟨K₂, hk₁.trans hk₂, hv, hk₂ he⟩
  case stmtForIn hx hframe =>
    obtain ⟨K₁, hk₁, hu, -⟩ := hw.expr hhost hp hx
    obtain ⟨K₂, hk₂, hv, he⟩ := hu.entered (hk₁ hp) hframe
    exact ⟨K₂, hk₁.trans hk₂, hv, he⟩
  case stmtsTail hhead =>
    obtain ⟨K', hk, hu, hv⟩ := hw.stmt hhost hp.1 hhead
    exact ⟨K', hk, hu, hk hp.1, hv⟩
  case declarationsTail hinit hset =>
    obtain ⟨K₁, hk₁, hu, hvalue⟩ := hw.option hhost hp hinit
    obtain ⟨K₂, hk₂, hv⟩ := hu.set (hk₁ hp) hvalue hset
    exact ⟨K₂, hk₁.trans hk₂, hv, hk₂ (hk₁ hp)⟩
  -- Clauses of a switch.
  case clausesHead htest =>
    obtain ⟨K', hk, hu, -⟩ := hw.of_done
      (clauseMatches_inTandem _ (calls hhost _) _ _ hp.1 (sees _ _)) htest
    exact ⟨K', hk, hu, hk hp.1⟩
  case clausesOther htest =>
    obtain ⟨K', hk, hu, -⟩ := hw.of_done
      (clauseMatches_inTandem _ (calls hhost _) _ _ hp.1 (sees _ _)) htest
    exact ⟨K', hk, hu, hk hp.1, hk hp.2⟩
  case clausesNext htest hhead _ =>
    obtain ⟨K₁, hk₁, hu, -⟩ := hw.of_done
      (clauseMatches_inTandem _ (calls hhost _) _ _ hp.1 (sees _ _)) htest
    obtain ⟨K₂, hk₂, hv, -⟩ := hu.of_done
      (runOption_inTandem _ (calls hhost _) _ (hk₁ hp.1) (sees _ _)) hhead
    exact ⟨K₂, hk₁.trans hk₂, hv, hk₂ (hk₁ hp.1), hk₂ (hk₁ hp.2)⟩
  -- Rounds of loops.
  case forBody htest =>
    obtain ⟨K', hk, hu, -⟩ := hw.of_done
      (evalTest_inTandem _ (calls hhost _) _ hp (sees _ _)) htest
    exact ⟨K', hk, hu, hk hp⟩
  case forUpdate htest hbody _ =>
    obtain ⟨K₁, hk₁, hu, -⟩ := hw.of_done
      (evalTest_inTandem _ (calls hhost _) _ hp (sees _ _)) htest
    obtain ⟨K₂, hk₂, hv, -⟩ := hu.stmt hhost (hk₁ hp) hbody
    exact ⟨K₂, hk₁.trans hk₂, hv, hk₂ (hk₁ hp)⟩
  case forInBody htarget =>
    obtain ⟨K', hk, hu⟩ := hw.loopTarget hhost hp htarget
    exact ⟨K', hk, hu, hk hp⟩
  case whileNext hround =>
    obtain ⟨K', hk, hu⟩ := hw.whileRound hhost hp hround
    exact ⟨K', hk, hu, hk hp⟩
  case forNext hround =>
    obtain ⟨K', hk, hu⟩ := hw.forRound hhost hp hround
    exact ⟨K', hk, hu, hk hp⟩
  case forInNext hround =>
    obtain ⟨K', hk, hu⟩ := hw.forInRound hhost hp hround
    exact ⟨K', hk, hu, hk hp⟩

end Arrives

end Session

/-! ## The calls of host functions -/

/-- What an action has come to, and in which world. -/
def Outcome.ended? {α : Type} : Outcome α → Option (Except EvalError α × World)
  | done a w => some (.ok a, w)
  | failed e w => some (.error e, w)
  | exhausted => none

/-- The steps that a host function comes to as the calls among its steps end. -/
inductive HostStep.Follows (call : Caller) : HostStep → HostStep → Prop where
  | refl (s : HostStep) : Follows call s s
  | ended {function this : Value} {given : List Value} {w u : World}
    {next : Except EvalError Value → World → HostStep} {result : Except EvalError Value}
    {s : HostStep} (hcall : (call function this given w).ended? = some (result, u))
    (hs : Follows call (next result u) s) : Follows call (.call function this given w next) s

/-- A task begins another one: a part of its own, or what a host function calls that it has called
itself. -/
inductive Point.Begins (host : Host) : Point → Point → Prop where
  | part {p q : Point} (hstep : Step host p q) : Begins host p q
  | hostCall {n : Nat} {a : Addr} {fn : HostFunction} {this function receiver : Value}
    {given values : List Value} {w u : World} {next : Except EvalError Value → World → HostStep}
    (hnative : w.heap.native? a = some fn)
    (hfollows : (host fn this given (recordCall a this given w)).Follows (host.call n)
      (.call function receiver values u next)) :
    Begins host ⟨n + 1, .call (.native a) this given, w⟩ ⟨n, .call function receiver values, u⟩

namespace Session

variable {start σ : Session} {K : Set Handle} {w u : World} {host : Host}

/-- After a call that has ended, all is held that was held before, and what it has answered. -/
theorem exists_of_ended {n : Nat} {function this : Value} {given : List Value}
    {result : Except EvalError Value} (hhost : host.Operates) (hw : start.Arrives K w)
    (hgiven : Holds K ((function :: this :: given).map .value))
    (hended : (host.call n function this given w).ended? = some (result, u)) :
    ∃ K', K ⊆ K' ∧ start.Arrives K' u ∧ ∀ v, result = .ok v → .value v ∈ K' := by
  simp only [List.map_cons, holds_cons] at hgiven
  have hcalls := inStep_calls start hhost n
  have hagree := hcalls K function this given (fun _ _ => hgiven.1) (fun _ _ => hgiven.2.1)
    (fun v hv _ _ => hgiven.2.2 _ (List.mem_map.2 ⟨v, hv, rfl⟩)) K w w le_rfl ⟨rfl, hw⟩
  generalize host.call n function this given w = o at hagree hended
  cases hagree with
  | done hk hu hv =>
    cases hended
    exact ⟨_, hk, hu.2, fun _ hresult => by cases hresult; exact hu.2.mem_of_value hv⟩
  | failed hk hu =>
    cases hended
    exact ⟨_, hk, hu.2, nofun⟩
  | exhausted => cases hended

/-- Operations lead to each call that a host function makes. -/
theorem exists_of_follows {n : Nat} {function this : Value} {given : List Value}
    {next : Except EvalError Value → World → HostStep} (hhost : host.Operates) {s t : HostStep}
    (hfollows : s.Follows (host.call n) t) (ht : t = .call function this given w next) :
    ∀ {σ : Session}, s.Operates σ → Operations start σ →
      ∃ K, σ.holds ⊆ K ∧ start.Arrives K w ∧ Holds K ((function :: this :: given).map .value) := by
  induction hfollows with
  | refl s =>
    intro σ hs hops
    subst ht
    cases hs with
    | call holds hthere hkeeps hgiven _ =>
      have hheld : holds ⊆ (⟨w, holds⟩ : Session).full.holds := holds_subset_full ⟨w, holds⟩
      exact ⟨_, hkeeps.trans hheld, arrives_full (hops.trans hthere),
        List.forall_mem_map.2 hgiven⟩
  | @ended _ _ _ v u _ result _ hcall _ ih =>
    intro σ hs hops
    cases hs with
    | call holds hthere hkeeps hgiven hnext =>
      have hheld : holds ⊆ (⟨v, holds⟩ : Session).full.holds := holds_subset_full ⟨v, holds⟩
      obtain ⟨K, hk, hu, hresult⟩ := exists_of_ended hhost (arrives_full (hops.trans hthere))
        (List.forall_mem_map.2 hgiven) hcall
      -- The host function goes on from the session in which the call has ended.
      have hrest : (_ : HostStep).Operates ⟨u, K⟩ :=
        hnext result ⟨u, K⟩ (hheld.trans hk) fun v hv => .held (hresult v hv)
      obtain ⟨K', hk', hw, hlast⟩ := ih ht hrest hu.operations
      exact ⟨K', ((hkeeps.trans hheld).trans hk).trans hk', hw, hlast⟩

/-- If operations have led to a task and all that it works with is held, then they lead to what it
begins, and what has been held is held there too. -/
theorem Arrives.begins (hhost : host.Operates) {p q : Point} (hbegins : p.Begins host q)
    (hw : start.Arrives K p.world) (hp : Holds K p.task.handles) :
    ∃ K', K ⊆ K' ∧ start.Arrives K' q.world ∧ Holds K' q.task.handles := by
  cases hbegins with
  | part hstep => exact hw.part hhost hstep hp
  | @hostCall n a fn this function receiver given values w u next hnative hfollows =>
    let recorded : Session := ⟨recordCall a this given w, K⟩
    have hrecord : Operation ⟨w, K⟩ recorded := .record _ rfl fun v hv => .kept hv
    simp only [Task.handles, List.map_cons, holds_cons] at hp
    have hgiven : ∀ v ∈ this :: given ++ fn.captured, recorded.Reaches (.value v) := by
      intro v hv
      rcases List.mem_append.1 hv with hv | hv
      · rcases List.mem_cons.1 hv with rfl | hv
        · exact .held hp.2.1
        · exact .held (hp.2.2 _ (List.mem_map.2 ⟨v, hv, rfl⟩))
      · exact .captured (.held hp.1) hnative hv
    exact exists_of_follows hhost hfollows rfl (hhost recorded fn this given hgiven)
      (hw.operations.tail hrecord)

end Session

end HostScript
