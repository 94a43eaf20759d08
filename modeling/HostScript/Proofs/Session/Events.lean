import HostScript.Proofs.Session.Parts

/-!
# The events of a session

A session goes on by events (`Session.Next`): something small is done, code is run or called, a
script is run against a context. Each comes down to operations (`Next.operations`). So in all
states that a session comes to, environments are grounded (`Reached.wellFormed`), and what a state
precedes has grown from it (`precedes_of_next`).
-/

namespace HostScript.Session

/-- The events of a session. Between two of them, the handles that are held tell from where things
can be got at.

A run can be told as one event, by what has come of it in the end. It can also be told in parts: a
fresh root, what a task begins, what code does that has ended before, single operations, and the end
of the run. So the moments within a run are states of sessions too. -/
inductive Next (host : Host) : Session → Session → Prop where
  | operation {σ τ : Session} (hop : Operation σ τ) : Next host σ τ
  /-- A task comes to something that it begins. -/
  | begins {σ : Session} {n m : Nat} {task part : Task} {w : World}
      (hbegins : Point.Begins host ⟨n, task, σ.world⟩ ⟨m, part, w⟩)
      (htask : ∀ x ∈ task.handles, σ.Reaches x) :
      Next host σ ⟨w, σ.holds ∪ {x | x ∈ part.handles}⟩
  /-- An expression is evaluated. -/
  | eval {σ : Session} {x : Expr} {e : Env} {depth limit : Nat} {w : World}
      (he : σ.Reaches (.env e))
      (hended : (x.eval (host.call depth) limit e σ.world).world? = some w) :
      Next host σ ((⟨w, σ.holds⟩ : Session).keeping
        ((x.eval (host.call depth) limit e σ.world).gives ([·])))
  /-- A statement is run. -/
  | run {σ : Session} {s : Stmt} {e : Env} {depth limit : Nat} {w : World}
      (he : σ.Reaches (.env e))
      (hended : (s.run (host.call depth) limit e σ.world).world? = some w) :
      Next host σ ((⟨w, σ.holds⟩ : Session).keeping
        ((s.run (host.call depth) limit e σ.world).gives ([·.result])))
  /-- A function is called. -/
  | call {σ : Session} {function this : Value} {arguments : List Value} {depth : Nat} {w : World}
      (hgiven : ∀ v ∈ function :: this :: arguments, σ.Reaches (.value v))
      (hended : (host.call depth function this arguments σ.world).world? = some w) :
      Next host σ ((⟨w, σ.holds⟩ : Session).keeping
        ((host.call depth function this arguments σ.world).gives ([·])))
  /-- The code of a script has ended, and so the run ends. -/
  | finish {σ : Session} {s : Script} {outside : List Addr} {context : Context} {env : Env}
      {o : Outcome Completion} {own : Set Handle} {w : World} (hroot : σ.Reaches (.env env.atRoot))
      (ho : o.world? = some σ.world) (hresult : ∀ c u, o = .done c u → σ.Reaches (.value c.result))
      (hcontext : ∀ v ∈ context.values, σ.Reaches (.value v)) (hown : ∀ x ∈ own, σ.Reaches x)
      (houtside : ∀ x ∈ own, ∀ a ∈ x.addrs, a ∈ outside)
      (hended : (s.finish context outside env o).world? = some w) :
      Next host σ ((⟨w, own⟩ : Session).keeping
        ((s.finish context outside env o).results ++
          ((s.finish context outside env o).context context).values))
  /-- A script is run against a context, by a caller that keeps some handles and tells so. -/
  | evaluate {σ : Session} {s : Script} {limit : Nat} {outside : List Addr} {context : Context}
      {own : Set Handle} {w : World} (hcontext : ∀ v ∈ context.values, σ.Reaches (.value v))
      (hown : ∀ x ∈ own, σ.Reaches x) (houtside : ∀ x ∈ own, ∀ a ∈ x.addrs, a ∈ outside)
      (hended : (s.evaluate host limit outside context σ.world).world? = some w) :
      Next host σ ((⟨w, own⟩ : Session).keeping
        ((s.evaluate host limit outside context σ.world).results ++
          ((s.evaluate host limit outside context σ.world).context context).values))

/-- The states to which sessions come that begin with an empty world and no handles. -/
def Reached (host : Host) : Session → Prop := Relation.ReflTransGen (Next host) ⟨{}, ∅⟩

variable {host : Host} {σ τ : Session}

/-- Every event comes down to operations, one case for each kind. -/
theorem Next.operations (hhost : host.Operates) (hnext : Next host σ τ) : Operations σ τ := by
  cases hnext with
  | operation hop => exact .single hop
  -- The part that begins holds what it works with, all of which could be got at.
  | begins hbegins htask =>
    have hfull : σ.Arrives σ.full.holds σ.world := arrives_full .refl
    obtain ⟨K, hk, hw, hpart⟩ := hfull.begins hhost hbegins htask
    refine hw.operations.tail (.hold _ ?_)
    rintro x (hx | hx)
    · exact .held (hk (holds_subset_full σ hx))
    · exact .held (hpart x hx)
  | eval he hended => exact .eval hhost he hended
  | run he hended => exact .run hhost he hended
  | call hgiven hended => exact .call hhost hgiven hended
  | finish hroot ho hresult hcontext hown houtside hended =>
    exact .head (.full σ)
      (operations_finish (K := σ.full.holds) hroot hresult hcontext hown houtside ho hended)
  | evaluate hcontext hown houtside hended =>
    exact .evaluate hhost hcontext hown houtside hended

/-- No handle leads to an environment before there is one. -/
theorem wellFormed_empty : (⟨{}, ∅⟩ : Session).WellFormed := by
  intro e he
  obtain ⟨v, heq, -⟩ : ∃ v, Handle.env e = .value v ∧ v.addr? = none := by
    refine he.mem (S := fun x => ∃ v, x = .value v ∧ v.addr? = none) (fun _ hx => hx.elim)
      (fun v hv => absurd hv (Array.not_mem_empty v)) (fun v hv => ⟨v, rfl, hv⟩) ?_
    -- No cell belongs to a primitive.
    rintro _ y ⟨v, rfl, hplain⟩ hxy
    cases hxy with
    | content hv =>
      rw [hplain] at hv
      cases hv
  cases heq

/-- Later states of a session follow earlier ones, and it stays well-formed. -/
theorem precedes_of_next (hhost : host.Operates) (hσ : σ.WellFormed)
    (hnext : Relation.ReflTransGen (Next host) σ τ) : σ.Precedes τ ∧ τ.WellFormed := by
  induction hnext with
  | refl => exact ⟨.refl hσ, hσ⟩
  | tail _ hlast ih =>
    obtain ⟨hprecedes, hυ⟩ := ih
    obtain ⟨hlater, hτ⟩ := (hlast.operations hhost).keeps hυ
    exact ⟨hprecedes.trans hlater, hτ⟩

/-- The invariant of operations is one of sessions. -/
theorem Reached.wellFormed (hhost : host.Operates) (hσ : Reached host σ) : σ.WellFormed :=
  (precedes_of_next hhost wellFormed_empty hσ).2

/-! ## A session -/

/-- `function f() { return x; }` -/
def leavesFunction : Script where
  code := [.function (.mk (some "f") [] [.ret (some (.ident "x"))] false)]

def nullContext : Context := .ofList [("x", .null)]

def leftFunction : Outcome (Value × Context) :=
  leavesFunction.evaluate Library.host 3 [] nullContext {}

/-- The state after the run of it against a context in which `x` is `null`. The context holds the
function then. -/
def afterRun : Session :=
  (⟨leftFunction.world?.getD {}, ∅⟩ : Session).keeping
    (leftFunction.results ++ (leftFunction.context nullContext).values)

/-- The state after a frame has been entered then from the environment of the function. -/
def afterEnter : Session :=
  (afterRun.onHeap fun h => ((⟨0, 0⟩ : Env).enter h).2).holding
    (.env ((⟨0, 0⟩ : Env).enter afterRun.heap).1)

theorem reached_afterEnter : Reached Library.host afterEnter := by
  have hcontext : ∀ v ∈ nullContext.values, (⟨{}, ∅⟩ : Session).Reaches (.value v) :=
    fun v hv => by
      cases List.mem_singleton.1 hv
      exact .plain rfl
  have hrun : Next Library.host ⟨{}, ∅⟩ afterRun :=
    .evaluate hcontext (fun _ hx => hx.elim) (fun _ hx => hx.elim) rfl
  have hfunction : afterRun.Reaches (.value (.function 1)) :=
    .held (.inr ⟨.function 1, List.Mem.head _, rfl⟩)
  have henv : afterRun.Reaches (.env ⟨0, 0⟩) :=
    .lead hfunction (.content rfl (List.mem_singleton_self _))
  exact .tail (.tail .refl hrun) (.operation (.enter henv))

theorem reaches_afterEnter : afterEnter.Reaches (.env ⟨2, 0⟩) := .held (.inl rfl)

end HostScript.Session
