import HostScript.Proofs.Run.Deferred
import HostScript.Proofs.Run.Limits
import HostScript.Proofs.Run.Loops
import HostScript.Proofs.Value.Keys

/-!
# Loops over keys

A `for`-`in` loop lists the keys of its value once, before the first of them is bound. Whatever is
done to the value afterwards, by the body or by the target, the loop goes through this list. It can
take for ever in two ways only: in its body, or on the way to the place of a key, since the object
and the key of a property are evaluated anew for each of the keys.

* `LoopTarget.Stores`: how a key gets into the target of a loop; `LoopTarget.Stores.exists_place`:
  what the target reads as then.
* `Stmt.Visits`: a loop visits keys, one after another; `Stmt.EndsAt`: the ways in which it ends.
* `Stmt.runKeys_iff`: a loop visits some of its keys, from the first one on, and ends.
* `Stmt.exists_runKeys_ne_exhausted`: it ends if the runs of its body and the searches for its
  places do.
* `keyLoop_visits_snapshot`: all of these, of loops as statements.
* `keyLoop_stuck_in_target`: a loop whose body ends at once and which never ends itself.
-/

namespace HostScript

open HostScript.Action

/-! ## Targets -/

section Visits

variable (call : Caller) (limit : Nat)

/-- From one world to another, the key is stored in the target of a loop as a string: it is defined
in the frame of the loop or assigned to the place that the target names at this moment. -/
inductive LoopTarget.Stores (frame : Env) (key : String) : LoopTarget → World → World → Prop where
  | declared {name : String} {w w' : World}
    (hset : frame.set .loopKey name (.string key) w = .done () w') :
    Stores frame key (.declare name) w w'
  | assigned {target : Target} {place : Place} {w u w' : World}
    (hplace : target.place call limit frame w = .done place u)
    (hwrite : place.write (.string key) u = .done () w') : Stores frame key (.assign target) w w'

/-- The place for the keys of a loop: a name of the loop's frame, or the place that the target names
at this moment. -/
def LoopTarget.place : LoopTarget → Env → Action Place
  | .declare name, frame => return .binding frame name
  | .assign target, frame => target.place call limit frame

/-- The loop visits keys one after another. Each of them is stored, and then the body runs and
completes normally or with `continue`. -/
inductive Stmt.Visits (target : LoopTarget) (body : Stmt) (frame : Env) :
    World → List String → World → Prop where
  | nil {w : World} : Visits target body frame w [] w
  | cons {key : String} {visited : List String} {w u v w' : World} {completion : Completion}
    (hstores : target.Stores call limit frame key w u)
    (hbody : body.run call limit frame u = .done completion v)
    (hgoesOn : completion.endsLoop? = none)
    (hvisited : Visits target body frame v visited w') :
    Visits target body frame w (key :: visited) w'

/-- With these keys left the loop ends: there are none, or the binding of the next one or the body
after it fails or never ends, or the body completes with `break` or `return`. -/
inductive Stmt.EndsAt (target : LoopTarget) (body : Stmt) (frame : Env) :
    List String → World → Outcome Completion → Prop where
  | lastKey {w : World} : EndsAt target body frame [] w (.done (.normal .undefined) w)
  | bindingFailed {key : String} {rest : List String} {w w' : World} {e : EvalError}
    (hbinding : target.bind call limit frame key w = .failed e w') :
    EndsAt target body frame (key :: rest) w (.failed e w')
  | bindingNever {key : String} {rest : List String} {w : World}
    (hbinding : target.bind call limit frame key w = .exhausted) :
    EndsAt target body frame (key :: rest) w .exhausted
  | bodyFailed {key : String} {rest : List String} {w u w' : World} {e : EvalError}
    (hstores : target.Stores call limit frame key w u)
    (hbody : body.run call limit frame u = .failed e w') :
    EndsAt target body frame (key :: rest) w (.failed e w')
  | bodyNever {key : String} {rest : List String} {w u : World}
    (hstores : target.Stores call limit frame key w u)
    (hbody : body.run call limit frame u = .exhausted) :
    EndsAt target body frame (key :: rest) w .exhausted
  | broken {key : String} {rest : List String} {w u w' : World}
    (hstores : target.Stores call limit frame key w u)
    (hbody : body.run call limit frame u = .done .brk w') :
    EndsAt target body frame (key :: rest) w (.done (.normal .undefined) w')
  | returned {key : String} {rest : List String} {w u w' : World} {v : Value}
    (hstores : target.Stores call limit frame key w u)
    (hbody : body.run call limit frame u = .done (.ret v) w') :
    EndsAt target body frame (key :: rest) w (.done (.ret v) w')

variable {call limit} {target : LoopTarget} {body : Stmt} {frame : Env} {key : String}
  {keys : List String} {w u v : World}

theorem LoopTarget.stores_iff :
    target.Stores call limit frame key w u ↔ target.bind call limit frame key w = .done () u := by
  cases target with
  | declare name =>
    rw [bind]
    constructor
    · rintro ⟨hset⟩
      exact hset
    · exact .declared
  | assign target =>
    rw [bind, bind_eq_done_iff]
    constructor
    · rintro (_ | ⟨hplace, hwrite⟩)
      exact ⟨_, _, hplace, hwrite⟩
    · rintro ⟨place, u', hplace, hwrite⟩
      exact .assigned hplace hwrite

/-- The heap decides on every write of a string. Only an array that has no text could have no number
to be a length. -/
theorem Value.exists_writing_string (object : Value) (h : Heap) (key s : String) :
    ∃ change, object.writing h key (.string s) = some change := by
  unfold writing
  cases object with
  | array a =>
    dsimp only
    split
    · split <;> exact ⟨_, rfl⟩
    · split <;> exact ⟨_, rfl⟩
  | _ => exact ⟨_, rfl⟩

/-- So a string is written to a place or refused by it. -/
theorem Place.write_string_ne_exhausted (p : Place) (s : String) (w : World) :
    p.write (.string s) w ≠ .exhausted := by
  cases p with
  | binding env name =>
    intro hnever
    cases hnever
  | property object key =>
    obtain ⟨change, hchange⟩ := object.exists_writing_string w.heap key s
    rw [write, updateExcept, hchange]
    intro hnever
    cases change <;> cases hnever

/-- A key that is not bound, and no failure either, has no place. -/
theorem LoopTarget.bind_eq_exhausted_iff :
    target.bind call limit frame key w = .exhausted ↔
      target.place call limit frame w = .exhausted := by
  cases target with
  | declare name =>
    rw [bind, place]
    constructor <;> nofun
  | assign target =>
    rw [bind, place, bind_run]
    cases target.place call limit frame w with
    | done p u =>
      constructor
      · exact fun hnever => absurd hnever (p.write_string_ne_exhausted key u)
      · nofun
    | failed e u => constructor <;> nofun
    | exhausted => exact ⟨fun _ => rfl, fun _ => rfl⟩

/-- Where the place of a key is there to be written, it reads as the key once the key is stored. Of
an array's `length` this is the number that the key converts to. -/
theorem LoopTarget.Stores.exists_place (h : target.Stores call limit frame key w u) :
    ∃ place v, target.place call limit frame w = .done place v ∧ (place.IsThere v.heap →
      ∃ kept, place.Keeps v.heap (.string key) kept ∧ place.read u = .done kept u) := by
  cases h with
  | @declared name _ _ hset =>
    refine ⟨.binding frame name, w, rfl, fun ⟨f, hcell⟩ => ?_⟩
    -- Declared or assigned, the name is defined in the frame of the loop.
    obtain ⟨-, rfl⟩ := Outcome.done.inj hset
    obtain ⟨-, ⟨kept, hkeeps, hkept⟩, -⟩ := Place.written_binding (v := .string key) hcell name
    refine ⟨kept, hkeeps, ?_⟩
    rw [Place.read_eq, hkept]
  | @assigned target place _ v _ hplace hwrite =>
    refine ⟨place, v, hplace, fun hthere => ?_⟩
    obtain ⟨-, ⟨kept, hkeeps, hkept⟩, -⟩ := Place.written_of_write hthere hwrite
    refine ⟨kept, hkeeps, ?_⟩
    rw [Place.read_eq, hkept]

/-! ## The rounds of a loop -/

/-- What a loop does with its keys. -/
def Stmt.runKeys (call : Caller) (limit : Nat) (target : LoopTarget) (body : Stmt) (frame : Env)
    (keys : List String) : Action Completion := do
  let ending ← firstAnswer (forInRound call limit target body frame) keys
  return ending.getD (.normal .undefined)

namespace Stmt

theorem run_forIn_eq (object : Expr) (env : Env) :
    (forIn target object body).run call limit env = (do
      let value ← object.eval call limit env
      let frame ← env.entered
      let keys ← Action.read value.enumerableKeys
      runKeys call limit target body frame keys) := by
  rw [run]
  rfl

theorem runKeys_cons (rest : List String) :
    runKeys call limit target body frame (key :: rest) = (do
      target.bind call limit frame key
      let completion ← body.run call limit frame
      match completion.endsLoop? with
      | some ending => return ending
      | none => runKeys call limit target body frame rest) := by
  rw [runKeys, firstAnswer_cons, forInRound]
  simp only [bind_assoc, pure_bind]
  refine bind_congr fun _ => bind_congr fun completion => ?_
  cases completion.endsLoop? <;> rfl

/-- What a loop does with its next key: it ends there, or it goes on with the keys that are left. -/
theorem endsAt_or_goesOn (call : Caller) (limit : Nat) (target : LoopTarget) (body : Stmt)
    (frame : Env) (key : String) (rest : List String) (w : World) :
    EndsAt call limit target body frame (key :: rest) w
        (runKeys call limit target body frame (key :: rest) w) ∨
      ∃ u completion v, target.Stores call limit frame key w u ∧
        body.run call limit frame u = .done completion v ∧ completion.endsLoop? = none ∧
        runKeys call limit target body frame (key :: rest) w =
          runKeys call limit target body frame rest v := by
  rw [runKeys_cons, bind_run]
  cases hbinding : target.bind call limit frame key w with
  -- Without a target for the key the loop ends at once. With one, it depends on the body.
  | failed e w' => exact .inl (.bindingFailed hbinding)
  | exhausted => exact .inl (.bindingNever hbinding)
  | done _ u =>
    have hstores : target.Stores call limit frame key w u := LoopTarget.stores_iff.2 hbinding
    dsimp only
    rw [bind_run]
    cases hbody : body.run call limit frame u with
    | failed e w' => exact .inl (.bodyFailed hstores hbody)
    | exhausted => exact .inl (.bodyNever hstores hbody)
    | done completion v =>
      cases completion with
      | brk => exact .inl (.broken hstores hbody)
      | ret value => exact .inl (.returned hstores hbody)
      | normal value => exact .inr ⟨u, .normal value, v, hstores, hbody, rfl, rfl⟩
      | cont => exact .inr ⟨u, .cont, v, hstores, hbody, rfl, rfl⟩

theorem EndsAt.runKeys_eq {o : Outcome Completion}
    (h : EndsAt call limit target body frame keys w o) :
    runKeys call limit target body frame keys w = o := by
  cases h with
  | lastKey => rfl
  | bindingFailed hbinding => rw [runKeys_cons, bind_of_failed hbinding]
  | bindingNever hbinding => rw [runKeys_cons, bind_run, hbinding]
  | bodyFailed hstores hbody =>
    rw [runKeys_cons, bind_of_done (LoopTarget.stores_iff.1 hstores), bind_of_failed hbody]
  | bodyNever hstores hbody =>
    rw [runKeys_cons, bind_of_done (LoopTarget.stores_iff.1 hstores), bind_run, hbody]
  | broken hstores hbody | returned hstores hbody =>
    rw [runKeys_cons, bind_of_done (LoopTarget.stores_iff.1 hstores), bind_of_done hbody]
    rfl

theorem Visits.runKeys_append {visited : List String}
    (h : Visits call limit target body frame w visited v) (rest : List String) :
    runKeys call limit target body frame (visited ++ rest) w =
      runKeys call limit target body frame rest v := by
  induction h with
  | nil => rfl
  | cons hstores hbody hgoesOn _ ih =>
    rw [List.cons_append, runKeys_cons, bind_of_done (LoopTarget.stores_iff.1 hstores),
      bind_of_done hbody, hgoesOn]
    exact ih

/-- A loop visits some of its keys, in their order, and ends with the others left. -/
theorem runKeys_iff {o : Outcome Completion} :
    runKeys call limit target body frame keys w = o ↔
      ∃ visited rest v, keys = visited ++ rest ∧ Visits call limit target body frame w visited v ∧
        EndsAt call limit target body frame rest v o := by
  constructor
  · rintro rfl
    induction keys generalizing w with
    | nil => exact ⟨[], [], w, rfl, .nil, .lastKey⟩
    | cons key keys ih =>
      obtain hends | ⟨u, completion, v, hstores, hbody, hgoesOn, hrest⟩ :=
        endsAt_or_goesOn call limit target body frame key keys w
      · exact ⟨[], key :: keys, w, rfl, .nil, hends⟩
      · obtain ⟨visited, rest, v', rfl, hvisited, hends⟩ := ih (w := v)
        exact ⟨key :: visited, rest, v', rfl, .cons hstores hbody hgoesOn hvisited, hrest ▸ hends⟩
  · rintro ⟨visited, rest, v, rfl, hvisited, hends⟩
    rw [hvisited.runKeys_append, hends.runKeys_eq]

/-- A loop that has stored its next key, and whose body ends then, does not go on for ever there. -/
theorem EndsAt.ne_exhausted {rest : List String} {o : Outcome Completion}
    (h : EndsAt call limit target body frame (key :: rest) w o)
    (hstores : target.Stores call limit frame key w u)
    (hbody : body.run call limit frame u ≠ .exhausted) : o ≠ .exhausted := by
  rw [LoopTarget.stores_iff] at hstores
  rintro rfl
  cases h with
  | bindingNever hbinding =>
    rw [hbinding] at hstores
    cases hstores
  | bodyNever hstores' hnever =>
    rw [LoopTarget.stores_iff, hstores] at hstores'
    obtain ⟨-, rfl⟩ := Outcome.done.inj hstores'
    exact hbody hnever

/-- One key more. -/
theorem Visits.concat {visited : List String} {w' : World} {completion : Completion}
    (h : Visits call limit target body frame w visited u)
    (hstores : target.Stores call limit frame key u v)
    (hbody : body.run call limit frame v = .done completion w')
    (hgoesOn : completion.endsLoop? = none) :
    Visits call limit target body frame w (visited ++ [key]) w' := by
  induction h with
  | nil => exact .cons hstores hbody hgoesOn .nil
  | cons hstores' hbody' hgoesOn' _ ih => exact .cons hstores' hbody' hgoesOn' (ih hstores)

theorem run_forIn_of_done {object : Expr} {env : Env} {value : Value} {start : World}
    (hobject : object.eval call limit env w = .done value u)
    (hentered : env.entered u = .done frame start) :
    (forIn target object body).run call limit env w =
      runKeys call limit target body frame (value.enumerableKeys start.heap) start := by
  rw [run_forIn_eq, bind_of_done hobject, bind_of_done hentered, bind_of_done (read_run _)]

end Stmt

end Visits

/-! ## Loops that end -/

section Ending

variable {host : Host} {target : LoopTarget} {body : Stmt} {frame : Env} {key : String}
  {visited : List String} {m n : Nat} {w u v : World}

theorem LoopTarget.Stores.mono (hmn : m ≤ n) (h : target.Stores (host.call m) m frame key w u) :
    target.Stores (host.call n) n frame key w u := by
  rw [stores_iff] at h ⊢
  rw [target.bind_endsAs (host.call_endsAs hmn) hmn frame key w (by rw [h]; nofun), h]

theorem Stmt.Visits.mono (hmn : m ≤ n)
    (h : Visits (host.call m) m target body frame w visited v) :
    Visits (host.call n) n target body frame w visited v := by
  induction h with
  | nil => exact .nil
  | cons hstores hbody hgoesOn _ ih =>
    have hbody' := (Stmt.run_mono hmn (by rw [hbody]; nofun)).trans hbody
    exact .cons (hstores.mono hmn) hbody' hgoesOn ih

theorem Stmt.runKeys_mono (hmn : m ≤ n) {keys : List String}
    (hends : runKeys (host.call m) m target body frame keys w ≠ .exhausted) :
    runKeys (host.call n) n target body frame keys w =
      runKeys (host.call m) m target body frame keys w := by
  have hround (key : String) : (forInRound (host.call m) m target body frame key).EndsAs
      (forInRound (host.call n) n target body frame key) := by
    refine (target.bind_endsAs (host.call_endsAs hmn) hmn frame key).bind fun _ => ?_
    exact (body.run_endsAs (host.call_endsAs hmn) hmn frame).bind fun _ => .refl _
  exact ((EndsAs.firstAnswer hround keys).bind fun _ => .refl _) w hends

variable (host target body frame) in
/-- Whenever the loop has stored a key, the run of its body ends within some limit. -/
def Stmt.BodiesEnd (keys : List String) (start : World) : Prop :=
  ∀ n visited key rest v v', keys = visited ++ key :: rest →
    Visits (host.call n) n target body frame start visited v →
    target.Stores (host.call n) n frame key v v' →
    ∃ k, body.run (host.call k) k frame v' ≠ .exhausted

variable (host target body frame) in
/-- Whenever the loop comes to a key, its place is found within some limit, or finding it fails. A
name is a place already. Of a property the object and the key have to be evaluated. -/
def Stmt.TargetsEnd (keys : List String) (start : World) : Prop :=
  ∀ n visited key rest v, keys = visited ++ key :: rest →
    Visits (host.call n) n target body frame start visited v →
    ∃ k, target.place (host.call k) k frame v ≠ .exhausted

/-- A loop ends if every run of its body does and the place of every key is found. The induction is
on the keys that are left; those before them have been visited within some limit. -/
theorem Stmt.exists_runKeys_ne_exhausted {start : World} {keys : List String}
    (hbodies : BodiesEnd host target body frame keys start)
    (htargets : TargetsEnd host target body frame keys start) :
    ∀ {rest visited : List String} {n : Nat} {v : World}, keys = visited ++ rest →
      Visits (host.call n) n target body frame start visited v →
      ∃ n, runKeys (host.call n) n target body frame rest v ≠ .exhausted
  | [], _, n, v, _, _ => ⟨n, nofun⟩
  | key :: rest, visited, n, v, hkeys, hvisits => by
    obtain ⟨k, hfound⟩ := htargets n visited key rest v hkeys hvisits
    cases hbinding : target.bind (host.call k) k frame key v with
    | exhausted => exact absurd (LoopTarget.bind_eq_exhausted_iff.1 hbinding) hfound
    | failed e w' =>
      refine ⟨k, ?_⟩
      rw [(EndsAt.bindingFailed hbinding).runKeys_eq]
      nofun
    | done _ v' =>
      have hstores : target.Stores (host.call k) k frame key v v' :=
        LoopTarget.stores_iff.2 hbinding
      obtain ⟨j, hends⟩ := hbodies (max n k) visited key rest v v' hkeys
        (hvisits.mono (le_max_left n k)) (hstores.mono (le_max_right n k))
      -- A limit within which the keys so far, the binding and the body have all come to their end.
      obtain ⟨N, hnN, hkN, hjN⟩ : ∃ N, n ≤ N ∧ k ≤ N ∧ j ≤ N :=
        ⟨max n (max k j), by omega, by omega, by omega⟩
      have hendsN : body.run (host.call N) N frame v' ≠ .exhausted := by
        rw [run_mono hjN hends]
        exact hends
      obtain hend | ⟨u, completion, v'', hstoresN, hbody, hgoesOn, -⟩ :=
        endsAt_or_goesOn (host.call N) N target body frame key rest v
      · exact ⟨N, hend.ne_exhausted (hstores.mono hkN) hendsN⟩
      -- The key has been visited, and the keys after it are left.
      have hvisitsN := (hvisits.mono hnN).concat hstoresN hbody hgoesOn
      obtain ⟨n', hrest⟩ := exists_runKeys_ne_exhausted hbodies htargets
        (by rw [hkeys, List.append_assoc]; rfl) hvisitsN
      have hkey : Visits (host.call N) N target body frame v [key] v'' :=
        .cons hstoresN hbody hgoesOn .nil
      refine ⟨max N n', ?_⟩
      have happend := (hkey.mono (le_max_left N n')).runKeys_append rest
      rw [List.singleton_append] at happend
      rw [happend, runKeys_mono (le_max_right N n') hrest]
      exact hrest

end Ending

/-- A loop over keys goes through the keys that its value has before the first of them is bound.

* No key is listed twice.
* The loop visits keys from the first one on and in their order, each once it has been stored in the
  target, and then ends: no key is left, or the next binding or the body after it fails or never
  ends, or the body completes with `break` or `return`. There is no other way to end.
* A key is stored as a string, and that is what the target reads as then. Only the `length` of an
  array reads as the number that the string converts to.
* If each run of the body ends within some limit, and each search for the place of a key does, so
  does the loop, with one of the endings above. -/
theorem keyLoop_visits_snapshot (target : LoopTarget) (object : Expr) (body : Stmt) (env : Env)
    {w u start : World} (value : Value) {frame : Env}
    (hentered : env.entered u = .done frame start) :
    (value.enumerableKeys start.heap).Nodup ∧
    (∀ (call : Caller) (limit : Nat), object.eval call limit env w = .done value u → ∀ o,
      ((Stmt.forIn target object body).run call limit env w = o ↔ ∃ visited rest v,
        value.enumerableKeys start.heap = visited ++ rest ∧
        Stmt.Visits call limit target body frame start visited v ∧
        Stmt.EndsAt call limit target body frame rest v o)) ∧
    (∀ (call : Caller) (limit : Nat) (key : String) (v v' : World),
      target.Stores call limit frame key v v' →
      ∃ place v₁, target.place call limit frame v = .done place v₁ ∧ (place.IsThere v₁.heap →
        ∃ kept, place.Keeps v₁.heap (.string key) kept ∧ place.read v' = .done kept v')) ∧
    ∀ (host : Host) (m : Nat), object.eval (host.call m) m env w = .done value u →
      Stmt.BodiesEnd host target body frame (value.enumerableKeys start.heap) start →
      Stmt.TargetsEnd host target body frame (value.enumerableKeys start.heap) start →
      ∃ n visited rest v o, o ≠ .exhausted ∧
        (Stmt.forIn target object body).run (host.call n) n env w = o ∧
        value.enumerableKeys start.heap = visited ++ rest ∧
        Stmt.Visits (host.call n) n target body frame start visited v ∧
        Stmt.EndsAt (host.call n) n target body frame rest v o := by
  have hends {call : Caller} {limit : Nat} (hobject : object.eval call limit env w = .done value u)
      {o : Outcome Completion} : (Stmt.forIn target object body).run call limit env w = o ↔
        ∃ visited rest v, value.enumerableKeys start.heap = visited ++ rest ∧
          Stmt.Visits call limit target body frame start visited v ∧
          Stmt.EndsAt call limit target body frame rest v o := by
    rw [Stmt.run_forIn_of_done hobject hentered, Stmt.runKeys_iff]
  refine ⟨value.enumerableKeys_nodup _, fun call limit hobject o => hends hobject,
    fun call limit key v v' => LoopTarget.Stores.exists_place,
    fun host m hobject hbodies htargets => ?_⟩
  obtain ⟨n, hkeys⟩ := Stmt.exists_runKeys_ne_exhausted hbodies htargets (n := m)
    (List.nil_append _).symm .nil
  -- The value of the object takes its own limit, the rounds of the loop take theirs.
  have hobject' : object.eval (host.call (max m n)) (max m n) env w = .done value u :=
    (Expr.eval_mono (le_max_left m n) (by rw [hobject]; nofun)).trans hobject
  have hrun : (Stmt.forIn target object body).run (host.call (max m n)) (max m n) env w ≠
      .exhausted := by
    rw [Stmt.run_forIn_of_done hobject' hentered, Stmt.runKeys_mono (le_max_right m n) hkeys]
    exact hkeys
  obtain ⟨visited, rest, v, hsplit, hvisits, hend⟩ := (hends hobject').1 rfl
  exact ⟨max m n, visited, rest, v, _, hrun, rfl, hsplit, hvisits, hend⟩

/-- The body `o.m = k`. -/
def growing : Stmt :=
  .expr (.assign .assign (.property (.ident "o") (.literal (.string "m"))) (.ident "k"))

/-- The world of two objects when the loop has been entered. -/
def keysListed : World where
  heap := (Env.enter ⟨0, 0⟩ twoObjects.heap).2

/-- Its first key has been stored. -/
def keyStored : World where
  heap := Env.define ⟨3, 0⟩ keysListed.heap "k" (.string "n")
  definitions := [⟨.loopKey, ⟨3, 0⟩, "k", .string "n"⟩]

/-- The body has run: the object has a key more. -/
def keyAdded : World where
  heap := keyStored.heap.modifyObject 1 (·.insert "m" (.string "n"))
  definitions := keyStored.definitions

theorem run_growing (call : Caller) (limit : Nat) :
    growing.run call limit ⟨3, 0⟩ keyStored = .done (.normal (.string "n")) keyAdded := by
  simp only [growing, Stmt.run, Expr.eval, Target.place]
  rfl

/-- The loop `for (let k in o) o.m = k;` adds a key to the object whose keys it goes through. It
visits the one that the object has at the start, and ends. -/
theorem growing_visits_snapshot :
    (∃ n, (Stmt.forIn (.declare "k") (.ident "o") growing).run
        (Host.call (fun _ _ _ _ => .never) n) n ⟨0, 0⟩ twoObjects ≠ .exhausted) ∧
      (Stmt.forIn (.declare "k") (.ident "o") growing).run (fun _ _ _ => exhaust) 0 ⟨0, 0⟩
        twoObjects = .done (.normal .undefined) keyAdded ∧
      (Place.binding ⟨3, 0⟩ "k").read keyStored = .done (.string "n") keyStored ∧
      (keyAdded.heap.object 1).keys = ["n", "m"] := by
  have hobject (call : Caller) (limit : Nat) :
      (Expr.ident "o").eval call limit ⟨0, 0⟩ twoObjects = .done (.object 1) twoObjects := by
    rw [Expr.eval]
    rfl
  have hkeys : (Value.object 1).enumerableKeys keysListed.heap = ["n"] := by
    show orderedKeys ["n"] = ["n"]
    have hname : arrayIndex? "n" = none := by decide
    simp [orderedKeys, hname]
  have hstores (call : Caller) (limit : Nat) :
      (LoopTarget.declare "k").Stores call limit ⟨3, 0⟩ "n" keysListed keyStored := .declared rfl
  have hentered : Env.entered ⟨0, 0⟩ twoObjects = .done ⟨3, 0⟩ keysListed := rfl
  obtain ⟨-, hvisits, hreads, hends⟩ :=
    keyLoop_visits_snapshot (.declare "k") (.ident "o") growing ⟨0, 0⟩ (.object 1) hentered
  refine ⟨?_, ?_, ?_, by decide⟩
  · have hbodies : Stmt.BodiesEnd (fun _ _ _ _ => .never) (.declare "k") growing ⟨3, 0⟩
        ((Value.object 1).enumerableKeys keysListed.heap) keysListed := by
      intro n visited key rest v v' hsplit hvisited hstored
      rw [hkeys] at hsplit
      -- The only key that it can be is the one with which the loop starts.
      obtain ⟨rfl, rfl, rfl⟩ : visited = [] ∧ key = "n" ∧ rest = [] := by
        simpa [List.singleton_eq_append_iff] using hsplit
      cases hvisited
      rw [LoopTarget.stores_iff] at hstored
      obtain ⟨-, rfl⟩ := Outcome.done.inj
        (hstored.symm.trans (LoopTarget.stores_iff.1 (hstores _ _)))
      exact ⟨0, by rw [run_growing]; nofun⟩
    obtain ⟨n, _, _, _, o, ho, rfl, -⟩ :=
      hends _ 0 (hobject _ _) hbodies fun _ _ _ _ _ _ _ => ⟨0, nofun⟩
    exact ⟨n, ho⟩
  · refine (hvisits _ 0 (hobject _ _) _).2 ⟨["n"], [], keyAdded, hkeys, ?_, .lastKey⟩
    exact .cons (hstores _ _) (run_growing _ _) rfl .nil
  · obtain ⟨place, v, hplace, hread⟩ := hreads (fun _ _ _ => exhaust) 0 _ _ _ (hstores _ _)
    obtain ⟨rfl, rfl⟩ := Outcome.done.inj hplace
    obtain ⟨kept, hkeeps, hkept⟩ := hread ⟨_, rfl⟩
    cases hkeeps
    exact hkept

/-! ## Loops that do not end -/

/-- A repetition none of whose rounds answers or changes anything exceeds each number of rounds. -/
theorem Action.rounds_eq_exhausted {α : Type} {round : Action (Option α)} {w : World}
    (hround : round w = .done none w) (count : Nat) : rounds round count w = .exhausted := by
  have hbegins (count : Nat) : Begins round w count w := by
    induction count with
    | zero => exact .first
    | succ count ih => exact .next ih hround
  -- When the last round has passed, none is left.
  exact (hbegins count).rounds_eq 0

/-- The function `function f() { while (true) ; }`. -/
def spinning : Closure where
  code := .mk (some "f") [] [.whileLoop (.literal (.bool true)) .empty] false
  env := ⟨0, 0⟩

/-- A call of it ends within no limit. -/
theorem call_spinning (host : Host) {a : Addr} {w : World}
    (hclosure : w.heap.closure? a = some spinning) (this : Value) (arguments : List Value) :
    ∀ n, host.call n (.function a) this arguments w = .exhausted
  | 0 => rfl
  | n + 1 => by
    have hround (frame : Env) (u : World) :
        whileRound (host.call n) n (.literal (.bool true)) .empty frame u = .done none u := by
      simp only [whileRound, Expr.eval, Stmt.run]
      rfl
    have hloop (frame : Env) (u : World) : (Stmt.whileLoop (.literal (.bool true)) .empty).run
        (host.call n) n frame u = .exhausted := by
      rw [Stmt.run_whileLoop_eq]
      exact rounds_eq_exhausted (hround _ _) n
    -- Nothing before the loop can fail, and the loop does not end.
    have hentered : spinning.env.entered w = .done ⟨w.heap.size, 0⟩ _ := rfl
    have hparams (frame : Env) (u : World) :
        bindParams (host.call n) n spinning.code.params arguments frame u = .done () u := by
      show bindParams _ _ [] _ _ _ = _
      rw [bindParams]
      rfl
    have hbody (frame : Env) (u : World) :
        runAll (host.call n) n spinning.code.body frame .undefined u = .exhausted := by
      show runAll _ _ [_] _ _ _ = _
      rw [runAll, bind_run, hloop]
    rw [Host.call_closure hclosure, Closure.invoke_eq, bind_of_done hentered,
      bind_of_done (rfl : spinning.bindReceiver this _ _ = .done () _),
      bind_of_done (hparams _ _), bind_run, hbody]

/-- A world with this function, an object and an array. -/
def withSpinning : World where
  heap := { cells := #[
    .frame {
      bindings := .ofList [("f", .function 1), ("o", .object 2), ("a", .array 3)]
      host := some ∅ },
    .function spinning,
    .object (.ofList [("2", .number 0)]),
    .array #[]] }

/-- The target `f().k`. -/
def stuckTarget : Target :=
  .property (.call (.ident "f") [] "f") (.literal (.string "k"))

/-- The target `a.length`. -/
def lengthTarget : Target := .property (.ident "a") (.literal (.string "length"))

/-- The world when a loop has been entered. -/
def spinningEntered : World where
  heap := (Env.enter ⟨0, 0⟩ withSpinning.heap).2

theorem place_stuckTarget (host : Host) (n : Nat) :
    (LoopTarget.assign stuckTarget).place (host.call n) n ⟨4, 0⟩ spinningEntered = .exhausted := by
  have hfunction : Env.get ⟨4, 0⟩ "f" spinningEntered = .done (.function 1) spinningEntered := rfl
  have hcall : (Expr.call (.ident "f") [] "f").eval (host.call n) n ⟨4, 0⟩ spinningEntered =
      .exhausted := by
    rw [Expr.eval, Expr.eval, bind_of_done hfunction, evalArguments, pure_bind]
    exact call_spinning host rfl _ _ n
  rw [LoopTarget.place, stuckTarget, Target.place, bind_run, hcall]

/-- That the runs of its body end does not make a loop end: `for (f().k in o) ;` searches for the
place of its first key for ever. And a target need not read as the string that was stored in it:
in `for (a.length in o) ;` it is a number then. -/
theorem keyLoop_stuck_in_target :
    (¬ ∀ (host : Host) (m : Nat) (target : LoopTarget) (object : Expr) (body : Stmt)
        (env frame : Env) (w u start : World) (value : Value),
      object.eval (host.call m) m env w = .done value u → env.entered u = .done frame start →
      Stmt.BodiesEnd host target body frame (value.enumerableKeys start.heap) start →
      ∃ n, (Stmt.forIn target object body).run (host.call n) n env w ≠ .exhausted) ∧
    ¬ ∀ (call : Caller) (limit : Nat) (target : LoopTarget) (frame : Env) (key : String)
        (w w' u : World) (place : Place),
      target.place call limit frame w = .done place u → place.IsThere u.heap →
      target.Stores call limit frame key w w' → place.read w' = .done (.string key) w' := by
  constructor
  · intro h
    have hobject (call : Caller) (n : Nat) : (Expr.ident "o").eval call n ⟨0, 0⟩ withSpinning =
        .done (.object 2) withSpinning := by
      rw [Expr.eval]
      rfl
    have hentered : Env.entered ⟨0, 0⟩ withSpinning = .done ⟨4, 0⟩ spinningEntered := rfl
    have hkeys : (Value.object 2).enumerableKeys spinningEntered.heap = ["2"] := by
      show orderedKeys ["2"] = ["2"]
      have hname : arrayIndex? "2" = some 2 := by decide
      simp [orderedKeys, hname]
    have hbodies : Stmt.BodiesEnd (fun _ _ _ _ => .never) (.assign stuckTarget) .empty ⟨4, 0⟩
        ((Value.object 2).enumerableKeys spinningEntered.heap) spinningEntered := by
      intro _ _ _ _ _ _ _ _ _
      refine ⟨0, ?_⟩
      rw [Stmt.run]
      nofun
    obtain ⟨n, hends⟩ := h _ 0 _ _ _ _ _ _ _ _ _ (hobject _ 0) hentered hbodies
    -- There is a key, and so there is a search for its place.
    have hbinding : (LoopTarget.assign stuckTarget).bind (Host.call (fun _ _ _ _ => .never) n) n
        ⟨4, 0⟩ "2" spinningEntered = .exhausted :=
      LoopTarget.bind_eq_exhausted_iff.2 (place_stuckTarget _ n)
    rw [Stmt.run_forIn_of_done (hobject _ n) hentered, hkeys,
      (Stmt.EndsAt.bindingNever hbinding).runKeys_eq] at hends
    exact hends rfl
  · intro h
    have hplace : (LoopTarget.assign lengthTarget).place (fun _ _ _ => exhaust) 0 ⟨0, 0⟩
        withSpinning = .done (.property (.array 3) "length") withSpinning := by
      simp only [LoopTarget.place, lengthTarget, Target.place, Expr.eval]
      rfl
    have hread := h _ _ _ _ "2" _ _ _ _ hplace ⟨_, rfl⟩ (.assigned hplace rfl)
    -- The length that was written is two, not the text of it.
    cases hread

end HostScript
