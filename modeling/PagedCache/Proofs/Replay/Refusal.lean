import PagedCache.Proofs.Cache.Procedure

/-!
# Refused scripts

A script ends with the first step that is refused, and leaves the cache as the steps
before made it.  Which step that is, and why it is refused, does not depend on what the
cache holds or how much it has room for.
-/

namespace PagedCache.Replay

open Procedure

/-! ## Single steps -/

section AtStep

variable {β : Type} {index : Nat} {action : String} {call : Call}
  {procedure : Procedure EntityKey β}

theorem run_atStep_of_ok {cache final : Cache EntityKey} {value : β}
    (hrun : procedure.run cache = .ok value final) :
    (atStep index action call procedure).run cache = .ok value final := by
  simp only [EStateM.run] at hrun
  simp only [atStep, EStateM.run, EStateM.adaptExcept, hrun]

theorem run_atStep_of_error {cache final : Cache EntityKey} {cause : CacheError}
    (hrun : procedure.run cache = .error cause final) :
    (atStep index action call procedure).run cache =
      .error ⟨index, action, call, cause⟩ final := by
  simp only [EStateM.run] at hrun
  simp only [atStep, EStateM.run, EStateM.adaptExcept, hrun]

theorem refusal?_atStep (cache : Cache EntityKey) :
    refusal? ((atStep index action call procedure).run cache) =
      (refusal? (procedure.run cache)).map fun cause => ⟨index, action, call, cause⟩ := by
  cases hrun : procedure.run cache with
  | ok value final => rw [run_atStep_of_ok hrun]; rfl
  | error cause final => rw [run_atStep_of_error hrun]; rfl

theorem atomic_atStep (hprocedure : Atomic procedure) :
    Atomic (atStep index action call procedure) := by
  constructor
  · intro left right hchecks
    rw [refusal?_atStep, refusal?_atStep, hprocedure.alike left right hchecks]
  · intro cache error final hrefused
    cases hrun : procedure.run cache with
    | ok value middle =>
        rw [run_atStep_of_ok hrun] at hrefused
        cases hrefused
    | error cause middle =>
        rw [run_atStep_of_error hrun] at hrefused
        cases hrefused
        exact hprocedure.unchanged cache cause _ hrun
  · intro cache value final hdone
    cases hrun : procedure.run cache with
    | ok done middle =>
        rw [run_atStep_of_ok hrun] at hdone
        cases hdone
        exact hprocedure.checks cache _ _ hrun
    | error cause middle =>
        rw [run_atStep_of_error hrun] at hdone
        cases hdone

end AtStep

theorem atomic_step (index : Nat) (step : Step) : Atomic (step.procedure index) := by
  cases step with
  | write call response =>
      exact (atomic_atStep (atomic_writeResponse call response)).bind_unrefused
        fun _ => .pure _
  | read call =>
      exact (atomic_atStep (atomic_readResponse call)).bind_unrefused fun _ => .pure _
  | evict call =>
      exact (atomic_atStep (atomic_evict call)).bind_unrefused fun _ => .pure _
  | clear =>
      exact .of_unrefused (.bind (.modifyGet fun _ => ⟨rfl, rfl⟩) fun _ => .pure _)

theorem step_eq_of_atStep_refused {β : Type} {index : Nat} {action : String} {call : Call}
    {procedure : Procedure EntityKey β} {wrap : β → Option ReadResult}
    {cache final : Cache EntityKey} {error : StepError}
    (hrefused : (atStep index action call procedure >>= fun value => pure (wrap value)).run
      cache = .error error final) : error.step = index := by
  cases hrun : procedure.run cache with
  | ok value middle =>
      rw [run_bind_of_ok (run_atStep_of_ok hrun)] at hrefused
      cases hrefused
  | error cause middle =>
      rw [run_bind_of_error (run_atStep_of_error hrun)] at hrefused
      cases hrefused
      rfl

/-- The error of a step that is refused carries the number of the step. -/
theorem step_eq_of_refused {index : Nat} {step : Step} {cache final : Cache EntityKey}
    {error : StepError} (hrefused : (step.procedure index).run cache = .error error final) :
    error.step = index := by
  cases step with
  | write | read | evict => exact step_eq_of_atStep_refused hrefused
  | clear => cases hrefused

/-! ## All steps -/

/-- **A script is refused alike by all caches that check alike.** -/
theorem refusal?_procedureFrom (index : Nat) (steps : List Step)
    {left right : Cache EntityKey} (hchecks : Cache.SameChecks left right) :
    refusal? ((procedureFrom index steps).run left) =
      refusal? ((procedureFrom index steps).run right) := by
  induction steps generalizing index left right with
  | nil => rfl
  | cons step rest ih =>
      have hstep := (atomic_step index step).alike left right hchecks
      simp only [procedureFrom]
      cases hleft : (step.procedure index).run left with
      | error error leftFinal =>
          cases hright : (step.procedure index).run right with
          | ok => simp [hleft, hright, refusal?] at hstep
          | error cause rightFinal =>
              rw [run_bind_of_error hleft, run_bind_of_error hright]
              rwa [hleft, hright] at hstep
      | ok leftResult leftNext =>
          cases hright : (step.procedure index).run right with
          | error => simp [hleft, hright, refusal?] at hstep
          | ok rightResult rightNext =>
              have hnext : Cache.SameChecks leftNext rightNext :=
                (((atomic_step index step).checks _ _ _ hleft).trans hchecks).trans
                  ((atomic_step index step).checks _ _ _ hright).symm
              rw [run_bind_of_ok hleft, run_bind_of_ok hright]
              rw [Atomic.refusal?_bind fun _ => .pure _, Atomic.refusal?_bind fun _ => .pure _]
              exact ih (index + 1) hnext

/-- The steps before the one that is refused are carried out, and the cache stays as
they leave it. -/
theorem exists_of_procedureFrom_refused {index : Nat} {steps : List Step}
    {cache final : Cache EntityKey} {error : StepError}
    (hrefused : (procedureFrom index steps).run cache = .error error final) :
    ∃ done refused rest results, steps = done ++ refused :: rest ∧
      error.step = index + done.length ∧
      (procedureFrom index done).run cache = .ok results final ∧
      (Step.procedure (index + done.length) refused).run final = .error error final := by
  induction steps generalizing index cache with
  | nil => cases hrefused
  | cons step rest ih =>
      simp only [procedureFrom] at hrefused
      cases hrun : (step.procedure index).run cache with
      | error cause middle =>
          rw [run_bind_of_error hrun] at hrefused
          cases hrefused
          have hunchanged := (atomic_step index step).unchanged cache _ _ hrun
          subst hunchanged
          exact ⟨[], step, rest, [], rfl, step_eq_of_refused hrun, rfl, hrun⟩
      | ok result next =>
          rw [run_bind_of_ok hrun] at hrefused
          cases hlater : (procedureFrom (index + 1) rest).run next with
          | ok results last =>
              rw [run_bind_of_ok hlater] at hrefused
              cases hrefused
          | error cause last =>
              rw [run_bind_of_error hlater] at hrefused
              cases hrefused
              obtain ⟨done, refused, later, results, rfl, hstep, hdone, hend⟩ := ih hlater
              have hcount : index + (step :: done).length = index + 1 + done.length := by
                rw [List.length_cons]
                omega
              refine ⟨step :: done, refused, later, result.toList ++ results, rfl, ?_⟩
              rw [hcount]
              refine ⟨hstep, ?_, hend⟩
              exact (run_bind_of_ok hrun).trans (run_bind_of_ok hdone)

/-! ## Agreement with the run of a script -/

theorem size_le_of_writeResponse {cache next : Cache EntityKey}
    (hroom : cache.size ≤ cache.capacity) {call : Call} {response : Option Json.Value}
    (hwrite : cache.writeResponse call response = .ok next) : next.size ≤ next.capacity := by
  unfold Cache.writeResponse at hwrite
  cases hrequire : cache.registry.require call.typeName call.field with
  | error error => simp [hrequire] at hwrite
  | ok policy =>
      rw [hrequire] at hwrite
      dsimp only at hwrite
      cases hdecode : Response.decode cache.registry policy response with
      | error error => simp [hdecode] at hwrite
      | ok incoming =>
          rw [hdecode] at hwrite
          dsimp only at hwrite
          have hnext := Cache.size_perform_le hroom (.write call incoming)
          rwa [Cache.perform_write, hwrite] at hnext

theorem size_le_of_readResponse {cache next : Cache EntityKey}
    (hroom : cache.size ≤ cache.capacity) {call : Call} {reading : Reading Json.Value}
    (hread : cache.readResponse call = .ok (reading, next)) :
    next.size ≤ next.capacity := by
  unfold Cache.readResponse at hread
  cases hrequire : cache.registry.require call.typeName call.field with
  | error error => simp [hrequire] at hread
  | ok policy =>
      rw [hrequire] at hread
      dsimp only at hread
      have hnext := Cache.size_perform_le hroom (.read call)
      rw [Cache.perform_read] at hnext
      cases hanswer : cache.read call with
      | error error => simp [hanswer] at hread
      | ok answer =>
          rw [hanswer] at hread hnext
          cases hread
          exact hnext

theorem size_le_of_evict {cache next : Cache EntityKey}
    (hroom : cache.size ≤ cache.capacity) {call : Call} {removed : Bool}
    (hevict : cache.evict call = .ok (removed, next)) : next.size ≤ next.capacity := by
  have hnext := Cache.size_perform_le hroom (.evict call)
  rwa [Cache.perform_evict, hevict] at hnext

section Cons

variable {index : Nat} {step : Step} {rest : List Step} {cache next : Cache EntityKey}

theorem answer_run_procedureFrom_of_some {result : ReadResult}
    (hstep : (step.procedure index).run cache = .ok (some result) next) :
    answer ((procedureFrom index (step :: rest)).run cache) =
      ((answer ((procedureFrom (index + 1) rest).run next)).1.map (result :: ·),
        (answer ((procedureFrom (index + 1) rest).run next)).2) := by
  simp only [procedureFrom]
  rw [run_bind_of_ok hstep]
  cases hrest : (procedureFrom (index + 1) rest).run next with
  | ok results final => exact congrArg answer (run_bind_of_ok hrest)
  | error error final => exact congrArg answer (run_bind_of_error hrest)

theorem answer_run_procedureFrom_of_none
    (hstep : (step.procedure index).run cache = .ok none next) :
    answer ((procedureFrom index (step :: rest)).run cache) =
      answer ((procedureFrom (index + 1) rest).run next) := by
  simp only [procedureFrom]
  rw [run_bind_of_ok hstep]
  cases hrest : (procedureFrom (index + 1) rest).run next with
  | ok results final => exact congrArg answer (run_bind_of_ok hrest)
  | error error final => exact congrArg answer (run_bind_of_error hrest)

theorem answer_run_procedureFrom_of_error {error : StepError}
    (hstep : (step.procedure index).run cache = .error error next) :
    answer ((procedureFrom index (step :: rest)).run cache) = (.error error, next) :=
  congrArg answer (run_bind_of_error hstep)

end Cons

/-- **The procedure of a script does what the run of the script does.** -/
theorem answer_run_procedureFrom (index : Nat) (steps : List Step) {cache : Cache EntityKey}
    (hroom : cache.size ≤ cache.capacity) :
    answer ((procedureFrom index steps).run cache) = runFrom index cache steps := by
  induction steps generalizing index cache with
  | nil => rfl
  | cons step rest ih =>
      cases step with
      | write call response =>
          have hrun := run_writeResponse hroom call response
          simp only [runFrom]
          cases hwrite : cache.writeResponse call response with
          | error cause =>
              rw [hwrite] at hrun
              exact answer_run_procedureFrom_of_error
                (run_bind_of_error (run_atStep_of_error hrun))
          | ok next =>
              rw [hwrite] at hrun
              rw [answer_run_procedureFrom_of_none (run_bind_of_ok (run_atStep_of_ok hrun))]
              exact ih (index + 1) (size_le_of_writeResponse hroom hwrite)
      | read call =>
          have hrun := run_readResponse cache call
          simp only [runFrom]
          cases hread : cache.readResponse call with
          | error cause =>
              rw [hread] at hrun
              exact answer_run_procedureFrom_of_error
                (run_bind_of_error (run_atStep_of_error hrun))
          | ok answered =>
              rw [hread] at hrun
              rw [answer_run_procedureFrom_of_some (run_bind_of_ok (run_atStep_of_ok hrun)),
                ih (index + 1) (size_le_of_readResponse hroom hread)]
      | evict call =>
          have hrun := run_evict cache call
          simp only [runFrom]
          cases hevict : cache.evict call with
          | error cause =>
              rw [hevict] at hrun
              exact answer_run_procedureFrom_of_error
                (run_bind_of_error (run_atStep_of_error hrun))
          | ok answered =>
              rw [hevict] at hrun
              rw [answer_run_procedureFrom_of_none (run_bind_of_ok (run_atStep_of_ok hrun))]
              exact ih (index + 1) (size_le_of_evict hroom hevict)
      | clear =>
          have hclear : (Step.procedure index .clear).run cache = .ok none cache.clear := rfl
          rw [answer_run_procedureFrom_of_none hclear]
          exact ih (index + 1) (Nat.zero_le _)

/-! ## Every refusal -/

/-- **What is refused has changed nothing, and is refused for the rules alone.**  A
procedure that is refused leaves the cache as it found it, and caches with the same
registry and bound refuse the same with the same error, whatever they hold or have room
for.  So do scripts, which stop with the cache as the steps before left it.  On a cache
that holds no more than it has room for, the procedures do what `Cache.perform`,
`Cache.serve`, and `Script.run` say. -/
theorem refused_without_changes :
    (∀ (α : Type) (operation : Operation α), Atomic (perform operation)) ∧
    (∀ request : Request, Atomic (serve request)) ∧
    (∀ (script : Script) (left right : Cache EntityKey), Cache.SameChecks left right →
      refusal? (script.procedure.run left) = refusal? (script.procedure.run right)) ∧
    (∀ (script : Script) (cache final : Cache EntityKey) (error : StepError),
      script.procedure.run cache = .error error final →
        ∃ done refused rest results, script.steps = done ++ refused :: rest ∧
          error.step = done.length ∧
          (Script.mk done).procedure.run cache = .ok results final ∧
          (refused.procedure done.length).run final = .error error final) ∧
    (∀ (α : Type) (cache : Cache α), cache.size ≤ cache.capacity →
      ∀ operation, answer ((perform operation).run cache) = cache.perform operation) ∧
    ∀ cache : Cache EntityKey, cache.size ≤ cache.capacity →
      (∀ request, answer ((serve request).run cache) = cache.serve request) ∧
      ∀ script : Script, answer (script.procedure.run cache) = script.run cache := by
  refine ⟨fun _ => atomic_perform, atomic_serve, ?alike, ?stops, ?operations, ?runs⟩
  case alike =>
    intro script left right hchecks
    exact refusal?_procedureFrom 0 script.steps hchecks
  case stops =>
    intro script cache final error hrefused
    obtain ⟨done, refused, rest, results, hsteps, hstep, hdone, hend⟩ :=
      exists_of_procedureFrom_refused hrefused
    rw [Nat.zero_add] at hstep hend
    exact ⟨done, refused, rest, results, hsteps, hstep, hdone, hend⟩
  case operations =>
    intro α cache hroom operation
    exact answer_run_perform hroom operation
  case runs =>
    intro cache hroom
    refine ⟨answer_run_serve hroom, fun script => ?_⟩
    exact answer_run_procedureFrom 0 script.steps hroom

/-- The second read names a field that is not registered.  A small empty cache and a
large one that holds the list stop there with the same error, after the first read was
counted. -/
theorem refused_without_changes_unknownField :
    let script : Script :=
      ⟨[.read (Console.requestsCall "w" 0 10), .read ⟨"Workspace", "w", "members", []⟩]⟩
    let small : Cache EntityKey := .fresh Console.requestsRegistry 1 100
    let large : Cache EntityKey :=
      ⟨Console.requestsRegistry, 5, 100, [(Console.requestsKey "w", .empty)], .zero⟩
    refusal? (script.procedure.run small) = refusal? (script.procedure.run large) ∧
      ∃ error final, script.procedure.run small = .error error final ∧
        final.tally.misses = 1 ∧
        ∃ done refused rest results, script.steps = done ++ refused :: rest ∧
          error.step = done.length ∧
          (Script.mk done).procedure.run small = .ok results final ∧
          (refused.procedure done.length).run final = .error error final := by
  intro script small large
  obtain ⟨-, -, halike, hstops, -, -⟩ := refused_without_changes
  refine ⟨halike script small large ⟨rfl, rfl⟩, _, _, rfl, rfl, ?_⟩
  exact hstops script small _ _ rfl

end PagedCache.Replay
