import PagedCache.Proofs.Cache.Step
import PagedCache.Replay.Procedure

/-!
# Refused operations

Every procedure of a cache makes all its checks before its first change, and the checks
look at the rules of the cache only.  So a procedure that is refused has changed
nothing, and whether it is refused does not depend on what the cache holds.
-/

namespace PagedCache

variable {α : Type}

namespace Procedure

/-! ## Checks before changes -/

/-- The error that ended a procedure. -/
def refusal? {ε σ β : Type} : EStateM.Result ε σ β → Option ε
  | .ok _ _ => none
  | .error error _ => some error

/-- A procedure that is refused for what the rules of the cache say, and before it
changed anything. -/
structure Atomic {ε β : Type} (procedure : EStateM ε (Cache α) β) : Prop where
  alike : ∀ left right, Cache.SameChecks left right →
    refusal? (procedure.run left) = refusal? (procedure.run right)
  unchanged : ∀ cache error final, procedure.run cache = .error error final → final = cache
  checks : ∀ cache value final, procedure.run cache = .ok value final →
    Cache.SameChecks final cache

/-- A procedure that is never refused and leaves the rules of the cache alone. -/
def Unrefused {ε β : Type} (procedure : EStateM ε (Cache α) β) : Prop :=
  ∀ cache, ∃ value final, procedure.run cache = .ok value final ∧
    Cache.SameChecks final cache

section Rules

variable {ε β γ : Type}

theorem run_bind_of_ok {σ : Type} {procedure : EStateM ε σ β} {next : β → EStateM ε σ γ}
    {start middle : σ} {value : β} (hrun : procedure.run start = .ok value middle) :
    (procedure >>= next).run start = (next value).run middle := by
  simp only [EStateM.run, bind, EStateM.bind] at hrun ⊢
  rw [hrun]

theorem run_bind_of_error {σ : Type} {procedure : EStateM ε σ β}
    {next : β → EStateM ε σ γ} {start middle : σ} {error : ε}
    (hrun : procedure.run start = .error error middle) :
    (procedure >>= next).run start = .error error middle := by
  simp only [EStateM.run, bind, EStateM.bind] at hrun ⊢
  rw [hrun]

theorem run_check_bind_of_ok {look : Cache α → Except CacheError β}
    {next : β → Procedure α γ} {cache : Cache α} {value : β}
    (hlook : look cache = .ok value) :
    (check look >>= next).run cache = (next value).run cache := by
  apply run_bind_of_ok
  simp only [EStateM.run, check, hlook]

theorem run_check_bind_of_error {look : Cache α → Except CacheError β}
    {next : β → Procedure α γ} {cache : Cache α} {error : CacheError}
    (hlook : look cache = .error error) :
    (check look >>= next).run cache = .error error cache := by
  apply run_bind_of_error
  simp only [EStateM.run, check, hlook]

namespace Unrefused

theorem pure (value : β) : Unrefused (pure value : EStateM ε (Cache α) β) :=
  fun cache => ⟨value, cache, rfl, rfl, rfl⟩

theorem getThe : Unrefused (getThe (Cache α) : EStateM ε (Cache α) (Cache α)) :=
  fun cache => ⟨cache, cache, rfl, rfl, rfl⟩

theorem modifyGet {change : Cache α → β × Cache α}
    (hchecks : ∀ cache, Cache.SameChecks (change cache).2 cache) :
    Unrefused (modifyGet change : EStateM ε (Cache α) β) :=
  fun cache => ⟨(change cache).1, (change cache).2, rfl, hchecks cache⟩

theorem bind {procedure : EStateM ε (Cache α) β} {next : β → EStateM ε (Cache α) γ}
    (hprocedure : Unrefused procedure) (hnext : ∀ value, Unrefused (next value)) :
    Unrefused (procedure >>= next) := by
  intro cache
  obtain ⟨value, middle, hrun, hmiddle⟩ := hprocedure cache
  obtain ⟨result, final, hfinal, hchecks⟩ := hnext value middle
  refine ⟨result, final, (run_bind_of_ok hrun).trans hfinal, ?_⟩
  exact hchecks.trans hmiddle

end Unrefused

namespace Atomic

theorem of_unrefused {procedure : EStateM ε (Cache α) β}
    (hprocedure : Unrefused procedure) : Atomic procedure := by
  constructor
  · intro left right _
    obtain ⟨leftValue, leftFinal, hleft, -⟩ := hprocedure left
    obtain ⟨rightValue, rightFinal, hright, -⟩ := hprocedure right
    rw [hleft, hright]
    rfl
  · intro cache error final hrefused
    obtain ⟨value, middle, hrun, -⟩ := hprocedure cache
    rw [hrun] at hrefused
    cases hrefused
  · intro cache value final hdone
    obtain ⟨middleValue, middle, hrun, hchecks⟩ := hprocedure cache
    rw [hrun] at hdone
    cases hdone
    exact hchecks

/-- What cannot be refused does not change whether the procedure before it is. -/
theorem refusal?_bind {procedure : EStateM ε (Cache α) β}
    {next : β → EStateM ε (Cache α) γ} (hnext : ∀ value, Unrefused (next value))
    (cache : Cache α) :
    refusal? ((procedure >>= next).run cache) = refusal? (procedure.run cache) := by
  cases hrun : procedure.run cache with
  | error error middle =>
      rw [run_bind_of_error hrun]
      rfl
  | ok value middle =>
      obtain ⟨result, final, hfinal, -⟩ := hnext value middle
      rw [run_bind_of_ok hrun, hfinal]
      rfl

/-- After a procedure that is atomic comes what cannot be refused. -/
theorem bind_unrefused {procedure : EStateM ε (Cache α) β}
    {next : β → EStateM ε (Cache α) γ} (hprocedure : Atomic procedure)
    (hnext : ∀ value, Unrefused (next value)) : Atomic (procedure >>= next) := by
  constructor
  · intro left right hchecks
    rw [refusal?_bind hnext, refusal?_bind hnext]
    exact hprocedure.alike left right hchecks
  · intro cache error final hrefused
    cases hrun : procedure.run cache with
    | error cause middle =>
        rw [run_bind_of_error hrun] at hrefused
        cases hrefused
        exact hprocedure.unchanged cache _ _ hrun
    | ok value middle =>
        obtain ⟨result, last, hlast, -⟩ := hnext value middle
        rw [run_bind_of_ok hrun, hlast] at hrefused
        cases hrefused
  · intro cache result final hdone
    cases hrun : procedure.run cache with
    | error cause middle =>
        rw [run_bind_of_error hrun] at hdone
        cases hdone
    | ok value middle =>
        obtain ⟨lastResult, last, hlast, hchecks⟩ := hnext value middle
        rw [run_bind_of_ok hrun, hlast] at hdone
        cases hdone
        exact hchecks.trans (hprocedure.checks cache value middle hrun)

/-- Before a procedure that is atomic comes a check of the rules. -/
theorem check_bind {look : Cache α → Except CacheError β} {next : β → Procedure α γ}
    (hlook : ∀ left right, Cache.SameChecks left right → look left = look right)
    (hnext : ∀ value, Atomic (next value)) : Atomic (check look >>= next) := by
  constructor
  · intro left right hchecks
    have hsame := hlook left right hchecks
    cases hlooked : look right with
    | error error =>
        rw [run_check_bind_of_error hlooked, run_check_bind_of_error (hsame.trans hlooked)]
        rfl
    | ok value =>
        rw [run_check_bind_of_ok hlooked, run_check_bind_of_ok (hsame.trans hlooked)]
        exact (hnext value).alike left right hchecks
  · intro cache error final hrefused
    cases hlooked : look cache with
    | error cause =>
        rw [run_check_bind_of_error hlooked] at hrefused
        cases hrefused
        rfl
    | ok value =>
        rw [run_check_bind_of_ok hlooked] at hrefused
        exact (hnext value).unchanged cache error final hrefused
  · intro cache result final hdone
    cases hlooked : look cache with
    | error cause =>
        rw [run_check_bind_of_error hlooked] at hdone
        cases hdone
    | ok value =>
        rw [run_check_bind_of_ok hlooked] at hdone
        exact (hnext value).checks cache result final hdone

end Atomic

end Rules

/-! ## Operations -/

theorem unrefused_merge (key : SnapshotKey) (window : Window) (page : Page α) :
    Unrefused (merge key window page) := by
  refine .bind (.modifyGet fun _ => ⟨rfl, rfl⟩) fun existing => ?_
  cases Snapshot.merge existing (some page) window with
  | none => exact .pure _
  | some merged =>
      refine .bind (.modifyGet fun _ => ⟨rfl, rfl⟩) fun _ => ?_
      refine .bind (.modifyGet fun cache => ?_) fun evicted => ?_
      · split <;> [exact ⟨rfl, rfl⟩; split <;> exact ⟨rfl, rfl⟩]
      · cases evicted with
        | none => exact .pure _
        | some key => exact .modifyGet fun _ => ⟨rfl, rfl⟩

theorem atomic_locate_bind {β : Type} (call : Call)
    {next : ListPolicy × SnapshotKey → Procedure α β}
    (hnext : ∀ policy key, Atomic (next (policy, key))) :
    Atomic (check (fun cache => cache.locate call) >>= next) :=
  .check_bind (fun _ _ hchecks => hchecks.locate_eq call) fun located =>
    hnext located.1 located.2

theorem atomic_write (call : Call) (incoming : Option (Page α)) :
    Atomic (write call incoming) := by
  refine atomic_locate_bind call fun policy key => ?_
  refine .check_bind (fun _ _ _ => rfl) fun window => ?_
  cases incoming with
  | none => exact .of_unrefused (.modifyGet fun _ => ⟨rfl, rfl⟩)
  | some page =>
      have hmerge : Atomic (merge key window page) :=
        .of_unrefused (unrefused_merge key window page)
      dsimp only
      cases page.items with
      | none => exact hmerge
      | some items =>
          refine .check_bind (fun left right hchecks => ?_) fun _ => hmerge
          simp only [Cache.checkEnd, hchecks.maxWindowEnd]

theorem atomic_read (call : Call) : Atomic (read call : Procedure α _) := by
  refine atomic_locate_bind call fun policy key => ?_
  refine .check_bind (fun _ _ _ => rfl) fun window => ?_
  refine .of_unrefused (.bind (.modifyGet fun cache => ?_) fun held => ?_)
  · exact (Cache.sameRules_touch cache key).sameChecks
  · cases held with
    | none => exact .bind (.modifyGet fun _ => ⟨rfl, rfl⟩) fun _ => .pure _
    | some snapshot =>
        dsimp only
        split <;> exact .bind (.modifyGet fun _ => ⟨rfl, rfl⟩) fun _ => .pure _

theorem atomic_peek (call : Call) : Atomic (peek call : Procedure α _) :=
  atomic_locate_bind call fun _ _ =>
    .of_unrefused (.bind .getThe fun _ => .pure _)

theorem atomic_evict (call : Call) : Atomic (evict call : Procedure α _) :=
  atomic_locate_bind call fun _ _ =>
    .of_unrefused (.bind (.modifyGet fun _ => ⟨rfl, rfl⟩) fun _ => .pure _)

theorem unrefused_popAll (keys : List SnapshotKey) :
    Unrefused (popAll keys : Procedure α Unit) := by
  induction keys with
  | nil => exact .pure _
  | cons key rest ih => exact .bind (.modifyGet fun _ => ⟨rfl, rfl⟩) fun _ => ih

theorem atomic_perform (operation : Operation α) : Atomic (perform operation) := by
  cases operation with
  | write call incoming => exact (atomic_write call incoming).bind_unrefused fun _ => .pure _
  | read call => exact (atomic_read call).bind_unrefused fun _ => .pure _
  | peek call => exact (atomic_peek call).bind_unrefused fun _ => .pure _
  | evict call => exact (atomic_evict call).bind_unrefused fun _ => .pure _
  | evictEntity typeName entityId =>
      have hevict : Unrefused (evictEntity typeName entityId : Procedure α Nat) :=
        .bind .getThe fun _ => .bind (unrefused_popAll _) fun _ => .pure _
      exact .of_unrefused (.bind hevict fun _ => .pure _)
  | clear => exact .of_unrefused (.bind (.modifyGet fun _ => ⟨rfl, rfl⟩) fun _ => .pure _)
  | resetTally => exact .of_unrefused (.bind (.modifyGet fun _ => ⟨rfl, rfl⟩) fun _ => .pure _)

theorem atomic_require_bind {β : Type} (call : Call)
    {next : ListPolicy → Procedure EntityKey β} (hnext : ∀ policy, Atomic (next policy)) :
    Atomic (check (fun cache => cache.registry.require call.typeName call.field) >>=
      next) :=
  .check_bind (fun _ _ hchecks => by rw [hchecks.registry]) hnext

theorem atomic_writeResponse (call : Call) (response : Option Json.Value) :
    Atomic (writeResponse call response) := by
  refine atomic_require_bind call fun policy => ?_
  refine .check_bind (fun _ _ hchecks => by rw [hchecks.registry]) fun incoming => ?_
  exact atomic_write call incoming

theorem atomic_readResponse (call : Call) : Atomic (readResponse call) :=
  atomic_require_bind call fun _ => (atomic_read call).bind_unrefused fun _ => .pure _

theorem atomic_serve (request : Request) : Atomic (serve request) := by
  cases request with
  | writeResponse call response =>
      exact (atomic_writeResponse call response).bind_unrefused fun _ => .pure _
  | readResponse call => exact (atomic_readResponse call).bind_unrefused fun _ => .pure _
  | direct operation => exact (atomic_perform operation).bind_unrefused fun _ => .pure _

end Procedure

end PagedCache
