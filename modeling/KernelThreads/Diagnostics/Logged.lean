import KernelThreads.Diagnostics.Event

/-!
Steps of the kernel. A step writes a log, and either gives a value or stops the
kernel with a fault; what was logged before the fault stays logged. The equations
on `result` let a proof forget the log.
-/
namespace KernelThreads

/-- Why the kernel stopped. -/
inductive Fault where
  | violation (v : Violation)
  | address (e : AddressError)
  /-- The call names a process that does not exist: there is no such call to make. -/
  | noProcess (pid : ProcessId)
deriving DecidableEq

/-- What is seen of an outcome, is seen of a value that it gives. -/
theorem observe_ok {α β : Type} {x : Except Fault α} (f : α → β) {b : β}
    (h : x.toOption.map f = some b) : ∃ a, x = .ok a ∧ f a = b := by
  cases x with
  | error e => simp [Except.toOption] at h
  | ok a => exact ⟨a, rfl, by simpa [Except.toOption] using h⟩

structure Logged (α : Type) where
  log : List Event := []
  result : Except Fault α

namespace Logged

protected def pure {α : Type} (a : α) : Logged α := { result := .ok a }

protected def bind {α β : Type} (x : Logged α) (f : α → Logged β) : Logged β :=
  match x.result with
  | .ok a => { log := x.log ++ (f a).log, result := (f a).result }
  | .error e => { log := x.log, result := .error e }

instance : Monad Logged where
  pure := Logged.pure
  bind := Logged.bind

def fail {α : Type} (e : Fault) : Logged α := { result := .error e }

def emit (e : Event) : Logged Unit := { log := [e], result := .ok () }

/-- A broken rule is logged before it stops the kernel. -/
def violate {α : Type} (v : Violation) : Logged α :=
  { log := [.violated v], result := .error (.violation v) }

def ensure (p : Prop) [Decidable p] (v : Violation) : Logged Unit :=
  if p then pure () else violate v

def demand {α : Type} (o : Option α) (v : Violation) : Logged α :=
  match o with
  | some a => pure a
  | none => violate v

/-- Address arithmetic stops the kernel without a word in the log. -/
def ofAddress {α : Type} : Except AddressError α → Logged α
  | .ok a => pure a
  | .error e => fail (.address e)

instance : MonadLift (Except AddressError) Logged := ⟨ofAddress⟩

section Result
variable {α β : Type}

@[simp] theorem result_pure (a : α) : (pure a : Logged α).result = .ok a := rfl

@[simp] theorem result_bind (x : Logged α) (f : α → Logged β) :
    (x >>= f).result = x.result.bind fun a => (f a).result := by
  change (Logged.bind x f).result = _
  unfold Logged.bind
  cases x.result <;> rfl

@[simp] theorem result_fail (e : Fault) : (fail e : Logged α).result = .error e := rfl

@[simp] theorem result_emit (e : Event) : (emit e).result = .ok () := rfl

@[simp] theorem result_violate (v : Violation) :
    (violate v : Logged α).result = .error (.violation v) := rfl

@[simp] theorem result_ensure (p : Prop) [Decidable p] (v : Violation) :
    (ensure p v).result = if p then .ok () else .error (.violation v) := by
  unfold ensure
  split <;> rfl

@[simp] theorem result_demand_some (a : α) (v : Violation) :
    (demand (some a) v).result = .ok a := rfl

@[simp] theorem result_demand_none (v : Violation) :
    (demand none v : Logged α).result = .error (.violation v) := rfl

/-- A sequence of steps succeeds exactly when its parts do, one after the other. -/
theorem bind_eq_ok {x : Logged α} {f : α → Logged β} {b : β} :
    (x >>= f).result = .ok b ↔ ∃ a, x.result = .ok a ∧ (f a).result = .ok b := by
  rw [result_bind]
  cases x.result <;> simp [Except.bind]

theorem pure_eq_ok {a b : α} : (pure a : Logged α).result = .ok b ↔ a = b := by simp

theorem ensure_eq_ok {p : Prop} [Decidable p] {v : Violation} {u : Unit} :
    (ensure p v).result = .ok u ↔ p := by
  rw [result_ensure]
  split <;> simp_all

theorem demand_eq_ok {o : Option α} {v : Violation} {a : α} :
    (demand o v).result = .ok a ↔ o = some a := by
  cases o <;> simp

theorem emit_eq_ok {e : Event} {u : Unit} : (emit e).result = .ok u ↔ True := by simp

theorem ofAddress_eq_ok {x : Except AddressError α} {a : α} :
    (ofAddress x).result = .ok a ↔ x = .ok a := by
  cases x <;> simp [ofAddress]

/-- A lifted address computation is `ofAddress` of it. -/
@[simp] theorem liftM_eq (x : Except AddressError α) :
    (liftM x : Logged α) = ofAddress x := rfl

end Result

end Logged

end KernelThreads
