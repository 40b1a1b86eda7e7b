import MiniC.Proofs.Emission.Atomicity

/-!
# Operations that fail have no effect

Whatever has been done to an emission before, the next operation succeeds or leaves the
emission as it is (`atomic_of_operations`).  The operations are done one step after the
other here, and a step that fails leaves behind what the steps before it have changed.
-/

namespace MiniC

namespace Emission

variable {emission : Emission}

/-- What an operation does, one step after the other. -/
def Operation.stepwise : Operation → Emit Unit
  | leave id => Emit.leaveStepwise id
  | absorb target source => Emit.absorbStepwise target source
  | operation => operation.run

/-- The emission after operations that are done one step after the other. -/
def afterStepwise (emission : Emission) (operations : List Operation) : Emission :=
  operations.foldl (fun emission operation => operation.stepwise.finish emission) emission

theorem Operation.stepwise_eq (h : emission.WellFormed) (operation : Operation) :
    operation.stepwise emission = operation.run emission := by
  cases operation with
  | leave id => exact Emit.leaveStepwise_eq h id
  | absorb target source => exact Emit.absorbStepwise_eq target source emission
  | _ => rfl

theorem afterStepwise_eq (h : emission.WellFormed) (operations : List Operation) :
    emission.afterStepwise operations = emission.afterAll operations := by
  induction operations generalizing emission with
  | nil => rfl
  | cons operation operations ih =>
      have hfirst : operation.stepwise.finish emission = emission.after operation := by
        rw [Emission.after, Emit.finish, Emit.finish, operation.stepwise_eq h]
      show (operation.stepwise.finish emission).afterStepwise operations = _
      rw [hfirst]
      exact ih (h.after operation)

/-- On a well-formed emission every operation is atomic. -/
theorem Operation.atomic_run (h : emission.WellFormed) (operation : Operation) :
    operation.run.Atomic emission := by
  cases operation with
  | create kind parent => exact (Emit.atomic_create kind parent emission).discard
  | createFunction name => exact .inl ⟨(), _, rfl⟩
  | enter id => exact Emit.atomic_enter id emission
  | leave id => exact Emit.atomic_leave id emission
  | addChild parent context child => exact Emit.atomic_addChild parent context child emission
  | addCode id code => exact Emit.atomic_addCode id code emission
  | add id instruction => exact Emit.atomic_add id instruction emission
  | absorb target source => exact Emit.atomic_absorb target source emission
  | declareVariable name value => exact (Emit.atomic_declareVariable h name value).discard
  | declareFunction name arity => exact (Emit.atomic_declareFunction h name arity).discard
  | registerFunction name => exact (Emit.atomic_registerFunction name emission).discard
  | declareParameter function name =>
      exact (Emit.atomic_declareParameter function name emission).discard
  | declareLocal function name => exact (Emit.atomic_declareLocal function name emission).discard

end Emission

open Emission in
/-- **A failing operation has no effect.**  After any operations on an empty emission, each
done one step after the other and some of which may have failed, any further operation
succeeds, or it fails and leaves the emission exactly as it was.  Done in one go, the
operations have the same outcomes. -/
theorem atomic_of_operations (options : Asm.Options) (operations : List Operation)
    (operation : Operation) :
    let emission := (empty options).afterStepwise operations
    ((∃ after, operation.stepwise emission = .ok () after) ∨
      ∃ error, operation.stepwise emission = .error error emission) ∧
    emission = (empty options).afterAll operations ∧
    operation.stepwise emission = operation.run emission := by
  intro emission
  have hempty := wellFormed_empty options
  have hsame : emission = (empty options).afterAll operations := afterStepwise_eq hempty operations
  have hwellFormed : emission.WellFormed := by
    rw [hsame]
    exact hempty.afterAll operations
  have hrun := operation.stepwise_eq hwellFormed
  refine ⟨?_, hsame, hrun⟩
  rw [hrun]
  rcases operation.atomic_run hwellFormed with ⟨_, after, hok⟩ | ⟨error, herror⟩
  · exact .inl ⟨after, hok⟩
  · exact .inr ⟨error, herror⟩

end MiniC
