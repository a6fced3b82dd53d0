/-!
# The default and its overrides

A default instance is computed by its first reader and stays. In a scope another value can be
provided in its place; providing an equal value changes nothing.
-/
namespace StyleFamily

/-- A value that is computed at most once. -/
structure DefaultInstance (α : Type) where
  value? : Option α := none

namespace DefaultInstance

def isComputed (slot : DefaultInstance α) : Bool := slot.value?.isSome

/-- The value, computed now if nobody has asked for it before. -/
def get (slot : DefaultInstance α) (compute : Unit → α) : α × DefaultInstance α :=
  match slot.value? with
  | some value => (value, slot)
  | none => (compute (), ⟨some (compute ())⟩)

end DefaultInstance

/-- A scope over a default. -/
structure Scope (α : Type) where
  default : α
  provided : Option α := none

namespace Scope

/-- The provided value, or the default. -/
def current (scope : Scope α) : α := scope.provided.getD scope.default

def isOverridden (scope : Scope α) : Bool := scope.provided.isSome

/-- Provides a value; says whether the current one changed. -/
def provide [BEq α] (scope : Scope α) (value : α) : Bool × Scope α :=
  if scope.current == value then (false, scope)
  else (true, { scope with provided := some value })

/-- Drops the provided value; says whether the current one changed. -/
def reset [BEq α] (scope : Scope α) : Bool × Scope α :=
  (scope.provided.any (· != scope.default), { scope with provided := none })

end Scope
end StyleFamily
