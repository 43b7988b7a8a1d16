import Mathlib.Data.List.Basic

/-!
# `MethodDemarcation`: a method as `Infra` reads it

`DEMARCATE(Class::method)` is `MethodDemarcation<decltype(&Class::method), &Class::method>`. Its
member types are `Module` (the class), `ReturnType` and `ArgumentTypes`, and its static
`Invoke(Module& m, Args&&...)` calls the method through the member pointer `Method`. The module
walk reads `Module` and, through `ModuleType`, the type that `ReturnType` names. `FetchSubmodule`
and the API allocator call `Invoke`, which binds only an object of `Module` that is neither `const`
nor held through a pointer. It compiles only for a non-`const` method: the `const`
specialization declares `Signature` without the `const`, so its `Method` cannot be initialised
from a `const` method once `Invoke` uses it.

Types are compared by identity: no class of the sources derives from another.
-/

namespace PeerplaysContractNode

namespace Infra

/-- How a method returns what it returns; `ModuleType` strips a reference or a pointer alike. -/
inductive ReturnKind
  | value
  | reference
  | pointer
deriving DecidableEq, Repr

/-- A `MethodDemarcation`: the method; `Module`, the class it is a method of, and whether the
method is `const`; the length of `ArgumentTypes`; and `ReturnType`, as the type `ModuleType` strips
it to, how it is returned, and whether that type is `const`. -/
structure MethodDemarcation (τ : Type) where
  method : String
  module : τ
  isConst : Bool
  argumentCount : Nat
  returnType : τ
  returnKind : ReturnKind
  returnsConst : Bool
deriving DecidableEq, Repr

end Infra

end PeerplaysContractNode
