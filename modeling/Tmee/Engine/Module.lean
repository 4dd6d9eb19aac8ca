import Mathlib.Data.Int.Notation
import Mathlib.Data.Nat.Notation

set_option relaxedAutoImplicit false
set_option autoImplicit false

/-!
# Module objects

The part of `struct _module_object` that the engine itself reads. The six functions looked up in
the library are not fields of the model: where the engine calls one of them, its outcome is a
parameter that may depend on the object.
-/

namespace Tmee

/-- An allocated module object. Objects are told apart by `index`, the position of the module in
the main configuration, of which the loader allocates one object each. -/
structure ModuleObject where
  /-- The position in the main configuration. -/
  index : ℕ
  /-- The handle of the loaded library. -/
  lib : ℕ
  configId : String
  configFile : String
  deadline : ℤ
  runEnabled : ℤ
  deriving DecidableEq, Repr

end Tmee
