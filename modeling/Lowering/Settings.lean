/-! # Settings

The texts and class names that generated code depends on. -/

namespace Lowering

structure Settings where
  /-- One level of indentation. -/
  indent : String := "  "
  /-- The class whose `sneakyThrow` rethrows a checked exception. -/
  rethrowHelper : String := "exprlower.lib.Exceptions"
  /-- The type of function literals without a result. -/
  procedureType : String := "exprlower.lib.Procedures$Procedure0"
  /-- The type of function literals with a result. -/
  functionType : String := "exprlower.lib.Functions$Function0"
  /-- The proposed name of the variable of a catch clause. -/
  catchVariable : String := "_e"
deriving DecidableEq, Repr

end Lowering
