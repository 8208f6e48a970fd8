import Lowering.Hierarchy.Basic
import Lowering.Settings

/-! # The standard classes

The classes of the host's core packages that lowering starts from, and the helper classes that the
default settings name. -/

namespace Lowering

def throwableName : String := "java.lang.Throwable"
def exceptionName : String := "java.lang.Exception"
def runtimeExceptionName : String := "java.lang.RuntimeException"
def errorName : String := "java.lang.Error"

namespace Hierarchy

private def wrapperClass (kind : Primitive) : ClassDecl where
  name := kind.wrapper
  superClass := if kind.isNumeric && kind != .char then some "java.lang.Number" else none
  interfaces := ["java.lang.Comparable"]

private def valueClasses : List ClassDecl :=
  [{ name := HostType.objectName },
    { name := "java.lang.CharSequence" },
    { name := "java.lang.Comparable" },
    { name := "java.io.Serializable" },
    { name := "java.lang.String",
      interfaces := ["java.lang.CharSequence", "java.lang.Comparable", "java.io.Serializable"] },
    { name := "java.lang.Number", interfaces := ["java.io.Serializable"] }] ++
  Primitive.valued.map wrapperClass ++
  [{ name := Primitive.void.wrapper }]

private def exceptionClasses : List ClassDecl :=
  [{ name := throwableName, interfaces := ["java.io.Serializable"] },
    { name := exceptionName, superClass := throwableName },
    { name := errorName, superClass := throwableName },
    { name := runtimeExceptionName, superClass := exceptionName },
    { name := "java.lang.IllegalArgumentException", superClass := runtimeExceptionName },
    { name := "java.lang.IllegalStateException", superClass := runtimeExceptionName },
    { name := "java.lang.NullPointerException", superClass := runtimeExceptionName },
    { name := "java.lang.UnsupportedOperationException", superClass := runtimeExceptionName },
    { name := "java.io.IOException", superClass := exceptionName },
    { name := "java.io.FileNotFoundException", superClass := "java.io.IOException" },
    { name := "java.lang.InterruptedException", superClass := exceptionName }]

private def collectionClasses : List ClassDecl :=
  [{ name := "java.lang.Iterable" },
    { name := "java.util.Collection", interfaces := ["java.lang.Iterable"] },
    { name := "java.util.List", interfaces := ["java.util.Collection"] },
    { name := "java.util.ArrayList", interfaces := ["java.util.List"] }]

private def helperClasses : List ClassDecl :=
  let settings : Settings := {}
  [{ name := settings.rethrowHelper }, { name := settings.procedureType },
    { name := settings.functionType }]

def standard : Hierarchy :=
  (valueClasses ++ exceptionClasses ++ collectionClasses ++ helperClasses).foldl register empty

end Hierarchy

end Lowering
