import Lowering.Host.HostType

/-! # Types in host source text

Nested classes are written with a dot. Primitives stand by their keyword where the host allows
them, as components of arrays for instance, and by their wrapper elsewhere, as type arguments. -/

namespace Lowering.HostType

/-- A class name with every `$` turned into a dot. -/
def dotted (name : String) : String :=
  String.ofList (name.toList.map fun c => if c == '$' then '.' else c)

mutual

/-- The text of a type, with primitives boxed unless `bare`. -/
def sourceName (bare : Bool) : HostType → String
  | .primitive kind => if bare then kind.keyword else kind.wrapper
  | .cls name [] => dotted name
  | .cls name (a :: as) =>
    dotted name ++ "<" ++ a.sourceName false ++ sourceNamesAfter as ++ ">"
  | .array c => c.sourceName true ++ "[]"
  | .param name => name
  | .any => objectName
termination_by structural t => t

private def sourceNamesAfter : List HostType → String
  | [] => ""
  | a :: as => ", " ++ a.sourceName false ++ sourceNamesAfter as
termination_by structural as => as

end

private theorem sourceNamesAfter_eq_join (as : List HostType) :
    sourceNamesAfter as = String.join (as.map fun a => ", " ++ a.sourceName false) := by
  induction as with
  | nil => rfl
  | cons a as ih => rw [sourceNamesAfter, ih, List.map_cons, String.join_cons]

theorem sourceName_cls_cons (bare : Bool) (name : String) (a : HostType) (as : List HostType) :
    (cls name (a :: as)).sourceName bare = dotted name ++ "<" ++ a.sourceName false ++
      String.join (as.map fun a => ", " ++ a.sourceName false) ++ ">" := by
  rw [sourceName, sourceNamesAfter_eq_join]

end Lowering.HostType
