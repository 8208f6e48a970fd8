/-! # Identifiers of the host language

A name that is a reserved word gets an underscore; every other name stays as it is. -/

namespace Lowering

/-- The reserved words, among them the literals `true`, `false` and `null`. -/
def reservedWords : List String := [
  "abstract", "assert", "boolean", "break", "byte", "case", "catch", "char", "class", "const",
  "continue", "default", "do", "double", "else", "enum", "extends", "false", "final", "finally",
  "float", "for", "goto", "if", "implements", "import", "instanceof", "int", "interface", "long",
  "native", "new", "null", "package", "private", "protected", "public", "return", "short",
  "static", "strictfp", "super", "switch", "synchronized", "this", "throw", "throws", "transient",
  "true", "try", "void", "volatile", "while"]

def isReserved (name : String) : Bool :=
  reservedWords.contains name

/-- A name as it can stand in host code. -/
def identifier (name : String) : String :=
  if isReserved name then name ++ "_" else name

end Lowering
