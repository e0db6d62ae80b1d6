import CilWeave.Signature.Basic
import CilWeave.Text.Split

/-!
Reading type names. A full name holds the namespace up to the last dot of its outermost type; an
annotation's type name may carry suffixes for references and arrays and the name of an assembly.
-/

namespace CilWeave

open Text

def TypeRef.ofFullName (scope : Option String) (fullName : String) : TypeRef :=
  let chars := fullName.toList
  let outer := chars.takeWhile (· ≠ '/')
  match splitLast? '.' outer with
  | some (space, _) =>
    ⟨scope, String.ofList space, String.ofList (chars.drop (space.length + 1))⟩
  | none => ⟨scope, "", fullName⟩

namespace TypeSig

/-- Reads a type name without an assembly part; the bound is the length of the name. -/
def ofNameWithin (scope : Option String) : Nat → List Char → TypeSig
  | 0, name => leaf name
  | bound + 1, name =>
    match dropEnding? ['&'] name with
    | some target => .byRef (ofNameWithin scope bound target)
    | none =>
      match dropEnding? ['[', ']'] name with
      | some element => .array (ofNameWithin scope bound element)
      | none => leaf name
where
  leaf (name : List Char) : TypeSig :=
    match Primitive.ofName? (String.ofList name) with
    | some kind => .primitive kind
    | none =>
      .classType (TypeRef.ofFullName scope
        (String.ofList (name.map fun char => if char = '+' then '/' else char)))

/-- Reads the type name of an annotation: a name, then optionally a comma and an assembly. Parts
after the assembly are passed over. -/
def ofName (name : String) : TypeSig :=
  match (splitChars ',' name.toList).map trimChars with
  | [] => ofNameWithin none 0 []
  | typeName :: parts =>
    let scope :=
      match parts with
      | [] => none
      | assembly :: _ => if assembly.isEmpty then none else some (String.ofList assembly)
    ofNameWithin scope typeName.length typeName

end TypeSig

end CilWeave
