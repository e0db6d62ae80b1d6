import CilWeave.Assembler
import CilWeave.Definition.Basic

/-!
Building definitions: types with the usual flags and base, and methods from code written with labels.
-/

namespace CilWeave

def TypeDef.newClass (space name : String) : TypeDef :=
  .empty space name .classDefault (some (.classType (.external "mscorlib" "System" "Object")))

def TypeDef.newInterface (space name : String) : TypeDef := .empty space name .interfaceDefault none

/-- A method without code: public, not static, returning nothing. -/
def MethodDef.new (name : String) : MethodDef := ⟨name, .methodDefault, .void, [], none, []⟩

def MethodDef.makeStatic (method : MethodDef) : MethodDef :=
  { method with flags := ⟨method.flags.bits ||| MethodFlags.isStatic⟩ }

/-- Writes a body: the code is assembled against it and its short branches are widened. -/
def Body.assemble (body : Body) (code : Assembly Unit) : Except AssemblerFault Body := do
  let (outcome, assembler) := code.run.run (Assembler.start body)
  outcome
  let instructions ← assembler.finish
  return ({ assembler.body with instructions }.relax).2

end CilWeave
