import CilWeave.Body.Layout
import CilWeave.Text.Hexadecimal
import CilWeave.Text.Split

/-!
The canonical listing of a body: one line for each instruction, labelled with its offset. Lines are
how annotations point at instructions.
-/

namespace CilWeave

/-- The version of the listing's form. -/
def listingVersion : Nat := 1

/-- The label of an instruction, or a mark that shows the identity of one that is missing. -/
def Layout.label (layout : Layout) (id : InstrId) : String :=
  match layout.offset? id with
  | some offset => "IL_" ++ Text.hexPadded 4 offset
  | none => "IL_????" ++ InstrId.text id

def Layout.operandText (layout : Layout) : Operand → String
  | .none => ""
  | .immediate value => value.text
  | .string text => "\"" ++ text ++ "\""
  | .method reference => reference.fullName
  | .field reference => reference.fullName
  | .type sig => sig.fullName
  | .target id => layout.label id
  | .switch ids => ",".intercalate (ids.map layout.label)
  | .local index => "V_" ++ Decimal.digitText index.toNat
  | .argument index => "A_" ++ Decimal.digitText index.toNat

/-- An instruction without its label. -/
def Layout.statement (layout : Layout) (instruction : Instruction) : String :=
  let operand := layout.operandText instruction.operand
  if operand.isEmpty then instruction.mnemonic else instruction.mnemonic ++ " " ++ operand

def Layout.line (layout : Layout) (instruction : Instruction) : String :=
  layout.label instruction.id ++ ": " ++ layout.statement instruction

def Body.listing (body : Body) : List String :=
  let layout := body.layout
  body.instructions.toList.map layout.line

/-- A line without its label; a line that has none stays as it is. -/
def unlabelled (line : String) : String :=
  match Text.splitAtMark? ':' ' ' line.toList with
  | some (label, rest) => if ['I', 'L', '_'].isPrefixOf label then String.ofList rest else line
  | none => line

end CilWeave
