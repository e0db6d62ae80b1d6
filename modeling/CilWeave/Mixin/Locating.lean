import CilWeave.Body.Listing
import CilWeave.Mixin.Descriptor

/-!
Finding the places in a body that annotations name. Code is put in front of everything that puts
operands of the place on the stack, as far as can be told from each instruction alone.
-/

namespace CilWeave.Body

variable (body : Body)

/-- The first position before which no value is pushed, going back from the given one. -/
def splicePosition : Nat → Nat
  | 0 => 0
  | position + 1 =>
    if (body.instructions[position]?).any Instruction.pushesValue then splicePosition position
    else position + 1

/-- The first instruction whose line, with or without its label, is the given text. -/
def find? (text : String) : Option Nat :=
  let line := Text.trim text
  body.listing.findIdx? fun listed => listed == line || unlabelled listed == line

def idAt? (position : Nat) : Option InstrId := (body.instructions[position]?).map (·.id)

/-- The instruction in front of which code for a position is put. -/
def spliceId? (position : Nat) : Option InstrId := body.idAt? (body.splicePosition position)

/-- Positions of the instructions that return. -/
def returnPositions : List Nat :=
  (List.range body.instructions.size).filter fun position =>
    (body.instructions[position]?).any fun instruction => instruction.opcode == .ret

/-- The instructions in front of which code for a location is put. -/
def locate : Location → List InstrId
  | .head => (body.idAt? 0).toList
  | .return => body.returnPositions.filterMap body.spliceId?
  | .instruction text => ((body.find? text).bind body.spliceId?).toList

end CilWeave.Body
