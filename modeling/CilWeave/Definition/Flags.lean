import CilWeave.Text.Hexadecimal
import CilWeave.Text.Split

/-!
Flags of types, fields and methods, and their text. The declared constants overlap, so the text of a
set of flags names a constant only if it is wholly contained and adds a bit that the names before it
lack; bits that no name covers follow in hexadecimal.
-/

namespace CilWeave

/-- Names of flag constants, in the order in which texts list them. -/
abbrev FlagNames := List (String × UInt32)

namespace FlagNames

variable (names : FlagNames)

def contains (bits constant : UInt32) : Bool := bits &&& constant == constant

/-- The names a text lists, and the bits they leave uncovered. -/
def cover (bits : UInt32) : FlagNames → UInt32 → List String × UInt32
  | [], uncovered => ([], uncovered)
  | (name, constant) :: rest, uncovered =>
    if contains bits constant && uncovered &&& constant != 0 then
      let (listed, remaining) := cover bits rest (uncovered &&& ~~~constant)
      (name :: listed, remaining)
    else cover bits rest uncovered

def write (bits : UInt32) : String :=
  let (listed, remaining) := cover bits names bits
  let hex := if remaining = 0 then [] else ["0x" ++ Text.hexText remaining.toNat]
  " | ".intercalate (listed ++ hex)

/-- Hexadecimal digits, after an optional plus sign, of a number of 32 bits. -/
def readHex? (text : List Char) : Option UInt32 := do
  let digits := match text with
    | '+' :: rest => rest
    | _ => text
  if digits.isEmpty then none
  let number ← Text.hexValue? digits
  if number < UInt32.size then some number.toUInt32 else none

/-- One part of a text of flags. -/
def readPart? (part : List Char) : Option UInt32 :=
  match Text.dropBeginning? ['0', 'x'] part with
  | some digits => readHex? digits
  | none => (names.find? fun entry => entry.1 == String.ofList part).map (·.2)

/-- The union of the parts of a text; a blank text has none, and no part of another may be blank. -/
def read? (text : String) : Option UInt32 :=
  let chars := text.toList
  if chars.all Text.isBlank then some 0
  else
    ((Text.splitChars '|' chars).map Text.trimChars).foldlM
      (fun bits part => if part.isEmpty then none else (names.readPart? part).map (bits ||| ·)) 0

end FlagNames

structure TypeFlags where
  bits : UInt32
deriving DecidableEq, Inhabited

structure FieldFlags where
  bits : UInt32
deriving DecidableEq, Inhabited

structure MethodFlags where
  bits : UInt32
deriving DecidableEq, Inhabited

namespace TypeFlags

def isPublic : UInt32 := 0x1

def isInterface : UInt32 := 0x20

def isAbstract : UInt32 := 0x80

def names : FlagNames :=
  [("PUBLIC", isPublic), ("NESTED_PUBLIC", 0x2), ("INTERFACE", isInterface), ("ABSTRACT", isAbstract),
   ("SEALED", 0x100), ("SPECIAL_NAME", 0x400), ("BEFORE_FIELD_INIT", 0x100000)]

def classDefault : TypeFlags := ⟨isPublic⟩

def interfaceDefault : TypeFlags := ⟨isPublic ||| isInterface ||| isAbstract⟩

end TypeFlags

namespace FieldFlags

def isPrivate : UInt32 := 0x1

def isStatic : UInt32 := 0x10

def names : FlagNames :=
  [("PRIVATE", isPrivate), ("ASSEMBLY", 0x3), ("FAMILY", 0x4), ("PUBLIC", 0x6), ("STATIC", isStatic),
   ("INIT_ONLY", 0x20), ("LITERAL", 0x40), ("SPECIAL_NAME", 0x200)]

end FieldFlags

namespace MethodFlags

def isPrivate : UInt32 := 0x1

def isPublic : UInt32 := 0x6

def isStatic : UInt32 := 0x10

def isFinal : UInt32 := 0x20

def isVirtual : UInt32 := 0x40

def hideBySig : UInt32 := 0x80

def newSlot : UInt32 := 0x100

def names : FlagNames :=
  [("PRIVATE", isPrivate), ("ASSEMBLY", 0x3), ("FAMILY", 0x4), ("PUBLIC", isPublic), ("STATIC", isStatic),
   ("FINAL", isFinal), ("VIRTUAL", isVirtual), ("HIDE_BY_SIG", hideBySig), ("NEW_SLOT", newSlot),
   ("ABSTRACT", 0x400), ("SPECIAL_NAME", 0x800), ("RT_SPECIAL_NAME", 0x1000)]

def methodDefault : MethodFlags := ⟨isPublic ||| hideBySig⟩

/-- Flags of a method that implements one of an interface. -/
def interfaceImplementation : MethodFlags := ⟨isPublic ||| isFinal ||| isVirtual ||| hideBySig ||| newSlot⟩

/-- Flags of a callback moved onto its target. -/
def callback (static : Bool) : MethodFlags :=
  ⟨isPrivate ||| hideBySig ||| (if static then isStatic else 0)⟩

/-- The bits that say who may use a member. -/
def access (flags : MethodFlags) : UInt32 := flags.bits &&& 0x7

end MethodFlags

end CilWeave
