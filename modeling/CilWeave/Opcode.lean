/-!
The instruction set: each opcode with its mnemonic, its encoding, the kind of operand it takes, what
it takes from and leaves on the evaluation stack, and how control goes on.
-/

namespace CilWeave

/-- The kind of operand an opcode takes. The short kinds hold one byte. -/
inductive OperandKind where
  | none
  | int8 | int32 | int64
  | single | double
  | method | field | type | string
  | target | shortTarget | switch
  | local | shortLocal
  | argument | shortArgument
deriving DecidableEq

/-- Encoded width of an operand; a switch grows with its number of targets. -/
def OperandKind.size (targets : Nat) : OperandKind → Nat
  | .none => 0
  | .int8 | .shortTarget | .shortLocal | .shortArgument => 1
  | .local | .argument => 2
  | .int32 | .single | .method | .field | .type | .string | .target => 4
  | .int64 | .double => 8
  | .switch => 4 + 4 * targets

/-- The kind's name in messages. -/
def OperandKind.tag : OperandKind → String
  | .none => "None"
  | .int8 => "Int8"
  | .int32 => "Int32"
  | .int64 => "Int64"
  | .single => "Float32"
  | .double => "Float64"
  | .method => "Method"
  | .field => "Field"
  | .type => "Type"
  | .string => "String"
  | .target => "BranchTarget"
  | .shortTarget => "ShortBranchTarget"
  | .switch => "Switch"
  | .local => "Local"
  | .shortLocal => "ShortLocal"
  | .argument => "Argument"
  | .shortArgument => "ShortArgument"

/-- How many values an opcode takes or leaves: a fixed count, or what the method at hand says. -/
inductive StackCount where
  | fixed (count : Nat)
  | perMethod
deriving DecidableEq

inductive Flow where
  | sequential
  | conditional
  | unconditional
  | call
  | return
  | switch
  | throw
deriving DecidableEq

/-- The name of a way to go on. -/
def Flow.tag : Flow → String
  | .sequential => "Sequential"
  | .conditional => "ConditionalBranch"
  | .unconditional => "UnconditionalBranch"
  | .call => "Call"
  | .return => "Return"
  | .switch => "Switch"
  | .throw => "Throw"

/-- One row of the instruction table. -/
structure OpcodeInfo where
  mnemonic : String
  code : Nat
  operand : OperandKind
  pop : StackCount
  push : StackCount
  flow : Flow
deriving DecidableEq

inductive Opcode where
  | nop | ldarg0 | ldarg1 | ldarg2 | ldarg3 | ldloc0 | ldloc1 | ldloc2 | ldloc3 | stloc0 | stloc1
  | stloc2 | stloc3 | ldargS | ldargaS | stargS | ldlocS | ldlocaS | stlocS | ldnull | ldcI4M1
  | ldcI40 | ldcI41 | ldcI42 | ldcI43 | ldcI44 | ldcI45 | ldcI46 | ldcI47 | ldcI48 | ldcI4S | ldcI4
  | ldcI8 | ldcR4 | ldcR8 | dup | pop | call | ret | brS | brfalseS | brtrueS | beqS | bgeS | bgtS
  | bleS | bltS | bneUnS | br | brfalse | brtrue | beq | bge | bgt | ble | blt | bneUn | switch
  | ldindI1 | ldindU1 | ldindI4 | ldindI8 | ldindR8 | ldindRef | stindRef | stindI1 | stindI4
  | stindI8 | stindR8 | add | sub | mul | div | rem | and | or | xor | shl | shr | neg | not
  | convI4 | convI8 | convR8 | callvirt | ldobj | ldstr | newobj | castclass | isinst | throw
  | ldfld | ldflda | stfld | ldsfld | ldsflda | stsfld | stobj | box | newarr | ldlen | ldelemRef
  | stelemRef | unboxAny | ceq | cgt | clt | ldarg | ldarga | starg | ldloc | ldloca | stloc
  | initobj
deriving DecidableEq, Inhabited

namespace Opcode

/-- Every opcode, in the order of the encoding. -/
def all : List Opcode :=
  [.nop, .ldarg0, .ldarg1, .ldarg2, .ldarg3, .ldloc0, .ldloc1, .ldloc2, .ldloc3, .stloc0,
   .stloc1, .stloc2, .stloc3, .ldargS, .ldargaS, .stargS, .ldlocS, .ldlocaS, .stlocS, .ldnull,
   .ldcI4M1, .ldcI40, .ldcI41, .ldcI42, .ldcI43, .ldcI44, .ldcI45, .ldcI46, .ldcI47, .ldcI48,
   .ldcI4S, .ldcI4, .ldcI8, .ldcR4, .ldcR8, .dup, .pop, .call, .ret, .brS, .brfalseS,
   .brtrueS, .beqS, .bgeS, .bgtS, .bleS, .bltS, .bneUnS, .br, .brfalse, .brtrue, .beq, .bge,
   .bgt, .ble, .blt, .bneUn, .switch, .ldindI1, .ldindU1, .ldindI4, .ldindI8, .ldindR8,
   .ldindRef, .stindRef, .stindI1, .stindI4, .stindI8, .stindR8, .add, .sub, .mul, .div, .rem,
   .and, .or, .xor, .shl, .shr, .neg, .not, .convI4, .convI8, .convR8, .callvirt, .ldobj,
   .ldstr, .newobj, .castclass, .isinst, .throw, .ldfld, .ldflda, .stfld, .ldsfld, .ldsflda,
   .stsfld, .stobj, .box, .newarr, .ldlen, .ldelemRef, .stelemRef, .unboxAny, .ceq, .cgt,
   .clt, .ldarg, .ldarga, .starg, .ldloc, .ldloca, .stloc, .initobj]

def info : Opcode → OpcodeInfo
  | .nop => ⟨"nop", 0x00, .none, .fixed 0, .fixed 0, .sequential⟩
  | .ldarg0 => ⟨"ldarg.0", 0x02, .none, .fixed 0, .fixed 1, .sequential⟩
  | .ldarg1 => ⟨"ldarg.1", 0x03, .none, .fixed 0, .fixed 1, .sequential⟩
  | .ldarg2 => ⟨"ldarg.2", 0x04, .none, .fixed 0, .fixed 1, .sequential⟩
  | .ldarg3 => ⟨"ldarg.3", 0x05, .none, .fixed 0, .fixed 1, .sequential⟩
  | .ldloc0 => ⟨"ldloc.0", 0x06, .none, .fixed 0, .fixed 1, .sequential⟩
  | .ldloc1 => ⟨"ldloc.1", 0x07, .none, .fixed 0, .fixed 1, .sequential⟩
  | .ldloc2 => ⟨"ldloc.2", 0x08, .none, .fixed 0, .fixed 1, .sequential⟩
  | .ldloc3 => ⟨"ldloc.3", 0x09, .none, .fixed 0, .fixed 1, .sequential⟩
  | .stloc0 => ⟨"stloc.0", 0x0A, .none, .fixed 1, .fixed 0, .sequential⟩
  | .stloc1 => ⟨"stloc.1", 0x0B, .none, .fixed 1, .fixed 0, .sequential⟩
  | .stloc2 => ⟨"stloc.2", 0x0C, .none, .fixed 1, .fixed 0, .sequential⟩
  | .stloc3 => ⟨"stloc.3", 0x0D, .none, .fixed 1, .fixed 0, .sequential⟩
  | .ldargS => ⟨"ldarg.s", 0x0E, .shortArgument, .fixed 0, .fixed 1, .sequential⟩
  | .ldargaS => ⟨"ldarga.s", 0x0F, .shortArgument, .fixed 0, .fixed 1, .sequential⟩
  | .stargS => ⟨"starg.s", 0x10, .shortArgument, .fixed 1, .fixed 0, .sequential⟩
  | .ldlocS => ⟨"ldloc.s", 0x11, .shortLocal, .fixed 0, .fixed 1, .sequential⟩
  | .ldlocaS => ⟨"ldloca.s", 0x12, .shortLocal, .fixed 0, .fixed 1, .sequential⟩
  | .stlocS => ⟨"stloc.s", 0x13, .shortLocal, .fixed 1, .fixed 0, .sequential⟩
  | .ldnull => ⟨"ldnull", 0x14, .none, .fixed 0, .fixed 1, .sequential⟩
  | .ldcI4M1 => ⟨"ldc.i4.m1", 0x15, .none, .fixed 0, .fixed 1, .sequential⟩
  | .ldcI40 => ⟨"ldc.i4.0", 0x16, .none, .fixed 0, .fixed 1, .sequential⟩
  | .ldcI41 => ⟨"ldc.i4.1", 0x17, .none, .fixed 0, .fixed 1, .sequential⟩
  | .ldcI42 => ⟨"ldc.i4.2", 0x18, .none, .fixed 0, .fixed 1, .sequential⟩
  | .ldcI43 => ⟨"ldc.i4.3", 0x19, .none, .fixed 0, .fixed 1, .sequential⟩
  | .ldcI44 => ⟨"ldc.i4.4", 0x1A, .none, .fixed 0, .fixed 1, .sequential⟩
  | .ldcI45 => ⟨"ldc.i4.5", 0x1B, .none, .fixed 0, .fixed 1, .sequential⟩
  | .ldcI46 => ⟨"ldc.i4.6", 0x1C, .none, .fixed 0, .fixed 1, .sequential⟩
  | .ldcI47 => ⟨"ldc.i4.7", 0x1D, .none, .fixed 0, .fixed 1, .sequential⟩
  | .ldcI48 => ⟨"ldc.i4.8", 0x1E, .none, .fixed 0, .fixed 1, .sequential⟩
  | .ldcI4S => ⟨"ldc.i4.s", 0x1F, .int8, .fixed 0, .fixed 1, .sequential⟩
  | .ldcI4 => ⟨"ldc.i4", 0x20, .int32, .fixed 0, .fixed 1, .sequential⟩
  | .ldcI8 => ⟨"ldc.i8", 0x21, .int64, .fixed 0, .fixed 1, .sequential⟩
  | .ldcR4 => ⟨"ldc.r4", 0x22, .single, .fixed 0, .fixed 1, .sequential⟩
  | .ldcR8 => ⟨"ldc.r8", 0x23, .double, .fixed 0, .fixed 1, .sequential⟩
  | .dup => ⟨"dup", 0x25, .none, .fixed 1, .fixed 2, .sequential⟩
  | .pop => ⟨"pop", 0x26, .none, .fixed 1, .fixed 0, .sequential⟩
  | .call => ⟨"call", 0x28, .method, .perMethod, .perMethod, .call⟩
  | .ret => ⟨"ret", 0x2A, .none, .perMethod, .fixed 0, .return⟩
  | .brS => ⟨"br.s", 0x2B, .shortTarget, .fixed 0, .fixed 0, .unconditional⟩
  | .brfalseS => ⟨"brfalse.s", 0x2C, .shortTarget, .fixed 1, .fixed 0, .conditional⟩
  | .brtrueS => ⟨"brtrue.s", 0x2D, .shortTarget, .fixed 1, .fixed 0, .conditional⟩
  | .beqS => ⟨"beq.s", 0x2E, .shortTarget, .fixed 2, .fixed 0, .conditional⟩
  | .bgeS => ⟨"bge.s", 0x2F, .shortTarget, .fixed 2, .fixed 0, .conditional⟩
  | .bgtS => ⟨"bgt.s", 0x30, .shortTarget, .fixed 2, .fixed 0, .conditional⟩
  | .bleS => ⟨"ble.s", 0x31, .shortTarget, .fixed 2, .fixed 0, .conditional⟩
  | .bltS => ⟨"blt.s", 0x32, .shortTarget, .fixed 2, .fixed 0, .conditional⟩
  | .bneUnS => ⟨"bne.un.s", 0x33, .shortTarget, .fixed 2, .fixed 0, .conditional⟩
  | .br => ⟨"br", 0x38, .target, .fixed 0, .fixed 0, .unconditional⟩
  | .brfalse => ⟨"brfalse", 0x39, .target, .fixed 1, .fixed 0, .conditional⟩
  | .brtrue => ⟨"brtrue", 0x3A, .target, .fixed 1, .fixed 0, .conditional⟩
  | .beq => ⟨"beq", 0x3B, .target, .fixed 2, .fixed 0, .conditional⟩
  | .bge => ⟨"bge", 0x3C, .target, .fixed 2, .fixed 0, .conditional⟩
  | .bgt => ⟨"bgt", 0x3D, .target, .fixed 2, .fixed 0, .conditional⟩
  | .ble => ⟨"ble", 0x3E, .target, .fixed 2, .fixed 0, .conditional⟩
  | .blt => ⟨"blt", 0x3F, .target, .fixed 2, .fixed 0, .conditional⟩
  | .bneUn => ⟨"bne.un", 0x40, .target, .fixed 2, .fixed 0, .conditional⟩
  | .switch => ⟨"switch", 0x45, .switch, .fixed 1, .fixed 0, .switch⟩
  | .ldindI1 => ⟨"ldind.i1", 0x46, .none, .fixed 1, .fixed 1, .sequential⟩
  | .ldindU1 => ⟨"ldind.u1", 0x47, .none, .fixed 1, .fixed 1, .sequential⟩
  | .ldindI4 => ⟨"ldind.i4", 0x4A, .none, .fixed 1, .fixed 1, .sequential⟩
  | .ldindI8 => ⟨"ldind.i8", 0x4C, .none, .fixed 1, .fixed 1, .sequential⟩
  | .ldindR8 => ⟨"ldind.r8", 0x4F, .none, .fixed 1, .fixed 1, .sequential⟩
  | .ldindRef => ⟨"ldind.ref", 0x50, .none, .fixed 1, .fixed 1, .sequential⟩
  | .stindRef => ⟨"stind.ref", 0x51, .none, .fixed 2, .fixed 0, .sequential⟩
  | .stindI1 => ⟨"stind.i1", 0x52, .none, .fixed 2, .fixed 0, .sequential⟩
  | .stindI4 => ⟨"stind.i4", 0x54, .none, .fixed 2, .fixed 0, .sequential⟩
  | .stindI8 => ⟨"stind.i8", 0x55, .none, .fixed 2, .fixed 0, .sequential⟩
  | .stindR8 => ⟨"stind.r8", 0x57, .none, .fixed 2, .fixed 0, .sequential⟩
  | .add => ⟨"add", 0x58, .none, .fixed 2, .fixed 1, .sequential⟩
  | .sub => ⟨"sub", 0x59, .none, .fixed 2, .fixed 1, .sequential⟩
  | .mul => ⟨"mul", 0x5A, .none, .fixed 2, .fixed 1, .sequential⟩
  | .div => ⟨"div", 0x5B, .none, .fixed 2, .fixed 1, .sequential⟩
  | .rem => ⟨"rem", 0x5D, .none, .fixed 2, .fixed 1, .sequential⟩
  | .and => ⟨"and", 0x5F, .none, .fixed 2, .fixed 1, .sequential⟩
  | .or => ⟨"or", 0x60, .none, .fixed 2, .fixed 1, .sequential⟩
  | .xor => ⟨"xor", 0x61, .none, .fixed 2, .fixed 1, .sequential⟩
  | .shl => ⟨"shl", 0x62, .none, .fixed 2, .fixed 1, .sequential⟩
  | .shr => ⟨"shr", 0x63, .none, .fixed 2, .fixed 1, .sequential⟩
  | .neg => ⟨"neg", 0x65, .none, .fixed 1, .fixed 1, .sequential⟩
  | .not => ⟨"not", 0x66, .none, .fixed 1, .fixed 1, .sequential⟩
  | .convI4 => ⟨"conv.i4", 0x69, .none, .fixed 1, .fixed 1, .sequential⟩
  | .convI8 => ⟨"conv.i8", 0x6A, .none, .fixed 1, .fixed 1, .sequential⟩
  | .convR8 => ⟨"conv.r8", 0x6C, .none, .fixed 1, .fixed 1, .sequential⟩
  | .callvirt => ⟨"callvirt", 0x6F, .method, .perMethod, .perMethod, .call⟩
  | .ldobj => ⟨"ldobj", 0x71, .type, .fixed 1, .fixed 1, .sequential⟩
  | .ldstr => ⟨"ldstr", 0x72, .string, .fixed 0, .fixed 1, .sequential⟩
  | .newobj => ⟨"newobj", 0x73, .method, .perMethod, .fixed 1, .call⟩
  | .castclass => ⟨"castclass", 0x74, .type, .fixed 1, .fixed 1, .sequential⟩
  | .isinst => ⟨"isinst", 0x75, .type, .fixed 1, .fixed 1, .sequential⟩
  | .throw => ⟨"throw", 0x7A, .none, .fixed 1, .fixed 0, .throw⟩
  | .ldfld => ⟨"ldfld", 0x7B, .field, .fixed 1, .fixed 1, .sequential⟩
  | .ldflda => ⟨"ldflda", 0x7C, .field, .fixed 1, .fixed 1, .sequential⟩
  | .stfld => ⟨"stfld", 0x7D, .field, .fixed 2, .fixed 0, .sequential⟩
  | .ldsfld => ⟨"ldsfld", 0x7E, .field, .fixed 0, .fixed 1, .sequential⟩
  | .ldsflda => ⟨"ldsflda", 0x7F, .field, .fixed 0, .fixed 1, .sequential⟩
  | .stsfld => ⟨"stsfld", 0x80, .field, .fixed 1, .fixed 0, .sequential⟩
  | .stobj => ⟨"stobj", 0x81, .type, .fixed 2, .fixed 0, .sequential⟩
  | .box => ⟨"box", 0x8C, .type, .fixed 1, .fixed 1, .sequential⟩
  | .newarr => ⟨"newarr", 0x8D, .type, .fixed 1, .fixed 1, .sequential⟩
  | .ldlen => ⟨"ldlen", 0x8E, .none, .fixed 1, .fixed 1, .sequential⟩
  | .ldelemRef => ⟨"ldelem.ref", 0x9A, .none, .fixed 2, .fixed 1, .sequential⟩
  | .stelemRef => ⟨"stelem.ref", 0xA2, .none, .fixed 3, .fixed 0, .sequential⟩
  | .unboxAny => ⟨"unbox.any", 0xA5, .type, .fixed 1, .fixed 1, .sequential⟩
  | .ceq => ⟨"ceq", 0xFE01, .none, .fixed 2, .fixed 1, .sequential⟩
  | .cgt => ⟨"cgt", 0xFE02, .none, .fixed 2, .fixed 1, .sequential⟩
  | .clt => ⟨"clt", 0xFE04, .none, .fixed 2, .fixed 1, .sequential⟩
  | .ldarg => ⟨"ldarg", 0xFE09, .argument, .fixed 0, .fixed 1, .sequential⟩
  | .ldarga => ⟨"ldarga", 0xFE0A, .argument, .fixed 0, .fixed 1, .sequential⟩
  | .starg => ⟨"starg", 0xFE0B, .argument, .fixed 1, .fixed 0, .sequential⟩
  | .ldloc => ⟨"ldloc", 0xFE0C, .local, .fixed 0, .fixed 1, .sequential⟩
  | .ldloca => ⟨"ldloca", 0xFE0D, .local, .fixed 0, .fixed 1, .sequential⟩
  | .stloc => ⟨"stloc", 0xFE0E, .local, .fixed 1, .fixed 0, .sequential⟩
  | .initobj => ⟨"initobj", 0xFE15, .type, .fixed 1, .fixed 0, .sequential⟩

variable (opcode : Opcode)

def mnemonic : String := opcode.info.mnemonic

def operandKind : OperandKind := opcode.info.operand

def flow : Flow := opcode.info.flow

/-- Opcodes above one byte are encoded in two. -/
def size : Nat := if opcode.info.code > 0xFF then 2 else 1

def isBranch : Bool := opcode.flow == .conditional || opcode.flow == .unconditional

def ofMnemonic? (mnemonic : String) : Option Opcode := all.find? fun opcode => opcode.mnemonic == mnemonic

/-- The branch with a four-byte displacement that a one-byte branch widens to. -/
def longForm? : Opcode → Option Opcode
  | .brS => some .br
  | .brfalseS => some .brfalse
  | .brtrueS => some .brtrue
  | .beqS => some .beq
  | .bgeS => some .bge
  | .bgtS => some .bgt
  | .bleS => some .ble
  | .bltS => some .blt
  | .bneUnS => some .bneUn
  | _ => none

/-- The argument an opcode names by itself. -/
def impliedArgument? : Opcode → Option UInt16
  | .ldarg0 => some 0
  | .ldarg1 => some 1
  | .ldarg2 => some 2
  | .ldarg3 => some 3
  | _ => none

/-- The local an opcode names by itself. -/
def impliedLocal? : Opcode → Option UInt16
  | .ldloc0 | .stloc0 => some 0
  | .ldloc1 | .stloc1 => some 1
  | .ldloc2 | .stloc2 => some 2
  | .ldloc3 | .stloc3 => some 3
  | _ => none

/-- The constant an opcode loads by itself. -/
def impliedConstant? : Opcode → Option Int32
  | .ldcI4M1 => some (-1)
  | .ldcI40 => some 0
  | .ldcI41 => some 1
  | .ldcI42 => some 2
  | .ldcI43 => some 3
  | .ldcI44 => some 4
  | .ldcI45 => some 5
  | .ldcI46 => some 6
  | .ldcI47 => some 7
  | .ldcI48 => some 8
  | _ => none

theorem mem_all : opcode ∈ all := by
  cases opcode <;> decide

end Opcode

end CilWeave
