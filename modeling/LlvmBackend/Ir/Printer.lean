import LlvmBackend.Ir
import LlvmBackend.Text.Blank

/-!
# Writing intermediate code

The text of intermediate code. Lines end in a line feed, and what stands inside a block starts with
a tab.
-/

namespace LlvmBackend

/-- The text of an operand. -/
def Operand.text : Operand → String
  | .temp n => s!"%{n}"
  | .named name => s!"%{name}"
  | .symbol name => s!"@{name}"
  | .bool value => if value then "true" else "false"
  | .int value => s!"{value.toInt}"

/-- The text of an operand after its type. -/
def TypedOperand.text (value : TypedOperand) : String :=
  s!"{value.type.text} {value.operand.text}"

/-- Texts with a comma between each two. -/
def commaSeparated (texts : List String) : String := ", ".intercalate texts

namespace Ir

/-! ## Constants -/

/-- The two upper-case hexadecimal digits of a byte. -/
def hexByte (byte : UInt8) : List Char :=
  let digit (n : Nat) : Char := if n < 10 then Char.ofNat (48 + n) else Char.ofNat (55 + n)
  [digit (byte.toNat / 16), digit (byte.toNat % 16)]

/-- A byte stands for itself if it is printable and neither a quote nor a backslash. -/
def isPlainByte (byte : UInt8) : Bool :=
  0x20 ≤ byte && byte < 0x7F && byte != 0x22 && byte != 0x5C

/-- The text of one byte of a text constant. -/
def escapedByte (byte : UInt8) : List Char :=
  if isPlainByte byte then [Char.ofNat byte.toNat] else '\\' :: hexByte byte

/-- The text of a text constant between its quotes. -/
def escapedBytes (bytes : List UInt8) : List Char := bytes.flatMap escapedByte

/-- The text of a constant's value. -/
def Init.text : Init → String
  | .bool value => if value then "1" else "0"
  | .int value => s!"{value.toInt}"
  | .float value => s!"0x{value.hex}"
  | .bytes content => "c\"" ++ String.ofList (escapedBytes content) ++ "\""
  | .header length data =>
    s!"\x7b i1 0, i64 {length}, i8* getelementptr inbounds ([{length} x i8], " ++
      s!"[{length} x i8]* @{data}, i32 0, i32 0) \x7d"

/-- The line of a constant. -/
def Global.text (global : Global) : String :=
  s!"@{global.symbol} = constant {global.type.text} {global.init.text}\n"

/-! ## Preambles -/

def TypeDef.text (typeDef : TypeDef) : String := s!"{typeDef.name} = type {typeDef.body}\n"

def Declaration.text (declaration : Declaration) : String :=
  let params := commaSeparated (declaration.params.map IrType.text)
  s!"declare {declaration.returns.text} @{declaration.symbol}({params})\n"

/-- A group of lines and an empty line after it, if there are any. -/
def linesWithGap (lines : List String) : String :=
  if lines.isEmpty then "" else String.join lines ++ "\n"

/-- A given preamble stands without the blanks at its end. -/
def Preamble.text : Preamble → String
  | .derived typeDefs declarations =>
    linesWithGap (typeDefs.map TypeDef.text) ++ linesWithGap (declarations.map Declaration.text)
  | .verbatim text => String.ofList (Text.trimEnd text.toList) ++ "\n\n"

/-! ## Functions -/

/-- How a block is referred to; the block without label is the first of all. -/
def Function.blockRef (function : Function) (id : BlockId) : String :=
  match (function.block id).label with
  | some label => s!"%{label}"
  | none => "%0"

/-- The line of an instruction. -/
def Function.instrText (function : Function) : Instr → String
  | .alloca dest type => s!"{dest.text} = alloca {type.text}\n"
  | .load dest type source =>
    s!"{dest.text} = load {type.text}, {type.text}* {source.text}\n"
  | .store value dest => s!"store {value.text}, {value.type.text}* {dest.text}\n"
  | .call dest returns callee args =>
    let result := match dest with
      | some dest => s!"{dest.text} = "
      | none => ""
    result ++ s!"call {returns.text} @{callee}({commaSeparated (args.map TypedOperand.text)})\n"
  | .elementPtr dest type base indices =>
    s!"{dest.text} = getelementptr inbounds {type.text}, {type.text}* {base.text}, " ++
      commaSeparated (indices.map TypedOperand.text) ++ "\n"
  | .select dest condition onTrue onFalse =>
    s!"{dest.text} = select i1 {condition.text}, {onTrue.text}, {onFalse.text}\n"
  | .phi dest type incoming =>
    let arms := incoming.map fun (value, block) =>
      s!"[ {value.text}, {function.blockRef block} ]"
    s!"{dest.text} = phi {type.text} {commaSeparated arms}\n"

/-- The line of a terminator. -/
def Function.terminatorText (function : Function) : Terminator → String
  | .br target => s!"br label {function.blockRef target}\n"
  | .condBr condition onTrue onFalse =>
    s!"br i1 {condition.text}, label {function.blockRef onTrue}, " ++
      s!"label {function.blockRef onFalse}\n"
  | .ret (some value) => s!"ret {value.text}\n"
  | .ret none => "ret void\n"

/-- The line of a block's label. -/
def labelText (block : Block) : String :=
  match block.label, block.hint with
  | some label, some hint => s!"{label}: ; {hint}\n"
  | some label, none => s!"{label}:\n"
  | none, _ => ""

def Function.blockText (function : Function) (block : Block) : String :=
  labelText block ++
    String.join (block.instrs.map fun instr => "\t" ++ function.instrText instr) ++
    match block.terminator with
    | some terminator => "\t" ++ function.terminatorText terminator
    | none => ""

/-- The text of a function; an empty line stands between two blocks. -/
def Function.text (function : Function) : String :=
  let params := function.params.map fun param => s!"{param.type.text} %{param.name}"
  let attributes := String.join (function.attributes.map fun word => s!" {word}")
  s!"define {function.returns.text} @{function.name}({commaSeparated params})" ++ attributes ++
    " \x7b\n" ++ "\n".intercalate (function.orderedBlocks.map function.blockText) ++ "\x7d\n"

/-- The text of a module. -/
def Module.text (module : Module) : String :=
  s!"target triple = \"{module.triple}\"\n\n" ++ module.preamble.text ++
    linesWithGap (module.globals.map Global.text) ++
    String.join (module.functions.map fun function => function.text ++ "\n")

end Ir

end LlvmBackend
