import LlvmBackend.Proofs.Ir.Ssa

/-! # Types of operands

Each definition states the type of what it defines, and each use of an operand asks for one. A
function is consistently typed if every use asks for the type that the only definition states.
-/

namespace LlvmBackend

open Ir

/-- What an instruction defines, with its type: an address for storage. -/
def Instr.defined? : Instr → Option TypedOperand
  | .alloca dest type => some ⟨type.ptr, dest⟩
  | .load dest type _ => some ⟨type, dest⟩
  | .store _ _ => none
  | .call dest returns _ _ => dest.map (⟨returns, ·⟩)
  | .elementPtr dest type _ _ => some ⟨type.ptr, dest⟩
  | .select dest _ _ _ => some ⟨.i1, dest⟩
  | .phi dest type _ => some ⟨type, dest⟩

/-- The operands that an instruction reads, with the types at which it reads them. -/
def Instr.uses : Instr → List TypedOperand
  | .alloca _ _ => []
  | .load _ type source => [⟨type.ptr, source⟩]
  | .store value dest => [value, ⟨value.type.ptr, dest⟩]
  | .call _ _ _ args => args
  | .elementPtr _ type base indices => ⟨type.ptr, base⟩ :: indices
  | .select _ condition onTrue onFalse => [⟨.i1, condition⟩, onTrue, onFalse]
  | .phi _ type incoming => incoming.map fun source => ⟨type, source.1⟩

/-- The operands that a terminator reads, with the types at which it reads them. -/
def Terminator.uses : Terminator → List TypedOperand
  | .br _ => []
  | .condBr condition _ _ => [⟨.i1, condition⟩]
  | .ret value => value.toList

/-- The type of what a terminator returns. -/
def Terminator.returned? : Terminator → Option (Option IrType)
  | .br _ | .condBr _ _ _ => none
  | .ret value => some (value.map TypedOperand.type)

/-- What an instruction defines is what its definition states the type of. -/
theorem Instr.defined?_operand (i : Instr) : i.defined?.map TypedOperand.operand = i.dest := by
  cases i with
  | call dest => cases dest <;> rfl
  | _ => rfl

/-- An operand can be used at a type: a constant within an instruction is a truth value or a number,
    and all others have the types that they are known to have. -/
def TypedOperand.Fits (has : Operand → IrType → Prop) : TypedOperand → Prop
  | ⟨type, .bool _⟩ => type = .i1
  | ⟨type, .int _⟩ => type = .i32 ∨ type = .i64
  | ⟨type, operand⟩ => has operand type

namespace TypedOperand.Fits

variable {has has' : Operand → IrType → Prop}

theorem mono {use : TypedOperand} (fits : use.Fits has)
    (le : ∀ operand type, has operand type → has' operand type) : use.Fits has' := by
  obtain ⟨type, operand⟩ := use
  cases operand with
  | bool | int => exact fits
  | temp | named | symbol => exact le _ _ fits

theorem of_has {type : IrType} {operand : Operand} (isRegister : operand.isRegister)
    (h : has operand type) : TypedOperand.Fits has ⟨type, operand⟩ := by
  cases operand with
  | bool | int | symbol => simp [Operand.isRegister] at isRegister
  | temp | named => exact h

end TypedOperand.Fits

namespace Ir.Function

variable (function : Function) (globals : List Global)

/-- The definitions that a function can use: its parameters, its instructions and the constants of
    its module. -/
inductive Defines : Operand → IrType → Prop where
  | param : param ∈ function.params → Defines (.named param.name) param.type
  | instr : i ∈ function.instrs → i.defined? = some ⟨type, operand⟩ → Defines operand type
  | global : global ∈ globals → Defines (.symbol global.symbol) global.type.ptr

/-- An operand is defined, and each definition of it states this type. -/
def HasType (operand : Operand) (type : IrType) : Prop :=
  function.Defines globals operand type ∧
    ∀ other, function.Defines globals operand other → other = type

/-- Nothing is defined under the name of something else. -/
structure Apart : Prop where
  params : (function.params.map Param.name).Nodup
  globals : (globals.map Global.symbol).Nodup
  registers : ∀ i ∈ function.instrs, ∀ dest ∈ i.dest, dest.isRegister

/-- What a function reads has the types at which it reads it, and it returns what it says. -/
structure Typed (returned : Option IrType) : Prop where
  instrs : ∀ id ∈ function.layout, ∀ i ∈ (function.block id).instrs, ∀ use ∈ i.uses,
    use.Fits (function.HasType globals)
  ends : ∀ id ∈ function.layout, ∀ terminator ∈ (function.block id).terminator,
    (∀ use ∈ terminator.uses, use.Fits (function.HasType globals)) ∧
      ∀ type ∈ terminator.returned?, type = returned

variable {function : Function} {globals : List Global}

theorem mem_instrs {i : Instr} : i ∈ function.instrs ↔
    ∃ id ∈ function.layout, i ∈ (function.block id).instrs := by
  simp [instrs]

theorem exists_holds {i : Instr} (mem : i ∈ function.instrs) :
    ∃ place, function.table.Holds place i := by
  obtain ⟨id, _, mem⟩ := mem_instrs.mp mem
  obtain ⟨n, at_n⟩ := List.mem_iff_getElem?.mp mem
  exact ⟨⟨id, n⟩, at_n⟩

theorem dest_of_defined {i : Instr} {defined : TypedOperand} (states : i.defined? = some defined) :
    i.dest = some defined.operand := by
  rw [← i.defined?_operand, states]
  rfl

/-- An instruction does not define a parameter again. -/
theorem param_ne_dest (wellFormed : function.WellFormed) {param : Param} {i : Instr}
    (there : param ∈ function.params) (mem : i ∈ function.instrs) :
    i.dest ≠ some (.named param.name) := by
  intro dest
  refine wellFormed.locals.2 param.name (List.mem_filterMap.mpr ⟨i, mem, ?_⟩)
    (List.mem_map.mpr ⟨param, there, rfl⟩)
  rw [Instr.localName?, dest]

/-- No register is defined by two instructions. -/
theorem instr_unique (wellFormed : function.WellFormed) {i j : Instr} {register : Operand}
    (mem_i : i ∈ function.instrs) (mem_j : j ∈ function.instrs) (dest_i : i.dest = some register)
    (dest_j : j.dest = some register) (isRegister : register.isRegister) : i = j := by
  obtain ⟨place, holds⟩ := exists_holds mem_i
  obtain ⟨place', holds'⟩ := exists_holds mem_j
  obtain rfl := wellFormed.place_unique holds holds' dest_i dest_j isRegister
  exact Option.some.inj (holds.symm.trans holds')

/-- No operand is defined with two types. -/
theorem Defines.unique (wellFormed : function.WellFormed) (apart : function.Apart globals)
    {operand : Operand} {type other : IrType} (first : function.Defines globals operand type)
    (second : function.Defines globals operand other) : other = type := by
  cases first with
  | @param param there =>
      generalize eq : Operand.named param.name = operand at second
      cases second with
      | @param again there' =>
          rw [List.inj_on_of_nodup_map apart.params there there' (Operand.named.inj eq)]
      | instr mem states =>
          exact absurd (eq ▸ dest_of_defined states) (param_ne_dest wellFormed there mem)
      | global mem => cases eq
  | @instr i type operand mem states =>
      cases second with
      | @param param there =>
          exact absurd (dest_of_defined states) (param_ne_dest wellFormed there mem)
      | @instr again _ _ mem' states' =>
          have dest : i.dest = some operand := dest_of_defined states
          obtain rfl : i = again := instr_unique wellFormed mem mem' dest (dest_of_defined states')
            (apart.registers i mem operand dest)
          exact congrArg TypedOperand.type (Option.some.inj (states'.symm.trans states))
      | global mem' =>
          have := apart.registers i mem _ (dest_of_defined states)
          simp [Operand.isRegister] at this
  | @global global mem =>
      generalize eq : Operand.symbol global.symbol = operand at second
      cases second with
      | param there => cases eq
      | @instr i _ _ mem' states =>
          have := apart.registers i mem' _ (dest_of_defined states)
          simp [← eq, Operand.isRegister] at this
      | @global again mem' =>
          rw [List.inj_on_of_nodup_map apart.globals mem mem' (Operand.symbol.inj eq)]

/-- Where nothing is defined twice, what a definition states is the type. -/
theorem Defines.hasType (wellFormed : function.WellFormed) (apart : function.Apart globals)
    {operand : Operand} {type : IrType} (defines : function.Defines globals operand type) :
    function.HasType globals operand type :=
  ⟨defines, fun _ other => defines.unique wellFormed apart other⟩

end Ir.Function

end LlvmBackend
