import LlvmBackend.Proofs.Finished
import LlvmBackend.Proofs.Ir.Typing
import LlvmBackend.Proofs.Translation.Parts

/-! # Calls

What the instructions of a function call, and with what types: what the source names, as it is bound
there; what tears values down and what loops go on by, by address; and what decodes the arguments of
a process.
-/

namespace LlvmBackend

open Ir Lowering

/-- What an instruction calls, as a declaration for it would say. -/
def Instr.called? : Instr → Option Declaration
  | .call _ returns symbol args => some ⟨symbol, returns, args.map TypedOperand.type⟩
  | _ => none

theorem Instr.called?_eq_none {i : Instr} (other : i.callee? = none) : i.called? = none := by
  cases i <;> first | rfl | cases other

/-- What the code of a module calls. -/
inductive Calls (types : Registry) (signatures : SignatureTable) : Declaration → Prop where
  | bound (callee : Callee) (given : List TypeId) (target : Target) :
      callee.Suits types given →
      callee.bind types signatures given = .ok target →
      Calls types signatures ⟨target.symbol, .void, types.callTypes given target.returns⟩
  | tearsDown (type : TypeId) (entry : MethodEntry) :
      types.method type teardown = some entry →
      Calls types signatures ⟨entry.symbol, .void, [.ptr ⟨types.ir type⟩]⟩
  | goesOn (receiver element : TypeId) (entry : MethodEntry) :
      types.method receiver next = some entry →
      types.resolve entry.returns = .ok element →
      Calls types signatures (Preamble.nextDeclaration types receiver entry.symbol element)
  | decodes (arguments : TypeId) :
      types.resolve argumentsType.name = .ok arguments →
      Calls types signatures ⟨argvSymbol, .void, [.i32, argvType, .ptr ⟨types.ir arguments⟩]⟩

/-- What translated code calls. -/
theorem Translation.Lowers.calls {env : Surroundings} {work : Work} {names names' : Names}
    {ended : Bool} {code : Code} (lowers : Lowers env work names names' ended code) {role : Role}
    {i : Instr} {call : Declaration} (mem : .instr role i ∈ code.parts)
    (called : i.called? = some call) : Calls env.types env.signatures call := by
  have admits : AdmitsWork env fun part => ∀ role i, part = .instr role i → ∀ call,
      i.called? = some call → Calls env.types env.signatures call := by
    refine ⟨⟨by simp, ?_, ?_, ?_⟩, by simp, ?_, ?_⟩
    · rintro i other _ _ _ ⟨⟩ call called
      rw [Instr.called?_eq_none other] at called
      cases called
    · rintro callee given target operands suits bound types _ _ ⟨⟩ _ ⟨⟩
      rw [types]
      exact .bound callee given target suits bound
    · rintro type entry address found _ _ ⟨⟩ _ ⟨⟩
      exact .tearsDown type entry found
    · rintro _ _ _ _ _ _ _ ⟨⟩ _ ⟨⟩
    · rintro target receiver entry element n iterator slot found resolved _ _ ⟨⟩ _ ⟨⟩
      exact .goesOn receiver element entry found resolved
  exact lowers.all admits (by simp) _ mem role i rfl call called

/-- What a function calls. -/
theorem Renders.calls {types : Registry} {signatures : SignatureTable} {entry : String}
    {source : Tree.Function} {function : Function}
    (renders : Renders types signatures entry source function) {i : Instr}
    (mem : i ∈ function.instrs) {call : Declaration} (called : i.called? = some call) :
    Calls types signatures call := by
  obtain ⟨start, starts, emitted⟩ := renders
  obtain ⟨_, _, _, slots, _, lowers, finished⟩ := emitted.finished starts.plain
  obtain ⟨id, _, mem⟩ := Function.mem_instrs.mp mem
  obtain ⟨role, mem⟩ := finished.exists_part mem
  rcases List.mem_append.mp mem with mem | mem
  · rcases List.mem_append.mp (Code.mem_parts_straight.mp mem).2 with slot | before
    · obtain ⟨_, _, rfl⟩ := finished.named i slot
      cases called
    · cases starts with
      | entry _ resolved =>
          simp only [Start.ofEntry, Start.prologue, List.mem_cons, List.not_mem_nil, or_false]
            at before
          rcases before with rfl | rfl | rfl | rfl | rfl | rfl | rfl <;> cases called
          exact .decodes _ resolved
      | function => cases before
  · exact lowers.calls ((Code.mem_parts_returning mem).resolve_right (by simp)) called

end LlvmBackend
