import LlvmBackend.Proofs.Reads
import LlvmBackend.Proofs.Teardown
import LlvmBackend.Proofs.Translation.Calls

/-! # Arguments are torn down exactly when they are owned

If truth values need no teardown, each call of an emitted function tears down behind it those of its
arguments that are results of calls, as the way to the call selected them, and a connective that moves
on to its right operand tears the left one down before the two meet.
-/

namespace LlvmBackend

open Ir Lowering Reference

namespace Translation

/-- Code tears down what nobody else owns behind calls and in connectives, and no other operands. -/
structure Tidies (env : Surroundings) (code : Code) : Prop where
  /-- Whatever is called for the source gets arguments that were evaluated right before. -/
  covers : ∀ p acts stop, Exec p code acts stop → Covered env code.parts acts
  /-- Each way through a call with its arguments tears down those that are owned, whatever registers
      stand for before it. -/
  consumes : ∀ names callee es vs lent atArgs calling,
    CallsWith env names callee es vs lent atArgs calling →
    (Code.seq atArgs calling).parts.Sublist code.parts →
    ∀ course, (Code.seq atArgs calling).Ways course (Consumes env names es vs lent course)
  /-- A connective that moves on to its right operand tears down a left one that is owned. -/
  proceeds : ∀ names connective left right l r atLeft atRight piece v,
    Evaluates env names (.expr left) [l] atLeft → Evaluates env names (.expr right) [r] atRight →
    r.type = l.type → Connects env connective l r atLeft atRight piece v →
    piece.parts.Sublist code.parts →
    ∀ course, piece.Ways course (Proceeds env names connective left right course)

variable {env : Surroundings} {names : Names} {code : Code}

theorem Connects.proceeds (plain : env.types.method Registry.bool teardown = none)
    {connective : Connective} {left right : Expr} {l r v : Value} {atLeft atRight : Code}
    (connects : Connects env connective l r atLeft atRight code v)
    (onLeft : Evaluates env names (.expr left) [l] atLeft)
    (onRight : Evaluates env names (.expr right) [r] atRight) (same : r.type = l.type)
    (nodup : code.temps.Nodup) (outer : code.All Part.Outer) (course : Course) :
    code.Ways course (Proceeds env names connective left right course) := by
  obtain ⟨sub, sub'⟩ := connects.sublist (.refl _)
  have outerLeft := outer.of_sublist sub
  have outerRight := outer.of_sublist sub'
  refine (connects.ways (hasTypes_expr.mp onLeft.hasTypes) (hasTypes_expr.mp onRight.hasTypes) same
    nodup (onLeft.inside outerLeft _ (List.mem_singleton_self _))
    (onRight.inside outerRight _ (List.mem_singleton_self _)) (fun course => ?_)
    (fun course => ?_)).mono fun _ tracked => tracked.2
  · exact ways_of_tracked (onLeft.tracks plain (Code.nodup_of_sublist sub nodup) outerLeft course)
  · exact ways_of_tracked (onRight.tracks plain (Code.nodup_of_sublist sub' nodup) outerRight course)

theorem Lowers.tidies (plain : env.types.method Registry.bool teardown = none) {work : Work}
    {names' : Names} {ended : Bool} (lowers : Lowers env work names names' ended code)
    (outer : names.Outer) (nodup : code.temps.Nodup) : Tidies env code where
  covers := lowers.covers outer (.refl _)
  consumes := fun _ _ _ _ _ _ _ calls sub =>
    calls.consumes plain (Code.nodup_of_sublist sub nodup) ((lowers.outer outer).of_sublist sub)
  proceeds := fun _ _ _ _ _ _ _ _ _ _ onLeft onRight same connects sub =>
    connects.proceeds plain onLeft onRight same (Code.nodup_of_sublist sub nodup)
      ((lowers.outer outer).of_sublist sub)

end Translation

theorem Emitted.exists_tidies {types : Registry} {signatures : SignatureTable} {entry : String}
    {source : Tree.Function} {start : Start} {function : Function}
    (plain : types.method Registry.bool teardown = none)
    (starts : Starts types entry source start)
    (emitted : Emitted types signatures start source.body function) : ∃ code,
      Embodies types signatures entry source function start code ∧
        Translation.Tidies ⟨types, signatures, start.outcome⟩ code := by
  obtain ⟨names, ended, code, slots, site, lowers, finished⟩ := emitted.finished starts.plain
  have nodup : code.temps.Nodup :=
    finished.build.singled.nodup_temps (code.parts_sublist_returning ended start.atEnd)
  exact ⟨code, finished.embodies starts lowers,
    lowers.tidies plain (Start.outer_of_starts starts) nodup⟩

namespace Codegen

/-- If truth values need no teardown, each generated function tears down the arguments of its calls
    that are results, and no others, and so do the connectives with operands they drop. -/
theorem generate_tidies {source : Tree.Module} {types : Registry} {options : CodegenOptions}
    {generated : Module} (plain : types.method Registry.bool teardown = none)
    (accepted : (run (generate source types options)).1 = .ok generated) :
    ∃ signatures, SignatureTable.collect source types options.entry = .ok signatures ∧
      List.Forall₂ (fun declared emitted => ∃ start code,
        Embodies types signatures options.entry declared emitted start code ∧
        Translation.Tidies ⟨types, signatures, start.outcome⟩ code)
        source.functions generated.functions := by
  obtain ⟨_, signatures, collected, renders⟩ := run_ok (generate_yields source types options) accepted
  refine ⟨signatures, collected, renders.imp fun declared emitted renders => ?_⟩
  obtain ⟨start, starts, emits⟩ := renders
  obtain ⟨code, tidies⟩ := emits.exists_tidies plain starts
  exact ⟨start, code, tidies⟩

/-- A call of a choice between texts that were made for it and texts that were there before. -/
def choosing : Tree.Module where
  functions :=
    [{ name := "choose", params := [⟨"text", "str"⟩, ⟨"loud", "bool"⟩], returns := "void"
       body :=
        [.effect (.call "print"
          [.or
            (.and (.binary .add (.name "text") (.string "!")) (.name "text"))
            (.ternary (.name "loud") (.binary .add (.name "text") (.string "?")) (.string "none"))])] }]

theorem choosing_tidies : Registry.method .builtin Registry.bool teardown = none ∧
    ∃ generated signatures, (run (generate choosing .builtin {})).1 = .ok generated ∧
      SignatureTable.collect choosing .builtin "__main__" = .ok signatures ∧
      List.Forall₂ (fun declared emitted => ∃ start code,
        Embodies .builtin signatures "__main__" declared emitted start code ∧
        Translation.Tidies ⟨.builtin, signatures, start.outcome⟩ code)
        choosing.functions generated.functions := by
  have plain : Registry.method .builtin Registry.bool teardown = none := by decide +kernel
  have accepted : (run (generate choosing .builtin {})).1.toBool = true := by decide +kernel
  cases result : (run (generate choosing .builtin {})).1 with
  | error error => simp [result, Except.toBool] at accepted
  | ok generated =>
      obtain ⟨signatures, collected, tidies⟩ := generate_tidies plain result
      exact ⟨plain, generated, signatures, rfl, collected, tidies⟩

end Codegen

end LlvmBackend
