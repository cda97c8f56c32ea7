import LlvmBackend.Proofs.Constants
import LlvmBackend.Proofs.Ir.Escapes

/-! # Texts in modules

A text of the source stands in the printed module as its bytes, which can be read back between their
quotes, and as a header that counts them. Main statement: `Codegen.generate_prints_texts`.
-/

namespace LlvmBackend

open Ir
open Literal (number ofFunctions)

/-! ## Bytes of a text -/

namespace Text

theorem toList_loop (bytes : ByteArray) (i : Nat) (taken : List UInt8) :
    ByteArray.toList.loop bytes i taken = taken.reverse ++ bytes.data.toList.drop i := by
  fun_induction ByteArray.toList.loop bytes i taken with
  | case1 i taken lt ih =>
      have lt : i < bytes.data.toList.length := lt
      have byte : bytes.get! i = bytes.data.toList[i] := getElem!_pos bytes.data i lt
      rw [ih, List.drop_eq_getElem_cons lt, List.reverse_cons, List.append_assoc,
        List.singleton_append, byte]
  | case2 i taken ge =>
      rw [List.drop_eq_nil_of_le (Nat.le_of_not_lt ge), List.append_nil]

theorem toList_eq (bytes : ByteArray) : bytes.toList = bytes.data.toList := toList_loop bytes 0 []

/-- The bytes of a text are those of its characters. -/
theorem toList_toUTF8 (text : String) :
    text.toUTF8.toList = text.toList.flatMap String.utf8EncodeChar := by
  rw [toList_eq, String.toUTF8, ← String.utf8Encode_toList, List.utf8Encode,
    List.toList_data_toByteArray]

theorem size_toUTF8 (text : String) :
    text.toUTF8.size = (text.toList.flatMap String.utf8EncodeChar).length := by
  rw [← toList_toUTF8, toList_eq, Array.length_toList]
  rfl

end Text

/-! ## Lines of a text -/

/-- The lines of a text: so many bytes, between quotes, and a header that refers to them. -/
def Ir.textLines (symbol type : String) (length : Nat) (quoted : List Char) : String :=
  s!"@{symbol}_data = constant [{length} x i8] c\"" ++ String.ofList quoted ++ "\"\n" ++
    (s!"@{symbol} = constant {type} \x7b i1 0, i64 {length}, i8* getelementptr inbounds " ++
      s!"([{length} x i8], [{length} x i8]* @{symbol}_data, i32 0, i32 0) \x7d\n")

theorem Literal.lines_of_text (types : Registry) (before : List Literal) (value : String) :
    String.join (((Literal.string value).created types before).map Global.text) =
      textLines s!"str{number before}" (types.ir Registry.string) value.toUTF8.size
        (escapedBytes value.toUTF8.toList) := by
  apply String.toList_injective
  simp [created, bytes, Literal.global, Global.text, Init.text, textLines, toString, String.join]

/-! ## Modules -/

/-- Constants that stand one behind the other are printed so. -/
theorem Ir.Module.exists_text_of_globals {module : Module} {first part last : List Global}
    (globals : module.globals = first ++ (part ++ last)) (some : part ≠ []) :
    ∃ front back, module.text = front ++ String.join (part.map Global.text) ++ back := by
  have lines : linesWithGap (module.globals.map Global.text) =
      String.join (module.globals.map Global.text) ++ "\n" := by
    unfold linesWithGap
    rw [if_neg]
    simp [globals, some]
  refine ⟨s!"target triple = \"{module.triple}\"\n\n" ++ module.preamble.text ++
      String.join (first.map Global.text),
    String.join (last.map Global.text) ++ "\n" ++
      String.join (module.functions.map fun function => function.text ++ "\n"), ?_⟩
  unfold Module.text
  rw [lines, globals]
  simp only [List.map_append, String.join_append, String.append_assoc]

namespace Codegen

variable {types : Registry} {source : Tree.Module} {options : CodegenOptions} {generated : Module}
  {before rest : List Literal} {value : String}

theorem globals_of_accepted (accepted : (run (generate source types options)).1 = .ok generated) :
    generated.globals = Literal.constants types [] (ofFunctions source.functions) := by
  obtain ⟨signatures, after, _, _, ran, _, globals⟩ := generate_eq_ok.mp accepted
  have recites := @recites_functions types signatures [] options.entry source.functions
    { notes := [.target generated.triple signatures.size] } rfl
  exact globals.trans (congrArg Pool.globals (recites.1 _ after ran))

/-- The lines of a text stand in the module one behind the other. -/
theorem exists_lines (accepted : (run (generate source types options)).1 = .ok generated)
    (there : ofFunctions source.functions = before ++ .string value :: rest) :
    ∃ front back, generated.text = front ++
      textLines s!"str{number before}" (types.ir Registry.string) value.toUTF8.size
        (escapedBytes value.toUTF8.toList) ++ back := by
  have globals := globals_of_accepted accepted
  rw [there, Literal.constants_append, List.nil_append, Literal.constants] at globals
  rw [← Literal.lines_of_text]
  exact Module.exists_text_of_globals globals (by simp [Literal.created])

/-- Bytes are printed without quotes and controls so that they are read back, and each text of a module
    that is accepted is printed as so many bytes, which are those of its characters, behind which a
    header gives the same number. -/
theorem generate_prints_texts :
    (∀ bytes, Escapes (escapedBytes bytes) bytes) ∧
      ∀ {types source options generated before value rest},
        (run (generate source types options)).1 = .ok generated →
        ofFunctions source.functions = before ++ .string value :: rest →
        ∃ front length quoted back,
          generated.text = front ++
            textLines s!"str{number before}" (types.ir Registry.string) length quoted ++ back ∧
          Escapes quoted (value.toList.flatMap String.utf8EncodeChar) ∧
          length = (value.toList.flatMap String.utf8EncodeChar).length := by
  refine ⟨escapes_escapedBytes, fun {_ _ _ _ _ value _} accepted there => ?_⟩
  obtain ⟨front, back, text⟩ := exists_lines accepted there
  refine ⟨front, _, _, back, text, ?_, Text.size_toUTF8 value⟩
  rw [← Text.toList_toUTF8]
  exact escapes_escapedBytes _

/-- A text with a quote, a backslash before two digits, a control and a character of several bytes. -/
def quoting : Tree.Module where
  functions := [{ name := "f", body := [.effect (.bool true), .effect (.string "\"\\41\x00é")] }]

theorem quoting_prints_texts :
    ∃ generated, (run (generate quoting .builtin {})).1 = .ok generated ∧
      ofFunctions quoting.functions = [.bool true] ++ .string "\"\\41\x00é" :: [] ∧
      ∃ front length quoted back,
        generated.text = front ++ textLines "str0" "%str" length quoted ++ back ∧
        Escapes quoted ("\"\\41\x00é".toList.flatMap String.utf8EncodeChar) ∧
        length = ("\"\\41\x00é".toList.flatMap String.utf8EncodeChar).length := by
  have accepted : (run (generate quoting .builtin {})).1.toBool = true := by decide +kernel
  cases result : (run (generate quoting .builtin {})).1 with
  | error error => simp [result, Except.toBool] at accepted
  | ok generated =>
      have there : ofFunctions quoting.functions = [.bool true] ++ .string "\"\\41\x00é" :: [] := rfl
      have symbol : s!"str{number [.bool true]}" = "str0" := rfl
      have type : Registry.builtin.ir Registry.string = "%str" := by decide +kernel
      have printed := generate_prints_texts.2 result there
      rw [symbol, type] at printed
      exact ⟨generated, rfl, there, printed⟩

end Codegen

end LlvmBackend
