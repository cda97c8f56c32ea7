import LlvmBackend.Toml.Reader

/-!
# Project files

A TOML document that names a project and says how it is built.
-/

namespace LlvmBackend

/-- What a project says about its build. -/
structure ProjectBuild where
  /-- The module tree to compile. -/
  mainFile : String
  outputDir : String := "build"
  typesFile : Option String := none
  includeFile : Option String := none
  entry : Option String := none
  platform : Option String := none
  cc : Option String := none
  /-- Objects for the linker. -/
  runtime : List String := []
  deriving DecidableEq, Repr

/-- A project. -/
structure Project where
  name : String
  version : String := "0.1.0"
  build : ProjectBuild
  deriving DecidableEq, Repr

namespace ProjectBuild

/-- A text that may be absent. -/
def asOptionalText : Datum → Reading (Option String) := Datum.asOptional Datum.asString

def fields : List (Field ProjectBuild) :=
  [⟨"main_file", true, fun datum build => return { build with mainFile := ← datum.asString }⟩,
   ⟨"output_dir", false, fun datum build => return { build with outputDir := ← datum.asString }⟩,
   ⟨"types_file", false, fun datum build =>
      return { build with typesFile := ← asOptionalText datum }⟩,
   ⟨"include_file", false, fun datum build =>
      return { build with includeFile := ← asOptionalText datum }⟩,
   ⟨"entry", false, fun datum build => return { build with entry := ← asOptionalText datum }⟩,
   ⟨"platform", false, fun datum build =>
      return { build with platform := ← asOptionalText datum }⟩,
   ⟨"cc", false, fun datum build => return { build with cc := ← asOptionalText datum }⟩,
   ⟨"runtime", false, fun datum build =>
      return { build with runtime := ← datum.asList Datum.asString }⟩]

def read : Datum → Reading ProjectBuild :=
  Field.readStructure "struct RunaProjectBuildConfig" Surplus.ignored fields { mainFile := "" }

end ProjectBuild

namespace Project

def fields : List (Field Project) :=
  [⟨"name", true, fun datum project => return { project with name := ← datum.asString }⟩,
   ⟨"version", false, fun datum project => return { project with version := ← datum.asString }⟩,
   ⟨"build", true, fun datum project =>
      return { project with build := ← ProjectBuild.read datum }⟩]

/-- Reads a project file. -/
def ofToml (text : String) : Except Toml.Error Project :=
  Toml.read (Field.readStructure "struct RunaProjectConfig" Surplus.ignored fields
    { name := "", build := { mainFile := "" } }) text

end Project

end LlvmBackend
