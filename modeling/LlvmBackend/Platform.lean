import LlvmBackend.CodegenError

/-!
# Target platforms

The platforms that code can be generated for, and what the code calls them.
-/

namespace LlvmBackend

namespace Platform

/-- The supported platforms and the target triple of each. -/
def triples : List (String × String) :=
  [("darwin", "x86_64-apple-darwin11.0.0"), ("macos", "x86_64-apple-darwin11.0.0"),
   ("linux", "x86_64-pc-linux-gnu")]

/-- The names of the supported platforms. -/
def supported : List String := triples.map Prod.fst

/-- The platform that code is generated for when nobody says otherwise. -/
def host : String := "linux"

/-- The target triple of a platform. -/
def triple (platform : String) : Except CodegenError String :=
  match triples.lookup platform with
  | some triple => .ok triple
  | none => .error (.unsupportedPlatform platform)

end Platform

end LlvmBackend
