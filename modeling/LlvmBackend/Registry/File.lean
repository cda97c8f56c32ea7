import LlvmBackend.Registry.Builtin
import LlvmBackend.Registry.Reader
import LlvmBackend.Toml.Reader

/-!
# Type files

A TOML document of types that extend a registry. All of them are defined before any reference
between types is checked.
-/

namespace LlvmBackend

/-- Why a registry cannot be extended. -/
inductive RegistryError where
  | document (error : Toml.Error)
  | unknownType (name : String)

/-- The message about the extension of a registry by a text. -/
def RegistryError.message (text : String) : RegistryError → String
  | .document error => "invalid type registry: " ++ error.message text
  | .unknownType name => s!"unknown type `{name}`"

namespace Registry

/-- Checks that all references between types lead somewhere. -/
def validate (types : Registry) : Except RegistryError Unit :=
  match types.unknownReference with
  | some name => .error (.unknownType name)
  | none => .ok ()

/-- The fields of a type file. -/
def fileFields : List (Field (List TypeDescriptor)) :=
  [⟨"types", false, fun datum _ => datum.asList (TypeDescriptor.read TypeDescriptor.Dialect.toml)⟩]

/-- The types of a type file. -/
def readFile (text : String) : Except Toml.Error (List TypeDescriptor) :=
  Toml.read (Field.readStructure "struct RegistryFile" Surplus.ignored fileFields []) text

/-- Extends a registry by the types that were found in a file and tells how many there are. What was
    defined stays defined when the check of references fails. -/
def extendBy (types : Registry) (found : Except Toml.Error (List TypeDescriptor)) :
    Registry × Except RegistryError Nat :=
  match found with
  | .error error => (types, .error (.document error))
  | .ok descriptors =>
    let extended := types.defineAll descriptors
    (extended, extended.validate.map fun _ => descriptors.length)

/-- Extends a registry by the types of a file. -/
def extend (types : Registry) (text : String) : Registry × Except RegistryError Nat :=
  types.extendBy (readFile text)

/-- The builtin types extended by the types of a file. -/
def ofFile (text : String) : Except RegistryError Registry :=
  let (types, outcome) := builtin.extend text
  outcome.map fun _ => types

end Registry

end LlvmBackend
