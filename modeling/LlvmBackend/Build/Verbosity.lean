import LlvmBackend.Lowering

/-!
# Verbosity

How much a build tells about itself: its phases, remarks of three levels, and traces of its parts.
-/

namespace LlvmBackend

/-- A part of a build that can be traced. -/
inductive Topic where
  | types
  | codegen
  | verify
  | link
  | driver
  deriving DecidableEq, Repr

namespace Topic

def name : Topic → String
  | .types => "types"
  | .codegen => "codegen"
  | .verify => "verify"
  | .link => "link"
  | .driver => "driver"

/-- All topics. -/
def all : List Topic := [.types, .codegen, .verify, .link, .driver]

/-- The topics by their names. -/
def named : List (String × Topic) := all.map fun topic => (topic.name, topic)

end Topic

/-- The topic that a note about code generation belongs to. -/
def Note.topic : Note → Topic
  | .checked _ _ => .verify
  | _ => .codegen

/-- What the user asked to be told. -/
structure Verbosity where
  debug : Bool := false
  quiet : Bool := false
  level : Nat := 0
  topics : List Topic := []
  deriving DecidableEq, Repr

namespace Verbosity

variable (verbosity : Verbosity)

/-- The level that counts: none when quiet, and at least that of debug remarks when debugging. -/
def effectiveLevel : Nat :=
  if verbosity.quiet then 0
  else if verbosity.debug then max 2 verbosity.level
  else verbosity.level

/-- Whether the phases of a build are told. -/
def showsPhases : Bool := !verbosity.quiet

/-- Whether remarks of the first level are told. -/
def showsInfo : Bool := 1 ≤ verbosity.effectiveLevel

/-- Whether remarks of the second level are told. -/
def showsDebug : Bool := 2 ≤ verbosity.effectiveLevel

/-- Whether remarks of the third level are told. -/
def showsTrace : Bool := 3 ≤ verbosity.effectiveLevel

/-- Whether a topic is traced. -/
def traces (topic : Topic) : Bool :=
  !verbosity.quiet && (verbosity.debug || verbosity.topics.contains topic)

end Verbosity

end LlvmBackend
