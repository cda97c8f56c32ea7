import LlvmBackend.Build.Disk
import LlvmBackend.Main
import LlvmBackend.Tree.Printer
import LlvmBackend.Proofs.Build
import LlvmBackend.Proofs.Build.Frame
import LlvmBackend.Proofs.Build.Placement
import LlvmBackend.Proofs.Lowering.Expr
import LlvmBackend.Proofs.Lowering.Stmt
import LlvmBackend.Proofs.Code.Observed
import LlvmBackend.Proofs.Code.Parting
import LlvmBackend.Proofs.Code.Supplied
import LlvmBackend.Proofs.Emitted
import LlvmBackend.Proofs.Finished
import LlvmBackend.Proofs.Observed
import LlvmBackend.Proofs.Reads
import LlvmBackend.Proofs.Ssa
import LlvmBackend.Proofs.Ir.Typing
import LlvmBackend.Proofs.Pool
import LlvmBackend.Proofs.Typing.Steps
import LlvmBackend.Proofs.Typing.Expr
import LlvmBackend.Proofs.Typing.Stmt
import LlvmBackend.Proofs.Typing
import LlvmBackend.Proofs.Checker
import LlvmBackend.Proofs.Checker.Sound
import LlvmBackend.Proofs.Checker.Expr
import LlvmBackend.Proofs.Checker.Stmt
import LlvmBackend.Proofs.Acceptance
import LlvmBackend.Proofs.Ir.Course
import LlvmBackend.Proofs.Ir.Ledger
import LlvmBackend.Proofs.Code.Custody
import LlvmBackend.Proofs.Code.Intact
import LlvmBackend.Proofs.Translation.Custody
import LlvmBackend.Proofs.Translation.Custody.Expr
import LlvmBackend.Proofs.Translation.Custody.Stmt
import LlvmBackend.Proofs.Teardown
import LlvmBackend.Proofs.Renaming
import LlvmBackend.Proofs.Pool.Renumbering
import LlvmBackend.Proofs.Pool.Relocation
import LlvmBackend.Proofs.Relocation.Steps
import LlvmBackend.Proofs.Relocation.Expr
import LlvmBackend.Proofs.Relocation.Stmt
import LlvmBackend.Proofs.Drafts
import LlvmBackend.Proofs.Order
import LlvmBackend.Proofs.Symbols
import LlvmBackend.Proofs.LocalNames
import LlvmBackend.Proofs.Signatures
import LlvmBackend.Proofs.Calls
import LlvmBackend.Proofs.Declarations
import LlvmBackend.Proofs.Interface
import LlvmBackend.Proofs.Json.Literals
import LlvmBackend.Proofs.Json.Floats
import LlvmBackend.Proofs.Json.Documents
import LlvmBackend.Proofs.Tree.RoundTrip
import LlvmBackend.Proofs.Translation.Flags
import LlvmBackend.Proofs.Flags
import LlvmBackend.Proofs.Code.Fills
import LlvmBackend.Proofs.Translation.Iterators
import LlvmBackend.Proofs.Translation.Iterators.Stmt
import LlvmBackend.Proofs.Iterators
import LlvmBackend.Proofs.Linking.Steps
import LlvmBackend.Proofs.Linking.Expr
import LlvmBackend.Proofs.Linking.Stmt
import LlvmBackend.Proofs.Linking
import LlvmBackend.Proofs.Translation.Storage
import LlvmBackend.Proofs.Storage
import LlvmBackend.Proofs.Returning
import LlvmBackend.Proofs.Code.Leaving
import LlvmBackend.Proofs.Translation.Leaving
import LlvmBackend.Proofs.Results
import LlvmBackend.Proofs.Selection
import LlvmBackend.Proofs.Code.Ways
import LlvmBackend.Proofs.Translation.Selection
import LlvmBackend.Proofs.Translation.Arguments
import LlvmBackend.Proofs.Translation.Calls
import LlvmBackend.Proofs.Arguments
import LlvmBackend.Proofs.Registry.Names
import LlvmBackend.Proofs.Registry.Store
import LlvmBackend.Proofs.Registry
import LlvmBackend.Proofs.Registry.Validation
import LlvmBackend.Proofs.Plain
import LlvmBackend.Proofs.Lowering.Plain
import LlvmBackend.Proofs.Lowering.Resolution
import LlvmBackend.Proofs.Resolution
import LlvmBackend.Proofs.Settings
import LlvmBackend.Proofs.Literals
import LlvmBackend.Proofs.Textual
import LlvmBackend.Proofs.Textual.Expr
import LlvmBackend.Proofs.Textual.Stmt
import LlvmBackend.Proofs.Constants
import LlvmBackend.Proofs.Supply.History
import LlvmBackend.Proofs.Scopes.Stack
import LlvmBackend.Proofs.Ir.Escapes
import LlvmBackend.Proofs.Ir.Log
import LlvmBackend.Proofs.Texts
import LlvmBackend.Proofs.Ir.InPlace
import LlvmBackend.Proofs.Json.Library
