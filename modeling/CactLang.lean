import CactLang.Main
import CactLang.Proofs.ReturnPaths
import CactLang.Token.ByteCursor
import CactLang.Proofs.Rules
import CactLang.Proofs.ScopeStack
import CactLang.Proofs.View
import CactLang.Proofs.Refinement.Expression
import CactLang.Proofs.Refinement.Program
import CactLang.Proofs.Contract
import CactLang.Proofs.Places
import CactLang.Proofs.Walk
import CactLang.Proofs.Rejected.Expression
import CactLang.Proofs.Rejected.Statement
import CactLang.Proofs.Rejected.Return
import CactLang.Proofs.Visits
import CactLang.Proofs.Numbering
import CactLang.Proofs.Resolution
import CactLang.Proofs.Restoration
import CactLang.Proofs.Written
import CactLang.Proofs.Bare
import CactLang.Proofs.Reading.Run
import CactLang.Proofs.Reading.Repetition
import CactLang.Proofs.Reading.Expression
import CactLang.Proofs.Reading.Declaration
import CactLang.Proofs.Reading.Statement
import CactLang.Proofs.Reading.Program
import CactLang.Proofs.RoundTrip
import CactLang.Proofs.FirstFault
import CactLang.Proofs.RegistryRuns
import CactLang.Proofs.Effects
import CactLang.Proofs.Jumps
import CactLang.Proofs.Patterns
import CactLang.Proofs.Partition
import CactLang.Proofs.Pieces
import CactLang.Proofs.Building
import CactLang.Proofs.Identities
import CactLang.Proofs.Extents
import CactLang.Proofs.Unplaced.Tree
import CactLang.Proofs.Unplaced.Reading
import CactLang.Proofs.Unplaced.Typing
import CactLang.Proofs.Layout
import CactLang.Proofs.Guarded.Scanning
import CactLang.Proofs.Guarded.Tape
import CactLang.Proofs.Guarded.Grammar
import CactLang.Proofs.Guarded.ByIndex
import CactLang.Proofs.Guarded.Typing
import CactLang.Proofs.Guarded.Handles
import CactLang.Proofs.LineLookup
import CactLang.Proofs.Guarded.Report
import CactLang.Proofs.Safety
import CactLang.Proofs.Stratified
import CactLang.Proofs.InPlace.Pass
import CactLang.Proofs.InPlace.Annotate
import CactLang.Proofs.Annotation
import CactLang.Proofs.Contents
import CactLang.Proofs.DeclaredTypes
import CactLang.Proofs.Uses
import CactLang.Proofs.SoundTypes
import CactLang.Proofs.Pointing
import CactLang.Proofs.Shapes
import CactLang.Proofs.Literals
import CactLang.Proofs.Numerals
import CactLang.Proofs.Priority
import CactLang.Proofs.MaximalMunch
import CactLang.Proofs.Rescanning
import CactLang.Proofs.Shifted.Tree
import CactLang.Proofs.Shifted.Typing
import CactLang.Proofs.TypeText
import CactLang.Proofs.Mismatches
import CactLang.Proofs.Caret
import CactLang.Proofs.Magnitudes
import CactLang.Proofs.Recursion.Equations
import CactLang.Proofs.Recursion.Agreement
import CactLang.Proofs.Recursion.Termination
