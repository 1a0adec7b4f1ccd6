import SchemaAlgebra.Number.Binary64
import SchemaAlgebra.Number.Decimal
import SchemaAlgebra.Text.CharClass
import SchemaAlgebra.Text.Case
import SchemaAlgebra.Json.Text
import SchemaAlgebra.Json.Reader
import SchemaAlgebra.Digest
import SchemaAlgebra.Timestamp
import SchemaAlgebra.Regex.Reader
import SchemaAlgebra.Node.Description
import SchemaAlgebra.Disjoint
import SchemaAlgebra.Node.Admission
import SchemaAlgebra.Decision
import SchemaAlgebra.Algebra.Meet
import SchemaAlgebra.Problem
import SchemaAlgebra.Compile
import SchemaAlgebra.Traversal.Run
import SchemaAlgebra.Grammar.Scanner
import SchemaAlgebra.Grammar.Definition
import SchemaAlgebra.Engine
import SchemaAlgebra.Proofs.Validation
import SchemaAlgebra.Proofs.Resolution
import SchemaAlgebra.Proofs.Sessions
import SchemaAlgebra.Proofs.Atomicity
import SchemaAlgebra.Proofs.Termination
import SchemaAlgebra.Proofs.Adequacy
import SchemaAlgebra.Proofs.Modes
import SchemaAlgebra.Proofs.Agreement
import SchemaAlgebra.Proofs.Halting
import SchemaAlgebra.Proofs.Deferrals
import SchemaAlgebra.Proofs.Application
import SchemaAlgebra.Proofs.Outcomes
import SchemaAlgebra.Proofs.Sameness
import SchemaAlgebra.Proofs.Reduced
import SchemaAlgebra.Proofs.Equations
import SchemaAlgebra.Proofs.Erasure
import SchemaAlgebra.Proofs.Caps
import SchemaAlgebra.Proofs.Descent
import SchemaAlgebra.Proofs.JsonText
import SchemaAlgebra.Proofs.Keys
import SchemaAlgebra.Proofs.Conjuncts
import SchemaAlgebra.Proofs.Pairs
import SchemaAlgebra.Proofs.Commutativity
import SchemaAlgebra.Proofs.Joining
import SchemaAlgebra.Proofs.EitherOrder
import SchemaAlgebra.Proofs.Places
import SchemaAlgebra.Proofs.Hops
import SchemaAlgebra.Proofs.Identity
import SchemaAlgebra.Proofs.Canonical
import SchemaAlgebra.Proofs.RoundTrip
import SchemaAlgebra.Proofs.Rewrites
import SchemaAlgebra.Proofs.Locality
import SchemaAlgebra.Proofs.Meanings
import SchemaAlgebra.Proofs.Declared
import SchemaAlgebra.Proofs.Relocation
import SchemaAlgebra.Proofs.Composition
import SchemaAlgebra.Proofs.Parts
import SchemaAlgebra.Proofs.Nearest
import SchemaAlgebra.Proofs.Numbers
import SchemaAlgebra.Proofs.KeyTexts
import SchemaAlgebra.Proofs.Nesting
import SchemaAlgebra.Proofs.Lookahead
import SchemaAlgebra.Proofs.CommonMultiples
import SchemaAlgebra.Proofs.Finishing
import SchemaAlgebra.Proofs.Partitions
import SchemaAlgebra.Proofs.Apart
import SchemaAlgebra.Proofs.Grouping
import SchemaAlgebra.Proofs.Repetition
import SchemaAlgebra.Proofs.Combinations
import SchemaAlgebra.Proofs.Covering
import SchemaAlgebra.Proofs.Histories
