import EntityStore.Describe
import EntityStore.Proofs.Atomicity
import EntityStore.Proofs.WritePlan
import EntityStore.Proofs.Agreement
import EntityStore.Proofs.Noninterference
import EntityStore.Proofs.Placeholders
import EntityStore.Proofs.Keys
import EntityStore.Proofs.OrderedMap
import EntityStore.Proofs.Forest
import EntityStore.Proofs.Growth
import EntityStore.Proofs.Retrieval
import EntityStore.Proofs.RoundTrip
import EntityStore.Proofs.Attempts
import EntityStore.Proofs.Protocol
import EntityStore.Proofs.Coverage
import EntityStore.Proofs.Hydration
import EntityStore.Proofs.Links
import EntityStore.Proofs.Storing
import EntityStore.Proofs.Reissue
import EntityStore.Proofs.Sequence
import EntityStore.Proofs.Halting
import EntityStore.Proofs.Boundary
import EntityStore.Proofs.Entries
import EntityStore.Proofs.Removal
import EntityStore.Proofs.Deletion
import EntityStore.Proofs.Closure
import EntityStore.Proofs.Revision
import EntityStore.Proofs.Update
import EntityStore.Proofs.Interleaving
import EntityStore.Proofs.Timestamps
import EntityStore.Proofs.Registration
import EntityStore.Proofs.Executed
import EntityStore.Proofs.Phases
import EntityStore.Proofs.Refusal
import EntityStore.Proofs.Retraction
import EntityStore.Proofs.Isolation
import EntityStore.Proofs.Vacancy
import EntityStore.Proofs.Patterns
import EntityStore.Proofs.Emptiness
import EntityStore.Proofs.TruthPositions
import EntityStore.Proofs.Soundness
import EntityStore.Proofs.Columns
import EntityStore.Proofs.Grammar
import EntityStore.Proofs.Parameters
import EntityStore.Proofs.Exactness
import EntityStore.Proofs.Comparison
import EntityStore.Proofs.Literals
import EntityStore.Proofs.Inlining
import EntityStore.Proofs.Offences
import EntityStore.Proofs.Accessors
