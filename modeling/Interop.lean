import Interop.Main
import Interop.Description.Dump
import Interop.Proofs.Typedef
import Interop.Proofs.References
import Interop.Proofs.Script
import Interop.Proofs.Coherence
import Interop.Proofs.BestEffort
import Interop.Proofs.Schedule
import Interop.Proofs.Growth
import Interop.Proofs.Session
import Interop.Proofs.Strictness
import Interop.Proofs.Accounts
import Interop.Proofs.Folding
import Interop.Proofs.Validity
import Interop.Proofs.Void
import Interop.Proofs.Nullability
import Interop.Proofs.Mandatory
import Interop.Proofs.Presentation
import Interop.Proofs.DecisionFaults
import Interop.Proofs.Shape
import Interop.Proofs.ArrayElements
import Interop.Proofs.UntypedHandles
import Interop.Proofs.RefusedLibraries
import Interop.Proofs.TextEncoding
import Interop.Proofs.UserData
import Interop.Proofs.SizeHints
import Interop.Proofs.ParameterNames
import Interop.Proofs.OutputFiles
import Interop.Proofs.AliasSearch
import Interop.Proofs.NameIndex
