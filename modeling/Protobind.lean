import Protobind.Session.Step
import Protobind.Proofs.Varints
import Protobind.Proofs.SourcePaths
import Protobind.Proofs.OneofAgreement
import Protobind.Proofs.Docstrings
import Protobind.Proofs.ExtendedMessages
import Protobind.Proofs.Dispatch
import Protobind.Proofs.MessageSets
import Protobind.Proofs.ScalarStreams
import Protobind.Proofs.PublicClosure
import Protobind.Proofs.MixedRuns
import Protobind.Proofs.TagDefaults
import Protobind.Proofs.PlannedTables
import Protobind.Proofs.MemberNames
import Protobind.Proofs.Escapes
import Protobind.Proofs.Parameters
