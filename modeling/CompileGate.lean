import CompileGate.Main
import CompileGate.Proofs.Reachability
import CompileGate.Proofs.Ceilings
import CompileGate.Proofs.RedirectChain
import CompileGate.Proofs.AllowedRequests
import CompileGate.Proofs.Scanning
import CompileGate.Proofs.SelfContained
import CompileGate.Proofs.FetchCalls
import CompileGate.Proofs.StageOrder
import CompileGate.Proofs.Deadline
import CompileGate.Proofs.CanonicalKeys
import CompileGate.Proofs.StatementPlaces
import CompileGate.Proofs.RewrittenText
import CompileGate.Proofs.DecodedSize
import CompileGate.Proofs.BodyLimit
import CompileGate.Proofs.LimitedWalk
import CompileGate.Proofs.LoweredText
import CompileGate.Proofs.LoweredAddress
import CompileGate.Proofs.LoweredAuthority
import CompileGate.Proofs.SingleSlashes
import CompileGate.Proofs.HostKey
import CompileGate.Proofs.WindowCounts
import CompileGate.Proofs.FetchHistory
import CompileGate.Proofs.Framing
import CompileGate.Proofs.ResolvedAuthority
import CompileGate.Proofs.FetchFailures
import CompileGate.Proofs.FrontEnds
import CompileGate.Proofs.CanonicalShape
import CompileGate.Proofs.CeilingReferrer
import CompileGate.Proofs.VerifiedBuild
import CompileGate.Proofs.FollowedChain
import CompileGate.Proofs.RequestMembers
import CompileGate.Proofs.PayloadFailures
import CompileGate.Proofs.EntryKeys
import CompileGate.Proofs.EncodableJson
import CompileGate.Proofs.WritableDocument
import CompileGate.Proofs.ShortForms
import CompileGate.Proofs.WrittenAssignment
import CompileGate.Proofs.PackageHost
import CompileGate.Proofs.ReorderedJson
import CompileGate.Proofs.LoadedVariables
import CompileGate.Proofs.RecordLines
