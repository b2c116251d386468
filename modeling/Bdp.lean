import Bdp.Evaluator.GraphLaw
import Bdp.Evaluator.ViewCommands
import Bdp.Evaluator.Addressing
import Bdp.Evaluator.Multiplicity
import Bdp.Evaluator.ReadNoninterference
import Bdp.Client.ContinuationInvariant
import Bdp.Retained.Paging
import Bdp.Evaluator.PropertyPatch
import Bdp.Sequence.Settlement
import Bdp.Normalize.Retries
import Bdp.Schema.NumberShape
import Bdp.Transaction.PagingLaw
import Bdp.Evaluator.SnapshotLaw
import Bdp.Retained.VersionLaw
import Bdp.Conformance.ConformanceLaw
import Bdp.LinkHeader.RoundTrip
import Bdp.Projection.ProjectionLaw
import Bdp.CommandInput.EditLaw
import Bdp.Readiness.ReadyLaw
import Bdp.Listing.ListingLaw
import Bdp.References.ReadingLaw
import Bdp.Selector.CompositionLaw
import Bdp.Coordination.ReadSequenceLaw
import Bdp.Navigation.ContinuationLaw
import Bdp.Selector.SelectionLaw
import Bdp.Admission.Diagnostics
import Bdp.Client.MemberNames
import Bdp.ReadHttp.EntityTagLaw
import Bdp.Pagination.LedgerLaw
import Bdp.Pagination.SnapshotLaw
import Bdp.ReadHttp.RequestTargetLaw
import Bdp.Evaluator.SnapshotRuns
import Bdp.Pagination.LedgerRefines
