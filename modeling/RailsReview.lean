import RailsReview.Main
import RailsReview.Proofs.ByteCuts
import RailsReview.Proofs.CallChains
import RailsReview.Proofs.ClassNames
import RailsReview.Proofs.ConfigLookup
import RailsReview.Proofs.ConfiguredFindings
import RailsReview.Proofs.Delegation
import RailsReview.Proofs.DocumentOrder
import RailsReview.Proofs.DocumentRoundTrip
import RailsReview.Proofs.ExcludedDocuments
import RailsReview.Proofs.FrontEnds
import RailsReview.Proofs.IncrementalSorting
import RailsReview.Proofs.IndexExtension
import RailsReview.Proofs.IndexHistory
import RailsReview.Proofs.Isolation
import RailsReview.Proofs.OnePass
import RailsReview.Proofs.OrderIndependence
import RailsReview.Proofs.PartialPaths
import RailsReview.Proofs.PartialViews
import RailsReview.Proofs.PlainPlurals
import RailsReview.Proofs.ReportRoundTrip
import RailsReview.Proofs.Reserialization
import RailsReview.Proofs.RootIndependence
import RailsReview.Proofs.RuleSelection
import RailsReview.Proofs.SchemaLoading
import RailsReview.Proofs.SiblingOrder
import RailsReview.Proofs.Spellings
import RailsReview.Proofs.StableSingulars
import RailsReview.Proofs.Tallies
