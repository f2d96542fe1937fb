import ClassCoupling.ClassFile.Builder
import ClassCoupling.Describe
import ClassCoupling.Main
import ClassCoupling.Proofs.ClassDecoding
import ClassCoupling.Proofs.GroupQuotient
import ClassCoupling.Proofs.Components
import ClassCoupling.Proofs.CycleDetection
import ClassCoupling.Proofs.Truncation
import ClassCoupling.Proofs.PlainText
import ClassCoupling.Proofs.Interning
import ClassCoupling.Proofs.BuilderSteps
import ClassCoupling.Proofs.BuiltImages
import ClassCoupling.Proofs.ArchiveMembers
import ClassCoupling.Proofs.NamedGraph
import ClassCoupling.Proofs.FilteredRuns
import ClassCoupling.Proofs.InputOrder
import ClassCoupling.Proofs.BatchAccounts
import ClassCoupling.Proofs.ReportConsistency
import ClassCoupling.Proofs.AnnotationGrammar
import ClassCoupling.Proofs.PoolLayout
import ClassCoupling.Proofs.AnnotationTypes
import ClassCoupling.Proofs.CheckedDecoder
import ClassCoupling.Proofs.PoolCorruption
import ClassCoupling.Proofs.UnitText
import ClassCoupling.Proofs.DescriptorGrammar
import ClassCoupling.Proofs.TypeReferences
import ClassCoupling.Proofs.NameAcceptance
import ClassCoupling.Proofs.NormalReferences
import ClassCoupling.Proofs.InputCollection
import ClassCoupling.Proofs.ClassPaths
import ClassCoupling.Proofs.CanonicalPlaces
import ClassCoupling.Proofs.ArrayReferences
import ClassCoupling.Proofs.Coarsening
import ClassCoupling.Proofs.ClassGroups
import ClassCoupling.Proofs.Listening
import ClassCoupling.Proofs.ProjectedCycles
import ClassCoupling.Proofs.Layering
import ClassCoupling.Proofs.PackageGroups
import ClassCoupling.Proofs.StandIns
import ClassCoupling.Proofs.Replacement
import ClassCoupling.Proofs.DeliveryOrder
import ClassCoupling.Proofs.GraphColumns
import ClassCoupling.Proofs.CheckedGrouping
import ClassCoupling.Proofs.AnnotationEffort
