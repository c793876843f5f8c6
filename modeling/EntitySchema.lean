import EntitySchema.Main
import EntitySchema.Proofs.Addressing
import EntitySchema.Proofs.Admission
import EntitySchema.Proofs.Anchoring
import EntitySchema.Proofs.BaseComponents
import EntitySchema.Proofs.BehaviorBatch
import EntitySchema.Proofs.Branches
import EntitySchema.Proofs.CacheMarker
import EntitySchema.Proofs.CanonicalPaths
import EntitySchema.Proofs.Casing
import EntitySchema.Proofs.Containment
import EntitySchema.Proofs.Dependence
import EntitySchema.Proofs.DiskFrame
import EntitySchema.Proofs.DiskTree
import EntitySchema.Proofs.DistinctNames
import EntitySchema.Proofs.EmptyDocs
import EntitySchema.Proofs.Enumerations
import EntitySchema.Proofs.Extraction
import EntitySchema.Proofs.FaultCauses
import EntitySchema.Proofs.Following
import EntitySchema.Proofs.FreshCache
import EntitySchema.Proofs.Indentation
import EntitySchema.Proofs.Inlining
import EntitySchema.Proofs.Memoisation
import EntitySchema.Proofs.ModuleListing
import EntitySchema.Proofs.NormalForm
import EntitySchema.Proofs.Output
import EntitySchema.Proofs.QuotedText
import EntitySchema.Proofs.RecordKeys
import EntitySchema.Proofs.RelativeWalk
import EntitySchema.Proofs.TypeHeight
import EntitySchema.Proofs.TypeLists
import EntitySchema.Proofs.Warnings
import EntitySchema.Proofs.WrittenDocuments
