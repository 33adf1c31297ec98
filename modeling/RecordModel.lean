import RecordModel.CommandLine.FileTree
import RecordModel.Main
import RecordModel.Proofs.Outcomes
import RecordModel.Proofs.Types
import RecordModel.Proofs.Answers
import RecordModel.Proofs.Rounding
import RecordModel.Proofs.Viable
import RecordModel.Proofs.Draws
import RecordModel.Proofs.Drawn
import RecordModel.Proofs.DeepValues
import RecordModel.Proofs.SelfReference
import RecordModel.Proofs.SchemaPlaces
import RecordModel.Proofs.Renders
import RecordModel.Proofs.NamedOnce
import RecordModel.Proofs.SchemaValues
import RecordModel.Proofs.RegistryHistory
import RecordModel.Proofs.Agreement
import RecordModel.Proofs.SameDraws
import RecordModel.Proofs.Expansions
import RecordModel.Proofs.Buildable
import RecordModel.Proofs.Rearranged
import RecordModel.Proofs.OnDemand
import RecordModel.Proofs.WrittenNames
import RecordModel.Proofs.ExactNumbers
import RecordModel.Proofs.ScalarEncodings
import RecordModel.Proofs.Numerals
import RecordModel.Proofs.SchemaDefaults
import RecordModel.Proofs.Walk
import RecordModel.Proofs.Bounds
import RecordModel.Proofs.ReadBack
import RecordModel.Proofs.JsonText
import RecordModel.Proofs.GeneratedShapes
import RecordModel.Proofs.PrintedLines
import RecordModel.Proofs.AcceptedScalars
import RecordModel.Proofs.AcceptedValues
import RecordModel.Proofs.CanonicalTypes
import RecordModel.Proofs.DeclaredMatching
import RecordModel.Proofs.ConvertedShapes
import RecordModel.Proofs.FirstMember
import RecordModel.Proofs.UnionChoice
import RecordModel.Proofs.SettledAlike
import RecordModel.Proofs.ConvertedInstances
import RecordModel.Proofs.AnyPlace
import RecordModel.Proofs.DayNumbers
import RecordModel.Proofs.Ranges
import RecordModel.Proofs.DetachedValues
import RecordModel.Proofs.AddedRecords
import RecordModel.Proofs.StrictChecks
import RecordModel.Proofs.Culprits
import RecordModel.Proofs.Terminals
import RecordModel.Proofs.WellFormedDeclarations
import RecordModel.Proofs.AmbiguousUnions
import RecordModel.Proofs.AlikeJson
import RecordModel.Proofs.LosslessSchemas
import RecordModel.Proofs.ReorderedJson
import RecordModel.Proofs.WrittenAlike
import RecordModel.Proofs.ReorderedDocuments
import RecordModel.Proofs.NumberedMoments
import RecordModel.Proofs.DecimalDraws
import RecordModel.Proofs.OpenRegistries
import RecordModel.Proofs.LookAhead
