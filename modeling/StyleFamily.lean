import StyleFamily.Files.Tree
import StyleFamily.Main
import StyleFamily.Model.Scope
import StyleFamily.Proofs.Command.Agreement
import StyleFamily.Proofs.Family.WellTyped
import StyleFamily.Proofs.Files.Confinement
import StyleFamily.Proofs.Files.Preview
import StyleFamily.Proofs.Kotlin.Imports
import StyleFamily.Proofs.Kotlin.Lossless
import StyleFamily.Proofs.Kotlin.NameClash
import StyleFamily.Proofs.Kotlin.SharedNames
import StyleFamily.Proofs.Lint.ErrorCount
import StyleFamily.Proofs.Manifest.ScannedSchema
import StyleFamily.Proofs.Model.Readability
import StyleFamily.Proofs.Model.Refinement
import StyleFamily.Proofs.Pipeline.Delivery
import StyleFamily.Proofs.Kotlin.Fallbacks
import StyleFamily.Proofs.Layout.Lines
import StyleFamily.Proofs.Kotlin.NameCapture
import StyleFamily.Proofs.Command.Defaults
import StyleFamily.Proofs.Kotlin.Words
import StyleFamily.Proofs.Kotlin.Vocabulary
import StyleFamily.Proofs.Kotlin.Keywords
import StyleFamily.Proofs.Family.Inventory
import StyleFamily.Proofs.Manifest.FirstFault
import StyleFamily.Proofs.Manifest.Quotation
import StyleFamily.Proofs.Manifest.Labels
import StyleFamily.Proofs.Kotlin.TypeReading
import StyleFamily.Proofs.Pipeline.Snapshots
import StyleFamily.Proofs.Kotlin.UnitLayout
import StyleFamily.Proofs.Files.UnitPlace
import StyleFamily.Proofs.Command.DryRun
import StyleFamily.Proofs.Model.ScopeHistory
import StyleFamily.Proofs.Layout.Indentation
