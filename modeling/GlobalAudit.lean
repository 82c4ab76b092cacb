import GlobalAudit.Audit.Judgement
import GlobalAudit.Audit.Scope
import GlobalAudit.Audit.Verdict
import GlobalAudit.Bytecode.Dialect
import GlobalAudit.Bytecode.Instruction
import GlobalAudit.Bytecode.Listing
import GlobalAudit.Bytecode.Opcode
import GlobalAudit.Bytecode.Registers
import GlobalAudit.Bytecode.Remark
import GlobalAudit.Catalog.Basic
import GlobalAudit.Catalog.Document
import GlobalAudit.Catalog.Standard
import GlobalAudit.Command.Options
import GlobalAudit.Command.Run
import GlobalAudit.Command.Settings
import GlobalAudit.Fields
import GlobalAudit.Files.Documents
import GlobalAudit.Files.Path
import GlobalAudit.Files.Selection
import GlobalAudit.Files.Tree
import GlobalAudit.Json.Basic
import GlobalAudit.Json.Numeral
import GlobalAudit.Json.Printer
import GlobalAudit.Json.Reader
import GlobalAudit.Main
import GlobalAudit.Module.Probe
import GlobalAudit.Module.Source
import GlobalAudit.Output.CrossReference
import GlobalAudit.Output.Decoded
import GlobalAudit.Output.Report
import GlobalAudit.Proofs.Definitions
import GlobalAudit.Proofs.DialectTranslation
import GlobalAudit.Proofs.FirstOccurrences
import GlobalAudit.Proofs.Judgement
import GlobalAudit.Proofs.Layout
import GlobalAudit.Proofs.Merge
import GlobalAudit.Proofs.ModuleDeclaration
import GlobalAudit.Proofs.Passage
import GlobalAudit.Proofs.RegisterRecovery
import GlobalAudit.Proofs.Remark
import GlobalAudit.Proofs.RoundTrip
import GlobalAudit.Proofs.RunOutput
import GlobalAudit.Proofs.SharedSources
import GlobalAudit.Proofs.Text
import GlobalAudit.Proofs.Visibility
import GlobalAudit.Proofs.Walk
import GlobalAudit.Proofs.WellFormed
import GlobalAudit.Reference.Facts
import GlobalAudit.Reference.Walk
import GlobalAudit.Shape.Basic
import GlobalAudit.Shape.Json
import GlobalAudit.Text.Basic
import GlobalAudit.Text.Utf8
import GlobalAudit.Text.Wildcard
import GlobalAudit.Tools
import GlobalAudit.Visibility
import GlobalAudit.Proofs.NameChain
import GlobalAudit.Proofs.AliasSettling
import GlobalAudit.Proofs.Dotted
import GlobalAudit.Proofs.OpaqueReceiver
import GlobalAudit.Proofs.PathUpdate
import GlobalAudit.Proofs.Resolution
import GlobalAudit.Proofs.FieldChain
import GlobalAudit.Proofs.Vocabulary
import GlobalAudit.Proofs.MergedPaths
import GlobalAudit.Proofs.NameList
import GlobalAudit.Proofs.EndOfGlobals
import GlobalAudit.Proofs.ReturnedModule
import GlobalAudit.Proofs.RemarkPrinting
import GlobalAudit.Proofs.Wildcard
import GlobalAudit.Proofs.OpenModule
import GlobalAudit.Proofs.Submodules
import GlobalAudit.Proofs.FirstFault
import GlobalAudit.Proofs.RegisterReuse
import GlobalAudit.Proofs.MarkedLocals
import GlobalAudit.Proofs.ByteOrder
import GlobalAudit.Proofs.CrossReference
import GlobalAudit.Proofs.DirectoryWalk
import GlobalAudit.Proofs.OptionSpelling
import GlobalAudit.Proofs.ProbeRecords
import GlobalAudit.Proofs.JsonText
import GlobalAudit.Proofs.CatalogText
import GlobalAudit.Proofs.SlotIndex
import GlobalAudit.Proofs.DeclaredModules
import GlobalAudit.Proofs.PendingAliases
