import ClassSieve.ClassFile.Draft
import ClassSieve.ClassFile.Json
import ClassSieve.Files.Tree
import ClassSieve.Main
import ClassSieve.Proofs.Text.ModifiedUtf8
import ClassSieve.Proofs.Cache.Transparency
import ClassSieve.Proofs.Rules.Shortcuts
import ClassSieve.Proofs.ClassFile.RoundTrip
import ClassSieve.Proofs.Cache.Classes
import ClassSieve.Proofs.Cache.Uses
import ClassSieve.Proofs.Cache.Capacity
import ClassSieve.Proofs.Cache.Recency
import ClassSieve.Proofs.Cache.Registration
import ClassSieve.Proofs.Cache.Retirement
import ClassSieve.Proofs.Archive.EntryNames
import ClassSieve.Proofs.Scan.ArchiveRows
import ClassSieve.Proofs.Scan.Leftovers
import ClassSieve.Proofs.Rules.JsonForms
import ClassSieve.Proofs.Pattern.Lookup
import ClassSieve.Proofs.ClassFile.Extension
import ClassSieve.Proofs.ClassFile.Extraction
import ClassSieve.Proofs.Pattern.NameDecision
import ClassSieve.Proofs.Cache.Accounting
import ClassSieve.Proofs.Cache.ParseEconomy
import ClassSieve.Proofs.Loaders.Handles
import ClassSieve.Proofs.Cache.Separation
import ClassSieve.Proofs.Descriptor.ReturnTypes
import ClassSieve.Proofs.Descriptor.SourceTypes
import ClassSieve.Proofs.ClassFile.TextDecoding
import ClassSieve.Proofs.ClassFile.PoolIndexing
import ClassSieve.Proofs.ClassFile.NestingLimit
import ClassSieve.Proofs.Rules.Respelling
import ClassSieve.Proofs.Rules.LineReading
import ClassSieve.Proofs.Pattern.Spelling
import ClassSieve.Proofs.Loaders.SlotReuse
import ClassSieve.Proofs.Pattern.Shape
import ClassSieve.Proofs.ClassFile.Bounds
