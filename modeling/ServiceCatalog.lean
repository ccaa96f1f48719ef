import ServiceCatalog.Archive.Basic
import ServiceCatalog.Archive.Bits
import ServiceCatalog.Archive.Checksum
import ServiceCatalog.Archive.Inflate
import ServiceCatalog.Archive.PrefixCode
import ServiceCatalog.ClassFile.Builder
import ServiceCatalog.ClassFile.Layout
import ServiceCatalog.Command.Arguments
import ServiceCatalog.Diagnostic
import ServiceCatalog.Files.Tree
import ServiceCatalog.Main
import ServiceCatalog.Parse.Buffered
import ServiceCatalog.Proofs.Chain
import ServiceCatalog.Proofs.ClassFile.Addressing
import ServiceCatalog.Proofs.ClassFile.Elements
import ServiceCatalog.Proofs.ClassFile.Hidden
import ServiceCatalog.Proofs.ClassFile.Layout
import ServiceCatalog.Proofs.ClassFile.Pool
import ServiceCatalog.Proofs.ClassFile.RoundTrip
import ServiceCatalog.Proofs.ClassFile.Texts
import ServiceCatalog.Proofs.ClassFile.Truncation
import ServiceCatalog.Proofs.ClassFile.Values
import ServiceCatalog.Proofs.Command.Options
import ServiceCatalog.Proofs.Files.Path
import ServiceCatalog.Proofs.Files.Tree
import ServiceCatalog.Proofs.Name.Forms
import ServiceCatalog.Proofs.Name.Written
import ServiceCatalog.Proofs.Parse.AnchoredFiles
import ServiceCatalog.Proofs.Parse.AnchoredHeads
import ServiceCatalog.Proofs.Parse.AnchoredTypes
import ServiceCatalog.Proofs.Parse.Anchors
import ServiceCatalog.Proofs.Parse.BracketLanguage
import ServiceCatalog.Proofs.Parse.Brackets
import ServiceCatalog.Proofs.Parse.BufferedTypes
import ServiceCatalog.Proofs.Parse.Calls
import ServiceCatalog.Proofs.Parse.Companion
import ServiceCatalog.Proofs.Parse.Constructs
import ServiceCatalog.Proofs.Parse.Directives
import ServiceCatalog.Proofs.Parse.Form
import ServiceCatalog.Proofs.Parse.Forward
import ServiceCatalog.Proofs.Parse.Heads
import ServiceCatalog.Proofs.Parse.Layout
import ServiceCatalog.Proofs.Parse.Loops
import ServiceCatalog.Proofs.Parse.MemberInsertion
import ServiceCatalog.Proofs.Parse.Members
import ServiceCatalog.Proofs.Parse.Nesting
import ServiceCatalog.Proofs.Parse.Passing
import ServiceCatalog.Proofs.Parse.PrintedForm
import ServiceCatalog.Proofs.Parse.PrintedRoundTrip
import ServiceCatalog.Proofs.Parse.Progress
import ServiceCatalog.Proofs.Parse.Reading
import ServiceCatalog.Proofs.Parse.RoundTrip
import ServiceCatalog.Proofs.Parse.SkippedMember
import ServiceCatalog.Proofs.Parse.Steps
import ServiceCatalog.Proofs.Parse.Termination
import ServiceCatalog.Proofs.Parse.Variance
import ServiceCatalog.Proofs.Parse.WrittenHeads
import ServiceCatalog.Proofs.Parse.WrittenTypes
import ServiceCatalog.Proofs.Parse.Yields
import ServiceCatalog.Proofs.Providers.Analysis
import ServiceCatalog.Proofs.Providers.Arguments
import ServiceCatalog.Proofs.Providers.Compiled
import ServiceCatalog.Proofs.Providers.Extraction
import ServiceCatalog.Proofs.Providers.Kinds
import ServiceCatalog.Proofs.Providers.Mapping
import ServiceCatalog.Proofs.Providers.OrderIndependence
import ServiceCatalog.Proofs.Registry.AliasChain
import ServiceCatalog.Proofs.Registry.BreadthFirst
import ServiceCatalog.Proofs.Registry.Calls
import ServiceCatalog.Proofs.Registry.Hierarchy
import ServiceCatalog.Proofs.Registry.Lookup
import ServiceCatalog.Proofs.Registry.PackageGraph
import ServiceCatalog.Proofs.Registry.PackageTree
import ServiceCatalog.Proofs.Registry.Precedence
import ServiceCatalog.Proofs.Registry.SupertypeStore
import ServiceCatalog.Proofs.Resolve.Agreement
import ServiceCatalog.Proofs.Resolve.NestedClass
import ServiceCatalog.Proofs.Resolve.Renaming
import ServiceCatalog.Proofs.Resolve.Repetition
import ServiceCatalog.Proofs.Resolve.Shapes
import ServiceCatalog.Proofs.Resolve.UnrelatedClass
import ServiceCatalog.Proofs.Run.Command
import ServiceCatalog.Proofs.Run.Confinement
import ServiceCatalog.Proofs.Run.Manifest
import ServiceCatalog.Proofs.Run.Output
import ServiceCatalog.Proofs.Source.Detection
import ServiceCatalog.Proofs.Source.Identity
import ServiceCatalog.Proofs.Source.LevelOrder
import ServiceCatalog.Proofs.Source.LinkAgreement
import ServiceCatalog.Proofs.Source.LinkFixpoint
import ServiceCatalog.Proofs.Source.Linking
import ServiceCatalog.Proofs.Source.OrderIndependence
import ServiceCatalog.Proofs.Source.Placed
import ServiceCatalog.Proofs.Source.Redeclaration
import ServiceCatalog.Proofs.Source.Registration
import ServiceCatalog.Proofs.Source.Shadowing
import ServiceCatalog.Proofs.Token.Enclosure
import ServiceCatalog.Proofs.Token.Literal
import ServiceCatalog.Proofs.Token.Lossless
import ServiceCatalog.Proofs.Token.Order
import ServiceCatalog.Proofs.Token.Printed
import ServiceCatalog.Proofs.Token.Separators
import ServiceCatalog.Proofs.Token.Spelling
import ServiceCatalog.Proofs.Token.Template
import ServiceCatalog.Providers.ClassPath
import ServiceCatalog.Providers.FromClasses
import ServiceCatalog.Providers.FromSources
import ServiceCatalog.Registry.Call
import ServiceCatalog.Registry.DirectedGraph
import ServiceCatalog.Registry.LabelledGraph
import ServiceCatalog.Registry.PackageGraph
import ServiceCatalog.Registry.Platform
import ServiceCatalog.Registry.SupertypeStore
import ServiceCatalog.Run.Basic
import ServiceCatalog.Run.Error
import ServiceCatalog.Run.Input
import ServiceCatalog.Run.Manifest
import ServiceCatalog.Source.Basic
import ServiceCatalog.Source.Pass
import ServiceCatalog.Source.Queue
import ServiceCatalog.Token.Reader
