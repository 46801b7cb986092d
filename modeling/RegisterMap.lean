import RegisterMap.Access
import RegisterMap.Access.Combination
import RegisterMap.AddressBlock
import RegisterMap.Bits
import RegisterMap.CText
import RegisterMap.CommandLine
import RegisterMap.Datum
import RegisterMap.Datum.Json
import RegisterMap.Description.Devices
import RegisterMap.Description.Dialect
import RegisterMap.Description.Registers
import RegisterMap.Device
import RegisterMap.Element
import RegisterMap.Enumeration
import RegisterMap.Failure
import RegisterMap.Field
import RegisterMap.Format
import RegisterMap.Generation
import RegisterMap.Header
import RegisterMap.Header.AccessMacros
import RegisterMap.Header.FieldMacros
import RegisterMap.Header.MacroNames
import RegisterMap.Header.Member
import RegisterMap.Header.Part
import RegisterMap.Header.Vectors
import RegisterMap.Interrupt
import RegisterMap.Layout
import RegisterMap.Main
import RegisterMap.Numeral
import RegisterMap.Outcome
import RegisterMap.Pattern
import RegisterMap.Peripheral
import RegisterMap.Placeholder
import RegisterMap.Proofs.Arrays.Blocks
import RegisterMap.Proofs.Arrays.Clashes
import RegisterMap.Proofs.Arrays.Everywhere
import RegisterMap.Proofs.Arrays.Folding
import RegisterMap.Proofs.Arrays.Names
import RegisterMap.Proofs.Arrays.Remaining
import RegisterMap.Proofs.Arrays.Rest
import RegisterMap.Proofs.Arrays.Shown
import RegisterMap.Proofs.Arrays.Steps
import RegisterMap.Proofs.Arrays.Words
import RegisterMap.Proofs.Blocks.Arrival
import RegisterMap.Proofs.Blocks.Coalescing
import RegisterMap.Proofs.Blocks.Coverage
import RegisterMap.Proofs.Blocks.FixedPoint
import RegisterMap.Proofs.Blocks.Footprint
import RegisterMap.Proofs.Blocks.Isolation
import RegisterMap.Proofs.Blocks.Separation
import RegisterMap.Proofs.Blocks.Walk
import RegisterMap.Proofs.Blocks.Widths
import RegisterMap.Proofs.Clusters.Checked
import RegisterMap.Proofs.Clusters.Grouping
import RegisterMap.Proofs.Clusters.Layout
import RegisterMap.Proofs.Clusters.Leftovers
import RegisterMap.Proofs.Clusters.Members
import RegisterMap.Proofs.Clusters.Starts
import RegisterMap.Proofs.Collection
import RegisterMap.Proofs.Comments.Descriptions
import RegisterMap.Proofs.Comments.Lines
import RegisterMap.Proofs.Comments.Macros
import RegisterMap.Proofs.Comments.Members
import RegisterMap.Proofs.Comments.Names
import RegisterMap.Proofs.Comments.Reader
import RegisterMap.Proofs.Comments.Texts
import RegisterMap.Proofs.Comments.Undescribed
import RegisterMap.Proofs.CommonNames
import RegisterMap.Proofs.Derivation
import RegisterMap.Proofs.Descent
import RegisterMap.Proofs.Description.Devices
import RegisterMap.Proofs.Description.Records
import RegisterMap.Proofs.Description.Registers
import RegisterMap.Proofs.Description.RoundTrip
import RegisterMap.Proofs.Element
import RegisterMap.Proofs.Ensures
import RegisterMap.Proofs.Equivalence
import RegisterMap.Proofs.FieldBits
import RegisterMap.Proofs.Fields.Admission
import RegisterMap.Proofs.Fields.Enumerations
import RegisterMap.Proofs.Fields.Faults
import RegisterMap.Proofs.Fields.Folding
import RegisterMap.Proofs.Fields.Reading
import RegisterMap.Proofs.Fields.Sharing
import RegisterMap.Proofs.Fields.Spelling
import RegisterMap.Proofs.Header.AccessMacros
import RegisterMap.Proofs.Header.Declared
import RegisterMap.Proofs.Header.Definitions
import RegisterMap.Proofs.Header.FieldLines
import RegisterMap.Proofs.Header.FieldMacros
import RegisterMap.Proofs.Header.Lines
import RegisterMap.Proofs.Header.Mapping
import RegisterMap.Proofs.Header.MemberNames
import RegisterMap.Proofs.Header.Paths
import RegisterMap.Proofs.Header.Placement
import RegisterMap.Proofs.Header.Redefinition
import RegisterMap.Proofs.Header.Reordering
import RegisterMap.Proofs.Header.Typedefs
import RegisterMap.Proofs.Idempotence
import RegisterMap.Proofs.Instance
import RegisterMap.Proofs.Json
import RegisterMap.Proofs.KeptNames
import RegisterMap.Proofs.Layout.Arrangement
import RegisterMap.Proofs.Layout.Bodies
import RegisterMap.Proofs.Layout.Declarable
import RegisterMap.Proofs.Layout.Groups
import RegisterMap.Proofs.Layout.Leaves
import RegisterMap.Proofs.Layout.Obstacles
import RegisterMap.Proofs.Layout.Outline
import RegisterMap.Proofs.Layout.Places
import RegisterMap.Proofs.Layout.Proper
import RegisterMap.Proofs.Layout.Relabelling
import RegisterMap.Proofs.Layout.Sharing
import RegisterMap.Proofs.Layout.Shortening
import RegisterMap.Proofs.Layout.Shown
import RegisterMap.Proofs.Layout.Tiling
import RegisterMap.Proofs.Numeral
import RegisterMap.Proofs.Numeral.Spelling
import RegisterMap.Proofs.Order
import RegisterMap.Proofs.Pattern
import RegisterMap.Proofs.Placeholder
import RegisterMap.Proofs.Prefix
import RegisterMap.Proofs.Prefix.Bytes
import RegisterMap.Proofs.Prefix.Indexes
import RegisterMap.Proofs.Reduced
import RegisterMap.Proofs.Reordering
import RegisterMap.Proofs.Repeats
import RegisterMap.Proofs.Sorting
import RegisterMap.Proofs.Sources
import RegisterMap.Proofs.Stages
import RegisterMap.Proofs.Success
import RegisterMap.Proofs.Svd.Content
import RegisterMap.Proofs.Svd.Copies
import RegisterMap.Proofs.Svd.Derived
import RegisterMap.Proofs.Svd.Device
import RegisterMap.Proofs.Svd.Element
import RegisterMap.Proofs.Svd.Extensions
import RegisterMap.Proofs.Svd.Field
import RegisterMap.Proofs.Svd.Legible
import RegisterMap.Proofs.Svd.Numbering
import RegisterMap.Proofs.Svd.Peripheral
import RegisterMap.Proofs.Svd.Register
import RegisterMap.Proofs.Svd.Underived
import RegisterMap.Proofs.Svd.Validity
import RegisterMap.Proofs.Svd.Values
import RegisterMap.Proofs.Svd.WellFormed
import RegisterMap.Proofs.Text
import RegisterMap.Proofs.Twins
import RegisterMap.Proofs.Validity
import RegisterMap.Proofs.Vectors
import RegisterMap.Proofs.Xml.Document
import RegisterMap.Proofs.Xml.Escape
import RegisterMap.Proofs.Xml.Spelling
import RegisterMap.Proofs.Xml.Token
import RegisterMap.Reduction
import RegisterMap.Reduction.Arrays
import RegisterMap.Reduction.Clusters
import RegisterMap.Reduction.CommonPrefix
import RegisterMap.Reduction.Derivation
import RegisterMap.Register
import RegisterMap.Settings
import RegisterMap.Svd.Content
import RegisterMap.Svd.Device
import RegisterMap.Svd.Field
import RegisterMap.Svd.Peripheral
import RegisterMap.Svd.Register
import RegisterMap.Text.Blank
import RegisterMap.Text.Case
import RegisterMap.Text.CaseTable
import RegisterMap.Text.Digit
import RegisterMap.Text.Edit
import RegisterMap.Xml.Character
import RegisterMap.Xml.Document
import RegisterMap.Xml.Node
import RegisterMap.Xml.Token
import RegisterMap.Yaml.Block
import RegisterMap.Yaml.Character
import RegisterMap.Yaml.Glyph
import RegisterMap.Yaml.Node
import RegisterMap.Yaml.Plain
import RegisterMap.Yaml.Printer
import RegisterMap.Yaml.Property
import RegisterMap.Yaml.Quoted
import RegisterMap.Yaml.Reader
import RegisterMap.Yaml.Scalar
import RegisterMap.Yaml.Token
