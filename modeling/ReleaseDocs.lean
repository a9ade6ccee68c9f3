import ReleaseDocs.Branch
import ReleaseDocs.Catalog.Discovery
import ReleaseDocs.Catalog.Metadata
import ReleaseDocs.Config
import ReleaseDocs.Config.Reading
import ReleaseDocs.Config.Selection
import ReleaseDocs.DocUpdate
import ReleaseDocs.Error
import ReleaseDocs.FileTree
import ReleaseDocs.LatestPatch
import ReleaseDocs.Main
import ReleaseDocs.Notice
import ReleaseDocs.Proofs.Announcements
import ReleaseDocs.Proofs.BranchSpelling
import ReleaseDocs.Proofs.CallOrder
import ReleaseDocs.Proofs.CatalogRules
import ReleaseDocs.Proofs.ConfigChoice
import ReleaseDocs.Proofs.ConfigSchema
import ReleaseDocs.Proofs.Consistency
import ReleaseDocs.Proofs.Decimals
import ReleaseDocs.Proofs.Discovery
import ReleaseDocs.Proofs.DocFrame
import ReleaseDocs.Proofs.Encoding
import ReleaseDocs.Proofs.Ending
import ReleaseDocs.Proofs.ExamplePlaces
import ReleaseDocs.Proofs.Faults
import ReleaseDocs.Proofs.FileFrame
import ReleaseDocs.Proofs.FixedPoint
import ReleaseDocs.Proofs.ForeignTags
import ReleaseDocs.Proofs.Hexadecimal
import ReleaseDocs.Proofs.LineByLine
import ReleaseDocs.Proofs.LinkScan
import ReleaseDocs.Proofs.MinorSpelling
import ReleaseDocs.Proofs.OneScan
import ReleaseDocs.Proofs.OtherFunctions
import ReleaseDocs.Proofs.Overwrite
import ReleaseDocs.Proofs.PackageScan
import ReleaseDocs.Proofs.PatchSpelling
import ReleaseDocs.Proofs.Paths
import ReleaseDocs.Proofs.PinPlaces
import ReleaseDocs.Proofs.Pinned
import ReleaseDocs.Proofs.QuotedText
import ReleaseDocs.Proofs.ReadBack
import ReleaseDocs.Proofs.Recorder
import ReleaseDocs.Proofs.Scan
import ReleaseDocs.Proofs.SecondRun
import ReleaseDocs.Proofs.Selection
import ReleaseDocs.Proofs.Session
import ReleaseDocs.Proofs.Settled
import ReleaseDocs.Proofs.SkippedTags
import ReleaseDocs.Proofs.Slots
import ReleaseDocs.Proofs.Stops
import ReleaseDocs.Proofs.TagCut
import ReleaseDocs.Proofs.TagFindings
import ReleaseDocs.Proofs.TagScan
import ReleaseDocs.Proofs.TagSegments
import ReleaseDocs.Proofs.TagSpelling
import ReleaseDocs.Proofs.UpToDate
import ReleaseDocs.Proofs.UpdateNotices
import ReleaseDocs.Proofs.UpdatePass
import ReleaseDocs.Proofs.Upgrade
import ReleaseDocs.Proofs.VersionTokens
import ReleaseDocs.Proofs.Versions
import ReleaseDocs.Proofs.Words
import ReleaseDocs.Reference.CatalogLink
import ReleaseDocs.Reference.Package
import ReleaseDocs.Reference.Piece
import ReleaseDocs.Reference.Rules
import ReleaseDocs.Reference.Tag
import ReleaseDocs.Reference.VersionToken
import ReleaseDocs.Release
import ReleaseDocs.Repository
import ReleaseDocs.Resolution
import ReleaseDocs.Tag
import ReleaseDocs.Text.CharClass
import ReleaseDocs.Text.Digits
import ReleaseDocs.Text.Fields
import ReleaseDocs.Text.Quoted
import ReleaseDocs.Text.Reading
import ReleaseDocs.Text.Utf8
import ReleaseDocs.Toml.Document
import ReleaseDocs.Toml.Inline
import ReleaseDocs.Toml.Moment
import ReleaseDocs.Toml.Number
import ReleaseDocs.Toml.Reader
import ReleaseDocs.Toml.Text
import ReleaseDocs.Toml.Value
import ReleaseDocs.Version
import ReleaseDocs.Workflow
import ReleaseDocs.Yaml.Cursor
import ReleaseDocs.Yaml.Document
import ReleaseDocs.Yaml.Node
import ReleaseDocs.Yaml.Scalar
import ReleaseDocs.Yaml.Token
import ReleaseDocs.Yaml.TokenStream
