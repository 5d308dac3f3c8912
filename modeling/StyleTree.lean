import StyleTree.Text.Basic
import StyleTree.Text.Blank
import StyleTree.Text.Uppercase
import StyleTree.Text.Quoting
import StyleTree.Text.Nesting
import StyleTree.Text.Bytes
import StyleTree.Decimal.Shortest
import StyleTree.Entries
import StyleTree.Json.Document
import StyleTree.Json.Lexeme
import StyleTree.Json.Read
import StyleTree.Json.Data
import StyleTree.Style.Value
import StyleTree.Style.Decode
import StyleTree.Style.Property
import StyleTree.Style.Declaration
import StyleTree.Style.Item
import StyleTree.Style.Tokens
import StyleTree.Selector
import StyleTree.Query
import StyleTree.Skipped
import StyleTree.Rule
import StyleTree.Report
import StyleTree.Compile
import StyleTree.Css.Collapse
import StyleTree.Css.Node
import StyleTree.Css.Parse
import StyleTree.Css.Prune
import StyleTree.Css.Dedupe
import StyleTree.Css.Offsets
import StyleTree.Assemble
import StyleTree.Theme
import StyleTree.Bundle
import StyleTree.Build.Path
import StyleTree.Build.Files
import StyleTree.Build.Manifest
import StyleTree.Build.Run
import StyleTree.Main
import StyleTree.Proofs.Text.Scan
import StyleTree.Proofs.Text.Trim
import StyleTree.Proofs.Text.Split
import StyleTree.Proofs.Text.Parts
import StyleTree.Proofs.Text.Bytes
import StyleTree.Proofs.Text.Spaced
import StyleTree.Proofs.Style.Keys
import StyleTree.Proofs.Walk.Placement
import StyleTree.Proofs.Walk.Scope
import StyleTree.Proofs.Css.Cascade
import StyleTree.Proofs.Css.Override
import StyleTree.Proofs.Text.Closed
import StyleTree.Proofs.Css.RoundTrip
import StyleTree.Proofs.Css.Collapsed
import StyleTree.Proofs.Css.Deduped
import StyleTree.Proofs.Css.Printed
import StyleTree.Proofs.Sheet.Emitted
import StyleTree.Proofs.Sheet.Winners
import StyleTree.Proofs.Css.Joined
import StyleTree.Proofs.Query.Merge
import StyleTree.Proofs.Walk.Guard
import StyleTree.Proofs.Query.Alternatives
import StyleTree.Proofs.Walk.Congruence
import StyleTree.Proofs.Walk.SelfForm
import StyleTree.Proofs.Query.Conjunction
import StyleTree.Proofs.Text.CommaList
import StyleTree.Proofs.Selector.Product
import StyleTree.Proofs.Query.Nested
import StyleTree.Proofs.Query.Operators
import StyleTree.Proofs.Entries.LastWins
import StyleTree.Proofs.Tokens.Declared
import StyleTree.Proofs.Tokens.Names
import StyleTree.Proofs.Tokens.Blocks
import StyleTree.Proofs.Walk.Cleaned
import StyleTree.Proofs.Fault
import StyleTree.Proofs.Bundle.Strict
import StyleTree.Proofs.Build.Steps
import StyleTree.Proofs.Build.Written
import StyleTree.Proofs.Build.AllOrNothing
import StyleTree.Proofs.Build.Lookup
import StyleTree.Proofs.Entries.History
import StyleTree.Proofs.Style.Decoded
import StyleTree.Proofs.Css.Runs
import StyleTree.Proofs.Query.Normal
import StyleTree.Proofs.Css.Tokens
import StyleTree.Proofs.Walk.SameRules
import StyleTree.Proofs.Walk.Reordered
import StyleTree.Proofs.Css.Reread
import StyleTree.Proofs.Css.Offsets
import StyleTree.Proofs.Css.Twice
import StyleTree.Proofs.Walk.Edited
import StyleTree.Proofs.Walk.TrimmedKeys
import StyleTree.Proofs.Sheet.Nulls
