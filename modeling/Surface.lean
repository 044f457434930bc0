import Surface.Event.Expectation
import Surface.Main
import Surface.Proofs.CommandLine.Run
import Surface.Proofs.Declaration.Canonical
import Surface.Proofs.Declaration.Grammar
import Surface.Proofs.Declaration.Initializer
import Surface.Proofs.Declaration.Modifiers
import Surface.Proofs.Declaration.Offsets
import Surface.Proofs.Declaration.Shape
import Surface.Proofs.Declaration.Stripping
import Surface.Proofs.Declaration.Surroundings
import Surface.Proofs.Declaration.Variants
import Surface.Proofs.Declaration.Written
import Surface.Proofs.Disk.Content
import Surface.Proofs.Disk.Encounters
import Surface.Proofs.Disk.Writing
import Surface.Proofs.Display
import Surface.Proofs.Event
import Surface.Proofs.Listing.Entries
import Surface.Proofs.Listing.Frame
import Surface.Proofs.Listing.Layout
import Surface.Proofs.Listing.Outline
import Surface.Proofs.Listing.Reached
import Surface.Proofs.Listing.Rearrangement
import Surface.Proofs.Listing.Refusal
import Surface.Proofs.Listing.Relisting
import Surface.Proofs.Listing.Repeats
import Surface.Proofs.Markdown
import Surface.Proofs.Markdown.SectionOrder
import Surface.Proofs.Markdown.Sections
import Surface.Proofs.Markdown.Values
import Surface.Proofs.Offsets
import Surface.Proofs.Report.Accounting
import Surface.Proofs.Report.Edit
import Surface.Proofs.Report.Exactness
import Surface.Proofs.Report.Json
import Surface.Proofs.Report.Locality
import Surface.Proofs.Report.Order
import Surface.Proofs.Report.Patch
import Surface.Proofs.Report.Plain
import Surface.Proofs.Report.Reversal
import Surface.Proofs.Report.WholeClasses
import Surface.Proofs.Run
import Surface.Proofs.Simplifier
import Surface.Proofs.Simplifier.NormalForm
import Surface.Proofs.Simplifier.Offsets
import Surface.Proofs.Simplifier.Tokens
import Surface.Proofs.Snapshot
import Surface.Proofs.Snapshot.Events
import Surface.Proofs.SymbolTable.Insertions
import Surface.Proofs.Text.Cuts
import Surface.Proofs.Text.FilledLines
import Surface.Proofs.Text.Gaps
import Surface.Proofs.Text.Lines
import Surface.Proofs.Text.Offsets
import Surface.Report.Patch
import Surface.Text.Slice
