import BranchingStory.Analysis
import BranchingStory.Command
import BranchingStory.Command.FileName
import BranchingStory.Command.Outcome
import BranchingStory.Command.Plan
import BranchingStory.Diagnostic
import BranchingStory.Diagnostic.Json
import BranchingStory.Diagnostic.Meaning
import BranchingStory.Diagnostic.Picture
import BranchingStory.Diagnostic.Syntax
import BranchingStory.Dictionary
import BranchingStory.Document
import BranchingStory.Document.Context
import BranchingStory.Document.Cursor
import BranchingStory.Document.Fence
import BranchingStory.Document.FirstLine
import BranchingStory.Document.Read
import BranchingStory.Document.Statements
import BranchingStory.Expr
import BranchingStory.Expr.Nesting
import BranchingStory.Expr.Parse
import BranchingStory.Front
import BranchingStory.Json
import BranchingStory.Json.Print
import BranchingStory.Json.Read
import BranchingStory.Json.Record
import BranchingStory.Json.Scan
import BranchingStory.Main
import BranchingStory.Play.Beat
import BranchingStory.Play.Console
import BranchingStory.Play.Error
import BranchingStory.Play.Opening
import BranchingStory.Play.Page
import BranchingStory.Play.Pick
import BranchingStory.Play.Session
import BranchingStory.Play.SessionJson
import BranchingStory.Play.Transcript
import BranchingStory.Script
import BranchingStory.Script.Json
import BranchingStory.Script.OfDocument
import BranchingStory.Script.Outline
import BranchingStory.Script.Structure
import BranchingStory.Script.Walk
import BranchingStory.Source
import BranchingStory.Source.LineIndex
import BranchingStory.Source.Position
import BranchingStory.Source.PositionJson
import BranchingStory.Source.Span
import BranchingStory.Starter
import BranchingStory.Text.Binary64
import BranchingStory.Text.Blank
import BranchingStory.Text.CaseTable
import BranchingStory.Text.CharRange
import BranchingStory.Text.Digits
import BranchingStory.Text.EmojiTable
import BranchingStory.Text.Escape
import BranchingStory.Text.Joining
import BranchingStory.Text.JoiningTable
import BranchingStory.Text.LineWidth
import BranchingStory.Text.Lowercase
import BranchingStory.Text.Offset
import BranchingStory.Text.Paint
import BranchingStory.Text.Similarity
import BranchingStory.Text.Table
import BranchingStory.Text.Width
import BranchingStory.Text.WidthTable
import BranchingStory.Token
import BranchingStory.Token.Indentation
import BranchingStory.Token.Scan
import BranchingStory.Proofs.Dictionary
import BranchingStory.Proofs.Text.Boundary
import BranchingStory.Proofs.Json.Scanning
import BranchingStory.Proofs.Json.RoundTrip
import BranchingStory.Proofs.Json.Records
import BranchingStory.Proofs.Json.Bounds
import BranchingStory.Proofs.Source.Lines
import BranchingStory.Proofs.Source.Excerpts
import BranchingStory.Proofs.Token.Placement
import BranchingStory.Proofs.Document.Statements
import BranchingStory.Proofs.Document.Cursors
import BranchingStory.Proofs.Document.Entries
import BranchingStory.Proofs.Document.Readings
import BranchingStory.Proofs.Document.Placement
import BranchingStory.Proofs.Token.Shape
import BranchingStory.Proofs.Token.Levels
import BranchingStory.Proofs.Expr.Grammar
import BranchingStory.Proofs.Expr.Reading
import BranchingStory.Proofs.Expr.Phrases
import BranchingStory.Proofs.Expr.Nesting
import BranchingStory.Proofs.Document.Grammar
import BranchingStory.Proofs.Document.Operands
import BranchingStory.Proofs.Document.Lines
import BranchingStory.Proofs.Document.Openings
import BranchingStory.Proofs.Document.Passages
import BranchingStory.Proofs.Document.Fences
import BranchingStory.Proofs.Document.Manuscripts
import BranchingStory.Proofs.Document.Trees
import BranchingStory.Proofs.Document.Origins
import BranchingStory.Proofs.Script.Making
import BranchingStory.Proofs.Script.Walk
import BranchingStory.Proofs.Script.Stored
import BranchingStory.Proofs.Script.Loading
import BranchingStory.Proofs.Script.Reloading
import BranchingStory.Proofs.Script.Nesting
import BranchingStory.Proofs.Script.Targets
import BranchingStory.Proofs.Diagnostic.Findings
import BranchingStory.Proofs.Script.Declarations
import BranchingStory.Proofs.Script.Bodies
import BranchingStory.Proofs.Diagnostic.Siblings
import BranchingStory.Proofs.Diagnostic.Ranges
import BranchingStory.Proofs.Script.Faults
import BranchingStory.Proofs.Script.Options
import BranchingStory.Proofs.Play.Stored
import BranchingStory.Proofs.Play.Runs
import BranchingStory.Proofs.Play.Targets
import BranchingStory.Proofs.Play.Bodies
import BranchingStory.Proofs.Play.Counting
import BranchingStory.Proofs.Play.Starting
import BranchingStory.Proofs.Script.Order
import BranchingStory.Proofs.Script.Places
import BranchingStory.Proofs.Diagnostic.Collisions
import BranchingStory.Proofs.Play.Openings
import BranchingStory.Proofs.Play.Picking
import BranchingStory.Proofs.Play.InPlace
import BranchingStory.Proofs.Play.Replays
import BranchingStory.Proofs.Play.Saved
import BranchingStory.Proofs.Token.Writing
import BranchingStory.Proofs.Token.Scanning
import BranchingStory.Proofs.Token.Pieces
import BranchingStory.Proofs.Token.Rows
import BranchingStory.Proofs.Token.Gaps
import BranchingStory.Proofs.Token.Cutting
import BranchingStory.Proofs.Token.Parentheses
import BranchingStory.Proofs.Token.Margins
import BranchingStory.Proofs.Token.Comments
import BranchingStory.Proofs.Token.Outlines
import BranchingStory.Proofs.Document.Respelling
import BranchingStory.Proofs.Expr.Relocation
import BranchingStory.Proofs.Expr.Shifting
import BranchingStory.Proofs.Document.Relocation
import BranchingStory.Proofs.Document.Rounds
import BranchingStory.Proofs.Document.Twins
import BranchingStory.Proofs.Document.TwinDocuments
import BranchingStory.Proofs.Token.BlankLines
import BranchingStory.Proofs.Document.BlankLines
import BranchingStory.Proofs.Token.Sheets
import BranchingStory.Proofs.Document.Sheets
import BranchingStory.Proofs.Starter.Lines
import BranchingStory.Proofs.Document.Gaps
import BranchingStory.Proofs.Document.Junk
import BranchingStory.Proofs.Token.Spacing
import BranchingStory.Proofs.Document.Spacing
import BranchingStory.Proofs.Document.Clauses
import BranchingStory.Proofs.Script.Rereading
import BranchingStory.Proofs.Script.Conjunctions
import BranchingStory.Proofs.Diagnostic.Distinct
import BranchingStory.Proofs.Draft.Drafts
import BranchingStory.Proofs.Draft.Formulas
import BranchingStory.Proofs.Draft.Lines
import BranchingStory.Proofs.Draft.Passages
import BranchingStory.Proofs.Draft.Bodies
import BranchingStory.Proofs.Draft.Declarations
import BranchingStory.Proofs.Draft.RoundTrip
import BranchingStory.Proofs.Script.Settings
import BranchingStory.Proofs.Play.SettingLines
import BranchingStory.Proofs.Play.Settings
import BranchingStory.Proofs.Starter.Story
import BranchingStory.Proofs.Expr.Descents
import BranchingStory.Proofs.Play.Restored
import BranchingStory.Proofs.Source.Positions
import BranchingStory.Proofs.Starter.Fresh
import BranchingStory.Proofs.Diagnostic.Sequence
import BranchingStory.Proofs.Token.Literals
import BranchingStory.Proofs.Document.Progress
