import GraphLanguages.CommandLine
import GraphLanguages.Completion.Context
import GraphLanguages.Completion.Cursor
import GraphLanguages.Completion.Data
import GraphLanguages.Completion.Items
import GraphLanguages.Completion.Payload
import GraphLanguages.Completion.Suggestion
import GraphLanguages.Diagnostics
import GraphLanguages.Documents
import GraphLanguages.Folding
import GraphLanguages.Frontend
import GraphLanguages.Grammar.Phrase
import GraphLanguages.Grammar.Run
import GraphLanguages.Hover
import GraphLanguages.Json.Basic
import GraphLanguages.Json.Numeral
import GraphLanguages.Json.Printer
import GraphLanguages.Json.Reader
import GraphLanguages.Json.Record
import GraphLanguages.Language
import GraphLanguages.Languages.GraphQL
import GraphLanguages.Languages.Rdf
import GraphLanguages.Languages.Shacl
import GraphLanguages.Languages.Sparql
import GraphLanguages.Languages.Sparql.Expression
import GraphLanguages.Languages.Sparql.Pattern
import GraphLanguages.Languages.Sparql.Suggestions
import GraphLanguages.Languages.Sparql.Vocabulary
import GraphLanguages.Languages.Turtle
import GraphLanguages.Lexer
import GraphLanguages.Namespaces
import GraphLanguages.Number.Double
import GraphLanguages.Number.Shortest
import GraphLanguages.Options
import GraphLanguages.ParseCache
import GraphLanguages.ParseOutput
import GraphLanguages.Profile
import GraphLanguages.Rpc.Message
import GraphLanguages.Rpc.Shape
import GraphLanguages.Server.Answer
import GraphLanguages.Server.Connection
import GraphLanguages.Server.Method
import GraphLanguages.Server.Session
import GraphLanguages.SyntaxError
import GraphLanguages.Text.AsciiCase
import GraphLanguages.Text.Blank
import GraphLanguages.Text.Bytes
import GraphLanguages.Text.Escape
import GraphLanguages.Text.LineIndex
import GraphLanguages.Text.Lines
import GraphLanguages.Text.Numeral
import GraphLanguages.Text.Quoted
import GraphLanguages.Text.Regex
import GraphLanguages.Token
import GraphLanguages.Transport.Frame
import GraphLanguages.Transport.NodeChannel
import GraphLanguages.Tree
import GraphLanguages.Unicode.Alphabetic
import GraphLanguages.Unicode.Alphanumeric
import GraphLanguages.Unicode.Letter
import GraphLanguages.Unicode.Lowercase
import GraphLanguages.Unicode.Printable
import GraphLanguages.Unicode.Range
import GraphLanguages.Unicode.Space
import GraphLanguages.Unicode.Word
import GraphLanguages.Uri
import GraphLanguages.Vocabulary
import GraphLanguages.Main
import GraphLanguages.Proofs.Vocabulary
import GraphLanguages.Proofs.Text.Bytes
import GraphLanguages.Proofs.Text.Escape
import GraphLanguages.Proofs.Grammar.Lookahead
import GraphLanguages.Proofs.Grammar.Runs
import GraphLanguages.Proofs.Grammar.Fuel
import GraphLanguages.Proofs.Grammar.Progress
import GraphLanguages.Proofs.Grammar.Forest
import GraphLanguages.Proofs.Grammar.ParseTree
import GraphLanguages.Proofs.Grammar.InStep
import GraphLanguages.Proofs.Grammar.Parallel
import GraphLanguages.Proofs.Grammar.Attentive
import GraphLanguages.Proofs.Grammar.Words
import GraphLanguages.Proofs.Grammar.Promises
import GraphLanguages.Proofs.Grammar.Kept
import GraphLanguages.Proofs.Grammar.Steady
import GraphLanguages.Proofs.Grammar.Operations
import GraphLanguages.Proofs.Languages
import GraphLanguages.Proofs.Lexer
import GraphLanguages.Proofs.Parsing
import GraphLanguages.Proofs.Assist
import GraphLanguages.Proofs.ParseOutput
import GraphLanguages.Proofs.Documents
import GraphLanguages.Proofs.Server.Calls
import GraphLanguages.Proofs.Server.History
import GraphLanguages.Proofs.Grammar.Form
import GraphLanguages.Proofs.Grammar.Outlook
import GraphLanguages.Proofs.Grammar.Productions
import GraphLanguages.Proofs.Grammar.Predictive
import GraphLanguages.Proofs.Turtle
import GraphLanguages.Proofs.GraphQL
import GraphLanguages.Proofs.Grammar.Marks
import GraphLanguages.Proofs.Grammar.Bearings
import GraphLanguages.Proofs.Grammar.Hints
import GraphLanguages.Proofs.Grammar.Breaks
import GraphLanguages.Proofs.Completion.Cursor
import GraphLanguages.Proofs.Sparql.Relationships
import GraphLanguages.Proofs.Completion.LongerWords
import GraphLanguages.Proofs.Lexer.Longest
import GraphLanguages.Proofs.Grammar.Placement
import GraphLanguages.Proofs.Grammar.Widen
import GraphLanguages.Proofs.Sparql.Dialects
import GraphLanguages.Proofs.GraphQL.Assist
import GraphLanguages.Proofs.Grammar.Fusion
import GraphLanguages.Proofs.GraphQL.Dialects
import GraphLanguages.Proofs.PrefixedNames
import GraphLanguages.Proofs.Grammar.Reads
import GraphLanguages.Proofs.Grammar.Sparing
import GraphLanguages.Proofs.Text.Encoding
import GraphLanguages.Proofs.Decoding
import GraphLanguages.Proofs.Unrecognized
import GraphLanguages.Proofs.Turtle.Flavours
import GraphLanguages.Proofs.Text.Cutting
import GraphLanguages.Proofs.Lexer.Patterns
import GraphLanguages.Proofs.Lexer.Lossless
import GraphLanguages.Proofs.Text.Positions
import GraphLanguages.Proofs.Documents.Interleaving
import GraphLanguages.Proofs.Diagnostics
import GraphLanguages.Proofs.Completion.Edits
import GraphLanguages.Proofs.Server.Sessions
import GraphLanguages.Proofs.Text.Lines
import GraphLanguages.Proofs.Folding
import GraphLanguages.Proofs.Completion.Updates
import GraphLanguages.Proofs.Hover
import GraphLanguages.Proofs.Text.AnyCase
import GraphLanguages.Proofs.Lexer.AnyCase
import GraphLanguages.Proofs.Grammar.Related
import GraphLanguages.Proofs.Sparql.AnyCase
import GraphLanguages.Proofs.Text.Numeral
import GraphLanguages.Proofs.Text.Blank
import GraphLanguages.Proofs.Completion.Ranking
import GraphLanguages.Proofs.Transport.Encoding
import GraphLanguages.Proofs.Transport.Header
import GraphLanguages.Proofs.Transport.Frame
import GraphLanguages.Proofs.Transport.NodeChannel
import GraphLanguages.Proofs.Text.Reach
import GraphLanguages.Proofs.Lexer.Reach
import GraphLanguages.Proofs.Lexer.Delimited
import GraphLanguages.Proofs.Lexer.Blanks
import GraphLanguages.Proofs.Lexer.Comments
import GraphLanguages.Proofs.Comments
import GraphLanguages.Proofs.Grammar.Consumes
import GraphLanguages.Proofs.InsertData.Forms
import GraphLanguages.Proofs.InsertData.Rules
import GraphLanguages.Proofs.Folding.Blocks
import GraphLanguages.Proofs.Grammar.Building
import GraphLanguages.Proofs.InsertData.Documents
import GraphLanguages.Proofs.Sparql.Expressions
import GraphLanguages.Proofs.Sparql.Types
import GraphLanguages.Proofs.Folding.Nesting
import GraphLanguages.Proofs.Transport.Order
import GraphLanguages.Proofs.Namespaces
import GraphLanguages.Proofs.Completion.Offers
import GraphLanguages.Proofs.Images
import GraphLanguages.Proofs.Turtle.Prefixes
import GraphLanguages.Proofs.Shacl
import GraphLanguages.Proofs.Sparql.Suggestions
import GraphLanguages.Proofs.Namespaces.Rows
