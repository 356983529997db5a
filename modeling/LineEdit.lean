import LineEdit.Action
import LineEdit.Buffer
import LineEdit.Completion
import LineEdit.Completion.Completer
import LineEdit.Completion.Query
import LineEdit.Completion.Vocabulary
import LineEdit.Console
import LineEdit.Console.Faulty
import LineEdit.Console.Screen
import LineEdit.Direction
import LineEdit.DirectoryHistory
import LineEdit.Editor
import LineEdit.File
import LineEdit.FolderTree
import LineEdit.History
import LineEdit.History.Archive
import LineEdit.Key
import LineEdit.KeyQueue
import LineEdit.Keymap
import LineEdit.Painter
import LineEdit.Path
import LineEdit.Session
import LineEdit.Settings
import LineEdit.Settings.Document
import LineEdit.Text.Compare
import LineEdit.Text.Control
import LineEdit.Text.Lines
import LineEdit.Text.Lowercase
import LineEdit.Text.Lowercase.Table
import LineEdit.Text.Offset
import LineEdit.Text.Substitute
import LineEdit.Text.Whitespace
import LineEdit.Word
import LineEdit.Word.Command
import LineEdit.Word.Quote
import LineEdit.Word.Split
import LineEdit.WorkingDirectory
import LineEdit.Yaml.Decode
import LineEdit.Yaml.Node
import LineEdit.Yaml.Scalar
import LineEdit.Yaml.Source
import LineEdit.Yaml.Token
import LineEdit.Proofs.History.Search
import LineEdit.Proofs.History.Cycle
import LineEdit.Proofs.DirectoryHistory.Conservation
import LineEdit.Proofs.Word.Command
import LineEdit.Proofs.Word.Line
import LineEdit.Proofs.Word.Quoting
import LineEdit.Proofs.Word.Runs
import LineEdit.Proofs.Word.Tiling
import LineEdit.Proofs.Attempt
import LineEdit.Proofs.Console.Screen
import LineEdit.Proofs.Painter.Redraw
import LineEdit.Proofs.Painter.Repaint
import LineEdit.Proofs.Painter.Display
import LineEdit.Proofs.Session.Core
import LineEdit.Proofs.Console.Reliable
import LineEdit.Proofs.Session.Protocol
import LineEdit.Proofs.Session.Retry
import LineEdit.Proofs.Session.Leftover
import LineEdit.Proofs.Session.Consoles
import LineEdit.Proofs.Session.Question
import LineEdit.Proofs.Session.Search
import LineEdit.Proofs.Session.Conclude
import LineEdit.Proofs.Session.Display
import LineEdit.Proofs.Completion.Place
import LineEdit.Proofs.Completion.Cycle
import LineEdit.Proofs.Session.Transient
import LineEdit.Proofs.Word.FirstWord
import LineEdit.Proofs.DirectoryHistory.Walk
import LineEdit.Proofs.DirectoryHistory.Refusal
import LineEdit.Proofs.Completion.Behind
import LineEdit.Proofs.Console.Failing
import LineEdit.Proofs.Painter.Heal
import LineEdit.Proofs.Painter.Anchor
import LineEdit.Proofs.Painter.Within
import LineEdit.Proofs.Session.Resting
import LineEdit.Proofs.Session.Sitting
import LineEdit.Proofs.Session.Leave
import LineEdit.Proofs.Session.Typing
import LineEdit.Proofs.Session.Resume
import LineEdit.Proofs.Completion.Asked
import LineEdit.Proofs.DirectoryHistory.Departures
import LineEdit.Proofs.Console.Strokes
import LineEdit.Proofs.Painter.Exact
import LineEdit.Proofs.History.Nearest
import LineEdit.Proofs.History.Failure
import LineEdit.Proofs.Word.Partition
import LineEdit.Proofs.Completion.Lettercase
import LineEdit.Proofs.History.Archive
import LineEdit.Proofs.Buffer.Motion
import LineEdit.Proofs.Buffer.Line
import LineEdit.Proofs.Buffer.Reinsertion
import LineEdit.Proofs.Word.Growth
