import Tale.Document.Parse
import Tale.Json.Printer
import Tale.Json.Reader
import Tale.Language.Tree.Json
import Tale.Main
import Tale.Player.Command
import Tale.Player.Screen.Draw
import Tale.Player.Screen.Keys
import Tale.Proofs.Application
import Tale.Proofs.Atomicity
import Tale.Proofs.Bounds
import Tale.Proofs.Canvases
import Tale.Proofs.Captures
import Tale.Proofs.Carrying
import Tale.Proofs.Comments
import Tale.Proofs.Contents
import Tale.Proofs.Defaults
import Tale.Proofs.Destinations
import Tale.Proofs.Draws
import Tale.Proofs.Equality
import Tale.Proofs.Frames
import Tale.Proofs.Interchange
import Tale.Proofs.Interpolation
import Tale.Proofs.Keys
import Tale.Proofs.Layers
import Tale.Proofs.Nearness
import Tale.Proofs.Numbering
import Tale.Proofs.Paragraphs
import Tale.Proofs.Precedence
import Tale.Proofs.Progress
import Tale.Proofs.Protocol
import Tale.Proofs.ReadBack
import Tale.Proofs.Registers
import Tale.Proofs.Replays
import Tale.Proofs.Safety
import Tale.Proofs.Scripts
import Tale.Proofs.Seeds
import Tale.Proofs.Selection
import Tale.Proofs.Sessions
import Tale.Proofs.Typewriter
import Tale.Proofs.Units
import Tale.Proofs.Unmapped
import Tale.Proofs.Visits
import Tale.Proofs.Whereabouts
import Tale.Random
import Tale.Script.Check
import Tale.Telling.Replay
import Tale.View.Nodes
