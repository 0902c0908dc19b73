import Apiary.Script.Grammar
import Apiary.Script.Globals
import Apiary.Script.Run
import Apiary.Net.Task
import Apiary.Image.Digest
import Apiary.Image.Hex
import Apiary.Image.NetworkImage
import Apiary.Engine.Run
import Apiary.Service.Run
import Apiary.Service.Settings
import Apiary.Wire.Failure
import Apiary.Wire.FileNode
import Apiary.Wire.NetworkConfig
import Apiary.Wire.Service
import Apiary.Wire.Settings
import Apiary.Wire.Token
import Apiary.Wire.Tree
import Apiary.Console.Run
import Apiary.Main
import Apiary.Proofs.Script.Circular
import Apiary.Proofs.Script.Inside
import Apiary.Proofs.Script.Globals
import Apiary.Proofs.Script.Simple
import Apiary.Proofs.Script.Simple.Code
import Apiary.Proofs.Script.WellFormed
import Apiary.Proofs.Script.Stepwise
import Apiary.Proofs.Script.Stepwise.Code
import Apiary.Proofs.Image.Packed
import Apiary.Proofs.Image.Reading
import Apiary.Proofs.Image.RoundTrip
import Apiary.Proofs.Script.Budget
import Apiary.Proofs.Script.Termination
import Apiary.Proofs.Script.Keeps
import Apiary.Proofs.Host.Step
import Apiary.Proofs.Host.Inherited
import Apiary.Proofs.Host.Call
import Apiary.Proofs.Engine.Record
import Apiary.Proofs.Engine.Report
import Apiary.Proofs.Engine.Lifecycle
import Apiary.Proofs.Engine.Breakage
import Apiary.Proofs.Engine.Client
import Apiary.Proofs.Engine.Delivery
import Apiary.Proofs.Engine.Session
import Apiary.Proofs.Engine.Prompt
import Apiary.Proofs.Engine.Separation
import Apiary.Proofs.Files.ReadBack
import Apiary.Proofs.Files.Shown
import Apiary.Proofs.Service.WriteBack
import Apiary.Proofs.Service.Clients
import Apiary.Proofs.Service.Stop
import Apiary.Proofs.Service.Board
import Apiary.Proofs.Service.Floor
import Apiary.Proofs.Service.Visits
import Apiary.Proofs.Service.Prompts
import Apiary.Proofs.Source.Tiling
import Apiary.Proofs.Script.Rendering
import Apiary.Proofs.Script.Precedence
import Apiary.Proofs.Script.DataText
import Apiary.Proofs.Source.Hole
import Apiary.Proofs.Number.Comparison
import Apiary.Proofs.Number.Whole
import Apiary.Proofs.Number.Written
import Apiary.Proofs.Script.Element
import Apiary.Proofs.Net.Training
import Apiary.Proofs.Script.Sound
import Apiary.Proofs.Script.Sorting
import Apiary.Proofs.Script.Guard
import Apiary.Proofs.Source.Rescan
import Apiary.Proofs.Source.Layout
import Apiary.Proofs.Script.Alike
import Apiary.Proofs.Script.Agreement
import Apiary.Proofs.Script.Agreement.Statement
import Apiary.Proofs.Script.Termwise
import Apiary.Proofs.Script.Termwise.Expression
import Apiary.Proofs.Script.Lasting
import Apiary.Proofs.Script.Declaring
import Apiary.Proofs.Script.Inner
import Apiary.Proofs.Script.Steady
import Apiary.Proofs.Script.Constant
import Apiary.Proofs.Script.Lives
import Apiary.Proofs.Script.Hoisted
import Apiary.Proofs.Script.Depth
import Apiary.Proofs.Script.Sparing
import Apiary.Proofs.Script.Iteration
import Apiary.Proofs.Number.Equality
import Apiary.Proofs.Script.Equality
import Apiary.Proofs.Script.Access
import Apiary.Proofs.Script.Buffer
import Apiary.Proofs.Script.Copied
import Apiary.Proofs.Host.Memory
import Apiary.Proofs.Success
import Apiary.Proofs.Text.Pieces
import Apiary.Proofs.Source.Undo
import Apiary.Proofs.Event.Plots
import Apiary.Proofs.Image.Chunks
import Apiary.Proofs.Image.Truncated
import Apiary.Proofs.Number.Nearest
import Apiary.Proofs.Script.Leading
import Apiary.Proofs.Script.NumberText
import Apiary.Proofs.Files.Scripts
import Apiary.Proofs.Number.Integer
import Apiary.Proofs.Script.Radix
import Apiary.Proofs.Script.Splitting
import Apiary.Proofs.Script.Characters
import Apiary.Proofs.Net.Counting
import Apiary.Proofs.Net.Cooldown
import Apiary.Proofs.Engine.Identity
import Apiary.Proofs.Json.Token
import Apiary.Proofs.Json.ReadBack
import Apiary.Proofs.Wire.Event
import Apiary.Proofs.Net.Draws
import Apiary.Proofs.Script.Assignment
import Apiary.Proofs.Source.Bounds
import Apiary.Proofs.Script.Progress
import Apiary.Proofs.Script.Progress.Grammar
