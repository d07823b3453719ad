import Playscript.Arguments
import Playscript.CommandLine
import Playscript.Condition
import Playscript.Configuration
import Playscript.Conversion
import Playscript.Decimal
import Playscript.Failure
import Playscript.FileMode
import Playscript.FileTree
import Playscript.Generator
import Playscript.Json.Printer
import Playscript.Json.Reader
import Playscript.Line.Command
import Playscript.Line.Script
import Playscript.Loop
import Playscript.Main
import Playscript.Path
import Playscript.Perl.Instrumentation
import Playscript.Perl.Operation
import Playscript.Recipe
import Playscript.Reference
import Playscript.Registers
import Playscript.RemotePath
import Playscript.ScriptReader
import Playscript.Session.Basic
import Playscript.Session.Invocation
import Playscript.Session.Perform
import Playscript.Session.Visit
import Playscript.Settings
import Playscript.Shell.Grammar
import Playscript.Shell.Lexeme
import Playscript.Shell.Lexer
import Playscript.Shell.Script
import Playscript.Shell.Token
import Playscript.Shell.Tree
import Playscript.Shell.Word
import Playscript.Task
import Playscript.Text.Blank
import Playscript.Text.Digit
import Playscript.Text.Hex
import Playscript.Text.Letter
import Playscript.Text.Lines
import Playscript.Text.Matcher
import Playscript.Text.Octal
import Playscript.Text.Printable
import Playscript.Text.Quoted
import Playscript.Text.Ranges
import Playscript.Text.Replace
import Playscript.Text.Utf8
import Playscript.Value.Basic
import Playscript.Value.Display
import Playscript.Variables
import Playscript.Verb
import Playscript.Wildcard
import Playscript.World
import Playscript.Yaml.Fault
import Playscript.Yaml.Kind
import Playscript.Yaml.Lexer
import Playscript.Yaml.Node
import Playscript.Yaml.Printer
import Playscript.Yaml.Reader
import Playscript.Yaml.Sheet
import Playscript.Yaml.Style
import Playscript.Yaml.Token
import Playscript.Proofs.Changes
import Playscript.Proofs.Walk
import Playscript.Proofs.Commands
import Playscript.Proofs.Plan
import Playscript.Proofs.AppendOnly
import Playscript.Proofs.RegisterNames
import Playscript.Proofs.Bodies
import Playscript.Proofs.Unrolling
import Playscript.Proofs.Visits
import Playscript.Proofs.ControlFlow.Flat
import Playscript.Proofs.ControlFlow.Filling
import Playscript.Proofs.ControlFlow.FilledWalks
import Playscript.Proofs.ControlFlow.Shapes
import Playscript.Proofs.LastRegister
import Playscript.Proofs.StatusGuards
import Playscript.Proofs.PlainCommands
import Playscript.Proofs.Refusals
import Playscript.Proofs.References
import Playscript.Proofs.TaskTexts
import Playscript.Proofs.Substitution
import Playscript.Proofs.Effects
import Playscript.Proofs.Words
import Playscript.Proofs.Segments
import Playscript.Proofs.TemplateFree
import Playscript.Proofs.RemoteCopies
import Playscript.Proofs.Templates
import Playscript.Proofs.Resolution
import Playscript.Proofs.Touches
import Playscript.Proofs.Deeds
import Playscript.Proofs.Emissions
import Playscript.Proofs.TaskShapes
import Playscript.Proofs.LegalRegisters
import Playscript.Proofs.Modes
import Playscript.Proofs.LineMeanings
import Playscript.Proofs.ReadersAgree
import Playscript.Proofs.ExportHistory
import Playscript.Proofs.LoggedCalls
import Playscript.Proofs.Runs
import Playscript.Proofs.FileTrees
import Playscript.Proofs.RoleFiles
import Playscript.Proofs.EarlierLogs
import Playscript.Proofs.Directories
import Playscript.Proofs.RepeatedRoles
import Playscript.Proofs.Listings
import Playscript.Proofs.PathNames
import Playscript.Proofs.RoleDestinations
import Playscript.Proofs.DocumentLengths
import Playscript.Proofs.SingleFiles
import Playscript.Proofs.Wildcards
import Playscript.Proofs.CopiedTrees
import Playscript.Proofs.KeptFiles
import Playscript.Proofs.GuardedBodies
import Playscript.Proofs.OwnWords
import Playscript.Proofs.ScriptRoutes
import Playscript.Proofs.SingleScan
import Playscript.Proofs.TestWords
import Playscript.Proofs.StatusTests
import Playscript.Proofs.FlagPositions
import Playscript.Proofs.LeadingAssignments
import Playscript.Proofs.WrittenTargets
import Playscript.Proofs.CommandForms
import Playscript.Proofs.LoopReplays
import Playscript.Proofs.KeptOperands
import Playscript.Proofs.ActionRoutes
import Playscript.Proofs.OpenedFiles
import Playscript.Proofs.Replacement
import Playscript.Proofs.ShellOperands
import Playscript.Proofs.SubRoles
import Playscript.Proofs.LineTasks
import Playscript.Proofs.OptionWords
import Playscript.Proofs.StatusBlocks
import Playscript.Proofs.Captures
import Playscript.Proofs.LineSubstitutions
import Playscript.Proofs.LineVariables
