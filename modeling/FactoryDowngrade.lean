import FactoryDowngrade.CallSite
import FactoryDowngrade.CommandLine.Arguments
import FactoryDowngrade.CommandLine.Number
import FactoryDowngrade.CommandLine.Session
import FactoryDowngrade.Config
import FactoryDowngrade.ConfigFile
import FactoryDowngrade.Data.Check
import FactoryDowngrade.Data.Layout
import FactoryDowngrade.Data.Record
import FactoryDowngrade.Data.Value
import FactoryDowngrade.Decision
import FactoryDowngrade.Evidence.Basic
import FactoryDowngrade.Evidence.Detector
import FactoryDowngrade.Granularity
import FactoryDowngrade.Log
import FactoryDowngrade.Main
import FactoryDowngrade.Number.Binary64
import FactoryDowngrade.Optimize
import FactoryDowngrade.OptimizeFile
import FactoryDowngrade.Oracle
import FactoryDowngrade.Patch
import FactoryDowngrade.Plan
import FactoryDowngrade.Proofs.AssignedCreation
import FactoryDowngrade.Proofs.CommentedCalls
import FactoryDowngrade.Proofs.Idempotence
import FactoryDowngrade.Proofs.InertComments
import FactoryDowngrade.Proofs.JobArguments
import FactoryDowngrade.Proofs.ReportCompleteness
import FactoryDowngrade.Proofs.TokenRewrite
import FactoryDowngrade.Proofs.WellFormedSites
import FactoryDowngrade.Report
import FactoryDowngrade.Ruby.Binding
import FactoryDowngrade.Ruby.Bracket
import FactoryDowngrade.Ruby.Heredoc
import FactoryDowngrade.Ruby.Invocation
import FactoryDowngrade.Ruby.Mask
import FactoryDowngrade.Ruby.Reference
import FactoryDowngrade.Ruby.Statement
import FactoryDowngrade.Shell.Arithmetic
import FactoryDowngrade.Shell.Builtin
import FactoryDowngrade.Shell.Command
import FactoryDowngrade.Shell.Condition
import FactoryDowngrade.Shell.Execute
import FactoryDowngrade.Shell.Files
import FactoryDowngrade.Shell.Format
import FactoryDowngrade.Shell.Glob
import FactoryDowngrade.Shell.Launch
import FactoryDowngrade.Shell.Lines
import FactoryDowngrade.Shell.Machine
import FactoryDowngrade.Shell.Program
import FactoryDowngrade.Shell.Reader
import FactoryDowngrade.Shell.Redirect
import FactoryDowngrade.Shell.Script
import FactoryDowngrade.Shell.Search
import FactoryDowngrade.Shell.Signal
import FactoryDowngrade.Shell.Word
import FactoryDowngrade.Text.CharClass
import FactoryDowngrade.Text.Cursor
import FactoryDowngrade.Text.DecimalDigits
import FactoryDowngrade.Text.HiddenRanges
import FactoryDowngrade.Text.LetterRanges
import FactoryDowngrade.Text.LineIndex
import FactoryDowngrade.Text.Pattern
import FactoryDowngrade.Text.Quoted
import FactoryDowngrade.Text.Utf8
import FactoryDowngrade.Toml.Document
import FactoryDowngrade.Toml.Parser
import FactoryDowngrade.Toml.Scalar
import FactoryDowngrade.Trial
import FactoryDowngrade.Verdict
import FactoryDowngrade.World.FileTree
import FactoryDowngrade.World.PathName
import FactoryDowngrade.World.Scratch
import FactoryDowngrade.World.WriteBack
import FactoryDowngrade.Proofs.World.FileTree
import FactoryDowngrade.Proofs.World.WriteBack
import FactoryDowngrade.Proofs.InPlace
import FactoryDowngrade.Proofs.PrivateTrial
import FactoryDowngrade.Proofs.World.Outline
import FactoryDowngrade.Proofs.PrivateRun
import FactoryDowngrade.Proofs.BatchStage
import FactoryDowngrade.Proofs.BatchOrder
import FactoryDowngrade.Proofs.PatchOrder
import FactoryDowngrade.Proofs.Ruby.NestedLiterals
import FactoryDowngrade.Proofs.Ruby.HeredocLines
import FactoryDowngrade.Proofs.LiteralArguments
import FactoryDowngrade.Proofs.CallInvocations
import FactoryDowngrade.Proofs.KeywordArguments
import FactoryDowngrade.Proofs.NestedCalls
import FactoryDowngrade.Proofs.LazyLayouts
import FactoryDowngrade.Proofs.InterpolatedEvidence
import FactoryDowngrade.Proofs.AddedCode
import FactoryDowngrade.Proofs.DraftCourse
import FactoryDowngrade.Proofs.AcceptedConfig
import FactoryDowngrade.Proofs.ScratchDirectories
import FactoryDowngrade.Proofs.Ruby.BracketPairs
import FactoryDowngrade.Proofs.Ruby.StatementGroups
import FactoryDowngrade.Proofs.ConfigFaults
import FactoryDowngrade.Proofs.CurrentDirectory
import FactoryDowngrade.Proofs.ReportFiles
import FactoryDowngrade.Proofs.Callees
import FactoryDowngrade.Proofs.LinePositions
