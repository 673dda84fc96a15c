import ScopeScript.Files
import ScopeScript.Main
import ScopeScript.Proofs.Actions
import ScopeScript.Proofs.Chains
import ScopeScript.Proofs.FrameDiscipline
import ScopeScript.Proofs.Grammar
import ScopeScript.Proofs.Lexing
import ScopeScript.Proofs.Lookup
import ScopeScript.Proofs.Nesting
import ScopeScript.Proofs.TreeParser
import ScopeScript.Proofs.TableParser
import ScopeScript.Proofs.ParserSoundness
import ScopeScript.Proofs.Storage
import ScopeScript.Proofs.Termination
import ScopeScript.Proofs.Visibility
import ScopeScript.Proofs.Moments
import ScopeScript.Proofs.StaticScope
import ScopeScript.Proofs.Recursion
import ScopeScript.Proofs.ScopingModes
import ScopeScript.Proofs.Lockstep
import ScopeScript.Proofs.Printing
import ScopeScript.Proofs.CallLimit
import ScopeScript.Proofs.Backtraces
import ScopeScript.Proofs.PostOrder
import ScopeScript.Proofs.SyntaxErrors
import ScopeScript.Proofs.NumberText
import ScopeScript.Proofs.Literals
import ScopeScript.Proofs.Quoting
import ScopeScript.Proofs.TreeOutlines
import ScopeScript.Proofs.Outlines
import ScopeScript.Proofs.Correspondence
import ScopeScript.Proofs.Exhaustion
import ScopeScript.Proofs.TreeMeaning
import ScopeScript.Proofs.ErrorMessages
import ScopeScript.Proofs.RunSequences
import ScopeScript.Proofs.Translation
import ScopeScript.Proofs.Renaming
import ScopeScript.Proofs.DeadCode
import ScopeScript.Proofs.DynamicScope
import ScopeScript.Proofs.ScopeHistory
import ScopeScript.Proofs.LexicalErrors
import ScopeScript.Proofs.SourceLiterals
import ScopeScript.Proofs.WholeNumbers
import ScopeScript.Proofs.Echo
import ScopeScript.Proofs.PrintLog
import ScopeScript.Proofs.PrintCalls
import ScopeScript.Proofs.QuotableValues
import ScopeScript.Proofs.OutputLines
import ScopeScript.Proofs.SettingTexts
import ScopeScript.Proofs.Overrides
