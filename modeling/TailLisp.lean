import TailLisp.TokenStream
import TailLisp.Store.Inspect
import TailLisp.Session
import TailLisp.Main
import TailLisp.Proofs.Exhaustion
import TailLisp.Proofs.BigStep
import TailLisp.Proofs.Trampoline
import TailLisp.Proofs.Trace
import TailLisp.Proofs.Chains
import TailLisp.Proofs.Discipline
import TailLisp.Proofs.FrameEffect
import TailLisp.Proofs.WellFormed
import TailLisp.Proofs.Lexing
import TailLisp.Proofs.Decimals
import TailLisp.Proofs.ReadBack
import TailLisp.Proofs.Descent
import TailLisp.Proofs.Balance
import TailLisp.Proofs.Interleaving
import TailLisp.Proofs.Parts
import TailLisp.Proofs.FreeNames
import TailLisp.Proofs.Scoping
import TailLisp.Proofs.Disguise
import TailLisp.Proofs.Renumbering
import TailLisp.Proofs.Correspondence
import TailLisp.Proofs.Hiding
import TailLisp.Proofs.Mirroring
import TailLisp.Proofs.Independence
import TailLisp.Proofs.Headroom
import TailLisp.Proofs.Layout
import TailLisp.Proofs.Cutting
import TailLisp.Proofs.Domestic
import TailLisp.Proofs.Conversation
import TailLisp.Proofs.OpenedTexts
import TailLisp.Proofs.Journal
import TailLisp.Proofs.PrintedOutput
import TailLisp.Proofs.Irrelevance
import TailLisp.Proofs.ParameterRenaming
import TailLisp.Proofs.Composition
import TailLisp.Proofs.TailSteps
import TailLisp.Proofs.TailContexts
import TailLisp.Proofs.DataPrograms
import TailLisp.Proofs.TailRecursion
import TailLisp.Proofs.FrameHistory
import TailLisp.Proofs.Alikeness
import TailLisp.Proofs.LambdaFree
import TailLisp.Proofs.Relocation
import TailLisp.Proofs.LetApplication
import TailLisp.Proofs.ClosingQuotes
import TailLisp.Proofs.TokenAccounts
import TailLisp.Proofs.Approximation
import TailLisp.Proofs.Flattening
import TailLisp.Proofs.Contract
import TailLisp.Proofs.Truncation
