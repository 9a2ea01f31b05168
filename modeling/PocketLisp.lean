import PocketLisp.Main
import PocketLisp.Inspect
import PocketLisp.CommandLine.Directory
import PocketLisp.Proofs.Text.Decimal
import PocketLisp.Proofs.Grammar.Rules
import PocketLisp.Proofs.Grammar.Trees
import PocketLisp.Proofs.Grammar.Expressions
import PocketLisp.Proofs.Grammar.Acceptance
import PocketLisp.Proofs.Code.Parts
import PocketLisp.Proofs.Eval.Invariant
import PocketLisp.Proofs.Primitive.Answers
import PocketLisp.Proofs.Store.Contents
import PocketLisp.Proofs.Eval.Data
import PocketLisp.Proofs.Session.Reached
import PocketLisp.Proofs.Session.Sound
import PocketLisp.Proofs.Input.Prompts
import PocketLisp.Proofs.Token.Scan
import PocketLisp.Proofs.Input.Lines
import PocketLisp.Proofs.Input.Forms
import PocketLisp.Proofs.Input.Tokenize
import PocketLisp.Proofs.Text.Numeral
import PocketLisp.Proofs.Value.Printed
import PocketLisp.Proofs.Value.Reread
import PocketLisp.Proofs.Token.Pieces
import PocketLisp.Proofs.Input.Lossless
import PocketLisp.Proofs.Eval.Simulation
import PocketLisp.Proofs.Store.Scopes
import PocketLisp.Proofs.Store.NilEquivalent
import PocketLisp.Proofs.Eval.Operations
import PocketLisp.Proofs.Value.Proper
import PocketLisp.Proofs.Session.Proper
import PocketLisp.Proofs.Eval.Related
import PocketLisp.Proofs.Input.Silent
import PocketLisp.Proofs.Eval.Vivification
import PocketLisp.Proofs.Eval.Output
import PocketLisp.Proofs.Session.Drivers
import PocketLisp.Proofs.Eval.Inherited
import PocketLisp.Proofs.Eval.Limited
import PocketLisp.Proofs.Session.Limited
import PocketLisp.Proofs.Store.Shape
import PocketLisp.Proofs.Eval.Scopes
import PocketLisp.Proofs.Code.Renaming
import PocketLisp.Proofs.Store.Renaming
import PocketLisp.Proofs.Eval.Renaming
import PocketLisp.Proofs.Input.Grouping
import PocketLisp.Proofs.Session.Pieces
import PocketLisp.Proofs.Code.Closures
import PocketLisp.Proofs.Store.Unmentioned
import PocketLisp.Proofs.Eval.Unmentioned
import PocketLisp.Proofs.Store.Collapsed
import PocketLisp.Proofs.Session.FreshFrame
import PocketLisp.Proofs.Input.Prompted
import PocketLisp.Proofs.Input.Scripts
import PocketLisp.Proofs.Input.Retries
import PocketLisp.Proofs.Input.Attempts
import PocketLisp.Proofs.Primitive.Arithmetic
import PocketLisp.Proofs.Primitive.Arity
import PocketLisp.Proofs.Grammar.Spans
import PocketLisp.Proofs.Token.Layouts
import PocketLisp.Proofs.Session.Layouts
import PocketLisp.Proofs.Code.Printed
import PocketLisp.Proofs.Grammar.Items
import PocketLisp.Proofs.Code.Spelled
import PocketLisp.Proofs.Code.Reread
import PocketLisp.Proofs.Store.Assigned
import PocketLisp.Proofs.Grammar.Numerals
import PocketLisp.Proofs.Eval.Fuel
import PocketLisp.Proofs.Eval.Calls
import PocketLisp.Proofs.Eval.Elementary
import PocketLisp.Proofs.Grammar.Descent
import PocketLisp.Proofs.Grammar.Termination
import PocketLisp.Proofs.Input.Progress
import PocketLisp.Proofs.Value.Equality
