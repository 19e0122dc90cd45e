import TwinScheme.Main
import TwinScheme.Proofs.Agreement.Programs
import TwinScheme.Proofs.Console.Conversation
import TwinScheme.Proofs.Evaluator.Clauses
import TwinScheme.Proofs.Evaluator.DepthLimit
import TwinScheme.Proofs.Evaluator.Mapping
import TwinScheme.Proofs.Evaluator.Termination
import TwinScheme.Proofs.Host.Commands
import TwinScheme.Proofs.Lexical.Context
import TwinScheme.Proofs.Lexical.Interleaving
import TwinScheme.Proofs.Lexical.Parameter
import TwinScheme.Proofs.Lexical.Scoped
import TwinScheme.Proofs.Lexical.Sharing
import TwinScheme.Proofs.Observation.Values
import TwinScheme.Proofs.Primitive.Counts
import TwinScheme.Proofs.Primitive.Extremes
import TwinScheme.Proofs.Primitive.Integers
import TwinScheme.Proofs.Reader.Cursor
import TwinScheme.Proofs.Reader.Extension
import TwinScheme.Proofs.Reader.Grammar
import TwinScheme.Proofs.Reader.RoundTrip
import TwinScheme.Proofs.Reader.Tokens
import TwinScheme.Proofs.Session.Identity
import TwinScheme.Proofs.Session.Names
import TwinScheme.Proofs.Session.Parameters
import TwinScheme.Proofs.Session.Programs
import TwinScheme.Proofs.Textual.LiteralBinders
import TwinScheme.Proofs.Textual.Shorthand
