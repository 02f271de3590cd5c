import Treewalk.Main
import Treewalk.Proofs.Grammar.Phrase
import Treewalk.Proofs.Grammar.Sentence
import Treewalk.Proofs.Grammar.Completeness
import Treewalk.Proofs.Grammar.Soundness
import Treewalk.Proofs.Grammar.Uniqueness
import Treewalk.Proofs.Grammar.Program
import Treewalk.Proofs.Lexical.Extent
import Treewalk.Proofs.Lexical.Split
import Treewalk.Proofs.Lines.Relabel
import Treewalk.Proofs.Lines.Run
import Treewalk.Proofs.Fuel
import Treewalk.Proofs.Lexical.LineBreak
import Treewalk.Proofs.Grammar.Append
import Treewalk.Proofs.Lines.Reading
import Treewalk.Proofs.Grammar.Regular
import Treewalk.Proofs.Lines.Marks
import Treewalk.Proofs.Machine.Moves
import Treewalk.Proofs.Machine.Returns
import Treewalk.Proofs.Session.Parts
import Treewalk.Proofs.Scoping.Keeps
import Treewalk.Proofs.Scoping.Session
import Treewalk.Proofs.Machine.Control
import Treewalk.Proofs.Machine.CallLimit
import Treewalk.Proofs.Grammar.Operators
import Treewalk.Proofs.Machine.Upheld
import Treewalk.Proofs.Machine.Operating
import Treewalk.Proofs.Machine.Termination
import Treewalk.Proofs.Grammar.Context
import Treewalk.Proofs.Grammar.Progress
import Treewalk.Proofs.Grammar.Recovery
import Treewalk.Proofs.Session.Operators
import Treewalk.Proofs.Machine.Activation
import Treewalk.Proofs.Session.Returns
import Treewalk.Proofs.Grammar.Lookahead
import Treewalk.Proofs.Grammar.Dangling
import Treewalk.Proofs.Grammar.Viable
import Treewalk.Proofs.Grammar.FirstError
import Treewalk.Proofs.Loops.Simulation
import Treewalk.Proofs.Loops.ForLoop
import Treewalk.Proofs.Loops.Meaning
import Treewalk.Proofs.Session.Protocol
import Treewalk.Proofs.Grammar.Cursor
import Treewalk.Proofs.Grammar.ReturnReports
import Treewalk.Proofs.Grammar.Placement
import Treewalk.Proofs.Grammar.Violations
import Treewalk.Proofs.Session.Layout
import Treewalk.Proofs.Lexical.Respelling
import Treewalk.Proofs.Grammar.ErrorOrder
import Treewalk.Proofs.Machine.Names
import Treewalk.Proofs.Identity.Creation
import Treewalk.Proofs.Printing.Injective
import Treewalk.Proofs.Session.Echo
import Treewalk.Proofs.Machine.Branches
import Treewalk.Proofs.Session.Blame
import Treewalk.Proofs.Session.Retyped
