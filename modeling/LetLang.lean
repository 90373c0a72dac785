import LetLang.Main
import LetLang.Proofs.Lexing.Layouts
import LetLang.Proofs.Lexing.Concatenation
import LetLang.Proofs.Parser.Depth
import LetLang.Proofs.Grammar.Segments
import LetLang.Proofs.Tree.WellFormed
import LetLang.Proofs.Tree.Traversals
import LetLang.Proofs.Tree.Height
import LetLang.Proofs.Printing.Reparse
import LetLang.Proofs.Joining.Programs
import LetLang.Proofs.Joining.Ends
import LetLang.Proofs.Grammar.IllegalTokens
import LetLang.Proofs.Grammar.Chains
import LetLang.Proofs.Grammar.Errors
import LetLang.Proofs.Parser.Limit
import LetLang.Proofs.Parser.Termination
import LetLang.Proofs.Session.Lines
import LetLang.Proofs.Lexing.Offsets
import LetLang.Proofs.Session.Dumps
import LetLang.Proofs.Session.Answers
