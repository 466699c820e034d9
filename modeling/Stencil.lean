import Stencil.Text.LetterCase
import Stencil.Text.Visible
import Stencil.Text.Cursor
import Stencil.Numeral
import Stencil.Text.Lexeme
import Stencil.Decimal.Reader
import Stencil.Value.Lookup
import Stencil.Value.Operation
import Stencil.Path
import Stencil.Token
import Stencil.Diagnostic
import Stencil.Condition
import Stencil.Render
import Stencil.Program.Stored
import Stencil.Toml.Reader
import Stencil.Main
import Stencil.Proofs.Conditionals
import Stencil.Proofs.OpenBlocks
import Stencil.Proofs.Spellings
import Stencil.Proofs.StoredTemplates
import Stencil.Proofs.Variables
import Stencil.Proofs.Unclosed
import Stencil.Proofs.ByteScan
import Stencil.Proofs.Equalities
import Stencil.Proofs.Canonical
import Stencil.Proofs.Attempts
import Stencil.Proofs.PathReaders
import Stencil.Proofs.Pointers
import Stencil.Proofs.Spacings
import Stencil.Proofs.QuotedTexts
import Stencil.Proofs.Chains
import Stencil.Proofs.Arithmetic
import Stencil.Proofs.Comparisons
import Stencil.Proofs.Addresses
import Stencil.Proofs.NormalForm
import Stencil.Proofs.BlockStacks
import Stencil.Proofs.CharacterRanges
import Stencil.Proofs.BitOperators
