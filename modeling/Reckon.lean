import Reckon.Command.Session
import Reckon.Main
import Reckon.Store.Limited
import Reckon.Proofs.Spelling
import Reckon.Proofs.Group
import Reckon.Proofs.SourceTokens
import Reckon.Proofs.NegativeValue
import Reckon.Proofs.BookChange
import Reckon.Proofs.DirectoryStore
import Reckon.Proofs.FailedChanges
import Reckon.Proofs.MissingValues
import Reckon.Proofs.CommandEnd
import Reckon.Proofs.KeptBook
import Reckon.Proofs.Unchanged
import Reckon.Proofs.Persistence
import Reckon.Proofs.Operands
import Reckon.Proofs.Parentheses
import Reckon.Proofs.Conservation
import Reckon.Proofs.PowerChains
import Reckon.Proofs.Lexemes
import Reckon.Proofs.UsableValues
import Reckon.Proofs.Spacing
import Reckon.Proofs.NewestFormula
import Reckon.Proofs.Names
import Reckon.Proofs.AgeOrder
import Reckon.Proofs.StoreCalls
import Reckon.Proofs.Loading
import Reckon.Proofs.PlainForm
import Reckon.Proofs.BindingText
