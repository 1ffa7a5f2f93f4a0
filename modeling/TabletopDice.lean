import TabletopDice.CommandLine.Performance
import TabletopDice.Main
import TabletopDice.Proofs.Rolling.Guarantee
import TabletopDice.Proofs.Rolling.Kinds
import TabletopDice.Proofs.Rolling.Application
import TabletopDice.Proofs.Session.Underway
import TabletopDice.Proofs.Notation.Acceptance
import TabletopDice.Proofs.Notation.Printing
import TabletopDice.Proofs.Notation.RoundTrip
import TabletopDice.Proofs.Session.Compatibility
import TabletopDice.Proofs.Session.Safety
import TabletopDice.Proofs.Session.Representation
import TabletopDice.Proofs.Notation.Location
import TabletopDice.Proofs.Notation.Rejection
import TabletopDice.Proofs.Rolling.Running
import TabletopDice.Proofs.Tally.Groups
import TabletopDice.Proofs.Session.Passage
import TabletopDice.Proofs.Session.Counting
import TabletopDice.Proofs.Session.Interleaving
import TabletopDice.Proofs.Rolling.Stillness
import TabletopDice.Proofs.Session.Privacy
import TabletopDice.Proofs.CommandLine.Endings
import TabletopDice.Proofs.Rolling.Accord
import TabletopDice.Proofs.Rolling.Sizes
import TabletopDice.Proofs.Session.Luck
import TabletopDice.Proofs.Session.Record
import TabletopDice.Proofs.Session.Report
import TabletopDice.Proofs.Session.Ending
import TabletopDice.Proofs.Rolling.Batches
import TabletopDice.Proofs.Rolling.Recursion
import TabletopDice.Proofs.Rolling.Additions
import TabletopDice.Proofs.Session.Drawn
import TabletopDice.Proofs.Text.Digits
import TabletopDice.Proofs.Rolling.Flipping
import TabletopDice.Proofs.Rolling.Selections
import TabletopDice.Proofs.Rolling.Windows
import TabletopDice.Proofs.Rolling.Possible
import TabletopDice.Proofs.Rolling.Replacing
import TabletopDice.Proofs.Session.OwnDice
import TabletopDice.Proofs.Notation.Pointing
import TabletopDice.Proofs.Tally.Order
import TabletopDice.Proofs.Session.AutoTotal
import TabletopDice.Proofs.Rolling.Linear
import TabletopDice.Proofs.Session.Linear
import TabletopDice.Proofs.Notation.Blanks
import TabletopDice.Proofs.Notation.DicePlaces
import TabletopDice.Proofs.Notation.Casing
import TabletopDice.Proofs.Notation.Routing
import TabletopDice.Proofs.Notation.Lossless
