import Custody.Booking.Calculation
import Custody.Config.EnglandAndWales
import Custody.Json.Printer
import Custody.Json.Reader
import Custody.Proofs.Booking.Awarded
import Custody.Proofs.Booking.CountedOnce
import Custody.Proofs.Booking.Eased
import Custody.Proofs.Booking.EffectiveLength
import Custody.Proofs.Booking.Explained
import Custody.Proofs.Booking.MergedBounds
import Custody.Proofs.Booking.Options
import Custody.Proofs.Booking.Reach
import Custody.Proofs.Booking.RoundTrip
import Custody.Proofs.Booking.UnitBounds
import Custody.Proofs.Booking.Untracked
import Custody.Proofs.Calendar.Monotone
import Custody.Proofs.Calendar.WorkingDay
import Custody.Proofs.Outcome.Further
import Custody.Proofs.Sentence.EndToEnd
import Custody.Proofs.Unit.Committals
import Custody.Proofs.Unit.Framed
import Custody.Proofs.Unit.Split
