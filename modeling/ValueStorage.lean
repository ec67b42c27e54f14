import ValueStorage.Session.Command
import ValueStorage.Proofs.SlotsRun
import ValueStorage.Proofs.SlotsList
import ValueStorage.Proofs.SlotsCapacity
import ValueStorage.Proofs.SlotsFilling
import ValueStorage.Proofs.SlotsSchedule
import ValueStorage.Proofs.SlotsAmortised
import ValueStorage.Proofs.HeapWorld
import ValueStorage.Proofs.HeapAccounts
import ValueStorage.Proofs.HeapLineage
import ValueStorage.Proofs.PoolLineage
import ValueStorage.Proofs.ExactValue
import ValueStorage.Proofs.FixedText
import ValueStorage.Proofs.HeapBudget
import ValueStorage.Proofs.SameReference
import ValueStorage.Proofs.SlotsTrace
import ValueStorage.Proofs.SessionFlow
import ValueStorage.Proofs.PoolAdmission
import ValueStorage.Proofs.StringViews
import ValueStorage.Proofs.NearestBinary
import ValueStorage.Proofs.ShortestDecimal
import ValueStorage.Proofs.DecimalText
import ValueStorage.Proofs.LiteralNumber
import ValueStorage.Proofs.QuotedText
import ValueStorage.Proofs.LiteralText
import ValueStorage.Proofs.SlotsRefusal
import ValueStorage.Proofs.HeapFrees
import ValueStorage.Proofs.HeapTrace
import ValueStorage.Proofs.LossyText
import ValueStorage.Proofs.GrowthSteps
import ValueStorage.Proofs.FaultMessage
import ValueStorage.Proofs.ValueCharacters
import ValueStorage.Proofs.DumpText
import ValueStorage.Proofs.LayoutLines
import ValueStorage.Proofs.LegibleLayout
import ValueStorage.Proofs.LiteralLayout
