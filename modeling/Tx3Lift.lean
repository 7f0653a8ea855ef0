import Tx3Lift.Cardano.Assets
import Tx3Lift.Cardano.Complete
import Tx3Lift.Cardano.Credential
import Tx3Lift.Cardano.DatumValue
import Tx3Lift.Cardano.LedgerForm
import Tx3Lift.Cardano.Queries
import Tx3Lift.Cardano.References
import Tx3Lift.Cardano.Resolving
import Tx3Lift.Cardano.Route
import Tx3Lift.Core.Arguments
import Tx3Lift.Core.Classify
import Tx3Lift.Core.ContentHash
import Tx3Lift.Core.Grammar
import Tx3Lift.Core.Strengthen
import Tx3Lift.Tracker.Backoff
import Tx3Lift.Tracker.Configs
import Tx3Lift.Tracker.Ending
import Tx3Lift.Tracker.Envelopes
import Tx3Lift.Tracker.History
import Tx3Lift.Tracker.Invalid
import Tx3Lift.Tracker.Library
import Tx3Lift.Tracker.Loop
import Tx3Lift.Tracker.Migrations
import Tx3Lift.Tracker.Orders
import Tx3Lift.Tracker.Ranks
import Tx3Lift.Tracker.Recovery
import Tx3Lift.Tracker.Rollback
