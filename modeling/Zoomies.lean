import Zoomies.SchedulerWork
import Zoomies.SchedulerOrder
import Zoomies.SchedulerAutoPoolsSettle
import Zoomies.SchedulerScaleDown
import Zoomies.SchedulerPickBest
import Zoomies.ControllerSizingRows
import Zoomies.StoreCleanupDone
import Zoomies.StoreJobsReplay
import Zoomies.ControllerWebhooksRuns
import Zoomies.EventsStream
import Zoomies.AgentMemoryTick
import Zoomies.AgentReclaim
import Zoomies.QrReadBack
import Zoomies.QrReedSolomon
import Zoomies.ControllerMachineSettle
import Zoomies.ControllerMachineCharges
import Zoomies.StoreMachineRented
import Zoomies.ControllerMachineGuess
import Zoomies.ControllerLeaseSafety
import Zoomies.UpdatesMoves
import Zoomies.UpdatesProgress
import Zoomies.StoreUsageOnce
import Zoomies.StoreUsageSums
import Zoomies.AuthSignInBound
import Zoomies.AuthTokens
import Zoomies.BackupReused
import Zoomies.AuthAdminStays
import Zoomies.ControllerTaskRuns
import Zoomies.SchedulerRoom
import Zoomies.SchedulerAssign
import Zoomies.StoreUsageNearest
import Zoomies.VersionPrecedence
import Zoomies.ControllerMachineRefused
import Zoomies.ControllerPolls
