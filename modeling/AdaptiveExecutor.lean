import AdaptiveExecutor.Nesting
import AdaptiveExecutor.PastTotals
import AdaptiveExecutor.Refill
import AdaptiveExecutor.Shutdown
import AdaptiveExecutor.Jitter
import AdaptiveExecutor.Rejection
import AdaptiveExecutor.QueueTime
