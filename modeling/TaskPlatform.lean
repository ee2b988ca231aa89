import TaskPlatform.Budget
import TaskPlatform.OpenAttempts
import TaskPlatform.Parents
import TaskPlatform.Blocked
import TaskPlatform.Revival
import TaskPlatform.Outbox
import TaskPlatform.LostUpdate
import TaskPlatform.LastReader
import TaskPlatform.DeadLetters
import TaskPlatform.Retention
import TaskPlatform.ScheduleAt
import TaskPlatform.Coordinators
import TaskPlatform.Orphans
import TaskPlatform.Lease
import TaskPlatform.Acyclic
import TaskPlatform.Finish
import TaskPlatform.BulkCancel
import TaskPlatform.BulkCreate
import TaskPlatform.RedisLimiter
import TaskPlatform.LoginLimit
import TaskPlatform.Revocation
import TaskPlatform.Webhooks
import TaskPlatform.Idempotency
import TaskPlatform.DeadLetterRetention
import TaskPlatform.BatchProgress
import TaskPlatform.DeliveryCycle
import TaskPlatform.Search
import TaskPlatform.Fallback
import TaskPlatform.Finality
import TaskPlatform.Backoff
import TaskPlatform.Rollbacks
import TaskPlatform.Results
import TaskPlatform.Progress
import TaskPlatform.Credentials
import TaskPlatform.Commands
import TaskPlatform.Operators
import TaskPlatform.Workflow
import TaskPlatform.Fairness
import TaskPlatform.Waiting
