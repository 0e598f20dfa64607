import QueueWorker.Decimal.Shortest
import QueueWorker.Fault
import QueueWorker.Json.Found
import QueueWorker.Json.Number
import QueueWorker.Json.Refusal
import QueueWorker.Json.Skip
import QueueWorker.Json.Text
import QueueWorker.Message
import QueueWorker.Notify.Basic
import QueueWorker.Notify.Scenario
import QueueWorker.Parallelism
import QueueWorker.Payload
import QueueWorker.Priority
import QueueWorker.Queue.Basic
import QueueWorker.Queue.Scenario
import QueueWorker.Settings.Basic
import QueueWorker.Settings.Reader
import QueueWorker.Stats
import QueueWorker.Text.Layout
import QueueWorker.Text.Quoted
import QueueWorker.Text.Visible
import QueueWorker.Worker.Basic
import QueueWorker.Worker.Job
import QueueWorker.Worker.Producers
import QueueWorker.Worker.Scenario
import QueueWorker.Worker.Step
import QueueWorker.Proofs.Worker.Outline
import QueueWorker.Proofs.Worker.Locks
import QueueWorker.Proofs.Worker.Reachable
import QueueWorker.Proofs.Worker.Charge
import QueueWorker.Proofs.Worker.Lifecycle
import QueueWorker.Proofs.Worker.Delivery
import QueueWorker.Proofs.Worker.Recovery
import QueueWorker.Proofs.Notify.Delivery
import QueueWorker.Proofs.Worker.Drain
import QueueWorker.Proofs.Worker.Waiting
import QueueWorker.Proofs.Worker.Deadlock
import QueueWorker.Proofs.Worker.Commute
import QueueWorker.Proofs.Worker.Session
import QueueWorker.Proofs.Worker.Counters
import QueueWorker.Proofs.Worker.Recast
import QueueWorker.Proofs.Worker.Instead
import QueueWorker.Proofs.Worker.Failure
import QueueWorker.Proofs.Worker.Schedule
import QueueWorker.Proofs.Notify.Close
import QueueWorker.Proofs.Queue.Course
import QueueWorker.Proofs.Queue.Deadline
import QueueWorker.Proofs.Queue.Order
import QueueWorker.Proofs.Queue.Waiting
import QueueWorker.Proofs.Queue.Upshot
import QueueWorker.Proofs.Worker.Average
import QueueWorker.Proofs.Worker.Batches
import QueueWorker.Proofs.Worker.Versions
import QueueWorker.Proofs.Settings.Renaming
import QueueWorker.Proofs.Settings.RoundTrip
import QueueWorker.Proofs.Settings.Schema
import QueueWorker.Proofs.Worker.Fairness
import QueueWorker.Proofs.Worker.Logbook
