import AuditRelay.Event.Text
import AuditRelay.Store.Memory
import AuditRelay.Store.Spool
import AuditRelay.Metrics.Counters
import AuditRelay.Settings
import AuditRelay.Store.Assembly
import AuditRelay.Scenario.BrokerRun
import AuditRelay.Scenario.BuildRun
import AuditRelay.Scenario.RelayRun
import AuditRelay.Scenario.TableRun
import AuditRelay.Proofs.Relay.Delivery
import AuditRelay.Proofs.Json.Printed
import AuditRelay.Proofs.Relay.Pause
import AuditRelay.Proofs.Relay.Cancelled
import AuditRelay.Proofs.Relay.Tallies
import AuditRelay.Proofs.Store.Fifo
import AuditRelay.Proofs.Store.Accounting
import AuditRelay.Proofs.Store.Acknowledged
import AuditRelay.Proofs.Store.DamagedLines
import AuditRelay.Proofs.Store.SetAside
import AuditRelay.Proofs.Store.Readers
import AuditRelay.Proofs.Relay.Backpressure
import AuditRelay.Proofs.Broker.Line
import AuditRelay.Proofs.Event.Lossless
import AuditRelay.Proofs.Event.Readings
import AuditRelay.Proofs.Store.Custody
import AuditRelay.Proofs.Store.SoleReader
import AuditRelay.Proofs.Store.Unfinished
import AuditRelay.Proofs.Store.FailureCounts
import AuditRelay.Proofs.Store.Pages
import AuditRelay.Proofs.Relay.Recovery
import AuditRelay.Proofs.Relay.Start
