import DenialMonitor.Main
import DenialMonitor.Monitor.Succession
import DenialMonitor.Proofs.Overrides.Late
import DenialMonitor.Timers.Wait
import DenialMonitor.Proofs.Text.Utf8
import DenialMonitor.Proofs.Policy.Edits
import DenialMonitor.Proofs.LogTail.Epochs
import DenialMonitor.Proofs.View.Absence
import DenialMonitor.Proofs.View.Publication
import DenialMonitor.Proofs.Denial.Arrivals
import DenialMonitor.Proofs.Watch.Lifecycle
import DenialMonitor.Proofs.Denial.RoundTrip
import DenialMonitor.Proofs.LogTail.Wakeups
import DenialMonitor.Proofs.View.Observers
import DenialMonitor.Proofs.View.Starting
import DenialMonitor.Proofs.Monitor.Shutdown
import DenialMonitor.Proofs.Overrides.Failure
import DenialMonitor.Proofs.View.Acknowledged
import DenialMonitor.Proofs.View.Refresh
import DenialMonitor.Proofs.Timers.Timing
import DenialMonitor.Proofs.View.Outcomes
import DenialMonitor.Proofs.Denial.Window
import DenialMonitor.Proofs.Denial.Counting
import DenialMonitor.Proofs.Policy.UnknownMembers
import DenialMonitor.Proofs.Overrides.Removal
import DenialMonitor.Proofs.Policy.Protection
import DenialMonitor.Proofs.Disk.Readers
import DenialMonitor.Proofs.Settings.Layers
