import UsbRecorder.Bus.Stimulus
import UsbRecorder.Control.Register
import UsbRecorder.Monitor.Trace
import UsbRecorder.Pipeline.LockStep
import UsbRecorder.Recorder.Run
import UsbRecorder.Session.Setup
import UsbRecorder.Proofs.Crossing.Gray
import UsbRecorder.Proofs.Crossing.Window
import UsbRecorder.Proofs.Crossing.History
import UsbRecorder.Proofs.Memory.Circle
import UsbRecorder.Proofs.Memory.RingView
import UsbRecorder.Proofs.Recorder.Logging
import UsbRecorder.Proofs.Recorder.Packet
import UsbRecorder.Proofs.Recorder.Outcome
import UsbRecorder.Proofs.Recorder.Reception
import UsbRecorder.Proofs.Overflow.SpillView
import UsbRecorder.Proofs.Pipeline.Reading
import UsbRecorder.Proofs.Pipeline.Ledger
import UsbRecorder.Proofs.Pipeline.Reports
import UsbRecorder.Proofs.Pipeline.Journal
import UsbRecorder.Proofs.Pipeline.Delivery
import UsbRecorder.Proofs.Overflow.Lossless
import UsbRecorder.Proofs.Recorder.Entries
import UsbRecorder.Proofs.Recorder.Turns
import UsbRecorder.Proofs.Recorder.Account
import UsbRecorder.Proofs.Recorder.Dated
import UsbRecorder.Proofs.Recorder.Room
import UsbRecorder.Proofs.Recorder.Line
import UsbRecorder.Proofs.Recorder.Order
import UsbRecorder.Proofs.Recorder.Timing
import UsbRecorder.Proofs.Recorder.Pace
import UsbRecorder.Proofs.Crossing.Tally
import UsbRecorder.Proofs.Pipeline.Calls
import UsbRecorder.Proofs.Pipeline.Conservation
import UsbRecorder.Proofs.Crossing.Closing
import UsbRecorder.Proofs.Crossing.Neighbours
import UsbRecorder.Proofs.Crossing.Visibility
import UsbRecorder.Proofs.Pipeline.Completion
import UsbRecorder.Proofs.Monitor.Settling
import UsbRecorder.Proofs.Monitor.Handshake
import UsbRecorder.Proofs.Monitor.Phases
import UsbRecorder.Proofs.Monitor.History
import UsbRecorder.Proofs.Monitor.Warrant
import UsbRecorder.Proofs.Monitor.PowerLoss
import UsbRecorder.Proofs.Monitor.Steady
import UsbRecorder.Proofs.Monitor.LongReset
import UsbRecorder.Proofs.Report.Chunks
import UsbRecorder.Proofs.Session.Building
import UsbRecorder.Proofs.Memory.RecordLine
import UsbRecorder.Proofs.Overflow.Bursts
import UsbRecorder.Proofs.Overflow.Emptying
import UsbRecorder.Proofs.Report.Feeding
import UsbRecorder.Proofs.Monitor.Moves
import UsbRecorder.Proofs.Monitor.Deadlines
import UsbRecorder.Proofs.Monitor.Agreement
import UsbRecorder.Proofs.Monitor.Outage
import UsbRecorder.Proofs.Monitor.SpeedDue
import UsbRecorder.Proofs.Report.Times
import UsbRecorder.Proofs.Session.Relay
import UsbRecorder.Proofs.Recorder.Fates
