import Vlog.Lib.Run
import Vlog.Lib.Framing
import Vlog.Lib.Lines
import Vlog.Lib.Mutex
import Vlog.Lib.Decimal
import Vlog.Lib.Slots
import Vlog.Lib.Words
import Vlog.Lib.Memory
import Vlog.Lib.Lcg
import Vlog.Libc.CString
import Vlog.Libc.Number
import Vlog.Libc.Numeral
import Vlog.Libc.Hex
import Vlog.Emulator.Logstore
import Vlog.Emulator.LogFile
import Vlog.Emulator.Netlog
import Vlog.Emulator.Collector
import Vlog.Emulator.Sockets
import Vlog.Emulator.Levels
import Vlog.Emulator.Lemmas.Feed
import Vlog.Emulator.Lemmas.Collector
import Vlog.Emulator.Lemmas.Listener
import Vlog.Emulator.Lemmas.Attribution
import Vlog.Emulator.Lemmas.Sockets
import Vlog.Emulator.Theorems
import Vlog.Runner.LogSink
import Vlog.Runner.Shipping
import Vlog.Runner.Ledger
import Vlog.Runner.Retry
import Vlog.Runner.Address
import Vlog.Runner.Protocol
import Vlog.Runner.Server
import Vlog.Runner.Lemmas.Address
import Vlog.Runner.Lemmas.Shipping
import Vlog.Runner.Lemmas.Ledger
import Vlog.Runner.Lemmas.Retry
import Vlog.Runner.Lemmas.Record
import Vlog.Runner.Lemmas.Protocol
import Vlog.Runner.Lemmas.Reply
import Vlog.Runner.Lemmas.Server
import Vlog.Runner.Lemmas.Sum
import Vlog.Runner.Lemmas.Count
import Vlog.Runner.Theorems
import Vlog.Vhost.Sink
import Vlog.Vhost.Backend
import Vlog.Vhost.Watch
import Vlog.Vhost.Queue
import Vlog.Vhost.Lemmas.Sink
import Vlog.Vhost.Lemmas.Queue
import Vlog.Vhost.Lemmas.Backend
import Vlog.Vhost.Lemmas.Watch
import Vlog.Vhost.Theorems
import Vlog.Device.Abi
import Vlog.Device.Spec
import Vlog.Device.Reference
import Vlog.Device.Lemmas.Status
import Vlog.Device.Theorems
import Vlog.Guest.Library
import Vlog.Guest.Bootinfo
import Vlog.Guest.Scenarios
import Vlog.Guest.Oracle
import Vlog.Guest.Check
import Vlog.Guest.Lemmas.Library
import Vlog.Guest.Lemmas.Blob
import Vlog.Guest.Lemmas.Scenarios
import Vlog.Guest.Lemmas.Oracle
import Vlog.Guest.Lemmas.Journal
import Vlog.Guest.Theorems
import Vlog.Runner.Lemmas.Marks
import Vlog.Runner.Marks
import Vlog.System.Fleet
import Vlog.System.Lemmas.Fleet
import Vlog.System.Theorems
import Vlog.Lib.Ownership
import Vlog.Vhost.Messages
import Vlog.Vhost.Device
import Vlog.Vhost.Loop
import Vlog.Vhost.Resources
import Vlog.Vhost.Lemmas.Resources
import Vlog.Vhost.Lemmas.Handlers
import Vlog.Vhost.Process
import Vlog.Vhost.Lemmas.Loop
import Vlog.Vhost.Lemmas.Process
import Vlog.Vhost.Lemmas.Rings
import Vlog.Vhost.Replies
import Vlog.Vhost.Lemmas.Replies
import Vlog.Lib.Ring
import Vlog.Vhost.Transmit
import Vlog.Vhost.Lemmas.Transmit
import Vlog.Vhost.Lemmas.Position
import Vlog.Emulator.Descriptors
import Vlog.Emulator.Lemmas.Descriptors
import Vlog.Vhost.Chains
import Vlog.Vhost.Lemmas.Layout
import Vlog.Vhost.Lemmas.Chains
