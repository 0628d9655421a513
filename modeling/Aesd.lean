import Aesd.Lib.Rotation
import Aesd.Lib.Concat
import Aesd.Lib.Heap
import Aesd.Lib.Records
import Aesd.Lib.Trace
import Aesd.Lib.Interleave
import Aesd.Lib.SList
import Aesd.Lib.Mutex
import Aesd.Lib.Serial
import Aesd.Lib.Table
import Aesd.Driver.CircularBuffer
import Aesd.Driver.CharDevice
import Aesd.Driver.Represent
import Aesd.Driver.History
import Aesd.Driver.Ownership
import Aesd.Driver.Reading
import Aesd.Driver.Seek
import Aesd.Driver.Reposition
import Aesd.Driver.Locking
import Aesd.Driver.Concurrent
import Aesd.Driver.Module
import Aesd.Driver.Journal
import Aesd.Server.SeekCommand
import Aesd.Server.Handler
import Aesd.Server.Buffer
import Aesd.Server.Assembly
import Aesd.Server.Segmentation
import Aesd.Server.SeekGrammar
import Aesd.Server.Packets
import Aesd.Server.System
import Aesd.Server.ReplySegment
import Aesd.Server.FullReply
import Aesd.Server.DataFile
import Aesd.Server.Delivery
import Aesd.Server.Bounds
import Aesd.Server.Resources
import Aesd.Server.Progress
import Aesd.Server.FileContent
import Aesd.Server.Relay
import Aesd.Server.SeekReply
import Aesd.Server.Main
import Aesd.Server.Startup
import Aesd.Server.Lifetime
import Aesd.Server.Reaping
import Aesd.Server.Shutdown
import Aesd.Server.Descriptors
import Aesd.Server.Return
import Aesd.Server.Interrupt
import Aesd.Server.Whole
import Aesd.Threading
