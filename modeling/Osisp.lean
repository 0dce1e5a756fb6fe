import Osisp.Chat.Dispatch
import Osisp.Chat.Isolation
import Osisp.Chat.History
import Osisp.Chat.Roster
import Osisp.Chat.Faults
import Osisp.Chat.Handshake
import Osisp.Chat.WellFormed
import Osisp.Chat.Whole
import Osisp.Chat.Listing
import Osisp.Chat.Private
import Osisp.Chat.Capacity
import Osisp.Chat.Dropping
import Osisp.Chat.Settled
import Osisp.Chat.Secrecy
import Osisp.Chat.Members
import Osisp.Fifo.Progress
import Osisp.Fifo.Interactive
import Osisp.Scanner.Program
import Osisp.Csv.Readback
import Osisp.Recovery.Counters
import Osisp.Workers.Shutdown
import Osisp.Stress.Joined
import Osisp.Stress.Statistics
import Osisp.Stress.Quiet
import Osisp.Stress.Loops
import Osisp.Stress.Usage
import Osisp.Monitor.Table
import Osisp.Proc.Listing
import Osisp.Sums.Script
import Osisp.Censor.Loading
import Osisp.Censor.Program
import Osisp.Censor.Order
import Osisp.Censor.Wide
