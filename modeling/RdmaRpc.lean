import RdmaRpc.Mempool
import RdmaRpc.Server.Conservation
import RdmaRpc.Lifetimes
import RdmaRpc.Client.Refusals
import RdmaRpc.Client.Receives
import RdmaRpc.Net.Credits
import RdmaRpc.Net.Aborts
import RdmaRpc.Teardown.Waits
import RdmaRpc.Net.Framing
import RdmaRpc.Cm.Resources
import RdmaRpc.Handle
import RdmaRpc.App.Fifo
import RdmaRpc.Net.Confined
import RdmaRpc.Teardown.Disconnects
import RdmaRpc.Shared.Overflow
import RdmaRpc.Client.Buffers
import RdmaRpc.App.Stop
import RdmaRpc.Msg.Alignment
import RdmaRpc.Mempool.Conservation
