import FfiRpc.Core.Table
import FfiRpc.Core.Fallible
import FfiRpc.Core.Bytes
import FfiRpc.Core.Lists
import FfiRpc.Core.LTS
import FfiRpc.Core.Ownership
import FfiRpc.Core.Nesting
import FfiRpc.Store.Types
import FfiRpc.Store.Origins
import FfiRpc.Store.Ops
import FfiRpc.Store.Inv
import FfiRpc.Store.Sweep
import FfiRpc.Store.Cascade
import FfiRpc.Store.Free
import FfiRpc.Store.Insert
import FfiRpc.Store.Copy
import FfiRpc.Store.Temp
import FfiRpc.Store.Runs
import FfiRpc.Store.Graph
import FfiRpc.Store.Reach
import FfiRpc.Store.Remove
import FfiRpc.Store.Lives
import FfiRpc.Store.Pins
import FfiRpc.Store.CopyLaws
import FfiRpc.Store.Shield
import FfiRpc.Store.Confined
import FfiRpc.Store.Beside
import FfiRpc.Store.DeepCopy
import FfiRpc.Store.DeepRun
import FfiRpc.Store.DeepApi
import FfiRpc.Store.Depth
import FfiRpc.Store.DeepLaws
import FfiRpc.Store.Buffers
import FfiRpc.Store.Originals
import FfiRpc.Store.Hash
import FfiRpc.Wire.Json
import FfiRpc.Wire.Encode
import FfiRpc.Wire.Content
import FfiRpc.Wire.Aliases
import FfiRpc.Wire.Duplicates
import FfiRpc.Wire.Send
import FfiRpc.Wire.SendLaws
import FfiRpc.Wire.Cycles
import FfiRpc.Wire.Decode
import FfiRpc.Wire.Parse
import FfiRpc.Wire.Receive
import FfiRpc.Wire.Arrival
import FfiRpc.Wire.RoundTrip
import FfiRpc.Wire.Built
import FfiRpc.Net.Stream
import FfiRpc.Net.Tables
import FfiRpc.Net.Poll
import FfiRpc.Net.PollLaws
import FfiRpc.Net.PollTable
import FfiRpc.Net.Persons
import FfiRpc.Net.Jobs
import FfiRpc.Net.Client
import FfiRpc.Net.Calls
import FfiRpc.Object.Call
import FfiRpc.Object.Thread
import FfiRpc.Object.Registry
import FfiRpc.Wire.Single
import FfiRpc.Wire.Floats
import FfiRpc.Object.Server
import FfiRpc.Object.Reply
import FfiRpc.Object.Services
import FfiRpc.Object.Foreign
import FfiRpc.Store.Slots
import FfiRpc.Store.Callbacks
import FfiRpc.Store.Muted
import FfiRpc.Object.Closure
import FfiRpc.Object.Packing
import FfiRpc.Object.LocalCall
import FfiRpc.Object.Borrowed
import FfiRpc.Object.Delivery
import FfiRpc.Object.Transport
import FfiRpc.Object.Invoked
import FfiRpc.Object.Returned
import FfiRpc.Containers.HashmapWalk
import FfiRpc.Containers.QueueLaws
import FfiRpc.Net.PoolProgress
