import KOs.Arch.Exclusion
import KOs.Arch.Mapping
import KOs.Mm.Exhaustion
import KOs.Sched.Order
import KOs.Sched.Poll
import KOs.Sched.Reaping
import KOs.Sched.Delivery
import KOs.Sched.Parts
import KOs.Sched.Membership
import KOs.Sched.Indices
import KOs.Sched.Stale
import KOs.Sync.Guarantees
import KOs.Common.Fifo
import KOs.Common.Log
import KOs.Common.Memmove
import KOs.Fs.Guarantees
import KOs.Fs.Handles
import KOs.Fs.Image
import KOs.Fs.Exits
import KOs.Fs.Exec
import KOs.Fs.Partition
import KOs.Time.Expiry
import KOs.Device.Matching
import KOs.Device.Transfers
import KOs.Device.Vram
import KOs.Net.Acknowledge
import KOs.Net.Teardown
import KOs.Net.Resolution
import KOs.Net.Binding
import KOs.Net.Demux
import KOs.Net.Dhcp
import KOs.Net.Payload
import KOs.Net.Sequence
import KOs.Net.Deadlocks
import KOs.Common.Hashtable
import KOs.Libk.Sbrk
