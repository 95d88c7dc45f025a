import Gocker.Lib.Machine
import Gocker.Lib.Json
import Gocker.Lib.JsonFields
import Gocker.Lib.JsonStream
import Gocker.Lib.JsonCut
import Gocker.Lib.Assignment
import Gocker.Lib.FirstMatch
import Gocker.Lib.Upsert
import Gocker.Lib.NetIP
import Gocker.Lib.BoundedMap
import Gocker.Lib.Fallible
import Gocker.Lib.Fields
import Gocker.Lib.GoPath
import Gocker.Lib.MountTable
import Gocker.Lib.Meter
import Gocker.Config
import Gocker.Types
import Gocker.Pkg
import Gocker.Network.Ipam
import Gocker.Network.AllocationFile
import Gocker.Network.IpamProcesses
import Gocker.Network.Specification
import Gocker.Network.Subnet
import Gocker.Network.Atomicity
import Gocker.Network.Netlink
import Gocker.Network.Veth
import Gocker.Network.Bridge
import Gocker.Container.Program
import Gocker.Container.Host
import Gocker.Container.RecordFile
import Gocker.Container.Steps
import Gocker.Container.Addresses
import Gocker.Container.Contract
import Gocker.Container.Restart
import Gocker.Container.Truth
import Gocker.Container.SingleInit
import Gocker.Container.Limits
import Gocker.Container.Finished
import Gocker.Container.Confinement
import Gocker.Container.Request
import Gocker.Container.Crash
import Gocker.Container.Ownership
import Gocker.Container.Frame
import Gocker.Container.GivenBack
import Gocker.Container.FailedStart
import Gocker.Container.FailedLaunch
import Gocker.Container.Removal
import Gocker.Container.Recovery
import Gocker.Container.Site
import Gocker.Container.Serial
import Gocker.Container.Leases
import Gocker.Container.Resolve
import Gocker.Container.RecordUpdate
import Gocker.Container.Adjust
import Gocker.Container.Mounts
import Gocker.Image.Reference
import Gocker.Image.Manifest
import Gocker.Image.Pulls
import Gocker.Daemon.Connection
import Gocker.Daemon.Interactive
import Gocker.Daemon.Output
import Gocker.Daemon.Liveness
import Gocker.Tty.CopyInput
import Gocker.Lib.Layout
import Gocker.Obsv.Config
import Gocker.Obsv.Checks
import Gocker.Obsv.Modules
import Gocker.Obsv.Fallback
import Gocker.Obsv.Sampling
import Gocker.Obsv.Syscalls
import Gocker.Obsv.CpuTime
import Gocker.Obsv.PidReuse
import Gocker.Obsv.Whitelist
import Gocker.Obsv.Scan
import Gocker.Obsv.Readings
import Gocker.Obsv.Admin
import Gocker.Ebpf.SchedMonitor
import Gocker.Ebpf.Latency
import Gocker.Ebpf.LatencyRecord
import Gocker.Ebpf.PacketsCount
import Gocker.Ebpf.PageFault
import Gocker.Ebpf.CgroupWalk
import Gocker.Lib.FileTree
import Gocker.Image.Untar
import Gocker.Image.Extraction
import Gocker.Image.PullImage
import Gocker.Container.Rootfs
import Gocker.Network.ContainerNetwork
import Gocker.Container.Pipe
import Gocker.Container.Init
import Gocker.Obsv.Booking
import Gocker.Obsv.Exporter
import Gocker.Daemon.Responses
import Gocker.Lib.GrowingList
import Gocker.Ebpf.Dump
