/-!
# Constants

`internal/config/constants.go`, as far as the modelled functions read it.

The paths and names that the program only uses to find a file are left out: in the model a
cgroup is known by the id of its container, the daemon's socket by the connection on it, and the
allocation file by its place in `Network.Files`.  The others are texts, as in the source, so that
what a function makes of them (a parsed network, a path below a directory) can be computed.
-/

namespace Gocker.Config

/-- Where container records live, one directory a container. -/
def containerStoragePath : String := "/var/lib/gocker/containers"

/-- Where images live, one directory an image, and the manifest among them. -/
def imagesDir : String := "/var/lib/gocker/images"

/-! ## Network -/

/-- The bridge on the host to which one end of every container's veth pair is attached. -/
def bridgeName : String := "gocker0"
/-- The address of the bridge, with the prefix length that `netlink` wants to be told. -/
def bridgeIP : String := "10.20.0.1/24"
/-- The network from which the allocator takes the addresses.  Every call of the allocator parses
this text again. -/
def networkCIDR : String := "10.20.0.0/24"
/-- The default gateway of the containers, which is the bridge.  The allocator reserves it. -/
def gatewayIP : String := "10.20.0.1"

/-! ## Cgroups -/

/-- `InvalidLimit`: the value of an adjust flag that was not given. -/
def invalidLimit : Int := -1

end Gocker.Config
