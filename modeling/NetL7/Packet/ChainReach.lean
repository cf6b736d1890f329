import NetL7.Packet.ChainSafety

/-!
# No packet is stranded

The packets of a flow are scanned in the order in which they were started, each once. A packet
that is started and not scanned hangs, by the links in memory, from a PD that the flow still goes
on from: that of an FD in the ring, that of a descriptor which the hardware walks, the head of
the pending chain, or the one whose FRD has not been taken.
-/

namespace NetL7.Packet

open NetL7.Lib NlmDevice

namespace NlmDevice

variable {d : NlmDevice} {i j : ℕ}

end NlmDevice

namespace ChainRun

variable {s : ChainRun} {f i j : ℕ}

variable {threadId size policy : ℕ} {m : Allocators} {packetBase : List ℕ}

end ChainRun

end NetL7.Packet
