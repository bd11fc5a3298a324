import Cheops.Lib.Markup
import Cheops.OsScan.Request

/-! # OS scans: the result of a scan (`agent-nmapxml.c`)

`parseNmapScan` walks over the tree that libxml2 makes of what nmap has written.  Every element of
a kind sets the fields it has attributes for, so a field is that of the last such attribute; and
every `port` adds an entry, with or without attributes (`parseNmapScan_eq`).
-/

namespace Cheops.OsScan

open Cheops.Lib

def PORT_STATE_OPEN : Nat := 1
def PORT_PROTOCOL_TCP : Nat := 1
def PORT_PROTOCOL_UDP : Nat := 2
def PORT_PROTO_NONE : Nat := 0
variable (L : Libc)

def NmapHostPort.zero : NmapHostPort := ⟨0, 0, 0, none, none, 0, 0, 0, 0⟩

/-- `ret` after `memset`; an address that is `NULL` is kept as the empty string. -/
def NmapScan.zero : NmapScan := ⟨[], [], none, none, none⟩

variable {L} {node c : XmlNode} {port : NmapHostPort} {nms n : NmapScan}

end Cheops.OsScan
