import Cheops.Lib.Bytes
import Cheops.Lib.Keyed
import Cheops.Lib.Run

/-! # The service list (`gui-service.c`)

The commands that the GUI runs on a port are kept in a linked list.  Each of the four operations
walks it with a test of its own.
-/

namespace Cheops.ServiceList

open Cheops.Lib

def PORT_PROTOCOL_TCP : Int := 1
def PORT_PROTOCOL_UDP : Int := 2

/-- `service_list_t`, without its link.  `addr` is its address. -/
structure Service where
  addr : Nat
  name : List UInt8
  port : Int
  protocol : Int
  command : List UInt8
deriving DecidableEq, Repr

/-- `service_list`.  The entries are numbered in the order in which they are allocated; `mallocs`
    is the next number. -/
structure Services where
  list : List Service
  mallocs : Nat
deriving DecidableEq, Repr

def write (addr : Nat) (f : Service → Service) (list : List Service) : List Service :=
  list.map fun p => if p.addr = addr then f p else p

def protocolOf (protocol : Int) : Int :=
  if protocol = 6 then PORT_PROTOCOL_TCP
  else if protocol = 17 then PORT_PROTOCOL_UDP
  else protocol

def serviceListAdd (s : Services) (name : List UInt8) (port protocol : Int)
    (string : List UInt8) : Services × Nat :=
  let protocol := protocolOf protocol
  match s.list.find? fun p => port = p.port ∧ protocol = p.protocol with
  | some p =>
    ({ s with list := write p.addr (fun p => { p with name, command := string }) s.list }, p.addr)
  | none =>
    ({ list := ⟨s.mallocs, name, port, protocol, string⟩ :: s.list, mallocs := s.mallocs + 1 },
      s.mallocs)

def serviceListRemovePtr (s : Services) (t : Nat) : Services :=
  { s with list := s.list.eraseP (·.addr = t) }

def serviceListChange (s : Services) (service : Nat) (name : List UInt8) (port protocol : Int)
    (string : List UInt8) : Services × Option Nat :=
  match s.list.find? (·.addr = service) with
  | some ret =>
    let s := { s with
      list := write ret.addr (fun p => { p with name, port, protocol, command := string }) s.list }
    if s.list.any fun p => p.addr ≠ ret.addr ∧ p.port = port ∧ p.protocol = protocol then
      (serviceListRemovePtr s ret.addr, none)
    else (s, some ret.addr)
  | none => (s, none)

def serviceListRemove (s : Services) (port protocol : Int) : Services :=
  { s with list := s.list.eraseP fun p => port = p.port ∧ protocol ≠ 0 ∧ p.protocol ≠ 0 }

def defaultList : List (String × Int × Int × String) :=
  [("ftp", 21, PORT_PROTOCOL_TCP, "xterm -e ftp %i"),
   ("ssh", 22, PORT_PROTOCOL_TCP, "xterm -e ssh %i -l %u"),
   ("telnet", 23, PORT_PROTOCOL_TCP, "xterm -e telnet %i"),
   ("http", 80, PORT_PROTOCOL_TCP, "netscape %i"),
   ("javaVNC:0", 5800, PORT_PROTOCOL_TCP, "netscape %i:%p"),
   ("VNC:0", 5900, PORT_PROTOCOL_TCP, "xterm -e vncviewer %i:%p")]

def serviceListDefault (s : Services) : Services :=
  defaultList.foldl (fun s c => (serviceListAdd s (text c.1) c.2.1 c.2.2.1 (text c.2.2.2)).1)
    { s with list := [] }

def serviceListGet (s : Services) (port protocol : Int) : Services × Option (List UInt8) :=
  let s := if s.list = [] then serviceListDefault s else s
  (s, (s.list.find? fun p => port = p.port ∧ protocol = p.protocol).map (·.command))

/-! ## Sequences of calls -/

inductive Op where
  | add (name : List UInt8) (port protocol : Int) (string : List UInt8)
  | change (service : Nat) (name : List UInt8) (port protocol : Int) (string : List UInt8)
  | remove (port protocol : Int)
  | get (port protocol : Int)
deriving DecidableEq, Repr

def exec (s : Services) : Op → Services
  | .add name port protocol string => (serviceListAdd s name port protocol string).1
  | .change service name port protocol string =>
    (serviceListChange s service name port protocol string).1
  | .remove port protocol => serviceListRemove s port protocol
  | .get port protocol => (serviceListGet s port protocol).1

def Callable (s : Services) : Op → Prop
  | .change service .. => ∃ p ∈ s.list, p.addr = service
  | _ => True

def Step (s : Services) (op : Op) (s' : Services) : Prop := Callable s op ∧ s' = exec s op

def initial : Services := ⟨[], 0⟩

end Cheops.ServiceList
