import Cheops.Fields.Network
import Cheops.Lib.CString
import Cheops.Lib.Run
import Cheops.OsScan.Arrival

/-! # Discover requests of the GUI (`gui-handlers.c`, `gui-dns.c`)

The user names a host, a network or a range.  A name has to be looked up before the request can be
sent, and a range may have two.  Meanwhile the request waits in a `discover_dns`, which a query of
`dns_query_list` points to, a call of `dns_name_lookup` that runs the main loop, or the dialog of
`dns_timeout`.  In each of them anything else may happen.

Answers may come here while other answers are dealt with, which the timer of `dns_timer` prevents.
-/

namespace Cheops.Gui.Discovery

open Cheops.Lib Cheops.Fields
open Cheops.OsScan (ip2strOn)

variable (o : ByteOrder)

/-! ## The state -/

inductive Request where
  | host (name : List UInt8)
  | network (name mask : List UInt8)
  | range (first last : List UInt8)
deriving DecidableEq, Repr

/-- `discover_dns`.  `network` is `DISCOVER_DNS_FLAGS_NETWORK`.  `request` and `serial`, which
    numbers the requests, are ghosts. -/
structure DiscoverDns where
  start : Option (List UInt8)
  end_ : Option (List UInt8)
  startIp : Nat
  endIp : Nat
  network : Bool
  np : Nat
  agent : Nat
  request : Request
  serial : Nat
deriving DecidableEq, Repr

inductive AnswerCb where
  | doHostDiscoverAfterDns
  | doNetworkDiscoverAfterDns
  | doDiscoverRangeAfterFirstDns
  | doDiscoverRangeAfterLastDns
deriving DecidableEq, Repr

/-- `dns_query`, for the lookup of a name. -/
structure DnsQuery where
  hostname : List UInt8
  answerCb : AnswerCb
  data : Nat
deriving DecidableEq, Repr

inductive Activation where
  /-- `dns_name_lookup`, before it makes the query. -/
  | lookup (answerCb : AnswerCb) (data : Nat)
  /-- `dns_timeout`, in its dialog. -/
  | timeout (data : Nat)
deriving DecidableEq, Repr

def Activation.data : Activation → Nat
  | .lookup _ data | .timeout data => data

/-- The `discover_dns` that are allocated, `dns_query_list`, the calls that run the main loop,
    innermost first, and `IP_cache`.  The others are ghosts: the requests that have been sent, the
    names that hosts were given, the `discover_dns` that nothing points to any more, and the number
    of requests.  `fault` is set when memory is used that must not be. -/
structure Discoveries where
  records : Nat → Option DiscoverDns
  queries : List DnsQuery
  stack : List Activation
  ipCache : List (Nat × List UInt8)
  sent : List DiscoverDns
  given : List (Nat × List UInt8)
  lost : List Nat
  started : Nat
  fault : Bool

def initial : Discoveries where
  records _ := none
  queries := []
  stack := []
  ipCache := []
  sent := []
  given := []
  lost := []
  started := 0
  fault := false

/-! ## The callbacks -/

def DiscoverDns.ordered (dd : DiscoverDns) : DiscoverDns :=
  if o.ntoh 4 dd.startIp > o.ntoh 4 dd.endIp then
    { dd with start := dd.end_, end_ := dd.start, startIp := dd.endIp, endIp := dd.startIp }
  else dd

def DiscoverDns.name (answerCb : AnswerCb) (dd : DiscoverDns) : Option (List UInt8) :=
  if answerCb = .doDiscoverRangeAfterLastDns then dd.end_ else dd.start

/-- The callback with which `dns_timeout` tries again. -/
def DiscoverDns.retry (dd : DiscoverDns) : AnswerCb :=
  if dd.network then .doNetworkDiscoverAfterDns else .doHostDiscoverAfterDns

/-- `get_ip_cache`: the name, and what is left. -/
def getIpCache (ip : Nat) :
    List (Nat × List UInt8) → Option (List UInt8 × List (Nat × List UInt8))
  | [] => none
  | p :: ps =>
    if ip = p.1 then some (p.2, ps) else (getIpCache ip ps).map fun (name, ps) => (name, p :: ps)

namespace Discoveries

def free (data : Nat) (s : Discoveries) : Discoveries :=
  { s with records := Function.update s.records data none }

def fail (s : Discoveries) : Discoveries := { s with fault := true }

/-- `add_ip_cache`, if there is a name. -/
def addIpCache (ip : Nat) (name : Option (List UInt8)) (s : Discoveries) : Discoveries :=
  match name with
  | some name => { s with ipCache := (ip, name) :: s.ipCache }
  | none => s

def sendDiscoverRequest (dd : DiscoverDns) (s : Discoveries) : Discoveries :=
  let s := s.addIpCache (o.ntoh 4 dd.startIp) dd.start
  { s with sent := s.sent ++ [dd] }

/-- `dns_name_lookup`, up to its first main loop. -/
def dnsNameLookup (answerCb : AnswerCb) (data : Nat) (s : Discoveries) : Discoveries :=
  { s with stack := .lookup answerCb data :: s.stack }

def doHostDiscoverAfterDns (ip : List UInt8) (data : Nat) (s : Discoveries) : Discoveries :=
  match s.records data with
  | none => s.fail
  | some dd =>
    match inetAton ip with
    | none => s.free data
    | some addr =>
      let startIp := o.hton 4 (sAddr o addr)
      (s.sendDiscoverRequest o { dd with startIp, endIp := startIp }).free data

/-- `do_network_discover_after_dns`.  After an invalid netmask nothing is freed. -/
def doNetworkDiscoverAfterDns (ip : List UInt8) (data : Nat) (s : Discoveries) : Discoveries :=
  match s.records data with
  | none => s.fail
  | some dd =>
    match inetAton ip, dd.end_ with
    | none, _ => s.free data
    | some _, none => s.fail
    | some addr, some end_ =>
      match guiNetwork o (sAddr o addr) end_ with
      | none => { s with lost := data :: s.lost }
      | some (startIp, endIp) => (s.sendDiscoverRequest o { dd with startIp, endIp }).free data

def doDiscoverRangeAfterLastDns (ip : List UInt8) (data : Nat) (s : Discoveries) : Discoveries :=
  match s.records data with
  | none => s.fail
  | some dd =>
    match inetAton ip with
    | none => s.free data
    | some addr =>
      let dd := DiscoverDns.ordered o { dd with endIp := o.hton 4 (sAddr o addr) }
      (s.sendDiscoverRequest o dd).free data

def doDiscoverRangeAfterFirstDns (ip : List UInt8) (data : Nat) (s : Discoveries) : Discoveries :=
  match s.records data with
  | none => s.fail
  | some dd =>
    match inetAton ip, dd.end_ with
    | none, _ => s.free data
    | some _, none => s.fail
    | some addr, some end_ =>
      let dd := { dd with startIp := o.hton 4 (sAddr o addr) }
      match inetAton end_ with
      | none =>
        { s with records := Function.update s.records data (some dd) }.dnsNameLookup
          .doDiscoverRangeAfterLastDns data
      | some last =>
        doDiscoverRangeAfterLastDns o end_ data { s with
          records := Function.update s.records data (some { dd with endIp := sAddr o last }) }

def answer (answerCb : AnswerCb) (ip : List UInt8) (data : Nat) (s : Discoveries) : Discoveries :=
  match answerCb with
  | .doHostDiscoverAfterDns => s.doHostDiscoverAfterDns o ip data
  | .doNetworkDiscoverAfterDns => s.doNetworkDiscoverAfterDns o ip data
  | .doDiscoverRangeAfterFirstDns => s.doDiscoverRangeAfterFirstDns o ip data
  | .doDiscoverRangeAfterLastDns => s.doDiscoverRangeAfterLastDns o ip data

def question (start : List UInt8) : List UInt8 :=
  text "I could not get an IP address for '" ++ start ++
    text "'. Do you want me to try it again?"

/-- `dns_timeout`, up to its dialog.  The buffer for the question has 256 bytes. -/
def dnsTimeout (data : Nat) (s : Discoveries) : Discoveries :=
  match (s.records data).bind DiscoverDns.start with
  | none => s.fail
  | some start =>
    if (question start).length < 256 then { s with stack := .timeout data :: s.stack } else s.fail

/-- The rest of `dns_timeout`. -/
def dnsTimeoutAnswered (again : Bool) (data : Nat) (s : Discoveries) : Discoveries :=
  match s.records data with
  | none => s.fail
  | some dd =>
    if again then s.dnsNameLookup dd.retry data else s.free data

/-- The rest of `dns_name_lookup`. -/
def dnsSubmit (answerCb : AnswerCb) (data : Nat) (s : Discoveries) : Discoveries :=
  match (s.records data).bind (DiscoverDns.name answerCb) with
  | none => s.fail
  | some hostname => { s with queries := ⟨hostname, answerCb, data⟩ :: s.queries }

/-! ## Requests -/

def alloc (data : Nat) (dd : DiscoverDns) (s : Discoveries) : Discoveries :=
  { s with records := Function.update s.records data (some dd), started := s.started + 1 }

/-- `do_discover`, for a network. -/
def discoverNetwork (agent np data : Nat) (name mask : List UInt8) (s : Discoveries) :
    Discoveries :=
  let s := s.alloc data
    { start := some name, end_ := some mask, startIp := ((inetAton name).map (sAddr o)).getD 0
      endIp := 0, network := true, np, agent, request := .network name mask, serial := s.started }
  match inetAton name with
  | none => s.dnsNameLookup .doNetworkDiscoverAfterDns data
  | some _ => s.doNetworkDiscoverAfterDns o name data

/-- `do_discover`, for a host.  The name of an address is not kept. -/
def discoverHost (agent np data : Nat) (host : List UInt8) (s : Discoveries) : Discoveries :=
  let dd : DiscoverDns :=
    { start := none, end_ := none, startIp := ((inetAton host).map (sAddr o)).getD 0
      endIp := 0, network := false, np, agent, request := .host host, serial := s.started }
  match inetAton host with
  | none =>
    (s.alloc data { dd with start := some host }).dnsNameLookup .doHostDiscoverAfterDns data
  | some _ => (s.alloc data dd).doHostDiscoverAfterDns o host data

def doDiscover (agent np data : Nat) (host : List UInt8) (s : Discoveries) : Discoveries :=
  match strchr host 47 with
  | some c => s.discoverNetwork o agent np data (host.take c) (host.drop (c + 1))
  | none => s.discoverHost o agent np data host

def doDiscoverRange (agent np data : Nat) (first last : List UInt8) (s : Discoveries) :
    Discoveries :=
  let s := s.alloc data
    { start := some first, end_ := some last, startIp := ((inetAton first).map (sAddr o)).getD 0
      endIp := 0, network := false, np, agent, request := .range first last, serial := s.started }
  match inetAton first with
  | none => s.dnsNameLookup .doDiscoverRangeAfterFirstDns data
  | some _ => s.doDiscoverRangeAfterFirstDns o first data

end Discoveries

/-! ## Steps -/

inductive Action where
  | discover (agent np data : Nat) (host : List UInt8)
  | discoverRange (agent np data : Nat) (first last : List UInt8)
  /-- The first main loop of `dns_name_lookup` ends. -/
  | submit
  /-- The query has been answered, with an `s_addr` or a failure. -/
  | answer (q : DnsQuery) (inaddr : Option Nat)
  /-- The dialog is closed. -/
  | dialog (again : Bool)
  /-- `handle_discover_reply`, for an address in network order. -/
  | reply (ip : Nat)
deriving DecidableEq, Repr

/-- A step, if it is possible.  `malloc` returns `data`, which is not in use. -/
def step (s : Discoveries) : Action → Option Discoveries
  | .discover agent np data host =>
    if (s.records data).isNone then some (s.doDiscover o agent np data host) else none
  | .discoverRange agent np data first last =>
    if (s.records data).isNone then some (s.doDiscoverRange o agent np data first last) else none
  | .submit =>
    match s.stack with
    | .lookup answerCb data :: stack => some ({ s with stack }.dnsSubmit answerCb data)
    | _ => none
  | .answer q inaddr =>
    if q ∈ s.queries then
      let s := { s with queries := s.queries.erase q }
      match inaddr with
      | some inaddr => some (s.answer o q.answerCb (ip2strOn o inaddr) q.data)
      | none => some (s.dnsTimeout q.data)
    else none
  | .dialog again =>
    match s.stack with
    | .timeout data :: stack => some ({ s with stack }.dnsTimeoutAnswered again data)
    | _ => none
  | .reply ip =>
    match getIpCache ip s.ipCache with
    | some (name, ipCache) => some { s with ipCache, given := (ip, name) :: s.given }
    | none => some s

def Step (s : Discoveries) (action : Action) (s' : Discoveries) : Prop := step o s action = some s'

end Cheops.Gui.Discovery
