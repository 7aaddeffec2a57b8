import Leasehold.Pool.Supply
import Leasehold.Text.Numeral

/-!
# Connections to a TCP server

A connector opens connections to one address, a host and a port.  A connection is checked by
looking for an error that the system has noted, which can be seen once, and then for the peer.  A
peer that has closed its side in good order is not noticed.  Closing a connection whose peer is
gone is no error.

The network is seen as far as it matters: whether there is a way to other hosts at all, and what the
peers of the open connections have done.
-/

namespace Leasehold.Net

/-- Why the system refuses something. -/
inductive SystemError where
  /-- There is no way to the host. -/
  | unreachable
  /-- The peer has broken off. -/
  | reset
  /-- There is no peer. -/
  | notConnected
  /-- The address has no port. -/
  | noPort
  /-- The port is none. -/
  | badPort
deriving DecidableEq, Repr

/-- The text of a system error. -/
def SystemError.message : SystemError → String
  | .unreachable => "Network is unreachable (os error 101)"
  | .reset => "Connection reset by peer (os error 104)"
  | .notConnected => "Transport endpoint is not connected (os error 107)"
  | .noPort => "invalid socket address"
  | .badPort => "invalid port value"

/-- A connector. -/
structure Connector where
  /-- The address. -/
  addr : String
  /-- Whether small packets are sent at once. -/
  nodelay : Bool := true
deriving DecidableEq, Repr

/-- What the peer of a connection has done. -/
inductive Peer where
  /-- It is there, or has closed its side in good order. -/
  | present
  /-- It has broken off, and the error has not been seen. -/
  | broken
  /-- It has broken off, and the error has been seen. -/
  | gone
deriving DecidableEq, Repr

/-- A connection that is open. -/
structure Connection where
  /-- Whether small packets are sent at once. -/
  nodelay : Bool
  /-- What its peer has done. -/
  peer : Peer := .present
deriving DecidableEq, Repr

/-- A number of at most sixteen bits; a plus may stand before its digits. -/
def port? (cs : List Char) : Option Nat :=
  let ds := match cs with
    | '+' :: ds => ds
    | ds => ds
  if ds = [] then none else (Numeral.value? 10 ds).filter (· ≤ 65535)

/-- What is wrong with an address, if anything is. -/
def addressError? (addr : String) : Option SystemError :=
  let cs := addr.toList
  if ¬cs.contains ':' then some .noPort
  else if (port? (cs.reverse.takeWhile (· != ':')).reverse).isNone then some .badPort
  else none

namespace Connector

/-- Opens a connection. -/
def create (c : Connector) (reachable : Bool) : Except ResourceError Connection :=
  let refuse (e : SystemError) : Except ResourceError Connection :=
    .error (.create (c.addr ++ ": " ++ e.message))
  match addressError? c.addr with
  | some e => refuse e
  | none => if reachable then .ok { nodelay := c.nodelay } else refuse .unreachable

end Connector

namespace Connection

/-- Checks a connection.  An error that is seen is not seen again. -/
def check (c : Connection) : Except ResourceError Unit × Connection :=
  match c.peer with
  | .present => (.ok (), c)
  | .broken => (.error (.unhealthy SystemError.reset.message), { c with peer := .gone })
  | .gone => (.error (.unhealthy SystemError.notConnected.message), c)

/-- Closes a connection. -/
def close (_ : Connection) : Except ResourceError Unit := .ok ()

end Connection

/-! ## Trying out a connector -/

/-- A step with a connector.  Connections have numbers, in the order in which they were opened. -/
inductive Step where
  /-- Open a connection. -/
  | create
  /-- Check a connection. -/
  | check (conn : Nat)
  /-- Close a connection. -/
  | destroy (conn : Nat)
  /-- The peer closes its side in good order. -/
  | peerCloses (conn : Nat)
  /-- The peer breaks off. -/
  | peerResets (conn : Nat)
deriving Repr

/-- What comes of a step. -/
inductive Result where
  /-- It was carried out. -/
  | ok
  /-- A connection was opened. -/
  | created (c : Connection)
  /-- It failed. -/
  | failed (e : ResourceError)
  /-- The connection was closed before. -/
  | gone
deriving Repr

/-- What comes of steps: a result of each, or the number of a connection that was never opened and
how many there were. -/
inductive Outcome where
  /-- The results. -/
  | results (rs : List Result)
  /-- A connection that was never opened. -/
  | outOfBounds (count conn : Nat)
deriving Repr

/-- Carries out a step on a connection; one that has been closed is missing. -/
def Connection.perform? (c? : Option Connection) : Step → Result × Option Connection
  | .create => (.ok, c?)
  | .check _ =>
      match c? with
      | none => (.gone, none)
      | some c =>
          match c.check with
          | (.ok _, c) => (.ok, some c)
          | (.error e, c) => (.failed e, some c)
  | .destroy _ =>
      match c? with
      | none => (.gone, none)
      | some c =>
          match c.close with
          | .ok _ => (.ok, none)
          | .error e => (.failed e, none)
  | .peerCloses _ => (.ok, c?)
  | .peerResets _ => (.ok, c?.map fun c => { c with peer := .broken })

/-- The connection that a step is about. -/
def Step.conn? : Step → Option Nat
  | .create => none
  | .check i | .destroy i | .peerCloses i | .peerResets i => some i

/-- Carries out steps. -/
def run (connector : Connector) (reachable : Bool) :
    (opened : List (Option Connection)) → List Step → Outcome
  | _, [] => .results []
  | opened, step :: steps =>
      let goOn (r : Result) (opened : List (Option Connection)) : Outcome :=
        match run connector reachable opened steps with
        | .results rs => .results (r :: rs)
        | out => out
      match step.conn? with
      | none =>
          match connector.create reachable with
          | .ok c => goOn (.created c) (opened ++ [some c])
          | .error e => goOn (.failed e) opened
      | some i =>
          match opened[i]? with
          | none => .outOfBounds opened.length i
          | some c? =>
              let (r, c?) := Connection.perform? c? step
              goOn r (opened.set i c?)

end Leasehold.Net
