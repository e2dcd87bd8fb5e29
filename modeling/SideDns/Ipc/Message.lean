import SideDns.Rule

namespace SideDns

inductive IpcRequest where
  | add (domain : String) (target : SocketAddr) (https : Bool)
  | addEphemeral (domain : String) (target : SocketAddr) (https : Bool)
  | remove (domain : String)
  | removeEphemeral (domain : String)
  | list
  | resolve (domain : String)
  | status
  | stop
  | subscribe
  deriving DecidableEq, Repr

inductive DnsEvent where
  | ruleAdded (rule : DnsRule)
  | ruleRemoved (rule : DnsRule)
  | ephemeralAdded (rule : DnsRule)
  | ephemeralRemoved (rule : DnsRule)
  | daemonStopped
  deriving DecidableEq, Repr

inductive IpcResponse where
  | ok
  | error (message : String)
  | rules (rules : List DnsRule)
  | resolved (rule : Option DnsRule)
  | status (running : Bool) (ruleCount : Nat)
  | event (event : DnsEvent)
  deriving DecidableEq, Repr

namespace DnsEvent

def rule? : DnsEvent → Option DnsRule
  | ruleAdded rule => some rule
  | ruleRemoved rule => some rule
  | ephemeralAdded rule => some rule
  | ephemeralRemoved rule => some rule
  | daemonStopped => none

def isPersistent : DnsEvent → Bool
  | ruleAdded _ => true
  | ruleRemoved _ => true
  | _ => false

def evicts (event : DnsEvent) (domain : String) : Bool :=
  event.rule?.any (fun rule => rule.matches domain)

end DnsEvent

end SideDns
