import SideDns.Ipc.Message
import SideDns.Library.Broadcast
import SideDns.Store.RuleStore

namespace SideDns

open FiniteMap (IterationOrder SetOrder)
open Broadcast (Channel)

structure AppState where
  store : RuleStore
  events : Channel DnsEvent
  cancelled : Bool

structure DnsConfig where
  rules : List DnsRule
  deriving DecidableEq, Repr

namespace AppState

def new : AppState := ⟨RuleStore.new, Channel.channel 64, false⟩

def dispatch (st : AppState) (event : DnsEvent) : AppState :=
  { st with events := st.events.send event }

def cancel (st : AppState) : AppState := { st with cancelled := true }

def snapshotPermanent (order : IterationOrder String DnsRule) (st : AppState) : List DnsRule :=
  st.store.snapshotPersistent order

def snapshotAllDomains (ephemeralOrder persistentOrder : IterationOrder String DnsRule)
    (setOrder : SetOrder String) (st : AppState) : List String :=
  setOrder.visit
    ((st.store.snapshotAll ephemeralOrder persistentOrder).map DnsRule.domain).toFinset

def save (order : IterationOrder String DnsRule) (st : AppState) : DnsConfig :=
  ⟨st.snapshotPermanent order⟩

def loadRules (loaded : Option DnsConfig) (st : AppState) : AppState × List DnsRule :=
  let rules := match loaded with
    | some c => c.rules
    | none => []
  ({ st with store := (st.store.addAll rules).1 }, rules)

end AppState

end SideDns
