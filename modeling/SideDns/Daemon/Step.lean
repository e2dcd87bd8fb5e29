import SideDns.Dns.Manager
import SideDns.Ipc.Handler

namespace SideDns

open FiniteMap (HashMap IterationOrder SetOrder)

inductive Lookup where
  | missed (domain : String)
  | holding (domain : String) (rule : DnsRule)
  deriving DecidableEq, Repr

inductive WatchPhase where
  | unsubscribed
  | waiting
  | invalidating (event : DnsEvent)
  | saving
  | storing (config : DnsConfig)
  | done
  deriving DecidableEq, Repr

def WatchPhase.event? : WatchPhase → Option DnsEvent
  | invalidating event => some event
  | _ => none

structure Watch where
  phase : WatchPhase
  next : Nat
  deriving DecidableEq, Repr

structure Call where
  request : IpcRequest
  stage : Stage
  deriving DecidableEq, Repr

inductive Runner where
  | selecting
  | joining
  deriving DecidableEq, Repr

structure Daemon (Key : Type) where
  state : AppState
  resolver : DomainResolver Key
  lookups : List Lookup
  calls : List Call
  watch : Watch
  manager : Manager
  runner : Runner
  saved : DnsConfig

inductive WatchAction where
  | subscribe
  | recv
  | invalidate
  | snapshot (order : IterationOrder String DnsRule)
  | store
  | cancelled

inductive ManagerAction where
  | revert (succeeded : Bool)
  | subscribe
  | snapshot (ephemeralOrder persistentOrder : IterationOrder String DnsRule)
      (setOrder : SetOrder String)
  | apply (succeeded : Bool)
  | recv
  | cancelled

inductive Action where
  | probe (domain : String)
  | advance (i : Nat)
  | request (order : IterationOrder String DnsRule) (request : IpcRequest)
  | proceed (i : Nat)
  | watch (action : WatchAction)
  | manager (action : ManagerAction)
  | signal
  | shutdown

namespace Daemon

variable {Key : Type}

def idle (store : RuleStore) (saved : DnsConfig) : Daemon Key :=
  ⟨⟨store, Broadcast.Channel.channel 64, false⟩, DomainResolver.new, [], [], ⟨.unsubscribed, 0⟩,
    Manager.start, .selecting, saved⟩

def start (config : DnsConfig) : Daemon Key :=
  idle (AppState.new.loadRules (some config)).1.store config

def probe (d : Daemon Key) (domain : String) : Daemon Key :=
  match d.resolver.cache.lookup domain with
  | some _ => d
  | none => { d with lookups := d.lookups ++ [.missed domain] }

def advance (d : Daemon Key) (i : Nat) : Daemon Key :=
  match d.lookups[i]? with
  | none => d
  | some (.missed domain) =>
    match d.state.store.resolve domain with
    | none => { d with lookups := d.lookups.eraseIdx i }
    | some rule => { d with lookups := d.lookups.set i (.holding domain rule) }
  | some (.holding domain rule) =>
    { d with
      resolver := { d.resolver with cache := d.resolver.cache.insert domain rule }
      lookups := d.lookups.eraseIdx i }

def accept (lib : TextLibrary) (d : Daemon Key) (order : IterationOrder String DnsRule)
    (request : IpcRequest) : Daemon Key :=
  let accepted := d.state.accept lib order request
  { d with state := accepted.1, calls := d.calls ++ [⟨request, accepted.2⟩] }

def proceed (d : Daemon Key) (i : Nat) : Daemon Key :=
  match d.calls[i]? with
  | none => d
  | some call =>
    let proceeded := d.state.proceed call.stage
    { d with state := proceeded.1, calls := d.calls.set i ⟨call.request, proceeded.2⟩ }

def watchStep (d : Daemon Key) (action : WatchAction) : Daemon Key :=
  match d.watch.phase, action with
  | .unsubscribed, .subscribe => { d with watch := ⟨.waiting, d.state.events.subscribe⟩ }
  | .waiting, .recv =>
    match d.state.events.recv d.watch.next with
    | .pending => d
    | .ok event next => { d with watch := ⟨.invalidating event, next⟩ }
    | .lagged _ next => { d with watch := ⟨.waiting, next⟩ }
  | .waiting, .cancelled =>
    if d.state.cancelled then { d with watch := ⟨.done, d.watch.next⟩ } else d
  | .invalidating event, .invalidate =>
    match event with
    | .ruleAdded rule | .ruleRemoved rule =>
      { d with resolver := d.resolver.invalidate rule, watch := ⟨.saving, d.watch.next⟩ }
    | .ephemeralAdded rule | .ephemeralRemoved rule =>
      { d with resolver := d.resolver.invalidate rule, watch := ⟨.waiting, d.watch.next⟩ }
    | .daemonStopped => { d with watch := ⟨.waiting, d.watch.next⟩ }
  | .saving, .snapshot order =>
    { d with watch := ⟨.storing (d.state.save order), d.watch.next⟩ }
  | .storing config, .store => { d with watch := ⟨.waiting, d.watch.next⟩, saved := config }
  | _, _ => d

def managerInput (d : Daemon Key) : ManagerAction → Option ManagerInput
  | .revert succeeded => some (.revert succeeded)
  | .subscribe => some (.subscribe d.state.events.subscribe)
  | .snapshot ephemeralOrder persistentOrder setOrder =>
      some (.snapshot (d.state.snapshotAllDomains ephemeralOrder persistentOrder setOrder))
  | .apply succeeded => some (.apply succeeded)
  | .recv => if d.state.cancelled then none else some (.recv (d.state.events.recv d.manager.next))
  | .cancelled => if d.state.cancelled then some .cancelled else none

def managerStep (d : Daemon Key) (action : ManagerAction) : Daemon Key :=
  match d.managerInput action with
  | none => d
  | some input => { d with manager := d.manager.step input }

def signal (d : Daemon Key) : Daemon Key :=
  match d.runner with
  | .selecting => { d with state := d.state.cancel, runner := .joining }
  | .joining => d

def shutdown (d : Daemon Key) : Daemon Key :=
  match d.runner, d.state.cancelled with
  | .selecting, true => { d with state := d.state.dispatch .daemonStopped, runner := .joining }
  | _, _ => d

def step (lib : TextLibrary) (d : Daemon Key) : Action → Daemon Key
  | .probe domain => d.probe domain
  | .advance i => d.advance i
  | .request order request => d.accept lib order request
  | .proceed i => d.proceed i
  | .watch action => d.watchStep action
  | .manager action => d.managerStep action
  | .signal => d.signal
  | .shutdown => d.shutdown

def unread (d : Daemon Key) : List DnsEvent := d.state.events.unread d.watch.next

def Announces (calls : List Call) (event : DnsEvent) : Prop :=
  ∃ call ∈ calls, call.stage = .announcing event

def Coming (d : Daemon Key) (next : Nat) (event : DnsEvent) : Prop :=
  event ∈ d.state.events.unread next ∨ Announces d.calls event

end Daemon

end SideDns
