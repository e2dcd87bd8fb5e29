import SideDns.Daemon.Effects

namespace SideDns

open Broadcast (Channel)
open FiniteMap (IterationOrder)

inductive SubscriberPhase where
  | selecting
  | receiving
  | writing (event : DnsEvent)
  | returned (succeeded : Bool)
  deriving DecidableEq, Repr

def SubscriberPhase.event? : SubscriberPhase → Option DnsEvent
  | writing event => some event
  | _ => none

structure Subscriber where
  phase : SubscriberPhase
  registered : Nat
  next : Nat
  lagged : Bool
  written : List DnsEvent
  deriving DecidableEq, Repr

inductive SubscriberAction where
  | select
  | recv
  | write (succeeded : Bool)
  deriving DecidableEq, Repr

namespace Subscriber

def handleSubscribe (events : Channel DnsEvent) : Subscriber :=
  ⟨.selecting, events.subscribe, events.subscribe, false, []⟩

def select (cancelled : Bool) (s : Subscriber) : Subscriber :=
  match s.phase with
  | .selecting => { s with phase := if cancelled then .returned true else .receiving }
  | _ => s

def recv (events : Channel DnsEvent) (s : Subscriber) : Subscriber :=
  match s.phase with
  | .receiving =>
    match events.recv s.next with
    | .pending => { s with phase := .selecting }
    | .ok event next => { s with phase := .writing event, next := next }
    | .lagged _ next => { s with phase := .selecting, next := next, lagged := true }
  | _ => s

def writeResponse (succeeded : Bool) (s : Subscriber) : Subscriber :=
  match s.phase with
  | .writing event =>
    if succeeded then { s with phase := .selecting, written := s.written ++ [event] }
    else { s with phase := .returned false }
  | _ => s

def act (events : Channel DnsEvent) (cancelled : Bool) (s : Subscriber) :
    SubscriberAction → Subscriber
  | .select => s.select cancelled
  | .recv => s.recv events
  | .write succeeded => s.writeResponse succeeded

end Subscriber

inductive ConnectionStage where
  | queued
  | accepted
  | handling (call : Nat)
  | answered (call : Nat)
  | subscribed (subscriber : Subscriber)
  deriving DecidableEq, Repr

namespace ConnectionStage

def subscriber? : ConnectionStage → Option Subscriber
  | subscribed subscriber => some subscriber
  | _ => none

def call? : ConnectionStage → Option Nat
  | handling call => some call
  | answered call => some call
  | _ => none

def onSubscriber (f : Subscriber → Subscriber) : ConnectionStage → ConnectionStage
  | subscribed subscriber => subscribed (f subscriber)
  | stage => stage

@[simp] theorem subscriber?_onSubscriber (f : Subscriber → Subscriber) (stage : ConnectionStage) :
    (stage.onSubscriber f).subscriber? = stage.subscriber?.map f := by
  cases stage <;> rfl

end ConnectionStage

structure Connection where
  client : Nat
  request : IpcRequest
  after : List Nat
  confirmed : Bool
  stage : ConnectionStage
  deriving DecidableEq, Repr

inductive Acceptor where
  | selecting
  | accepting
  | stopped
  deriving DecidableEq, Repr

structure Server (Key : Type) where
  daemon : Daemon Key
  acceptor : Acceptor
  connections : List Connection
  opened : List DnsEvent
  origins : List (Option Nat)

inductive ServerAction where
  | daemon (action : Action)
  | connect (client : Nat) (request : IpcRequest)
  | confirm (j : Nat)
  | poll
  | accept
  | handle (order : IterationOrder String DnsRule) (j : Nat)
  | answer (j : Nat)
  | subscriber (j : Nat) (action : SubscriberAction)

def ServerAction.isDaemon : ServerAction → Bool
  | daemon _ => true
  | _ => false

namespace Server

variable {Key : Type}

def serve (d : Daemon Key) : Server Key :=
  ⟨d, .selecting, [], d.state.events.sent, d.state.events.sent.map fun _ => none⟩

def subscriptions (sv : Server Key) (client : Nat) : List Nat :=
  (List.range sv.connections.length).filter fun j =>
    sv.connections[j]?.any fun c =>
      c.client == client && c.confirmed && decide (c.request = .subscribe)

def connect (sv : Server Key) (client : Nat) (request : IpcRequest) : Server Key :=
  { sv with
    connections :=
      sv.connections ++ [⟨client, request, sv.subscriptions client, false, .queued⟩] }

def onConnection (sv : Server Key) (j : Nat) (f : Connection → Connection) : Server Key :=
  { sv with connections := sv.connections.modify j f }

def setStage (sv : Server Key) (j : Nat) (stage : ConnectionStage) : Server Key :=
  sv.onConnection j fun c => { c with stage := stage }

def confirm (sv : Server Key) (j : Nat) : Server Key :=
  sv.onConnection j fun c => { c with confirmed := true }

def poll (sv : Server Key) : Server Key :=
  match sv.acceptor with
  | .selecting =>
    { sv with acceptor := if sv.daemon.state.cancelled then .stopped else .accepting }
  | _ => sv

def accept (sv : Server Key) : Server Key :=
  match sv.acceptor with
  | .accepting =>
    match sv.connections.findIdx? fun c => decide (c.stage = .queued) with
    | some j => { sv.setStage j .accepted with acceptor := .selecting }
    | none => { sv with acceptor := .selecting }
  | _ => sv

def origin (d : Daemon Key) : Action → Option Nat
  | .proceed i =>
    match d.calls[i]? with
    | some ⟨_, .announcing _⟩ => some i
    | _ => none
  | _ => none

def advance (lib : TextLibrary) (sv : Server Key) (action : Action) : Server Key :=
  let d := sv.daemon.step lib action
  { sv with
    daemon := d
    opened := if d.state.cancelled then sv.opened else d.state.events.sent
    origins :=
      if d.state.events.sent.length = sv.daemon.state.events.sent.length then sv.origins
      else sv.origins ++ [origin sv.daemon action] }

def handleConnection (lib : TextLibrary) (sv : Server Key) (order : IterationOrder String DnsRule)
    (j : Nat) : Server Key :=
  match sv.connections[j]? with
  | some ⟨_, request, _, _, .accepted⟩ =>
    if request = .subscribe then
      sv.setStage j (.subscribed (Subscriber.handleSubscribe sv.daemon.state.events))
    else
      { sv.setStage j (.handling sv.daemon.calls.length) with
        daemon := sv.daemon.accept lib order request }
  | _ => sv

def answer (sv : Server Key) (j : Nat) : Server Key :=
  match sv.connections[j]? with
  | some ⟨_, _, _, _, .handling call⟩ =>
    if sv.daemon.calls[call]?.any fun c => c.stage.isReplied then sv.setStage j (.answered call)
    else sv
  | _ => sv

def subscriberAction (sv : Server Key) (j : Nat) (action : SubscriberAction) : Server Key :=
  sv.onConnection j fun c =>
    { c with
      stage := c.stage.onSubscriber fun s =>
        s.act sv.daemon.state.events sv.daemon.state.cancelled action }

def step (lib : TextLibrary) (sv : Server Key) : ServerAction → Server Key
  | .daemon action => sv.advance lib action
  | .connect client request => sv.connect client request
  | .confirm j => sv.confirm j
  | .poll => sv.poll
  | .accept => sv.accept
  | .handle order j => sv.handleConnection lib order j
  | .answer j => sv.answer j
  | .subscriber j action => sv.subscriberAction j action

def subscriber (sv : Server Key) (j : Nat) : Option Subscriber :=
  sv.connections[j]?.bind fun c => c.stage.subscriber?

end Server

end SideDns
