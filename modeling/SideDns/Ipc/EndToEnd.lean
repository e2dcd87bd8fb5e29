import SideDns.Daemon.Provenance
import SideDns.Ipc.Delivery
import SideDns.Ipc.Subscription

namespace SideDns

open Broadcast (Channel)
open FiniteMap (IterationOrder)
open Transition (run Guarded)

namespace Subscriber

structure Sifted (events : Channel DnsEvent) (s : Subscriber) : Prop where
  registered_le : s.registered ≤ s.next
  next_le : s.next ≤ events.sent.length
  heard : s.heard.Sublist (events.heard s.registered s.next)

theorem sifted_handleSubscribe (events : Channel DnsEvent) :
    (handleSubscribe events).Sifted events :=
  ⟨Nat.le_refl _,Nat.le_refl _,List.nil_sublist _⟩

theorem Sifted.send {events : Channel DnsEvent} {s : Subscriber} (h : s.Sifted events)
    (event : DnsEvent) : s.Sifted (events.send event) := by
  refine ⟨h.registered_le,?_,?_⟩
  · have hle := h.next_le
    simp only [Channel.send, List.length_append]
    omega
  · rw [Channel.heard_send h.next_le]
    exact h.heard

theorem Sifted.select {events : Channel DnsEvent} {s : Subscriber} (h : s.Sifted events)
    (cancelled : Bool) : (s.select cancelled).Sifted events := by
  cases hp : s.phase with
  | selecting =>
    have hheard := h.heard
    simp only [Subscriber.select, hp]
    refine ⟨h.registered_le,h.next_le,?_⟩
    cases cancelled <;> simpa [Subscriber.heard, hp, SubscriberPhase.event?] using hheard
  | _ => simpa only [Subscriber.select, hp] using h

theorem Sifted.recv {events : Channel DnsEvent} {s : Subscriber} (h : s.Sifted events) :
    (s.recv events).Sifted events := by
  cases hp : s.phase with
  | receiving =>
    have hheard := h.heard
    cases hr : events.recv s.next with
    | pending =>
      simp only [Subscriber.recv, hp, hr]
      refine ⟨h.registered_le,h.next_le,?_⟩
      simpa [Subscriber.heard, hp, SubscriberPhase.event?] using hheard
    | ok event next =>
      simp only [Subscriber.recv, hp, hr]
      have hgrown := Channel.heard_recv hr h.registered_le
      obtain ⟨rfl,-⟩ := Channel.recv_ok_next hr
      refine ⟨Nat.le_succ_of_le h.registered_le,(Channel.recv_ok hr).1,?_⟩
      rw [hgrown]
      refine List.Sublist.append ?_ (List.Sublist.refl _)
      simpa [Subscriber.heard, hp, SubscriberPhase.event?] using hheard
    | lagged missed next =>
      simp only [Subscriber.recv, hp, hr]
      obtain ⟨hn,hlt,-⟩ := Channel.recv_lagged hr
      refine ⟨h.registered_le.trans hlt.le,hn,?_⟩
      have hwider : (events.heard s.registered s.next).Sublist (events.heard s.registered next) :=
        ((List.take_prefix_take_left hlt.le).sublist).drop s.registered
      refine List.Sublist.trans ?_ hwider
      simpa [Subscriber.heard, hp, SubscriberPhase.event?] using hheard
  | _ => simpa only [Subscriber.recv, hp] using h

theorem Sifted.writeResponse {events : Channel DnsEvent} {s : Subscriber}
    (h : s.Sifted events) (succeeded : Bool) : (s.writeResponse succeeded).Sifted events := by
  cases hp : s.phase with
  | writing event =>
    have hheard := h.heard
    cases succeeded with
    | true =>
      simp only [Subscriber.writeResponse, hp, if_pos]
      refine ⟨h.registered_le,h.next_le,?_⟩
      simpa [Subscriber.heard, hp, SubscriberPhase.event?] using hheard
    | false =>
      simp only [Subscriber.writeResponse, hp]
      refine ⟨h.registered_le,h.next_le,List.Sublist.trans ?_ hheard⟩
      simp [Subscriber.heard, SubscriberPhase.event?]
  | _ => simpa only [Subscriber.writeResponse, hp] using h

theorem Sifted.act {events : Channel DnsEvent} {s : Subscriber} (h : s.Sifted events)
    (cancelled : Bool) (a : SubscriberAction) : (s.act events cancelled a).Sifted events := by
  cases a with
  | select => exact h.select cancelled
  | recv => exact h.recv
  | write succeeded => exact h.writeResponse succeeded

theorem Sifted.sublist {events : Channel DnsEvent} {s : Subscriber} (h : s.Sifted events) :
    s.heard.Sublist (events.sent.drop s.registered) := by
  rw [← Channel.heard_append_unread h.registered_le h.next_le]
  exact h.heard.trans (List.sublist_append_left _ _)

end Subscriber

def ServerAction.Writes (lib : TextLibrary) (P : DnsRule → Prop) : ServerAction → Prop
  | daemon action => Daemon.Writes lib P action
  | connect _ request => request.Writes lib P
  | _ => True

namespace Server

variable {Key : Type} {lib : TextLibrary} {P : DnsRule → Prop}

def Sifts (sv : Server Key) : Prop :=
  ∀ j s, sv.subscriber j = some s → s.Sifted sv.daemon.state.events

theorem Sifts.step {sv : Server Key} (h : sv.Sifts) (action : ServerAction) :
    (sv.step lib action).Sifts := by
  intro j s hj
  cases ha : action.isDaemon with
  | true =>
    cases action with
    | daemon action =>
      have hs := h j s hj
      have hstreamed := sv.daemon.step_streamed lib action
      change s.Sifted (sv.daemon.step lib action).state.events
      cases hstreamed with
      | same he hc => rwa [he]
      | sent event he hc =>
        rw [he]
        exact hs.send event
      | cancelled he hc => rwa [he]
    | _ => cases ha
  | false =>
    have hmoved := sv.moved_step lib action j
    rw [hj] at hmoved
    rw [(sv.quiet_step lib ha).events]
    refine hmoved.keeps (Subscriber.Sifted _) (h j s) (Subscriber.sifted_handleSubscribe _) ?_
    intro a before _ hbefore
    exact (h j before hbefore).act _ a

theorem sifts_run (lib : TextLibrary) (d : Daemon Key) (acts : List ServerAction) :
    (run (step lib) (serve d) acts).Sifts :=
  Transition.run_invariant Sifts (fun _ action h => h.step action)
    (fun j s hj => by simp [subscriber_serve] at hj) acts

structure Carries (lib : TextLibrary) (P : DnsRule → Prop) (sv : Server Key) : Prop where
  daemon : sv.daemon.Carries P
  requests : ∀ c ∈ sv.connections, c.request.Writes lib P

theorem Carries.onConnection {sv : Server Key} (h : sv.Carries lib P) (j : Nat)
    {f : Connection → Connection} (hf : ∀ c, (f c).request = c.request) :
    (sv.onConnection j f).Carries lib P := by
  refine ⟨h.daemon,fun c hc => ?_⟩
  obtain ⟨i,hi⟩ := List.getElem?_of_mem hc
  simp only [Server.onConnection, List.getElem?_modify] at hi
  obtain ⟨before,hbefore,rfl⟩ := Option.map_eq_some_iff.mp hi
  have hold := h.requests before (List.mem_of_getElem? hbefore)
  split_ifs
  · rw [hf]
    exact hold
  · exact hold

theorem Carries.handle {sv : Server Key} (h : sv.Carries lib P)
    (order : IterationOrder String DnsRule) (j : Nat) :
    (sv.handleConnection lib order j).Carries lib P := by
  rw [handleConnection]
  split
  · next client request after confirmed hj =>
    have hw := h.requests _ (List.mem_of_getElem? hj)
    split_ifs
    · exact h.onConnection j fun c => rfl
    · have hstaged := h.onConnection j (f := fun c =>
        { c with stage := .handling sv.daemon.calls.length }) fun c => rfl
      exact ⟨h.daemon.accept order hw,hstaged.requests⟩
  · exact h

theorem Carries.step {sv : Server Key} (h : sv.Carries lib P) {action : ServerAction}
    (hw : action.Writes lib P) : (sv.step lib action).Carries lib P := by
  cases action with
  | daemon action => exact ⟨h.daemon.step hw,h.requests⟩
  | connect client request =>
    refine ⟨h.daemon,fun c hc => ?_⟩
    rcases List.mem_append.mp hc with hold | hnew
    · exact h.requests c hold
    · obtain rfl := List.mem_singleton.mp hnew
      exact hw
  | confirm j => exact h.onConnection j fun c => rfl
  | poll =>
    rw [Server.step, Server.poll]
    split
    · exact ⟨h.daemon,h.requests⟩
    · exact h
  | accept =>
    rw [Server.step, Server.accept]
    split
    · split
      · next j _ =>
        have hstaged := h.onConnection j (f := fun c => { c with stage := .accepted })
          fun c => rfl
        exact ⟨hstaged.daemon,hstaged.requests⟩
      · exact ⟨h.daemon,h.requests⟩
    · exact h
  | handle order j => exact h.handle order j
  | answer j =>
    rw [Server.step, Server.answer]
    split
    · split_ifs
      · exact h.onConnection j fun c => rfl
      · exact h
    · exact h
  | subscriber j action => exact h.onConnection j fun c => rfl

theorem Carries.run {sv : Server Key} (h : sv.Carries lib P) {acts : List ServerAction}
    (hw : ∀ action ∈ acts, action.Writes lib P) :
    (Transition.run (Server.step lib) sv acts).Carries lib P :=
  Transition.guarded_invariant (Carries lib P) (fun _ _ hsv hok => hsv.step hok) h
    (Transition.guarded_of_forall hw sv)

theorem carries_serve {d : Daemon Key} (h : d.Carries P) : (serve d).Carries lib P :=
  ⟨h,nofun⟩

theorem filterMap_event (events : List DnsEvent) :
    (events.map IpcResponse.event).filterMap IpcResponse.event? = events := by
  rw [List.filterMap_map]
  exact List.filterMap_some

theorem Carries.portable {sv : Server Key}
    (h : sv.Carries lib fun rule => rule.target.flowinfo = 0) {event : DnsEvent}
    (he : event ∈ sv.daemon.state.events.sent) : (IpcResponse.event event).Portable := by
  refine ⟨fun rule hr => ?_,nofun⟩
  exact h.daemon.sent event he rule (Option.mem_toList.mp hr)

theorem subscriber_sees_dispatched_events (lib : TextLibrary) {config : DnsConfig}
    (hconfig : ∀ rule ∈ config.rules, rule.target.flowinfo = 0) (served : List ServerAction)
    (hserved : ∀ action ∈ served, action.Writes lib fun rule => rule.target.flowinfo = 0)
    {j : Nat} {s : Subscriber}
    (hj : (run (step lib) (serve (Daemon.start config : Daemon Key)) served).subscriber j =
      some s)
    (count : Nat) (acts : List SubscriptionAction)
    (hw : (run Subscription.step Subscription.subscribe acts).written =
      ((s.heard.map IpcResponse.event).flatMap Wire.writeResponse).take count) :
    let sv := run (step lib) (serve (Daemon.start config : Daemon Key)) served
    let c := run Subscription.step Subscription.subscribe acts
    let arrived := Lines.arrived (fun event => Wire.jsonBytes (IpcResponse.event event).toJson)
      count s.heard
    c.yielded <+: arrived ∧ arrived <+: s.heard ∧
    s.heard.Sublist (sv.daemon.state.events.sent.drop s.registered) ∧
    (c.phase = .finished → c.dropped = false → c.yielded ++ c.queue = arrived) ∧
    (((s.heard.map IpcResponse.event).flatMap Wire.writeResponse).length ≤ count →
      arrived = s.heard) := by
  intro sv c arrived
  have hcarries : sv.Carries lib fun rule => rule.target.flowinfo = 0 :=
    (carries_serve (Daemon.carries_start hconfig)).run hserved
  have hsifted : s.Sifted sv.daemon.state.events := sifts_run lib _ served j s hj
  have hportable : ∀ r ∈ s.heard.map IpcResponse.event, r.Portable := by
    intro r hr
    obtain ⟨event,he,rfl⟩ := List.mem_map.mp hr
    exact hcarries.portable (List.mem_of_mem_drop (hsifted.sublist.subset he))
  have hevents : (Lines.arrived (fun r => Wire.jsonBytes r.toJson) count
      (s.heard.map IpcResponse.event)).filterMap IpcResponse.event? = arrived := by
    rw [Lines.arrived_map, filterMap_event]
    rfl
  obtain ⟨hyielded,-,hfinished⟩ :=
    Subscription.receiver_yields_written_events _ hportable count acts hw
  rw [hevents] at hyielded hfinished
  refine ⟨hyielded,Lines.arrived_prefix _ _ _,hsifted.sublist,hfinished,fun hlong => ?_⟩
  rw [List.flatMap_map] at hlong
  refine Lines.arrived_all ?_
  have hbytes : (s.heard.flatMap fun event => Wire.writeResponse (.event event)) =
      s.heard.flatMap fun event =>
        Wire.jsonBytes (IpcResponse.event event).toJson ++ [Lines.newline] :=
    List.flatMap_congr fun event _ => Wire.line_eq _
  rwa [← hbytes]

def stopBytes : List UInt8 := Wire.writeResponse (.event .daemonStopped)

def hearingStop : List SubscriptionAction :=
  [.write stopBytes, .arrive 9, .nextLine, .arrive 90, .nextLine, .send, .recv]

theorem stop_event_reaches_client :
    let c := run Subscription.step Subscription.subscribe hearingStop
    c.yielded = [.daemonStopped] ∧
    c.yielded <+: Lines.arrived
      (fun event => Wire.jsonBytes (IpcResponse.event event).toJson) 90 [.daemonStopped] := by
  have hserved : ∀ action ∈ subscribed default ++ stopping default ++ heardStop,
      action.Writes Daemon.plainText fun rule => rule.target.flowinfo = 0 := by
    simp [subscribed, stopping, heardStop, ServerAction.Writes, Daemon.Writes,
      IpcRequest.Writes, IpcRequest.mutation]
  obtain ⟨s,hs,hheard⟩ : ∃ s, (run (step Daemon.plainText)
      (serve (Daemon.start ⟨[]⟩ : Daemon Unit))
      (subscribed default ++ stopping default ++ heardStop)).subscriber 0 = some s ∧
      s.heard = [.daemonStopped] := ⟨_,rfl,by decide⟩
  have hwritten : (run Subscription.step Subscription.subscribe hearingStop).written =
      ((s.heard.map IpcResponse.event).flatMap Wire.writeResponse).take 90 := by
    rw [hheard]
    decide +kernel
  have hall := subscriber_sees_dispatched_events Daemon.plainText (by simp) _ hserved hs 90
    hearingStop hwritten
  rw [hheard] at hall
  exact ⟨by decide +kernel,hall.1⟩

end Server

end SideDns
