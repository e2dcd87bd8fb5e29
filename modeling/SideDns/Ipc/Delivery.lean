import SideDns.Daemon.Coherence
import SideDns.Ipc.Server
import SideDns.Library.Sequence
import SideDns.Library.Transition

namespace SideDns

open Broadcast (Channel)
open FiniteMap (IterationOrder)
open Transition (run Guarded)

namespace Subscriber

def heard (s : Subscriber) : List DnsEvent := s.written ++ s.phase.event?.toList

structure Faithful (events : Channel DnsEvent) (s : Subscriber) : Prop where
  registered_le : s.registered ≤ s.next
  next_le : s.next ≤ events.sent.length
  heard : s.lagged = false → s.phase ≠ .returned false →
    s.heard = events.heard s.registered s.next

theorem faithful_handleSubscribe (events : Channel DnsEvent) :
    (handleSubscribe events).Faithful events :=
  ⟨Nat.le_refl _,Nat.le_refl _,fun _ _ => by simp [handleSubscribe, Subscriber.heard,
    SubscriberPhase.event?]⟩

theorem Faithful.send {events : Channel DnsEvent} {s : Subscriber} (h : s.Faithful events)
    (event : DnsEvent) : s.Faithful (events.send event) := by
  refine ⟨h.registered_le,?_,?_⟩
  · have hle := h.next_le
    simp only [Channel.send, List.length_append]
    omega
  · intro hl hp
    rw [Channel.heard_send h.next_le]
    exact h.heard hl hp

theorem Faithful.select {events : Channel DnsEvent} {s : Subscriber} (h : s.Faithful events)
    (cancelled : Bool) : (s.select cancelled).Faithful events := by
  cases hp : s.phase with
  | selecting =>
    simp only [Subscriber.select, hp]
    refine ⟨h.registered_le,h.next_le,?_⟩
    intro hl _
    have hheard := h.heard hl (by simp [hp])
    cases cancelled <;> simpa [Subscriber.heard, hp, SubscriberPhase.event?] using hheard
  | _ => simpa only [Subscriber.select, hp] using h

theorem Faithful.recv {events : Channel DnsEvent} {s : Subscriber} (h : s.Faithful events) :
    (s.recv events).Faithful events := by
  cases hp : s.phase with
  | receiving =>
    have hheard := fun hl => h.heard hl (by simp [hp])
    cases hr : events.recv s.next with
    | pending =>
      simp only [Subscriber.recv, hp, hr]
      refine ⟨h.registered_le,h.next_le,fun hl _ => ?_⟩
      simpa [Subscriber.heard, hp, SubscriberPhase.event?] using hheard hl
    | ok event next =>
      simp only [Subscriber.recv, hp, hr]
      obtain ⟨rfl,-⟩ := Channel.recv_ok_next hr
      refine ⟨Nat.le_succ_of_le h.registered_le,(Channel.recv_ok hr).1,fun hl _ => ?_⟩
      rw [Channel.heard_recv hr h.registered_le, ← hheard hl]
      simp [Subscriber.heard, hp, SubscriberPhase.event?]
    | lagged missed next =>
      simp only [Subscriber.recv, hp, hr]
      obtain ⟨hn,hlt,-⟩ := Channel.recv_lagged hr
      exact ⟨h.registered_le.trans hlt.le,hn,nofun⟩
  | _ => simpa only [Subscriber.recv, hp] using h

theorem Faithful.writeResponse {events : Channel DnsEvent} {s : Subscriber}
    (h : s.Faithful events) (succeeded : Bool) :
    (s.writeResponse succeeded).Faithful events := by
  cases hp : s.phase with
  | writing event =>
    cases succeeded with
    | true =>
      simp only [Subscriber.writeResponse, hp, if_pos]
      refine ⟨h.registered_le,h.next_le,fun hl _ => ?_⟩
      simpa [Subscriber.heard, hp, SubscriberPhase.event?] using h.heard hl (by simp [hp])
    | false =>
      simp only [Subscriber.writeResponse, hp]
      exact ⟨h.registered_le,h.next_le,fun _ hf => absurd rfl hf⟩
  | _ => simpa only [Subscriber.writeResponse, hp] using h

structure OnTime (opened : Nat) (s : Subscriber) : Prop where
  heard : s.next ≤ max s.registered opened
  returned : s.phase = .returned true → opened ≤ s.next

def Tracked (s : Subscriber) : Prop := s.lagged = false ∧ s.phase ≠ .returned false

theorem onTime_iff {events : Channel DnsEvent} {s : Subscriber} (h : s.Faithful events)
    (ht : s.Tracked) {opened : List DnsEvent} (ho : opened <+: events.sent) :
    s.OnTime opened.length ↔
      s.heard <+: opened.drop s.registered ∧
        (s.phase = .returned true → s.written = opened.drop s.registered) := by
  have htake : opened = events.sent.take opened.length := List.prefix_iff_eq_take.mp ho
  have hwindow := Sequence.window_prefix_iff events.sent (r := s.registered) h.next_le ho.length_le
  have heq := Sequence.window_eq_iff events.sent h.next_le ho.length_le h.registered_le
  rw [← htake] at hwindow heq
  have hheard := h.heard ht.1 ht.2
  constructor
  · intro hot
    refine ⟨?_,?_⟩
    · rw [hheard]
      exact hwindow.mpr hot.heard
    · intro hp
      have hw : s.heard = s.written := by simp [Subscriber.heard, hp, SubscriberPhase.event?]
      rw [← hw, hheard]
      exact heq.mpr ⟨hot.heard,hot.returned hp⟩
  · rintro ⟨hpre,hret⟩
    rw [hheard] at hpre
    refine ⟨hwindow.mp hpre,?_⟩
    intro hp
    have hw : s.heard = s.written := by simp [Subscriber.heard, hp, SubscriberPhase.event?]
    have hwritten := hret hp
    rw [← hw, hheard] at hwritten
    exact (heq.mp hwritten).2

def Prompt (events : Channel DnsEvent) (cancelled : Bool) (opened : Nat) (s : Subscriber) :
    SubscriberAction → Prop
  | .select => s.phase = .selecting → cancelled = true → opened ≤ s.next
  | .recv => ∀ event next, s.phase = .receiving → events.recv s.next = .ok event next →
      cancelled = true → s.next < opened
  | .write _ => True

theorem Faithful.act {events : Channel DnsEvent} {s : Subscriber} (h : s.Faithful events)
    (cancelled : Bool) (a : SubscriberAction) : (s.act events cancelled a).Faithful events := by
  cases a with
  | select => exact h.select cancelled
  | recv => exact h.recv
  | write succeeded => exact h.writeResponse succeeded

theorem registered_act (events : Channel DnsEvent) (cancelled : Bool) (s : Subscriber)
    (a : SubscriberAction) : (s.act events cancelled a).registered = s.registered := by
  cases a with
  | select => cases hp : s.phase <;> simp only [act, select, hp]
  | write succeeded =>
    cases hp : s.phase <;> cases succeeded <;> simp [act, writeResponse, hp]
  | recv =>
    cases hp : s.phase with
    | receiving => cases hr : events.recv s.next <;> simp only [act, recv, hp, hr]
    | _ => simp only [act, recv, hp]

def Punctual (opened : Nat) (s : Subscriber) : Prop := s.Tracked → s.OnTime opened

theorem Punctual.select_iff {events : Channel DnsEvent} {cancelled : Bool} {opened : Nat}
    {s : Subscriber} (h : s.Punctual opened) :
    (s.select cancelled).Punctual opened ↔
      (s.Tracked → s.Prompt events cancelled opened .select) := by
  cases hp : s.phase with
  | selecting =>
    have ht : (s.select cancelled).Tracked ↔ s.lagged = false := by
      cases cancelled <;> simp [Tracked, Subscriber.select, hp]
    have hs : s.Tracked ↔ s.lagged = false := by simp [Tracked, hp]
    rw [Punctual, ht, hs]
    refine forall_congr' fun hl => ?_
    constructor
    · intro hot _ hc
      have hret := hot.returned (by simp [Subscriber.select, hp, hc])
      simpa only [Subscriber.select, hp] using hret
    · intro hprompt
      refine ⟨?_,?_⟩
      · simpa only [Subscriber.select, hp] using (h (hs.mpr hl)).heard
      · intro hr
        have hc : cancelled = true := by
          cases cancelled with
          | true => rfl
          | false => simp [Subscriber.select, hp] at hr
        simpa only [Subscriber.select, hp] using hprompt hp hc
  | _ =>
    have hsame : s.select cancelled = s := by simp only [Subscriber.select, hp]
    rw [hsame]
    exact iff_of_true h (fun _ hsel => by simp [hp] at hsel)

theorem tracked_recv_ok {events : Channel DnsEvent} {s : Subscriber} {event : DnsEvent}
    {next : Nat} (hp : s.phase = .receiving) (hr : events.recv s.next = .ok event next) :
    (s.recv events).Tracked ↔ s.lagged = false := by
  simp [Tracked, Subscriber.recv, hp, hr]

theorem onTime_recv_ok {events : Channel DnsEvent} {s : Subscriber} {event : DnsEvent}
    {next : Nat} (hp : s.phase = .receiving) (hr : events.recv s.next = .ok event next)
    (opened : Nat) :
    (s.recv events).OnTime opened ↔ next ≤ max s.registered opened := by
  simp only [Subscriber.recv, hp, hr]
  exact ⟨fun h => h.heard,fun hn => ⟨hn,nofun⟩⟩

theorem Punctual.recv_iff {events : Channel DnsEvent} {cancelled : Bool} {opened : Nat}
    {s : Subscriber} (hf : s.Faithful events) (h : s.Punctual opened)
    (ho : cancelled = false → opened = events.sent.length) :
    (s.recv events).Punctual opened ↔ (s.Tracked → s.Prompt events cancelled opened .recv) := by
  cases hp : s.phase with
  | receiving =>
    have hs : s.Tracked ↔ s.lagged = false := by simp [Tracked, hp]
    cases hr : events.recv s.next with
    | pending =>
      refine iff_of_true ?_ ?_
      · intro ht
        simp only [Subscriber.recv, hp, hr] at ht ⊢
        exact ⟨(h (hs.mpr ht.1)).heard,nofun⟩
      · intro _ event next _ hok
        rw [hr] at hok
        cases hok
    | lagged missed next =>
      refine iff_of_true ?_ ?_
      · intro ht
        simp [Tracked, Subscriber.recv, hp, hr] at ht
      · intro _ event next' _ hok
        rw [hr] at hok
        cases hok
    | ok event next =>
      obtain ⟨rfl,hget⟩ := Channel.recv_ok_next hr
      have hlt := (List.getElem?_eq_some_iff.mp hget).1
      have hle := hf.registered_le
      rw [Punctual, tracked_recv_ok hp hr, hs]
      refine forall_congr' fun hl => ?_
      rw [onTime_recv_ok hp hr]
      constructor
      · intro hn _ _ _ _ _
        omega
      · intro hprompt
        cases hc : cancelled with
        | false =>
          have hopen := ho hc
          omega
        | true =>
          have hnext := hprompt event (s.next + 1) hp hr hc
          omega
  | _ =>
    have hsame : s.recv events = s := by simp only [Subscriber.recv, hp]
    rw [hsame]
    exact iff_of_true h (fun _ _ _ hrec => by simp [hp] at hrec)

theorem Punctual.writeResponse {opened : Nat} {s : Subscriber} (h : s.Punctual opened)
    (succeeded : Bool) : (s.writeResponse succeeded).Punctual opened := by
  cases hp : s.phase with
  | writing event =>
    cases succeeded with
    | true =>
      intro ht
      simp only [Subscriber.writeResponse, hp, if_pos] at ht ⊢
      exact ⟨(h ⟨ht.1,by simp [hp]⟩).heard,nofun⟩
    | false =>
      intro ht
      simp [Tracked, Subscriber.writeResponse, hp] at ht
  | _ => simpa only [Subscriber.writeResponse, hp] using h

theorem Punctual.act_iff {events : Channel DnsEvent} {cancelled : Bool} {opened : Nat}
    {s : Subscriber} (hf : s.Faithful events) (h : s.Punctual opened)
    (ho : cancelled = false → opened = events.sent.length) (a : SubscriberAction) :
    (s.act events cancelled a).Punctual opened ↔
      (s.Tracked → s.Prompt events cancelled opened a) := by
  cases a with
  | select => exact h.select_iff
  | recv => exact h.recv_iff hf ho
  | write succeeded => exact iff_of_true (h.writeResponse succeeded) (fun _ => trivial)

theorem Punctual.mono {opened opened' : Nat} {s : Subscriber} (h : s.Punctual opened)
    (hle : opened ≤ opened') (hr : s.phase = .returned true → opened = opened') :
    s.Punctual opened' := by
  intro ht
  obtain ⟨hheard,hret⟩ := h ht
  refine ⟨by omega,?_⟩
  intro hp
  rw [← hr hp]
  exact hret hp

theorem returned_act {events : Channel DnsEvent} {cancelled : Bool} {s : Subscriber}
    {a : SubscriberAction} (h : (s.act events cancelled a).phase = .returned true) :
    s.phase = .returned true ∨ cancelled = true := by
  cases a with
  | select =>
    cases hp : s.phase <;> cases cancelled <;> simp_all [act, select]
  | recv =>
    cases hp : s.phase with
    | receiving => cases hr : events.recv s.next <;> simp [act, recv, hp, hr] at h
    | _ =>
      have hsame : s.recv events = s := by simp only [recv, hp]
      rw [act, hsame, hp] at h
      exact .inl h
  | write succeeded =>
    cases hp : s.phase <;> cases succeeded <;> simp_all [act, writeResponse]

end Subscriber

namespace Server

variable {Key : Type} {lib : TextLibrary}

theorem subscriber_onConnection (sv : Server Key) (j k : Nat) (f : Connection → Connection) :
    (sv.onConnection j f).subscriber k =
      if j = k then sv.connections[k]?.bind fun c => (f c).stage.subscriber?
      else sv.subscriber k := by
  simp only [subscriber, onConnection, List.getElem?_modify]
  split_ifs
  · cases sv.connections[k]? <;> rfl
  · cases sv.connections[k]? <;> rfl

inductive Moved (sv : Server Key) (action : ServerAction) (j : Nat) : Option Subscriber → Prop where
  | same : Moved sv action j (sv.subscriber j)
  | registered (hs : sv.subscriber j = none) :
      Moved sv action j (some (Subscriber.handleSubscribe sv.daemon.state.events))
  | stepped (a : SubscriberAction) (ha : action = .subscriber j a) :
      Moved sv action j ((sv.subscriber j).map fun s =>
        s.act sv.daemon.state.events sv.daemon.state.cancelled a)

theorem Moved.keeps {sv : Server Key} {action : ServerAction} {j : Nat} {s : Subscriber}
    (P : Subscriber → Prop) (hm : Moved sv action j (some s))
    (hsame : sv.subscriber j = some s → P s)
    (hregistered : P (Subscriber.handleSubscribe sv.daemon.state.events))
    (hstepped : ∀ a before, action = .subscriber j a → sv.subscriber j = some before →
      P (before.act sv.daemon.state.events sv.daemon.state.cancelled a)) : P s := by
  generalize hs : some s = moved at hm
  cases hm with
  | same => exact hsame hs.symm
  | registered _ =>
    obtain rfl := Option.some.inj hs
    exact hregistered
  | stepped a ha =>
    obtain ⟨before,hbefore,rfl⟩ := Option.map_eq_some_iff.mp hs.symm
    exact hstepped a before ha hbefore

theorem subscriber_setStage_of_none (sv : Server Key) {j : Nat} {stage : ConnectionStage}
    (hj : sv.subscriber j = none) (hs : stage.subscriber? = none) (k : Nat) :
    (sv.setStage j stage).subscriber k = sv.subscriber k := by
  rw [setStage, subscriber_onConnection]
  split_ifs with hjk
  · subst hjk
    rw [hj]
    cases sv.connections[j]? with
    | none => rfl
    | some c => exact hs
  · rfl

theorem subscriber_of_stage {sv : Server Key} {j : Nat} {c : Connection}
    (hj : sv.connections[j]? = some c) : sv.subscriber j = c.stage.subscriber? := by
  rw [subscriber, hj]
  rfl

theorem subscriber_connect (sv : Server Key) (client : Nat) (request : IpcRequest) (j : Nat) :
    (sv.connect client request).subscriber j = sv.subscriber j := by
  simp only [subscriber, connect, List.getElem?_append]
  split_ifs with hlt
  · rfl
  · rw [List.getElem?_eq_none (Nat.le_of_not_lt hlt), List.getElem?_singleton]
    split_ifs <;> rfl

theorem subscriber_confirm (sv : Server Key) (i j : Nat) :
    (sv.confirm i).subscriber j = sv.subscriber j := by
  rw [confirm, subscriber_onConnection]
  split_ifs <;> rfl

theorem subscriber_accept (sv : Server Key) (j : Nat) :
    sv.accept.subscriber j = sv.subscriber j := by
  cases ha : sv.acceptor with
  | accepting =>
    cases hq : sv.connections.findIdx? fun c => decide (c.stage = .queued) with
    | none =>
      simp only [accept, ha, hq]
      rfl
    | some i =>
      simp only [accept, ha, hq]
      have hi : sv.subscriber i = none := by
        obtain ⟨hlt,hqueued,-⟩ := List.findIdx?_eq_some_iff_getElem.mp hq
        rw [subscriber_of_stage (List.getElem?_eq_getElem hlt), of_decide_eq_true hqueued]
        rfl
      exact sv.subscriber_setStage_of_none hi rfl j
  | _ =>
    simp only [accept, ha]

theorem moved_handle (lib : TextLibrary) (sv : Server Key)
    (order : IterationOrder String DnsRule) (i j : Nat) :
    Moved sv (.handle order i) j ((sv.handleConnection lib order i).subscriber j) := by
  cases hi : sv.connections[i]? with
  | none =>
    simp only [handleConnection, hi]
    exact .same
  | some c =>
    obtain ⟨client,request,after,confirmed,stage⟩ := c
    cases stage with
    | accepted =>
      have hnone : sv.subscriber i = none := subscriber_of_stage hi
      simp only [handleConnection, hi]
      split_ifs with hr
      · rw [setStage, subscriber_onConnection]
        split_ifs with hij
        · subst hij
          rw [hi]
          exact .registered hnone
        · exact .same
      · have hsame : (sv.setStage i (.handling sv.daemon.calls.length)).subscriber j =
            sv.subscriber j := sv.subscriber_setStage_of_none hnone rfl j
        exact hsame ▸ .same
    | _ =>
      simp only [handleConnection, hi]
      exact .same

theorem subscriber_answer (sv : Server Key) (i j : Nat) :
    (sv.answer i).subscriber j = sv.subscriber j := by
  cases hi : sv.connections[i]? with
  | none => simp only [answer, hi]
  | some c =>
    obtain ⟨client,request,after,confirmed,stage⟩ := c
    cases stage with
    | handling call =>
      simp only [answer, hi]
      split_ifs
      · exact sv.subscriber_setStage_of_none (subscriber_of_stage hi) rfl j
      · rfl
    | _ => simp only [answer, hi]

theorem subscriber_subscriberAction (sv : Server Key) (i j : Nat) (a : SubscriberAction) :
    (sv.subscriberAction i a).subscriber j =
      if i = j then
        (sv.subscriber j).map fun s => s.act sv.daemon.state.events sv.daemon.state.cancelled a
      else sv.subscriber j := by
  rw [subscriberAction, subscriber_onConnection]
  split_ifs with hij
  · cases hj : sv.connections[j]? with
    | none => simp [subscriber, hj]
    | some c =>
      rw [subscriber_of_stage hj]
      exact ConnectionStage.subscriber?_onSubscriber _ _
  · rfl

theorem moved_subscriberAction (sv : Server Key) (i j : Nat) (a : SubscriberAction) :
    Moved sv (.subscriber i a) j ((sv.subscriberAction i a).subscriber j) := by
  rw [subscriber_subscriberAction]
  split_ifs with hij
  · subst hij
    exact .stepped a rfl
  · exact .same

theorem moved_step (lib : TextLibrary) (sv : Server Key) (action : ServerAction) (j : Nat) :
    Moved sv action j ((sv.step lib action).subscriber j) := by
  cases action with
  | daemon action => exact .same
  | connect client request => exact sv.subscriber_connect client request j ▸ .same
  | confirm i => exact sv.subscriber_confirm i j ▸ .same
  | poll =>
    have hsame : sv.poll.subscriber j = sv.subscriber j := by
      simp only [poll]
      split <;> rfl
    exact hsame ▸ .same
  | accept => exact sv.subscriber_accept j ▸ .same
  | handle order i => exact sv.moved_handle lib order i j
  | answer i => exact sv.subscriber_answer i j ▸ .same
  | subscriber i a => exact sv.moved_subscriberAction i j a

structure Quiet (sv sv' : Server Key) : Prop where
  events : sv'.daemon.state.events = sv.daemon.state.events
  cancelled : sv'.daemon.state.cancelled = sv.daemon.state.cancelled
  opened : sv'.opened = sv.opened
  origins : sv'.origins = sv.origins

theorem quiet_step (lib : TextLibrary) (sv : Server Key) {action : ServerAction}
    (ha : action.isDaemon = false) : Quiet sv (sv.step lib action) := by
  cases action with
  | daemon action => cases ha
  | connect client request => exact ⟨rfl,rfl,rfl,rfl⟩
  | confirm i => exact ⟨rfl,rfl,rfl,rfl⟩
  | poll =>
    simp only [step, poll]
    split <;> exact ⟨rfl,rfl,rfl,rfl⟩
  | accept =>
    cases hq : sv.acceptor with
    | accepting =>
      simp only [step, accept, hq]
      split <;> exact ⟨rfl,rfl,rfl,rfl⟩
    | _ =>
      simp only [step, accept, hq]
      exact ⟨rfl,rfl,rfl,rfl⟩
  | handle order i =>
    simp only [step, handleConnection]
    split
    · next client request after confirmed hi =>
      split_ifs
      · exact ⟨rfl,rfl,rfl,rfl⟩
      · obtain ⟨he,hc⟩ := sv.daemon.accept_stream lib order request
        exact ⟨he,hc,rfl,rfl⟩
    · exact ⟨rfl,rfl,rfl,rfl⟩
  | answer i =>
    simp only [step, answer]
    split
    · split_ifs <;> exact ⟨rfl,rfl,rfl,rfl⟩
    · exact ⟨rfl,rfl,rfl,rfl⟩
  | subscriber i a => exact ⟨rfl,rfl,rfl,rfl⟩

structure Sound (sv : Server Key) : Prop where
  opened_prefix : sv.opened <+: sv.daemon.state.events.sent
  opened_all : sv.daemon.state.cancelled = false → sv.opened = sv.daemon.state.events.sent
  faithful : ∀ j s, sv.subscriber j = some s → s.Faithful sv.daemon.state.events
  returned : ∀ j s, sv.subscriber j = some s → s.phase = .returned true →
    sv.daemon.state.cancelled = true

theorem Sound.advance {sv : Server Key} (h : sv.Sound) (action : Action) :
    (sv.advance lib action).Sound := by
  have hs := sv.daemon.step_streamed lib action
  refine ⟨?_,?_,?_,?_⟩
  · simp only [Server.advance]
    split_ifs
    · exact h.opened_prefix.trans hs.sent_initial
    · exact List.prefix_rfl
  · intro hc
    simp only [Server.advance] at hc ⊢
    simp [hc]
  · intro j s hj
    have hf := h.faithful j s hj
    simp only [Server.advance]
    cases hs with
    | same he _ => rwa [he]
    | sent event he _ =>
      rw [he]
      exact hf.send event
    | cancelled he _ => rwa [he]
  · intro j s hj hp
    exact hs.cancelled_mono (h.returned j s hj hp)

theorem Sound.quiet {sv sv' : Server Key} {action : ServerAction} (h : sv.Sound)
    (hq : Quiet sv sv') (hm : ∀ j, Moved sv action j (sv'.subscriber j)) : sv'.Sound := by
  refine ⟨?_,?_,?_,?_⟩
  · rw [hq.opened, hq.events]
    exact h.opened_prefix
  · rw [hq.cancelled, hq.opened, hq.events]
    exact h.opened_all
  · intro j s hj
    have hmj := hm j
    rw [hj] at hmj
    rw [hq.events]
    refine hmj.keeps (Subscriber.Faithful _) (h.faithful j s)
      (Subscriber.faithful_handleSubscribe _) ?_
    intro a before _ hbefore
    exact (h.faithful j before hbefore).act _ a
  · intro j s hj hp
    have hmj := hm j
    rw [hj] at hmj
    rw [hq.cancelled]
    refine hmj.keeps (fun t => t.phase = .returned true → sv.daemon.state.cancelled = true)
      (h.returned j s) nofun ?_ hp
    intro a before _ hbefore hp
    exact (Subscriber.returned_act hp).elim (h.returned j before hbefore) id

theorem Sound.step {sv : Server Key} (h : sv.Sound) (action : ServerAction) :
    (sv.step lib action).Sound := by
  cases action with
  | daemon action => exact h.advance action
  | _ => exact h.quiet (sv.quiet_step lib rfl) (sv.moved_step lib _)

theorem subscriber_serve (d : Daemon Key) (j : Nat) : (serve d).subscriber j = none := by
  simp [subscriber, serve]

theorem sound_serve (d : Daemon Key) : (serve d).Sound := by
  refine ⟨List.prefix_rfl,fun _ => rfl,?_,?_⟩
  · intro j s hj
    simp [subscriber_serve] at hj
  · intro j s hj
    simp [subscriber_serve] at hj

def OnTime (sv : Server Key) : Prop :=
  ∀ j s, sv.subscriber j = some s → s.Punctual sv.opened.length

def Prompt (sv : Server Key) : ServerAction → Prop
  | .subscriber j a => ∀ s, sv.subscriber j = some s → s.Tracked →
      s.Prompt sv.daemon.state.events sv.daemon.state.cancelled sv.opened.length a
  | _ => True

theorem onTime_serve (d : Daemon Key) : (serve d).OnTime := by
  intro j s hj
  simp [subscriber_serve] at hj

theorem OnTime.advance {sv : Server Key} (h : sv.OnTime) (hs : sv.Sound) (action : Action) :
    (sv.advance lib action).OnTime := by
  intro j s hj
  refine (h j s hj).mono ?_ ?_
  · simp only [Server.advance]
    split_ifs
    · exact Nat.le_refl _
    · exact (hs.opened_prefix.trans (sv.daemon.step_streamed lib action).sent_initial).length_le
  · intro hp
    have hc := (sv.daemon.step_streamed lib action).cancelled_mono (hs.returned j s hj hp)
    simp [Server.advance, hc]

theorem OnTime.quiet {sv sv' : Server Key} {action : ServerAction} (h : sv.OnTime) (hs : sv.Sound)
    (hq : Quiet sv sv') (hm : ∀ j, Moved sv action j (sv'.subscriber j))
    (hp : sv.Prompt action) : sv'.OnTime := by
  intro j s hj
  have hmj := hm j
  rw [hj] at hmj
  rw [hq.opened]
  refine hmj.keeps (Subscriber.Punctual _) (h j s) (fun _ => ⟨Nat.le_max_left _ _,nofun⟩) ?_
  rintro a before rfl hbefore
  have hopen := fun hc => congrArg List.length (hs.opened_all hc)
  exact ((h j before hbefore).act_iff (hs.faithful j before hbefore) hopen a).mpr
    (hp before hbefore)

theorem OnTime.prompt {sv : Server Key} (h : sv.OnTime) (hs : sv.Sound) {j : Nat}
    {a : SubscriberAction} (h' : (sv.subscriberAction j a).OnTime) :
    sv.Prompt (.subscriber j a) := by
  intro s hj
  have hopen := fun hc => congrArg List.length (hs.opened_all hc)
  refine ((h j s hj).act_iff (hs.faithful j s hj) hopen a).mp ?_
  refine h' j _ ?_
  rw [subscriber_subscriberAction, if_pos rfl, hj]
  rfl

theorem OnTime.step_iff {sv : Server Key} (h : sv.OnTime) (hs : sv.Sound)
    (action : ServerAction) : (sv.step lib action).OnTime ↔ sv.Prompt action := by
  constructor
  · intro h'
    cases action with
    | subscriber j a => exact h.prompt hs h'
    | _ => trivial
  · intro hp
    cases action with
    | daemon action => exact h.advance hs action
    | _ => exact h.quiet hs (sv.quiet_step lib rfl) (sv.moved_step lib _) hp

def Complete (sv : Server Key) : Prop :=
  ∀ j s, sv.subscriber j = some s → s.Tracked →
    s.heard <+: sv.opened.drop s.registered ∧
      (s.phase = .returned true → s.written = sv.opened.drop s.registered)

theorem Sound.onTime_iff {sv : Server Key} (hs : sv.Sound) : sv.OnTime ↔ sv.Complete := by
  refine forall_congr' fun j => forall_congr' fun s => forall_congr' fun hj => ?_
  exact forall_congr' fun ht => Subscriber.onTime_iff (hs.faithful j s hj) ht hs.opened_prefix

theorem sound_run (lib : TextLibrary) (d : Daemon Key) (acts : List ServerAction) :
    (run (step lib) (serve d) acts).Sound :=
  Transition.run_invariant Sound (fun _ action h => h.step action) (sound_serve d) acts

theorem guarded_iff_complete (lib : TextLibrary) (d : Daemon Key) (acts : List ServerAction) :
    Guarded (step lib) Prompt (serve d) acts ↔
      ∀ before, before <+: acts → (run (step lib) (serve d) before).Complete := by
  have hstep : ∀ (sv : Server Key) action, sv.Sound ∧ sv.OnTime →
      ((sv.step lib action).Sound ∧ (sv.step lib action).OnTime ↔ sv.Prompt action) := by
    rintro sv action ⟨hs,ht⟩
    rw [← ht.step_iff hs]
    exact and_iff_right (hs.step action)
  rw [Transition.guarded_iff_invariant (fun sv : Server Key => sv.Sound ∧ sv.OnTime) hstep
    ⟨sound_serve d,onTime_serve d⟩]
  refine forall_congr' fun before => forall_congr' fun _ => ?_
  have hs := sound_run lib d before
  rw [← hs.onTime_iff]
  exact and_iff_right hs

theorem registered_step (lib : TextLibrary) {sv : Server Key} (action : ServerAction) {j r : Nat}
    (h : ∃ s, sv.subscriber j = some s ∧ s.registered = r) :
    ∃ s, (sv.step lib action).subscriber j = some s ∧ s.registered = r := by
  obtain ⟨s,hj,hr⟩ := h
  have hm := sv.moved_step lib action j
  generalize (sv.step lib action).subscriber j = moved at hm
  cases hm with
  | same => exact ⟨s,hj,hr⟩
  | registered hn =>
    rw [hj] at hn
    cases hn
  | stepped a _ =>
    rw [hj]
    exact ⟨_,rfl,(s.registered_act _ _ a).trans hr⟩

theorem Sound.opened_step {sv : Server Key} (h : sv.Sound) (action : ServerAction) :
    sv.opened <+: (sv.step lib action).opened := by
  cases action with
  | daemon action =>
    simp only [Server.step, Server.advance]
    split_ifs
    · exact List.prefix_rfl
    · exact h.opened_prefix.trans (sv.daemon.step_streamed lib action).sent_initial
  | _ => rw [(sv.quiet_step lib rfl).opened]

theorem stop_broadcast {sv : Server Key} {i : Nat} {call : Call}
    (hi : sv.daemon.calls[i]? = some call) (hs : call.stage = .stopping)
    (hc : sv.daemon.state.cancelled = false) :
    (sv.step lib (.daemon (.proceed i))).opened =
      sv.daemon.state.events.sent ++ [.daemonStopped] := by
  simp [Server.step, Server.advance, Daemon.step, Daemon.proceed, hi, hs, AppState.proceed,
    AppState.dispatch, hc, Channel.send]

theorem Sound.stop_written {sv : Server Key} (h : sv.Sound) {i : Nat} {call : Call}
    (hi : sv.daemon.calls[i]? = some call) (hs : call.stage = .stopping)
    (hc : sv.daemon.state.cancelled = false) {j : Nat} {before : Subscriber}
    (hj : sv.subscriber j = some before) (after : List ServerAction) {s : Subscriber}
    (hend :
      (run (Server.step lib) (sv.step lib (.daemon (.proceed i))) after).subscriber j = some s)
    (hw : s.written =
      (run (Server.step lib) (sv.step lib (.daemon (.proceed i))) after).opened.drop s.registered) :
    .daemonStopped ∈ s.written := by
  have hstop : (sv.step lib (.daemon (.proceed i))).opened =
      sv.daemon.state.events.sent ++ [.daemonStopped] := stop_broadcast hi hs hc
  have hgrow := Transition.run_invariant
    (fun t : Server Key => t.Sound ∧
      (∃ s, t.subscriber j = some s ∧ s.registered = before.registered) ∧
      sv.daemon.state.events.sent ++ [.daemonStopped] <+: t.opened)
    (fun t action ht => ⟨ht.1.step action,registered_step lib action ht.2.1,
      ht.2.2.trans (ht.1.opened_step action)⟩)
    (s := sv.step lib (.daemon (.proceed i)))
    ⟨h.step _,registered_step lib _ ⟨before,hj,rfl⟩,hstop ▸ List.prefix_rfl⟩ after
  obtain ⟨-,⟨s',hs',hreg⟩,hwindow⟩ := hgrow
  obtain rfl := Option.some.inj (hend.symm.trans hs')
  have hle : s.registered ≤ sv.daemon.state.events.sent.length := by
    have hf := h.faithful j before hj
    rw [hreg]
    exact hf.registered_le.trans hf.next_le
  obtain ⟨rest,hrest⟩ := hwindow
  rw [hw, ← hrest, List.append_assoc, List.drop_append_of_le_length hle]
  simp

theorem events_delivered_when_prompt (lib : TextLibrary) (d : Daemon Key)
    (acts : List ServerAction) :
    (Guarded (step lib) Prompt (serve d) acts ↔
      ∀ before, before <+: acts → (run (step lib) (serve d) before).Complete) ∧
    (Guarded (step lib) Prompt (serve d) acts →
      ∀ before i call after, acts = before ++ .daemon (.proceed i) :: after →
        (run (step lib) (serve d) before).daemon.calls[i]? = some call →
        call.stage = .stopping →
        (run (step lib) (serve d) before).daemon.state.cancelled = false →
        ∀ j s, ((run (step lib) (serve d) before).subscriber j).isSome = true →
          (run (step lib) (serve d) acts).subscriber j = some s → s.Tracked →
          s.phase = .returned true → .daemonStopped ∈ s.written) := by
  refine ⟨guarded_iff_complete lib d acts,?_⟩
  rintro hg before i call after rfl hi hs hc j s hj hend ht hp
  have hcomplete := (guarded_iff_complete lib d _).mp hg _ List.prefix_rfl j s hend ht
  have hw := hcomplete.2 hp
  rw [Transition.run_append, Transition.run_cons] at hend hw
  obtain ⟨s₀,hs₀⟩ := Option.isSome_iff_exists.mp hj
  exact (sound_run lib d before).stop_written hi hs hc hs₀ after hend hw

def subscribed (order : IterationOrder String DnsRule) : List ServerAction :=
  [.connect 0 .subscribe, .poll, .accept, .handle order 0]

def stopping (order : IterationOrder String DnsRule) : List ServerAction :=
  [.connect 1 .stop, .poll, .accept, .handle order 1]

def listening (order : IterationOrder String DnsRule) : Server Unit :=
  run (step Daemon.plainText) (serve (Daemon.start ⟨[]⟩)) (subscribed order ++ stopping order)

def heardStop : List ServerAction :=
  [.subscriber 0 .select, .daemon (.proceed 0), .subscriber 0 .recv, .subscriber 0 (.write true),
    .daemon (.proceed 0), .subscriber 0 .select]

theorem stop_event_written_when_prompt :
    ∃ s, (run (step Daemon.plainText) (listening default) heardStop).subscriber 0 = some s ∧
      .daemonStopped ∈ s.written := by
  have hg : Guarded (step Daemon.plainText) Prompt (serve (Daemon.start ⟨[]⟩ : Daemon Unit))
      (subscribed default ++ stopping default ++ heardStop) := by
    refine ⟨trivial,trivial,trivial,trivial,trivial,trivial,trivial,trivial,?_,trivial,?_,?_,
      trivial,?_,trivial⟩
    · intro s _ _ _ hc
      cases hc
    · intro s _ _ event next _ _ hc
      cases hc
    · intro s _ _
      trivial
    · intro s hs _ _ _
      obtain rfl := Option.some.inj hs
      decide
  have hall := (events_delivered_when_prompt Daemon.plainText (Daemon.start ⟨[]⟩ : Daemon Unit)
    (subscribed default ++ stopping default ++ heardStop)).2 hg
  exact ⟨_,rfl,hall (subscribed default ++ stopping default ++ [.subscriber 0 .select]) 0
    ⟨.stop,.stopping⟩ _ rfl rfl rfl rfl 0 _ rfl rfl ⟨rfl,by decide⟩ rfl⟩

def cutOff : List ServerAction :=
  [.daemon (.proceed 0), .daemon (.proceed 0), .subscriber 0 .select]

theorem stop_event_dropped_on_cancellation :
    ¬ ∀ (d : Daemon Unit) (acts : List ServerAction),
      let sv := run (step Daemon.plainText) (serve d) acts
      ∀ j s, sv.subscriber j = some s → s.Tracked → s.phase = .returned true →
        s.written = sv.opened.drop s.registered := by
  intro h
  have hw := h (Daemon.start ⟨[]⟩) (subscribed default ++ stopping default ++ cutOff) 0 _ rfl
    ⟨rfl,by decide⟩ rfl
  exact absurd hw (by decide)

end Server

end SideDns
