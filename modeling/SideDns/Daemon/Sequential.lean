import SideDns.Daemon.EventStream
import SideDns.Library.Sequence

namespace SideDns

open FiniteMap (IterationOrder)
open Transition (run)

namespace Stage

def reply : Stage → IpcResponse
  | replied response => response
  | _ => .ok

def event? : Stage → Option DnsEvent
  | announcing event => some event
  | _ => none

end Stage

def DnsEvent.isRule (event : DnsEvent) : Bool := event.rule?.isSome

def Action.request? : Action → Option (IterationOrder String DnsRule × IpcRequest)
  | .request order r => some (order, r)
  | _ => none

namespace AppState

variable {lib : TextLibrary}

def answer (lib : TextLibrary) (p : AppState × List IpcResponse)
    (request : IterationOrder String DnsRule × IpcRequest) : AppState × List IpcResponse :=
  let handled := p.1.handle lib request.1 request.2
  (handled.1, p.2 ++ [handled.2])

def answers (lib : TextLibrary) (st : AppState)
    (requests : List (IterationOrder String DnsRule × IpcRequest)) :
    AppState × List IpcResponse :=
  requests.foldl (answer lib) (st, [])

theorem accept_congr (lib : TextLibrary) (order : IterationOrder String DnsRule)
    {st st' : AppState} (h : st.store = st'.store) (request : IpcRequest) :
    (st.accept lib order request).2 = (st'.accept lib order request).2 ∧
      (st.accept lib order request).1.store = (st'.accept lib order request).1.store := by
  cases request with
  | add domain target https =>
    simp only [accept, h]
    split_ifs
    · exact ⟨rfl,rfl⟩
    · exact ⟨rfl,h⟩
  | addEphemeral domain target https =>
    simp only [accept, h]
    split_ifs
    · exact ⟨rfl,rfl⟩
    · exact ⟨rfl,h⟩
  | remove domain =>
    simp only [accept, h]
    split_ifs
    · split <;> exact ⟨rfl,rfl⟩
    · exact ⟨rfl,h⟩
  | removeEphemeral domain =>
    simp only [accept, h]
    split_ifs
    · split <;> exact ⟨rfl,rfl⟩
    · exact ⟨rfl,h⟩
  | resolve domain =>
    simp only [accept, h]
    split_ifs <;> exact ⟨rfl,h⟩
  | _ =>
    simp only [accept, h]
    exact ⟨trivial,trivial⟩

theorem Accepted.events {st : AppState} {request : IpcRequest} {accepted : AppState × Stage}
    (h : Accepted lib st request accepted) : accepted.1.events = st.events := by
  cases h <;> rfl

theorem finish_keeps (st : AppState) (stage : Stage) :
    (st.finish stage).1.store = st.store ∧ (st.finish stage).2 = stage.reply := by
  cases stage <;> exact ⟨rfl,rfl⟩

theorem finish_sent (st : AppState) {stage : Stage} (h : ∀ event ∈ stage.event?, event.isRule) :
    (st.finish stage).1.events.sent.filter DnsEvent.isRule =
      st.events.sent.filter DnsEvent.isRule ++ stage.event?.toList := by
  cases stage with
  | announcing event =>
    have hrule : event.isRule = true := h event rfl
    simp [finish, dispatch, Broadcast.Channel.send, Stage.event?, hrule]
  | stopping =>
    have hstop : DnsEvent.isRule .daemonStopped = false := rfl
    simp [finish, dispatch, cancel, Broadcast.Channel.send, Stage.event?, hstop]
  | cancelling => simp [finish, cancel, Stage.event?]
  | replied response => simp [finish, Stage.event?]

theorem accept_announces (lib : TextLibrary) (order : IterationOrder String DnsRule)
    (st : AppState) (request : IpcRequest) :
    ∀ event ∈ (st.accept lib order request).2.event?, event.isRule := by
  have hacc := st.accept_cases lib order request
  generalize st.accept lib order request = accepted at hacc
  cases hacc with
  | announcing m rule hm ha =>
    intro event he
    obtain rfl := Option.some.inj he
    simp [DnsEvent.isRule]
  | stopping hs => exact nofun
  | replied response hm => exact nofun

end AppState

namespace Daemon

variable {Key : Type} {lib : TextLibrary}

def pending (d : Daemon Key) : List DnsEvent := d.calls.filterMap fun call => call.stage.event?

theorem replies_set {calls : List Call} {i : Nat} {call : Call} (hi : calls[i]? = some call)
    {stage : Stage} (hs : stage.reply = call.stage.reply) :
    (calls.set i ⟨call.request, stage⟩).map (fun call => call.stage.reply) =
      calls.map (fun call => call.stage.reply) := by
  induction calls generalizing i with
  | nil => rfl
  | cons c calls ih =>
    cases i with
    | zero =>
      obtain rfl := Option.some.inj hi
      exact congrArg (fun reply => reply :: calls.map fun call => call.stage.reply) hs
    | succ i => exact congrArg (List.cons c.stage.reply) (ih hi)

structure Sequential (d : Daemon Key) (p : AppState × List IpcResponse) : Prop where
  store : d.state.store = p.1.store
  replies : d.calls.map (fun call => call.stage.reply) = p.2
  events : (d.state.events.sent.filter DnsEvent.isRule ++ d.pending).Perm
    (p.1.events.sent.filter DnsEvent.isRule)

theorem Sequential.same {d d' : Daemon Key} {p : AppState × List IpcResponse}
    (h : d.Sequential p) (hs : SameRules d d')
    (he : d'.state.events.sent.filter DnsEvent.isRule =
      d.state.events.sent.filter DnsEvent.isRule) : d'.Sequential p := by
  refine ⟨hs.store.trans h.store,by rw [hs.calls, h.replies],?_⟩
  rw [he, pending, hs.calls]
  exact h.events

theorem Sequential.sameState {d d' : Daemon Key} {p : AppState × List IpcResponse}
    (h : d.Sequential p) (hs : SameState d d') : d'.Sequential p :=
  h.same hs.sameRules (by rw [hs.state])

theorem Sequential.shut {d d' : Daemon Key} {p : AppState × List IpcResponse}
    (h : d.Sequential p) (hs : Shut d d') : d'.Sequential p := by
  refine h.same hs.sameRules ?_
  cases hs with
  | signal => rfl
  | shutdown hc hr =>
    have hstop : DnsEvent.isRule .daemonStopped = false := rfl
    simp [AppState.dispatch, Broadcast.Channel.send, hstop]
  | idle => rfl

theorem Sequential.accept {d : Daemon Key} {p : AppState × List IpcResponse}
    (h : d.Sequential p) (order : IterationOrder String DnsRule) (request : IpcRequest) :
    (d.accept lib order request).Sequential (AppState.answer lib p (order, request)) := by
  obtain ⟨hstage,hstore⟩ := AppState.accept_congr lib order h.store request
  obtain ⟨hkept,hreply⟩ := AppState.finish_keeps (p.1.accept lib order request).1
    (p.1.accept lib order request).2
  have hsent := AppState.finish_sent (p.1.accept lib order request).1
    (p.1.accept_announces lib order request)
  have hevents : (d.accept lib order request).state.events = d.state.events :=
    (d.accept_stream lib order request).1
  refine ⟨hstore.trans hkept.symm,?_,?_⟩
  · simp only [Daemon.accept, List.map_append, List.map_singleton, h.replies, hstage]
    exact congrArg (fun reply => p.2 ++ [reply]) hreply.symm
  · have hseq : (p.1.accept lib order request).1.events = p.1.events :=
      (AppState.accept_cases lib order p.1 request).events
    have hpending : (d.accept lib order request).pending =
        d.pending ++ (p.1.accept lib order request).2.event?.toList := by
      simp only [pending, Daemon.accept, List.filterMap_append, hstage]
      cases he : (p.1.accept lib order request).2.event? <;> simp [he]
    rw [hseq] at hsent
    rw [hevents, hpending, AppState.answer, AppState.handle, hsent, ← List.append_assoc]
    exact h.events.append_right _

theorem pending_set {d : Daemon Key} {i : Nat} {call : Call} (hi : d.calls[i]? = some call)
    (stage : Stage) (hs : stage.event? = none) :
    d.pending.Perm (call.stage.event?.toList ++
      (d.calls.set i ⟨call.request, stage⟩).filterMap fun call => call.stage.event?) := by
  have hperm := Sequence.filterMap_set_perm (fun call : Call => call.stage.event?) hi
    ⟨call.request,stage⟩
  simp only [hs, Option.toList_none, List.nil_append] at hperm
  exact hperm

theorem Sequential.pending_rule {d : Daemon Key} {p : AppState × List IpcResponse}
    (h : d.Sequential p) {event : DnsEvent} (he : event ∈ d.pending) : event.isRule = true :=
  (List.mem_filter.mp (h.events.subset (List.mem_append_right _ he))).2

theorem Sequential.proceed {d d' : Daemon Key} {p : AppState × List IpcResponse} {i : Nat}
    (h : d.Sequential p) (hd : Proceeded d i d') : d'.Sequential p := by
  cases hd with
  | announcing call event hi hs =>
    refine ⟨h.store,?_,?_⟩
    · rw [replies_set hi (by rw [hs]; rfl), h.replies]
    · have hperm := pending_set hi (.replied .ok) rfl
      have hevent : event.isRule = true :=
        h.pending_rule (List.mem_filterMap.mpr ⟨call,List.mem_of_getElem? hi,by rw [hs]; rfl⟩)
      rw [hs] at hperm
      refine (List.Perm.trans ?_ (hperm.append_left _).symm).trans h.events
      simp [AppState.dispatch, Broadcast.Channel.send, hevent, Stage.event?, pending]
  | stopping call hi hs =>
    refine ⟨h.store,?_,?_⟩
    · rw [replies_set hi (by rw [hs]; rfl), h.replies]
    · have hperm := pending_set hi .cancelling rfl
      have hstop : DnsEvent.isRule .daemonStopped = false := rfl
      rw [hs] at hperm
      refine (List.Perm.trans ?_ (hperm.append_left _).symm).trans h.events
      simp [AppState.dispatch, Broadcast.Channel.send, hstop, Stage.event?, pending]
  | cancelling call hi hs =>
    refine ⟨h.store,?_,?_⟩
    · rw [replies_set hi (by rw [hs]; rfl), h.replies]
    · have hperm := pending_set hi (.replied .ok) rfl
      rw [hs] at hperm
      refine (List.Perm.trans ?_ (hperm.append_left _).symm).trans h.events
      simp [AppState.cancel, Stage.event?, pending]
  | idle => exact h

theorem Sequential.step {d : Daemon Key} {p : AppState × List IpcResponse} (h : d.Sequential p)
    (action : Action) :
    (d.step lib action).Sequential (action.request?.toList.foldl (AppState.answer lib) p) := by
  cases action with
  | probe domain => exact h.sameState (d.probe_sameState domain)
  | advance i => exact h.sameState (d.advance_cases i).sameState
  | request order request => exact h.accept order request
  | proceed i => exact h.proceed (d.proceed_cases i)
  | watch action => exact h.sameState (d.watch_cases action).sameState
  | manager action => exact h.sameState (d.manager_cases action).sameState
  | signal => exact h.shut d.signal_cases
  | shutdown => exact h.shut d.shutdown_cases

theorem Sequential.run {d : Daemon Key} {p : AppState × List IpcResponse} (h : d.Sequential p)
    (acts : List Action) :
    (Transition.run (Daemon.step lib) d acts).Sequential
      ((acts.filterMap Action.request?).foldl (AppState.answer lib) p) := by
  induction acts generalizing d p with
  | nil => exact h
  | cons action acts ih =>
    have hstep : (d.step lib action).Sequential _ := h.step action
    have hrest := ih hstep
    cases hr : action.request? with
    | none =>
      rw [hr] at hrest
      rw [List.filterMap_cons_none hr]
      exact hrest
    | some request =>
      rw [hr] at hrest
      rw [List.filterMap_cons_some hr]
      exact hrest

theorem Sequential.replied {d : Daemon Key} {p : AppState × List IpcResponse}
    (h : d.Sequential p) {i : Nat} {call : Call} (hi : d.calls[i]? = some call)
    {response : IpcResponse} (hs : call.stage = .replied response) :
    p.2[i]? = some response := by
  rw [← h.replies, List.getElem?_map, hi, Option.map_some, hs]
  rfl

theorem Sequential.answered {d : Daemon Key} {p : AppState × List IpcResponse}
    (h : d.Sequential p) (ha : d.Answered) :
    (d.state.events.sent.filter DnsEvent.isRule).Perm
      (p.1.events.sent.filter DnsEvent.isRule) := by
  have hpending : d.pending = [] := by
    refine List.filterMap_eq_nil_iff.mpr fun call hc => ?_
    have hreplied := ha call hc
    cases hs : call.stage <;> rw [hs] at hreplied <;> first | rfl | cases hreplied
  have hevents := h.events
  rw [hpending, List.append_nil] at hevents
  exact hevents

theorem sequential_start (config : DnsConfig) :
    (start config : Daemon Key).Sequential ((start config : Daemon Key).state, []) :=
  ⟨rfl,rfl,List.Perm.refl _⟩

theorem requests_run (lib : TextLibrary) (d : Daemon Key) (acts : List Action) :
    (run (step lib) d acts).calls.map Call.request =
      d.calls.map Call.request ++ (acts.filterMap Action.request?).map Prod.snd := by
  induction acts generalizing d with
  | nil => simp
  | cons action acts ih =>
    rw [Transition.run_cons, ih]
    cases action with
    | request order request => simp [step, accept, Action.request?]
    | proceed i =>
      rw [step, (d.proceed_cases i).requests]
      rfl
    | _ =>
      rw [(d.step_sameRules lib rfl).calls]
      rfl

theorem requests_handled_in_order (lib : TextLibrary) (config : DnsConfig) (acts : List Action) :
    let d := run (step lib) (start config : Daemon Key) acts
    let requests := acts.filterMap Action.request?
    let p := (start config : Daemon Key).state.answers lib requests
    d.calls.map Call.request = requests.map Prod.snd ∧ d.state.store = p.1.store ∧
      (∀ (i : Nat) (call : Call), d.calls[i]? = some call → ∀ response,
        call.stage = .replied response → p.2[i]? = some response) ∧
      (d.Answered → (d.state.events.sent.filter DnsEvent.isRule).Perm
        (p.1.events.sent.filter DnsEvent.isRule)) := by
  intro d requests p
  have hseq : d.Sequential p := (sequential_start config).run acts
  refine ⟨requests_run lib _ acts,hseq.store,fun i call hi response hs => hseq.replied hi hs,
    hseq.answered⟩

end Daemon

end SideDns
