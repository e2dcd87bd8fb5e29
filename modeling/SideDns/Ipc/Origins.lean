import SideDns.Ipc.Delivery

namespace SideDns

open Broadcast (Channel)
open FiniteMap (IterationOrder)

theorem AppState.replied_ok_of_accept {lib : TextLibrary} {order : IterationOrder String DnsRule}
    {st : AppState} {request : IpcRequest}
    (h : (st.accept lib order request).2 = .replied .ok) : request.mutation lib = none := by
  cases request with
  | add domain target https =>
    cases hv : validateDomain lib domain <;> simp [accept, hv, invalidDomain] at h
  | addEphemeral domain target https =>
    cases hv : validateDomain lib domain <;> simp [accept, hv, invalidDomain] at h
  | remove domain =>
    cases hv : validateDomain lib domain with
    | false => simp [IpcRequest.mutation, hv]
    | true =>
      cases hr : (st.store.remove (lib.toLowercase domain)).2 <;>
        simp [accept, hv, hr, noRule] at h
  | removeEphemeral domain =>
    cases hv : validateDomain lib domain with
    | false => simp [IpcRequest.mutation, hv]
    | true =>
      cases hr : (st.store.removeEphemeral (lib.toLowercase domain)).2 <;>
        simp [accept, hv, hr, noEphemeralRule] at h
  | _ => rfl

theorem AppState.announcing_of_accept {lib : TextLibrary} {st : AppState} {request : IpcRequest}
    {m : Mutation} {rule : DnsRule} (order : IterationOrder String DnsRule)
    (hm : request.mutation lib = some m) (ha : m.announced st.store.inner = some rule) :
    (st.accept lib order request).2 = .announcing (m.event rule) := by
  have hacc := st.accept_cases lib order request
  generalize st.accept lib order request = accepted at hacc
  cases hacc with
  | announcing m' rule' hm' ha' =>
    obtain rfl := Option.some.inj (hm.symm.trans hm')
    obtain rfl := Option.some.inj (ha.symm.trans ha')
    rfl
  | stopping hs =>
    rw [hs] at hm
    cases hm
  | replied response hnone =>
    rw [hnone m hm] at ha
    cases ha

namespace Server

variable {Key : Type} {lib : TextLibrary}

def Logged (sv : Server Key) (i : Nat) (event : DnsEvent) : Prop :=
  ∃ p : Nat, sv.origins[p]? = some (some i) ∧ sv.daemon.state.events.sent[p]? = some event

def Recorded (lib : TextLibrary) (sv : Server Key) (i : Nat) (call : Call) : Prop :=
  ∀ m, call.request.mutation lib = some m →
    match call.stage with
    | .announcing event => ∃ rule, event = m.event rule ∧ rule.domain = m.pattern
    | .replied .ok => ∃ rule, sv.Logged i (m.event rule) ∧ rule.domain = m.pattern
    | .replied _ => True
    | .stopping => False
    | .cancelling => False

structure Traced (lib : TextLibrary) (sv : Server Key) : Prop where
  length : sv.origins.length = sv.daemon.state.events.sent.length
  origins : ∀ i, some i ∈ sv.origins → i < sv.daemon.calls.length
  requests : ∀ (k : Nat) c i, sv.connections[k]? = some c → c.stage.call? = some i →
    (sv.daemon.calls.map Call.request)[i]? = some c.request
  recorded : ∀ (i : Nat) call, sv.daemon.calls[i]? = some call → sv.Recorded lib i call

theorem connection_onConnection {sv : Server Key} {j k : Nat} {f : Connection → Connection}
    {c : Connection} (hk : (sv.onConnection j f).connections[k]? = some c) :
    ∃ c₀, sv.connections[k]? = some c₀ ∧ c = if j = k then f c₀ else c₀ := by
  simp only [onConnection, List.getElem?_modify] at hk
  obtain ⟨c₀,hc₀,rfl⟩ := Option.map_eq_some_iff.mp hk
  exact ⟨c₀,hc₀,rfl⟩

def SameCall (sv : Server Key) (k : Nat) (c : Connection) : Prop :=
  ∃ c₀, sv.connections[k]? = some c₀ ∧ c₀.stage.call? = c.stage.call? ∧ c₀.after = c.after ∧
    c₀.request = c.request

theorem sameCall_setStage {sv : Server Key} {j k : Nat} {stage : ConnectionStage}
    {c : Connection} (hk : (sv.setStage j stage).connections[k]? = some c)
    (hs : ∀ c₀, sv.connections[j]? = some c₀ → stage.call? = c₀.stage.call? ∨
      stage.call? = none) : sv.SameCall k c ∨ c.stage.call? = none := by
  obtain ⟨c₀,hc₀,rfl⟩ := connection_onConnection hk
  split_ifs with hjk
  · subst hjk
    rcases hs c₀ hc₀ with hcall | hnone
    · exact .inl ⟨c₀,hc₀,hcall.symm,rfl,rfl⟩
    · exact .inr hnone
  · exact .inl ⟨c₀,hc₀,rfl,rfl,rfl⟩

structure Served (lib : TextLibrary) (sv sv' : Server Key) (order : IterationOrder String DnsRule)
    (k : Nat) (c : Connection) : Prop where
  call : c.stage.call? = some sv.daemon.calls.length
  request : c.request ≠ .subscribe
  accepted : sv.connections[k]? = some { c with stage := .accepted }
  daemon : sv'.daemon = sv.daemon.accept lib order c.request

theorem sameCall_handle (lib : TextLibrary) (sv : Server Key)
    (order : IterationOrder String DnsRule) (j : Nat) {k : Nat} {c : Connection}
    (hk : (sv.handleConnection lib order j).connections[k]? = some c) :
    sv.SameCall k c ∨ c.stage.call? = none ∨
      (j = k ∧ Served lib sv (sv.handleConnection lib order j) order k c) := by
  cases hj : sv.connections[j]? with
  | none =>
    simp only [handleConnection, hj] at hk
    exact .inl ⟨c,hk,rfl,rfl,rfl⟩
  | some served =>
    obtain ⟨client,request,after,confirmed,stage⟩ := served
    cases stage with
    | accepted =>
      simp only [handleConnection, hj] at hk ⊢
      split_ifs at hk ⊢ with hsub
      · refine (sameCall_setStage hk ?_).imp_right .inl
        intro c₀ _
        exact .inr rfl
      · obtain ⟨c₀,hc₀,rfl⟩ := connection_onConnection hk
        split_ifs with hjk
        · subst hjk
          obtain rfl := Option.some.inj (hj.symm.trans hc₀)
          exact .inr (.inr ⟨rfl,rfl,hsub,hj,rfl⟩)
        · exact .inl ⟨c₀,hc₀,rfl,rfl,rfl⟩
    | _ =>
      simp only [handleConnection, hj] at hk
      exact .inl ⟨c,hk,rfl,rfl,rfl⟩

theorem sameCall_accept (sv : Server Key) {k : Nat} {c : Connection}
    (hk : sv.accept.connections[k]? = some c) : sv.SameCall k c ∨ c.stage.call? = none := by
  simp only [accept] at hk
  split at hk
  · split at hk
    · exact sameCall_setStage hk (fun _ _ => .inr rfl)
    · exact .inl ⟨c,hk,rfl,rfl,rfl⟩
  · exact .inl ⟨c,hk,rfl,rfl,rfl⟩

theorem sameCall_answer (sv : Server Key) (j : Nat) {k : Nat} {c : Connection}
    (hk : (sv.answer j).connections[k]? = some c) : sv.SameCall k c ∨ c.stage.call? = none := by
  simp only [answer] at hk
  split at hk
  · next client request after confirmed call hj =>
    split_ifs at hk
    · refine sameCall_setStage hk ?_
      intro c₀ hc₀
      obtain rfl := Option.some.inj (hj.symm.trans hc₀)
      exact .inl rfl
    · exact .inl ⟨c,hk,rfl,rfl,rfl⟩
  · exact .inl ⟨c,hk,rfl,rfl,rfl⟩

theorem sameCall_connect (sv : Server Key) (client : Nat) (request : IpcRequest) {k : Nat}
    {c : Connection} (hk : (sv.connect client request).connections[k]? = some c) :
    sv.SameCall k c ∨ c.stage.call? = none := by
  simp only [connect, List.getElem?_append] at hk
  split_ifs at hk
  · exact .inl ⟨c,hk,rfl,rfl,rfl⟩
  · rw [List.getElem?_singleton] at hk
    split_ifs at hk
    obtain rfl := Option.some.inj hk
    exact .inr rfl

theorem sameCall_onConnection {sv : Server Key} {j k : Nat} {f : Connection → Connection}
    {c : Connection} (hk : (sv.onConnection j f).connections[k]? = some c)
    (hf : ∀ c₀, (f c₀).stage.call? = c₀.stage.call? ∧ (f c₀).after = c₀.after ∧
      (f c₀).request = c₀.request) : sv.SameCall k c := by
  obtain ⟨c₀,hc₀,rfl⟩ := connection_onConnection hk
  obtain ⟨hcall,hafter,hreq⟩ := hf c₀
  split_ifs
  · exact ⟨c₀,hc₀,hcall.symm,hafter.symm,hreq.symm⟩
  · exact ⟨c₀,hc₀,rfl,rfl,rfl⟩

theorem sameCall_step (lib : TextLibrary) (sv : Server Key) (action : ServerAction) {k : Nat}
    {c : Connection} (hk : (sv.step lib action).connections[k]? = some c) :
    sv.SameCall k c ∨ c.stage.call? = none ∨
      ∃ order, action = .handle order k ∧ Served lib sv (sv.step lib action) order k c := by
  cases action with
  | daemon action => exact .inl ⟨c,hk,rfl,rfl,rfl⟩
  | connect client request => exact (sv.sameCall_connect client request hk).imp_right .inl
  | confirm j => exact .inl (sameCall_onConnection hk (fun _ => ⟨rfl,rfl,rfl⟩))
  | poll =>
    simp only [step, poll] at hk
    split at hk <;> exact .inl ⟨c,hk,rfl,rfl,rfl⟩
  | accept => exact (sv.sameCall_accept hk).imp_right .inl
  | handle order j =>
    refine (sv.sameCall_handle lib order j hk).imp_right (Or.imp_right ?_)
    rintro ⟨rfl,hserved⟩
    exact ⟨order,rfl,hserved⟩
  | answer j => exact (sv.sameCall_answer j hk).imp_right .inl
  | subscriber j a =>
    refine .inl (sameCall_onConnection hk (fun c₀ => ⟨?_,rfl,rfl⟩))
    cases c₀.stage <;> rfl

theorem daemon_step (lib : TextLibrary) (sv : Server Key) {action : ServerAction}
    (ha : action.isDaemon = false) :
    (sv.step lib action).daemon = sv.daemon ∨
      ∃ order request, (sv.step lib action).daemon = sv.daemon.accept lib order request := by
  cases action with
  | daemon action => cases ha
  | handle order j =>
    simp only [step, handleConnection]
    split
    · split_ifs
      · exact .inl rfl
      · exact .inr ⟨order,_,rfl⟩
    · exact .inl rfl
  | accept =>
    simp only [step, accept]
    split
    · split <;> exact .inl rfl
    · exact .inl rfl
  | poll =>
    simp only [step, poll]
    split <;> exact .inl rfl
  | answer j =>
    simp only [step, answer]
    split
    · split_ifs <;> exact .inl rfl
    · exact .inl rfl
  | _ => exact .inl rfl

theorem origins_advance (lib : TextLibrary) (sv : Server Key) (action : Action) :
    sv.origins <+: (sv.advance lib action).origins := by
  simp only [advance]
  split_ifs
  · exact List.prefix_rfl
  · exact List.prefix_append _ _

theorem Logged.mono {sv sv' : Server Key} {i : Nat} {event : DnsEvent} (h : sv.Logged i event)
    (ho : sv.origins <+: sv'.origins)
    (hs : sv.daemon.state.events.sent <+: sv'.daemon.state.events.sent) : sv'.Logged i event := by
  obtain ⟨p,hp,he⟩ := h
  exact ⟨p,Sequence.getElem?_of_initial ho hp,Sequence.getElem?_of_initial hs he⟩

theorem Recorded.mono {sv sv' : Server Key} {i : Nat} {call : Call} (h : sv.Recorded lib i call)
    (hl : ∀ event, sv.Logged i event → sv'.Logged i event) : sv'.Recorded lib i call := by
  intro m hm
  have hrec := h m hm
  obtain ⟨request,stage⟩ := call
  cases stage with
  | replied response =>
    cases response with
    | ok =>
      obtain ⟨rule,hlog,hd⟩ := hrec
      exact ⟨rule,hl _ hlog,hd⟩
    | _ => trivial
  | _ => exact hrec

theorem Traced.recorded_accept {sv sv' : Server Key} (h : sv.Traced lib)
    {order : IterationOrder String DnsRule} {request : IpcRequest}
    (hd : sv'.daemon = sv.daemon.accept lib order request)
    (hl : ∀ i event, sv.Logged i event → sv'.Logged i event) :
    ∀ (i : Nat) call, sv'.daemon.calls[i]? = some call → sv'.Recorded lib i call := by
  intro i call hi
  have hacc := sv.daemon.state.accept_cases lib order request
  have hok : (sv.daemon.state.accept lib order request).2 = .replied .ok →
      request.mutation lib = none := AppState.replied_ok_of_accept
  rw [hd] at hi
  simp only [Daemon.accept, List.getElem?_append] at hi
  split_ifs at hi with hlt
  · exact (h.recorded i call hi).mono (hl i)
  · rw [List.getElem?_singleton] at hi
    split_ifs at hi
    obtain rfl := Option.some.inj hi
    intro m hm
    generalize sv.daemon.state.accept lib order request = accepted at hacc hok
    cases hacc with
    | announcing m' rule hm' ha =>
      obtain rfl := Option.some.inj (hm.symm.trans hm')
      exact ⟨rule,rfl,sv.daemon.state.store.wellFormed.announced_domain ha⟩
    | stopping hs =>
      rw [hs] at hm
      cases hm
    | replied response hn =>
      cases response with
      | ok =>
        rw [hok rfl] at hm
        cases hm
      | _ => trivial

theorem Traced.recorded_set {sv sv' : Server Key} (h : sv.Traced lib) {i k : Nat}
    {called moved call : Call} (hi : sv.daemon.calls[i]? = some called)
    (hkeep : sv.daemon.calls[k]? = some call → sv'.Recorded lib k call)
    (hmove : sv.Recorded lib i called → sv'.Recorded lib i moved)
    (hk : (sv.daemon.calls.set i moved)[k]? = some call) : sv'.Recorded lib k call := by
  rw [List.getElem?_set] at hk
  split_ifs at hk with hik
  · subst hik
    obtain rfl := Option.some.inj hk
    exact hmove (h.recorded i called hi)
  · exact hkeep hk

theorem Traced.recorded_proceed {sv sv' : Server Key} (h : sv.Traced lib) {i : Nat}
    (hd : Daemon.Proceeded sv.daemon i sv'.daemon)
    (hl : ∀ i event, sv.Logged i event → sv'.Logged i event)
    (hnew : ∀ call event, sv.daemon.calls[i]? = some call → call.stage = .announcing event →
      sv'.Logged i event) :
    ∀ (k : Nat) call, sv'.daemon.calls[k]? = some call → sv'.Recorded lib k call := by
  intro k call hk
  have hkeep : sv.daemon.calls[k]? = some call → sv'.Recorded lib k call :=
    fun hold => (h.recorded k call hold).mono (hl k)
  generalize hd' : sv'.daemon = d' at hd
  rw [hd'] at hk
  cases hd with
  | announcing called event hi hs =>
    refine h.recorded_set hi hkeep (fun hrecorded m hm => ?_) hk
    have hrec := hrecorded m hm
    rw [hs] at hrec
    obtain ⟨rule,rfl,hdomain⟩ := hrec
    exact ⟨rule,hnew called _ hi hs,hdomain⟩
  | stopping called hi hs =>
    refine h.recorded_set hi hkeep (fun hrecorded m hm => ?_) hk
    have hrec := hrecorded m hm
    rw [hs] at hrec
    exact hrec
  | cancelling called hi hs =>
    refine h.recorded_set hi hkeep (fun hrecorded m hm => ?_) hk
    have hrec := hrecorded m hm
    rw [hs] at hrec
    exact hrec.elim
  | idle => exact hkeep hk

theorem Traced.logged_advance {sv : Server Key} (h : sv.Traced lib) {i : Nat} {call : Call}
    {event : DnsEvent} (hi : sv.daemon.calls[i]? = some call)
    (hs : call.stage = .announcing event) :
    (sv.advance lib (.proceed i)).Logged i event := by
  obtain ⟨request,stage⟩ := call
  obtain rfl : stage = .announcing event := hs
  refine ⟨sv.origins.length,?_,?_⟩
  · simp [advance, Daemon.step, Daemon.proceed, hi, AppState.proceed, AppState.dispatch,
      Channel.send, origin]
  · simp [advance, Daemon.step, Daemon.proceed, hi, AppState.proceed, AppState.dispatch,
      Channel.send, h.length]

theorem getElem?_origins_advance {lib : TextLibrary} {sv : Server Key} {action : Action}
    {p : Nat} {o : Option Nat} (h : (sv.advance lib action).origins[p]? = some o) :
    sv.origins[p]? = some o ∨ (p = sv.origins.length ∧ origin sv.daemon action = o) := by
  simp only [advance] at h
  split_ifs at h
  · exact .inl h
  · rw [List.getElem?_append] at h
    split_ifs at h with hlt
    · exact .inl h
    · rw [List.getElem?_singleton] at h
      split_ifs at h with hz
      exact .inr ⟨by omega,Option.some.inj h⟩

theorem origin_eq_some {d : Daemon Key} {action : Action} {i : Nat}
    (h : origin d action = some i) :
    action = .proceed i ∧ ∃ request event, d.calls[i]? = some ⟨request, .announcing event⟩ := by
  cases action with
  | proceed j =>
    simp only [origin] at h
    split at h
    · next request event hj =>
      obtain rfl := Option.some.inj h
      exact ⟨rfl,request,event,hj⟩
    · cases h
  | _ => cases h

theorem calls_length_le (lib : TextLibrary) (d : Daemon Key) (action : Action) :
    d.calls.length ≤ (d.step lib action).calls.length := by
  simpa using (d.requests_step lib action).length_le

theorem Traced.advance {sv : Server Key} (h : sv.Traced lib) (action : Action) :
    (sv.advance lib action).Traced lib := by
  have hstream := sv.daemon.step_streamed lib action
  have hlog : ∀ i event, sv.Logged i event → (sv.advance lib action).Logged i event :=
    fun i event hl => hl.mono (sv.origins_advance lib action) hstream.sent_initial
  refine ⟨?_,?_,?_,?_⟩
  · have hl := h.length
    simp only [Server.advance]
    cases hstream with
    | same he _ => simp [he, hl]
    | sent event he _ => simp [he, hl, Channel.send]
    | cancelled he _ => simp [he, hl]
  · intro i hi
    refine Nat.lt_of_lt_of_le ?_ (calls_length_le lib sv.daemon action)
    obtain ⟨p,hp⟩ := List.getElem?_of_mem hi
    rcases getElem?_origins_advance hp with hold | ⟨-,hnew⟩
    · exact h.origins i (List.mem_of_getElem? hold)
    · obtain ⟨-,request,event,hcall⟩ := origin_eq_some hnew
      exact (List.getElem?_eq_some_iff.mp hcall).1
  · intro k c i hk hi
    exact Sequence.getElem?_of_initial (sv.daemon.requests_step lib action) (h.requests k c i hk hi)
  · cases action with
    | request order request => exact h.recorded_accept rfl hlog
    | proceed i =>
      exact h.recorded_proceed (sv.daemon.proceed_cases i) hlog
        (fun call event hi hs => h.logged_advance hi hs)
    | _ =>
      intro i call hi
      simp only [Server.advance] at hi
      rw [(sv.daemon.step_sameRules lib rfl).calls] at hi
      exact (h.recorded i call hi).mono (hlog i)

theorem Traced.quiet {sv : Server Key} (h : sv.Traced lib) {action : ServerAction}
    (ha : action.isDaemon = false) : (sv.step lib action).Traced lib := by
  have hq := sv.quiet_step lib ha
  have hd := sv.daemon_step lib ha
  have hlog : ∀ i event, sv.Logged i event → (sv.step lib action).Logged i event := by
    intro i event hl
    refine hl.mono ?_ ?_
    · rw [hq.origins]
    · rw [hq.events]
  have hreq : sv.daemon.calls.map Call.request <+:
      (sv.step lib action).daemon.calls.map Call.request := by
    rcases hd with heq | ⟨order,request,heq⟩
    · rw [heq]
    · rw [heq]
      exact sv.daemon.requests_step lib (.request order request)
  refine ⟨?_,?_,?_,?_⟩
  · rw [hq.origins, hq.events, h.length]
  · intro i hi
    rw [hq.origins] at hi
    have hle := hreq.length_le
    simp only [List.length_map] at hle
    exact Nat.lt_of_lt_of_le (h.origins i hi) hle
  · intro k c i hk hi
    rcases sv.sameCall_step lib action hk with ⟨c₀,hc₀,hcall,-,hr⟩ | hnone | ⟨order,-,hserved⟩
    · rw [← hr]
      exact Sequence.getElem?_of_initial hreq (h.requests k c₀ i hc₀ (hcall.trans hi))
    · rw [hi] at hnone
      cases hnone
    · obtain rfl := Option.some.inj (hi.symm.trans hserved.call)
      rw [hserved.daemon]
      simp [Daemon.accept]
  · rcases hd with heq | ⟨order,request,heq⟩
    · intro i call hi
      rw [heq] at hi
      exact (h.recorded i call hi).mono (hlog i)
    · exact h.recorded_accept heq hlog

theorem Traced.step {sv : Server Key} (h : sv.Traced lib) (action : ServerAction) :
    (sv.step lib action).Traced lib := by
  cases action with
  | daemon action => exact h.advance action
  | _ => exact h.quiet rfl

theorem traced_serve {d : Daemon Key} (hd : d.calls = []) : (serve d).Traced lib := by
  refine ⟨by simp [serve],?_,?_,?_⟩
  · intro i hi
    simp [serve] at hi
  · intro k c i hk
    simp [serve] at hk
  · intro i call hi
    simp [serve, hd] at hi

end Server

end SideDns
