import SideDns.Daemon.Step

namespace SideDns

open FiniteMap (HashMap IterationOrder SetOrder)

def Action.isHandling : Action → Bool
  | request _ _ => true
  | proceed _ => true
  | _ => false

namespace Daemon

variable {Key : Type} {lib : TextLibrary}

theorem announces_append {calls : List Call} {request : IpcRequest} {stage : Stage}
    {event : DnsEvent} :
    Announces (calls ++ [⟨request, stage⟩]) event ↔
      Announces calls event ∨ stage = .announcing event := by
  simp [Announces, or_and_right, exists_or]

theorem Announces.set {calls : List Call} {event : DnsEvent} (h : Announces calls event) {i : Nat}
    {call : Call} (hi : calls[i]? = some call) (after : Call) :
    call.stage = .announcing event ∨ Announces (calls.set i after) event := by
  obtain ⟨c,hc,hs⟩ := h
  rcases Sequence.mem_or_mem_set hi hc after with rfl | hset
  · exact .inl hs
  · exact .inr ⟨c,hset,hs⟩

theorem Announces.set_other {calls : List Call} {event : DnsEvent} (h : Announces calls event)
    {i : Nat} {call : Call} (hi : calls[i]? = some call)
    (hs : ∀ event, call.stage ≠ .announcing event) (after : Call) :
    Announces (calls.set i after) event :=
  (h.set hi after).resolve_left (hs event)

theorem requests_set {calls : List Call} {i : Nat} {call : Call} (hi : calls[i]? = some call)
    (stage : Stage) :
    (calls.set i ⟨call.request, stage⟩).map Call.request = calls.map Call.request := by
  induction calls generalizing i with
  | nil => rfl
  | cons c calls ih =>
    cases i with
    | zero =>
      obtain rfl := Option.some.inj hi
      rfl
    | succ i => exact congrArg (List.cons c.request) (ih hi)

theorem le_length_dispatch {st : AppState} {next : Nat} (h : next ≤ st.events.sent.length)
    (event : DnsEvent) : next ≤ (st.dispatch event).events.sent.length := by
  simp only [AppState.dispatch, Broadcast.Channel.send, List.length_append]
  omega

theorem mem_unread_dispatch {st : AppState} {next : Nat} (h : next ≤ st.events.sent.length)
    {event other : DnsEvent} :
    other ∈ (st.dispatch event).events.unread next ↔
      other ∈ st.events.unread next ∨ other = event := by
  simp [AppState.dispatch, Broadcast.Channel.unread_send h]

inductive Advanced (d : Daemon Key) (i : Nat) : Daemon Key → Prop where
  | missed (domain : String) (rule : DnsRule) (hi : d.lookups[i]? = some (.missed domain))
      (hr : d.state.store.resolve domain = some rule) :
      Advanced d i { d with lookups := d.lookups.set i (.holding domain rule) }
  | unknown (domain : String) (hi : d.lookups[i]? = some (.missed domain))
      (hr : d.state.store.resolve domain = none) :
      Advanced d i { d with lookups := d.lookups.eraseIdx i }
  | holding (domain : String) (rule : DnsRule) (hi : d.lookups[i]? = some (.holding domain rule)) :
      Advanced d i
        { d with
          resolver := { d.resolver with cache := d.resolver.cache.insert domain rule }
          lookups := d.lookups.eraseIdx i }
  | idle : Advanced d i d

theorem advance_cases (d : Daemon Key) (i : Nat) : Advanced d i (d.advance i) := by
  cases hi : d.lookups[i]? with
  | none =>
    simp only [advance, hi]
    exact .idle
  | some lookup =>
    cases lookup with
    | missed domain =>
      cases hr : d.state.store.resolve domain with
      | none =>
        simp only [advance, hi, hr]
        exact .unknown domain hi hr
      | some rule =>
        simp only [advance, hi, hr]
        exact .missed domain rule hi hr
    | holding domain rule =>
      simp only [advance, hi]
      exact .holding domain rule hi

inductive Proceeded (d : Daemon Key) (i : Nat) : Daemon Key → Prop where
  | announcing (call : Call) (event : DnsEvent) (hi : d.calls[i]? = some call)
      (hs : call.stage = .announcing event) :
      Proceeded d i
        { d with
          state := d.state.dispatch event
          calls := d.calls.set i ⟨call.request, .replied .ok⟩ }
  | stopping (call : Call) (hi : d.calls[i]? = some call) (hs : call.stage = .stopping) :
      Proceeded d i
        { d with
          state := d.state.dispatch .daemonStopped
          calls := d.calls.set i ⟨call.request, .cancelling⟩ }
  | cancelling (call : Call) (hi : d.calls[i]? = some call) (hs : call.stage = .cancelling) :
      Proceeded d i
        { d with
          state := d.state.cancel
          calls := d.calls.set i ⟨call.request, .replied .ok⟩ }
  | idle : Proceeded d i d

theorem proceed_cases (d : Daemon Key) (i : Nat) : Proceeded d i (d.proceed i) := by
  cases hi : d.calls[i]? with
  | none =>
    simp only [proceed, hi]
    exact .idle
  | some call =>
    obtain ⟨request,stage⟩ := call
    cases stage with
    | announcing event =>
      simp only [proceed, hi, AppState.proceed]
      exact .announcing _ event hi rfl
    | stopping =>
      simp only [proceed, hi, AppState.proceed]
      exact .stopping _ hi rfl
    | cancelling =>
      simp only [proceed, hi, AppState.proceed]
      exact .cancelling _ hi rfl
    | replied response =>
      obtain ⟨hlt,hget⟩ := List.getElem?_eq_some_iff.mp hi
      have hset : d.calls.set i ⟨request,.replied response⟩ = d.calls := by
        rw [← hget, List.set_getElem_self]
      simp only [proceed, hi, AppState.proceed, hset]
      exact .idle

theorem Proceeded.sent_le {d d' : Daemon Key} {i next : Nat} (h : Proceeded d i d')
    (hn : next ≤ d.state.events.sent.length) : next ≤ d'.state.events.sent.length := by
  cases h with
  | announcing call event _ _ => exact le_length_dispatch hn event
  | stopping call _ _ => exact le_length_dispatch hn .daemonStopped
  | cancelling call _ _ => exact hn
  | idle => exact hn

theorem Proceeded.coming {d d' : Daemon Key} {i next : Nat} (h : Proceeded d i d')
    (hn : next ≤ d.state.events.sent.length) {event : DnsEvent} (hc : d.Coming next event) :
    d'.Coming next event := by
  cases h with
  | announcing call sent hi hs =>
    rcases hc with hu | ha
    · exact .inl ((mem_unread_dispatch hn).mpr (.inl hu))
    · rcases ha.set hi ⟨call.request,.replied .ok⟩ with hcall | hset
      · rw [hs] at hcall
        obtain rfl := Stage.announcing.inj hcall
        exact .inl ((mem_unread_dispatch hn).mpr (.inr rfl))
      · exact .inr hset
  | stopping call hi hs =>
    rcases hc with hu | ha
    · exact .inl ((mem_unread_dispatch hn).mpr (.inl hu))
    · exact .inr (ha.set_other hi (by simp [hs]) _)
  | cancelling call hi hs =>
    rcases hc with hu | ha
    · exact .inl hu
    · exact .inr (ha.set_other hi (by simp [hs]) _)
  | idle => exact hc

inductive Watched (d : Daemon Key) : WatchAction → Daemon Key → Prop where
  | subscribe (hp : d.watch.phase = .unsubscribed) :
      Watched d .subscribe { d with watch := ⟨.waiting, d.state.events.subscribe⟩ }
  | received (event : DnsEvent) (next : Nat) (hp : d.watch.phase = .waiting)
      (hr : d.state.events.recv d.watch.next = .ok event next) :
      Watched d .recv { d with watch := ⟨.invalidating event, next⟩ }
  | lagged (missed next : Nat) (hp : d.watch.phase = .waiting)
      (hr : d.state.events.recv d.watch.next = .lagged missed next) :
      Watched d .recv { d with watch := ⟨.waiting, next⟩ }
  | leave (hp : d.watch.phase = .waiting) (hc : d.state.cancelled = true) :
      Watched d .cancelled { d with watch := ⟨.done, d.watch.next⟩ }
  | invalidate (event : DnsEvent) (hp : d.watch.phase = .invalidating event) :
      Watched d .invalidate
        { d with
          resolver := d.resolver.observe event
          watch := ⟨if event.isPersistent then .saving else .waiting, d.watch.next⟩ }
  | snapshot (order : IterationOrder String DnsRule) (hp : d.watch.phase = .saving) :
      Watched d (.snapshot order)
        { d with watch := ⟨.storing (d.state.save order), d.watch.next⟩ }
  | store (config : DnsConfig) (hp : d.watch.phase = .storing config) :
      Watched d .store { d with watch := ⟨.waiting, d.watch.next⟩, saved := config }
  | idle (action : WatchAction) : Watched d action d

theorem watchStep_invalidate {d : Daemon Key} {event : DnsEvent}
    (hp : d.watch.phase = .invalidating event) :
    d.watchStep .invalidate =
      { d with
        resolver := d.resolver.observe event
        watch := ⟨if event.isPersistent then .saving else .waiting, d.watch.next⟩ } := by
  cases event with
  | _ =>
    simp only [watchStep, hp]
    rfl

theorem watch_cases (d : Daemon Key) (action : WatchAction) :
    Watched d action (d.watchStep action) := by
  cases hp : d.watch.phase with
  | unsubscribed =>
    cases action with
    | subscribe =>
      simp only [watchStep, hp]
      exact .subscribe hp
    | _ =>
      simp only [watchStep, hp]
      exact .idle _
  | waiting =>
    cases action with
    | recv =>
      cases hr : d.state.events.recv d.watch.next with
      | pending =>
        simp only [watchStep, hp, hr]
        exact .idle _
      | ok event next =>
        simp only [watchStep, hp, hr]
        exact .received event next hp hr
      | lagged missed next =>
        simp only [watchStep, hp, hr]
        exact .lagged missed next hp hr
    | cancelled =>
      cases hc : d.state.cancelled with
      | true =>
        simp only [watchStep, hp, hc, if_pos]
        exact .leave hp hc
      | false =>
        simp only [watchStep, hp, hc]
        exact .idle _
    | _ =>
      simp only [watchStep, hp]
      exact .idle _
  | invalidating event =>
    cases action with
    | invalidate =>
      rw [watchStep_invalidate hp]
      exact .invalidate event hp
    | _ =>
      simp only [watchStep, hp]
      exact .idle _
  | saving =>
    cases action with
    | snapshot order =>
      simp only [watchStep, hp]
      exact .snapshot order hp
    | _ =>
      simp only [watchStep, hp]
      exact .idle _
  | storing config =>
    cases action with
    | store =>
      simp only [watchStep, hp]
      exact .store config hp
    | _ =>
      simp only [watchStep, hp]
      exact .idle _
  | done =>
    simp only [watchStep, hp]
    exact .idle _

inductive Managed (d : Daemon Key) : ManagerAction → Daemon Key → Prop where
  | step (action : ManagerAction) (input : ManagerInput) (manager : Manager)
      (hi : d.managerInput action = some input) (hm : d.manager.Step input manager) :
      Managed d action { d with manager := manager }
  | idle (action : ManagerAction) : Managed d action d

theorem manager_cases (d : Daemon Key) (action : ManagerAction) :
    Managed d action (d.managerStep action) := by
  cases hi : d.managerInput action with
  | none =>
    simp only [managerStep, hi]
    exact .idle action
  | some input =>
    simp only [managerStep, hi]
    exact .step action input _ hi (d.manager.step_cases input)

inductive Shut (d : Daemon Key) : Daemon Key → Prop where
  | signal : Shut d { d with state := d.state.cancel, runner := .joining }
  | shutdown (hc : d.state.cancelled = true) (hr : d.runner = .selecting) :
      Shut d { d with state := d.state.dispatch .daemonStopped, runner := .joining }
  | idle : Shut d d

theorem signal_cases (d : Daemon Key) : Shut d d.signal := by
  cases hr : d.runner with
  | selecting =>
    simp only [signal, hr]
    exact .signal
  | joining =>
    simp only [signal, hr]
    exact .idle

theorem shutdown_cases (d : Daemon Key) : Shut d d.shutdown := by
  cases hr : d.runner with
  | joining =>
    simp only [shutdown, hr]
    exact .idle
  | selecting =>
    cases hc : d.state.cancelled with
    | true =>
      simp only [shutdown, hr, hc]
      exact .shutdown hc hr
    | false =>
      simp only [shutdown, hr, hc]
      exact .idle

theorem Shut.sent_le {d d' : Daemon Key} {next : Nat} (h : Shut d d')
    (hn : next ≤ d.state.events.sent.length) : next ≤ d'.state.events.sent.length := by
  cases h with
  | signal => exact hn
  | shutdown _ _ => exact le_length_dispatch hn .daemonStopped
  | idle => exact hn

theorem Shut.coming {d d' : Daemon Key} {next : Nat} (h : Shut d d')
    (hn : next ≤ d.state.events.sent.length) {event : DnsEvent} (hc : d.Coming next event) :
    d'.Coming next event := by
  cases h with
  | signal => exact hc
  | shutdown _ _ =>
    rcases hc with hu | ha
    · exact .inl ((mem_unread_dispatch hn).mpr (.inl hu))
    · exact .inr ha
  | idle => exact hc

structure SameState (d d' : Daemon Key) : Prop where
  state : d'.state = d.state
  calls : d'.calls = d.calls

theorem probe_sameState (d : Daemon Key) (domain : String) : SameState d (d.probe domain) := by
  cases hl : d.resolver.cache.lookup domain with
  | none =>
    simp only [probe, hl]
    exact ⟨rfl,rfl⟩
  | some rule =>
    simp only [probe, hl]
    exact ⟨rfl,rfl⟩

theorem Advanced.sameState {d d' : Daemon Key} {i : Nat} (h : Advanced d i d') :
    SameState d d' := by
  cases h <;> exact ⟨rfl,rfl⟩

theorem Watched.sameState {d d' : Daemon Key} {action : WatchAction} (h : Watched d action d') :
    SameState d d' := by
  cases h <;> exact ⟨rfl,rfl⟩

theorem Managed.sameState {d d' : Daemon Key} {action : ManagerAction}
    (h : Managed d action d') : SameState d d' := by
  cases h <;> exact ⟨rfl,rfl⟩

structure SameRules (d d' : Daemon Key) : Prop where
  store : d'.state.store = d.state.store
  calls : d'.calls = d.calls

theorem SameState.sameRules {d d' : Daemon Key} (h : SameState d d') : SameRules d d' :=
  ⟨by rw [h.state],h.calls⟩

theorem Shut.sameRules {d d' : Daemon Key} (h : Shut d d') : SameRules d d' := by
  cases h <;> exact ⟨rfl,rfl⟩

theorem step_sameRules (lib : TextLibrary) (d : Daemon Key) {action : Action}
    (ha : action.isHandling = false) : SameRules d (d.step lib action) := by
  cases action with
  | probe domain => exact (d.probe_sameState domain).sameRules
  | advance i => exact (d.advance_cases i).sameState.sameRules
  | request order request => cases ha
  | proceed i => cases ha
  | watch action => exact (d.watch_cases action).sameState.sameRules
  | manager action => exact (d.manager_cases action).sameState.sameRules
  | signal => exact d.signal_cases.sameRules
  | shutdown => exact d.shutdown_cases.sameRules

inductive Streamed (d d' : Daemon Key) : Prop where
  | same (he : d'.state.events = d.state.events) (hc : d'.state.cancelled = d.state.cancelled)
  | sent (event : DnsEvent) (he : d'.state.events = d.state.events.send event)
      (hc : d'.state.cancelled = d.state.cancelled)
  | cancelled (he : d'.state.events = d.state.events) (hc : d'.state.cancelled = true)

theorem Streamed.sent_initial {d d' : Daemon Key} (h : Streamed d d') :
    d.state.events.sent <+: d'.state.events.sent := by
  cases h with
  | same he hc => rw [he]
  | sent event he hc =>
    rw [he]
    exact List.prefix_append _ _
  | cancelled he hc => rw [he]

theorem Streamed.cancelled_mono {d d' : Daemon Key} (h : Streamed d d')
    (hd : d.state.cancelled = true) : d'.state.cancelled = true := by
  cases h with
  | same he hc => rw [hc, hd]
  | sent event he hc => rw [hc, hd]
  | cancelled he hc => exact hc

theorem SameState.streamed {d d' : Daemon Key} (h : SameState d d') : Streamed d d' :=
  .same (by rw [h.state]) (by rw [h.state])

theorem accept_stream (lib : TextLibrary) (d : Daemon Key)
    (order : IterationOrder String DnsRule) (request : IpcRequest) :
    (d.accept lib order request).state.events = d.state.events ∧
      (d.accept lib order request).state.cancelled = d.state.cancelled := by
  have hacc := d.state.accept_cases lib order request
  simp only [Daemon.accept]
  generalize d.state.accept lib order request = accepted at hacc
  cases hacc <;> exact ⟨rfl,rfl⟩

theorem Proceeded.streamed {d d' : Daemon Key} {i : Nat} (h : Proceeded d i d') :
    Streamed d d' := by
  cases h with
  | announcing call event hi hs => exact .sent event rfl rfl
  | stopping call hi hs => exact .sent .daemonStopped rfl rfl
  | cancelling call hi hs => exact .cancelled rfl rfl
  | idle => exact .same rfl rfl

theorem Shut.streamed {d d' : Daemon Key} (h : Shut d d') : Streamed d d' := by
  cases h with
  | signal => exact .cancelled rfl rfl
  | shutdown hc hr => exact .sent .daemonStopped rfl rfl
  | idle => exact .same rfl rfl

theorem step_streamed (lib : TextLibrary) (d : Daemon Key) (action : Action) :
    Streamed d (d.step lib action) := by
  cases action with
  | probe domain => exact (d.probe_sameState domain).streamed
  | advance i => exact (d.advance_cases i).sameState.streamed
  | request order request =>
    obtain ⟨he,hc⟩ := d.accept_stream lib order request
    exact .same he hc
  | proceed i => exact (d.proceed_cases i).streamed
  | watch action => exact (d.watch_cases action).sameState.streamed
  | manager action => exact (d.manager_cases action).sameState.streamed
  | signal => exact d.signal_cases.streamed
  | shutdown => exact d.shutdown_cases.streamed

theorem Proceeded.requests {d d' : Daemon Key} {i : Nat} (h : Proceeded d i d') :
    d'.calls.map Call.request = d.calls.map Call.request := by
  cases h with
  | announcing call event hi hs => exact requests_set hi _
  | stopping call hi hs => exact requests_set hi _
  | cancelling call hi hs => exact requests_set hi _
  | idle => rfl

theorem requests_step (lib : TextLibrary) (d : Daemon Key) (action : Action) :
    d.calls.map Call.request <+: (d.step lib action).calls.map Call.request := by
  cases action with
  | request order request =>
    simp only [step, accept, List.map_append]
    exact List.prefix_append _ _
  | proceed i =>
    rw [step, (d.proceed_cases i).requests]
  | _ => rw [(d.step_sameRules lib rfl).calls]

theorem call_step (lib : TextLibrary) {d : Daemon Key} (action : Action) {i : Nat} {call : Call}
    (hi : d.calls[i]? = some call) :
    ∃ stage, (d.step lib action).calls[i]? = some ⟨call.request, stage⟩ ∧
      (stage = call.stage ∨ stage = (d.state.proceed call.stage).2) := by
  cases action with
  | request order request =>
    refine ⟨call.stage,?_,.inl rfl⟩
    simp only [step, accept]
    rw [List.getElem?_append_left (List.getElem?_eq_some_iff.mp hi).1, hi]
  | proceed j =>
    cases hj : d.calls[j]? with
    | none => exact ⟨call.stage,by simp only [step, proceed, hj, hi],.inl rfl⟩
    | some called =>
      simp only [step, proceed, hj, List.getElem?_set]
      rcases eq_or_ne j i with rfl | hne
      · obtain rfl := Option.some.inj (hi.symm.trans hj)
        have hlt := (List.getElem?_eq_some_iff.mp hi).1
        exact ⟨_,by rw [if_pos rfl, if_pos hlt],.inr rfl⟩
      · exact ⟨call.stage,by rw [if_neg hne, hi],.inl rfl⟩
  | _ =>
    refine ⟨call.stage,?_,.inl rfl⟩
    rw [(d.step_sameRules lib rfl).calls, hi]

end Daemon

end SideDns
