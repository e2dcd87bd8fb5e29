import SideDns.Daemon.Convergence

namespace SideDns

open FiniteMap (HashMap IterationOrder SetOrder KeyedBy)
open Transition (run Guarded)

def Records (config : DnsConfig) (store : RuleStore) : Prop :=
  (config.rules : Multiset DnsRule) = FiniteMap.values store.inner.toMaps.persistent

theorem records_save (order : IterationOrder String DnsRule) (st : AppState) :
    Records (st.save order) st.store :=
  st.store.wellFormed.persistent.coe_rules order

theorem Mutation.persistent_of_ephemeral {m : Mutation} (hm : m.isPersistent = false)
    (store : RuleStore) :
    (store.mutate m).inner.toMaps.persistent = store.inner.toMaps.persistent := by
  cases m with
  | addEphemeral rule => rfl
  | removeEphemeral domain => rfl
  | add rule => cases hm
  | remove domain => cases hm

namespace Daemon

variable {Key : Type} {lib : TextLibrary}

theorem start_persistent (config : DnsConfig) :
    (start config : Daemon Key).state.store.inner.toMaps.persistent =
      FiniteMap.insertAll DnsRule.domain ∅ config.rules :=
  congrArg RuleMaps.persistent (InnerRuleStore.wellFormed_new.toMaps_addAll config.rules)

theorem records_start {config : DnsConfig} (hn : (config.rules.map DnsRule.domain).Nodup) :
    Records config (start config : Daemon Key).state.store := by
  rw [Records, start_persistent, FiniteMap.values_insertAll _ _ hn (fun _ _ => Finmap.notMem_empty)]
  simp

theorem records_restart {config : DnsConfig} {store : RuleStore} (h : Records config store) :
    (start config : Daemon Key).state.store.inner.toMaps.persistent =
      store.inner.toMaps.persistent :=
  (start_persistent config).trans
    (FiniteMap.insertAll_of_values _ store.wellFormed.persistent.keyed_toMap h)

def written (d : Daemon Key) : DnsConfig :=
  match d.watch.phase with
  | .storing config => config
  | _ => d.saved

def Expected (d : Daemon Key) (event : DnsEvent) : Prop :=
  d.watch.phase = .invalidating event ∨
    (d.watch.phase ≠ .unsubscribed ∧ event ∈ d.unread) ∨ Announces d.calls event

def Owed (d : Daemon Key) : Prop :=
  d.watch.phase = .saving ∨ ∃ event, d.Expected event ∧ event.isPersistent = true

structure Durable (d : Daemon Key) : Prop where
  next_le : d.watch.next ≤ d.state.events.sent.length
  owed : d.watch.phase ≠ .done → Records d.written d.state.store ∨ d.Owed
  kept : d.watch.phase = .done → Records d.saved d.state.store

def Timely (lib : TextLibrary) (d : Daemon Key) : Action → Prop
  | .request _ request => ∀ m, request.mutation lib = some m → d.watch.phase = .done →
      (d.state.store.mutate m).inner.toMaps.persistent = d.state.store.inner.toMaps.persistent
  | .proceed i => ∀ call event, d.calls[i]? = some call → call.stage = .announcing event →
      event.isPersistent = true → d.watch.phase = .unsubscribed →
      Records d.saved d.state.store ∨
        ∃ other, Announces (d.calls.set i ⟨call.request, .replied .ok⟩) other ∧
          other.isPersistent = true
  | .watch .recv => ∀ missed next,
      d.watch.phase = .waiting → d.state.events.recv d.watch.next = .lagged missed next →
      Records d.saved d.state.store ∨
        ∃ other, d.Coming next other ∧ other.isPersistent = true
  | .watch .cancelled => d.watch.phase = .waiting → d.state.cancelled = true →
      Records d.saved d.state.store ∨ ¬ d.Owed
  | _ => True

theorem Durable.frame {d d' : Daemon Key} (h : d.Durable) (hw : d'.watch = d.watch)
    (hsaved : d'.saved = d.saved) (hn : d'.watch.next ≤ d'.state.events.sent.length)
    (hr : d'.state.store.inner.toMaps.persistent = d.state.store.inner.toMaps.persistent)
    (he : ∀ event, event.isPersistent = true → d.Expected event → d'.Expected event) :
    d'.Durable := by
  have hrecords : ∀ config, Records config d.state.store → Records config d'.state.store := by
    intro config hc
    rw [Records, hr]
    exact hc
  have hwritten : d'.written = d.written := by rw [written, written, hw, hsaved]
  refine ⟨hn,?_,?_⟩
  · intro hdone
    rw [hw] at hdone
    rcases h.owed hdone with hrec | hsaving | ⟨event,hexp,hper⟩
    · rw [hwritten]
      exact .inl (hrecords _ hrec)
    · exact .inr (.inl (hw ▸ hsaving))
    · exact .inr (.inr ⟨event,he event hper hexp,hper⟩)
  · intro hdone
    rw [hw] at hdone
    rw [hsaved]
    exact hrecords _ (h.kept hdone)

theorem Durable.owed_coming {d : Daemon Key} (h : d.Durable) (hdone : d.watch.phase ≠ .done)
    (hs : d.watch.phase ≠ .saving) (hi : ∀ event, d.watch.phase ≠ .invalidating event) :
    Records d.written d.state.store ∨
      ∃ other, d.Coming d.watch.next other ∧ other.isPersistent = true := by
  rcases h.owed hdone with hrec | hsaving | ⟨other,hp | ⟨-,hu⟩ | ha,hper⟩
  · exact .inl hrec
  · exact absurd hsaving hs
  · exact absurd hp (hi other)
  · exact .inr ⟨other,.inl hu,hper⟩
  · exact .inr ⟨other,.inr ha,hper⟩

theorem Durable.owed_waiting {d : Daemon Key} (h : d.Durable) (hp : d.watch.phase = .waiting) :
    Records d.saved d.state.store ∨
      ∃ other, d.Coming d.watch.next other ∧ other.isPersistent = true := by
  have howed := h.owed_coming (by simp [hp]) (by simp [hp]) (by simp [hp])
  rwa [written, hp] at howed

theorem Durable.owed_unsubscribed {d : Daemon Key} (h : d.Durable)
    (hp : d.watch.phase = .unsubscribed) :
    Records d.saved d.state.store ∨
      ∃ other, Announces d.calls other ∧ other.isPersistent = true := by
  have howed := h.owed (by simp [hp])
  simp only [written, Owed, Expected, hp] at howed
  rcases howed with hrec | hsaving | ⟨other,hq | ⟨hsub,-⟩ | ha,hper⟩
  · exact .inl hrec
  · cases hsaving
  · cases hq
  · exact absurd rfl hsub
  · exact .inr ⟨other,ha,hper⟩

theorem Durable.owed_invalidating {d : Daemon Key} (h : d.Durable) {event : DnsEvent}
    (hp : d.watch.phase = .invalidating event) (hper : event.isPersistent = false) :
    Records d.saved d.state.store ∨
      ∃ other, d.Coming d.watch.next other ∧ other.isPersistent = true := by
  have howed := h.owed (by simp [hp])
  simp only [written, Owed, Expected, hp] at howed
  rcases howed with hrec | hsaving | ⟨other,hq | ⟨-,hu⟩ | ha,hother⟩
  · exact .inl hrec
  · cases hsaving
  · obtain rfl := WatchPhase.invalidating.inj hq
    rw [hper] at hother
    cases hother
  · exact .inr ⟨other,.inl hu,hother⟩
  · exact .inr ⟨other,.inr ha,hother⟩

theorem owed_of_coming {d : Daemon Key} (hs : d.watch.phase ≠ .unsubscribed)
    (h : Records d.written d.state.store ∨
      ∃ other, d.Coming d.watch.next other ∧ other.isPersistent = true) :
    Records d.written d.state.store ∨ d.Owed := by
  rcases h with hrec | ⟨other,hu | ha,hper⟩
  · exact .inl hrec
  · exact .inr (.inr ⟨other,.inr (.inl ⟨hs,hu⟩),hper⟩)
  · exact .inr (.inr ⟨other,.inr (.inr ha),hper⟩)

theorem Durable.probe {d : Daemon Key} (h : d.Durable) (domain : String) :
    (d.probe domain).Durable := by
  cases hl : d.resolver.cache.lookup domain with
  | some rule => simpa only [Daemon.probe, hl] using h
  | none =>
    simp only [Daemon.probe, hl]
    exact h.frame rfl rfl h.next_le rfl (fun _ _ he => he)

theorem Durable.advance {d d' : Daemon Key} {i : Nat} (h : d.Durable) (hd : Advanced d i d') :
    d'.Durable := by
  cases hd with
  | idle => exact h
  | _ => exact h.frame rfl rfl h.next_le rfl (fun _ _ he => he)

theorem Durable.manager {d d' : Daemon Key} {action : ManagerAction} (h : d.Durable)
    (hd : Managed d action d') : d'.Durable := by
  cases hd with
  | idle => exact h
  | step _ _ _ _ => exact h.frame rfl rfl h.next_le rfl (fun _ _ he => he)

theorem Durable.shut {d d' : Daemon Key} (h : d.Durable) (hd : Shut d d') : d'.Durable := by
  cases hd with
  | signal => exact h.frame rfl rfl h.next_le rfl (fun _ _ he => he)
  | shutdown hc hr =>
    refine h.frame rfl rfl (le_length_dispatch h.next_le _) rfl ?_
    rintro event _ (hp | ⟨hsub,hu⟩ | ha)
    · exact .inl hp
    · exact .inr (.inl ⟨hsub,(mem_unread_dispatch h.next_le).mpr (.inl hu)⟩)
    · exact .inr (.inr ha)
  | idle => exact h

theorem Expected.append {d d' : Daemon Key} {event : DnsEvent} (h : d.Expected event)
    (hw : d'.watch = d.watch) (hu : d'.unread = d.unread) {call : Call}
    (hc : d'.calls = d.calls ++ [call]) : d'.Expected event := by
  rw [Expected, hw, hu, hc]
  rcases h with hp | hunread | ha
  · exact .inl hp
  · exact .inr (.inl hunread)
  · exact .inr (.inr (announces_append.mpr (.inl ha)))

theorem Durable.accept {d : Daemon Key} (h : d.Durable) (order : IterationOrder String DnsRule)
    (request : IpcRequest) (ht : d.Timely lib (.request order request)) :
    (d.accept lib order request).Durable := by
  have hacc := d.state.accept_cases lib order request
  simp only [Daemon.accept]
  generalize d.state.accept lib order request = accepted at hacc
  cases hacc with
  | announcing m rule hm ha =>
    cases hper : m.isPersistent with
    | false =>
      refine h.frame rfl rfl h.next_le (Mutation.persistent_of_ephemeral hper _) ?_
      exact fun event _ he => he.append rfl rfl rfl
    | true =>
      refine ⟨h.next_le,?_,?_⟩
      · intro _
        refine .inr (.inr ⟨m.event rule,.inr (.inr (announces_append.mpr (.inr rfl))),?_⟩)
        rw [Mutation.isPersistent_event, hper]
      · intro hdone
        rw [Records, ht m hm hdone]
        exact h.kept hdone
  | stopping hs =>
    exact h.frame rfl rfl h.next_le rfl (fun event _ he => he.append rfl rfl rfl)
  | replied response hm =>
    exact h.frame rfl rfl h.next_le rfl (fun event _ he => he.append rfl rfl rfl)

theorem Durable.unsent {d : Daemon Key} (h : d.Durable) (hun : d.watch.phase = .unsubscribed)
    {i : Nat} {call : Call} {event : DnsEvent} (hi : d.calls[i]? = some call)
    (hs : call.stage = .announcing event) (ht : d.Timely lib (.proceed i)) :
    Records d.saved d.state.store ∨
      ∃ other, Announces (d.calls.set i ⟨call.request, .replied .ok⟩) other ∧
        other.isPersistent = true := by
  cases hper : event.isPersistent with
  | true => exact ht call event hi hs hper hun
  | false =>
    rcases h.owed_unsubscribed hun with hrec | ⟨other,ha,hother⟩
    · exact .inl hrec
    · rcases ha.set hi ⟨call.request,.replied .ok⟩ with hcall | hset
      · rw [hs] at hcall
        obtain rfl := Stage.announcing.inj hcall
        rw [hper] at hother
        cases hother
      · exact .inr ⟨other,hset,hother⟩

theorem Durable.proceed {d d' : Daemon Key} {i : Nat} (h : d.Durable) (hd : Proceeded d i d')
    (ht : d.Timely lib (.proceed i)) : d'.Durable := by
  have hn := hd.sent_le h.next_le
  have hcoming : ∀ event, d.Coming d.watch.next event → d'.Coming d.watch.next event :=
    fun event => hd.coming h.next_le
  cases hd with
  | announcing call event hi hs =>
    rcases eq_or_ne d.watch.phase .unsubscribed with hun | hsub
    · refine ⟨hn,fun _ => ?_,fun hdone => absurd (hun.symm.trans hdone) nofun⟩
      rcases h.unsent hun hi hs ht with hrec | ⟨other,ha,hper⟩
      · refine .inl ?_
        simp only [written, hun]
        exact hrec
      · exact .inr (.inr ⟨other,.inr (.inr ha),hper⟩)
    · refine h.frame rfl rfl hn rfl ?_
      rintro other _ (hp | ⟨-,hu⟩ | ha)
      · exact .inl hp
      · exact .inr ((hcoming other (.inl hu)).imp (fun hu' => ⟨hsub,hu'⟩) id)
      · exact .inr ((hcoming other (.inr ha)).imp (fun hu' => ⟨hsub,hu'⟩) id)
  | stopping call hi hs =>
    refine h.frame rfl rfl hn rfl ?_
    rintro other _ (hp | ⟨hsub,hu⟩ | ha)
    · exact .inl hp
    · exact .inr (.inl ⟨hsub,(mem_unread_dispatch h.next_le).mpr (.inl hu)⟩)
    · exact .inr (.inr (ha.set_other hi (by simp [hs]) _))
  | cancelling call hi hs =>
    refine h.frame rfl rfl hn rfl ?_
    rintro other _ (hp | hu | ha)
    · exact .inl hp
    · exact .inr (.inl hu)
    · exact .inr (.inr (ha.set_other hi (by simp [hs]) _))
  | idle => exact h

theorem Durable.watch {d d' : Daemon Key} {action : WatchAction} (h : d.Durable)
    (hd : Watched d action d') (ht : d.Timely lib (.watch action)) : d'.Durable := by
  cases hd with
  | subscribe hp =>
    refine ⟨Nat.le_refl _,fun _ => ?_,nofun⟩
    rcases h.owed_unsubscribed hp with hrec | ⟨other,ha,hper⟩
    · exact .inl hrec
    · exact .inr (.inr ⟨other,.inr (.inr ha),hper⟩)
  | received event next hp hr =>
    obtain ⟨hn,hunread⟩ := Broadcast.Channel.recv_ok hr
    refine ⟨hn,fun _ => ?_,nofun⟩
    rcases h.owed_waiting hp with hrec | ⟨other,hu | ha,hper⟩
    · exact .inl hrec
    · rw [hunread] at hu
      rcases List.mem_cons.mp hu with rfl | hmem
      · exact .inr (.inr ⟨other,.inl rfl,hper⟩)
      · exact .inr (.inr ⟨other,.inr (.inl ⟨nofun,hmem⟩),hper⟩)
    · exact .inr (.inr ⟨other,.inr (.inr ha),hper⟩)
  | lagged missed next hp hr =>
    obtain ⟨hn,-⟩ := Broadcast.Channel.recv_lagged hr
    exact ⟨hn,fun _ => owed_of_coming nofun (ht missed next hp hr),nofun⟩
  | leave hp hc =>
    refine ⟨h.next_le,nofun,fun _ => ?_⟩
    have howed := h.owed (by simp [hp])
    simp only [written, hp] at howed
    rcases ht hp hc with hrec | hnot
    · exact hrec
    · exact howed.resolve_right hnot
  | invalidate event hp =>
    cases hper : event.isPersistent with
    | true => exact ⟨h.next_le,fun _ => .inr (.inl (by simp)),by simp⟩
    | false =>
      have howed := h.owed_invalidating hp hper
      exact ⟨h.next_le,fun _ => owed_of_coming (by simp) howed,by simp⟩
  | snapshot order hp =>
    exact ⟨h.next_le,fun _ => .inl (records_save order d.state),nofun⟩
  | store config hp =>
    have howed := h.owed_coming (by simp [hp]) (by simp [hp]) (by simp [hp])
    rw [written, hp] at howed
    exact ⟨h.next_le,fun _ => owed_of_coming nofun howed,nofun⟩
  | idle => exact h

theorem Durable.step {d : Daemon Key} (h : d.Durable) {action : Action}
    (ht : d.Timely lib action) : (d.step lib action).Durable := by
  cases action with
  | probe domain => exact h.probe domain
  | advance i => exact h.advance (d.advance_cases i)
  | request order request => exact h.accept order request ht
  | proceed i => exact h.proceed (d.proceed_cases i) ht
  | watch action => exact h.watch (d.watch_cases action) ht
  | manager action => exact h.manager (d.manager_cases action)
  | signal => exact h.shut d.signal_cases
  | shutdown => exact h.shut d.shutdown_cases

theorem Records.persistent_eq {config : DnsConfig} {s t : RuleStore} (hs : Records config s)
    (ht : Records config t) : s.inner.toMaps.persistent = t.inner.toMaps.persistent :=
  (FiniteMap.insertAll_of_values _ s.wellFormed.persistent.keyed_toMap hs).symm.trans
    (FiniteMap.insertAll_of_values _ t.wellFormed.persistent.keyed_toMap ht)

theorem Durable.accept_timely {d : Daemon Key} (h : d.Durable)
    (order : IterationOrder String DnsRule) (request : IpcRequest)
    (h' : (d.accept lib order request).Durable) : d.Timely lib (.request order request) := by
  intro m hm hdone
  have hacc := d.state.accept_cases lib order request
  have hkept := h'.kept hdone
  simp only [Daemon.accept] at hkept
  generalize d.state.accept lib order request = accepted at hacc hkept
  cases hacc with
  | announcing m' rule hm' ha =>
    obtain rfl := Option.some.inj (hm.symm.trans hm')
    exact Records.persistent_eq hkept (h.kept hdone)
  | stopping hs =>
    rw [hs] at hm
    cases hm
  | replied response hn => rw [RuleStore.mutate_unannounced (hn m hm)]

theorem Durable.proceed_timely {d : Daemon Key} {i : Nat} (h' : (d.proceed i).Durable) :
    d.Timely lib (.proceed i) := by
  intro call event hi hs hper hun
  have hd : d.proceed i =
      { d with
        state := d.state.dispatch event
        calls := d.calls.set i ⟨call.request, .replied .ok⟩ } := by
    simp only [Daemon.proceed, hi, hs, AppState.proceed]
  rw [hd] at h'
  exact h'.owed_unsubscribed hun

theorem Durable.recv_timely {d : Daemon Key} (h' : (d.watchStep .recv).Durable) :
    d.Timely lib (.watch .recv) := by
  intro missed next hp hr
  have hd : d.watchStep .recv = { d with watch := ⟨.waiting, next⟩ } := by
    simp only [watchStep, hp, hr]
  rw [hd] at h'
  exact h'.owed_waiting rfl

theorem Durable.cancelled_timely {d : Daemon Key} (h' : (d.watchStep .cancelled).Durable) :
    d.Timely lib (.watch .cancelled) := by
  intro hp hc
  have hd : d.watchStep .cancelled = { d with watch := ⟨.done, d.watch.next⟩ } := by
    simp only [watchStep, hp, hc, if_pos]
  rw [hd] at h'
  exact .inl (h'.kept rfl)

theorem Durable.step_iff {d : Daemon Key} (h : d.Durable) (action : Action) :
    (d.step lib action).Durable ↔ d.Timely lib action := by
  refine ⟨?_,h.step⟩
  intro h'
  cases action with
  | request order request => exact h.accept_timely order request h'
  | proceed i => exact Durable.proceed_timely h'
  | watch action =>
    cases action with
    | recv => exact Durable.recv_timely h'
    | cancelled => exact Durable.cancelled_timely h'
    | _ => trivial
  | _ => trivial

theorem durable_start {config : DnsConfig} (hn : (config.rules.map DnsRule.domain).Nodup) :
    (start config : Daemon Key).Durable :=
  ⟨Nat.zero_le _,fun _ => .inl (records_start hn),nofun⟩

end Daemon

namespace RuleMaps

def replay (m : RuleMaps) (ops : List Mutation) : RuleMaps :=
  ops.foldl (fun m op => (mutate op m).1) m

theorem replay_append (m : RuleMaps) (ops ops' : List Mutation) :
    m.replay (ops ++ ops') = (m.replay ops).replay ops' :=
  List.foldl_append

theorem replay_cons (m : RuleMaps) (op : Mutation) (ops : List Mutation) :
    m.replay (op :: ops) = (mutate op m).1.replay ops := rfl

theorem lookup_mutate_of_ne {m : RuleMaps} {op : Mutation} {domain : String}
    (h : op.isPersistent = true → op.pattern ≠ domain) :
    (mutate op m).1.persistent.lookup domain = m.persistent.lookup domain := by
  cases op with
  | add rule => exact Finmap.lookup_insert_of_ne _ (h rfl).symm
  | addEphemeral rule => rfl
  | remove pattern => exact Finmap.lookup_erase_ne (h rfl).symm
  | removeEphemeral pattern => rfl

theorem lookup_replay_of_ne {m : RuleMaps} {ops : List Mutation} {domain : String}
    (h : ∀ op ∈ ops, op.isPersistent = true → op.pattern ≠ domain) :
    (m.replay ops).persistent.lookup domain = m.persistent.lookup domain := by
  induction ops generalizing m with
  | nil => rfl
  | cons op ops ih =>
    rw [replay_cons, ih (fun op' hop => h op' (List.mem_cons_of_mem op hop))]
    exact lookup_mutate_of_ne (h op List.mem_cons_self)

theorem lookup_mutate_none {m : RuleMaps} {op : Mutation} {domain : String}
    (h : ∀ rule, op = .add rule → rule.domain ≠ domain)
    (hm : m.persistent.lookup domain = none) : (mutate op m).1.persistent.lookup domain = none := by
  cases op with
  | add rule => exact (Finmap.lookup_insert_of_ne _ (h rule rfl).symm).trans hm
  | addEphemeral rule => exact hm
  | remove pattern =>
    refine (FiniteMap.lookup_erase_ite _ _ _).trans ?_
    rw [hm, ite_self]
  | removeEphemeral pattern => exact hm

theorem lookup_replay_none {m : RuleMaps} {ops : List Mutation} {domain : String}
    (h : ∀ op ∈ ops, ∀ rule, op = .add rule → rule.domain ≠ domain)
    (hm : m.persistent.lookup domain = none) :
    (m.replay ops).persistent.lookup domain = none := by
  induction ops generalizing m with
  | nil => exact hm
  | cons op ops ih =>
    exact ih (fun op' hop => h op' (List.mem_cons_of_mem op hop))
      (lookup_mutate_none (h op List.mem_cons_self) hm)

end RuleMaps

namespace Daemon

variable {Key : Type} {lib : TextLibrary}

def mutations (lib : TextLibrary) (calls : List Call) : List Mutation :=
  (calls.map Call.request).filterMap (IpcRequest.mutation lib)

structure Chronicle (lib : TextLibrary) (config : DnsConfig) (d : Daemon Key) : Prop where
  maps : d.state.store.inner.toMaps =
    (start config : Daemon Key).state.store.inner.toMaps.replay (mutations lib d.calls)
  rejected : ∀ call ∈ d.calls, call.request.isMutating = true → call.request.mutation lib = none →
    ∃ message, call.stage = .replied (.error message)

theorem mutations_append (calls : List Call) (request : IpcRequest) (stage : Stage) :
    mutations lib (calls ++ [⟨request, stage⟩]) =
      mutations lib calls ++ (request.mutation lib).toList := by
  cases hm : request.mutation lib <;> simp [mutations, hm]

theorem Chronicle.sameRules {config : DnsConfig} {d d' : Daemon Key} (h : d.Chronicle lib config)
    (hs : SameRules d d') : d'.Chronicle lib config :=
  ⟨by rw [hs.store, hs.calls, h.maps],by rw [hs.calls]; exact h.rejected⟩

theorem Chronicle.replaced {config : DnsConfig} {d d' : Daemon Key} (h : d.Chronicle lib config)
    {i : Nat} {call : Call} (hi : d.calls[i]? = some call)
    (hr : ∀ response, call.stage ≠ .replied response) {stage : Stage}
    (hs : d'.state.store = d.state.store) (hc : d'.calls = d.calls.set i ⟨call.request, stage⟩) :
    d'.Chronicle lib config := by
  refine ⟨?_,?_⟩
  · rw [hs, hc, h.maps, mutations, mutations, requests_set hi]
  · intro c hmem hmut hnone
    rw [hc] at hmem
    rcases List.mem_or_eq_of_mem_set hmem with hold | rfl
    · exact h.rejected c hold hmut hnone
    · obtain ⟨message,hm⟩ := h.rejected call (List.mem_of_getElem? hi) hmut hnone
      exact absurd hm (hr _)

theorem Chronicle.accept {config : DnsConfig} {d : Daemon Key} (h : d.Chronicle lib config)
    (order : IterationOrder String DnsRule) (request : IpcRequest) :
    (d.accept lib order request).Chronicle lib config := by
  have hmaps := d.state.toMaps_accept lib order request
  have hrej := d.state.accept_rejects lib order request
  refine ⟨?_,?_⟩
  · simp only [Daemon.accept]
    rw [mutations_append, RuleMaps.replay_append, ← h.maps, hmaps]
    cases request.mutation lib <;> rfl
  · intro call hmem hmut hnone
    rcases List.mem_append.mp hmem with hold | hnew
    · exact h.rejected call hold hmut hnone
    · obtain rfl := List.mem_singleton.mp hnew
      obtain ⟨domain,heq⟩ := hrej hmut hnone
      rw [heq]
      exact ⟨_,rfl⟩

theorem Chronicle.proceed {config : DnsConfig} {d d' : Daemon Key} (h : d.Chronicle lib config)
    {i : Nat} (hd : Proceeded d i d') : d'.Chronicle lib config := by
  cases hd with
  | announcing call event hi hs => exact h.replaced hi (by rw [hs]; nofun) rfl rfl
  | stopping call hi hs => exact h.replaced hi (by rw [hs]; nofun) rfl rfl
  | cancelling call hi hs => exact h.replaced hi (by rw [hs]; nofun) rfl rfl
  | idle => exact h

theorem Chronicle.step {config : DnsConfig} {d : Daemon Key} (h : d.Chronicle lib config)
    (action : Action) : (d.step lib action).Chronicle lib config := by
  cases action with
  | request order request => exact h.accept order request
  | proceed i => exact h.proceed (d.proceed_cases i)
  | _ => exact h.sameRules (d.step_sameRules lib rfl)

theorem chronicle_start (config : DnsConfig) :
    (start config : Daemon Key).Chronicle lib config := by
  refine ⟨rfl,?_⟩
  intro call hc
  cases hc

def Returned (d : Daemon Key) : Prop :=
  d.runner = .joining ∧ d.watch.phase = .done ∧
    (d.manager.phase = .returned true ∨ d.manager.phase = .returned false)

instance (d : Daemon Key) : Decidable d.Returned :=
  inferInstanceAs (Decidable (_ ∧ _ ∧ (_ ∨ _)))

def restarted (d : Daemon Key) : HashMap String DnsRule :=
  (start d.saved : Daemon Key).state.store.inner.toMaps.persistent

structure Survives (lib : TextLibrary) (d : Daemon Key) : Prop where
  exact : (d.saved.rules : Multiset DnsRule) =
    FiniteMap.values d.state.store.inner.toMaps.persistent
  added : ∀ before domain target https after,
    d.calls = before ++ ⟨.add domain target https, .replied .ok⟩ :: after →
    (∀ call ∈ after, ∀ m, call.request.mutation lib = some m → m.isPersistent = true →
      m.pattern ≠ lib.toLowercase domain) →
    d.restarted.lookup (lib.toLowercase domain) = some ⟨lib.toLowercase domain, target, https⟩
  removed : ∀ before domain after,
    d.calls = before ++ ⟨.remove domain, .replied .ok⟩ :: after →
    (∀ call ∈ after, ∀ rule, call.request.mutation lib = some (.add rule) →
      rule.domain ≠ lib.toLowercase domain) →
    d.restarted.lookup (lib.toLowercase domain) = none

theorem mem_mutations {calls : List Call} {m : Mutation} :
    m ∈ mutations lib calls ↔ ∃ call ∈ calls, call.request.mutation lib = some m := by
  simp [mutations]

theorem mutations_split (before after : List Call) {call : Call} {m : Mutation}
    (hm : call.request.mutation lib = some m) :
    mutations lib (before ++ call :: after) =
      mutations lib before ++ m :: mutations lib after := by
  simp [mutations, hm]

theorem Chronicle.answered {config : DnsConfig} {d : Daemon Key} (h : d.Chronicle lib config)
    {before after : List Call} {request : IpcRequest}
    (hc : d.calls = before ++ ⟨request, .replied .ok⟩ :: after)
    (hm : request.isMutating = true) : ∃ m, request.mutation lib = some m := by
  rw [← Option.isSome_iff_exists, Option.isSome_iff_ne_none]
  intro hnone
  obtain ⟨message,hs⟩ := h.rejected ⟨request,.replied .ok⟩ (by simp [hc]) hm hnone
  cases hs

theorem Chronicle.maps_answered {config : DnsConfig} {d : Daemon Key} (h : d.Chronicle lib config)
    {before after : List Call} {request : IpcRequest}
    (hc : d.calls = before ++ ⟨request, .replied .ok⟩ :: after)
    (hm : request.isMutating = true) : ∃ m maps, request.mutation lib = some m ∧
      d.state.store.inner.toMaps = (RuleMaps.mutate m maps).1.replay (mutations lib after) := by
  obtain ⟨m,hsome⟩ := h.answered hc hm
  have hmaps := h.maps
  rw [hc, mutations_split before after hsome, RuleMaps.replay_append, RuleMaps.replay_cons] at hmaps
  exact ⟨m,_,hsome,hmaps⟩

theorem Chronicle.survives {config : DnsConfig} {d : Daemon Key} (h : d.Chronicle lib config)
    (hr : Records d.saved d.state.store) : d.Survives lib := by
  have hrestart : d.restarted = d.state.store.inner.toMaps.persistent := records_restart hr
  refine ⟨hr,?_,?_⟩
  · intro before domain target https after hc hafter
    obtain ⟨m,maps,hm,hmaps⟩ := h.maps_answered hc rfl
    rw [hrestart, hmaps]
    cases IpcRequest.mutation_eq_some_iff.mp hm
    refine (RuleMaps.lookup_replay_of_ne ?_).trans (Finmap.lookup_insert _)
    intro op hop hper
    obtain ⟨call,hcall,hop'⟩ := mem_mutations.mp hop
    exact hafter call hcall op hop' hper
  · intro before domain after hc hafter
    obtain ⟨m,maps,hm,hmaps⟩ := h.maps_answered hc rfl
    rw [hrestart, hmaps]
    cases IpcRequest.mutation_eq_some_iff.mp hm
    refine RuleMaps.lookup_replay_none ?_ (Finmap.lookup_erase _ _)
    rintro op hop rule rfl
    obtain ⟨call,hcall,hop'⟩ := mem_mutations.mp hop
    exact hafter call hcall rule hop'

theorem rules_survive_timely_stop (lib : TextLibrary) (config : DnsConfig)
    (hn : (config.rules.map DnsRule.domain).Nodup) (acts : List Action) :
    let d : Daemon Key := start config
    (Guarded (step lib) (Timely lib) d acts →
        (run (step lib) d acts).Returned → (run (step lib) d acts).Survives lib) ∧
      (Guarded (step lib) (Timely lib) d acts ↔
        ∀ before, before <+: acts → (run (step lib) d before).Durable) := by
  intro d
  have hd : d.Durable := durable_start hn
  have hc : (run (step lib) d acts).Chronicle lib config :=
    Transition.run_invariant _ (fun _ action h => h.step action) (chronicle_start config) acts
  refine ⟨?_,Transition.guarded_iff_invariant Durable (fun _ action h => h.step_iff action) hd⟩
  intro hg hr
  have h := Transition.guarded_invariant Durable (fun _ _ h ht => h.step ht) hd hg
  exact hc.survives (h.kept hr.2.1)

def stopped (i : Nat) (order : IterationOrder String DnsRule) : List Action :=
  [.request order .stop, .proceed i, .proceed i, .watch .cancelled, .manager .cancelled,
    .manager (.revert true), .shutdown]

def added (order : IterationOrder String DnsRule) : List Action :=
  [.watch .subscribe, .request order (.add "a.test" (.v4 0x7f000001 3000) false), .proceed 0]

def saving (order : IterationOrder String DnsRule) : List Action :=
  [.watch .recv, .watch .invalidate, .watch (.snapshot order), .watch .store]

def signalled : List Action :=
  [.signal, .watch .cancelled, .manager .cancelled, .manager (.revert true)]

theorem rule_survives_after_save :
    (run (step plainText) (start ⟨[]⟩ : Daemon Unit)
      (managed default default ++ added default ++ saving default ++ signalled)).Survives
      plainText := by
  refine (rules_survive_timely_stop plainText ⟨[]⟩ (by decide) _).1 ?_ (by decide)
  refine ⟨trivial,trivial,trivial,trivial,trivial,?_,?_,?_,trivial,trivial,trivial,trivial,?_,
    trivial,trivial,trivial⟩
  · intro m _ hp
    cases hp
  · intro call event _ _ _ hp
    cases hp
  · intro missed next _ hr
    cases hr
  · intro _ _
    refine .inr ?_
    rintro (hs | ⟨event,hp | ⟨-,hu⟩ | ⟨call,hc,hs⟩,-⟩)
    · cases hs
    · cases hp
    · cases hu
    · rcases List.mem_singleton.mp hc with rfl
      cases hs

theorem stop_loses_added_rule :
    ¬ ∀ (config : DnsConfig) (acts : List Action), (config.rules.map DnsRule.domain).Nodup →
      (run (step plainText) (start config : Daemon Unit) acts).Returned →
        (run (step plainText) (start config : Daemon Unit) acts).Survives plainText := by
  intro h
  have hs := h ⟨[]⟩ (managed default default ++ added default ++ stopped 1 default) (by decide)
    (by decide)
  have ha := hs.added [] "a.test" (.v4 0x7f000001 3000) false [⟨.stop,.replied .ok⟩] (by decide)
    (by simp [IpcRequest.mutation])
  exact absurd ha (by decide)

end Daemon

end SideDns
