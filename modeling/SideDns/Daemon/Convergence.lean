import SideDns.Daemon.Coherence

namespace SideDns

open FiniteMap (HashMap IterationOrder SetOrder)
open Transition (run Guarded)

def Covers (domains : List String) (store : RuleStore) : Prop :=
  domains.Nodup ∧ ∀ domain, domain ∈ domains ↔
    ∃ rule, rule ∈ FiniteMap.values store.inner.toMaps.ephemeral +
      FiniteMap.values store.inner.toMaps.persistent ∧ rule.domain = domain

theorem mem_snapshotAll (store : RuleStore)
    (ephemeralOrder persistentOrder : IterationOrder String DnsRule) (rule : DnsRule) :
    rule ∈ store.snapshotAll ephemeralOrder persistentOrder ↔
      rule ∈ FiniteMap.values store.inner.toMaps.ephemeral +
        FiniteMap.values store.inner.toMaps.persistent := by
  have hw := store.wellFormed
  rw [RuleStore.snapshotAll, InnerRuleStore.allRules_eq, ← Multiset.mem_coe, ← Multiset.coe_add,
    hw.ephemeral.coe_rules, hw.persistent.coe_rules]
  rfl

theorem covers_snapshot (st : AppState)
    (ephemeralOrder persistentOrder : IterationOrder String DnsRule) (setOrder : SetOrder String) :
    Covers (st.snapshotAllDomains ephemeralOrder persistentOrder setOrder) st.store := by
  refine ⟨setOrder.nodup _,?_⟩
  intro domain
  simp only [AppState.snapshotAllDomains, setOrder.mem_visit, List.mem_toFinset, List.mem_map,
    mem_snapshotAll]

def SystemCall.applied? : SystemCall → Option (List String)
  | apply domains _ => some domains
  | revert _ => none

def Manager.lastApplied (m : Manager) : Option (List String) :=
  (m.calls.filterMap SystemCall.applied?).getLast?

theorem Manager.lastApplied_append (phase : ManagerPhase) (next : Nat) (calls : List SystemCall)
    (domains : List String) (succeeded : Bool) :
    (⟨phase, next, calls ++ [.apply domains succeeded]⟩ : Manager).lastApplied = some domains := by
  simp [lastApplied, SystemCall.applied?]

def Stage.isRegular : Stage → Bool
  | announcing event => event.rule?.isSome
  | replied _ => true
  | stopping => false
  | cancelling => false

namespace Daemon

variable {Key : Type} {lib : TextLibrary}

def Noticed (d : Daemon Key) : Prop := ∃ event, d.Coming d.manager.next event

def Reflected (d : Daemon Key) : Prop :=
  match d.manager.phase with
  | .applying domains => Covers domains d.state.store
  | .waiting => ∃ domains, d.manager.lastApplied = some domains ∧ Covers domains d.state.store
  | _ => True

structure Converging (d : Daemon Key) : Prop where
  next_le : d.manager.next ≤ d.state.events.sent.length
  capacity : 0 < d.state.events.capacity
  sent : ∀ event ∈ d.state.events.sent, event.rule?.isSome = true
  regular : ∀ call ∈ d.calls, call.stage.isRegular = true
  signalled : d.state.cancelled = true → d.runner = .joining
  reflected : d.Reflected ∨ d.Noticed

inductive Fed (d : Daemon Key) : ManagerAction → ManagerInput → Prop where
  | revert (succeeded : Bool) : Fed d (.revert succeeded) (.revert succeeded)
  | subscribe : Fed d .subscribe (.subscribe d.state.events.subscribe)
  | snapshot (ephemeralOrder persistentOrder : IterationOrder String DnsRule)
      (setOrder : SetOrder String) :
      Fed d (.snapshot ephemeralOrder persistentOrder setOrder)
        (.snapshot (d.state.snapshotAllDomains ephemeralOrder persistentOrder setOrder))
  | apply (succeeded : Bool) : Fed d (.apply succeeded) (.apply succeeded)
  | recv (hc : d.state.cancelled = false) :
      Fed d .recv (.recv (d.state.events.recv d.manager.next))
  | cancelled (hc : d.state.cancelled = true) : Fed d .cancelled .cancelled

theorem managerInput_cases {d : Daemon Key} {action : ManagerAction} {input : ManagerInput}
    (h : d.managerInput action = some input) : Fed d action input := by
  cases action with
  | revert succeeded =>
    obtain rfl := Option.some.inj h
    exact .revert succeeded
  | subscribe =>
    obtain rfl := Option.some.inj h
    exact .subscribe
  | snapshot ephemeralOrder persistentOrder setOrder =>
    obtain rfl := Option.some.inj h
    exact .snapshot ephemeralOrder persistentOrder setOrder
  | apply succeeded =>
    obtain rfl := Option.some.inj h
    exact .apply succeeded
  | recv =>
    simp only [managerInput] at h
    split at h <;> cases h
    exact .recv (Bool.eq_false_of_not_eq_true ‹_›)
  | cancelled =>
    simp only [managerInput] at h
    split at h <;> cases h
    exact .cancelled ‹_›

theorem managerInput_subscribe {d : Daemon Key} {action : ManagerAction} {next : Nat}
    (h : d.managerInput action = some (.subscribe next)) : next = d.state.events.subscribe := by
  cases managerInput_cases h with
  | subscribe => rfl

theorem managerInput_snapshot {d : Daemon Key} {action : ManagerAction} {domains : List String}
    (h : d.managerInput action = some (.snapshot domains)) : Covers domains d.state.store := by
  cases managerInput_cases h with
  | snapshot ephemeralOrder persistentOrder setOrder =>
    exact covers_snapshot d.state ephemeralOrder persistentOrder setOrder

theorem managerInput_recv {d : Daemon Key} {action : ManagerAction}
    {result : Broadcast.Recv DnsEvent} (h : d.managerInput action = some (.recv result)) :
    d.state.events.recv d.manager.next = result := by
  cases managerInput_cases h with
  | recv hc => rfl

structure Aside (d d' : Daemon Key) : Prop where
  state : d'.state = d.state
  calls : d'.calls = d.calls
  manager : d'.manager = d.manager
  runner : d'.runner = d.runner

theorem probe_aside (d : Daemon Key) (domain : String) : Aside d (d.probe domain) := by
  cases hl : d.resolver.cache.lookup domain with
  | none =>
    simp only [probe, hl]
    exact ⟨rfl,rfl,rfl,rfl⟩
  | some rule =>
    simp only [probe, hl]
    exact ⟨rfl,rfl,rfl,rfl⟩

theorem Advanced.aside {d d' : Daemon Key} {i : Nat} (h : Advanced d i d') : Aside d d' := by
  cases h <;> exact ⟨rfl,rfl,rfl,rfl⟩

theorem Watched.aside {d d' : Daemon Key} {action : WatchAction} (h : Watched d action d') :
    Aside d d' := by
  cases h <;> exact ⟨rfl,rfl,rfl,rfl⟩

theorem Converging.aside {d d' : Daemon Key} (h : d.Converging) (ha : Aside d d') :
    d'.Converging := by
  obtain ⟨hs,hc,hm,hr⟩ := ha
  obtain ⟨hn,hcap,hsent,hreg,hsig,href⟩ := h
  refine ⟨by rwa [hm, hs],by rwa [hs],by rwa [hs],by rwa [hc],by rwa [hs, hr],?_⟩
  simpa only [Reflected, Noticed, Coming, hs, hc, hm] using href

theorem Converging.shut {d d' : Daemon Key} (h : d.Converging) (hd : Shut d d') :
    d'.Converging := by
  cases hd with
  | signal => exact ⟨h.next_le,h.capacity,h.sent,h.regular,fun _ => rfl,h.reflected⟩
  | shutdown hc hr =>
    have hjoin := h.signalled hc
    rw [hr] at hjoin
    cases hjoin
  | idle => exact h

theorem announced_hasRule (m : Mutation) (rule : DnsRule) :
    (Stage.announcing (m.event rule)).isRegular = true := by
  simp [Stage.isRegular]

theorem Converging.accept {d : Daemon Key} (h : d.Converging)
    (order : IterationOrder String DnsRule) {request : IpcRequest} (hr : request ≠ .stop) :
    (d.accept lib order request).Converging := by
  have hacc := d.state.accept_cases lib order request
  simp only [Daemon.accept]
  generalize d.state.accept lib order request = accepted at hacc
  cases hacc with
  | announcing m rule hm ha =>
    refine ⟨h.next_le,h.capacity,h.sent,?_,h.signalled,
      .inr ⟨m.event rule,.inr (announces_append.mpr (.inr rfl))⟩⟩
    intro call hmem
    rcases List.mem_append.mp hmem with hold | hnew
    · exact h.regular call hold
    · rw [List.mem_singleton.mp hnew]
      exact announced_hasRule m rule
  | stopping hs => exact absurd hs hr
  | replied response hm =>
    refine ⟨h.next_le,h.capacity,h.sent,?_,h.signalled,?_⟩
    · intro call hmem
      rcases List.mem_append.mp hmem with hold | hnew
      · exact h.regular call hold
      · rw [List.mem_singleton.mp hnew]
        rfl
    · rcases h.reflected with href | ⟨event,hu | ha⟩
      · exact .inl href
      · exact .inr ⟨event,.inl hu⟩
      · exact .inr ⟨event,.inr (announces_append.mpr (.inl ha))⟩

theorem Converging.proceed {d d' : Daemon Key} {i : Nat} (h : d.Converging)
    (hd : Proceeded d i d') : d'.Converging := by
  cases hd with
  | announcing call event hi hs =>
    have hrule := h.regular call (List.mem_of_getElem? hi)
    rw [hs] at hrule
    have hkeep := Proceeded.announcing call event hi hs
    refine ⟨hkeep.sent_le h.next_le,h.capacity,?_,?_,h.signalled,?_⟩
    · intro other hmem
      rcases List.mem_append.mp hmem with hold | hnew
      · exact h.sent other hold
      · rw [List.mem_singleton.mp hnew]
        exact hrule
    · intro c hmem
      rcases List.mem_or_eq_of_mem_set hmem with hold | rfl
      · exact h.regular c hold
      · rfl
    · rcases h.reflected with href | ⟨other,hc⟩
      · exact .inl href
      · exact .inr ⟨other,hkeep.coming h.next_le hc⟩
  | stopping call hi hs =>
    have hreg := h.regular call (List.mem_of_getElem? hi)
    rw [hs] at hreg
    cases hreg
  | cancelling call hi hs =>
    have hreg := h.regular call (List.mem_of_getElem? hi)
    rw [hs] at hreg
    cases hreg
  | idle => exact h

theorem Converging.manager {d d' : Daemon Key} {action : ManagerAction} (h : d.Converging)
    (hd : Managed d action d') : d'.Converging := by
  cases hd with
  | idle => exact h
  | step input manager hi hm =>
    cases hm with
    | clean succeeded hp =>
      exact ⟨h.next_le,h.capacity,h.sent,h.regular,h.signalled,.inl trivial⟩
    | subscribe next hp =>
      have hnext : next ≤ d.state.events.sent.length := (managerInput_subscribe hi).le
      exact ⟨hnext,h.capacity,h.sent,h.regular,h.signalled,.inl trivial⟩
    | snapshot domains hp =>
      exact ⟨h.next_le,h.capacity,h.sent,h.regular,h.signalled,.inl (managerInput_snapshot hi)⟩
    | applied domains hp =>
      refine ⟨h.next_le,h.capacity,h.sent,h.regular,h.signalled,?_⟩
      have href := h.reflected
      simp only [Reflected, hp] at href
      rcases href with hcov | hnotice
      · exact .inl ⟨domains,Manager.lastApplied_append _ _ _ _ _,hcov⟩
      · exact .inr hnotice
    | failed domains hp =>
      exact ⟨h.next_le,h.capacity,h.sent,h.regular,h.signalled,.inl trivial⟩
    | notified event next hp he =>
      obtain ⟨hn,-⟩ := Broadcast.Channel.recv_ok (managerInput_recv hi)
      exact ⟨hn,h.capacity,h.sent,h.regular,h.signalled,.inl trivial⟩
    | ignored event next hp he =>
      obtain ⟨hn,hunread⟩ := Broadcast.Channel.recv_ok (managerInput_recv hi)
      have hmem : event ∈ d.state.events.sent := by
        refine List.mem_of_mem_drop (i := d.manager.next) ?_
        change event ∈ d.state.events.unread d.manager.next
        rw [hunread]
        exact List.mem_cons_self
      rw [h.sent event hmem] at he
      cases he
    | lagged missed next hp =>
      obtain ⟨hn,-,-,hlen⟩ := Broadcast.Channel.recv_lagged (managerInput_recv hi)
      have hpos := h.capacity
      obtain ⟨event,hevent⟩ := List.exists_mem_of_length_pos (l := d.state.events.unread next)
        (by omega)
      exact ⟨hn,h.capacity,h.sent,h.regular,h.signalled,.inr ⟨event,.inl hevent⟩⟩
    | leave input hp hin =>
      exact ⟨h.next_le,h.capacity,h.sent,h.regular,h.signalled,.inl trivial⟩
    | revert succeeded hp =>
      exact ⟨h.next_le,h.capacity,h.sent,h.regular,h.signalled,.inl trivial⟩
    | idle input hin => exact h

theorem Converging.step {d : Daemon Key} (h : d.Converging) {action : Action}
    (hs : ∀ order, action ≠ .request order .stop) : (d.step lib action).Converging := by
  cases action with
  | probe domain => exact h.aside (d.probe_aside domain)
  | advance i => exact h.aside (d.advance_cases i).aside
  | request order request =>
    refine h.accept order ?_
    rintro rfl
    exact hs order rfl
  | proceed i => exact h.proceed (d.proceed_cases i)
  | watch action => exact h.aside (d.watch_cases action).aside
  | manager action => exact h.manager (d.manager_cases action)
  | signal => exact h.shut d.signal_cases
  | shutdown => exact h.shut d.shutdown_cases

theorem converging_idle (store : RuleStore) (saved : DnsConfig) :
    (idle store saved : Daemon Key).Converging := by
  refine ⟨Nat.zero_le _,Nat.succ_pos 63,nofun,?_,nofun,.inl trivial⟩
  intro call hc
  cases hc

theorem converging_run (lib : TextLibrary) (store : RuleStore) (saved : DnsConfig)
    {acts : List Action} (hs : ∀ action ∈ acts, ∀ order, action ≠ .request order .stop) :
    (run (step lib) (idle store saved : Daemon Key) acts).Converging :=
  Transition.guarded_invariant Converging (fun _ _ h hok => h.step hok)
    (converging_idle store saved) (Transition.guarded_of_forall hs (idle store saved))

theorem system_dns_converges (lib : TextLibrary) (store : RuleStore) (saved : DnsConfig)
    (acts : List Action) (hs : ∀ action ∈ acts, ∀ order, action ≠ .request order .stop) :
    let d : Daemon Key := run (step lib) (idle store saved) acts
    d.manager.phase = .waiting → d.state.events.unread d.manager.next = [] →
      (∀ event, ¬ Announces d.calls event) →
      ∃ domains, d.manager.lastApplied = some domains ∧ Covers domains d.state.store := by
  intro d hw hd ha
  have h : d.Converging := converging_run lib store saved hs
  have href := h.reflected
  simp only [Reflected, hw] at href
  rcases href with hcov | ⟨event,hu | hc⟩
  · exact hcov
  · rw [hd] at hu
    cases hu
  · exact absurd hc (ha event)

def managed (order : IterationOrder String DnsRule) (setOrder : SetOrder String) : List Action :=
  [.manager (.revert true), .manager .subscribe, .manager (.snapshot order order setOrder),
    .manager (.apply true)]

def reapplied (order : IterationOrder String DnsRule) (setOrder : SetOrder String) : List Action :=
  managed order setOrder ++
    [.request order (.addEphemeral "a.test" (.v4 0x7f000001 3000) false), .proceed 0,
      .manager .recv, .manager (.snapshot order order setOrder), .manager (.apply true)]

theorem system_dns_converges_after_addition :
    let d : Daemon Unit :=
      run (step plainText) (idle RuleStore.new ⟨[]⟩) (reapplied default default)
    ∃ domains, d.manager.lastApplied = some domains ∧ Covers domains d.state.store := by
  refine system_dns_converges plainText RuleStore.new ⟨[]⟩ _ ?_ (by decide) (by decide) ?_
  · rintro action hm order rfl
    simp [reapplied, managed] at hm
  · exact Settled.not_announces (by decide)

end Daemon

end SideDns
