import SideDns.Daemon.Effects
import SideDns.Ipc.Stored
import SideDns.Library.Transition

namespace SideDns

open FiniteMap (HashMap IterationOrder)
open Transition (run Guarded)

def Lookup.held? : Lookup → Option (String × DnsRule)
  | missed _ => none
  | holding domain rule => some (domain, rule)

def WatchPhase.config? : WatchPhase → Option DnsConfig
  | storing config => some config
  | _ => none

namespace Daemon

variable {Key : Type} {lib : TextLibrary} {P : DnsRule → Prop}

structure Carries (P : DnsRule → Prop) (d : Daemon Key) : Prop where
  stored : d.state.store.inner.Holds P
  sent : ∀ event ∈ d.state.events.sent, ∀ rule ∈ event.rule?, P rule
  calls : ∀ call ∈ d.calls, ∀ rule ∈ call.stage.rules, P rule
  lookups : ∀ lookup ∈ d.lookups, ∀ p ∈ lookup.held?, P p.2 ∧ p.2.matches p.1 = true
  cached : ∀ domain rule, d.resolver.cache.lookup domain = some rule →
    P rule ∧ rule.matches domain = true
  watched : ∀ event ∈ d.watch.phase.event?, ∀ rule ∈ event.rule?, P rule
  saving : ∀ config ∈ d.watch.phase.config?, ∀ rule ∈ config.rules, P rule
  saved : ∀ rule ∈ d.saved.rules, P rule

theorem carries_start {config : DnsConfig} (h : ∀ rule ∈ config.rules, P rule) :
    (start config : Daemon Key).Carries P := by
  refine ⟨?_,nofun,nofun,nofun,?_,nofun,nofun,h⟩
  · exact InnerRuleStore.wellFormed_new.holds_addAll InnerRuleStore.holds_new h
  · intro domain rule hr
    simp [start, idle, DomainResolver.new] at hr

theorem Carries.send {d : Daemon Key} (h : d.Carries P) {event : DnsEvent}
    (he : ∀ rule ∈ event.rule?, P rule) :
    ∀ other ∈ (d.state.dispatch event).events.sent, ∀ rule ∈ other.rule?, P rule := by
  intro other ho
  rcases List.mem_append.mp ho with hold | hnew
  · exact h.sent other hold
  · obtain rfl := List.mem_singleton.mp hnew
    exact he

theorem Carries.set_call {d : Daemon Key} (h : d.Carries P) (i : Nat) {call : Call}
    (hc : ∀ rule ∈ call.stage.rules, P rule) :
    ∀ other ∈ d.calls.set i call, ∀ rule ∈ other.stage.rules, P rule := by
  intro other ho
  rcases List.mem_or_eq_of_mem_set ho with hold | rfl
  · exact h.calls other hold
  · exact hc

theorem Carries.probe {d : Daemon Key} (h : d.Carries P) (domain : String) :
    (d.probe domain).Carries P := by
  simp only [Daemon.probe]
  cases d.resolver.cache.lookup domain with
  | some rule => exact h
  | none =>
    refine { h with lookups := fun lookup hl => ?_ }
    rcases List.mem_append.mp hl with hold | hnew
    · exact h.lookups lookup hold
    · obtain rfl := List.mem_singleton.mp hnew
      intro p hp
      cases hp

theorem Carries.advance {d : Daemon Key} (h : d.Carries P) (i : Nat) :
    (d.advance i).Carries P := by
  have hadvanced := d.advance_cases i
  generalize d.advance i = d' at hadvanced
  cases hadvanced with
  | missed domain rule hi hr =>
    refine { h with lookups := fun lookup hl => ?_ }
    rcases List.mem_or_eq_of_mem_set hl with hold | rfl
    · exact h.lookups lookup hold
    · intro p hp
      obtain rfl := Option.some.inj hp
      have hwell := d.state.store.wellFormed
      exact ⟨hwell.holds_resolve h.stored hr,(hwell.resolve_stored hr).2⟩
  | unknown domain hi hr =>
    exact { h with lookups := fun lookup hl => h.lookups lookup (List.mem_of_mem_eraseIdx hl) }
  | holding domain rule hi =>
    refine { h with
      lookups := fun lookup hl => h.lookups lookup (List.mem_of_mem_eraseIdx hl)
      cached := fun key other hk => ?_ }
    rw [FiniteMap.lookup_insert_ite] at hk
    split_ifs at hk with heq
    · obtain rfl := Option.some.inj hk
      obtain rfl := heq
      exact h.lookups _ (List.mem_of_getElem? hi) _ rfl
    · exact h.cached key other hk
  | idle => exact h

theorem Carries.accept {d : Daemon Key} (h : d.Carries P)
    (order : IterationOrder String DnsRule) {request : IpcRequest}
    (hw : request.Writes lib P) : (d.accept lib order request).Carries P := by
  have hsame := d.state.accept_cases lib order request
  refine ⟨AppState.holds_stored h.stored order hw,?_,?_,h.lookups,h.cached,h.watched,h.saving,
    h.saved⟩
  · obtain ⟨he,-⟩ := d.accept_stream lib order request
    rw [he]
    exact h.sent
  · intro call hc
    rcases List.mem_append.mp hc with hold | hnew
    · exact h.calls call hold
    · obtain rfl := List.mem_singleton.mp hnew
      exact AppState.holds_staged h.stored order hw

theorem Carries.proceed {d : Daemon Key} (h : d.Carries P) (i : Nat) :
    (d.proceed i).Carries P := by
  have hproceeded := d.proceed_cases i
  generalize d.proceed i = d' at hproceeded
  cases hproceeded with
  | announcing call event hi hs =>
    have hrule : ∀ rule ∈ event.rule?, P rule := fun rule hr => by
      refine h.calls call (List.mem_of_getElem? hi) rule ?_
      rw [hs]
      exact Option.mem_toList.mpr hr
    exact { h with sent := h.send hrule, calls := h.set_call i nofun }
  | stopping call hi hs => exact { h with sent := h.send nofun, calls := h.set_call i nofun }
  | cancelling call hi hs => exact { h with calls := h.set_call i nofun }
  | idle => exact h

theorem Carries.observe {d : Daemon Key} (h : d.Carries P) (event : DnsEvent) (domain : String)
    (rule : DnsRule) (hr : (d.resolver.observe event).cache.lookup domain = some rule) :
    P rule ∧ rule.matches domain = true := by
  rw [DomainResolver.lookup_observe] at hr
  split_ifs at hr
  exact h.cached domain rule hr

theorem Carries.watch {d : Daemon Key} (h : d.Carries P) (action : WatchAction) :
    (d.watchStep action).Carries P := by
  have hwatched := d.watch_cases action
  generalize d.watchStep action = d' at hwatched
  cases hwatched with
  | subscribe hp => exact { h with watched := nofun, saving := nofun }
  | received event next hp hr =>
    refine { h with watched := fun other ho => ?_, saving := nofun }
    obtain rfl := Option.some.inj ho
    exact h.sent event (List.mem_of_getElem? (Broadcast.Channel.recv_ok_next hr).2)
  | lagged missed next hp hr => exact { h with watched := nofun, saving := nofun }
  | leave hp hc => exact { h with watched := nofun, saving := nofun }
  | invalidate event hp =>
    refine { h with cached := h.observe event, watched := ?_, saving := ?_ }
    · cases event.isPersistent <;> exact nofun
    · cases event.isPersistent <;> exact nofun
  | snapshot order hp =>
    refine { h with watched := nofun, saving := fun config hc => ?_ }
    obtain rfl := Option.some.inj hc
    exact d.state.store.wellFormed.holds_persistentRules h.stored order
  | store config hp =>
    refine { h with watched := nofun, saving := nofun, saved := h.saving config ?_ }
    rw [hp]
    rfl
  | idle action => exact h

theorem Carries.shut {d d' : Daemon Key} (h : d.Carries P) (hs : Shut d d') : d'.Carries P := by
  cases hs with
  | signal => exact { h with }
  | shutdown hc hr => exact { h with sent := h.send nofun }
  | idle => exact h

def Writes (lib : TextLibrary) (P : DnsRule → Prop) : Action → Prop
  | .request _ request => request.Writes lib P
  | _ => True

theorem Carries.step {d : Daemon Key} (h : d.Carries P) {action : Action}
    (hw : Writes lib P action) : (d.step lib action).Carries P := by
  cases action with
  | probe domain => exact h.probe domain
  | advance i => exact h.advance i
  | request order request => exact h.accept order hw
  | proceed i => exact h.proceed i
  | watch action => exact h.watch action
  | manager action =>
    have hmanaged := d.manager_cases action
    rw [Daemon.step]
    generalize d.managerStep action = d' at hmanaged
    cases hmanaged with
    | step input manager hi hm => exact { h with }
    | idle => exact h
  | signal => exact h.shut d.signal_cases
  | shutdown => exact h.shut d.shutdown_cases

theorem Carries.run {d : Daemon Key} (h : d.Carries P) {acts : List Action}
    (hw : ∀ action ∈ acts, Writes lib P action) :
    (Transition.run (Daemon.step lib) d acts).Carries P :=
  Transition.guarded_invariant (Carries P) (fun _ _ hd hok => hd.step hok) h
    (Transition.guarded_of_forall hw d)

def Origin (lib : TextLibrary) (config : DnsConfig) (acts : List Action) (rule : DnsRule) : Prop :=
  rule ∈ config.rules ∨ ∃ order request m, .request order request ∈ acts ∧
    request.mutation lib = some m ∧ m.value = some rule

theorem rules_have_origin (lib : TextLibrary) (config : DnsConfig) (acts : List Action) :
    (run (step lib) (start config : Daemon Key) acts).Carries (Origin lib config acts) := by
  refine (carries_start fun rule hr => .inl hr).run fun action ha => ?_
  cases action with
  | request order request => exact fun m hm rule hr => .inr ⟨order,request,m,ha,hm,hr⟩
  | _ => trivial

end Daemon

end SideDns
