import SideDns.Daemon.Coherence
import SideDns.Library.Changelog
import SideDns.Store.Concurrent

namespace SideDns

open FiniteMap (HashMap IterationOrder)
open Changelog (Change Follows)
open Transition (run Guarded)

def DnsEvent.change? : DnsEvent → Option (Change (Lifetime × String) DnsRule)
  | .ruleAdded rule => some ⟨(.persistent, rule.domain), some rule⟩
  | .ruleRemoved rule => some ⟨(.persistent, rule.domain), none⟩
  | .ephemeralAdded rule => some ⟨(.ephemeral, rule.domain), some rule⟩
  | .ephemeralRemoved rule => some ⟨(.ephemeral, rule.domain), none⟩
  | .daemonStopped => none

namespace RuleMaps

def layer (m : RuleMaps) : Lifetime → HashMap String DnsRule
  | .ephemeral => m.ephemeral
  | .persistent => m.persistent

def read (m : RuleMaps) (slot : Lifetime × String) : Option DnsRule :=
  (m.layer slot.1).lookup slot.2

def observe (m : RuleMaps) : DnsEvent → RuleMaps
  | .ruleAdded rule => { m with persistent := m.persistent.insert rule.domain rule }
  | .ruleRemoved rule => { m with persistent := m.persistent.erase rule.domain }
  | .ephemeralAdded rule => { m with ephemeral := m.ephemeral.insert rule.domain rule }
  | .ephemeralRemoved rule => { m with ephemeral := m.ephemeral.erase rule.domain }
  | .daemonStopped => m

def fold (m : RuleMaps) (events : List DnsEvent) : RuleMaps := events.foldl observe m

theorem fold_append (m : RuleMaps) (events : List DnsEvent) (event : DnsEvent) :
    m.fold (events ++ [event]) = (m.fold events).observe event := by
  simp [fold]

theorem read_injective {m n : RuleMaps} (h : m.read = n.read) : m = n := by
  obtain ⟨me,mp⟩ := m
  obtain ⟨ne,np⟩ := n
  have he : me = ne := Finmap.ext_lookup fun domain => congrFun h (.ephemeral,domain)
  have hp : mp = np := Finmap.ext_lookup fun domain => congrFun h (.persistent,domain)
  rw [he, hp]

theorem read_observe (m : RuleMaps) {event : DnsEvent} {c : Change (Lifetime × String) DnsRule}
    (hc : event.change? = some c) : (m.observe event).read = c.apply m.read := by
  funext slot
  obtain ⟨kind,domain⟩ := slot
  cases event with
  | daemonStopped => cases hc
  | _ =>
    obtain rfl := Option.some.inj hc
    cases kind <;>
      simp [observe, read, layer, Change.apply, Function.update_apply,
        FiniteMap.lookup_insert_ite, FiniteMap.lookup_erase_ite]

theorem read_mutate {s : InnerRuleStore} (hs : s.WellFormed) {op : Mutation} {rule : DnsRule}
    (ha : op.announced s = some rule) :
    ∃ c, (op.event rule).change? = some c ∧
      (mutate op s.toMaps).1.read = c.apply s.toMaps.read := by
  have hd := hs.announced_domain ha
  have hobs : (mutate op s.toMaps).1 = s.toMaps.observe (op.event rule) := by
    cases op with
    | add r =>
      obtain rfl := Option.some.inj ha
      rfl
    | addEphemeral r =>
      obtain rfl := Option.some.inj ha
      rfl
    | remove domain => simp [mutate, observe, Mutation.event, hd, Mutation.pattern]
    | removeEphemeral domain => simp [mutate, observe, Mutation.event, hd, Mutation.pattern]
  rw [hobs]
  cases op with
  | _ => exact ⟨_,rfl,read_observe _ rfl⟩

end RuleMaps

namespace Daemon

variable {Key : Type} {lib : TextLibrary}

def Unsent (d : Daemon Key) (c : Change (Lifetime × String) DnsRule) : Prop :=
  ∃ event, Announces d.calls event ∧ event.change? = some c

def replayed (initial : RuleMaps) (d : Daemon Key) : RuleMaps :=
  initial.fold d.state.events.sent

def rules (d : Daemon Key) : RuleMaps := d.state.store.inner.toMaps

def Replayable (initial : RuleMaps) (d : Daemon Key) : Prop :=
  Follows (d.replayed initial).read d.rules.read d.Unsent

def Answered (d : Daemon Key) : Prop := ∀ call ∈ d.calls, call.stage.isReplied = true

instance (d : Daemon Key) : Decidable d.Answered :=
  inferInstanceAs (Decidable (∀ call ∈ d.calls, call.stage.isReplied = true))

def Ordered (d : Daemon Key) : Action → Prop
  | .proceed i => ∀ call event c, d.calls[i]? = some call → call.stage = .announcing event →
      event.change? = some c → c.value = d.rules.read c.key ∨
        ∃ other, Announces (d.calls.set i ⟨call.request, .replied .ok⟩) other ∧
          other.change? = some ⟨c.key, d.rules.read c.key⟩
  | _ => True

theorem Replayable.settled {initial : RuleMaps} {d : Daemon Key} (h : d.Replayable initial)
    (ha : d.Answered) : d.replayed initial = d.rules := by
  refine RuleMaps.read_injective (Follows.settled h ?_)
  rintro c ⟨event,⟨call,hmem,hs⟩,-⟩
  have hrep := ha call hmem
  rw [hs] at hrep
  cases hrep

theorem Replayable.sameStream {initial : RuleMaps} {d d' : Daemon Key} (h : d.Replayable initial)
    (hs : d'.state.store = d.state.store)
    (hr : d'.replayed initial = d.replayed initial)
    (hc : ∀ event, Announces d.calls event → Announces d'.calls event) :
    d'.Replayable initial := by
  rw [Replayable, hr, rules, hs]
  refine Follows.weaken h ?_
  rintro c ⟨event,hev,hchange⟩
  exact ⟨event,hc event hev,hchange⟩

theorem Replayable.sameState {initial : RuleMaps} {d d' : Daemon Key} (h : d.Replayable initial)
    (hs : SameState d d') : d'.Replayable initial := by
  refine h.sameStream (by rw [hs.state]) ?_ ?_
  · rw [replayed, hs.state]
    rfl
  · intro event hev
    rw [hs.calls]
    exact hev

theorem Replayable.accept {initial : RuleMaps} {d : Daemon Key} (h : d.Replayable initial)
    (order : IterationOrder String DnsRule) (request : IpcRequest) :
    (d.accept lib order request).Replayable initial := by
  have hacc := d.state.accept_cases lib order request
  simp only [Daemon.accept]
  generalize d.state.accept lib order request = accepted at hacc
  cases hacc with
  | announcing m rule hm ha =>
    obtain ⟨c,hc,hread⟩ := RuleMaps.read_mutate d.state.store.wellFormed ha
    rw [Replayable, rules, RuleStore.toMaps_mutate, hread]
    refine Follows.write h c ?_ ?_
    · rintro c' ⟨event,hev,hchange⟩
      exact ⟨event,announces_append.mpr (.inl hev),hchange⟩
    · exact ⟨m.event rule,announces_append.mpr (.inr rfl),hc⟩
  | stopping hs =>
    exact h.sameStream rfl rfl (fun event hev => announces_append.mpr (.inl hev))
  | replied response hm =>
    exact h.sameStream rfl rfl (fun event hev => announces_append.mpr (.inl hev))

theorem replayed_dispatch (initial : RuleMaps) (d d' : Daemon Key) (event : DnsEvent)
    (h : d'.state = d.state.dispatch event) :
    d'.replayed initial = (d.replayed initial).observe event := by
  rw [replayed, h]
  exact RuleMaps.fold_append _ _ _

theorem Replayable.announced_iff {initial : RuleMaps} {d : Daemon Key}
    (h : d.Replayable initial) {i : Nat} {call : Call} {event : DnsEvent}
    (hi : d.calls[i]? = some call) (hs : call.stage = .announcing event)
    {c : Change (Lifetime × String) DnsRule} (hc : event.change? = some c) {d' : Daemon Key}
    (hd : d' = { d with
        state := d.state.dispatch event
        calls := d.calls.set i ⟨call.request, .replied .ok⟩ }) :
    d'.Replayable initial ↔ c.value = d.rules.read c.key ∨
      ∃ other, Announces (d.calls.set i ⟨call.request, .replied .ok⟩) other ∧
        other.change? = some ⟨c.key, d.rules.read c.key⟩ := by
  have hr : d'.replayed initial = (d.replayed initial).observe event :=
    replayed_dispatch initial d d' event (by rw [hd])
  have hpend : ∀ c', d.Unsent c' → c' = c ∨ d'.Unsent c' := by
    rintro c' ⟨other,hother,hc'⟩
    rcases hother.set hi ⟨call.request,.replied .ok⟩ with hcall | hset
    · rw [hs] at hcall
      obtain rfl := Stage.announcing.inj hcall
      exact .inl (Option.some.inj (hc'.symm.trans hc))
    · rw [hd]
      exact .inr ⟨other,hset,hc'⟩
  rw [Replayable, hr, RuleMaps.read_observe _ hc]
  have hrules : d'.rules = d.rules := by rw [hd]; rfl
  rw [hrules, Follows.publish_iff h c hpend, hd]
  rfl

theorem Replayable.proceed {initial : RuleMaps} {d d' : Daemon Key} (h : d.Replayable initial)
    {i : Nat} (hd : Proceeded d i d') (ho : d.Ordered (.proceed i)) : d'.Replayable initial := by
  cases hd with
  | announcing call event hi hs =>
    cases hc : event.change? with
    | some c => exact (h.announced_iff hi hs hc rfl).mpr (ho call event c hi hs hc)
    | none =>
      obtain rfl : event = .daemonStopped := by cases event <;> first | rfl | cases hc
      have hr : ∀ d' : Daemon Key, d'.state = d.state.dispatch .daemonStopped →
          d'.replayed initial = d.replayed initial :=
        fun d' => replayed_dispatch initial d d' .daemonStopped
      rw [Replayable, hr _ rfl]
      refine Follows.weaken h ?_
      rintro c ⟨other,hother,hc'⟩
      rcases hother.set hi ⟨call.request,.replied .ok⟩ with hcall | hset
      · rw [hs] at hcall
        obtain rfl := Stage.announcing.inj hcall
        rw [hc] at hc'
        cases hc'
      · exact ⟨other,hset,hc'⟩
  | stopping call hi hs =>
    have hr := replayed_dispatch initial d
      { d with
        state := d.state.dispatch .daemonStopped
        calls := d.calls.set i ⟨call.request, .cancelling⟩ } .daemonStopped rfl
    exact h.sameStream rfl hr (fun event hev => hev.set_other hi (by simp [hs]) _)
  | cancelling call hi hs =>
    exact h.sameStream rfl rfl (fun event hev => hev.set_other hi (by simp [hs]) _)
  | idle => exact h

theorem Replayable.proceed_ordered {initial : RuleMaps} {d : Daemon Key}
    (h : d.Replayable initial) {i : Nat} (h' : (d.proceed i).Replayable initial) :
    d.Ordered (.proceed i) := by
  intro call event c hi hs hc
  refine (h.announced_iff hi hs hc ?_).mp h'
  simp only [Daemon.proceed, hi, hs, AppState.proceed]

theorem Replayable.shut {initial : RuleMaps} {d d' : Daemon Key} (h : d.Replayable initial)
    (hd : Shut d d') : d'.Replayable initial := by
  cases hd with
  | signal => exact h.sameStream rfl rfl (fun _ hev => hev)
  | shutdown hc hr =>
    have hstop := replayed_dispatch initial d
      { d with state := d.state.dispatch .daemonStopped, runner := .joining } .daemonStopped rfl
    exact h.sameStream rfl hstop (fun _ hev => hev)
  | idle => exact h

theorem Replayable.step_iff {initial : RuleMaps} {d : Daemon Key} (h : d.Replayable initial)
    (action : Action) : (d.step lib action).Replayable initial ↔ d.Ordered action := by
  constructor
  · intro h'
    cases action with
    | proceed i => exact h.proceed_ordered h'
    | _ => trivial
  · intro ho
    cases action with
    | probe domain => exact h.sameState (d.probe_sameState domain)
    | advance i => exact h.sameState (d.advance_cases i).sameState
    | request order request => exact h.accept order request
    | proceed i => exact h.proceed (d.proceed_cases i) ho
    | watch action => exact h.sameState (d.watch_cases action).sameState
    | manager action => exact h.sameState (d.manager_cases action).sameState
    | signal => exact h.shut d.signal_cases
    | shutdown => exact h.shut d.shutdown_cases

theorem replayable_idle (store : RuleStore) (saved : DnsConfig) :
    (idle store saved : Daemon Key).Replayable store.inner.toMaps :=
  Changelog.follows_refl _ _

theorem events_replay_when_ordered (lib : TextLibrary) (store : RuleStore) (saved : DnsConfig)
    (acts : List Action) :
    let d : Daemon Key := idle store saved
    (Guarded (step lib) Ordered d acts → ∀ before, before <+: acts →
        (run (step lib) d before).Answered →
          (run (step lib) d before).replayed store.inner.toMaps =
            (run (step lib) d before).rules) ∧
      (Guarded (step lib) Ordered d acts ↔
        ∀ before, before <+: acts →
          (run (step lib) d before).Replayable store.inner.toMaps) := by
  intro d
  have hexact : Guarded (step lib) Ordered d acts ↔ ∀ before, before <+: acts →
      (run (step lib) d before).Replayable store.inner.toMaps :=
    Transition.guarded_iff_invariant (Replayable store.inner.toMaps)
      (fun _ action h => h.step_iff action) (replayable_idle store saved)
  refine ⟨?_,hexact⟩
  intro hg before hb ha
  exact (hexact.mp hg before hb).settled ha

def adding (order : IterationOrder String DnsRule) (port : UInt16) : Action :=
  .request order (.add "a.test" (.v4 0x7f000001 port) false)

theorem events_replay_in_swap_order :
    let d : Daemon Unit := run (step plainText) (idle RuleStore.new ⟨[]⟩)
      [adding default 3000, adding default 4000, .proceed 0, .proceed 1]
    d.replayed RuleStore.new.inner.toMaps = d.rules := by
  refine (events_replay_when_ordered plainText RuleStore.new ⟨[]⟩ _).1 ?_ _ List.prefix_rfl
    (by decide)
  refine ⟨trivial,trivial,?_,?_,trivial⟩
  · intro call event c hi hs hc
    obtain rfl := Option.some.inj hi
    obtain rfl := Stage.announcing.inj hs
    obtain rfl := Option.some.inj hc
    exact .inr ⟨_,⟨_,List.mem_cons_of_mem _ (List.mem_singleton.mpr rfl),rfl⟩,rfl⟩
  · intro call event c hi hs hc
    obtain rfl := Option.some.inj hi
    obtain rfl := Stage.announcing.inj hs
    obtain rfl := Option.some.inj hc
    exact .inl (by decide)

theorem crossed_broadcasts_replay_older_rule :
    ¬ ∀ (store : RuleStore) (saved : DnsConfig) (acts : List Action),
      let d : Daemon Unit := run (step plainText) (idle store saved) acts
      d.Answered → d.replayed store.inner.toMaps = d.rules := by
  intro h
  have heq := h RuleStore.new ⟨[]⟩
    [adding default 3000, adding default 4000, .proceed 1, .proceed 0] (by decide)
  exact absurd (congrArg (fun m => m.read (.persistent,"a.test")) heq) (by decide)

end Daemon

end SideDns
