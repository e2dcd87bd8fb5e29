import SideDns.Daemon.Effects

namespace SideDns

open FiniteMap (HashMap IterationOrder SetOrder)
open Transition (run Guarded)

namespace Daemon

variable {Key : Type} {lib : TextLibrary}

def Answers (d : Daemon Key) (domain : String) (rule : DnsRule) : Prop :=
  d.resolver.cache.lookup domain = some rule ∨ .holding domain rule ∈ d.lookups

def Pending (d : Daemon Key) (event : DnsEvent) : Prop :=
  d.watch.phase = .invalidating event ∨ d.Coming d.watch.next event

def Doomed (d : Daemon Key) (domain : String) : Prop :=
  ∃ event, d.Pending event ∧ event.evicts domain = true

def Accurate (d : Daemon Key) (domain : String) (rule : DnsRule) : Prop :=
  d.state.store.resolve domain = some rule ∨ d.Doomed domain

structure Coherent (d : Daemon Key) : Prop where
  subscribed : d.watch.phase ≠ .unsubscribed
  next_le : d.watch.next ≤ d.state.events.sent.length
  accurate : ∀ domain rule, d.Answers domain rule → d.Accurate domain rule

def Undisturbed (lib : TextLibrary) (d : Daemon Key) : Action → Prop
  | .request _ request => ∀ m domain rule, request.mutation lib = some m →
      d.Answers domain rule → patternMatches m.pattern domain = false →
      d.state.store.inner.displaces m domain = true → d.Doomed domain
  | .watch .invalidate => ∀ event domain rule, d.watch.phase = .invalidating event →
      .holding domain rule ∈ d.lookups → event.evicts domain = true →
      d.state.store.resolve domain = some rule ∨
        ∃ other, d.Coming d.watch.next other ∧ other.evicts domain = true
  | .watch .recv => ∀ missed next domain rule,
      d.watch.phase = .waiting → d.state.events.recv d.watch.next = .lagged missed next →
      d.Answers domain rule →
      d.state.store.resolve domain = some rule ∨
        ∃ other, d.Coming next other ∧ other.evicts domain = true
  | _ => True

theorem Coherent.frame {d d' : Daemon Key} (h : d.Coherent)
    (hs : d'.watch.phase ≠ .unsubscribed)
    (hn : d'.watch.next ≤ d'.state.events.sent.length)
    (ha : ∀ domain rule, d'.Answers domain rule → d.Answers domain rule)
    (hr : d'.state.store = d.state.store)
    (hp : ∀ event, d.Pending event → d'.Pending event) : d'.Coherent := by
  refine ⟨hs,hn,?_⟩
  intro domain rule hanswer
  rcases h.accurate domain rule (ha domain rule hanswer) with hres | ⟨event,hev,he⟩
  · exact .inl (hr ▸ hres)
  · exact .inr ⟨event,hp event hev,he⟩

theorem Pending.coming {d : Daemon Key} {event : DnsEvent} (h : d.Pending event)
    (hp : ∀ other, d.watch.phase ≠ .invalidating other) : d.Coming d.watch.next event :=
  Or.resolve_left h (hp event)

theorem Coherent.onward {d d' : Daemon Key} (h : d.Coherent) (hw : d'.watch = d.watch)
    (hn : d.watch.next ≤ d'.state.events.sent.length)
    (ha : ∀ domain rule, d'.Answers domain rule → d.Answers domain rule)
    (hr : d'.state.store = d.state.store)
    (hc : ∀ event, d.Coming d.watch.next event → d'.Coming d.watch.next event) :
    d'.Coherent := by
  refine h.frame (hw ▸ h.subscribed) (hw ▸ hn) ha hr ?_
  rintro event (hp | hcoming)
  · exact .inl (hw ▸ hp)
  · exact .inr (hw ▸ hc event hcoming)

theorem Coherent.probe {d : Daemon Key} (h : d.Coherent) (domain : String) :
    (d.probe domain).Coherent := by
  cases hl : d.resolver.cache.lookup domain with
  | some rule => simpa only [Daemon.probe, hl] using h
  | none =>
    simp only [Daemon.probe, hl]
    refine h.frame h.subscribed h.next_le ?_ rfl (fun _ hp => hp)
    intro k r hanswer
    simpa [Answers] using hanswer

theorem Coherent.advance {d d' : Daemon Key} {i : Nat} (h : d.Coherent) (hd : Advanced d i d') :
    d'.Coherent := by
  cases hd with
  | missed domain rule hi hr =>
    refine ⟨h.subscribed,h.next_le,?_⟩
    rintro k r (hc | hl)
    · exact h.accurate k r (.inl hc)
    · rcases List.mem_or_eq_of_mem_set hl with hmem | heq
      · exact h.accurate k r (.inr hmem)
      · obtain ⟨rfl,rfl⟩ := Lookup.holding.inj heq
        exact .inl hr
  | unknown domain hi hr =>
    refine h.frame h.subscribed h.next_le ?_ rfl (fun _ hp => hp)
    rintro k r (hc | hl)
    · exact .inl hc
    · exact .inr (List.mem_of_mem_eraseIdx hl)
  | holding domain rule hi =>
    refine h.frame h.subscribed h.next_le ?_ rfl (fun _ hp => hp)
    rintro k r (hc | hl)
    · rcases eq_or_ne k domain with rfl | hne
      · obtain rfl := Option.some.inj ((Finmap.lookup_insert _).symm.trans hc)
        exact .inr (List.mem_of_getElem? hi)
      · exact .inl ((Finmap.lookup_insert_of_ne _ hne).symm.trans hc)
    · exact .inr (List.mem_of_mem_eraseIdx hl)
  | idle => exact h

theorem evicts_event (m : Mutation) (rule : DnsRule) (domain : String) :
    (m.event rule).evicts domain = rule.matches domain := by
  simp [DnsEvent.evicts]

theorem Coherent.accept {d : Daemon Key} (h : d.Coherent)
    (order : IterationOrder String DnsRule) (request : IpcRequest)
    (hu : d.Undisturbed lib (.request order request)) : (d.accept lib order request).Coherent := by
  have hacc := d.state.accept_cases lib order request
  simp only [Daemon.accept]
  generalize d.state.accept lib order request = accepted at hacc
  cases hacc with
  | announcing m rule hm ha =>
    refine ⟨h.subscribed,h.next_le,?_⟩
    intro k r hanswer
    have hkeep : d.Doomed k → Daemon.Doomed
        { d with
          state := { d.state with store := d.state.store.mutate m }
          calls := d.calls ++ [⟨request, .announcing (m.event rule)⟩] } k := by
      rintro ⟨event,hp | hu | hc,he⟩
      · exact ⟨event,.inl hp,he⟩
      · exact ⟨event,.inr (.inl hu),he⟩
      · exact ⟨event,.inr (.inr (announces_append.mpr (.inl hc))),he⟩
    have hdomain := d.state.store.wellFormed.announced_domain ha
    cases hpat : patternMatches m.pattern k with
    | true =>
      refine .inr ⟨m.event rule,.inr (.inr (announces_append.mpr (.inr rfl))),?_⟩
      rw [evicts_event, DnsRule.matches, hdomain, hpat]
    | false =>
      cases hdis : d.state.store.inner.displaces m k with
      | true => exact .inr (hkeep (hu m k r hm hanswer hpat hdis))
      | false =>
        rcases h.accurate k r hanswer with hres | hdoom
        · exact .inl ((d.state.store.wellFormed.resolve_mutation hpat hdis).trans hres)
        · exact .inr (hkeep hdoom)
  | stopping hs =>
    refine h.onward rfl h.next_le (fun _ _ ha => ha) rfl fun event hc => ?_
    exact hc.imp_right fun ha => announces_append.mpr (.inl ha)
  | replied response hm =>
    refine h.onward rfl h.next_le (fun _ _ ha => ha) rfl fun event hc => ?_
    exact hc.imp_right fun ha => announces_append.mpr (.inl ha)

theorem Coherent.proceed {d d' : Daemon Key} {i : Nat} (h : d.Coherent) (hd : Proceeded d i d') :
    d'.Coherent := by
  have hn := hd.sent_le h.next_le
  have hcoming : ∀ event, d.Coming d.watch.next event → d'.Coming d.watch.next event :=
    fun event => hd.coming h.next_le
  cases hd with
  | idle => exact h
  | _ => exact h.onward rfl hn (fun _ _ ha => ha) rfl hcoming

theorem Coherent.unevicted {d : Daemon Key} (h : d.Coherent) {event : DnsEvent}
    (hp : d.watch.phase = .invalidating event) {k : String} {r : DnsRule} (ha : d.Answers k r)
    (he : event.evicts k = false) :
    d.state.store.resolve k = some r ∨
      ∃ other, d.Coming d.watch.next other ∧ other.evicts k = true := by
  rcases h.accurate k r ha with hres | ⟨other,hq | hcoming,ho⟩
  · exact .inl hres
  · rw [hp] at hq
    obtain rfl := WatchPhase.invalidating.inj hq
    rw [he] at ho
    cases ho
  · exact .inr ⟨other,hcoming,ho⟩

theorem Coherent.watch {d d' : Daemon Key} {action : WatchAction} (h : d.Coherent)
    (hd : Watched d action d') (hu : d.Undisturbed lib (.watch action)) : d'.Coherent := by
  cases hd with
  | subscribe hp => exact absurd hp h.subscribed
  | received event next hp hr =>
    obtain ⟨hn,hunread⟩ := Broadcast.Channel.recv_ok hr
    refine h.frame (by simp) hn (fun _ _ ha => ha) rfl ?_
    rintro other (hq | hu | hc)
    · rw [hp] at hq
      cases hq
    · rw [hunread] at hu
      rcases List.mem_cons.mp hu with rfl | hmem
      · exact .inl rfl
      · exact .inr (.inl hmem)
    · exact .inr (.inr hc)
  | lagged missed next hp hr =>
    obtain ⟨hn,-⟩ := Broadcast.Channel.recv_lagged hr
    refine ⟨by simp,hn,?_⟩
    intro k r hanswer
    rcases hu missed next k r hp hr hanswer with hres | ⟨other,hc,he⟩
    · exact .inl hres
    · exact .inr ⟨other,.inr hc,he⟩
  | leave hp hc =>
    refine h.frame (by simp) h.next_le (fun _ _ ha => ha) rfl fun event hq => .inr ?_
    exact hq.coming (by simp [hp])
  | invalidate event hp =>
    refine ⟨by cases hper : event.isPersistent <;> simp,h.next_le,?_⟩
    intro k r hanswer
    have hkept : d.state.store.resolve k = some r ∨
        ∃ other, d.Coming d.watch.next other ∧ other.evicts k = true := by
      cases he : event.evicts k with
      | true =>
        rcases hanswer with hc | hl
        · simp [DomainResolver.lookup_observe, he] at hc
        · exact hu event k r hp hl he
      | false =>
        refine h.unevicted hp (hanswer.imp_left fun hc => ?_) he
        simpa [DomainResolver.lookup_observe, he] using hc
    rcases hkept with hres | ⟨other,hcoming,ho⟩
    · exact .inl hres
    · exact .inr ⟨other,.inr hcoming,ho⟩
  | snapshot order hp =>
    refine h.frame (by simp) h.next_le (fun _ _ ha => ha) rfl fun event hq => .inr ?_
    exact hq.coming (by simp [hp])
  | store config hp =>
    refine h.frame (by simp) h.next_le (fun _ _ ha => ha) rfl fun event hq => .inr ?_
    exact hq.coming (by simp [hp])
  | idle => exact h

theorem Coherent.shut {d d' : Daemon Key} (h : d.Coherent) (hd : Shut d d') : d'.Coherent := by
  have hn := hd.sent_le h.next_le
  have hcoming : ∀ event, d.Coming d.watch.next event → d'.Coming d.watch.next event :=
    fun event => hd.coming h.next_le
  cases hd with
  | idle => exact h
  | _ => exact h.onward rfl hn (fun _ _ ha => ha) rfl hcoming

theorem Coherent.manager {d d' : Daemon Key} {action : ManagerAction} (h : d.Coherent)
    (hd : Managed d action d') : d'.Coherent := by
  cases hd with
  | step _ _ _ _ => exact h.frame h.subscribed h.next_le (fun _ _ ha => ha) rfl (fun _ hp => hp)
  | idle => exact h

theorem Coherent.step {d : Daemon Key} (h : d.Coherent) {action : Action}
    (hu : d.Undisturbed lib action) : (d.step lib action).Coherent := by
  cases action with
  | probe domain => exact h.probe domain
  | advance i => exact h.advance (d.advance_cases i)
  | request order request => exact h.accept order request hu
  | proceed i => exact h.proceed (d.proceed_cases i)
  | watch action => exact h.watch (d.watch_cases action) hu
  | manager action => exact h.manager (d.manager_cases action)
  | signal => exact h.shut d.signal_cases
  | shutdown => exact h.shut d.shutdown_cases

theorem Coherent.rerouted {d : Daemon Key} (h : d.Coherent) {m : Mutation} {announced r : DnsRule}
    {k : String} (hanswer : d.Answers k r) (ha : m.announced d.state.store.inner = some announced)
    (hpat : patternMatches m.pattern k = false)
    (hdis : d.state.store.inner.displaces m k = true)
    (hafter : (d.state.store.mutate m).resolve k = some r ∨
      ∃ event, (d.Pending event ∨ event = m.event announced) ∧ event.evicts k = true) :
    d.Doomed k := by
  have hw := d.state.store.wellFormed
  rcases hafter with hres' | ⟨event,hp | rfl,he⟩
  · rcases h.accurate k r hanswer with hres | hdoom
    · exact absurd (hres'.trans hres.symm) (hw.resolve_mutation_displaced hpat hdis)
    · exact hdoom
  · exact ⟨event,hp,he⟩
  · rw [evicts_event, DnsRule.matches, hw.announced_domain ha, hpat] at he
    cases he

theorem displaces_announced {d : Daemon Key} {m : Mutation} {k : String}
    (hpat : patternMatches m.pattern k = false)
    (hdis : d.state.store.inner.displaces m k = true) :
    m.announced d.state.store.inner ≠ none := by
  intro hn
  have hchanged := d.state.store.wellFormed.resolve_mutation_displaced hpat hdis
  rw [InnerRuleStore.apply_of_announced_none hn] at hchanged
  exact hchanged rfl

theorem Coherent.accept_undisturbed {d : Daemon Key} (h : d.Coherent)
    (order : IterationOrder String DnsRule) (request : IpcRequest)
    (h' : (d.accept lib order request).Coherent) : d.Undisturbed lib (.request order request) := by
  intro m k r hm hanswer hpat hdis
  have hacc := d.state.accept_cases lib order request
  have hafter := h'.accurate k r hanswer
  simp only [Daemon.accept] at hafter
  generalize d.state.accept lib order request = accepted at hacc hafter
  cases hacc with
  | announcing m' rule hm' ha =>
    obtain rfl := Option.some.inj (hm.symm.trans hm')
    refine h.rerouted hanswer ha hpat hdis (hafter.imp_right ?_)
    rintro ⟨event,hp | hu | hc,he⟩
    · exact ⟨event,.inl (.inl hp),he⟩
    · exact ⟨event,.inl (.inr (.inl hu)),he⟩
    · rcases announces_append.mp hc with hold | hnew
      · exact ⟨event,.inl (.inr (.inr hold)),he⟩
      · exact ⟨event,.inr (Stage.announcing.inj hnew).symm,he⟩
  | stopping hs =>
    rw [hs] at hm
    cases hm
  | replied response hn => exact absurd (hn m hm) (displaces_announced hpat hdis)

theorem Coherent.step_iff {d : Daemon Key} (h : d.Coherent) (action : Action) :
    (d.step lib action).Coherent ↔ d.Undisturbed lib action := by
  refine ⟨?_,h.step⟩
  intro h'
  cases action with
  | request order request => exact h.accept_undisturbed order request h'
  | watch action =>
    cases action with
    | recv =>
      intro missed next k r hp hr hanswer
      have hd : d.step lib (.watch .recv) = { d with watch := ⟨.waiting, next⟩ } := by
        simp only [Daemon.step, watchStep, hp, hr]
      rw [hd] at h'
      rcases h'.accurate k r hanswer with hres | ⟨other,hq | hcoming,ho⟩
      · exact .inl hres
      · cases hq
      · exact .inr ⟨other,hcoming,ho⟩
    | invalidate =>
      intro event k r hp hl he
      have hd : d.step lib (.watch .invalidate) =
          { d with
            resolver := d.resolver.observe event
            watch := ⟨if event.isPersistent then .saving else .waiting, d.watch.next⟩ } :=
        watchStep_invalidate hp
      rw [hd] at h'
      rcases h'.accurate k r (.inr hl) with hres | ⟨other,hq | hcoming,ho⟩
      · exact .inl hres
      · cases hper : event.isPersistent <;> simp [hper] at hq
      · exact .inr ⟨other,hcoming,ho⟩
    | _ => trivial
  | _ => trivial

def watched (store : RuleStore) (saved : DnsConfig) : Daemon Key :=
  (idle store saved).watchStep .subscribe

theorem coherent_watched (store : RuleStore) (saved : DnsConfig) :
    (watched store saved : Daemon Key).Coherent := by
  refine ⟨nofun,Nat.le_refl _,?_⟩
  rintro domain rule (hc | hl)
  · cases hc
  · cases hl

def Drained (d : Daemon Key) : Prop :=
  d.unread = [] ∧ d.watch.phase.event? = none

instance (d : Daemon Key) : Decidable d.Drained :=
  inferInstanceAs (Decidable (d.unread = [] ∧ d.watch.phase.event? = none))

def Settled (d : Daemon Key) : Prop := ∀ call ∈ d.calls, call.stage.isReplied = true

instance (d : Daemon Key) : Decidable d.Settled :=
  inferInstanceAs (Decidable (∀ call ∈ d.calls, call.stage.isReplied = true))

structure Quiescent (d : Daemon Key) : Prop where
  lookups : d.lookups = []
  settled : d.Settled
  drained : d.Drained

def Current (d : Daemon Key) : Prop :=
  ∀ domain rule, d.resolver.cache.lookup domain = some rule →
    d.state.store.resolve domain = some rule

theorem Settled.not_announces {d : Daemon Key} (h : d.Settled) (event : DnsEvent) :
    ¬ Announces d.calls event := by
  rintro ⟨call,hc,hs⟩
  have hr := h call hc
  rw [hs] at hr
  cases hr

theorem Coherent.current {d : Daemon Key} (h : d.Coherent) (hs : d.Settled) (hd : d.Drained) :
    d.Current := by
  intro domain rule hc
  rcases h.accurate domain rule (.inl hc) with hres | ⟨event,hp | hu | ha,-⟩
  · exact hres
  · have hnone := hd.2
    rw [hp] at hnone
    cases hnone
  · have hnil : event ∈ d.unread := hu
    rw [hd.1] at hnil
    cases hnil
  · exact absurd ha (hs.not_announces event)

def lags (d : Daemon Key) : Action → Bool
  | .watch .recv =>
    match d.watch.phase, d.state.events.recv d.watch.next with
    | .waiting, .lagged _ _ => true
    | _, _ => false
  | _ => false

theorem cache_current_when_undisturbed (lib : TextLibrary) (store : RuleStore) (saved : DnsConfig)
    (acts : List Action) :
    let d : Daemon Key := watched store saved
    (Guarded (step lib) (Undisturbed lib) d acts →
        (run (step lib) d acts).Quiescent → (run (step lib) d acts).Current) ∧
      (Guarded (step lib) (Undisturbed lib) d acts ↔
        ∀ before, before <+: acts → (run (step lib) d before).Coherent) := by
  intro d
  have hd : d.Coherent := coherent_watched store saved
  refine ⟨?_,Transition.guarded_iff_invariant Coherent (fun _ action h => h.step_iff action) hd⟩
  intro hg hq
  have h := Transition.guarded_invariant Coherent (fun _ _ h hu => h.step hu) hd hg
  exact h.current hq.settled hq.drained

def plainText : TextLibrary := ⟨fun _ => true, id⟩

def lookupOf (domain : String) : List Action := [.probe domain, .advance 0, .advance 0]

def announced (order : IterationOrder String DnsRule) (request : IpcRequest) (i : Nat) :
    List Action :=
  [.request order request, .proceed i, .watch .recv, .watch .invalidate]

def looked (order : IterationOrder String DnsRule) : List Action :=
  announced order (.addEphemeral "a.test" (.v4 0x7f000001 3000) false) 0 ++ lookupOf "a.test"

theorem cache_current_after_lookup :
    (run (step plainText) (watched RuleStore.new ⟨[]⟩ : Daemon Unit) (looked default)).Current := by
  refine (cache_current_when_undisturbed plainText RuleStore.new ⟨[]⟩ (looked default)).1 ?_ ?_
  · refine ⟨?_,trivial,?_,?_,trivial,trivial,trivial,trivial⟩
    · intro m domain rule hm _ _ hd
      obtain rfl := Option.some.inj hm
      cases hd
    · intro missed next domain rule _ hr
      cases hr
    · intro event domain rule _ hl
      cases hl
  · exact ⟨rfl,by decide,by decide⟩

def overtaken (order : IterationOrder String DnsRule) : List Action :=
  announced order (.addEphemeral "a.test" (.v4 0x7f000001 3000) false) 0 ++
    [.probe "a.test", .advance 0] ++ announced order (.removeEphemeral "a.test") 1 ++ [.advance 0]

theorem lookup_reinstates_removed_rule :
    ¬ ∀ (store : RuleStore) (saved : DnsConfig) (acts : List Action),
      let d : Daemon Unit := watched store saved
      Guarded (step plainText) (fun d action => d.lags action = false) d acts →
        (run (step plainText) d acts).Quiescent → (run (step plainText) d acts).Current := by
  intro h
  have hc := h RuleStore.new ⟨[]⟩ (overtaken default) (by decide) ⟨rfl,by decide,by decide⟩
  have hr := hc "a.test" ⟨"a.test",.v4 0x7f000001 3000,false⟩ (by decide)
  exact absurd hr (by decide)

end Daemon

end SideDns
