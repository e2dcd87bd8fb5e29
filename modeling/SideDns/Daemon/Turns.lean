import SideDns.Daemon.Coherence

namespace SideDns

open FiniteMap (HashMap IterationOrder SetOrder)
open Transition (run Guarded)

inductive Turn where
  | lookup (domain : String)
  | handle (order : IterationOrder String DnsRule) (request : IpcRequest)
  | watch (action : WatchAction)

namespace Daemon

variable {Key : Type} {lib : TextLibrary}

def turnActions (d : Daemon Key) : Turn → List Action
  | .lookup domain => [.probe domain, .advance 0, .advance 0]
  | .handle order request =>
      [.request order request, .proceed d.calls.length, .proceed d.calls.length]
  | .watch action => [.watch action]

def turn (lib : TextLibrary) (d : Daemon Key) (t : Turn) : Daemon Key :=
  run (step lib) d (d.turnActions t)

theorem turn_lookup {d : Daemon Key} (hl : d.lookups = []) (domain : String) :
    d.turn lib (.lookup domain) =
      { d with resolver := (d.resolver.resolveDomain d.state.store.inner domain).1 } := by
  obtain ⟨state,resolver,lookups,calls,watch,manager,runner,saved⟩ := d
  obtain rfl := hl
  cases hc : resolver.cache.lookup domain with
  | some rule =>
    simp [turn, turnActions, step, probe, advance, DomainResolver.resolveDomain, hc]
  | none =>
    cases hr : state.store.inner.resolve domain with
    | none =>
      simp [turn, turnActions, step, probe, advance, DomainResolver.resolveDomain,
        RuleStore.resolve, hc, hr]
    | some rule =>
      simp [turn, turnActions, step, probe, advance, DomainResolver.resolveDomain,
        RuleStore.resolve, hc, hr]

theorem proceed_last (state : AppState) (resolver : DomainResolver Key) (lookups : List Lookup)
    (calls : List Call) (call : Call) (watch : Watch) (manager : Manager) (runner : Runner)
    (saved : DnsConfig) :
    (⟨state, resolver, lookups, calls ++ [call], watch, manager, runner, saved⟩ :
        Daemon Key).proceed calls.length =
      ⟨(state.proceed call.stage).1, resolver, lookups,
        calls ++ [⟨call.request, (state.proceed call.stage).2⟩], watch, manager, runner,
        saved⟩ := by
  simp [proceed]

theorem turn_handle (d : Daemon Key) (order : IterationOrder String DnsRule)
    (request : IpcRequest) :
    d.turn lib (.handle order request) =
      { d with
        state := (d.state.handle lib order request).1
        calls := d.calls ++ [⟨request, .replied (d.state.handle lib order request).2⟩] } := by
  obtain ⟨state,resolver,lookups,calls,watch,manager,runner,saved⟩ := d
  simp only [turn, turnActions, Transition.run_cons, Transition.run_nil, step, accept,
    AppState.handle]
  generalize state.accept lib order request = accepted
  obtain ⟨st,stage⟩ := accepted
  rw [proceed_last, proceed_last]
  cases stage <;> rfl

def Kept (lib : TextLibrary) (d : Daemon Key) : Turn → Prop
  | .handle _ request => ∀ m domain rule, request.mutation lib = some m →
      d.resolver.cache.lookup domain = some rule → patternMatches m.pattern domain = false →
      d.state.store.inner.displaces m domain = true → d.Doomed domain
  | .watch .recv => ∀ missed next domain rule,
      d.watch.phase = .waiting → d.state.events.recv d.watch.next = .lagged missed next →
      d.resolver.cache.lookup domain = some rule →
      d.state.store.resolve domain = some rule ∨
        ∃ other ∈ d.state.events.unread next, other.evicts domain = true
  | _ => True

structure Tidy (d : Daemon Key) : Prop where
  coherent : d.Coherent
  lookups : d.lookups = []
  settled : d.Settled

theorem answers_of_no_lookups {d : Daemon Key} (hl : d.lookups = []) {domain : String}
    {rule : DnsRule} (ha : d.Answers domain rule) :
    d.resolver.cache.lookup domain = some rule := by
  rcases ha with hc | hm
  · exact hc
  · rw [hl] at hm
    cases hm

theorem Tidy.undisturbed {d : Daemon Key} (h : d.Tidy) {t : Turn} (hk : d.Kept lib t) :
    Guarded (step lib) (Undisturbed lib) d (d.turnActions t) := by
  cases t with
  | lookup domain => exact ⟨trivial,trivial,trivial,trivial⟩
  | handle order request =>
    refine ⟨?_,trivial,trivial,trivial⟩
    intro m domain rule hm ha
    exact hk m domain rule hm (answers_of_no_lookups h.lookups ha)
  | watch action =>
    refine ⟨?_,trivial⟩
    cases action with
    | recv =>
      intro missed next domain rule hp hr ha
      rcases hk missed next domain rule hp hr (answers_of_no_lookups h.lookups ha) with
        hres | ⟨other,hu,he⟩
      · exact .inl hres
      · exact .inr ⟨other,.inl hu,he⟩
    | invalidate =>
      intro event domain rule _ hl _
      rw [h.lookups] at hl
      cases hl
    | _ => trivial

theorem watched_lookups {d d' : Daemon Key} {action : WatchAction} (h : Watched d action d') :
    d'.lookups = d.lookups := by
  cases h <;> rfl

theorem Tidy.turn {d : Daemon Key} (h : d.Tidy) {t : Turn} (hk : d.Kept lib t) :
    (d.turn lib t).Tidy := by
  have hc : (d.turn lib t).Coherent :=
    Transition.guarded_invariant Coherent (fun _ _ hd hu => hd.step hu) h.coherent
      (h.undisturbed hk)
  refine ⟨hc,?_,?_⟩
  · cases t with
    | lookup domain =>
      rw [turn_lookup h.lookups]
      exact h.lookups
    | handle order request =>
      rw [turn_handle]
      exact h.lookups
    | watch action => exact (watched_lookups (d.watch_cases action)).trans h.lookups
  · cases t with
    | lookup domain =>
      rw [turn_lookup h.lookups]
      exact h.settled
    | handle order request =>
      rw [turn_handle]
      intro call hcall
      rcases List.mem_append.mp hcall with hold | hnew
      · exact h.settled call hold
      · rw [List.mem_singleton.mp hnew]
        rfl
    | watch action =>
      intro call hcall
      exact h.settled call ((d.watch_cases action).sameState.calls ▸ hcall)

theorem tidy_watched (store : RuleStore) (saved : DnsConfig) :
    (watched store saved : Daemon Key).Tidy := by
  refine ⟨coherent_watched store saved,rfl,?_⟩
  intro call hc
  cases hc

theorem Tidy.handle_kept {d : Daemon Key} (h : d.Tidy) (order : IterationOrder String DnsRule)
    (request : IpcRequest) (h' : (d.turn lib (.handle order request)).Coherent) :
    d.Kept lib (.handle order request) := by
  intro m domain rule hm hc hpat hdis
  have hacc := d.state.accept_cases lib order request
  rw [turn_handle] at h'
  have hafter := h'.accurate domain rule (.inl hc)
  simp only [AppState.handle] at hafter
  generalize d.state.accept lib order request = accepted at hacc hafter
  cases hacc with
  | announcing m' announced hm' ha =>
    obtain rfl := Option.some.inj (hm.symm.trans hm')
    refine h.coherent.rerouted (.inl hc) ha hpat hdis (hafter.imp_right ?_)
    rintro ⟨event,hp | hu | hann,he⟩
    · exact ⟨event,.inl (.inl hp),he⟩
    · rcases (mem_unread_dispatch h.coherent.next_le).mp hu with hold | hnew
      · exact ⟨event,.inl (.inr (.inl hold)),he⟩
      · exact ⟨event,.inr hnew,he⟩
    · rcases announces_append.mp hann with hold | hnew
      · exact ⟨event,.inl (.inr (.inr hold)),he⟩
      · cases hnew
  | stopping hs =>
    rw [hs] at hm
    cases hm
  | replied response hn => exact absurd (hn m hm) (displaces_announced hpat hdis)

theorem Tidy.turn_iff {d : Daemon Key} (h : d.Tidy) (t : Turn) :
    (d.turn lib t).Tidy ↔ d.Kept lib t := by
  refine ⟨?_,h.turn⟩
  intro h'
  cases t with
  | handle order request => exact h.handle_kept order request h'.coherent
  | lookup domain => trivial
  | watch action =>
    cases action with
    | recv =>
      intro missed next domain rule hp hr hc
      have hu : d.Undisturbed lib (.watch .recv) := (h.coherent.step_iff _).mp h'.coherent
      rcases hu missed next domain rule hp hr (.inl hc) with hres | ⟨other,hunread | ha,he⟩
      · exact .inl hres
      · exact .inr ⟨other,hunread,he⟩
      · exact absurd ha (h.settled.not_announces other)
    | _ => trivial

theorem cache_current_when_kept (lib : TextLibrary) (store : RuleStore) (saved : DnsConfig)
    (turns : List Turn) :
    let d : Daemon Key := watched store saved
    (Guarded (turn lib) (Kept lib) d turns →
        (run (turn lib) d turns).Drained → (run (turn lib) d turns).Current) ∧
      (Guarded (turn lib) (Kept lib) d turns ↔
        ∀ before, before <+: turns → (run (turn lib) d before).Tidy) := by
  intro d
  have hd : d.Tidy := tidy_watched store saved
  refine ⟨?_,Transition.guarded_iff_invariant Tidy (fun _ t h => h.turn_iff t) hd⟩
  intro hg hdrained
  have h := Transition.guarded_invariant Tidy (fun _ _ h hk => h.turn hk) hd hg
  exact h.coherent.current h.settled hdrained

def serve (order : IterationOrder String DnsRule) : List Turn :=
  [.handle order (.addEphemeral "a.test" (.v4 0x7f000001 3000) false), .watch .recv,
    .watch .invalidate, .lookup "a.test"]

theorem cache_current_after_lookup_turn :
    (run (turn plainText) (watched RuleStore.new ⟨[]⟩ : Daemon Unit) (serve default)).Current := by
  refine (cache_current_when_kept plainText RuleStore.new ⟨[]⟩ (serve default)).1 ?_ (by decide)
  refine ⟨?_,?_,trivial,trivial,trivial⟩
  · intro m domain rule hm _ _ hd
    obtain rfl := Option.some.inj hm
    cases hd
  · intro missed next domain rule _ hr
    cases hr

def flood (order : IterationOrder String DnsRule) : List Turn :=
  List.replicate 64 (Turn.handle order (.addEphemeral "b.test" (.v4 0x7f000001 4000) false))

def drain : List Turn :=
  Turn.watch .recv :: (List.replicate 64 [Turn.watch .recv, Turn.watch .invalidate]).flatten

def lagged (order : IterationOrder String DnsRule) : List Turn :=
  serve order ++ .handle order (.removeEphemeral "a.test") :: flood order ++ drain

theorem lag_keeps_removed_rule :
    ¬ ∀ (store : RuleStore) (saved : DnsConfig) (turns : List Turn),
      let d : Daemon Unit := run (turn plainText) (watched store saved) turns
      d.Drained → d.Current := by
  intro h
  have hc := h RuleStore.new ⟨[]⟩ (lagged default) (by decide +kernel)
  have hr := hc "a.test" ⟨"a.test",.v4 0x7f000001 3000,false⟩ (by decide +kernel)
  exact absurd hr (by decide +kernel)

end Daemon

end SideDns
