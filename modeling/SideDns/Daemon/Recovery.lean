import SideDns.Daemon.Durability
import SideDns.Daemon.Provenance

namespace SideDns

open FiniteMap (HashMap IterationOrder)
open Transition (run)

namespace RuleMaps

theorem persistent_mutate {m m' : RuleMaps} (h : m.persistent = m'.persistent) (op : Mutation) :
    (mutate op m).1.persistent = (mutate op m').1.persistent := by
  cases op with
  | add rule => simp only [mutate, h]
  | addEphemeral rule => exact h
  | remove domain => simp only [mutate, h]
  | removeEphemeral domain => exact h

end RuleMaps

def DnsConfig.restored (config : DnsConfig) : HashMap String DnsRule :=
  FiniteMap.insertAll DnsRule.domain ∅ config.rules

theorem Records.restored {config : DnsConfig} {store : RuleStore} (h : Records config store) :
    config.restored = store.inner.toMaps.persistent :=
  FiniteMap.insertAll_of_values _ store.wellFormed.persistent.keyed_toMap h

inductive LifeAction where
  | daemon (action : Action)
  | storeFailed

def LifeAction.accepted (lib : TextLibrary) : LifeAction → Option Mutation
  | daemon (.request _ request) => request.mutation lib
  | _ => none

structure Life where
  loaded : Bool
  actions : List LifeAction

namespace Life

def accepted (lib : TextLibrary) (life : Life) : List Mutation :=
  life.actions.filterMap (LifeAction.accepted lib)

def opening (life : Life) (saved : HashMap String DnsRule) : RuleMaps :=
  ⟨∅, if life.loaded then saved else ∅⟩

end Life

def Recovered (lib : TextLibrary) :
    HashMap String DnsRule → List Life → HashMap String DnsRule → Prop
  | saved, [], restored => restored = saved
  | saved, life :: rest, restored =>
    ∃ between, (between = saved ∨ ∃ kept, kept <+: life.accepted lib ∧
        between = ((life.opening saved).replay kept).persistent) ∧
      Recovered lib between rest restored

namespace Daemon

variable {Key : Type} {lib : TextLibrary}

def launch (loaded : Bool) (saved : DnsConfig) : Daemon Key :=
  idle (AppState.new.loadRules (if loaded then some saved else none)).1.store saved

def storeFailed (d : Daemon Key) : Daemon Key :=
  match d.watch.phase with
  | .storing _ => { d with watch := ⟨.waiting, d.watch.next⟩ }
  | _ => d

def lifeStep (lib : TextLibrary) (d : Daemon Key) : LifeAction → Daemon Key
  | .daemon action => d.step lib action
  | .storeFailed => d.storeFailed

def live (lib : TextLibrary) (saved : DnsConfig) (loaded : Bool) (actions : List LifeAction) :
    Daemon Key :=
  run (lifeStep lib) (launch loaded saved) actions

def lives (Key : Type) (lib : TextLibrary) (saved : DnsConfig) : List Life → DnsConfig
  | [] => saved
  | life :: rest =>
    lives Key lib (live lib saved life.loaded life.actions : Daemon Key).saved rest

structure SavedAt (base : DnsConfig) (opening : RuleMaps) (ops : List Mutation) (n : Nat)
    (config : DnsConfig) : Prop where
  le : n ≤ ops.length
  restored : (n = 0 ∧ config = base) ∨
    config.restored = (opening.replay (ops.take n)).persistent

theorem SavedAt.extend {base config : DnsConfig} {opening : RuleMaps} {ops ops' : List Mutation}
    {n : Nat} (h : SavedAt base opening ops n config) (hp : ops <+: ops') :
    SavedAt base opening ops' n config := by
  obtain ⟨more,rfl⟩ := hp
  refine ⟨h.le.trans (by simp),?_⟩
  rw [List.take_append_of_le_length h.le]
  exact h.restored

structure Recorded (lib : TextLibrary) (base : DnsConfig) (opening : RuleMaps) (least : Nat)
    (d : Daemon Key) : Prop where
  maps : d.state.store.inner.toMaps.persistent =
    (opening.replay (mutations lib d.calls)).persistent
  saved : ∃ n, least ≤ n ∧ SavedAt base opening (mutations lib d.calls) n d.saved ∧
    ∀ config ∈ d.watch.phase.config?, ∃ m, n ≤ m ∧
      SavedAt base opening (mutations lib d.calls) m config

variable {base : DnsConfig} {opening : RuleMaps} {least : Nat}

theorem Recorded.frame {d d' : Daemon Key} (h : d.Recorded lib base opening least)
    (hw : d'.watch = d.watch) (hs : d'.saved = d.saved)
    (hp : mutations lib d.calls <+: mutations lib d'.calls)
    (hm : d'.state.store.inner.toMaps.persistent =
      (opening.replay (mutations lib d'.calls)).persistent) :
    d'.Recorded lib base opening least := by
  obtain ⟨n,hleast,hsaved,hstoring⟩ := h.saved
  refine ⟨hm,n,hleast,?_,?_⟩
  · rw [hs]
    exact hsaved.extend hp
  · intro config hc
    rw [hw] at hc
    obtain ⟨m,hle,hat⟩ := hstoring config hc
    exact ⟨m,hle,hat.extend hp⟩

theorem Recorded.sameRules {d d' : Daemon Key} (h : d.Recorded lib base opening least)
    (hr : SameRules d d') (hw : d'.watch = d.watch) (hs : d'.saved = d.saved) :
    d'.Recorded lib base opening least := by
  refine h.frame hw hs ?_ ?_
  · rw [hr.calls]
  · rw [hr.store, hr.calls]
    exact h.maps

theorem Recorded.accept {d : Daemon Key} (h : d.Recorded lib base opening least)
    (order : IterationOrder String DnsRule) (request : IpcRequest) :
    (d.accept lib order request).Recorded lib base opening least := by
  have hmaps := d.state.toMaps_accept lib order request
  have hcalls : mutations lib (d.accept lib order request).calls =
      mutations lib d.calls ++ (request.mutation lib).toList := mutations_append _ _ _
  refine h.frame rfl rfl ?_ ?_
  · rw [hcalls]
    exact List.prefix_append _ _
  · rw [hcalls, RuleMaps.replay_append]
    change (d.state.accept lib order request).1.store.inner.toMaps.persistent = _
    rw [hmaps]
    cases request.mutation lib with
    | none => exact h.maps
    | some m => exact RuleMaps.persistent_mutate h.maps m

theorem Recorded.proceed {d d' : Daemon Key} {i : Nat} (h : d.Recorded lib base opening least)
    (hd : Proceeded d i d') : d'.Recorded lib base opening least := by
  have hops : mutations lib d'.calls = mutations lib d.calls :=
    congrArg (List.filterMap (IpcRequest.mutation lib)) hd.requests
  have hmaps := h.maps
  rw [← hops] at hmaps
  have hprefix : mutations lib d.calls <+: mutations lib d'.calls := hops ▸ List.prefix_rfl
  cases hd with
  | announcing call event hi hs => exact h.frame rfl rfl hprefix hmaps
  | stopping call hi hs => exact h.frame rfl rfl hprefix hmaps
  | cancelling call hi hs => exact h.frame rfl rfl hprefix hmaps
  | idle => exact h

theorem Recorded.settled {d d' : Daemon Key} (h : d.Recorded lib base opening least)
    (hr : SameRules d d') (hs : d'.saved = d.saved) (hw : d'.watch.phase.config? = none) :
    d'.Recorded lib base opening least := by
  obtain ⟨n,hleast,hsaved,-⟩ := h.saved
  refine ⟨?_,n,hleast,?_,?_⟩
  · rw [hr.store, hr.calls]
    exact h.maps
  · rw [hs, hr.calls]
    exact hsaved
  · rw [hw]
    exact nofun

theorem Recorded.storeFailed {d : Daemon Key} (h : d.Recorded lib base opening least) :
    d.storeFailed.Recorded lib base opening least := by
  rw [Daemon.storeFailed]
  split
  · exact h.settled ⟨rfl,rfl⟩ rfl rfl
  · exact h

theorem Recorded.snapshot {d : Daemon Key} (h : d.Recorded lib base opening least)
    (order : IterationOrder String DnsRule) :
    SavedAt base opening (mutations lib d.calls) (mutations lib d.calls).length
      (d.state.save order) := by
  refine ⟨Nat.le_refl _,.inr ?_⟩
  rw [List.take_length, (records_save order d.state).restored]
  exact h.maps

theorem Recorded.watch {d d' : Daemon Key} {action : WatchAction}
    (h : d.Recorded lib base opening least) (hd : Watched d action d') :
    d'.Recorded lib base opening least := by
  cases hd with
  | subscribe hp => exact h.settled ⟨rfl,rfl⟩ rfl rfl
  | received event next hp hr => exact h.settled ⟨rfl,rfl⟩ rfl rfl
  | lagged missed next hp hr => exact h.settled ⟨rfl,rfl⟩ rfl rfl
  | leave hp hc => exact h.settled ⟨rfl,rfl⟩ rfl rfl
  | invalidate event hp =>
    refine h.settled ⟨rfl,rfl⟩ rfl ?_
    cases event.isPersistent <;> rfl
  | snapshot order hp =>
    obtain ⟨n,hleast,hsaved,-⟩ := h.saved
    refine ⟨h.maps,n,hleast,hsaved,fun config hc => ?_⟩
    obtain rfl := Option.some.inj hc
    exact ⟨_,hsaved.le,h.snapshot order⟩
  | store config hp =>
    obtain ⟨n,hleast,-,hstoring⟩ := h.saved
    obtain ⟨m,hle,hat⟩ := hstoring config (by rw [hp]; rfl)
    exact ⟨h.maps,m,hleast.trans hle,hat,nofun⟩
  | idle => exact h

structure SameFile (d d' : Daemon Key) : Prop where
  watch : d'.watch = d.watch
  saved : d'.saved = d.saved

theorem probe_sameFile (d : Daemon Key) (domain : String) : SameFile d (d.probe domain) := by
  rw [probe]
  split <;> exact ⟨rfl,rfl⟩

theorem Advanced.sameFile {d d' : Daemon Key} {i : Nat} (h : Advanced d i d') : SameFile d d' := by
  cases h <;> exact ⟨rfl,rfl⟩

theorem Managed.sameFile {d d' : Daemon Key} {action : ManagerAction} (h : Managed d action d') :
    SameFile d d' := by
  cases h <;> exact ⟨rfl,rfl⟩

theorem Shut.sameFile {d d' : Daemon Key} (h : Shut d d') : SameFile d d' := by
  cases h <;> exact ⟨rfl,rfl⟩

theorem Recorded.unrelated {d d' : Daemon Key} (h : d.Recorded lib base opening least)
    (hr : SameRules d d') (hf : SameFile d d') : d'.Recorded lib base opening least :=
  h.sameRules hr hf.watch hf.saved

theorem Recorded.step {d : Daemon Key} (h : d.Recorded lib base opening least)
    (action : LifeAction) : (d.lifeStep lib action).Recorded lib base opening least := by
  cases action with
  | storeFailed => exact h.storeFailed
  | daemon action =>
    change (d.step lib action).Recorded lib base opening least
    cases action with
    | request order request => exact h.accept order request
    | proceed i => exact h.proceed (d.proceed_cases i)
    | watch action => exact h.watch (d.watch_cases action)
    | probe domain =>
      exact h.unrelated (d.step_sameRules lib rfl) (d.probe_sameFile domain)
    | advance i => exact h.unrelated (d.step_sameRules lib rfl) (d.advance_cases i).sameFile
    | manager action =>
      exact h.unrelated (d.step_sameRules lib rfl) (d.manager_cases action).sameFile
    | signal => exact h.unrelated (d.step_sameRules lib rfl) d.signal_cases.sameFile
    | shutdown => exact h.unrelated (d.step_sameRules lib rfl) d.shutdown_cases.sameFile

theorem Recorded.run {d : Daemon Key} (h : d.Recorded lib base opening least)
    (actions : List LifeAction) :
    (Transition.run (lifeStep lib) d actions).Recorded lib base opening least :=
  Transition.run_invariant _ (fun _ action hd => hd.step action) h actions

theorem launch_persistent (life : Life) (saved : DnsConfig) :
    (launch life.loaded saved : Daemon Key).state.store.inner.toMaps.persistent =
      (life.opening saved.restored).persistent := by
  obtain ⟨loaded,actions⟩ := life
  cases loaded with
  | true => exact start_persistent saved
  | false => rfl

theorem recorded_launch (lib : TextLibrary) (life : Life) (saved : DnsConfig) :
    (launch life.loaded saved : Daemon Key).Recorded lib saved (life.opening saved.restored) 0 :=
  ⟨launch_persistent life saved,0,Nat.le_refl 0,⟨Nat.le_refl 0,.inl ⟨rfl,rfl⟩⟩,nofun⟩

theorem mutations_lifeStep (lib : TextLibrary) (d : Daemon Key) (action : LifeAction) :
    mutations lib (d.lifeStep lib action).calls =
      mutations lib d.calls ++ (action.accepted lib).toList := by
  cases action with
  | storeFailed =>
    rw [lifeStep, storeFailed]
    split <;> exact (List.append_nil _).symm
  | daemon action =>
    change mutations lib (d.step lib action).calls = _
    cases action with
    | request order request => exact mutations_append _ _ _
    | proceed i =>
      have hops := congrArg (List.filterMap (IpcRequest.mutation lib)) (d.proceed_cases i).requests
      exact hops.trans (List.append_nil _).symm
    | _ =>
      rw [(d.step_sameRules lib rfl).calls]
      exact (List.append_nil _).symm

theorem mutations_lifeRun (lib : TextLibrary) (d : Daemon Key) (actions : List LifeAction) :
    mutations lib (run (lifeStep lib) d actions).calls =
      mutations lib d.calls ++ actions.filterMap (LifeAction.accepted lib) := by
  induction actions generalizing d with
  | nil => exact (List.append_nil _).symm
  | cons action actions ih =>
    rw [Transition.run_cons, ih, mutations_lifeStep, List.append_assoc]
    cases hm : action.accepted lib with
    | none => rw [List.filterMap_cons_none hm]; rfl
    | some m => rw [List.filterMap_cons_some hm]; rfl

theorem mutations_live (lib : TextLibrary) (saved : DnsConfig) (loaded : Bool)
    (actions : List LifeAction) :
    mutations lib (live lib saved loaded actions : Daemon Key).calls =
      actions.filterMap (LifeAction.accepted lib) :=
  mutations_lifeRun lib _ actions

theorem live_recovered (lib : TextLibrary) (saved : DnsConfig) (life : Life) :
    let restored := (live lib saved life.loaded life.actions : Daemon Key).saved.restored
    restored = saved.restored ∨ ∃ kept, kept <+: life.accepted lib ∧
      restored = ((life.opening saved.restored).replay kept).persistent := by
  intro restored
  have hrecorded : (live lib saved life.loaded life.actions : Daemon Key).Recorded lib saved
      (life.opening saved.restored) 0 := (recorded_launch lib life saved).run life.actions
  obtain ⟨n,-,hat,-⟩ := hrecorded.saved
  rcases hat.restored with ⟨-,hbase⟩ | hreplayed
  · exact .inl (congrArg DnsConfig.restored hbase)
  · refine .inr ⟨_,?_,hreplayed⟩
    rw [mutations_live]
    exact List.take_prefix n _

theorem lives_recovered (lib : TextLibrary) (saved : DnsConfig) (ls : List Life) :
    Recovered lib saved.restored ls (lives Key lib saved ls).restored := by
  induction ls generalizing saved with
  | nil => rfl
  | cons life rest ih =>
    exact ⟨_,live_recovered lib saved life,ih _⟩

theorem live_saved_forward (lib : TextLibrary) (saved : DnsConfig) (loaded : Bool)
    (before after : List LifeAction) :
    let life : Life := ⟨loaded, before ++ after⟩
    let point := SavedAt saved (life.opening saved.restored) (life.accepted lib)
    ∃ n m, n ≤ m ∧ point n (live lib saved loaded before : Daemon Key).saved ∧
      point m (live lib saved loaded life.actions : Daemon Key).saved := by
  intro life point
  have hearly : (live lib saved loaded before : Daemon Key).Recorded lib saved
      (life.opening saved.restored) 0 := (recorded_launch lib life saved).run before
  obtain ⟨n,-,hn,hstoring⟩ := hearly.saved
  have hmiddle : (live lib saved loaded before : Daemon Key).Recorded lib saved
      (life.opening saved.restored) n := ⟨hearly.maps,n,Nat.le_refl n,hn,hstoring⟩
  obtain ⟨m,hle,hm,-⟩ := (hmiddle.run after).saved
  have hwhole : run (lifeStep lib) (live lib saved loaded before : Daemon Key) after =
      live lib saved loaded life.actions := (Transition.run_append _ _ before after).symm
  refine ⟨n,m,hle,hn.extend ?_,?_⟩
  · rw [mutations_live, Life.accepted, List.filterMap_append]
    exact List.prefix_append _ _
  · rw [hwhole, mutations_live] at hm
    exact hm

theorem crashes_restore_prefixes (Key : Type) (lib : TextLibrary) (saved : DnsConfig)
    (ls : List Life) :
    Recovered lib saved.restored ls (lives Key lib saved ls).restored ∧
    ∀ (loaded : Bool) (before after : List LifeAction),
      let life : Life := ⟨loaded, before ++ after⟩
      let point := SavedAt saved (life.opening saved.restored) (life.accepted lib)
      ∃ n m, n ≤ m ∧ point n (live lib saved loaded before : Daemon Key).saved ∧
        point m (live lib saved loaded life.actions : Daemon Key).saved :=
  ⟨lives_recovered lib saved ls,live_saved_forward lib saved⟩

end Daemon

end SideDns
