import SideDns.Dns.Configurator
import SideDns.Dns.Manager
import SideDns.Library.ManagedRegion

namespace SideDns

open FiniteMap (HashMap)
open Managed (Configurator)

namespace SystemdConfigurator

inductive Place where
  | dropIn
  | running
  deriving DecidableEq, Repr

structure System where
  dropIn : Option (List UInt8)
  running : Option (List UInt8)
  others : HashMap String (List UInt8)

structure Systemctl where
  reloadOrRestart : Bool → Option (List UInt8) → Option (List UInt8) → Option (List UInt8) → Prop

structure Systemctl.Documented (systemctl : Systemctl) : Prop where
  reloaded : ∀ {dropIn running running'},
    systemctl.reloadOrRestart true dropIn running running' → running' = dropIn
  failed : ∀ {dropIn running running'},
    systemctl.reloadOrRestart false dropIn running running' →
      running' = running ∨ running' = dropIn ∨ running' = none

def text (domains : List String) : List UInt8 := Utf8.bytes (apply domains)

inductive Applied (systemctl : Systemctl) (domains : List String) (s : System) :
    Bool → System → Prop where
  | unwritten : Applied systemctl domains s false s
  | torn (length : Nat) :
      Applied systemctl domains s false { s with dropIn := some ((text domains).take length) }
  | written (succeeded : Bool) (running : Option (List UInt8))
      (h : systemctl.reloadOrRestart succeeded (some (text domains)) s.running running) :
      Applied systemctl domains s succeeded
        { s with dropIn := some (text domains), running := running }

inductive Reverted (systemctl : Systemctl) (s : System) : Bool → System → Prop where
  | unremoved : Reverted systemctl s false s
  | removed (succeeded : Bool) (running : Option (List UInt8))
      (h : systemctl.reloadOrRestart succeeded none s.running running) :
      Reverted systemctl s succeeded { s with dropIn := none, running := running }

def present (s : System) : Set (Place × List UInt8) :=
  {e | (e.1 = .dropIn ∧ s.dropIn = some e.2) ∨ (e.1 = .running ∧ s.running = some e.2)}

def configurator (systemctl : Systemctl) :
    Configurator System (HashMap String (List UInt8)) (Place × List UInt8) (List String) where
  foreign := System.others
  entries := present
  wanted domains := {e | e.2 = text domains}
  partly domains := {e | e.2 <+: text domains}
  apply domains succeeded s s' := Applied systemctl domains s succeeded s'
  revert succeeded s s' := Reverted systemctl s succeeded s'

section

variable {systemctl : Systemctl} {domains : List String} {succeeded : Bool} {s s' : System}

theorem Applied.others (h : Applied systemctl domains s succeeded s') : s'.others = s.others := by
  cases h <;> rfl

theorem Reverted.others (h : Reverted systemctl s succeeded s') : s'.others = s.others := by
  cases h <;> rfl

theorem Applied.present_eq (hd : systemctl.Documented) (h : Applied systemctl domains s true s') :
    present s' = {e | e.2 = text domains} := by
  cases h with
  | written _ running h =>
    obtain rfl := hd.reloaded h
    ext ⟨place,bytes⟩
    cases place <;> simp [present, eq_comm]

theorem Applied.present_subset (hd : systemctl.Documented)
    (h : Applied systemctl domains s false s') :
    present s' ⊆ present s ∪ {e | e.2 <+: text domains} := by
  rintro ⟨place,bytes⟩ he
  cases h with
  | unwritten => exact .inl he
  | torn length =>
    rcases he with ⟨hplace,hbytes⟩ | hrunning
    · obtain rfl := Option.some.inj hbytes
      exact .inr (List.take_prefix length _)
    · exact .inl (.inr hrunning)
  | written _ running h =>
    rcases he with ⟨-,hbytes⟩ | ⟨hplace,hbytes⟩
    · obtain rfl := Option.some.inj hbytes
      exact .inr List.prefix_rfl
    · rcases hd.failed h with rfl | rfl | rfl
      · exact .inl (.inr ⟨hplace,hbytes⟩)
      · obtain rfl := Option.some.inj hbytes
        exact .inr List.prefix_rfl
      · cases hbytes

theorem Reverted.present_eq (hd : systemctl.Documented) (h : Reverted systemctl s true s') :
    present s' = ∅ := by
  cases h with
  | removed _ running h =>
    obtain rfl := hd.reloaded h
    ext ⟨place,bytes⟩
    simp [present]

theorem Reverted.present_subset (hd : systemctl.Documented) (h : Reverted systemctl s false s') :
    present s' ⊆ present s := by
  rintro ⟨place,bytes⟩ he
  cases h with
  | unremoved => exact he
  | removed _ running h =>
    rcases he with ⟨-,hbytes⟩ | ⟨hplace,hbytes⟩
    · cases hbytes
    · rcases hd.failed h with rfl | rfl | rfl
      · exact .inr ⟨hplace,hbytes⟩
      · cases hbytes
      · cases hbytes

end

theorem configurator_lawful {systemctl : Systemctl} (hd : systemctl.Documented) :
    (configurator systemctl).Lawful where
  apply_foreign := fun h => h.others
  revert_foreign := fun h => h.others
  apply_done := fun h => h.present_eq hd
  apply_failed := fun h => h.present_subset hd
  revert_done := fun h => h.present_eq hd
  revert_failed := fun h => h.present_subset hd
  wanted_partly := by
    rintro domains e he
    have htext : e.2 = text domains := he
    change e.2 <+: text domains
    rw [htext]

end SystemdConfigurator

namespace WindowsNrptConfigurator

structure NrptRule where
  nameSpace : String
  nameServers : String
  comment : String
  deriving DecidableEq, Repr

abbrev NrptTable := List NrptRule

def nrptRule (domain : String) : NrptRule := ⟨nrptNamespace domain, dnsIp, comment⟩

section

variable (tagged : String → Bool)

def removeSome (survives : NrptRule → Bool) (table : NrptTable) : NrptTable :=
  table.filter fun rule => !tagged rule.comment || survives rule

def removeAllRules (table : NrptTable) : NrptTable :=
  table.filter fun rule => !tagged rule.comment

def present (table : NrptTable) : Set NrptRule :=
  {rule | rule ∈ table ∧ tagged rule.comment = true}

end

structure PowerShell where
  commentEq : String → Bool
  removeRules : Bool → NrptTable → NrptTable → Prop
  addRule : NrptRule → Bool → NrptTable → NrptTable → Prop

structure PowerShell.Documented (shell : PowerShell) : Prop where
  commentEq_self : shell.commentEq comment = true
  removed : ∀ {table table'}, shell.removeRules true table table' →
    table' = removeAllRules shell.commentEq table
  removeFailed : ∀ {table table'}, shell.removeRules false table table' →
    ∃ survives, table' = removeSome shell.commentEq survives table
  added : ∀ {rule table table'}, shell.addRule rule true table table' → table' = table ++ [rule]
  addFailed : ∀ {rule table table'}, shell.addRule rule false table table' →
    table' = table ∨ table' = table ++ [rule]

inductive Added (shell : PowerShell) : List String → NrptTable → Bool → NrptTable → Prop where
  | nil (table : NrptTable) : Added shell [] table true table
  | failed {domain : String} {rest : List String} {table table' : NrptTable}
      (h : shell.addRule (nrptRule domain) false table table') :
      Added shell (domain :: rest) table false table'
  | cons {domain : String} {rest : List String} {table table' table'' : NrptTable}
      {succeeded : Bool} (h : shell.addRule (nrptRule domain) true table table')
      (hrest : Added shell rest table' succeeded table'') :
      Added shell (domain :: rest) table succeeded table''

inductive Applied (shell : PowerShell) (domains : List String) (table : NrptTable) :
    Bool → NrptTable → Prop where
  | unremoved {table' : NrptTable} (h : shell.removeRules false table table') :
      Applied shell domains table false table'
  | removed {table' table'' : NrptTable} {succeeded : Bool}
      (h : shell.removeRules true table table')
      (ha : Added shell domains table' succeeded table'') :
      Applied shell domains table succeeded table''

def configurator (shell : PowerShell) :
    Configurator NrptTable NrptTable NrptRule (List String) where
  foreign := removeAllRules shell.commentEq
  entries := present shell.commentEq
  wanted domains := {rule | rule ∈ domains.map nrptRule}
  partly domains := {rule | rule ∈ domains.map nrptRule}
  apply domains succeeded table table' := Applied shell domains table succeeded table'
  revert succeeded table table' := shell.removeRules succeeded table table'

theorem Added.appended {shell : PowerShell} (hd : shell.Documented) {domains : List String}
    {table table' : NrptTable} {succeeded : Bool} (h : Added shell domains table succeeded table') :
    ∃ added, table' = table ++ (domains.take added).map nrptRule ∧
      (succeeded = true → domains.take added = domains) := by
  induction h with
  | nil table => exact ⟨0,by simp,fun _ => rfl⟩
  | @failed domain rest table table' h =>
    rcases hd.addFailed h with rfl | rfl
    · exact ⟨0,by simp,by simp⟩
    · exact ⟨1,by simp,by simp⟩
  | @cons domain rest table table' table'' succeeded h _ ih =>
    obtain rfl := hd.added h
    obtain ⟨added,rfl,hall⟩ := ih
    refine ⟨added + 1,by simp,fun hs => ?_⟩
    rw [List.take_succ_cons, hall hs]

section

variable {tagged : String → Bool}

theorem removeAllRules_idem (table : NrptTable) :
    removeAllRules tagged (removeAllRules tagged table) = removeAllRules tagged table := by
  simp [removeAllRules, List.filter_filter]

theorem removeAllRules_removeSome (survives : NrptRule → Bool) (table : NrptTable) :
    removeAllRules tagged (removeSome tagged survives table) = removeAllRules tagged table := by
  simp only [removeAllRules, removeSome, List.filter_filter]
  refine List.filter_congr fun rule _ => ?_
  cases tagged rule.comment <;> rfl

theorem removeAllRules_added (htag : tagged comment = true) (table : NrptTable)
    (domains : List String) :
    removeAllRules tagged (removeAllRules tagged table ++ domains.map nrptRule) =
      removeAllRules tagged table := by
  have hnone : removeAllRules tagged (domains.map nrptRule) = [] := by
    refine List.filter_eq_nil_iff.mpr fun rule hr => ?_
    obtain ⟨domain,-,rfl⟩ := List.mem_map.mp hr
    simp [nrptRule, htag]
  have hsplit := List.filter_append (p := fun rule : NrptRule => !tagged rule.comment)
    (removeAllRules tagged table) (domains.map nrptRule)
  refine hsplit.trans ?_
  change removeAllRules tagged (removeAllRules tagged table) ++
    removeAllRules tagged (domains.map nrptRule) = _
  rw [removeAllRules_idem, hnone, List.append_nil]

theorem mem_present_added (htag : tagged comment = true) (table : NrptTable)
    (domains : List String) (rule : NrptRule) :
    rule ∈ present tagged (removeAllRules tagged table ++ domains.map nrptRule) ↔
      rule ∈ domains.map nrptRule := by
  constructor
  · rintro ⟨hmem,hcomment⟩
    rcases List.mem_append.mp hmem with hkept | hadded
    · have hforeign := (List.mem_filter.mp hkept).2
      rw [hcomment] at hforeign
      cases hforeign
    · exact hadded
  · intro hadded
    obtain ⟨domain,-,rfl⟩ := List.mem_map.mp hadded
    exact ⟨List.mem_append_right _ hadded,htag⟩

theorem present_removeSome (survives : NrptRule → Bool) (table : NrptTable) :
    present tagged (removeSome tagged survives table) ⊆ present tagged table :=
  fun _ he => ⟨(List.mem_filter.mp he.1).1,he.2⟩

theorem present_removeAllRules (table : NrptTable) :
    present tagged (removeAllRules tagged table) = ∅ := by
  refine Set.eq_empty_iff_forall_notMem.mpr ?_
  rintro rule ⟨hmem,hcomment⟩
  have hforeign := (List.mem_filter.mp hmem).2
  rw [hcomment] at hforeign
  cases hforeign

end

section

variable {shell : PowerShell} {domains : List String} {succeeded : Bool} {table table' : NrptTable}

theorem PowerShell.Documented.removeRules_foreign (hd : shell.Documented)
    (h : shell.removeRules succeeded table table') :
    removeAllRules shell.commentEq table' = removeAllRules shell.commentEq table := by
  cases succeeded with
  | true =>
    obtain rfl := hd.removed h
    exact removeAllRules_idem table
  | false =>
    obtain ⟨survives,rfl⟩ := hd.removeFailed h
    exact removeAllRules_removeSome survives table

theorem PowerShell.Documented.present_removed (hd : shell.Documented)
    (h : shell.removeRules true table table') : present shell.commentEq table' = ∅ := by
  obtain rfl := hd.removed h
  exact present_removeAllRules table

theorem PowerShell.Documented.present_removeFailed (hd : shell.Documented)
    (h : shell.removeRules false table table') :
    present shell.commentEq table' ⊆ present shell.commentEq table := by
  obtain ⟨survives,rfl⟩ := hd.removeFailed h
  exact present_removeSome survives table

theorem Applied.foreign (hd : shell.Documented) (h : Applied shell domains table succeeded table') :
    removeAllRules shell.commentEq table' = removeAllRules shell.commentEq table := by
  cases h with
  | unremoved h => exact hd.removeRules_foreign h
  | removed h ha =>
    obtain rfl := hd.removed h
    obtain ⟨added,rfl,-⟩ := ha.appended hd
    exact removeAllRules_added hd.commentEq_self table (domains.take added)

theorem Applied.present_eq (hd : shell.Documented) (h : Applied shell domains table true table') :
    present shell.commentEq table' = {rule | rule ∈ domains.map nrptRule} := by
  cases h with
  | removed h ha =>
    obtain rfl := hd.removed h
    obtain ⟨added,rfl,hall⟩ := ha.appended hd
    rw [hall rfl]
    exact Set.ext fun rule => mem_present_added hd.commentEq_self table domains rule

theorem Applied.present_subset (hd : shell.Documented)
    (h : Applied shell domains table false table') :
    present shell.commentEq table' ⊆
      present shell.commentEq table ∪ {rule | rule ∈ domains.map nrptRule} := by
  intro rule he
  cases h with
  | unremoved h => exact .inl (hd.present_removeFailed h he)
  | removed h ha =>
    obtain rfl := hd.removed h
    obtain ⟨added,rfl,-⟩ := ha.appended hd
    have hadded :=
      (mem_present_added hd.commentEq_self table (domains.take added) rule).mp he
    obtain ⟨domain,hdomain,rfl⟩ := List.mem_map.mp hadded
    exact .inr (List.mem_map_of_mem (List.mem_of_mem_take hdomain))

end

theorem configurator_lawful {shell : PowerShell} (hd : shell.Documented) :
    (configurator shell).Lawful where
  apply_foreign := fun h => h.foreign hd
  revert_foreign := fun h => hd.removeRules_foreign h
  apply_done := fun h => h.present_eq hd
  apply_failed := fun h => h.present_subset hd
  revert_done := fun h => hd.present_removed h
  revert_failed := fun h => hd.present_removeFailed h
  wanted_partly := fun _ => subset_rfl

end WindowsNrptConfigurator

def SystemCall.toCall : SystemCall → Managed.Call (List String)
  | apply domains succeeded => .apply domains succeeded
  | revert succeeded => .revert succeeded

inductive Interleaves : List SystemCall → List SystemCall → Prop where
  | nil : Interleaves [] []
  | own {own all : List SystemCall} (call : SystemCall) (h : Interleaves own all) :
      Interleaves (own ++ [call]) (all ++ [call])
  | clean {own all : List SystemCall} (succeeded : Bool) (h : Interleaves own all) :
      Interleaves own (all ++ [.revert succeeded])

namespace Interleaves

def OnlyCleans (calls : List SystemCall) : Prop :=
  ∀ call ∈ calls, ∃ succeeded, call = .revert succeeded

theorem onlyCleans_append {calls calls' : List SystemCall} :
    OnlyCleans (calls ++ calls') ↔ OnlyCleans calls ∧ OnlyCleans calls' :=
  List.forall_mem_append

theorem onlyCleans_clean (succeeded : Bool) : OnlyCleans [.revert succeeded] := by
  intro call hc
  exact ⟨succeeded,List.mem_singleton.mp hc⟩

theorem last {own all before : List SystemCall} {call : SystemCall} (h : Interleaves own all)
    (hown : own = before ++ [call]) :
    ∃ earlier cleans, all = earlier ++ call :: cleans ∧ OnlyCleans cleans := by
  induction h with
  | nil => exact absurd hown (by simp)
  | @own own all call' _ _ =>
    obtain ⟨-,rfl⟩ := List.append_singleton_inj.mp hown
    exact ⟨all,[],rfl,by simp [OnlyCleans]⟩
  | @clean own all succeeded _ ih =>
    obtain ⟨earlier,cleans,rfl,hcleans⟩ := ih hown
    refine ⟨earlier,cleans ++ [.revert succeeded],by simp,?_⟩
    exact onlyCleans_append.mpr ⟨hcleans,onlyCleans_clean succeeded⟩

theorem first {own all after : List SystemCall} {call : SystemCall} (h : Interleaves own all)
    (hown : own = call :: after) :
    ∃ cleans rest, all = cleans ++ call :: rest ∧
      ∀ domains succeeded, .apply domains succeeded ∈ rest → .apply domains succeeded ∈ after := by
  induction h generalizing after with
  | nil => cases hown
  | @own own all last h ih =>
    cases own with
    | nil =>
      obtain ⟨rfl,rfl⟩ := List.cons.inj hown
      exact ⟨all,[],rfl,by simp⟩
    | cons first own =>
      obtain ⟨rfl,rfl⟩ := List.cons.inj hown
      obtain ⟨cleans,rest,rfl,happlies⟩ := ih rfl
      refine ⟨cleans,rest ++ [last],by simp,?_⟩
      intro domains succeeded hmem
      exact List.mem_append.mpr
        ((List.mem_append.mp hmem).imp (happlies domains succeeded) id)
  | @clean own all succeeded _ ih =>
    obtain ⟨cleans,rest,rfl,happlies⟩ := ih hown
    refine ⟨cleans,rest ++ [.revert succeeded],by simp,?_⟩
    intro domains applied hmem
    exact happlies domains applied (by simpa using hmem)

end Interleaves

inductive Tenure.Event where
  | manager (input : ManagerInput)
  | clean (succeeded : Bool)
  deriving DecidableEq, Repr

structure Tenure where
  manager : Manager
  calls : List SystemCall
  deriving DecidableEq, Repr

namespace Tenure

def start : Tenure := ⟨.start, []⟩

def step (t : Tenure) : Tenure.Event → Tenure
  | .manager input =>
      let m := t.manager.step input
      ⟨m, t.calls ++ m.calls.drop t.manager.calls.length⟩
  | .clean succeeded => { t with calls := t.calls ++ [.revert succeeded] }

def live (events : List Tenure.Event) : Tenure := Transition.run step start events

end Tenure

namespace Manager

theorem Step.calls {m m' : Manager} {input : ManagerInput} (h : Step m input m') :
    m'.calls = m.calls ∨ ∃ call, m'.calls = m.calls ++ [call] := by
  cases h with
  | clean _ _ => exact .inr ⟨_,rfl⟩
  | applied _ _ => exact .inr ⟨_,rfl⟩
  | failed _ _ => exact .inr ⟨_,rfl⟩
  | revert _ _ => exact .inr ⟨_,rfl⟩
  | _ => exact .inl rfl

def Waited (m : Manager) : Prop :=
  m.phase = .waiting → ∃ before domains, m.calls = before ++ [.apply domains true]

theorem Step.waited {m m' : Manager} {input : ManagerInput} (h : Step m input m')
    (hm : m.Waited) : m'.Waited := by
  cases h with
  | applied domains hp => exact fun _ => ⟨m.calls,domains,rfl⟩
  | ignored event next hp he => exact fun _ => hm hp
  | lagged missed next hp => exact fun _ => hm hp
  | idle _ _ => exact hm
  | _ =>
    intro hp
    cases hp

end Manager

namespace Tenure

structure Sound (t : Tenure) : Prop where
  waited : t.manager.Waited
  interleaves : Interleaves t.manager.calls t.calls

theorem sound_start : start.Sound := by
  refine ⟨?_,.nil⟩
  intro hp
  cases hp

theorem Sound.step {t : Tenure} (h : t.Sound) (event : Tenure.Event) : (t.step event).Sound := by
  cases event with
  | manager input =>
    have hstep := t.manager.step_cases input
    refine ⟨hstep.waited h.waited,?_⟩
    simp only [Tenure.step]
    rcases hstep.calls with hsame | ⟨call,hcall⟩
    · rw [hsame, List.drop_length, List.append_nil]
      exact h.interleaves
    · rw [hcall, List.drop_left]
      exact .own call h.interleaves
  | clean succeeded => exact ⟨h.waited,.clean succeeded h.interleaves⟩

theorem sound_live (events : List Tenure.Event) : (live events).Sound :=
  Transition.run_invariant Sound (fun _ event h => h.step event) sound_start events

end Tenure

inductive Episode where
  | daemon (events : List Tenure.Event)
  | clean (succeeded : Bool)
  deriving DecidableEq, Repr

namespace Episode

def calls : Episode → List SystemCall
  | daemon events => (Tenure.live events).calls
  | clean succeeded => [.revert succeeded]

def history (episodes : List Episode) : List (Managed.Call (List String)) :=
  (episodes.flatMap calls).map SystemCall.toCall

theorem history_append (episodes : List Episode) (last : Episode) :
    history (episodes ++ [last]) = history episodes ++ last.calls.map SystemCall.toCall := by
  simp [history]

end Episode

def Restores {σ φ ε : Type} (C : Configurator σ φ ε (List String)) : Prop :=
  ∀ (episodes : List Episode) (last : Episode) (s s' : σ),
    C.Runs s (Episode.history (episodes ++ [last])) s' →
    C.foreign s' = C.foreign s ∧
    C.entries s' ⊆ C.entries s ∪ C.Touched (Episode.history (episodes ++ [last])) ∧
    match last with
    | .clean succeeded => succeeded = true → C.entries s' = ∅
    | .daemon events =>
      let t := Tenure.live events
      (t.manager.phase = .waiting →
        ∃ before domains, t.manager.calls = before ++ [.apply domains true] ∧
          C.entries s' ⊆ C.wanted domains ∧
          (t.calls.getLast? = some (.apply domains true) → C.entries s' = C.wanted domains)) ∧
      (∀ before, t.manager.calls = before ++ [.revert true] → C.entries s' = ∅) ∧
      (∀ after, t.manager.calls = .revert true :: after →
        C.entries s' ⊆ C.Touched (after.map SystemCall.toCall))

section

variable {σ φ ε : Type} {C : Configurator σ φ ε (List String)}

theorem bound_cleans {region : Set ε} {cleans : List SystemCall}
    (h : Interleaves.OnlyCleans cleans) :
    C.bound region (cleans.map SystemCall.toCall) ⊆ region := by
  refine Configurator.bound_reverts ?_
  intro call hc
  obtain ⟨made,hmade,rfl⟩ := List.mem_map.mp hc
  obtain ⟨succeeded,rfl⟩ := h made hmade
  exact ⟨succeeded,rfl⟩

theorem bound_last {before : Set ε} {past : List (Managed.Call (List String))}
    {earlier cleans : List SystemCall} {call : SystemCall} (h : Interleaves.OnlyCleans cleans) :
    C.bound before (past ++ (earlier ++ call :: cleans).map SystemCall.toCall) ⊆
      C.bound (C.bound before (past ++ earlier.map SystemCall.toCall)) [call.toCall] := by
  rw [List.map_append, List.map_cons, ← List.append_assoc, ← List.singleton_append,
    ← List.append_assoc, Configurator.bound_append, Configurator.bound_append]
  exact bound_cleans h

theorem touched_mono {calls calls' : List SystemCall}
    (h : ∀ domains succeeded,
      .apply domains succeeded ∈ calls → .apply domains succeeded ∈ calls') :
    C.Touched (calls.map SystemCall.toCall) ⊆ C.Touched (calls'.map SystemCall.toCall) := by
  rintro e ⟨domains,succeeded,hmem,he⟩
  obtain ⟨call,hcall,heq⟩ := List.mem_map.mp hmem
  cases call with
  | apply domains' succeeded' =>
    obtain ⟨rfl,rfl⟩ := Managed.Call.apply.inj heq
    exact ⟨domains',succeeded',List.mem_map.mpr ⟨_,h _ _ hcall,rfl⟩,he⟩
  | revert _ => cases heq

theorem restores_of_lawful (hC : C.Lawful) : Restores C := by
  intro episodes last s s' hrun
  have hbound := hrun.entries_subset hC
  refine ⟨hrun.foreign hC,hbound.trans (Configurator.bound_touched hC _ _),?_⟩
  rw [Episode.history_append] at hrun hbound
  cases last with
  | clean succeeded =>
    rintro rfl
    exact hrun.reverted hC
  | daemon events =>
    have hsound := Tenure.sound_live events
    refine ⟨fun hp => ?_,fun before hcalls => ?_,fun after hcalls => ?_⟩
    · obtain ⟨before,domains,hcalls⟩ := hsound.waited hp
      obtain ⟨earlier,cleans,hall,hcleans⟩ := hsound.interleaves.last hcalls
      refine ⟨before,domains,hcalls,?_,fun hlast => ?_⟩
      · rw [Episode.calls, hall] at hbound
        exact hbound.trans (bound_last hcleans)
      · obtain ⟨front,hfront⟩ := List.getLast?_eq_some_iff.mp hlast
        rw [Episode.calls, hfront, List.map_append, ← List.append_assoc] at hrun
        exact hrun.applied hC
    · obtain ⟨earlier,cleans,hall,hcleans⟩ := hsound.interleaves.last hcalls
      rw [Episode.calls, hall] at hbound
      exact Set.subset_empty_iff.mp (hbound.trans (bound_last hcleans))
    · obtain ⟨cleans,rest,hall,happlies⟩ := hsound.interleaves.first hcalls
      rw [Episode.calls, hall, List.map_append, List.map_cons, ← List.append_assoc,
        Configurator.bound_append] at hbound
      have htouched := Configurator.bound_touched hC ∅ (rest.map SystemCall.toCall)
      rw [Set.empty_union] at htouched
      exact (hbound.trans htouched).trans (touched_mono happlies)

end

theorem system_dns_restored :
    (∀ systemctl : SystemdConfigurator.Systemctl, systemctl.Documented →
      Restores (SystemdConfigurator.configurator systemctl)) ∧
    ∀ shell : WindowsNrptConfigurator.PowerShell, shell.Documented →
      Restores (WindowsNrptConfigurator.configurator shell) :=
  ⟨fun _ hd => restores_of_lawful (SystemdConfigurator.configurator_lawful hd),
    fun _ hd => restores_of_lawful (WindowsNrptConfigurator.configurator_lawful hd)⟩

namespace WindowsNrptConfigurator

def sampleShell : PowerShell where
  commentEq text := text == comment
  removeRules succeeded table table' :=
    table' = if succeeded then removeAllRules (fun text => text == comment) table else table
  addRule rule succeeded table table' := table' = if succeeded then table ++ [rule] else table

theorem sampleShell_documented : sampleShell.Documented where
  commentEq_self := by decide
  removed := fun h => h
  removeFailed := by
    rintro table table' rfl
    exact ⟨fun _ => true,by simp [removeSome]⟩
  added := fun h => h
  addFailed := fun h => .inl h

def corporate : NrptRule := ⟨".corp.test", "10.0.0.53", "corporate"⟩

end WindowsNrptConfigurator

def failedStart : Episode :=
  .daemon [.manager (.revert true), .manager (.subscribe 0),
    .manager (.snapshot ["a.test", "b.test"]), .manager (.apply false)]

theorem commented_rules_restored :
    let C := WindowsNrptConfigurator.configurator WindowsNrptConfigurator.sampleShell
    let table := [WindowsNrptConfigurator.corporate]
    (∃ halfway, C.Runs table (Episode.history [failedStart]) halfway ∧
      WindowsNrptConfigurator.nrptRule "a.test" ∈ C.entries halfway) ∧
    ∃ restored, C.Runs table (Episode.history ([failedStart] ++ [.clean true])) restored ∧
      C.foreign restored = C.foreign table ∧ C.entries restored = ∅ := by
  intro C table
  have hadded : WindowsNrptConfigurator.Applied WindowsNrptConfigurator.sampleShell
      ["a.test", "b.test"] table false (table ++ [WindowsNrptConfigurator.nrptRule "a.test"]) :=
    .removed (by decide : table = _) (.cons rfl (.failed rfl))
  have hfailed : C.Runs table (Episode.history [failedStart])
      (table ++ [WindowsNrptConfigurator.nrptRule "a.test"]) :=
    .apply (.revert .nil (by decide : table = _)) hadded
  have hcleaned : C.Runs table (Episode.history ([failedStart] ++ [.clean true])) table :=
    .revert hfailed (by decide : table = _)
  obtain ⟨hforeign,-,hempty⟩ :=
    system_dns_restored.2 _ WindowsNrptConfigurator.sampleShell_documented [failedStart]
      (.clean true) table table hcleaned
  refine ⟨⟨_,hfailed,?_⟩,table,hcleaned,hforeign,hempty rfl⟩
  exact ⟨List.mem_append_right _ (List.mem_singleton_self _),by decide⟩

end SideDns
