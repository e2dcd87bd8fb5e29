import SideDns.Library.Rcu
import SideDns.Store.Refinement

namespace SideDns

open FiniteMap (IterationOrder)

inductive StoreCall where
  | add (rule : DnsRule)
  | addAll (rules : List DnsRule)
  | addEphemeral (rule : DnsRule)
  | remove (domain : String)
  | removeEphemeral (domain : String)
  | resolve (domain : String)
  | snapshotPersistent (order : IterationOrder String DnsRule)
  | snapshotAll (ephemeralOrder persistentOrder : IterationOrder String DnsRule)
  | len

inductive StoreReply where
  | rule (rule : DnsRule)
  | count (n : Nat)
  | removed (rule : Option DnsRule)
  | resolved (rule : Option DnsRule)
  | rules (rules : List DnsRule)
  deriving DecidableEq, Repr

namespace StoreCall

def operation : StoreCall → Rcu.Operation InnerRuleStore (Option DnsRule) StoreReply
  | add rule =>
      .update none (fun current removed => (current.add rule, removed)) (fun _ => .rule rule)
  | addAll rules =>
      .update none (fun current removed => (current.addAll rules, removed))
        (fun _ => .count rules.length)
  | addEphemeral rule =>
      .update none (fun current removed => (current.addEphemeral rule, removed))
        (fun _ => .rule rule)
  | remove domain => .update none (fun current _ => current.remove domain) .removed
  | removeEphemeral domain =>
      .update none (fun current _ => current.removeEphemeral domain) .removed
  | resolve domain => .observe (fun current => .resolved (current.resolve domain))
  | snapshotPersistent order => .observe (fun current => .rules (current.persistentRules order))
  | snapshotAll ephemeralOrder persistentOrder =>
      .observe (fun current => .rules (current.allRules ephemeralOrder persistentOrder))
  | len => .observe (fun current => .count current.len)

def sequential : StoreCall → InnerRuleStore → InnerRuleStore × StoreReply
  | add rule, s => (s.add rule, .rule rule)
  | addAll rules, s => (s.addAll rules, .count rules.length)
  | addEphemeral rule, s => (s.addEphemeral rule, .rule rule)
  | remove domain, s => ((s.remove domain).1, .removed (s.remove domain).2)
  | removeEphemeral domain, s =>
      ((s.removeEphemeral domain).1, .removed (s.removeEphemeral domain).2)
  | resolve domain, s => (s, .resolved (s.resolve domain))
  | snapshotPersistent order, s => (s, .rules (s.persistentRules order))
  | snapshotAll ephemeralOrder persistentOrder, s =>
      (s, .rules (s.allRules ephemeralOrder persistentOrder))
  | len, s => (s, .count s.len)

theorem operation_meaning (c : StoreCall) : c.operation.meaning = c.sequential := by
  cases c <;> rfl

theorem operation_restartable (c : StoreCall) : c.operation.Restartable := by
  cases c <;> simp [operation, Rcu.Operation.Restartable]

end StoreCall

inductive Lifetime where
  | ephemeral
  | persistent
  deriving DecidableEq, Repr

namespace InnerRuleStore

def layer (s : InnerRuleStore) : Lifetime → Layer
  | .ephemeral => s.ephemeral
  | .persistent => s.persistent

def entry (s : InnerRuleStore) (kind : Lifetime) (domain : String) : Option DnsRule :=
  (s.layer kind).toMap.lookup domain

end InnerRuleStore

namespace StoreCall

def puts (kind : Lifetime) (domain : String) : StoreCall → Bool
  | add rule => kind == .persistent && rule.domain == domain
  | addAll rules => kind == .persistent && rules.any (fun r => r.domain == domain)
  | addEphemeral rule => kind == .ephemeral && rule.domain == domain
  | _ => false

def dropping (kind : Lifetime) (domain : String) : StoreCall :=
  match kind with
  | .ephemeral => removeEphemeral domain
  | .persistent => remove domain

theorem sequential_wellFormed {s : InnerRuleStore} (h : s.WellFormed) (c : StoreCall) :
    (c.sequential s).1.WellFormed := by
  cases c with
  | add rule => exact h.add rule
  | addAll rules => exact h.addAll rules
  | addEphemeral rule => exact h.addEphemeral rule
  | remove domain => exact h.remove domain
  | removeEphemeral domain => exact h.removeEphemeral domain
  | _ => exact h

theorem dropping_reply {s : InnerRuleStore} (h : s.WellFormed) (kind : Lifetime)
    (domain : String) :
    ((dropping kind domain).sequential s).2 = .removed (s.entry kind domain) ∧
      ((dropping kind domain).sequential s).1.entry kind domain = none := by
  cases kind with
  | ephemeral =>
    refine ⟨congrArg StoreReply.removed (h.ephemeral.remove_returns domain),?_⟩
    exact (h.ephemeral.lookup_toMap_remove domain domain).trans (if_pos rfl)
  | persistent =>
    refine ⟨congrArg StoreReply.removed (h.persistent.remove_returns domain),?_⟩
    exact (h.persistent.lookup_toMap_remove domain domain).trans (if_pos rfl)

theorem insert_keeps_none {l : Layer} (h : l.WellFormed) {rule : DnsRule} {domain : String}
    (hne : rule.domain ≠ domain) (hn : l.toMap.lookup domain = none) :
    (l.insert rule).toMap.lookup domain = none := by
  rw [h.lookup_toMap_insert, if_neg hne.symm, hn]

theorem remove_keeps_none {l : Layer} (h : l.WellFormed) (removed : String) {domain : String}
    (hn : l.toMap.lookup domain = none) :
    (l.remove removed).1.toMap.lookup domain = none := by
  rw [h.lookup_toMap_remove, hn, ite_self]

theorem puts_keeps_none {s : InnerRuleStore} (h : s.WellFormed) {kind : Lifetime}
    {domain : String} {c : StoreCall} (hc : c.puts kind domain = false)
    (hn : s.entry kind domain = none) : (c.sequential s).1.entry kind domain = none := by
  cases c with
  | add rule =>
    cases kind with
    | ephemeral => exact hn
    | persistent => exact insert_keeps_none h.persistent (by simpa [puts] using hc) hn
  | addAll rules =>
    cases kind with
    | ephemeral =>
      have hmaps := congrArg RuleMaps.ephemeral (h.toMaps_addAll rules)
      change (s.addAll rules).toMaps.ephemeral.lookup domain = none
      rw [hmaps]
      exact hn
    | persistent =>
      have hmaps := congrArg RuleMaps.persistent (h.toMaps_addAll rules)
      change (s.addAll rules).toMaps.persistent.lookup domain = none
      rw [hmaps, FiniteMap.lookup_insertAll_of_ne _ _ (by simpa [puts] using hc)]
      exact hn
  | addEphemeral rule =>
    cases kind with
    | ephemeral => exact insert_keeps_none h.ephemeral (by simpa [puts] using hc) hn
    | persistent => exact hn
  | remove removed =>
    cases kind with
    | ephemeral => exact hn
    | persistent => exact remove_keeps_none h.persistent removed hn
  | removeEphemeral removed =>
    cases kind with
    | ephemeral => exact remove_keeps_none h.ephemeral removed hn
    | persistent => exact hn
  | _ => exact hn

variable {ι : Type}

theorem replay_wellFormed (calls : ι → StoreCall) {s : InnerRuleStore} (h : s.WellFormed)
    (order : List ι) : (Rcu.replay (fun i => (calls i).sequential) order s).WellFormed := by
  induction order generalizing s with
  | nil => exact h
  | cons i order ih => exact ih (sequential_wellFormed h (calls i))

theorem replay_keeps_none (calls : ι → StoreCall) {s : InnerRuleStore} (h : s.WellFormed)
    {kind : Lifetime} {domain : String} {order : List ι}
    (hc : ∀ i ∈ order, (calls i).puts kind domain = false)
    (hn : s.entry kind domain = none) :
    (Rcu.replay (fun i => (calls i).sequential) order s).entry kind domain = none := by
  induction order generalizing s with
  | nil => exact hn
  | cons i order ih =>
    exact ih (sequential_wellFormed h (calls i)) (fun j hj => hc j (List.mem_cons_of_mem _ hj))
      (puts_keeps_none h (hc i List.mem_cons_self) hn)

theorem removed_once (calls : ι → StoreCall) {start : InnerRuleStore} (hstart : start.WellFormed)
    {before mid after : List ι} {i j : ι} {kind : Lifetime} {domain : String} {rule : DnsRule}
    (hi : calls i = dropping kind domain) (hj : calls j = dropping kind domain)
    (hn : (before ++ i :: (mid ++ j :: after)).Nodup)
    (hr : Rcu.AnswersAt (fun i => (calls i).sequential) start (before ++ i :: (mid ++ j :: after))
      j (.removed (some rule))) :
    ∃ k ∈ mid, (calls k).puts kind domain = true := by
  by_contra hnone
  have hmid : ∀ k ∈ mid, (calls k).puts kind domain = false := by
    intro k hk
    simpa using fun hp => hnone ⟨k,hk,hp⟩
  obtain ⟨before',after',hl,hreply⟩ := hr
  have hl' : before ++ i :: (mid ++ j :: after) = (before ++ i :: mid) ++ j :: after := by
    simp
  obtain rfl : before ++ i :: mid = before' := Rcu.split_unique hn hl' hl
  have hw := replay_wellFormed calls hstart before
  have hdrop := dropping_reply hw kind domain
  rw [← hi] at hdrop
  have hempty := replay_keeps_none calls (sequential_wellFormed hw (calls i)) hmid hdrop.2
  have hwm := replay_wellFormed calls (sequential_wellFormed hw (calls i)) mid
  have hlast := (dropping_reply hwm kind domain).1
  rw [hempty, ← hj] at hlast
  have hreplay : Rcu.replay (fun i => (calls i).sequential) (before ++ i :: mid) start =
      Rcu.replay (fun i => (calls i).sequential) mid
        ((calls i).sequential
          (Rcu.replay (fun i => (calls i).sequential) before start)).1 := by
    simp [Rcu.replay]
  rw [hreplay, hlast] at hreply
  cases hreply

end StoreCall

theorem rule_store_linearizable {ι : Type} [DecidableEq ι] (calls : ι → StoreCall)
    (history : List Mutator) (acts : List (Rcu.Action ι)) :
    let start := InnerRuleStore.reached history
    let s := Transition.run (Rcu.step (fun i => (calls i).operation)) (.initial start) acts
    ∃ order : List ι,
      Rcu.Linearization (fun i => (calls i).sequential) start s order ∧
      ∀ kind domain before i mid j after rule,
        order = before ++ i :: (mid ++ j :: after) →
        calls i = StoreCall.dropping kind domain → calls j = StoreCall.dropping kind domain →
        .respond j (.removed (some rule)) ∈ s.history →
        ∃ k ∈ mid, (calls k).puts kind domain = true := by
  intro start s
  have hmeaning : Rcu.meanings (fun i => (calls i).operation) =
      fun i => (calls i).sequential := by
    funext i
    exact (calls i).operation_meaning
  have hlin := Rcu.linearizable (fun i => (calls i).operation_restartable) start acts
  rw [hmeaning] at hlin
  refine ⟨s.commits,hlin,?_⟩
  intro kind domain before i mid j after rule horder hi hj hr
  have hn := hlin.nodup
  have ha := hlin.answers j _ hr
  rw [horder] at hn ha
  exact StoreCall.removed_once calls (InnerRuleStore.reached_wellFormed history) hi hj hn ha

theorem call_alone_completes {ι : Type} [DecidableEq ι] (calls : ι → StoreCall)
    (s : Rcu.State ι InnerRuleStore (Option DnsRule) StoreReply) {i : ι}
    (h : s.phase i = .idle) :
    let s' := Transition.run (Rcu.step (fun i => (calls i).operation)) s (Rcu.alone i)
    let reply := ((calls i).sequential s.value).2
    s'.phase i = .returned reply ∧ s'.value = ((calls i).sequential s.value).1 ∧
      s'.commits = s.commits ++ [i] ∧
      s'.history = s.history ++ [.invoke i, .respond i reply] := by
  have hdone := Rcu.alone_completes (fun i => (calls i).operation) h
  simp only [(calls i).operation_meaning] at hdone
  exact hdone

end SideDns
