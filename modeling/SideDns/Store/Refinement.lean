import SideDns.Store.WellFormed

namespace SideDns

open FiniteMap (HashMap IterationOrder KeyedBy)

structure RuleMaps where
  ephemeral : HashMap String DnsRule
  persistent : HashMap String DnsRule
  deriving DecidableEq

namespace RuleMaps

def empty : RuleMaps := ⟨∅, ∅⟩

def mutate : Mutation → RuleMaps → RuleMaps × Option DnsRule
  | .add rule, m => ({ m with persistent := m.persistent.insert rule.domain rule }, none)
  | .addEphemeral rule, m => ({ m with ephemeral := m.ephemeral.insert rule.domain rule }, none)
  | .remove domain, m =>
      ({ m with persistent := m.persistent.erase domain }, m.persistent.lookup domain)
  | .removeEphemeral domain, m =>
      ({ m with ephemeral := m.ephemeral.erase domain }, m.ephemeral.lookup domain)

def apply : Mutator → RuleMaps → RuleMaps × Option DnsRule
  | .single mutation, m => mutate mutation m
  | .addAll rules, m =>
      ({ m with persistent := FiniteMap.insertAll DnsRule.domain m.persistent rules }, none)

def run : List Mutator → RuleMaps → RuleMaps × List (Option DnsRule)
  | [], m => (m, [])
  | op :: ops, m => ((run ops (apply op m).1).1, (apply op m).2 :: (run ops (apply op m).1).2)

end RuleMaps

namespace InnerRuleStore

def toMaps (s : InnerRuleStore) : RuleMaps := ⟨s.ephemeral.toMap, s.persistent.toMap⟩

theorem WellFormed.toMaps_addAll {s : InnerRuleStore} (h : s.WellFormed)
    (rules : List DnsRule) :
    (s.addAll rules).toMaps =
      ⟨s.ephemeral.toMap, FiniteMap.insertAll DnsRule.domain s.persistent.toMap rules⟩ := by
  induction rules generalizing s with
  | nil => rfl
  | cons rule rules ih =>
    change ((s.add rule).addAll rules).toMaps = _
    rw [ih (h.add rule), FiniteMap.insertAll_cons, ← h.persistent.toMap_insert rule]
    rfl

end InnerRuleStore

open InnerRuleStore

theorem Mutation.apply_refines {s : InnerRuleStore} (h : s.WellFormed) (m : Mutation) :
    ((m.apply s).1.toMaps,(m.apply s).2) = RuleMaps.mutate m s.toMaps := by
  cases m with
  | add rule =>
    have hi := h.persistent.toMap_insert rule
    simp [apply, toMaps, InnerRuleStore.add, RuleMaps.mutate, hi]
  | addEphemeral rule =>
    have hi := h.ephemeral.toMap_insert rule
    simp [apply, toMaps, InnerRuleStore.addEphemeral, RuleMaps.mutate, hi]
  | remove domain =>
    have hi := h.persistent.toMap_remove domain
    have hr := h.persistent.remove_returns domain
    simp [apply, toMaps, InnerRuleStore.remove, RuleMaps.mutate, hi, hr]
  | removeEphemeral domain =>
    have hi := h.ephemeral.toMap_remove domain
    have hr := h.ephemeral.remove_returns domain
    simp [apply, toMaps, InnerRuleStore.removeEphemeral, RuleMaps.mutate, hi, hr]

theorem Mutator.apply_refines {s : InnerRuleStore} (h : s.WellFormed) (m : Mutator) :
    ((m.apply s).1.toMaps,(m.apply s).2) = RuleMaps.apply m s.toMaps := by
  cases m with
  | single mutation => exact mutation.apply_refines h
  | addAll rules =>
    change ((s.addAll rules).toMaps,none) = _
    rw [h.toMaps_addAll]
    rfl

theorem Mutator.run_refines {s : InnerRuleStore} (h : s.WellFormed) (history : List Mutator) :
    ((run history s).1.toMaps,(run history s).2) = RuleMaps.run history s.toMaps := by
  induction history generalizing s with
  | nil => rfl
  | cons m ms ih =>
    have hm := m.apply_refines h
    have hms := ih (m.apply_wellFormed h)
    have h1 : (m.apply s).1.toMaps = (RuleMaps.apply m s.toMaps).1 := congrArg Prod.fst hm
    have h2 : (m.apply s).2 = (RuleMaps.apply m s.toMaps).2 := congrArg Prod.snd hm
    rw [h1] at hms
    rw [RuleMaps.run, ← hms, ← h2]
    rfl

theorem reached_toMaps (history : List Mutator) :
    (reached history).toMaps = (RuleMaps.run history RuleMaps.empty).1 :=
  congrArg Prod.fst (Mutator.run_refines wellFormed_new history)

theorem reached_returns (history : List Mutator) :
    (Mutator.run history InnerRuleStore.new).2 = (RuleMaps.run history RuleMaps.empty).2 :=
  congrArg Prod.snd (Mutator.run_refines wellFormed_new history)

theorem reached_refines_maps (history : List Mutator)
    (ephemeralOrder persistentOrder : IterationOrder String DnsRule) :
    let s := reached history
    let m := s.toMaps
    m = (RuleMaps.run history RuleMaps.empty).1 ∧
    (Mutator.run history InnerRuleStore.new).2 = (RuleMaps.run history RuleMaps.empty).2 ∧
    (∀ op : Mutator, ((op.apply s).1.toMaps,(op.apply s).2) = RuleMaps.apply op m) ∧
    KeyedBy DnsRule.domain m.ephemeral ∧
    KeyedBy DnsRule.domain m.persistent ∧
    s.len = FiniteMap.size m.ephemeral + FiniteMap.size m.persistent ∧
    (s.persistentRules persistentOrder : Multiset DnsRule) = FiniteMap.values m.persistent ∧
    (s.allRules ephemeralOrder persistentOrder : Multiset DnsRule) =
      FiniteMap.values m.ephemeral + FiniteMap.values m.persistent ∧
    s.WellFormed := by
  have hw := reached_wellFormed history
  refine ⟨reached_toMaps history,reached_returns history,fun op => op.apply_refines hw,
    hw.ephemeral.keyed_toMap,hw.persistent.keyed_toMap,?_,?_,?_,hw⟩
  · rw [len_eq, ← hw.ephemeral.size_toMap, ← hw.persistent.size_toMap]
    rfl
  · rw [persistentRules_eq]
    exact hw.persistent.coe_rules persistentOrder
  · rw [allRules_eq, ← Multiset.coe_add, hw.ephemeral.coe_rules, hw.persistent.coe_rules]
    rfl

end SideDns
