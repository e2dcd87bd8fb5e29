import SideDns.Ipc.Message
import SideDns.Library.FiniteMap
import SideDns.Store.Locality
import SideDns.Store.Refinement

namespace SideDns

open FiniteMap (HashMap)

structure DomainResolver (Key : Type) where
  cache : HashMap String DnsRule
  certsCache : HashMap String Key

namespace DomainResolver

variable {Key : Type}

def new : DomainResolver Key := ⟨∅, ∅⟩

def resolveDomain (store : InnerRuleStore) (resolver : DomainResolver Key) (domain : String) :
    DomainResolver Key × Option DnsRule :=
  match resolver.cache.lookup domain with
  | some rule => (resolver, some rule)
  | none =>
    match store.resolve domain with
    | none => (resolver, none)
    | some rule => ({ resolver with cache := resolver.cache.insert domain rule }, some rule)

def invalidate (resolver : DomainResolver Key) (rule : DnsRule) : DomainResolver Key :=
  match Utf8.stripPrefix rule.domain "*." with
  | some suffix =>
      let retain := fun key : String =>
        !(Utf8.endsWith key suffix &&
          decide (Utf8.len key > Utf8.len suffix) &&
          (Utf8.bytes key)[Utf8.len key - Utf8.len suffix - 1]? == some '.'.toUInt8)
      ⟨FiniteMap.retain retain resolver.cache, FiniteMap.retain retain resolver.certsCache⟩
  | none => ⟨resolver.cache.erase rule.domain, resolver.certsCache.erase rule.domain⟩

theorem lookup_erase_eq {ν : Type} (m : HashMap String ν) (domain key : String) :
    (m.erase domain).lookup key = if domain == key then none else m.lookup key := by
  rw [FiniteMap.lookup_erase_ite]
  simp only [beq_iff_eq, eq_comm (a := domain)]

theorem lookup_invalidate (resolver : DomainResolver Key) (rule : DnsRule) (key : String) :
    (resolver.invalidate rule).cache.lookup key =
        (if rule.matches key then none else resolver.cache.lookup key) ∧
      (resolver.invalidate rule).certsCache.lookup key =
        (if rule.matches key then none else resolver.certsCache.lookup key) := by
  cases hs : Utf8.stripPrefix rule.domain "*." with
  | none =>
    simp only [invalidate, DnsRule.matches, patternMatches, hs]
    exact ⟨lookup_erase_eq _ _ _,lookup_erase_eq _ _ _⟩
  | some suffix =>
    simp only [invalidate, DnsRule.matches, patternMatches, hs, FiniteMap.lookup_retain]
    constructor <;> split_ifs <;> simp_all

def observe (resolver : DomainResolver Key) (event : DnsEvent) : DomainResolver Key :=
  match event.rule? with
  | some rule => resolver.invalidate rule
  | none => resolver

theorem lookup_observe (resolver : DomainResolver Key) (event : DnsEvent) (key : String) :
    (resolver.observe event).cache.lookup key =
      if event.evicts key then none else resolver.cache.lookup key := by
  cases hr : event.rule? with
  | none => simp [observe, DnsEvent.evicts, hr]
  | some rule =>
    simp only [observe, DnsEvent.evicts, hr, Option.any_some]
    exact (lookup_invalidate resolver rule key).1

def Evicts (rule : DnsRule) (domain : String) : Prop :=
  ∀ resolver : DomainResolver Unit, (resolver.invalidate rule).cache.lookup domain = none

theorem evicts_iff (rule : DnsRule) (domain : String) :
    Evicts rule domain ↔ rule.matches domain = true := by
  constructor
  · intro h
    have hfull := h ⟨(∅ : HashMap String DnsRule).insert domain rule,∅⟩
    rw [(lookup_invalidate _ rule domain).1] at hfull
    by_contra hm
    simp [hm] at hfull
  · intro hm resolver
    rw [(lookup_invalidate resolver rule domain).1, hm, if_pos rfl]

end DomainResolver

namespace Mutation

def announced (m : Mutation) (s : InnerRuleStore) : Option DnsRule :=
  match m with
  | add rule => some rule
  | addEphemeral rule => some rule
  | remove domain => (s.remove domain).2
  | removeEphemeral domain => (s.removeEphemeral domain).2

end Mutation

namespace InnerRuleStore

theorem WellFormed.announced_domain {s : InnerRuleStore} (h : s.WellFormed) {m : Mutation}
    {rule : DnsRule} (ha : m.announced s = some rule) : rule.domain = m.pattern := by
  cases m with
  | add r =>
    obtain rfl := Option.some.inj ha
    rfl
  | addEphemeral r =>
    obtain rfl := Option.some.inj ha
    rfl
  | remove domain =>
    apply h.persistent.keyed_toMap domain rule
    rw [← h.persistent.remove_returns domain]
    exact ha
  | removeEphemeral domain =>
    apply h.ephemeral.keyed_toMap domain rule
    rw [← h.ephemeral.remove_returns domain]
    exact ha

theorem apply_of_announced_none {s : InnerRuleStore} {m : Mutation}
    (ha : m.announced s = none) : (m.apply s).1 = s := by
  cases m with
  | add rule => cases ha
  | addEphemeral rule => cases ha
  | remove domain =>
    change s.withPersistent (s.persistent.remove domain).1 = s
    rw [Layer.remove_none ha]
    rfl
  | removeEphemeral domain =>
    change s.withEphemeral (s.ephemeral.remove domain).1 = s
    rw [Layer.remove_none ha]
    rfl

theorem WellFormed.changed_evicts {s : InnerRuleStore} (h : s.WellFormed) {m : Mutation}
    {domain : String} (hm : patternMatches m.pattern domain = true)
    (hc : (m.apply s).1.resolve domain ≠ s.resolve domain) :
    ∃ rule, m.announced s = some rule ∧ DomainResolver.Evicts rule domain := by
  cases ha : m.announced s with
  | none =>
    rw [apply_of_announced_none ha] at hc
    exact absurd rfl hc
  | some rule =>
    refine ⟨rule,rfl,(DomainResolver.evicts_iff rule domain).mpr ?_⟩
    rw [DnsRule.matches, h.announced_domain ha]
    exact hm

theorem WellFormed.not_evicted {s : InnerRuleStore} (h : s.WellFormed) {m : Mutation}
    {domain : String} (hm : patternMatches m.pattern domain = false) :
    ¬ ∃ rule, m.announced s = some rule ∧ DomainResolver.Evicts rule domain := by
  rintro ⟨rule,ha,he⟩
  have ht := (DomainResolver.evicts_iff rule domain).mp he
  rw [DnsRule.matches, h.announced_domain ha, hm] at ht
  cases ht

theorem mutation_local_iff (history : List Mutator) (m : Mutation) (domain : String) :
    let s := reached history
    let undisplaced := patternMatches m.pattern domain = true ∨ s.displaces m domain = false
    ((patternMatches m.pattern domain = false →
        (m.apply s).1.resolve domain = s.resolve domain) ↔ undisplaced) ∧
    (((m.apply s).1.resolve domain ≠ s.resolve domain →
        ∃ rule, m.announced s = some rule ∧ DomainResolver.Evicts rule domain) ↔
      undisplaced) := by
  intro s undisplaced
  have hw : s.WellFormed := reached_wellFormed history
  cases hm : patternMatches m.pattern domain with
  | true =>
    have hu : undisplaced := .inl hm
    exact ⟨iff_of_true (fun hf => by cases hf) hu,iff_of_true (hw.changed_evicts hm) hu⟩
  | false =>
    cases hd : s.displaces m domain with
    | false =>
      have hu : undisplaced := .inr hd
      have heq := hw.resolve_mutation hm hd
      exact ⟨iff_of_true (fun _ => heq) hu,iff_of_true (fun hc => absurd heq hc) hu⟩
    | true =>
      have hu : ¬ undisplaced := by
        rintro (ht | hf)
        · rw [hm] at ht
          cases ht
        · rw [hd] at hf
          cases hf
      have hc := hw.resolve_mutation_displaced hm hd
      exact ⟨iff_of_false (fun hk => hc (hk rfl)) hu,
        iff_of_false (fun hk => hw.not_evicted hm (hk hc)) hu⟩

def overlapping : List Mutator :=
  [.single (.add ⟨"*.drop.test", .v4 0x7f000001 3000, false⟩),
    .single (.add ⟨"*.test", .v4 0x7f000001 4000, false⟩),
    .single (.add ⟨"*.app.test", .v4 0x7f000001 5000, false⟩)]

theorem removal_reroutes_unmatched_name :
    ¬ ∀ (history : List Mutator) (m : Mutation) (domain : String),
      patternMatches m.pattern domain = false →
        (m.apply (reached history)).1.resolve domain = (reached history).resolve domain := by
  intro h
  have hs := h overlapping (.remove "*.drop.test") "a.app.test" (by decide)
  exact absurd hs (by decide)

end InnerRuleStore

end SideDns
