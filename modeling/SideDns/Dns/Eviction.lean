import Mathlib.Data.Nat.PSub
import SideDns.Dns.Resolver

namespace SideDns

def byteBefore (suffix key : String) : Option UInt8 :=
  (Nat.psub (Utf8.len key) (Utf8.len suffix)).bind fun front =>
    (Nat.psub front 1).bind fun i => (Utf8.bytes key)[i]?

def DnsRule.matchesChecked (rule : DnsRule) (domain : String) : Option Bool :=
  match Utf8.stripPrefix rule.domain "*." with
  | some suffix =>
      if Utf8.endsWith domain suffix && decide (Utf8.len domain > Utf8.len suffix) then
        (byteBefore suffix domain).map fun b => b == '.'.toUInt8
      else some false
  | none => some (rule.domain == domain)

namespace DomainResolver

variable {Key : Type}

def invalidateChecked (resolver : DomainResolver Key) (rule : DnsRule) :
    Option (DomainResolver Key) :=
  match Utf8.stripPrefix rule.domain "*." with
  | some suffix =>
      let retain := fun key : String =>
        (if Utf8.endsWith key suffix && decide (Utf8.len key > Utf8.len suffix) then
          (byteBefore suffix key).map fun b => b == '.'.toUInt8
        else some false).map not
      (FiniteMap.tryRetain retain resolver.cache).bind fun cache =>
        (FiniteMap.tryRetain retain resolver.certsCache).map fun certsCache => ⟨cache, certsCache⟩
  | none => some ⟨resolver.cache.erase rule.domain, resolver.certsCache.erase rule.domain⟩

structure EvictsExactly (rule : DnsRule) (before after : DomainResolver Key) : Prop where
  cache : ∀ key value, after.cache.lookup key = some value ↔
    before.cache.lookup key = some value ∧ rule.matches key = false
  certsCache : ∀ key value, after.certsCache.lookup key = some value ↔
    before.certsCache.lookup key = some value ∧ rule.matches key = false

end DomainResolver

theorem byteBefore_eq {suffix key : String} (h : Utf8.len key > Utf8.len suffix) :
    byteBefore suffix key = (Utf8.bytes key)[Utf8.len key - Utf8.len suffix - 1]? ∧
      Utf8.len key - Utf8.len suffix - 1 < (Utf8.bytes key).length := by
  rw [byteBefore, Nat.psub_eq_sub (by omega), Option.bind_some, Nat.psub_eq_sub (by omega),
    Option.bind_some, Utf8.length_bytes]
  exact ⟨rfl,by omega⟩

theorem suffix_test_total (suffix key : String) :
    (if Utf8.endsWith key suffix && decide (Utf8.len key > Utf8.len suffix) then
      (byteBefore suffix key).map fun b => b == '.'.toUInt8
    else some false) =
      some (Utf8.endsWith key suffix && decide (Utf8.len key > Utf8.len suffix) &&
        (Utf8.bytes key)[Utf8.len key - Utf8.len suffix - 1]? == some '.'.toUInt8) := by
  split_ifs with h
  · obtain ⟨-,hlen⟩ := Bool.and_eq_true_iff.mp h
    obtain ⟨hbyte,hlt⟩ := byteBefore_eq (of_decide_eq_true hlen)
    rw [h, hbyte, List.getElem?_eq_getElem hlt]
    rfl
  · rw [Bool.not_eq_true] at h
    rw [h]
    rfl

theorem DnsRule.matchesChecked_total (rule : DnsRule) (domain : String) :
    rule.matchesChecked domain = some (rule.matches domain) := by
  rw [matchesChecked, DnsRule.matches, patternMatches]
  cases Utf8.stripPrefix rule.domain "*." with
  | some suffix => exact suffix_test_total suffix domain
  | none => rfl

namespace DomainResolver

variable {Key : Type}

theorem invalidateChecked_total (resolver : DomainResolver Key) (rule : DnsRule) :
    resolver.invalidateChecked rule = some (resolver.invalidate rule) := by
  rw [invalidateChecked, invalidate]
  cases Utf8.stripPrefix rule.domain "*." with
  | some suffix =>
    have hkeep (key : String) := congrArg (Option.map not) (suffix_test_total suffix key)
    simp only
    rw [FiniteMap.tryRetain_total hkeep, FiniteMap.tryRetain_total hkeep]
    rfl
  | none => rfl

theorem evictsExactly_invalidate (resolver : DomainResolver Key) (rule : DnsRule) :
    EvictsExactly rule resolver (resolver.invalidate rule) := by
  constructor
  case cache =>
    intro key value
    rw [(lookup_invalidate resolver rule key).1]
    cases rule.matches key <;> simp
  case certsCache =>
    intro key value
    rw [(lookup_invalidate resolver rule key).2]
    cases rule.matches key <;> simp

theorem invalidate_evicts_matched (resolver : DomainResolver Key) (rule : DnsRule) :
    (resolver.invalidateChecked rule = some (resolver.invalidate rule) ∧
        EvictsExactly rule resolver (resolver.invalidate rule)) ∧
      (∀ key, rule.matchesChecked key = some (rule.matches key)) ∧
      ∀ suffix, rule.domain = "*." ++ suffix →
        ∀ key, rule.matches key = true ↔ ∃ front, key = front ++ "." ++ suffix := by
  refine ⟨⟨invalidateChecked_total resolver rule,evictsExactly_invalidate resolver rule⟩,
    rule.matchesChecked_total,?_⟩
  intro suffix hdomain key
  rw [DnsRule.matches, hdomain, patternMatches_wildcard]
  simp only [String.append_assoc]

def accentedRule : DnsRule := ⟨"*.é.test", .v4 0x7f000001 3000, false⟩

theorem accented_suffix_matched :
    accentedRule.matches "a.é.test" = true ∧ accentedRule.matches "xé.test" = false := by
  have hmatches := (invalidate_evicts_matched (new : DomainResolver Unit) accentedRule).2.2
    "é.test" (by decide)
  exact ⟨(hmatches "a.é.test").mpr ⟨"a",by decide⟩,by decide⟩

example : (⟨"*.", .v4 0x7f000001 3000, false⟩ : DnsRule).matchesChecked "" = some false := by
  decide

end DomainResolver

end SideDns
