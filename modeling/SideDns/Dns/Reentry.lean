import SideDns.Dns.Coverage
import SideDns.Dns.Presentation

namespace SideDns

open DomainName (zone)
open FiniteMap (IterationOrder SetOrder)

def coveredZone (pattern : String) : List Label :=
  zone ((Utf8.stripPrefix pattern "*.").getD pattern)

def Claims (pattern : String) (question : Name) : Prop :=
  lowerLabels (coveredZone pattern) <:+ lowerLabels question

instance (pattern : String) (question : Name) : Decidable (Claims pattern question) :=
  inferInstanceAs (Decidable (_ <:+ _))

namespace SystemdConfigurator

def Routes (entry : String) (question : Name) : Prop :=
  ∃ domain, Utf8.stripPrefix entry "~" = some domain ∧
    lowerLabels (zone domain) <:+ lowerLabels question

theorem routes_iff_claims (pattern : String) (question : Name) :
    Routes (routingDomain pattern) question ↔ Claims pattern question := by
  have hentry : ∃ domain, Utf8.stripPrefix (routingDomain pattern) "~" = some domain ∧
      zone domain = coveredZone pattern := by
    rw [routingDomain, Utf8.startsWith_eq, coveredZone]
    cases hs : Utf8.stripPrefix pattern "*." with
    | some suffix => exact ⟨suffix,Utf8.stripPrefix_append _ _,rfl⟩
    | none =>
      refine ⟨pattern ++ ".",?_,DomainName.zone_append_dot pattern⟩
      rw [Option.isSome_none, if_neg Bool.false_ne_true, String.append_assoc]
      exact Utf8.stripPrefix_append _ _
  obtain ⟨domain,hd,hz⟩ := hentry
  rw [Routes, Claims, ← hz]
  constructor
  · rintro ⟨found,hf,hroutes⟩
    obtain rfl := Option.some.inj (hd.symm.trans hf)
    exact hroutes
  · exact fun hroutes => ⟨domain,hd,hroutes⟩

end SystemdConfigurator

namespace DnsHandler

variable {Key : Type}

theorem forwarded_uncovered_iff (handler : DnsHandler)
    (ephemeralOrder persistentOrder : IterationOrder String DnsRule) (setOrder : SetOrder String)
    (st : AppState) (resolver : DomainResolver Key) (question : Name) (qtype : RecordType) :
    let entries := (st.snapshotAllDomains ephemeralOrder persistentOrder setOrder).map
      SystemdConfigurator.routingDomain
    let rules := st.store.snapshotAll ephemeralOrder persistentOrder
    let domain := handler.queryDomain question
    ((handler.handleRequest st.store.inner resolver question qtype).2.isForwarded = true →
        ∀ entry ∈ entries, ¬ SystemdConfigurator.Routes entry question) ↔
      ((∃ rule ∈ rules, Claims rule.domain question) →
        qtype.isAddress = true ∧ ((resolver.cache.lookup domain).isSome = true ∨
          ∃ rule ∈ rules, rule.matches domain = true)) := by
  intro entries rules domain
  have hcovered : (∃ entry ∈ entries, SystemdConfigurator.Routes entry question) ↔
      ∃ rule ∈ rules, Claims rule.domain question := by
    constructor
    · rintro ⟨entry,he,hroutes⟩
      obtain ⟨pattern,hp,rfl⟩ := List.mem_map.mp he
      obtain ⟨rule,hr,rfl⟩ := AppState.mem_snapshotAllDomains.mp hp
      exact ⟨rule,hr,(SystemdConfigurator.routes_iff_claims _ _).mp hroutes⟩
    · rintro ⟨rule,hr,hclaims⟩
      refine ⟨_,List.mem_map_of_mem (AppState.mem_snapshotAllDomains.mpr ⟨rule,hr,rfl⟩),?_⟩
      exact (SystemdConfigurator.routes_iff_claims _ _).mpr hclaims
  have hanswered : (resolver.resolveDomain st.store.inner domain).2.isSome = true ↔
      (resolver.cache.lookup domain).isSome = true ∨
        ∃ rule ∈ rules, rule.matches domain = true := by
    rw [DomainResolver.resolveDomain_isSome, Bool.or_eq_true]
    exact or_congr Iff.rfl (st.resolve_isSome_iff ephemeralOrder persistentOrder domain)
  rw [handler.isForwarded_iff, ← hcovered, ← hanswered]
  constructor
  · rintro hsafe ⟨entry,he,hroutes⟩
    by_contra hmiss
    refine hsafe (fun hq => ?_) entry he hroutes
    by_contra hnone
    exact hmiss ⟨hq,Option.isSome_iff_ne_none.mpr hnone⟩
  · intro hserved hforwarded entry he hroutes
    obtain ⟨hq,hsome⟩ := hserved ⟨entry,he,hroutes⟩
    rw [show (resolver.resolveDomain st.store.inner domain).2 = none from hforwarded hq] at hsome
    cases hsome

theorem mail_question_reenters :
    ¬ ∀ (handler : DnsHandler) (order : IterationOrder String DnsRule) (setOrder : SetOrder String)
      (st : AppState) (resolver : DomainResolver Unit) (question : Name) (qtype : RecordType),
      (handler.handleRequest st.store.inner resolver question qtype).2.isForwarded = true →
        ∀ entry ∈ (st.snapshotAllDomains order order setOrder).map
          SystemdConfigurator.routingDomain, ¬ SystemdConfigurator.Routes entry question := by
  intro h
  have hrule : (AppState.withRule "api.test").store.resolve "api.test" =
      some ⟨"api.test",.v4 0x7f000001 3000,false⟩ := by decide
  have hr := (AppState.resolve_mem_snapshot default default hrule).1
  refine h sampleHandler default default (AppState.withRule "api.test") DomainResolver.new
    ["api".toList, "test".toList] (.other 15) (by decide) _
    (List.mem_map_of_mem (AppState.mem_snapshotAllDomains.mpr ⟨_,hr,rfl⟩)) ?_
  rw [SystemdConfigurator.routes_iff_claims]
  decide

end DnsHandler

end SideDns
