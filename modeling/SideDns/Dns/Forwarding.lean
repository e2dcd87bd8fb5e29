import SideDns.Dns.Presentation

namespace SideDns

abbrev Zone := String → RecordType → List Record

namespace Zone

def Exists (zone : Zone) (query : String) : Prop := ∃ qtype, zone query qtype ≠ []

structure ServedBy (zone : Zone) (upstream : String → RecordType → UpstreamLookup) : Prop where
  found : ∀ query qtype, zone query qtype ≠ [] →
    upstream query qtype = .found (zone query qtype)
  noData : ∀ query qtype, zone query qtype = [] → zone.Exists query →
    upstream query qtype = .noRecordsFound .noError
  noName : ∀ query qtype, ¬ zone.Exists query →
    upstream query qtype = .noRecordsFound .nxDomain

def Complete (zone : Zone) (query : String) (qtype : RecordType) : Prop :=
  zone.Exists query → zone query qtype ≠ []

end Zone

namespace Reply

def response : Reply → Response
  | answeredLocally response => response
  | forwarded _ _ response => response
  | failed response => response

end Reply

namespace DnsHandler

variable {Key : Type}

def KeepsVerdict (zone : Zone) (query : String) (qtype : RecordType) (reply : Reply) : Prop :=
  (zone query qtype ≠ [] → reply = .forwarded query qtype ⟨false, .noError, zone query qtype⟩) ∧
  (reply.response.code = .nxDomain → ¬ zone.Exists query)

theorem forward_served {handler : DnsHandler} {zone : Zone} (hz : zone.ServedBy handler.upstream)
    (domain : String) (qtype : RecordType) :
    handler.forward domain qtype =
      match zone (domain ++ ".") qtype with
      | [] => .forwarded (domain ++ ".") qtype ⟨false, .nxDomain, []⟩
      | record :: records =>
          .forwarded (domain ++ ".") qtype ⟨false, .noError, record :: records⟩ := by
  rw [forward]
  cases hr : zone (domain ++ ".") qtype with
  | nil =>
    by_cases he : zone.Exists (domain ++ ".")
    · rw [hz.noData _ _ hr he]
    · rw [hz.noName _ _ he]
  | cons record records =>
    have hne : zone (domain ++ ".") qtype ≠ [] := by simp [hr]
    rw [hz.found _ _ hne, hr]

theorem forward_nxDomain_iff {handler : DnsHandler} {zone : Zone}
    (hz : zone.ServedBy handler.upstream) (domain : String) (qtype : RecordType) :
    (handler.forward domain qtype).response.code = .nxDomain ↔
      zone (domain ++ ".") qtype = [] := by
  rw [forward_served hz]
  cases zone (domain ++ ".") qtype <;> simp [Reply.response]

theorem forward_keepsVerdict_iff {handler : DnsHandler} {zone : Zone}
    (hz : zone.ServedBy handler.upstream) (domain : String) (qtype : RecordType) :
    KeepsVerdict zone (domain ++ ".") qtype (handler.forward domain qtype) ↔
      zone.Complete (domain ++ ".") qtype := by
  rw [KeepsVerdict, forward_nxDomain_iff hz, Zone.Complete]
  constructor
  · exact fun h he hr => h.2 hr he
  · intro hc
    refine ⟨fun hne => ?_,fun hr he => hc he hr⟩
    rw [forward_served hz]
    cases hr : zone (domain ++ ".") qtype with
    | nil => exact absurd hr hne
    | cons record records => rfl

theorem handleRequest_unruled {handler : DnsHandler} {store : InnerRuleStore}
    {resolver : DomainResolver Key} {name : Name}
    (hn : (resolver.resolveDomain store (handler.queryDomain name)).2 = none)
    (qtype : RecordType) :
    (handler.handleRequest store resolver name qtype).2 =
      handler.forward (handler.queryDomain name) qtype := by
  have hcases := handler.handleRequest_cases store resolver name qtype
  generalize handler.handleRequest store resolver name qtype = handled at hcases
  cases hcases with
  | answered rule response hq hr hl =>
    rw [hn] at hr
    cases hr
  | refused rule hq hr hl =>
    rw [hn] at hr
    cases hr
  | unknown hq hr => rfl
  | passed hq => rfl

theorem forwarding_keeps_verdict_iff (handler : DnsHandler) (zone : Zone)
    (hz : zone.ServedBy handler.upstream) (store : InnerRuleStore) (resolver : DomainResolver Key)
    (name : Name) (hn : (resolver.resolveDomain store (handler.queryDomain name)).2 = none) :
    let query := handler.queryDomain name ++ "."
    let reply qtype := (handler.handleRequest store resolver name qtype).2
    (∀ qtype, KeepsVerdict zone query qtype (reply qtype) ↔ zone.Complete query qtype) ∧
    (((reply .a).response.code = .nxDomain ↔ (reply .aaaa).response.code = .nxDomain) ↔
      (zone query .a = [] ↔ zone query .aaaa = [])) := by
  intro query reply
  have hforward qtype : reply qtype = handler.forward (handler.queryDomain name) qtype :=
    handleRequest_unruled hn qtype
  constructor
  · intro qtype
    rw [hforward]
    exact forward_keepsVerdict_iff hz _ qtype
  · rw [hforward, hforward, forward_nxDomain_iff hz, forward_nxDomain_iff hz]

def ipv4Only : Zone := fun query qtype =>
  if query = "host.test." ∧ qtype = .a then
    [⟨["host".toList, "test".toList], 300, .a 0x0a000001⟩]
  else []

def ipv4Upstream (query : String) (qtype : RecordType) : UpstreamLookup :=
  if query = "host.test." then
    if qtype = .a then .found (ipv4Only query qtype) else .noRecordsFound .noError
  else .noRecordsFound .nxDomain

theorem ipv4Only_ne {query : String} {qtype : RecordType} (h : ipv4Only query qtype ≠ []) :
    query = "host.test." ∧ qtype = .a := by
  by_contra hne
  exact h (if_neg hne)

theorem ipv4Only_exists_iff (query : String) : ipv4Only.Exists query ↔ query = "host.test." := by
  constructor
  · rintro ⟨qtype,hne⟩
    exact (ipv4Only_ne hne).1
  · rintro rfl
    exact ⟨.a,by decide⟩

theorem ipv4Only_servedBy : ipv4Only.ServedBy ipv4Upstream where
  found := by
    intro query qtype hne
    obtain ⟨rfl,rfl⟩ := ipv4Only_ne hne
    rfl
  noData := by
    intro query qtype hr he
    obtain rfl := (ipv4Only_exists_iff query).mp he
    have hq : qtype ≠ .a := by
      rintro rfl
      revert hr
      decide
    rw [ipv4Upstream, if_pos rfl, if_neg hq]
  noName := by
    intro query qtype he
    rw [ipv4Only_exists_iff] at he
    exact if_neg he

def ipv4Handler : DnsHandler := ⟨.ascii, .sample, ipv4Upstream⟩

def ipv4Reply (qtype : RecordType) : Reply :=
  (ipv4Handler.handleRequest InnerRuleStore.new (DomainResolver.new : DomainResolver Unit)
    ["host".toList, "test".toList] qtype).2

theorem ipv4_host_answered :
    (∀ qtype, KeepsVerdict ipv4Only "host.test." qtype (ipv4Reply qtype) ↔
      ipv4Only.Complete "host.test." qtype) ∧
    (((ipv4Reply .a).response.code = .nxDomain ↔ (ipv4Reply .aaaa).response.code = .nxDomain) ↔
      (ipv4Only "host.test." .a = [] ↔ ipv4Only "host.test." .aaaa = [])) :=
  forwarding_keeps_verdict_iff ipv4Handler ipv4Only ipv4Only_servedBy InnerRuleStore.new
    (DomainResolver.new : DomainResolver Unit) ["host".toList, "test".toList] (by decide)

theorem ipv4_host_missing_for_aaaa :
    ipv4Only.ServedBy ipv4Handler.upstream ∧
    ¬ KeepsVerdict ipv4Only "host.test." .aaaa (ipv4Reply .aaaa) ∧
    ¬ ((ipv4Reply .a).response.code = .nxDomain ↔
      (ipv4Reply .aaaa).response.code = .nxDomain) := by
  refine ⟨ipv4Only_servedBy,fun h => ?_,by decide⟩
  exact h.2 (by decide) ⟨.a,by decide⟩

end DnsHandler

end SideDns
