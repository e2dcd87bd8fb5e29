import SideDns.Dns.MacOs
import SideDns.Store.Resolution

namespace SideDns

open DomainName (AtOrBelow StrictlyBelow zone)
open FiniteMap (IterationOrder SetOrder)

namespace SystemdConfigurator

def domainsLine (content : String) : Option String :=
  (Utf8.fields content '\n').findSome? fun line =>
    Utf8.stripPrefix (String.ofList line) "Domains="

def entries (line : String) : List String :=
  ((Utf8.fields line ' ').filter (fun word => !word.isEmpty)).map String.ofList

def routingDomains (content : String) : List String :=
  match domainsLine content with
  | some line => entries line
  | none => []

def Covers (entry : String) (name : DomainName) : Prop :=
  ∃ domain, Utf8.stripPrefix entry "~" = some domain ∧ AtOrBelow (zone domain) name

end SystemdConfigurator

namespace MacOsConfigurator

def Covers (file : String) (name : DomainName) : Prop := AtOrBelow (zone file) name

end MacOsConfigurator

namespace WindowsNrptConfigurator

def Covers (ns : String) (name : DomainName) : Prop :=
  match Utf8.stripPrefix ns "." with
  | some parent => StrictlyBelow (zone parent) name
  | none => zone ns = name.labels

end WindowsNrptConfigurator

theorem startsWith_wildcard (domain : String) :
    Utf8.startsWith domain "*." = patternIsWildcard domain :=
  Utf8.startsWith_eq domain "*."

namespace SystemdConfigurator

theorem routingDomain_exact (name : HostName) :
    routingDomain name.text = "~" ++ (name.text ++ ".") := by
  rw [routingDomain, startsWith_wildcard, name.text_not_wildcard, if_neg Bool.false_ne_true,
    String.append_assoc]

theorem routingDomain_wildcard (suffix : String) :
    routingDomain ("*." ++ suffix) = "~" ++ suffix := by
  rw [routingDomain, Utf8.startsWith_eq, Utf8.stripPrefix_append]
  rfl

theorem fields_content (ip list : String) :
    Utf8.fields (content ip list) '\n' =
      Utf8.fields ("# Managed by SideDNS — do not edit manually\n[Resolve]\nDNS=" ++ ip) '\n' ++
        (Utf8.fields ("Domains=" ++ list) '\n' ++ Utf8.fields "" '\n') := by
  have hdomains : "\nDomains=" = String.singleton '\n' ++ "Domains=" := by decide
  have hend : "\n" = String.singleton '\n' ++ "" := by decide
  have hsplit : content ip list =
      ("# Managed by SideDNS — do not edit manually\n[Resolve]\nDNS=" ++ ip) ++
        (String.singleton '\n' ++ (("Domains=" ++ list) ++ (String.singleton '\n' ++ ""))) := by
    change _ ++ ip ++ "\nDomains=" ++ list ++ "\n" = _
    rw [hdomains, hend]
    simp only [String.append_assoc]
  rw [hsplit, Utf8.fields_append, Utf8.fields_append]

theorem domainsLine_apply {domains : List String} (h : '\n' ∉ (domainList domains).toList) :
    domainsLine (apply domains) = some (domainList domains) := by
  have hline : '\n' ∉ ("Domains=" ++ domainList domains).toList := by
    rw [String.toList_append, List.mem_append, not_or]
    exact ⟨by decide,h⟩
  have hheader : (Utf8.fields ("# Managed by SideDNS — do not edit manually\n[Resolve]\nDNS=" ++
      dnsIp) '\n').findSome? (fun line =>
        Utf8.stripPrefix (String.ofList line) "Domains=") = none := by
    decide
  rw [domainsLine, apply, fields_content, List.findSome?_append, hheader, Option.none_or,
    Utf8.fields_of_notMem hline, List.findSome?_append, List.findSome?_singleton,
    String.ofList_toList, Utf8.stripPrefix_append]
  rfl

theorem entries_domainList {domains : List String}
    (h : ∀ domain ∈ domains, routingDomain domain ≠ "" ∧ ' ' ∉ (routingDomain domain).toList) :
    entries (domainList domains) = domains.map routingDomain := by
  cases domains with
  | nil => rfl
  | cons domain rest =>
    have hfields : Utf8.fields (domainList (domain :: rest)) ' ' =
        ((domain :: rest).map routingDomain).map String.toList := by
      refine Utf8.fields_intercalate (by simp) ?_
      intro part hp
      obtain ⟨d,hd,rfl⟩ := List.mem_map.mp hp
      exact (h d hd).2
    have hwords : (((domain :: rest).map routingDomain).map String.toList).filter
        (fun word => !word.isEmpty) = ((domain :: rest).map routingDomain).map String.toList := by
      rw [List.filter_eq_self]
      intro word hw
      obtain ⟨part,hp,rfl⟩ := List.mem_map.mp hw
      obtain ⟨d,hd,rfl⟩ := List.mem_map.mp hp
      simpa using (h d hd).1
    rw [entries, hfields, hwords, List.map_map]
    simp

end SystemdConfigurator

inductive RoutedBy (name : DomainName) : String → Prop where
  | exact (host : HostName) (hn : name = host.toDomainName) : RoutedBy name host.text
  | wildcard (host : HostName) (hb : StrictlyBelow (zone host.text) name) :
      RoutedBy name ("*." ++ host.text)

theorem routedBy_of_matches {lib : TextLibrary} (hl : lib.Documented) {rule : DnsRule}
    (hv : validateDomain lib rule.domain = true) {name : DomainName}
    (hm : rule.matches name.text = true) : RoutedBy name rule.domain := by
  rw [DnsRule.matches] at hm
  obtain ⟨host,hhost | hhost⟩ := validateDomain_hostName hl hv
  · rw [hhost, patternMatches_exact host.text_not_wildcard, beq_iff_eq] at hm
    rw [hhost]
    exact .exact host (DomainName.text_injective hm.symm)
  · rw [hhost] at hm ⊢
    obtain ⟨front,hfront⟩ := (patternMatches_wildcard host.text name.text).mp hm
    exact .wildcard host (DomainName.strictlyBelow_of_text_append hfront)

namespace SystemdConfigurator

theorem covers_of_routedBy {name : DomainName} {domain : String} (h : RoutedBy name domain) :
    Covers (routingDomain domain) name := by
  cases h with
  | exact host hn =>
    rw [routingDomain_exact]
    refine ⟨host.text ++ ".",Utf8.stripPrefix_append _ _,?_⟩
    rw [DomainName.zone_append_dot, hn]
    exact DomainName.atOrBelow_self _
  | wildcard host hb =>
    rw [routingDomain_wildcard]
    exact ⟨host.text,Utf8.stripPrefix_append _ _,hb.1⟩

theorem routingDomain_shape {lib : TextLibrary} (hl : lib.Documented) {domain : String}
    (hv : validateDomain lib domain = true) :
    ∃ host : HostName, (domain = host.text ∧ routingDomain domain = "~" ++ (host.text ++ ".")) ∨
      (domain = "*." ++ host.text ∧ routingDomain domain = "~" ++ host.text) := by
  obtain ⟨host,rfl | rfl⟩ := validateDomain_hostName hl hv
  · exact ⟨host,.inl ⟨rfl,routingDomain_exact host⟩⟩
  · exact ⟨host,.inr ⟨rfl,routingDomain_wildcard host.text⟩⟩

theorem notMem_routingDomain {lib : TextLibrary} (hl : lib.Documented) {domain : String}
    (hv : validateDomain lib domain = true) {c : Char} (hmark : c ∉ ['~', '.'])
    (hc : c ∉ DomainRegex.hostChars) : c ∉ (routingDomain domain).toList := by
  rw [List.mem_cons, List.mem_singleton, not_or] at hmark
  obtain ⟨host,⟨-,heq⟩ | ⟨-,heq⟩⟩ := routingDomain_shape hl hv
  · have hn := host.notMem_text hmark.2 hc
    rw [heq]
    simp [hmark, hn]
  · have hn := host.notMem_text hmark.2 hc
    rw [heq]
    simp [hmark, hn]

theorem routingDomain_injective {lib : TextLibrary} (hl : lib.Documented) {domain other : String}
    (hd : validateDomain lib domain = true) (ho : validateDomain lib other = true)
    (h : routingDomain domain = routingDomain other) : domain = other := by
  obtain ⟨host,⟨rfl,heq⟩ | ⟨rfl,heq⟩⟩ := routingDomain_shape hl hd
  · obtain ⟨host',⟨rfl,heq'⟩ | ⟨rfl,heq'⟩⟩ := routingDomain_shape hl ho
    · rw [heq, heq', String.append_right_inj, String.append_left_inj] at h
      exact h
    · rw [heq, heq', String.append_right_inj] at h
      exact absurd h.symm (host'.text_ne_append_dot host.text)
  · obtain ⟨host',⟨rfl,heq'⟩ | ⟨rfl,heq'⟩⟩ := routingDomain_shape hl ho
    · rw [heq, heq', String.append_right_inj] at h
      exact absurd h (host.text_ne_append_dot host'.text)
    · rw [heq, heq', String.append_right_inj] at h
      rw [h]

theorem routingDomains_apply {lib : TextLibrary} (hl : lib.Documented) {domains : List String}
    (hv : ∀ domain ∈ domains, validateDomain lib domain = true) :
    routingDomains (apply domains) = domains.map routingDomain := by
  have hline : '\n' ∉ (domainList domains).toList := by
    rw [domainList, String.toList_intercalate]
    intro hmem
    rcases DomainName.mem_intercalate hmem with hsep | ⟨part,hp,hc⟩
    · revert hsep
      decide
    · obtain ⟨text,ht,rfl⟩ := List.mem_map.mp hp
      obtain ⟨domain,hd,rfl⟩ := List.mem_map.mp ht
      exact notMem_routingDomain hl (hv domain hd) (by decide) (by decide) hc
  rw [routingDomains, domainsLine_apply hline]
  refine entries_domainList fun domain hd => ⟨?_,?_⟩
  · obtain ⟨host,⟨-,heq⟩ | ⟨-,heq⟩⟩ := routingDomain_shape hl (hv domain hd)
    · rw [heq]
      simp
    · rw [heq]
      simp
  · exact notMem_routingDomain hl (hv domain hd) (by decide) (by decide)

end SystemdConfigurator

namespace MacOsConfigurator

theorem covers_of_routedBy {name : DomainName} {domain : String} (h : RoutedBy name domain) :
    Covers (fileName domain) name := by
  cases h with
  | exact host hn =>
    rw [fileName_hostName, hn]
    exact DomainName.atOrBelow_self _
  | wildcard host hb =>
    rw [fileName_wildcard]
    exact hb.1

theorem lookup_apply {dir : ResolverDir} {domains : List String} {domain : String}
    (h : domain ∈ domains) :
    (apply dir domains).lookup (fileName domain) = some resolverContent := by
  rw [apply, lookup_write, if_pos (List.mem_map_of_mem h)]

end MacOsConfigurator

namespace WindowsNrptConfigurator

theorem nrptNamespace_exact (name : HostName) : nrptNamespace name.text = name.text := by
  rw [nrptNamespace, startsWith_wildcard, name.text_not_wildcard, if_neg Bool.false_ne_true]

theorem nrptNamespace_wildcard (suffix : String) :
    nrptNamespace ("*." ++ suffix) = "." ++ suffix := by
  rw [nrptNamespace, Utf8.startsWith_eq, Utf8.stripPrefix_append]
  rfl

theorem covers_of_routedBy {name : DomainName} {domain : String} (h : RoutedBy name domain) :
    Covers (nrptNamespace domain) name := by
  cases h with
  | exact host hn =>
    have hdot : Utf8.stripPrefix host.text "." = none := by
      cases hs : Utf8.stripPrefix host.text "." with
      | none => rfl
      | some rest =>
        exact absurd (Utf8.stripPrefix_eq_some_iff.mp hs) (host.text_ne_dot_append rest)
    rw [nrptNamespace_exact, Covers, hdot, hn]
    exact DomainName.zone_text _
  | wildcard host hb =>
    rw [nrptNamespace_wildcard, Covers, Utf8.stripPrefix_append]
    exact hb

theorem mem_apply {domains : List String} {domain : String} (h : domain ∈ domains) :
    addScript (nrptNamespace domain) ∈ apply domains :=
  List.mem_cons_of_mem _ (List.mem_map_of_mem (List.mem_map_of_mem h))

end WindowsNrptConfigurator

namespace AppState

theorem mem_snapshotAllDomains {ephemeralOrder persistentOrder : IterationOrder String DnsRule}
    {setOrder : SetOrder String} {st : AppState} {domain : String} :
    domain ∈ st.snapshotAllDomains ephemeralOrder persistentOrder setOrder ↔
      ∃ rule ∈ st.store.snapshotAll ephemeralOrder persistentOrder, rule.domain = domain := by
  rw [snapshotAllDomains, SetOrder.mem_visit, List.mem_toFinset, List.mem_map]

theorem resolve_mem_snapshot (ephemeralOrder persistentOrder : IterationOrder String DnsRule)
    {st : AppState} {domain : String} {rule : DnsRule} (h : st.store.resolve domain = some rule) :
    rule ∈ st.store.snapshotAll ephemeralOrder persistentOrder ∧ rule.matches domain = true := by
  rw [RuleStore.resolve,
    st.store.wellFormed.resolve_eq_find? ephemeralOrder persistentOrder] at h
  exact ⟨List.mem_of_find?_eq_some h,
    List.find?_some (p := fun r : DnsRule => r.matches domain) h⟩

theorem resolve_isSome_iff (ephemeralOrder persistentOrder : IterationOrder String DnsRule)
    (st : AppState) (domain : String) :
    (st.store.resolve domain).isSome = true ↔
      ∃ rule ∈ st.store.snapshotAll ephemeralOrder persistentOrder,
        rule.matches domain = true := by
  rw [RuleStore.resolve, st.store.wellFormed.resolve_eq_find? ephemeralOrder persistentOrder,
    List.find?_isSome]
  rfl

theorem configuration_covers_routable {lib : TextLibrary} (hl : lib.Documented)
    (ephemeralOrder persistentOrder : IterationOrder String DnsRule) (setOrder : SetOrder String)
    (st : AppState)
    (hv : ∀ rule ∈ st.store.snapshotAll ephemeralOrder persistentOrder,
      validateDomain lib rule.domain = true) :
    let domains := st.snapshotAllDomains ephemeralOrder persistentOrder setOrder
    let entries := SystemdConfigurator.routingDomains (SystemdConfigurator.apply domains)
    (∀ name : DomainName, (st.store.resolve name.text).isSome = true →
      (∃ entry ∈ entries, SystemdConfigurator.Covers entry name) ∧
      (∀ dir, ∃ file, (MacOsConfigurator.apply dir domains).lookup file =
          some MacOsConfigurator.resolverContent ∧ MacOsConfigurator.Covers file name) ∧
      ∃ ns, WindowsNrptConfigurator.addScript ns ∈ WindowsNrptConfigurator.apply domains ∧
        WindowsNrptConfigurator.Covers ns name) ∧
    entries = domains.map SystemdConfigurator.routingDomain ∧ entries.Nodup ∧
    domains.Nodup ∧ ∀ domain, domain ∈ domains ↔
      ∃ rule ∈ st.store.snapshotAll ephemeralOrder persistentOrder, rule.domain = domain := by
  intro domains entries
  have hvalid : ∀ domain ∈ domains, validateDomain lib domain = true := by
    intro domain hd
    obtain ⟨rule,hr,rfl⟩ := mem_snapshotAllDomains.mp hd
    exact hv rule hr
  have hentries : entries = domains.map SystemdConfigurator.routingDomain :=
    SystemdConfigurator.routingDomains_apply hl hvalid
  have hnodup : domains.Nodup := setOrder.nodup _
  refine ⟨?_,hentries,?_,hnodup,fun domain => mem_snapshotAllDomains⟩
  · intro name hsome
    obtain ⟨rule,hrule⟩ := Option.isSome_iff_exists.mp hsome
    obtain ⟨hmem,hmatch⟩ := resolve_mem_snapshot ephemeralOrder persistentOrder hrule
    have hrouted := routedBy_of_matches hl (hv rule hmem) hmatch
    have hdomain : rule.domain ∈ domains := mem_snapshotAllDomains.mpr ⟨rule,hmem,rfl⟩
    refine ⟨⟨_,?_,SystemdConfigurator.covers_of_routedBy hrouted⟩,?_,
      ⟨_,WindowsNrptConfigurator.mem_apply hdomain,
        WindowsNrptConfigurator.covers_of_routedBy hrouted⟩⟩
    · rw [hentries]
      exact List.mem_map_of_mem hdomain
    · intro dir
      exact ⟨_,MacOsConfigurator.lookup_apply hdomain,
        MacOsConfigurator.covers_of_routedBy hrouted⟩
  · rw [hentries]
    exact List.Nodup.map_on (fun a ha b hb heq =>
      SystemdConfigurator.routingDomain_injective hl (hvalid a ha) (hvalid b hb) heq) hnodup

def withRule (domain : String) : AppState :=
  { AppState.new with
    store := RuleStore.reached [.single (.add ⟨domain, .v4 0x7f000001 3000, false⟩)] }

def deepName : DomainName :=
  ⟨["a".toList, "b".toList, "app".toList, "test".toList], by decide, by decide⟩

theorem deep_name_covered :
    ∃ entry ∈ SystemdConfigurator.routingDomains (SystemdConfigurator.apply
        ((withRule "*.app.test").snapshotAllDomains default default default)),
      SystemdConfigurator.Covers entry deepName := by
  have hv : ∀ rule ∈ (withRule "*.app.test").store.snapshotAll default default,
      validateDomain .ascii rule.domain = true := by
    intro rule hr
    change rule ∈ (default : IterationOrder String DnsRule).visit ∅ ++ [] ++
      (default : IterationOrder String DnsRule).visit ∅ ++ [_] at hr
    rw [IterationOrder.visit_empty, List.append_nil, List.nil_append,
      List.nil_append, List.mem_singleton] at hr
    rw [hr]
    decide +kernel
  exact ((configuration_covers_routable TextLibrary.ascii_documented default default default
    (withRule "*.app.test") hv).1 deepName (by decide)).1

end AppState

end SideDns
