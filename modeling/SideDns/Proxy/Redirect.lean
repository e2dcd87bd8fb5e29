import SideDns.Daemon.CertRestore
import SideDns.Proxy.Server

namespace SideDns

open Transition (run)

namespace DomainResolver

variable {Key : Type}

theorem resolveDomain_caches {store : InnerRuleStore} {resolver : DomainResolver Key}
    {domain : String} {rule : DnsRule}
    (h : (resolver.resolveDomain store domain).2 = some rule) :
    (resolver.resolveDomain store domain).1.cache.lookup domain = some rule ∧
      (resolver.resolveDomain store domain).1.certsCache = resolver.certsCache := by
  cases hc : resolver.cache.lookup domain with
  | some cached =>
    rw [resolveDomain, hc] at h ⊢
    exact ⟨hc.trans h,rfl⟩
  | none =>
    cases hs : store.resolve domain with
    | none =>
      simp only [resolveDomain, hc, hs] at h
      cases h
    | some found =>
      simp only [resolveDomain, hc, hs] at h ⊢
      rw [FiniteMap.lookup_insert_ite, if_pos rfl]
      exact ⟨h,trivial⟩

theorem resolveDomain_of_cached {store : InnerRuleStore} {resolver : DomainResolver Key}
    {domain : String} {rule : DnsRule} (h : resolver.cache.lookup domain = some rule) :
    resolver.resolveDomain store domain = (resolver, some rule) := by
  rw [resolveDomain, h]

end DomainResolver

namespace ProxyServer

theorem toLower_idem (c : Char) : c.toLower.toLower = c.toLower := by
  have hidem : ∀ d ∈ DomainRegex.alphanumeric, d.toLower.toLower = d.toLower :=
    Utf8.forall_mem_of_all (by decide)
  rcases DomainRegex.toLower_cases c with heq | ⟨-,hc,-⟩
  · rw [heq, heq]
  · exact hidem c hc

theorem visible_toLower {c : Char} (h : HeaderMap.isVisibleAscii c = true ∧ c ≠ ':') :
    HeaderMap.isVisibleAscii c.toLower = true ∧ c.toLower ≠ ':' := by
  rcases DomainRegex.toLower_cases c with heq | ⟨hmem,-,-⟩
  · rw [heq]
    exact h
  · have halpha : ∀ d ∈ DomainRegex.alphanumeric, d.toNat < 128 →
        HeaderMap.isVisibleAscii d = true ∧ d ≠ ':' :=
      Utf8.forall_mem_of_all (by decide)
    refine halpha _ hmem (DomainRegex.toLower_ascii.mpr ?_)
    have hvisible := h.1
    rw [HeaderMap.isVisibleAscii, Bool.or_eq_true, Bool.and_eq_true, decide_eq_true_eq,
      decide_eq_true_eq, beq_iff_eq] at hvisible
    rcases hvisible with ⟨-,hlt⟩ | rfl
    · omega
    · decide

structure IsHost (host : String) : Prop where
  visible : ∀ c ∈ host.toList, HeaderMap.isVisibleAscii c = true ∧ c ≠ ':'
  lower : host.toList.map Char.toLower = host.toList

theorem IsHost.ascii {text : String}
    (h : ∀ c ∈ text.toList, HeaderMap.isVisibleAscii c = true ∧ c ≠ ':') :
    TextLibrary.Ascii text := by
  intro c hc
  have hvisible := (h c hc).1
  rw [HeaderMap.isVisibleAscii, Bool.or_eq_true, Bool.and_eq_true, decide_eq_true_eq,
    decide_eq_true_eq, beq_iff_eq] at hvisible
  rcases hvisible with ⟨-,hlt⟩ | rfl
  · omega
  · decide

theorem isHost_extractHost {text : TextLibrary} (hl : text.Documented) {headers : HeaderMap}
    {host : String} (h : extractHost text headers = some host) : IsHost host := by
  rw [extractHost, Option.map_eq_some_iff] at h
  obtain ⟨value,hvalue,rfl⟩ := h
  obtain ⟨raw,-,hstr⟩ := Option.bind_eq_some_iff.mp hvalue
  rw [HeaderMap.toStr] at hstr
  split_ifs at hstr with hall
  obtain rfl := Option.some.inj hstr
  have hraw : ∀ c ∈ (Utf8.splitNext (String.ofList raw) ':').toList,
      HeaderMap.isVisibleAscii c = true ∧ c ≠ ':' := by
    intro c hc
    rw [Utf8.splitNext, String.toList_ofList, String.toList_ofList] at hc
    refine ⟨List.all_eq_true.mp hall c (List.takeWhile_subset _ hc),?_⟩
    exact bne_iff_ne.mp (List.mem_takeWhile_imp (p := fun x => x != ':') hc)
  rw [hl.lowercaseAscii _ (IsHost.ascii hraw)]
  constructor
  · intro c hc
    rw [Utf8.toList_toAsciiLowercase] at hc
    obtain ⟨d,hd,rfl⟩ := List.mem_map.mp hc
    exact visible_toLower (hraw d hd)
  · rw [Utf8.toList_toAsciiLowercase, List.map_map]
    exact List.map_congr_left fun c _ => toLower_idem c

theorem extractHost_of_isHost {text : TextLibrary} (hl : text.Documented) {headers : HeaderMap}
    {host : String} (h : IsHost host) (hget : headers.get "host" = some host.toList) :
    extractHost text headers = some host := by
  have hstr : HeaderMap.toStr host.toList = some host := by
    rw [HeaderMap.toStr, if_pos (List.all_eq_true.mpr fun c hc => (h.visible c hc).1),
      String.ofList_toList]
  have hsplit : Utf8.splitNext host ':' = host := by
    have hall : ∀ c ∈ host.toList, (c != ':') = true :=
      fun c hc => bne_iff_ne.mpr (h.visible c hc).2
    rw [Utf8.splitNext, List.takeWhile_eq_self_iff.mpr hall, String.ofList_toList]
  have hlower : text.toLowercase host = host := by
    rw [hl.lowercaseAscii _ (IsHost.ascii h.visible)]
    apply String.toList_inj.mp
    rw [Utf8.toList_toAsciiLowercase, h.lower]
  rw [extractHost, hget, Option.bind_some, hstr, Option.map_some, hsplit, hlower]

def urlDelimiters : List Char := ['/', '?', '#', '@', '\\']

def followedHost (location : String) : Option String :=
  (Utf8.stripPrefix location "https://").map fun rest =>
    String.ofList (rest.toList.takeWhile fun c => !urlDelimiters.contains c)

def IsPath (pathAndQuery : Option String) : Prop :=
  ∀ target, pathAndQuery = some target → target.toList.head? = some '/'

theorem IsPath.cons {pathAndQuery : Option String} (h : IsPath pathAndQuery) :
    ∃ rest, (pathAndQuery.getD "/").toList = '/' :: rest := by
  cases pathAndQuery with
  | none => exact ⟨[],by decide⟩
  | some target => exact List.head?_eq_some_iff.mp (h target rfl)

theorem followedHost_redirect {host : String} (hh : ∀ c ∈ host.toList, c ∉ urlDelimiters)
    {pathAndQuery : Option String} (hp : IsPath pathAndQuery) :
    followedHost ("https://" ++ host ++ pathAndQuery.getD "/") = some host := by
  obtain ⟨rest,hrest⟩ := hp.cons
  have hall : ∀ c ∈ host.toList, (!urlDelimiters.contains c) = true := by
    intro c hc
    simpa using hh c hc
  have hslash : '/' ∈ urlDelimiters := by decide
  rw [followedHost, String.append_assoc, Utf8.stripPrefix_append, Option.map_some,
    String.toList_append, hrest, List.takeWhile_append_of_pos hall,
    List.takeWhile_cons_of_neg (by simpa using hslash), List.append_nil, String.ofList_toList]

inductive Served {Key : Type} (text : TextLibrary) (store : InnerRuleStore)
    (resolver : DomainResolver Key) (headers : HeaderMap) (pathAndQuery : Option String)
    (isTls : Bool) : DomainResolver Key × ProxyAction → Prop where
  | missingHost (h : extractHost text headers = none) :
      Served text store resolver headers pathAndQuery isTls (resolver, .missingHost)
  | badGateway (host : String) (h : extractHost text headers = some host)
      (hr : (resolver.resolveDomain store host).2 = none) :
      Served text store resolver headers pathAndQuery isTls
        ((resolver.resolveDomain store host).1, .badGateway)
  | found (host : String) (rule : DnsRule) (h : extractHost text headers = some host)
      (hr : (resolver.resolveDomain store host).2 = some rule) :
      Served text store resolver headers pathAndQuery isTls
        ((resolver.resolveDomain store host).1, serve rule host pathAndQuery isTls)

theorem serviceHandleConnection_cases {Key : Type} (text : TextLibrary) (store : InnerRuleStore)
    (resolver : DomainResolver Key) (headers : HeaderMap) (pathAndQuery : Option String)
    (isTls : Bool) :
    Served text store resolver headers pathAndQuery isTls
      (serviceHandleConnection text store resolver headers pathAndQuery isTls) := by
  cases hh : extractHost text headers with
  | none =>
    simp only [serviceHandleConnection, hh]
    exact .missingHost hh
  | some host =>
    simp only [serviceHandleConnection, hh]
    cases hr : (resolver.resolveDomain store host).2 with
    | none =>
      have hpair : resolver.resolveDomain store host =
          ((resolver.resolveDomain store host).1, none) := Prod.ext rfl hr
      rw [hpair]
      exact .badGateway host hh hr
    | some rule =>
      have hpair : resolver.resolveDomain store host =
          ((resolver.resolveDomain store host).1, some rule) := Prod.ext rfl hr
      rw [hpair]
      exact .found host rule hh hr

end ProxyServer

namespace TlsDaemon

def serve (text : TextLibrary) (t : TlsDaemon) (headers : HeaderMap)
    (pathAndQuery : Option String) (isTls : Bool) : TlsDaemon × ProxyAction :=
  let served := ProxyServer.serviceHandleConnection text t.daemon.state.store.inner
    t.daemon.resolver headers pathAndQuery isTls
  ({ t with daemon := { t.daemon with resolver := served.1 } }, served.2)

theorem serve_movedPermanently {text : TextLibrary} {t : TlsDaemon} {headers : HeaderMap}
    {pathAndQuery : Option String} {isTls : Bool} {location : String}
    (h : (t.serve text headers pathAndQuery isTls).2 = .movedPermanently location) :
    ∃ host rule, ProxyServer.extractHost text headers = some host ∧
      (t.daemon.resolver.resolveDomain t.daemon.state.store.inner host).2 = some rule ∧
      rule.https = true ∧ isTls = false ∧ location = "https://" ++ host ++ pathAndQuery.getD "/" ∧
      (t.serve text headers pathAndQuery isTls).1.daemon.resolver.cache.lookup host =
        some rule ∧
      (t.serve text headers pathAndQuery isTls).1.certs = t.certs := by
  simp only [serve, certs] at h ⊢
  have hserved := ProxyServer.serviceHandleConnection_cases text t.daemon.state.store.inner
    t.daemon.resolver headers pathAndQuery isTls
  generalize ProxyServer.serviceHandleConnection text t.daemon.state.store.inner
    t.daemon.resolver headers pathAndQuery isTls = served at hserved h
  cases hserved with
  | missingHost hh => cases h
  | badGateway host hh hr => cases h
  | found host rule hh hr =>
    obtain ⟨hcache,hcerts⟩ := DomainResolver.resolveDomain_caches hr
    simp only [ProxyServer.serve] at h
    split_ifs at h with hs
    · rw [Bool.and_eq_true, Bool.not_eq_true'] at hs
      exact ⟨host,rule,hh,hr,hs.1,hs.2,(ProxyAction.movedPermanently.inj h).symm,hcache,hcerts⟩

theorem certify_keeps (t : TlsDaemon) (domain : String) (io : SignOutcomes) :
    (t.certify domain io).1.daemon.resolver.cache = t.daemon.resolver.cache ∧
      (t.certify domain io).1.handshakes = t.handshakes := by
  rw [certify]
  split
  · exact ⟨rfl,rfl⟩
  · obtain ⟨-,-,hcache,hhandshakes⟩ := t.signDomain_keeps domain io
    exact ⟨hcache,hhandshakes⟩

theorem resolveDomain_cached {t : TlsDaemon} {name : String} {rule : DnsRule}
    (h : t.daemon.resolver.cache.lookup name = some rule) :
    t.resolveDomain name = (t, some rule) := by
  rw [resolveDomain, DomainResolver.resolveDomain_of_cached h]
  rfl

theorem resolve_keeps {t : TlsDaemon} {name : String} {rule : DnsRule}
    (h : t.daemon.resolver.cache.lookup name = some rule) (io : SignOutcomes) :
    (t.resolve (some name) io).1.daemon.resolver.cache = t.daemon.resolver.cache ∧
      (t.resolve (some name) io).1.handshakes = t.handshakes := by
  rw [resolve]
  cases hca : t.certAuthority with
  | none => exact ⟨rfl,rfl⟩
  | some ca =>
    simp only [resolveDomain_cached h]
    split
    · exact t.certify_keeps name io
    · exact ⟨rfl,rfl⟩

theorem serve_tls_cached {text : TextLibrary} {t : TlsDaemon} {headers : HeaderMap}
    {host : String} {rule : DnsRule} (hh : ProxyServer.extractHost text headers = some host)
    (hc : t.daemon.resolver.cache.lookup host = some rule) (pathAndQuery : Option String) :
    (t.serve text headers pathAndQuery true).2 =
      .connect (ProxyServer.connectTarget rule.target) := by
  simp only [serve, ProxyServer.serviceHandleConnection, hh,
    DomainResolver.resolveDomain_of_cached hc, ProxyServer.serve, Bool.not_true, Bool.and_false,
    Bool.false_eq_true, if_false]

theorem redirect_is_followed (lib : TextLibrary) (hl : lib.Documented) (t : TlsDaemon)
    (headers : HeaderMap) (pathAndQuery : Option String) {location : String}
    (h : (t.serve lib headers pathAndQuery false).2 = .movedPermanently location) :
    ∃ (host : String) (rule : DnsRule), ProxyServer.extractHost lib headers = some host ∧
      (t.daemon.resolver.resolveDomain t.daemon.state.store.inner host).2 = some rule ∧
      rule.https = true ∧ location = "https://" ++ host ++ pathAndQuery.getD "/" ∧
      (ProxyServer.IsPath pathAndQuery → (∀ c ∈ host.toList, c ∉ ProxyServer.urlDelimiters) →
        ProxyServer.followedHost location = some host) ∧ ∀ io,
      let t₁ := (t.serve lib headers pathAndQuery false).1
      let t₂ := run (step lib) t₁
        (.hello (some host) :: List.replicate 6 (.proceed t₁.handshakes.length io))
      (∃ handshake, t₂.handshakes = t₁.handshakes ++ [handshake] ∧
        (handshake.certificate.isSome = true ↔ t.certAuthority.isSome = true ∧
          ((t.certs.lookup host).isSome = true ∨ io.succeed = true))) ∧
      ∀ followed pathAndQuery', followed.get "host" = some host.toList →
        (t₂.serve lib followed pathAndQuery' true).2 =
          .connect (ProxyServer.connectTarget rule.target) := by
  obtain ⟨host,rule,hh,hr,hs,-,hlocation,hcache,hcerts⟩ := serve_movedPermanently h
  refine ⟨host,rule,hh,hr,hs,hlocation,?_,fun io => ?_⟩
  · intro hpath hurl
    rw [hlocation]
    exact ProxyServer.followedHost_redirect hurl hpath
  intro t₁ t₂
  obtain ⟨hkept,hjoined⟩ := resolve_keeps hcache io
  obtain ⟨handshake,hrun,hcertificate⟩ := handshake_alone_resolves lib t₁ (some host) io
  have ht₂ : t₂ = (t₁.resolve (some host) io).1.join handshake := hrun
  constructor
  · refine ⟨handshake,?_,?_⟩
    · rw [ht₂]
      exact congrArg (· ++ [handshake]) hjoined
    · have hauthority : t₁.certAuthority = t.certAuthority := rfl
      rw [hcertificate, resolve_isSome, resolveDomain_cached hcache, hcerts, hauthority,
        Option.any_some, and_iff_right hs]
  · intro followed pathAndQuery' hget
    have hhost := ProxyServer.extractHost_of_isHost hl (ProxyServer.isHost_extractHost hl hh) hget
    refine serve_tls_cached hhost ?_ pathAndQuery'
    rw [ht₂]
    exact (congrArg (fun cache => cache.lookup host) hkept).trans hcache

def plainRequest : HeaderMap := [("host", "API.test:8080".toList)]

theorem plainRequest_redirected :
    ((load installedPair ⟨[securedApi]⟩).serve .ascii plainRequest (some "/v1?q=1") false).2 =
      .movedPermanently "https://api.test/v1?q=1" := by
  decide

theorem plain_request_followed :
    ProxyServer.followedHost "https://api.test/v1?q=1" = some "api.test" ∧ ∀ io,
      let t := load installedPair ⟨[securedApi]⟩
      let t₁ := (t.serve .ascii plainRequest (some "/v1?q=1") false).1
      let t₂ := run (step .ascii) t₁
        (.hello (some "api.test") :: List.replicate 6 (.proceed t₁.handshakes.length io))
      (∃ handshake, t₂.handshakes = t₁.handshakes ++ [handshake] ∧
        (handshake.certificate.isSome = true ↔ t.certAuthority.isSome = true ∧
          ((t.certs.lookup "api.test").isSome = true ∨ io.succeed = true))) ∧
      ∀ followed pathAndQuery', followed.get "host" = some "api.test".toList →
        (t₂.serve .ascii followed pathAndQuery' true).2 =
          .connect (ProxyServer.connectTarget securedApi.target) := by
  obtain ⟨host,rule,hhost,hrule,-,-,hread,hfollow⟩ :=
    redirect_is_followed .ascii TextLibrary.ascii_documented (load installedPair ⟨[securedApi]⟩)
      plainRequest (some "/v1?q=1") plainRequest_redirected
  have hextract : ProxyServer.extractHost .ascii plainRequest = some "api.test" := by decide
  obtain rfl := Option.some.inj (hextract.symm.trans hhost)
  have hresolve : ((load installedPair ⟨[securedApi]⟩).daemon.resolver.resolveDomain
      (load installedPair ⟨[securedApi]⟩).daemon.state.store.inner "api.test").2 =
        some securedApi := by decide
  obtain rfl := Option.some.inj (hresolve.symm.trans hrule)
  have hplain : "api.test".toList.all (!ProxyServer.urlDelimiters.contains ·) = true := by decide
  refine ⟨hread ?_ fun c hc => ?_,hfollow⟩
  · intro target htarget
    obtain rfl := Option.some.inj htarget
    decide
  · simpa using List.all_eq_true.mp hplain c hc

end TlsDaemon

end SideDns
