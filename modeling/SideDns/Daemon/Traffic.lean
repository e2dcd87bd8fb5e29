import SideDns.Daemon.Coherence
import SideDns.Proxy.Redirect

namespace SideDns

open Transition (run Guarded)

namespace DomainResolver

variable {Key : Type}

def Current (resolver : DomainResolver Key) (store : InnerRuleStore) : Prop :=
  ∀ domain rule, resolver.cache.lookup domain = some rule → store.resolve domain = some rule

theorem Current.resolveDomain {resolver : DomainResolver Key} {store : InnerRuleStore}
    (h : resolver.Current store) (domain : String) :
    (resolver.resolveDomain store domain).1.Current store ∧
      (resolver.resolveDomain store domain).2 = store.resolve domain := by
  cases hc : resolver.cache.lookup domain with
  | some rule =>
    rw [resolveDomain_of_cached hc]
    exact ⟨h,(h domain rule hc).symm⟩
  | none =>
    cases hs : store.resolve domain with
    | none =>
      simp only [DomainResolver.resolveDomain, hc, hs]
      exact ⟨h,trivial⟩
    | some rule =>
      simp only [DomainResolver.resolveDomain, hc, hs]
      refine ⟨fun key other hk => ?_,trivial⟩
      rw [FiniteMap.lookup_insert_ite] at hk
      split_ifs at hk with heq
      · rw [heq, hs, hk]
      · exact h key other hk

end DomainResolver

inductive Inquiry where
  | question (name : Name) (qtype : RecordType)
  | browse (headers : HeaderMap) (pathAndQuery : Option String) (isTls : Bool)

inductive Answer where
  | dns (reply : Reply)
  | http (action : ProxyAction)
  deriving DecidableEq, Repr

namespace Inquiry

variable {Key : Type}

def serve (handler : DnsHandler) (store : InnerRuleStore) (resolver : DomainResolver Key) :
    Inquiry → DomainResolver Key × Answer
  | question name qtype =>
    let handled := handler.handleRequest store resolver name qtype
    (handled.1, .dns handled.2)
  | browse headers pathAndQuery isTls =>
    let handled := ProxyServer.serviceHandleConnection handler.text store resolver headers
      pathAndQuery isTls
    (handled.1, .http handled.2)

def serveAll (handler : DnsHandler) (store : InnerRuleStore) :
    DomainResolver Key → List Inquiry → List Answer
  | _, [] => []
  | resolver, inquiry :: rest =>
    let served := inquiry.serve handler store resolver
    served.2 :: serveAll handler store served.1 rest

def answer (handler : DnsHandler) (store : InnerRuleStore) : Inquiry → Answer
  | question name qtype =>
    let domain := handler.queryDomain name
    if qtype.isAddress && (store.resolve domain).isSome then
      match handler.respondLocal proxyListenAddr.ip domain qtype with
      | some response => .dns (.answeredLocally response)
      | none => .dns (.failed ⟨false, .servFail, []⟩)
    else .dns (handler.forward domain qtype)
  | browse headers pathAndQuery isTls =>
    match ProxyServer.extractHost handler.text headers with
    | none => .http .missingHost
    | some host =>
      match store.resolve host with
      | none => .http .badGateway
      | some rule => .http (ProxyServer.serve rule host pathAndQuery isTls)

theorem serve_question (handler : DnsHandler) {store : InnerRuleStore}
    {resolver : DomainResolver Key} (h : resolver.Current store) (name : Name)
    (qtype : RecordType) :
    ((question name qtype).serve handler store resolver).1.Current store ∧
      ((question name qtype).serve handler store resolver).2 =
        (question name qtype).answer handler store := by
  obtain ⟨hkept,hfound⟩ := h.resolveDomain (handler.queryDomain name)
  have hcases := handler.handleRequest_cases store resolver name qtype
  simp only [serve, answer]
  generalize handler.handleRequest store resolver name qtype = handled at hcases
  cases hcases with
  | answered rule response hq hr hl =>
    rw [hfound] at hr
    simp only [hq, hr, hl, Option.isSome_some, Bool.and_self, if_true]
    exact ⟨hkept,trivial⟩
  | refused rule hq hr hl =>
    rw [hfound] at hr
    have hnone := handler.respondLocal_isSome proxyListenAddr.ip (handler.queryDomain name) qtype
    rw [hl, Option.isSome_none, Option.isSome_eq_false_iff, Option.isNone_iff_eq_none] at hnone
    simp only [hq, hr, hnone, Option.isSome_some, Bool.and_self, if_true]
    exact ⟨hkept,trivial⟩
  | unknown hq hr =>
    rw [hfound] at hr
    simp only [hr, Option.isSome_none, Bool.and_false]
    exact ⟨hkept,rfl⟩
  | passed hq =>
    simp only [hq, Bool.false_and]
    exact ⟨h,rfl⟩

theorem serve_browse (handler : DnsHandler) {store : InnerRuleStore}
    {resolver : DomainResolver Key} (h : resolver.Current store) (headers : HeaderMap)
    (pathAndQuery : Option String) (isTls : Bool) :
    ((browse headers pathAndQuery isTls).serve handler store resolver).1.Current store ∧
      ((browse headers pathAndQuery isTls).serve handler store resolver).2 =
        (browse headers pathAndQuery isTls).answer handler store := by
  simp only [serve, answer, ProxyServer.serviceHandleConnection]
  cases ProxyServer.extractHost handler.text headers with
  | none => exact ⟨h,rfl⟩
  | some host =>
    obtain ⟨hkept,hfound⟩ := h.resolveDomain host
    dsimp only
    cases hr : resolver.resolveDomain store host with
    | mk resolver' found =>
      rw [hr] at hkept hfound
      obtain rfl : found = store.resolve host := hfound
      cases store.resolve host <;> exact ⟨hkept,rfl⟩

theorem serveAll_current (handler : DnsHandler) {store : InnerRuleStore}
    {resolver : DomainResolver Key} (h : resolver.Current store) (inquiries : List Inquiry) :
    serveAll handler store resolver inquiries = inquiries.map fun i => i.answer handler store := by
  induction inquiries generalizing resolver with
  | nil => rfl
  | cons inquiry rest ih =>
    have hserved : (inquiry.serve handler store resolver).1.Current store ∧
        (inquiry.serve handler store resolver).2 = inquiry.answer handler store := by
      cases inquiry with
      | question name qtype => exact serve_question handler h name qtype
      | browse headers pathAndQuery isTls => exact serve_browse handler h headers pathAndQuery isTls
    rw [serveAll, List.map_cons, hserved.2, ih hserved.1]

structure Routed (handler : DnsHandler) (store : InnerRuleStore) (host : String) (wire : Name)
    (asked browsed : Answer) (pathAndQuery : Option String) (isTls : Bool) : Prop where
  mapped : ∀ rule, store.resolve host = some rule →
    asked = .dns (.answeredLocally ⟨true, .noError, [⟨wire, 10, .a 0x7f00002a⟩]⟩) ∧
      browsed = .http (ProxyServer.serve rule host pathAndQuery isTls)
  unmapped : store.resolve host = none →
    asked = .dns (handler.forward host .a) ∧ browsed = .http .badGateway

theorem answer_routed {handler : DnsHandler} (hl : handler.text.Documented)
    (hh : handler.hickory.Documented) {name : AsciiHostName} (ho : name.Ordinary)
    (hwire : IsWireName name.labels) {port : Option UInt16} {headers : HeaderMap}
    (hget : headers.get "host" = some (name.hostHeader false port)) (store : InnerRuleStore)
    (pathAndQuery : Option String) (isTls : Bool) :
    ∃ wire, handler.hickory.fromAscii (Utf8.toAsciiLowercase name.text ++ ".") = some wire ∧
      Routed handler store (Utf8.toAsciiLowercase name.text) wire
        ((question name.labels .a).answer handler store)
        ((browse headers pathAndQuery isTls).answer handler store) pathAndQuery isTls := by
  obtain ⟨wire,hw⟩ := Option.isSome_iff_exists.mp (ho.fromAscii_isSome hh hwire)
  have hquery := ProxyServer.queryDomain_of_ordinary hl hh ho
  have hhost : ProxyServer.extractHost handler.text headers =
      some (Utf8.toAsciiLowercase name.text) := by
    rw [ProxyServer.extractHost_hostHeader hl hget]
    simp [AsciiHostName.dotText]
  refine ⟨wire,hw,?_⟩
  constructor
  · intro rule hr
    simp only [answer, hquery, hhost, hr, DnsHandler.respondLocal, hw]
    exact ⟨rfl,trivial⟩
  · intro hr
    simp only [answer, hquery, hhost, hr]
    exact ⟨rfl,trivial⟩

end Inquiry

namespace Daemon

variable {Key : Type}

theorem traffic_follows_rules (handler : DnsHandler) (hl : handler.text.Documented)
    (store : RuleStore) (saved : DnsConfig) (acts : List Action)
    (hg : Guarded (step handler.text) (Undisturbed handler.text)
      (watched store saved : Daemon Key) acts)
    (hq : (run (step handler.text) (watched store saved : Daemon Key) acts).Quiescent)
    (inquiries : List Inquiry) :
    let d : Daemon Key := run (step handler.text) (watched store saved) acts
    let rules := d.state.store.inner
    Inquiry.serveAll handler rules d.resolver inquiries =
        inquiries.map (fun i => i.answer handler rules) ∧
      (handler.hickory.Documented → ∀ (name : AsciiHostName) (port : Option UInt16)
        (headers : HeaderMap) (pathAndQuery : Option String) (isTls : Bool),
        name.Ordinary → IsWireName name.labels →
        headers.get "host" = some (name.hostHeader false port) →
        ∃ wire, handler.hickory.fromAscii (Utf8.toAsciiLowercase name.text ++ ".") = some wire ∧
          Inquiry.Routed handler rules (Utf8.toAsciiLowercase name.text) wire
            ((Inquiry.question name.labels .a).answer handler rules)
            ((Inquiry.browse headers pathAndQuery isTls).answer handler rules)
            pathAndQuery isTls) := by
  intro d rules
  have hcoherent : d.Coherent :=
    Transition.guarded_invariant Coherent (fun _ _ h hu => h.step hu)
      (coherent_watched store saved) hg
  have hcurrent : d.resolver.Current rules := hcoherent.current hq.settled hq.drained
  refine ⟨Inquiry.serveAll_current handler hcurrent inquiries,?_⟩
  intro hh name port headers pathAndQuery isTls ho hwire hget
  exact Inquiry.answer_routed hl hh ho hwire hget rules pathAndQuery isTls

def browsing : List Inquiry :=
  [.browse [("host", ProxyServer.sampleName.hostHeader false (some 80))] (some "/") false,
    .question ProxyServer.sampleName.labels .a, .question [['b']] .a]

theorem browsing_follows_rules :
    let d : Daemon Unit := run (step TextLibrary.ascii)
      (watched (AppState.withRule "a.test").store ⟨[]⟩) (lookupOf "a.test")
    let rules := d.state.store.inner
    Inquiry.serveAll DnsHandler.sampleHandler rules d.resolver browsing =
        browsing.map (fun i => i.answer DnsHandler.sampleHandler rules) ∧
      ∃ wire, Inquiry.Routed DnsHandler.sampleHandler rules "a.test" wire
        ((Inquiry.question ProxyServer.sampleName.labels .a).answer DnsHandler.sampleHandler rules)
        ((Inquiry.browse [("host", ProxyServer.sampleName.hostHeader false (some 80))] (some "/")
          false).answer DnsHandler.sampleHandler rules) (some "/") false := by
  intro d rules
  have hquiescent : (run (step TextLibrary.ascii)
      (watched (AppState.withRule "a.test").store ⟨[]⟩ : Daemon Unit)
      (lookupOf "a.test")).Quiescent := ⟨by decide,by decide,by decide⟩
  obtain ⟨hserved,hrouted⟩ :=
    traffic_follows_rules DnsHandler.sampleHandler TextLibrary.ascii_documented
      (AppState.withRule "a.test").store ⟨[]⟩ (lookupOf "a.test")
      ⟨trivial,trivial,trivial,trivial⟩ hquiescent browsing
  have hordinary : ProxyServer.sampleName.Ordinary :=
    AsciiHostName.ordinary_of_unhyphened (by decide)
  obtain ⟨wire,-,hwire⟩ := hrouted Hickory.sample_documented ProxyServer.sampleName (some 80)
    [("host", ProxyServer.sampleName.hostHeader false (some 80))] (some "/") false hordinary
    ProxyServer.sampleName_isWireName rfl
  exact ⟨hserved,wire,hwire⟩

end Daemon

end SideDns
