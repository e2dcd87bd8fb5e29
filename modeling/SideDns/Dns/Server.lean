import SideDns.Config
import SideDns.Dns.Resolver
import SideDns.Ipc.Handler

namespace SideDns

abbrev Label := List Char

abbrev Name := List Label

inductive RecordType where
  | a
  | aaaa
  | other (code : UInt16)
  deriving DecidableEq, Repr

def RecordType.isAddress : RecordType → Bool
  | a => true
  | aaaa => true
  | other _ => false

inductive RData where
  | a (ip : BitVec 32)
  | aaaa (ip : BitVec 128)
  | other (data : List UInt8)
  deriving DecidableEq, Repr

structure Record where
  name : Name
  ttl : Nat
  rdata : RData
  deriving DecidableEq, Repr

inductive ResponseCode where
  | noError
  | servFail
  | nxDomain
  deriving DecidableEq, Repr

structure Response where
  authoritative : Bool
  code : ResponseCode
  answers : List Record
  deriving DecidableEq, Repr

inductive UpstreamLookup where
  | found (records : List Record)
  | noRecordsFound (code : ResponseCode)
  | failed
  deriving DecidableEq, Repr

inductive Reply where
  | answeredLocally (response : Response)
  | forwarded (query : String) (qtype : RecordType) (response : Response)
  | failed (response : Response)
  deriving DecidableEq, Repr

def Reply.isForwarded : Reply → Bool
  | forwarded _ _ _ => true
  | _ => false

def Reply.isLocalNoError : Reply → Bool
  | answeredLocally response => response.code == .noError
  | _ => false

structure Hickory where
  toUnicode : Label → Option String
  displayLabel : Label → String
  isSafe : Label → Bool
  fromAscii : String → Option Name

def Hickory.display (hickory : Hickory) (name : Name) : String :=
  ".".intercalate (name.map hickory.displayLabel) ++ "."

structure DnsHandler where
  text : TextLibrary
  hickory : Hickory
  upstream : String → RecordType → UpstreamLookup

namespace DnsHandler

variable {Key : Type}

def queryDomain (handler : DnsHandler) (name : Name) : String :=
  handler.text.toLowercase (Utf8.trimEndMatches (handler.hickory.display name) '.')

def respondLocal (handler : DnsHandler) (ip : IpAddr) (domain : String) (qtype : RecordType) :
    Option Response :=
  match handler.hickory.fromAscii (domain ++ ".") with
  | none => none
  | some name =>
    match ip, qtype with
    | .v4 v4, .a => some ⟨true, .noError, [⟨name, dnsRecordTtlSeconds, .a v4⟩]⟩
    | .v6 v6, .aaaa => some ⟨true, .noError, [⟨name, dnsRecordTtlSeconds, .aaaa v6⟩]⟩
    | _, _ => some ⟨true, .noError, []⟩

def forward (handler : DnsHandler) (domain : String) (qtype : RecordType) : Reply :=
  let query := domain ++ "."
  match handler.upstream query qtype with
  | .found records => .forwarded query qtype ⟨false, .noError, records⟩
  | .noRecordsFound _ => .forwarded query qtype ⟨false, .nxDomain, []⟩
  | .failed => .forwarded query qtype ⟨false, .servFail, []⟩

def resolve (handler : DnsHandler) (store : InnerRuleStore) (resolver : DomainResolver Key)
    (domain : String) (qtype : RecordType) : DomainResolver Key × Option Reply :=
  if qtype.isAddress then
    match resolver.resolveDomain store domain with
    | (resolver, some _) =>
        (resolver, (handler.respondLocal proxyListenAddr.ip domain qtype).map .answeredLocally)
    | (resolver, none) => (resolver, some (handler.forward domain qtype))
  else (resolver, some (handler.forward domain qtype))

def handleRequest (handler : DnsHandler) (store : InnerRuleStore) (resolver : DomainResolver Key)
    (name : Name) (qtype : RecordType) : DomainResolver Key × Reply :=
  match handler.resolve store resolver (handler.queryDomain name) qtype with
  | (resolver, some reply) => (resolver, reply)
  | (resolver, none) => (resolver, .failed ⟨false, .servFail, []⟩)

theorem isForwarded_forward (handler : DnsHandler) (domain : String) (qtype : RecordType) :
    (handler.forward domain qtype).isForwarded = true := by
  rw [forward]
  cases handler.upstream (domain ++ ".") qtype <;> rfl

theorem respondLocal_isSome (handler : DnsHandler) (ip : IpAddr) (domain : String)
    (qtype : RecordType) :
    (handler.respondLocal ip domain qtype).isSome =
      (handler.hickory.fromAscii (domain ++ ".")).isSome := by
  rw [respondLocal]
  cases handler.hickory.fromAscii (domain ++ ".") with
  | none => rfl
  | some name => cases ip <;> cases qtype <;> rfl

theorem respondLocal_noError {handler : DnsHandler} {ip : IpAddr} {domain : String}
    {qtype : RecordType} {response : Response}
    (h : handler.respondLocal ip domain qtype = some response) : response.code = .noError := by
  rw [respondLocal] at h
  cases hn : handler.hickory.fromAscii (domain ++ ".") with
  | none =>
    rw [hn] at h
    cases h
  | some name =>
    rw [hn] at h
    cases ip <;> cases qtype <;> cases h <;> rfl

inductive Handled (handler : DnsHandler) (store : InnerRuleStore) (resolver : DomainResolver Key)
    (domain : String) (qtype : RecordType) : DomainResolver Key × Reply → Prop where
  | answered (rule : DnsRule) (response : Response) (hq : qtype.isAddress = true)
      (hr : (resolver.resolveDomain store domain).2 = some rule)
      (hl : handler.respondLocal proxyListenAddr.ip domain qtype = some response) :
      Handled handler store resolver domain qtype
        ((resolver.resolveDomain store domain).1, .answeredLocally response)
  | refused (rule : DnsRule) (hq : qtype.isAddress = true)
      (hr : (resolver.resolveDomain store domain).2 = some rule)
      (hl : handler.hickory.fromAscii (domain ++ ".") = none) :
      Handled handler store resolver domain qtype
        ((resolver.resolveDomain store domain).1, .failed ⟨false, .servFail, []⟩)
  | unknown (hq : qtype.isAddress = true) (hr : (resolver.resolveDomain store domain).2 = none) :
      Handled handler store resolver domain qtype
        ((resolver.resolveDomain store domain).1, handler.forward domain qtype)
  | passed (hq : qtype.isAddress = false) :
      Handled handler store resolver domain qtype (resolver, handler.forward domain qtype)

theorem handleRequest_cases (handler : DnsHandler) (store : InnerRuleStore)
    (resolver : DomainResolver Key) (name : Name) (qtype : RecordType) :
    Handled handler store resolver (handler.queryDomain name) qtype
      (handler.handleRequest store resolver name qtype) := by
  cases hq : qtype.isAddress with
  | false =>
    simp only [handleRequest, resolve, hq]
    exact .passed hq
  | true =>
    simp only [handleRequest, resolve, hq, if_pos]
    cases hr : resolver.resolveDomain store (handler.queryDomain name) with
    | mk resolver' found =>
      have hfst := congrArg Prod.fst hr
      have hsnd := congrArg Prod.snd hr
      cases found with
      | none =>
        have hunknown : Handled handler store resolver (handler.queryDomain name) qtype _ :=
          .unknown hq hsnd
        rw [hfst] at hunknown
        exact hunknown
      | some rule =>
        cases hl : handler.respondLocal proxyListenAddr.ip (handler.queryDomain name) qtype with
        | none =>
          have hsome := handler.respondLocal_isSome proxyListenAddr.ip
            (handler.queryDomain name) qtype
          rw [hl] at hsome
          have hrefused := Handled.refused rule hq hsnd
            (Option.isSome_eq_false_iff.mp hsome.symm |> Option.isNone_iff_eq_none.mp)
          rw [hfst] at hrefused
          exact hrefused
        | some response =>
          have hanswered := Handled.answered rule response hq hsnd hl
          rw [hfst] at hanswered
          exact hanswered

theorem isForwarded_iff (handler : DnsHandler) (store : InnerRuleStore)
    (resolver : DomainResolver Key) (name : Name) (qtype : RecordType) :
    (handler.handleRequest store resolver name qtype).2.isForwarded = true ↔
      (qtype.isAddress = true →
        (resolver.resolveDomain store (handler.queryDomain name)).2 = none) := by
  have hcases := handler.handleRequest_cases store resolver name qtype
  generalize handler.handleRequest store resolver name qtype = handled at hcases
  cases hcases with
  | answered rule response hq hr hl =>
    refine iff_of_false (by simp [Reply.isForwarded]) fun h => ?_
    rw [h hq] at hr
    cases hr
  | refused rule hq hr hl =>
    refine iff_of_false (by simp [Reply.isForwarded]) fun h => ?_
    rw [h hq] at hr
    cases hr
  | unknown hq hr => exact iff_of_true (handler.isForwarded_forward _ _) fun _ => hr
  | passed hq =>
    refine iff_of_true (handler.isForwarded_forward _ _) fun h => ?_
    rw [hq] at h
    cases h

theorem isLocalNoError_iff (handler : DnsHandler) (store : InnerRuleStore)
    (resolver : DomainResolver Key) (name : Name) {qtype : RecordType}
    (hq : qtype.isAddress = true) :
    (handler.handleRequest store resolver name qtype).2.isLocalNoError = true ↔
      (resolver.resolveDomain store (handler.queryDomain name)).2.isSome = true ∧
        (handler.hickory.fromAscii (handler.queryDomain name ++ ".")).isSome = true := by
  have hforward : ∀ domain, (handler.forward domain qtype).isLocalNoError = false := by
    intro domain
    rw [forward]
    cases handler.upstream (domain ++ ".") qtype <;> rfl
  have hcases := handler.handleRequest_cases store resolver name qtype
  generalize handler.handleRequest store resolver name qtype = handled at hcases
  cases hcases with
  | answered rule response _ hr hl =>
    have hsome := handler.respondLocal_isSome proxyListenAddr.ip (handler.queryDomain name) qtype
    rw [hl] at hsome
    refine iff_of_true ?_ ⟨by rw [hr]; rfl,hsome.symm⟩
    simp [Reply.isLocalNoError, respondLocal_noError hl]
  | refused rule _ hr hl =>
    refine iff_of_false (by simp [Reply.isLocalNoError]) ?_
    rw [hl]
    simp
  | unknown _ hr =>
    refine iff_of_false (by simp [hforward]) ?_
    rw [hr]
    simp
  | passed hq' =>
    rw [hq] at hq'
    cases hq'

end DnsHandler

namespace DomainResolver

variable {Key : Type}

theorem resolveDomain_isSome (store : InnerRuleStore) (resolver : DomainResolver Key)
    (domain : String) :
    (resolver.resolveDomain store domain).2.isSome =
      ((resolver.cache.lookup domain).isSome || (store.resolve domain).isSome) := by
  rw [resolveDomain]
  cases resolver.cache.lookup domain with
  | some rule => rfl
  | none => cases store.resolve domain <;> rfl

theorem resolveDomain_again (store : InnerRuleStore) (resolver : DomainResolver Key)
    (domain : String) :
    ((resolver.resolveDomain store domain).1.resolveDomain store domain).2 =
      (resolver.resolveDomain store domain).2 := by
  cases hc : resolver.cache.lookup domain with
  | some rule => simp [resolveDomain, hc]
  | none =>
    cases hs : store.resolve domain with
    | none => simp [resolveDomain, hc, hs]
    | some rule => simp [resolveDomain, hc, hs]

end DomainResolver

end SideDns
