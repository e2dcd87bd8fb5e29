import SideDns.Dns.Coverage
import SideDns.Dns.Presentation

namespace SideDns

abbrev HeaderValue := List Char

abbrev HeaderMap := List (String × HeaderValue)

namespace HeaderMap

def get (headers : HeaderMap) (name : String) : Option HeaderValue :=
  (headers.find? fun header => header.1 == name).map Prod.snd

def isVisibleAscii (c : Char) : Bool :=
  decide (32 ≤ c.toNat) && decide (c.toNat < 127) || c == '\t'

def toStr (value : HeaderValue) : Option String :=
  if value.all isVisibleAscii then some (String.ofList value) else none

end HeaderMap

inductive ProxyAction where
  | missingHost
  | badGateway
  | movedPermanently (location : String)
  | connect (target : SocketAddr)
  deriving DecidableEq, Repr

namespace ProxyServer

variable {Key : Type}

def extractHost (text : TextLibrary) (headers : HeaderMap) : Option String :=
  ((headers.get "host").bind HeaderMap.toStr).map fun h => text.toLowercase (Utf8.splitNext h ':')

def connectTarget (target : SocketAddr) : SocketAddr :=
  match target with
  | .v4 0 port => .v4 0x7f000001 port
  | .v6 0 port _ _ => .v6 1 port 0 0
  | target => target

def serve (rule : DnsRule) (host : String) (pathAndQuery : Option String) (isTls : Bool) :
    ProxyAction :=
  if rule.https && !isTls then .movedPermanently ("https://" ++ host ++ pathAndQuery.getD "/")
  else .connect (connectTarget rule.target)

def serviceHandleConnection (text : TextLibrary) (store : InnerRuleStore)
    (resolver : DomainResolver Key) (headers : HeaderMap) (pathAndQuery : Option String)
    (isTls : Bool) : DomainResolver Key × ProxyAction :=
  match extractHost text headers with
  | none => (resolver, .missingHost)
  | some host =>
    match resolver.resolveDomain store host with
    | (resolver, none) => (resolver, .badGateway)
    | (resolver, some rule) => (resolver, serve rule host pathAndQuery isTls)

end ProxyServer

structure AsciiHostName extends DomainName where
  chars : ∀ label ∈ labels, ∀ c ∈ label, c ∈ DomainRegex.hostChars ∧ c.toNat < 128
  notPunycode : ∀ label ∈ labels, (label.take 4).map Char.toLower ≠ ['x', 'n', '-', '-']

namespace AsciiHostName

def portText : Option UInt16 → List Char
  | some port => ':' :: (toString port.toNat).toList
  | none => []

def dotText : Bool → List Char
  | true => ['.']
  | false => []

def hostHeader (name : AsciiHostName) (trailingDot : Bool) (port : Option UInt16) : HeaderValue :=
  name.text.toList ++ dotText trailingDot ++ portText port

theorem mem_text {name : AsciiHostName} {c : Char} (h : c ∈ name.text.toList) :
    c = '.' ∨ c ∈ DomainRegex.hostChars ∧ c.toNat < 128 := by
  rcases DomainName.mem_text h with hdot | ⟨label,hl,hc⟩
  · exact .inl hdot
  · exact .inr (name.chars label hl c hc)

theorem visible_hostChars : ∀ c ∈ DomainRegex.hostChars,
    c.toNat < 128 → HeaderMap.isVisibleAscii c = true ∧ c ≠ ':' :=
  Utf8.forall_mem_of_all (by decide)

theorem visible_text {name : AsciiHostName} {c : Char} (h : c ∈ name.text.toList) :
    HeaderMap.isVisibleAscii c = true ∧ c ≠ ':' := by
  rcases mem_text h with rfl | ⟨hc,hlt⟩
  · decide
  · exact visible_hostChars c hc hlt

theorem ascii_text (name : AsciiHostName) : TextLibrary.Ascii name.text := by
  intro c hc
  rcases mem_text hc with rfl | ⟨-,hlt⟩
  · decide
  · exact hlt

theorem visible_port (p : Nat) : ∀ c ∈ (toString p).toList, HeaderMap.isVisibleAscii c = true := by
  intro c hc
  have hdigit : c.isDigit = true := by
    have hmem : c ∈ Nat.toDigits 10 p := by simpa using hc
    exact Nat.isDigit_of_mem_toDigits (by omega) (by omega) hmem
  simp only [Char.isDigit, Bool.and_eq_true, decide_eq_true_eq] at hdigit
  have hlow : 48 ≤ c.toNat := hdigit.1
  have hhigh : c.toNat ≤ 57 := hdigit.2
  simp only [HeaderMap.isVisibleAscii, Bool.or_eq_true, Bool.and_eq_true, decide_eq_true_eq]
  omega

theorem visible_hostHeader (name : AsciiHostName) (trailingDot : Bool) (port : Option UInt16) :
    (name.hostHeader trailingDot port).all HeaderMap.isVisibleAscii = true := by
  rw [hostHeader, List.all_append, List.all_append, Bool.and_eq_true, Bool.and_eq_true,
    List.all_eq_true, List.all_eq_true, List.all_eq_true]
  refine ⟨⟨fun c hc => (visible_text hc).1,?_⟩,?_⟩
  · cases trailingDot <;> exact Utf8.forall_mem_of_all (by decide)
  · cases port with
    | none =>
      intro c hc
      cases hc
    | some p =>
      intro c hc
      rcases List.mem_cons.mp hc with rfl | hc
      · decide
      · exact visible_port _ c hc

theorem takeWhile_portText {host : List Char} (h : ':' ∉ host) (port : Option UInt16) :
    (host ++ portText port).takeWhile (fun c => c != ':') = host := by
  have hall : ∀ c ∈ host, (c != ':') = true := by
    intro c hc
    rw [bne_iff_ne]
    rintro rfl
    exact h hc
  cases port with
  | none =>
    rw [portText, List.append_nil]
    exact List.takeWhile_eq_self_iff.mpr hall
  | some port =>
    rw [portText, List.takeWhile_append_of_pos hall]
    simp

theorem splitNext_hostHeader (name : AsciiHostName) (trailingDot : Bool) (port : Option UInt16) :
    Utf8.splitNext (String.ofList (name.hostHeader trailingDot port)) ':' =
      name.text ++ String.ofList (dotText trailingDot) := by
  have hcolon : ':' ∉ name.text.toList ++ dotText trailingDot := by
    rw [List.mem_append, not_or]
    refine ⟨fun hc => (visible_text hc).2 rfl,?_⟩
    cases trailingDot <;> decide
  rw [Utf8.splitNext, String.toList_ofList, hostHeader, takeWhile_portText hcolon]
  apply String.toList_inj.mp
  simp

def Ordinary (name : AsciiHostName) : Prop := ∀ label ∈ name.labels, IsOrdinary label

theorem ordinary_of_unhyphened {name : AsciiHostName}
    (h : ∀ label ∈ name.labels, label.head? ≠ some '-') : name.Ordinary := by
  intro label hl
  have hchars := name.chars label hl
  refine ⟨⟨?_,fun c hc => (hchars c hc).1⟩,fun c hc => (hchars c hc).2⟩
  cases label with
  | nil => exact absurd rfl (name.separated [] hl).1
  | cons c rest =>
    have hc := (hchars c List.mem_cons_self).1
    rcases List.mem_append.mp hc with halpha | hdash
    · exact ⟨c,halpha,rfl⟩
    · exact absurd (congrArg some (List.mem_singleton.mp hdash)) (h (c :: rest) hl)

theorem undecoded {hickory : Hickory} (hh : hickory.Documented) (name : AsciiHostName) :
    ∀ label ∈ name.labels, hickory.toUnicode label = none := by
  intro label hl
  cases hu : hickory.toUnicode label with
  | none => rfl
  | some text => exact absurd (hh.decodesPunycode label text hu) (name.notPunycode label hl)

theorem Ordinary.verbatim {hickory : Hickory} (hh : hickory.Documented) {name : AsciiHostName}
    (h : name.Ordinary) : ∀ label ∈ name.labels, hickory.Verbatim label :=
  fun label hl => hh.verbatim (h label hl) (undecoded hh name label hl)

theorem Ordinary.display {hickory : Hickory} (hh : hickory.Documented) {name : AsciiHostName}
    (h : name.Ordinary) : hickory.display name.labels = name.text ++ "." := by
  rw [Hickory.display, Hickory.map_displayLabel (h.verbatim hh), text_eq_intercalate]
  rfl

theorem Ordinary.fromAscii_isSome {hickory : Hickory} (hh : hickory.Documented)
    {name : AsciiHostName} (h : name.Ordinary) (hw : IsWireName name.labels) :
    (hickory.fromAscii (Utf8.toAsciiLowercase name.text ++ ".")).isSome = true := by
  have hlower : Utf8.toAsciiLowercase (name.text ++ ".") =
      Utf8.toAsciiLowercase name.text ++ "." := by
    apply String.toList_inj.mp
    simp [DomainRegex.toLower_dot]
  rw [← hlower, ← h.display hh, hh.fromAsciiSafe _ hw (undecoded hh name)]
  exact fun label hl => hh.ordinarySafe label (h label hl)

theorem backslash_notMem_text (name : AsciiHostName) :
    '\\' ∉ (Utf8.toAsciiLowercase name.text).toList := by
  have hhost : ∀ c ∈ DomainRegex.hostChars, c.toLower ≠ '\\' := Utf8.forall_mem_of_all (by decide)
  intro h
  rw [Utf8.toList_toAsciiLowercase] at h
  obtain ⟨c,hc,hlower⟩ := List.mem_map.mp h
  rcases mem_text hc with rfl | ⟨hmem,-⟩
  · revert hlower
    decide
  · exact hhost c hmem hlower

end AsciiHostName

namespace ProxyServer

variable {Key : Type}

def ruleFor (text : TextLibrary) (store : InnerRuleStore) (resolver : DomainResolver Key)
    (headers : HeaderMap) : Option DnsRule :=
  (extractHost text headers).bind fun host => (resolver.resolveDomain store host).2

theorem serviceHandleConnection_eq (text : TextLibrary) (store : InnerRuleStore)
    (resolver : DomainResolver Key) (headers : HeaderMap) {host : String}
    (hh : extractHost text headers = some host) (pathAndQuery : Option String) (isTls : Bool) :
    (serviceHandleConnection text store resolver headers pathAndQuery isTls).2 =
      match ruleFor text store resolver headers with
      | some rule => serve rule host pathAndQuery isTls
      | none => .badGateway := by
  simp only [serviceHandleConnection, ruleFor, hh, Option.bind_some]
  cases hr : resolver.resolveDomain store host with
  | mk resolver' found => cases found <;> rfl

theorem extractHost_hostHeader {text : TextLibrary} (hl : text.Documented) {headers : HeaderMap}
    {name : AsciiHostName} {trailingDot : Bool} {port : Option UInt16}
    (hget : headers.get "host" = some (name.hostHeader trailingDot port)) :
    extractHost text headers =
      some (Utf8.toAsciiLowercase name.text ++
        String.ofList (AsciiHostName.dotText trailingDot)) := by
  have hstr : HeaderMap.toStr (name.hostHeader trailingDot port) =
      some (String.ofList (name.hostHeader trailingDot port)) := by
    rw [HeaderMap.toStr, if_pos (name.visible_hostHeader trailingDot port)]
  have hascii : TextLibrary.Ascii
      (name.text ++ String.ofList (AsciiHostName.dotText trailingDot)) := by
    refine TextLibrary.ascii_append name.ascii_text ?_
    cases trailingDot <;> exact TextLibrary.ascii_of_all (by decide)
  have hlower : text.toLowercase (name.text ++ String.ofList (AsciiHostName.dotText trailingDot)) =
      Utf8.toAsciiLowercase name.text ++ String.ofList (AsciiHostName.dotText trailingDot) := by
    rw [hl.lowercaseAscii _ hascii]
    apply String.toList_inj.mp
    cases trailingDot <;> simp [AsciiHostName.dotText, DomainRegex.toLower_dot]
  rw [extractHost, hget, Option.bind_some, hstr, Option.map_some, name.splitNext_hostHeader,
    hlower]

theorem queryDomain_of_verbatim {handler : DnsHandler} (hl : handler.text.Documented)
    {name : AsciiHostName} (hv : ∀ label ∈ name.labels, handler.hickory.Verbatim label) :
    handler.queryDomain name.labels = Utf8.toAsciiLowercase name.text := by
  rw [DnsHandler.queryDomain, Hickory.trim_display_name _ hv]
  exact hl.lowercaseAscii _ name.ascii_text

structure Agrees (handler : DnsHandler) (store : InnerRuleStore) (resolver : DomainResolver Key)
    (question : Name) (qtype : RecordType) (headers : HeaderMap) : Prop where
  sameKey : extractHost handler.text headers = some (handler.queryDomain question)
  redirected : (handler.handleRequest store resolver question qtype).2.isLocalNoError = true ↔
    (ruleFor handler.text store (handler.handleRequest store resolver question qtype).1
      headers).isSome = true
  sameRule : ruleFor handler.text store (handler.handleRequest store resolver question qtype).1
    headers = (resolver.resolveDomain store (handler.queryDomain question)).2

theorem agrees_of_sameKey {handler : DnsHandler} {store : InnerRuleStore}
    {resolver : DomainResolver Key} {question : Name} {qtype : RecordType}
    (hq : qtype.isAddress = true) {headers : HeaderMap}
    (hkey : extractHost handler.text headers = some (handler.queryDomain question))
    (hp : (handler.hickory.fromAscii (handler.queryDomain question ++ ".")).isSome = true) :
    Agrees handler store resolver question qtype headers := by
  have hresolver : (handler.handleRequest store resolver question qtype).1 =
      (resolver.resolveDomain store (handler.queryDomain question)).1 := by
    have hcases := handler.handleRequest_cases store resolver question qtype
    generalize handler.handleRequest store resolver question qtype = handled at hcases
    cases hcases with
    | passed hq' =>
      rw [hq] at hq'
      cases hq'
    | _ => rfl
  have hrule : ruleFor handler.text store
      (handler.handleRequest store resolver question qtype).1 headers =
        (resolver.resolveDomain store (handler.queryDomain question)).2 := by
    rw [ruleFor, hkey, Option.bind_some, hresolver, DomainResolver.resolveDomain_again]
  refine ⟨hkey,?_,hrule⟩
  rw [handler.isLocalNoError_iff store resolver question hq, hrule]
  exact ⟨And.left,fun hsome => ⟨hsome,hp⟩⟩

theorem queryDomain_of_ordinary {handler : DnsHandler} (hl : handler.text.Documented)
    (hh : handler.hickory.Documented) {name : AsciiHostName} (h : name.Ordinary) :
    handler.queryDomain name.labels = Utf8.toAsciiLowercase name.text :=
  queryDomain_of_verbatim hl (h.verbatim hh)

theorem backslash_mem_queryDomain {handler : DnsHandler} (hl : handler.text.Documented)
    (hh : handler.hickory.Escaping) {name : AsciiHostName} {label : Label}
    (hmem : label ∈ name.labels) (hhead : label.head? = some '-') :
    '\\' ∈ (handler.queryDomain name.labels).toList := by
  have hlabel : '\\' ∈ (handler.hickory.displayLabel label).toList := by
    rw [hh.hyphenEscaped label hhead (name.chars label hmem), String.toList_append]
    exact List.mem_append_left _ (List.mem_singleton_self _)
  have hpart : (handler.hickory.displayLabel label).toList ∈
      (name.labels.map handler.hickory.displayLabel).map String.toList :=
    List.mem_map_of_mem (List.mem_map_of_mem hmem)
  have hdisplay : '\\' ∈ (handler.hickory.display name.labels).toList := by
    rw [Hickory.display, String.toList_append, String.toList_intercalate]
    exact List.mem_append_left _ (DomainName.mem_intercalate_of_mem hpart hlabel)
  have hascii : TextLibrary.Ascii (handler.hickory.display name.labels) := by
    refine TextLibrary.ascii_append (TextLibrary.ascii_intercalate ?_)
      (TextLibrary.ascii_of_all (by decide))
    intro part hp
    obtain ⟨other,ho,rfl⟩ := List.mem_map.mp hp
    exact hh.displayAscii other (AsciiHostName.undecoded hh.toDocumented name other ho)
  have hlower : Char.toLower '\\' = '\\' := by decide
  rw [DnsHandler.queryDomain,
    hl.lowercaseAscii _ (fun c hc => hascii c (Utf8.mem_of_mem_trimEndMatches hc)),
    Utf8.toList_toAsciiLowercase, ← hlower]
  exact List.mem_map_of_mem (Utf8.mem_trimEndMatches hdisplay (by decide))

theorem agrees_iff_plain_spelling {handler : DnsHandler} (hl : handler.text.Documented)
    (hh : handler.hickory.Escaping) (name : AsciiHostName) (hw : IsWireName name.labels)
    (trailingDot : Bool) (port : Option UInt16) {headers : HeaderMap}
    (hget : headers.get "host" = some (name.hostHeader trailingDot port))
    (store : InnerRuleStore) (resolver : DomainResolver Key) {qtype : RecordType}
    (hq : qtype.isAddress = true) :
    Agrees handler store resolver name.labels qtype headers ↔
      trailingDot = false ∧ ∀ label ∈ name.labels, label.head? ≠ some '-' := by
  have hextract := extractHost_hostHeader hl hget
  constructor
  · intro h
    have hkey := h.sameKey
    rw [hextract, Option.some.injEq] at hkey
    have hplain : ∀ label ∈ name.labels, label.head? ≠ some '-' := by
      intro label hmem hhead
      have hback := backslash_mem_queryDomain hl hh hmem hhead
      rw [← hkey, String.toList_append] at hback
      rcases List.mem_append.mp hback with htext | hdot
      · exact name.backslash_notMem_text htext
      · revert hdot
        cases trailingDot <;> decide
    refine ⟨?_,hplain⟩
    have hordinary := AsciiHostName.ordinary_of_unhyphened hplain
    rw [queryDomain_of_ordinary hl hh.toDocumented hordinary] at hkey
    cases trailingDot with
    | false => rfl
    | true =>
      have hlen := congrArg (fun text => text.toList.length) hkey
      simp [AsciiHostName.dotText] at hlen
  · rintro ⟨rfl,hplain⟩
    have hordinary := AsciiHostName.ordinary_of_unhyphened hplain
    have hquery := queryDomain_of_ordinary hl hh.toDocumented hordinary
    refine agrees_of_sameKey hq ?_ ?_
    · rw [hextract, hquery]
      simp [AsciiHostName.dotText]
    · rw [hquery]
      exact hordinary.fromAscii_isSome hh.toDocumented hw

def sampleName : AsciiHostName where
  labels := ["a".toList, "test".toList]
  nonempty := by decide
  separated := by decide
  chars := by
    rintro label hl
    have hall : ∀ label ∈ ["a".toList, "test".toList],
        label.all (fun c => decide (c ∈ DomainRegex.hostChars ∧ c.toNat < 128)) = true := by
      decide
    exact Utf8.forall_mem_of_all (hall label hl)
  notPunycode := by decide

theorem sampleName_isWireName : IsWireName sampleName.labels := ⟨by decide, by decide⟩

theorem port_ignored :
    Agrees DnsHandler.sampleHandler (AppState.withRule "a.test").store.inner
      (DomainResolver.new : DomainResolver Unit) sampleName.labels .a
      [("accept", "*/*".toList), ("host", sampleName.hostHeader false (some 8080))] :=
  (agrees_iff_plain_spelling TextLibrary.ascii_documented Hickory.sample_escaping sampleName
    sampleName_isWireName false (some 8080) rfl _ _ rfl).mpr ⟨rfl,by decide⟩

theorem trailing_dot_loses_rule :
    ¬ ∀ (handler : DnsHandler) (store : InnerRuleStore) (resolver : DomainResolver Unit)
      (name : AsciiHostName) (trailingDot : Bool) (port : Option UInt16) (qtype : RecordType),
      handler.text.Documented → handler.hickory.Escaping → IsWireName name.labels →
      qtype.isAddress = true →
      Agrees handler store resolver name.labels qtype
        [("host", name.hostHeader trailingDot port)] := by
  intro h
  have hagrees := h DnsHandler.sampleHandler (AppState.withRule "a.test").store.inner
    DomainResolver.new sampleName true none .a TextLibrary.ascii_documented
    Hickory.sample_escaping sampleName_isWireName rfl
  have hredirected := hagrees.redirected
  revert hredirected
  decide

end ProxyServer

end SideDns
