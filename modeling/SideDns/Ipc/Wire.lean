import SideDns.Address
import SideDns.Ipc.Message
import SideDns.Library.Lines
import SideDns.Library.Serde

namespace SideDns

open Serde (adjacent adjacentContent asBool asOption asString asUnsigned asVec internal
  internalNewtype optionContent structFields tagOnly unitContent variantFields)

namespace SocketAddr

def toJson (addr : SocketAddr) : Json := .string (String.ofList addr.fmt)

def ofJson (json : Json) : Option SocketAddr :=
  (asString json).bind fun text => fromStr text.toList

theorem ofJson_toJson {addr : SocketAddr} (h : addr.flowinfo = 0) :
    ofJson addr.toJson = some addr := by
  rw [toJson, ofJson, asString, Option.bind_some, String.toList_ofList, fromStr_fmt h]

end SocketAddr

def ruleFields (domain : String) (target : SocketAddr) (https : Bool) : List (String × Json) :=
  [("domain", .string domain), ("target", target.toJson), ("https", .bool https)]

namespace DnsRule

def toJson (rule : DnsRule) : Json := .object (ruleFields rule.domain rule.target rule.https)

def ofFields (get : String → Option Json) : Option DnsRule :=
  ((get "domain").bind asString).bind fun domain =>
    ((get "target").bind SocketAddr.ofJson).bind fun target =>
      ((get "https").bind asBool).map fun https => ⟨domain, target, https⟩

def ofJson (json : Json) : Option DnsRule :=
  (structFields ["domain", "target", "https"] json).bind ofFields

theorem ofFields_ruleFields (domain : String) {target : SocketAddr} (https : Bool)
    (h : target.flowinfo = 0) :
    ofFields (fun name => (ruleFields domain target https).lookup name) =
      some ⟨domain, target, https⟩ := by
  have hdomain : (ruleFields domain target https).lookup "domain" = some (.string domain) := rfl
  have htarget : (ruleFields domain target https).lookup "target" = some target.toJson := rfl
  have hhttps : (ruleFields domain target https).lookup "https" = some (.bool https) := rfl
  rw [ofFields, hdomain, htarget, hhttps, Option.bind_some, Option.bind_some, Option.bind_some,
    SocketAddr.ofJson_toJson h]
  rfl

theorem nodup_ruleFields (domain : String) (target : SocketAddr) (https : Bool) :
    ((ruleFields domain target https).map Prod.fst).Nodup := by
  change ["domain", "target", "https"].Nodup
  decide

theorem ofJson_toJson {rule : DnsRule} (h : rule.target.flowinfo = 0) :
    ofJson rule.toJson = some rule := by
  rw [ofJson, toJson, Serde.structFields_object (nodup_ruleFields _ _ _), Option.bind_some]
  exact ofFields_ruleFields rule.domain rule.https h

end DnsRule

def domainFields (domain : String) : Json := .object [("domain", .string domain)]

def readRule (json : Json) : Option DnsRule :=
  (variantFields ["domain", "target", "https"] json).bind DnsRule.ofFields

theorem readRule_ruleFields (domain : String) {target : SocketAddr} (https : Bool)
    (h : target.flowinfo = 0) :
    readRule (.object (ruleFields domain target https)) = some ⟨domain, target, https⟩ := by
  rw [readRule, Serde.variantFields_object (DnsRule.nodup_ruleFields _ _ _), Option.bind_some]
  exact DnsRule.ofFields_ruleFields domain https h

def readDomain (json : Json) : Option String :=
  (variantFields ["domain"] json).bind fun get => (get "domain").bind asString

theorem readDomain_domainFields (domain : String) :
    readDomain (domainFields domain) = some domain := by
  rw [readDomain, domainFields, Serde.variantFields_object (by simp), Option.bind_some]
  rfl

namespace IpcRequest

def tagged (name : String) (content : Json) : Json := adjacentContent "cmd" "payload" name content

def toJson : IpcRequest → Json
  | add domain target https => tagged "Add" (.object (ruleFields domain target https))
  | addEphemeral domain target https =>
      tagged "AddEphemeral" (.object (ruleFields domain target https))
  | remove domain => tagged "Remove" (domainFields domain)
  | removeEphemeral domain => tagged "RemoveEphemeral" (domainFields domain)
  | list => tagOnly "cmd" "List"
  | resolve domain => tagged "Resolve" (domainFields domain)
  | status => tagOnly "cmd" "Status"
  | stop => tagOnly "cmd" "Stop"
  | subscribe => tagOnly "cmd" "Subscribe"

def variant (name : String) (content : Option Json) : Option IpcRequest :=
  match name with
  | "Add" => (content.bind readRule).map fun r => add r.domain r.target r.https
  | "AddEphemeral" =>
      (content.bind readRule).map fun r => addEphemeral r.domain r.target r.https
  | "Remove" => (content.bind readDomain).map remove
  | "RemoveEphemeral" => (content.bind readDomain).map removeEphemeral
  | "List" => (unitContent content).map fun _ => list
  | "Resolve" => (content.bind readDomain).map resolve
  | "Status" => (unitContent content).map fun _ => status
  | "Stop" => (unitContent content).map fun _ => stop
  | "Subscribe" => (unitContent content).map fun _ => subscribe
  | _ => none

def ofJson (json : Json) : Option IpcRequest :=
  (adjacent "cmd" "payload" json).bind fun p => variant p.1 p.2

def target? : IpcRequest → Option SocketAddr
  | add _ target _ => some target
  | addEphemeral _ target _ => some target
  | _ => none

def Portable (request : IpcRequest) : Prop := ∀ target ∈ request.target?, target.flowinfo = 0

theorem ofJson_tagged (name : String) (content : Json) :
    ofJson (tagged name content) = variant name (some content) := by
  rw [ofJson, tagged, Serde.adjacent_content (by decide)]
  rfl

theorem ofJson_tagOnly (name : String) : ofJson (tagOnly "cmd" name) = variant name none := by
  rw [ofJson, Serde.adjacent_tagOnly (by decide)]
  rfl

theorem ofJson_toJson {request : IpcRequest} (h : request.Portable) :
    ofJson request.toJson = some request := by
  cases request with
  | add domain target https | addEphemeral domain target https =>
    rw [toJson, ofJson_tagged, variant, Option.bind_some,
      readRule_ruleFields domain https (h target rfl)]
    rfl
  | remove domain | removeEphemeral domain | resolve domain =>
    rw [toJson, ofJson_tagged, variant, Option.bind_some, readDomain_domainFields]
    rfl
  | list => exact ofJson_tagOnly "List"
  | status => exact ofJson_tagOnly "Status"
  | stop => exact ofJson_tagOnly "Stop"
  | subscribe => exact ofJson_tagOnly "Subscribe"

end IpcRequest

namespace DnsEvent

def tagged (name : String) (rule : DnsRule) : Json :=
  internalNewtype "kind" name (ruleFields rule.domain rule.target rule.https)

def toJson : DnsEvent → Json
  | ruleAdded rule => tagged "RuleAdded" rule
  | ruleRemoved rule => tagged "RuleRemoved" rule
  | ephemeralAdded rule => tagged "EphemeralAdded" rule
  | ephemeralRemoved rule => tagged "EphemeralRemoved" rule
  | daemonStopped => tagOnly "kind" "DaemonStopped"

def variant (name : String) (fields : Json) : Option DnsEvent :=
  match name with
  | "RuleAdded" => (DnsRule.ofJson fields).map ruleAdded
  | "RuleRemoved" => (DnsRule.ofJson fields).map ruleRemoved
  | "EphemeralAdded" => (DnsRule.ofJson fields).map ephemeralAdded
  | "EphemeralRemoved" => (DnsRule.ofJson fields).map ephemeralRemoved
  | "DaemonStopped" => some daemonStopped
  | _ => none

def ofJson (json : Json) : Option DnsEvent := (internal "kind" json).bind fun p => variant p.1 p.2

def Portable (event : DnsEvent) : Prop := ∀ rule ∈ event.rule?, rule.target.flowinfo = 0

theorem ofJson_tagged (name : String) {rule : DnsRule} :
    ofJson (tagged name rule) = variant name rule.toJson := by
  have hkind : "kind" ∉ (ruleFields rule.domain rule.target rule.https).map Prod.fst := by
    change "kind" ∉ ["domain", "target", "https"]
    decide
  rw [ofJson, tagged, Serde.internal_newtype hkind]
  rfl

theorem ofJson_toJson {event : DnsEvent} (h : event.Portable) :
    ofJson event.toJson = some event := by
  cases event with
  | ruleAdded rule | ruleRemoved rule | ephemeralAdded rule | ephemeralRemoved rule =>
    rw [toJson, ofJson_tagged, variant, DnsRule.ofJson_toJson (h rule rfl)]
    rfl
  | daemonStopped =>
    rw [toJson, ofJson, Serde.internal_tagOnly]
    rfl

end DnsEvent

namespace IpcResponse

def tagged (name : String) (content : Json) : Json := adjacentContent "type" "data" name content

def statusFields (running : Bool) (ruleCount : Nat) : List (String × Json) :=
  [("running", .bool running), ("rule_count", .number ruleCount)]

def toJson : IpcResponse → Json
  | ok => tagOnly "type" "Ok"
  | error message => tagged "Error" (.string message)
  | rules listed => tagged "Rules" (.array (listed.map DnsRule.toJson))
  | resolved none => tagged "Resolved" .null
  | resolved (some rule) => tagged "Resolved" rule.toJson
  | status running ruleCount => tagged "Status" (.object (statusFields running ruleCount))
  | event sent => tagged "Event" sent.toJson

def readStatus (json : Json) : Option (Bool × Nat) :=
  (variantFields ["running", "rule_count"] json).bind fun get =>
    ((get "running").bind asBool).bind fun running =>
      ((get "rule_count").bind (asUnsigned 64)).map fun ruleCount => (running, ruleCount)

def variant (name : String) (content : Option Json) : Option IpcResponse :=
  match name with
  | "Ok" => (unitContent content).map fun _ => ok
  | "Error" => (content.bind asString).map error
  | "Rules" => (content.bind (asVec DnsRule.ofJson)).map rules
  | "Resolved" => (optionContent DnsRule.ofJson content).map resolved
  | "Status" => (content.bind readStatus).map fun p => status p.1 p.2
  | "Event" => (content.bind DnsEvent.ofJson).map event
  | _ => none

def ofJson (json : Json) : Option IpcResponse :=
  (adjacent "type" "data" json).bind fun p => variant p.1 p.2

def carried : IpcResponse → List DnsRule
  | rules listed => listed
  | resolved rule => rule.toList
  | event sent => sent.rule?.toList
  | _ => []

structure Portable (response : IpcResponse) : Prop where
  targets : ∀ rule ∈ response.carried, rule.target.flowinfo = 0
  count : ∀ running ruleCount, response = status running ruleCount → ruleCount < 2 ^ 64

theorem ofJson_tagged (name : String) (content : Json) :
    ofJson (tagged name content) = variant name (some content) := by
  rw [ofJson, tagged, Serde.adjacent_content (by decide)]
  rfl

theorem readStatus_statusFields (running : Bool) {ruleCount : Nat} (h : ruleCount < 2 ^ 64) :
    readStatus (.object (statusFields running ruleCount)) = some (running, ruleCount) := by
  have hfields : ((statusFields running ruleCount).map Prod.fst).Nodup := by
    change ["running", "rule_count"].Nodup
    decide
  have hrunning : (statusFields running ruleCount).lookup "running" = some (.bool running) := rfl
  have hcount : (statusFields running ruleCount).lookup "rule_count" =
      some (.number ruleCount) := rfl
  rw [readStatus, Serde.variantFields_object hfields, Option.bind_some]
  simp only
  rw [hrunning, hcount, Option.bind_some, Option.bind_some, asUnsigned, if_pos h]
  rfl

theorem ofJson_toJson {response : IpcResponse} (h : response.Portable) :
    ofJson response.toJson = some response := by
  cases response with
  | ok =>
    have htag : adjacent "type" "data" (tagOnly "type" "Ok") = some ("Ok", none) :=
      Serde.adjacent_tagOnly (by decide) "Ok"
    rw [toJson, ofJson, htag]
    rfl
  | error message =>
    rw [toJson, ofJson_tagged]
    rfl
  | rules listed =>
    have hlisted : asVec DnsRule.ofJson (.array (listed.map DnsRule.toJson)) = some listed :=
      Serde.asVec_map fun rule hr => DnsRule.ofJson_toJson (h.targets rule hr)
    rw [toJson, ofJson_tagged, variant, Option.bind_some, hlisted]
    rfl
  | resolved rule =>
    cases rule with
    | none =>
      rw [toJson, ofJson_tagged]
      rfl
    | some rule =>
      have hrule := DnsRule.ofJson_toJson (h.targets rule (List.mem_singleton_self rule))
      have hread : asOption DnsRule.ofJson rule.toJson =
          (DnsRule.ofJson rule.toJson).map some := rfl
      rw [toJson, ofJson_tagged, variant, optionContent, hread, hrule]
      rfl
  | status running ruleCount =>
    rw [toJson, ofJson_tagged, variant, Option.bind_some,
      readStatus_statusFields running (h.count running ruleCount rfl)]
    rfl
  | event sent =>
    have hevent : sent.Portable := fun rule hr => h.targets rule (Option.mem_toList.mpr hr)
    rw [toJson, ofJson_tagged, variant, Option.bind_some, DnsEvent.ofJson_toJson hevent]
    rfl

end IpcResponse

namespace Wire

def payload (json : Json) : String := String.ofList json.print

def line (json : Json) : List UInt8 := Utf8.bytes ((payload json).push '\n')

def send (request : IpcRequest) : List UInt8 := line request.toJson

def writeResponse (response : IpcResponse) : List UInt8 := line response.toJson

def decode {Message : Type} (ofJson : Json → Option Message) (text : String) : Option Message :=
  (Json.parse text.toList).bind ofJson

def decodeLine {Message : Type} (ofJson : Json → Option Message) (line : List UInt8) :
    Option Message :=
  (String.fromUTF8? ⟨line.toArray⟩).bind (decode ofJson)

def receive {Message : Type} (ofJson : Json → Option Message) (stream : List UInt8) :
    List (Option Message) :=
  (Lines.lines stream).map (decodeLine ofJson)

theorem payload_no_newline (json : Json) : '\n' ∉ (payload json).toList := by
  intro hmem
  rw [payload, String.toList_ofList] at hmem
  exact absurd (Json.print_printable json '\n' hmem) (by decide)

theorem payload_no_return (json : Json) : (payload json).toList.getLast? ≠ some '\r' := by
  intro hlast
  rw [payload, String.toList_ofList] at hlast
  exact absurd (Json.print_printable json '\r' (List.mem_of_getLast? hlast)) (by decide)

theorem payload_isLine (json : Json) : Lines.IsLine (Utf8.bytes (payload json)) := by
  have hprintable : ∀ b ∈ Utf8.bytes (payload json), b.toNat < 128 → 32 ≤ b.toNat := by
    intro b hb hlt
    obtain ⟨c,hc,heq⟩ := Utf8.exists_char_of_mem_bytes hb hlt
    rw [payload, String.toList_ofList] at hc
    rw [← heq]
    exact Json.print_printable json c hc
  refine ⟨fun hmem => ?_,fun hlast => ?_⟩
  · exact absurd (hprintable _ hmem (by decide)) (by decide)
  · exact absurd (hprintable _ (List.mem_of_getLast? hlast) (by decide)) (by decide)

theorem line_eq (json : Json) : line json = Utf8.bytes (payload json) ++ [Lines.newline] := by
  have hpush : (payload json).push '\n' = payload json ++ String.singleton '\n' :=
    String.push_eq_append _
  rw [line, hpush, Utf8.bytes_append]
  rfl

theorem decode_payload {Message : Type} (ofJson : Json → Option Message) (json : Json) :
    decode ofJson (payload json) = ofJson json := by
  rw [decode, payload, String.toList_ofList, Json.parse_print, Option.bind_some]

theorem decodeLine_bytes {Message : Type} (ofJson : Json → Option Message) (text : String) :
    decodeLine ofJson (Utf8.bytes text) = decode ofJson text := by
  have harray : (⟨(Utf8.bytes text).toArray⟩ : ByteArray) = text.toByteArray := rfl
  have hvalid : text.toByteArray.IsValidUTF8 := text.isValidUTF8
  rw [decodeLine, harray, String.fromUTF8?, dif_pos hvalid]
  rfl

theorem receive_lines {Message : Type} {toJson : Message → Json}
    {ofJson : Json → Option Message} {messages : List Message}
    (h : ∀ message ∈ messages, ofJson (toJson message) = some message) :
    receive ofJson (messages.flatMap fun message => line (toJson message)) =
      messages.map some := by
  have hlines := Lines.lines_flatMap (fun message => Utf8.bytes (payload (toJson message)))
    fun message (_ : message ∈ messages) => payload_isLine (toJson message)
  simp only [← line_eq] at hlines
  rw [receive, hlines, List.map_map]
  refine List.map_congr_left fun message hm => ?_
  change decodeLine ofJson (Utf8.bytes (payload (toJson message))) = some message
  rw [decodeLine_bytes, decode_payload, h message hm]

theorem messages_cross_the_wire (requests : List IpcRequest) (responses : List IpcResponse)
    (hrequests : ∀ request ∈ requests, request.Portable)
    (hresponses : ∀ response ∈ responses, response.Portable) :
    (∀ request ∈ requests, '\n' ∉ (payload request.toJson).toList ∧
      (payload request.toJson).toList.getLast? ≠ some '\r' ∧
      decode IpcRequest.ofJson (payload request.toJson) = some request) ∧
    (∀ response ∈ responses, '\n' ∉ (payload response.toJson).toList ∧
      (payload response.toJson).toList.getLast? ≠ some '\r' ∧
      decode IpcResponse.ofJson (payload response.toJson) = some response) ∧
    receive IpcRequest.ofJson (requests.flatMap send) = requests.map some ∧
    receive IpcResponse.ofJson (responses.flatMap writeResponse) = responses.map some := by
  refine ⟨?_,?_,?_,?_⟩
  · intro request hr
    refine ⟨payload_no_newline _,payload_no_return _,?_⟩
    rw [decode_payload, IpcRequest.ofJson_toJson (hrequests request hr)]
  · intro response hr
    refine ⟨payload_no_newline _,payload_no_return _,?_⟩
    rw [decode_payload, IpcResponse.ofJson_toJson (hresponses response hr)]
  · exact receive_lines fun request hr => IpcRequest.ofJson_toJson (hrequests request hr)
  · exact receive_lines fun response hr => IpcResponse.ofJson_toJson (hresponses response hr)

def sampleRequests : List IpcRequest :=
  [.add "a\"\\b\r\n" (.v6 0x20010db8000000000000000000000001 8080 0 3) true,
    .addEphemeral "*.dev.local" (.v4 0x7f000001 3000) false, .removeEphemeral "\t\u0000é", .list,
    .subscribe]

def sampleResponses : List IpcResponse :=
  [.ok, .error "unknown rule: \"x\"\r", .rules [⟨"api.local", .v4 0x7f000001 3000, true⟩],
    .resolved none, .status true 5, .event (.ephemeralRemoved ⟨"\n", .v4 0x0a000001 80, false⟩),
    .event .daemonStopped]

theorem sample_messages_cross :
    receive IpcRequest.ofJson (sampleRequests.flatMap send) = sampleRequests.map some ∧
    receive IpcResponse.ofJson (sampleResponses.flatMap writeResponse) =
      sampleResponses.map some := by
  have hrequests : ∀ request ∈ sampleRequests, request.Portable := by
    simp [sampleRequests, IpcRequest.Portable, IpcRequest.target?, SocketAddr.flowinfo]
  have hresponses : ∀ response ∈ sampleResponses, response.Portable := by
    intro response hr
    refine ⟨?_,?_⟩
    · revert response
      simp [sampleResponses, IpcResponse.carried, DnsEvent.rule?, SocketAddr.flowinfo]
    · rintro running ruleCount rfl
      simp [sampleResponses] at hr
      omega
  exact (messages_cross_the_wire sampleRequests sampleResponses hrequests hresponses).2.2

example : payload (IpcResponse.event (.ruleAdded ⟨"\r", .v4 0x7f000001 80, true⟩)).toJson =
    "\x7b\"type\":\"Event\",\"data\":\x7b\"kind\":\"RuleAdded\",\"domain\":\"\\r\"," ++
      "\"target\":\"127.0.0.1:80\",\"https\":true\x7d\x7d" := by decide

end Wire

end SideDns
