import SideDns.Ipc.Stored
import SideDns.Library.JsonExtension

namespace SideDns

open FiniteMap (IterationOrder)
open Transition (run)

theorem IpcRequest.toJson_object (request : IpcRequest) :
    ∃ members, request.toJson = .object members := by
  cases request <;> exact ⟨_,rfl⟩

theorem IpcResponse.toJson_object (response : IpcResponse) :
    ∃ members, response.toJson = .object members := by
  cases response with
  | resolved rule => cases rule <;> exact ⟨_,rfl⟩
  | _ => exact ⟨_,rfl⟩

namespace Wire

def jsonBytes (json : Json) : List UInt8 := Utf8.bytes (payload json)

theorem jsonBytes_ne_nil (json : Json) : jsonBytes json ≠ [] := by
  intro hnil
  have hchars : json.print = [] := by
    rw [jsonBytes, Utf8.bytes_eq_flatMap, payload, String.toList_ofList,
      List.flatMap_eq_nil_iff] at hnil
    exact List.eq_nil_iff_forall_not_mem.mpr fun c hc => String.utf8EncodeChar_ne_nil (hnil c hc)
  have hpos := Json.print_length_pos json
  rw [hchars] at hpos
  exact absurd hpos (Nat.lt_irrefl 0)

theorem decodeLine_torn {Message : Type} (ofJson : Json → Option Message)
    {members : List (String × Json)} {k : Nat}
    (h : k < (jsonBytes (.object members)).length) :
    decodeLine ofJson ((jsonBytes (.object members)).take k) = none := by
  rw [decodeLine]
  cases htext : String.fromUTF8? ⟨((jsonBytes (.object members)).take k).toArray⟩ with
  | none => rfl
  | some text =>
    have hbytes : Utf8.bytes text = (jsonBytes (.object members)).take k := by
      rw [String.fromUTF8?] at htext
      split_ifs at htext
      rw [← Option.some.inj htext]
      exact List.toList_toArray
    have hsplit : Utf8.bytes text ++ (jsonBytes (.object members)).drop k =
        Utf8.bytes (payload (.object members)) := by
      rw [hbytes, List.take_append_drop, jsonBytes]
    obtain ⟨back,hback⟩ := Utf8.toList_prefix_of_bytes hsplit
    have hne : back ≠ [] := by
      rintro rfl
      rw [List.append_nil] at hback
      rw [String.toList_inj.mp hback] at hbytes
      have hlen := congrArg List.length hbytes
      rw [List.length_take, ← jsonBytes] at hlen
      omega
    rw [payload, String.toList_ofList] at hback
    rw [Option.bind_some, decode, Json.parse_print_truncated hback.symm hne]
    rfl

theorem decodeLine_whole {Message : Type} {ofJson : Json → Option Message} {json : Json} :
    decodeLine ofJson (jsonBytes json) = ofJson json := by
  rw [jsonBytes, decodeLine_bytes, decode_payload]

def firstLine {Message : Type} (ofJson : Json → Option Message) (stream : List UInt8) :
    Option Message :=
  (Lines.nextLine stream).bind fun p => decodeLine ofJson p.1

theorem firstLine_take {Message : Type} {ofJson : Json → Option Message}
    {members : List (String × Json)} (count : Nat) :
    firstLine ofJson ((line (.object members)).take count) =
      if (jsonBytes (.object members)).length ≤ count then ofJson (.object members) else none := by
  have hline := payload_isLine (.object members)
  have hne := jsonBytes_ne_nil (.object members)
  rw [line_eq, ← jsonBytes] at *
  split_ifs with hcount
  · by_cases hfull : count = (jsonBytes (.object members)).length
    · rw [hfull, List.take_left' rfl, firstLine, Lines.nextLine_unterminated hline.newline hne,
        Option.bind_some, decodeLine_whole]
    · rw [List.take_of_length_le (by simp; omega), firstLine, Lines.nextLine_append [] hline,
        Option.bind_some, decodeLine_whole]
  · have hlt := Nat.lt_of_not_le hcount
    rw [List.take_append_of_le_length (by omega), firstLine]
    have hclean : Lines.newline ∉ (jsonBytes (.object members)).take count :=
      fun hmem => hline.newline (List.mem_of_mem_take hmem)
    by_cases hnil : (jsonBytes (.object members)).take count = []
    · rw [hnil]
      rfl
    · rw [Lines.nextLine_unterminated hclean hnil, Option.bind_some, decodeLine_torn ofJson hlt]

theorem firstLine_send {request : IpcRequest} (h : request.Portable) (count : Nat) :
    firstLine IpcRequest.ofJson ((send request).take count) =
      if (jsonBytes request.toJson).length ≤ count then some request else none := by
  obtain ⟨members,heq⟩ := request.toJson_object
  have hread := IpcRequest.ofJson_toJson h
  rw [send, heq] at *
  rw [firstLine_take, hread]

theorem firstLine_writeResponse {response : IpcResponse} (h : response.Portable) (count : Nat) :
    firstLine IpcResponse.ofJson ((writeResponse response).take count) =
      if (jsonBytes response.toJson).length ≤ count then some response else none := by
  obtain ⟨members,heq⟩ := response.toJson_object
  have hread := IpcResponse.ofJson_toJson h
  rw [writeResponse, heq] at *
  rw [firstLine_take, hread]

end Wire

inductive SendError where
  | io
  | connectionClosed
  | serde
  deriving DecidableEq, Repr

namespace IpcClient

def readResponse (stream : List UInt8) : Except SendError IpcResponse :=
  match Lines.nextLine stream with
  | none => .error .connectionClosed
  | some (line, _) =>
    match String.fromUTF8? ⟨line.toArray⟩ with
    | none => .error .io
    | some text =>
      match Wire.decode IpcResponse.ofJson text with
      | none => .error .serde
      | some response => .ok response

theorem readResponse_toOption (stream : List UInt8) :
    (readResponse stream).toOption = Wire.firstLine IpcResponse.ofJson stream := by
  rw [readResponse, Wire.firstLine]
  cases Lines.nextLine stream with
  | none => rfl
  | some p =>
    simp only [Option.bind_some, Wire.decodeLine]
    cases String.fromUTF8? ⟨p.1.toArray⟩ with
    | none => rfl
    | some text =>
      simp only [Option.bind_some]
      cases Wire.decode IpcResponse.ofJson text <;> rfl

end IpcClient

inductive Served where
  | closed
  | subscribed
  | answered (response : IpcResponse)
  deriving DecidableEq, Repr

def Served.stream : Served → List UInt8
  | answered response => Wire.writeResponse response
  | _ => []

structure Attempt where
  request : IpcRequest
  portable : request.Portable
  single : request ≠ .subscribe
  sent : Nat
  returned : Nat

namespace Attempt

def Arrives (a : Attempt) : Prop := (Wire.jsonBytes a.request.toJson).length ≤ a.sent

instance (a : Attempt) : Decidable a.Arrives := inferInstanceAs (Decidable (_ ≤ _))

def Returns (a : Attempt) (response : IpcResponse) : Prop :=
  (Wire.jsonBytes response.toJson).length ≤ a.returned

instance (a : Attempt) (response : IpcResponse) : Decidable (a.Returns response) :=
  inferInstanceAs (Decidable (_ ≤ _))

theorem firstLine_arrived (a : Attempt) :
    Wire.firstLine IpcRequest.ofJson ((Wire.send a.request).take a.sent) =
      if a.Arrives then some a.request else none :=
  Wire.firstLine_send a.portable a.sent

end Attempt

namespace AppState

variable (lib : TextLibrary) (order : IterationOrder String DnsRule)

def serveConnection (st : AppState) (stream : List UInt8) : AppState × Served :=
  match Wire.firstLine IpcRequest.ofJson stream with
  | none => (st, .closed)
  | some request =>
    if request = .subscribe then (st, .subscribed)
    else
      let handled := st.handle lib order request
      (handled.1, .answered handled.2)

def exchange (st : AppState) (a : Attempt) : AppState × Except SendError IpcResponse :=
  let served := st.serveConnection lib order ((Wire.send a.request).take a.sent)
  (served.1, IpcClient.readResponse (served.2.stream.take a.returned))

def exchanges : AppState → List Attempt → AppState × List (Except SendError IpcResponse)
  | st, [] => (st, [])
  | st, a :: rest =>
    let exchanged := st.exchange lib order a
    let others := exchanges exchanged.1 rest
    (others.1, exchanged.2 :: others.2)

def replies : AppState → List Attempt → List (Option IpcResponse)
  | _, [] => []
  | st, a :: rest =>
    if a.Arrives then
      let handled := st.handle lib order a.request
      (if a.Returns handled.2 then some handled.2 else none) :: replies handled.1 rest
    else none :: replies st rest

variable {lib} {order}

theorem exchange_missed {st : AppState} {a : Attempt} (h : ¬ a.Arrives) :
    st.exchange lib order a = (st, .error .connectionClosed) := by
  rw [exchange, serveConnection, a.firstLine_arrived, if_neg h]
  simp only [Served.stream, List.take_nil]
  rfl

theorem exchange_arrived {st : AppState} {a : Attempt} (h : a.Arrives)
    (hp : (st.handle lib order a.request).2.Portable) :
    (st.exchange lib order a).1 = (st.handle lib order a.request).1 ∧
      (st.exchange lib order a).2.toOption =
        if a.Returns (st.handle lib order a.request).2 then
          some (st.handle lib order a.request).2
        else none := by
  rw [exchange, serveConnection, a.firstLine_arrived, if_pos h]
  simp only [if_neg a.single, IpcClient.readResponse_toOption, Served.stream]
  exact ⟨trivial,Wire.firstLine_writeResponse hp a.returned⟩

theorem requests_arrive_whole_or_not (lib : TextLibrary) (order : IterationOrder String DnsRule)
    (st : AppState) (attempts : List Attempt)
    (hstored : st.store.inner.Holds fun rule => rule.target.flowinfo = 0)
    (hlen : st.store.len + attempts.length < 2 ^ 64) :
    (st.exchanges lib order attempts).1 =
      st.serve lib order ((attempts.filter fun a => a.Arrives).map Attempt.request) ∧
    (st.exchanges lib order attempts).2.map Except.toOption = st.replies lib order attempts := by
  induction attempts generalizing st with
  | nil => exact ⟨rfl,rfl⟩
  | cons a rest ih =>
    rw [List.length_cons] at hlen
    rw [exchanges, replies, List.map_cons]
    by_cases h : a.Arrives
    · have hp : (st.handle lib order a.request).2.Portable :=
        portable_handle hstored (by omega) order a.portable
      obtain ⟨hstate,hreply⟩ := exchange_arrived h hp
      have hgrows := st.len_handle_le lib order a.request
      obtain ⟨hrest,hreplies⟩ := ih (st.handle lib order a.request).1
        (holds_handle hstored order a.portable.writes) (by omega)
      rw [if_pos h, List.filter_cons_of_pos (by simpa using h)]
      simp only [hstate, hreply, hreplies]
      exact ⟨hrest,trivial⟩
    · obtain ⟨hrest,hreplies⟩ := ih st hstored (by omega)
      rw [if_neg h, List.filter_cons_of_neg (by simpa using h), exchange_missed h]
      simp only [hreplies]
      exact ⟨hrest,rfl⟩

def killed : List Attempt :=
  [⟨.add "api.local" (.v4 0x7f000001 3000) true, by simp [IpcRequest.Portable,
      IpcRequest.target?, SocketAddr.flowinfo], nofun, 200, 19⟩,
    ⟨.remove "api.local", nofun, nofun, 40, 200⟩]

theorem killed_client_leaves_no_half_request :
    (AppState.new.exchanges TextLibrary.unicode default killed).1 =
      AppState.new.serve TextLibrary.unicode default
        ((killed.filter fun a => a.Arrives).map Attempt.request) ∧
    (AppState.new.exchanges TextLibrary.unicode default killed).2.map Except.toOption =
      AppState.new.replies TextLibrary.unicode default killed :=
  requests_arrive_whole_or_not TextLibrary.unicode default AppState.new killed
    InnerRuleStore.holds_new (by decide)

end AppState

end SideDns
