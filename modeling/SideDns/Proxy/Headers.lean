import SideDns.Address
import SideDns.Config
import SideDns.Library.Multimap
import SideDns.Proxy.Server

namespace SideDns

def IpAddr.fmt : IpAddr → String
  | .v4 ip => String.ofList (IpText.fmtOctets (SocketAddr.octets ip))
  | .v6 ip => String.ofList (IpText.fmtSegments (SocketAddr.segments ip))

namespace HeaderValue

def isValid (b : UInt8) : Bool := (decide (32 ≤ b) && b != 127) || b == 9

def fromStr (s : String) : Option HeaderValue :=
  if (Utf8.bytes s).all isValid then some ((Utf8.bytes s).map fun b => Char.ofNat b.toNat)
  else none

end HeaderValue

namespace HeaderMap

def getAll (headers : HeaderMap) (name : String) : List HeaderValue := Multimap.getAll headers name

def remove (headers : HeaderMap) (name : String) : HeaderMap := Multimap.remove headers name

def insert (headers : HeaderMap) (name : String) (value : HeaderValue) : HeaderMap :=
  Multimap.insert headers (Utf8.toAsciiLowercase name) value

def insertStr (headers : HeaderMap) (name text : String) : HeaderMap :=
  match HeaderValue.fromStr text with
  | some value => headers.insert name value
  | none => headers

end HeaderMap

inductive Upstream where
  | unreachable
  | handshakeFailed
  | sendFailed
  | responded (status : Nat)
  deriving DecidableEq, Repr

inductive Relayed where
  | badGateway (body : String)
  | failed
  | responded (sent : HeaderMap) (status : Nat) (upgraded : Bool)
  deriving DecidableEq, Repr

namespace ProxyServer

def hopByHopHeaders : List String :=
  ["proxy-authorization", "proxy-authenticate", "te", "transfer-encoding", "trailer",
    "proxy-connection"]

def isWebsocket (headers : HeaderMap) : Bool :=
  let upgrade := ((headers.get "upgrade").bind HeaderMap.toStr).map Utf8.toAsciiLowercase
  let connection := Utf8.toAsciiLowercase
    (((headers.get "connection").bind HeaderMap.toStr).getD "")
  let hasUpgrade := upgrade == some "websocket"
  let hasConnectionUpgrade := Utf8.contains connection "upgrade"
  hasUpgrade && hasConnectionUpgrade

def addProxyHeaders (headers : HeaderMap) (clientIp : IpAddr) (isTls : Bool) : HeaderMap :=
  let ipStr := clientIp.fmt
  ((headers.insertStr "X-Real-IP" ipStr).insertStr "X-Forwarded-For" ipStr).insertStr
    "X-Forwarded-Proto" (if isTls then "https" else "http")

def stripHopByHop (headers : HeaderMap) : HeaderMap :=
  let headers := hopByHopHeaders.foldl HeaderMap.remove headers
  if isWebsocket headers then headers else headers.remove "connection"

def rewriteHeaders (headers : HeaderMap) (clientIp : IpAddr) (isTls : Bool) : HeaderMap :=
  addProxyHeaders (stripHopByHop headers) clientIp isTls

def relay (headers : HeaderMap) (clientIp : IpAddr) (isTls : Bool) : Upstream → Relayed
  | .unreachable => .badGateway "Target service is unreachable"
  | .handshakeFailed => .failed
  | .sendFailed => .failed
  | .responded status =>
    let sent := rewriteHeaders headers clientIp isTls
    let clientUpgrade := isWebsocket sent
    .responded sent status (status == 101 && clientUpgrade)

def proxyHeaders : List String := ["x-real-ip", "x-forwarded-for", "x-forwarded-proto"]

structure Rewritten (clientIp : IpAddr) (isTls : Bool) (headers rewritten : HeaderMap) : Prop where
  stripped : ∀ name ∈ hopByHopHeaders, rewritten.getAll name = []
  connection : rewritten.getAll "connection" =
    if isWebsocket headers then headers.getAll "connection" else []
  realIp : rewritten.getAll "x-real-ip" = [clientIp.fmt.toList]
  forwardedFor : rewritten.getAll "x-forwarded-for" = [clientIp.fmt.toList]
  forwardedProto : rewritten.getAll "x-forwarded-proto" =
    [(if isTls then "https" else "http").toList]
  others : ∀ name, name ≠ "connection" → name ∉ hopByHopHeaders → name ∉ proxyHeaders →
    rewritten.getAll name = headers.getAll name
  websocket : isWebsocket rewritten = isWebsocket headers

end ProxyServer

namespace HeaderMap

theorem get_eq_head? (headers : HeaderMap) (name : String) :
    headers.get name = (headers.getAll name).head? := by
  induction headers with
  | nil => rfl
  | cons header headers ih =>
    rw [get] at ih ⊢
    rw [getAll] at ih ⊢
    rw [Multimap.getAll_cons, List.find?_cons]
    by_cases hname : header.1 = name
    · rw [if_pos hname, beq_iff_eq.mpr hname]
      rfl
    · rw [if_neg hname, beq_false_of_ne hname]
      exact ih

theorem visible_toNat {c : Char} (h : isVisibleAscii c = true) :
    c.toNat = 9 ∨ 32 ≤ c.toNat ∧ c.toNat < 127 := by
  rw [isVisibleAscii, Bool.or_eq_true, Bool.and_eq_true, decide_eq_true_eq, decide_eq_true_eq,
    beq_iff_eq] at h
  rcases h with h | rfl
  · exact .inr h
  · exact .inl rfl

end HeaderMap

namespace HeaderValue

theorem fromStr_of_visible {text : String}
    (h : ∀ c ∈ text.toList, HeaderMap.isVisibleAscii c = true) :
    fromStr text = some text.toList := by
  have hbound : ∀ c ∈ text.toList, c.toNat < 128 := by
    intro c hc
    have hc := HeaderMap.visible_toNat (h c hc)
    omega
  have hvalid : (text.toList.map fun c => UInt8.ofNat c.toNat).all isValid = true := by
    rw [List.all_map, List.all_eq_true]
    intro c hc
    have hall : ∀ n < 128, (n = 9 ∨ 32 ≤ n ∧ n < 127) → isValid (UInt8.ofNat n) = true := by
      decide
    exact hall _ (hbound c hc) (HeaderMap.visible_toNat (h c hc))
  have hback : text.toList.map (fun c => Char.ofNat (UInt8.ofNat c.toNat).toNat) =
      text.toList.map id := by
    apply List.map_congr_left
    intro c hc
    have hlt := hbound c hc
    rw [UInt8.toNat_ofNat', Nat.mod_eq_of_lt (by omega), Char.ofNat_toNat]
    rfl
  rw [fromStr, Utf8.bytes_of_ascii hbound, if_pos hvalid, List.map_map]
  rw [List.map_id] at hback
  exact congrArg some hback

end HeaderValue

theorem IpAddr.visible_fmt (ip : IpAddr) :
    ∀ c ∈ ip.fmt.toList, HeaderMap.isVisibleAscii c = true := by
  have hdigit : ∀ d < 16, HeaderMap.isVisibleAscii (Nat.digitChar d) = true := by decide
  have hchar {c : Char} (hc : IpText.IsTextChar c) : HeaderMap.isVisibleAscii c = true := by
    rcases hc with rfl | rfl | ⟨d,hd,rfl⟩
    · decide
    · decide
    · exact hdigit d hd
  intro c hc
  cases ip with
  | v4 ip =>
    rw [fmt, String.toList_ofList] at hc
    exact hchar (IpText.isTextChar_fmtOctets hc)
  | v6 ip =>
    rw [fmt, String.toList_ofList] at hc
    exact hchar (IpText.isTextChar_fmtSegments hc)

namespace ProxyServer

theorem getAll_insertStr (headers : HeaderMap) (key : String) {text : String}
    (h : ∀ c ∈ text.toList, HeaderMap.isVisibleAscii c = true) (name : String) :
    (headers.insertStr key text).getAll name =
      if name = Utf8.toAsciiLowercase key then [text.toList] else headers.getAll name := by
  rw [HeaderMap.insertStr, HeaderValue.fromStr_of_visible h]
  exact Multimap.getAll_insert headers _ name _

theorem insertStr_again {headers : HeaderMap} (key : String) {text : String}
    (h : ∀ c ∈ text.toList, HeaderMap.isVisibleAscii c = true)
    (hget : headers.getAll (Utf8.toAsciiLowercase key) = [text.toList]) :
    headers.insertStr key text = headers := by
  rw [HeaderMap.insertStr, HeaderValue.fromStr_of_visible h]
  exact Multimap.insert_of_getAll hget

theorem visible_proto (isTls : Bool) :
    ∀ c ∈ (if isTls then "https" else "http").toList, HeaderMap.isVisibleAscii c = true := by
  cases isTls <;> exact Utf8.forall_mem_of_all (by decide)

theorem getAll_addProxyHeaders (headers : HeaderMap) (clientIp : IpAddr) (isTls : Bool)
    (name : String) :
    (addProxyHeaders headers clientIp isTls).getAll name =
      if name = "x-forwarded-proto" then [(if isTls then "https" else "http").toList]
      else if name = "x-forwarded-for" then [clientIp.fmt.toList]
      else if name = "x-real-ip" then [clientIp.fmt.toList]
      else headers.getAll name := by
  have hreal : Utf8.toAsciiLowercase "X-Real-IP" = "x-real-ip" := by decide
  have hfor : Utf8.toAsciiLowercase "X-Forwarded-For" = "x-forwarded-for" := by decide
  have hproto : Utf8.toAsciiLowercase "X-Forwarded-Proto" = "x-forwarded-proto" := by decide
  rw [addProxyHeaders, getAll_insertStr _ _ (visible_proto isTls),
    getAll_insertStr _ _ clientIp.visible_fmt, getAll_insertStr _ _ clientIp.visible_fmt,
    hreal, hfor, hproto]

theorem getAll_unadded {headers : HeaderMap} {name : String} (h : name ∉ proxyHeaders)
    (clientIp : IpAddr) (isTls : Bool) :
    (addProxyHeaders headers clientIp isTls).getAll name = headers.getAll name := by
  simp only [proxyHeaders, List.mem_cons, List.not_mem_nil, or_false, not_or] at h
  obtain ⟨hreal,hfor,hproto⟩ := h
  rw [getAll_addProxyHeaders, if_neg hproto, if_neg hfor, if_neg hreal]

theorem isWebsocket_congr {headers other : HeaderMap}
    (hu : headers.getAll "upgrade" = other.getAll "upgrade")
    (hc : headers.getAll "connection" = other.getAll "connection") :
    isWebsocket headers = isWebsocket other := by
  simp only [isWebsocket, HeaderMap.get_eq_head?, hu, hc]

theorem isWebsocket_of_no_connection {headers : HeaderMap}
    (h : headers.getAll "connection" = []) : isWebsocket headers = false := by
  have hempty : Utf8.contains (Utf8.toAsciiLowercase "") "upgrade" = false := by decide
  simp only [isWebsocket, HeaderMap.get_eq_head? headers "connection", h]
  rw [List.head?_nil, Option.bind_none, Option.getD_none, hempty, Bool.and_false]

theorem getAll_removed (headers : HeaderMap) (name : String) :
    (hopByHopHeaders.foldl HeaderMap.remove headers).getAll name =
      if name ∈ hopByHopHeaders then [] else headers.getAll name :=
  Multimap.getAll_removeAll headers hopByHopHeaders name

theorem isWebsocket_removed (headers : HeaderMap) :
    isWebsocket (hopByHopHeaders.foldl HeaderMap.remove headers) = isWebsocket headers := by
  apply isWebsocket_congr
  · rw [getAll_removed, if_neg (by decide)]
  · rw [getAll_removed, if_neg (by decide)]

theorem getAll_stripHopByHop (headers : HeaderMap) (name : String) :
    (stripHopByHop headers).getAll name =
      if name ∈ hopByHopHeaders then []
      else if name = "connection" then
        if isWebsocket headers then headers.getAll "connection" else []
      else headers.getAll name := by
  rw [stripHopByHop, isWebsocket_removed]
  cases hw : isWebsocket headers with
  | true =>
    rw [if_pos rfl, getAll_removed]
    by_cases hname : name = "connection"
    · simp [hname]
    · simp [hname]
  | false =>
    have hremove := Multimap.getAll_remove (hopByHopHeaders.foldl HeaderMap.remove headers)
      "connection" name
    rw [if_neg Bool.false_ne_true]
    refine hremove.trans ?_
    by_cases hname : name = "connection"
    · rw [if_pos hname, if_pos hname]
      simp
    · rw [if_neg hname, if_neg hname]
      exact getAll_removed headers name

theorem connection_stripHopByHop (headers : HeaderMap) :
    (stripHopByHop headers).getAll "connection" =
      if isWebsocket headers then headers.getAll "connection" else [] := by
  rw [getAll_stripHopByHop, if_neg (by decide), if_pos rfl]

theorem isWebsocket_stripHopByHop (headers : HeaderMap) :
    isWebsocket (stripHopByHop headers) = isWebsocket headers := by
  have hconnection := connection_stripHopByHop headers
  cases hw : isWebsocket headers with
  | true =>
    rw [hw, if_pos rfl] at hconnection
    have hupgrade := getAll_stripHopByHop headers "upgrade"
    rw [if_neg (by decide), if_neg (by decide)] at hupgrade
    rw [isWebsocket_congr hupgrade hconnection, hw]
  | false =>
    rw [hw, if_neg Bool.false_ne_true] at hconnection
    exact isWebsocket_of_no_connection hconnection

theorem isWebsocket_addProxyHeaders (headers : HeaderMap) (clientIp : IpAddr) (isTls : Bool) :
    isWebsocket (addProxyHeaders headers clientIp isTls) = isWebsocket headers :=
  isWebsocket_congr (getAll_unadded (by decide) clientIp isTls)
    (getAll_unadded (by decide) clientIp isTls)

theorem isWebsocket_rewriteHeaders (headers : HeaderMap) (clientIp : IpAddr) (isTls : Bool) :
    isWebsocket (rewriteHeaders headers clientIp isTls) = isWebsocket headers := by
  rw [rewriteHeaders, isWebsocket_addProxyHeaders, isWebsocket_stripHopByHop]

theorem hopByHop_unadded {name : String} (h : name ∈ hopByHopHeaders) : name ∉ proxyHeaders := by
  have hall : ∀ name ∈ hopByHopHeaders, name ∉ proxyHeaders := by decide
  exact hall name h

theorem rewriteHeaders_rewritten (headers : HeaderMap) (clientIp : IpAddr) (isTls : Bool) :
    Rewritten clientIp isTls headers (rewriteHeaders headers clientIp isTls) := by
  have hadd := getAll_addProxyHeaders (stripHopByHop headers) clientIp isTls
  constructor
  case stripped =>
    intro name hname
    rw [rewriteHeaders, getAll_unadded (hopByHop_unadded hname), getAll_stripHopByHop,
      if_pos hname]
  case connection =>
    rw [rewriteHeaders, getAll_unadded (by decide), connection_stripHopByHop]
  case realIp => exact hadd "x-real-ip"
  case forwardedFor => exact hadd "x-forwarded-for"
  case forwardedProto => exact hadd "x-forwarded-proto"
  case others =>
    intro name hconnection hhop hproxy
    rw [rewriteHeaders, getAll_unadded hproxy, getAll_stripHopByHop, if_neg hhop,
      if_neg hconnection]
  case websocket => exact isWebsocket_rewriteHeaders headers clientIp isTls

theorem stripHopByHop_of_stripped {headers : HeaderMap}
    (hstripped : ∀ name ∈ hopByHopHeaders, headers.getAll name = [])
    (hconnection : isWebsocket headers = false → headers.getAll "connection" = []) :
    stripHopByHop headers = headers := by
  have hremoved : hopByHopHeaders.foldl HeaderMap.remove headers = headers :=
    Multimap.removeAll_of_getAll_nil hstripped
  rw [stripHopByHop, hremoved]
  cases hw : isWebsocket headers with
  | true => rfl
  | false => exact Multimap.remove_of_getAll_nil (hconnection hw)

theorem Rewritten.again {clientIp : IpAddr} {isTls : Bool} {headers rewritten : HeaderMap}
    (h : Rewritten clientIp isTls headers rewritten) :
    rewriteHeaders rewritten clientIp isTls = rewritten := by
  have hstrip : stripHopByHop rewritten = rewritten := by
    apply stripHopByHop_of_stripped h.stripped
    intro hw
    rw [h.websocket] at hw
    rw [h.connection, hw]
    rfl
  rw [rewriteHeaders, hstrip, addProxyHeaders,
    insertStr_again "X-Real-IP" clientIp.visible_fmt h.realIp,
    insertStr_again "X-Forwarded-For" clientIp.visible_fmt h.forwardedFor,
    insertStr_again "X-Forwarded-Proto" (visible_proto isTls) h.forwardedProto]

theorem rewriteHeaders_complete (headers : HeaderMap) (clientIp : IpAddr) (isTls : Bool) :
    Rewritten clientIp isTls headers (rewriteHeaders headers clientIp isTls) ∧
      (∀ status, relay headers clientIp isTls (.responded status) =
        .responded (rewriteHeaders headers clientIp isTls) status
          (status == 101 && isWebsocket headers)) ∧
      rewriteHeaders (rewriteHeaders headers clientIp isTls) clientIp isTls =
        rewriteHeaders headers clientIp isTls := by
  have hrewritten := rewriteHeaders_rewritten headers clientIp isTls
  refine ⟨hrewritten,?_,hrewritten.again⟩
  intro status
  rw [relay, isWebsocket_rewriteHeaders]

end ProxyServer

end SideDns
