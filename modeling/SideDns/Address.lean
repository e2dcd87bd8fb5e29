import SideDns.Library.IpText
import SideDns.Rule

namespace SideDns

namespace SocketAddr

open IpText (Stops decimal fmtOctets fmtSegments readGivenChar readIpv4Addr readPort
  readScopeId readSegments)
open Numeral (Ends compose decompose)

def flowinfo : SocketAddr → UInt32
  | v4 _ _ => 0
  | v6 _ _ flowinfo _ => flowinfo

def octets (ip : BitVec 32) : List Nat := decompose 256 4 ip.toNat

def segments (ip : BitVec 128) : List Nat := decompose 65536 8 ip.toNat

def scope (scopeId : UInt32) : List Char :=
  if scopeId = 0 then [] else '%' :: decimal scopeId.toNat

def fmt : SocketAddr → List Char
  | v4 ip port => fmtOctets (octets ip) ++ (':' :: decimal port.toNat)
  | v6 ip port _ scopeId =>
      '[' :: (fmtSegments (segments ip) ++
        (scope scopeId ++ (']' :: ':' :: decimal port.toNat)))

def readSocketAddrV4 (text : List Char) : Option (SocketAddr × List Char) :=
  (readIpv4Addr text).bind fun ip =>
    (readPort ip.2).map fun port =>
      (v4 (BitVec.ofNat 32 (compose 256 ip.1)) (UInt16.ofNat port.1), port.2)

def readSocketAddrV6 (text : List Char) : Option (SocketAddr × List Char) :=
  (readGivenChar '[' text).bind fun text =>
    (readSegments text).bind fun ip =>
      let scopeId := (readScopeId ip.2).getD (0, ip.2)
      (readGivenChar ']' scopeId.2).bind fun text =>
        (readPort text).map fun port =>
          (v6 (BitVec.ofNat 128 (compose 65536 ip.1)) (UInt16.ofNat port.1) 0
            (UInt32.ofNat scopeId.1), port.2)

def readSocketAddr (text : List Char) : Option (SocketAddr × List Char) :=
  (readSocketAddrV4 text).or (readSocketAddrV6 text)

def fromStr (text : List Char) : Option SocketAddr :=
  (readSocketAddr text).bind fun p => if p.2 = [] then some p.1 else none

theorem ofNat_octets (ip : BitVec 32) : BitVec.ofNat 32 (compose 256 (octets ip)) = ip := by
  have hlt : ip.toNat < 256 ^ 4 := ip.isLt
  rw [octets, Numeral.compose_decompose hlt, BitVec.ofNat_toNat, BitVec.setWidth_eq]

theorem ofNat_segments (ip : BitVec 128) :
    BitVec.ofNat 128 (compose 65536 (segments ip)) = ip := by
  have hlt : ip.toNat < 65536 ^ 8 := ip.isLt
  rw [segments, Numeral.compose_decompose hlt, BitVec.ofNat_toNat, BitVec.setWidth_eq]

theorem readPort_decimal (port : UInt16) :
    readPort (':' :: decimal port.toNat) = some (port.toNat, []) := by
  have hread := IpText.readNumber_decimal port.toNat_lt (by simp [Ends] : Ends 10 [])
  rw [List.append_nil] at hread
  rw [readPort, IpText.readGivenChar_cons, Option.bind_some]
  exact hread

theorem readScopeId_scope (scopeId : UInt32) {text : List Char} (hends : Ends 10 (']' :: text)) :
    (readScopeId (scope scopeId ++ (']' :: text))).getD
      (0, scope scopeId ++ (']' :: text)) = (scopeId.toNat, ']' :: text) := by
  rw [scope]
  split_ifs with hzero
  · rw [hzero]
    rfl
  · rw [List.cons_append, readScopeId, IpText.readGivenChar_cons, Option.bind_some,
      IpText.readNumber_decimal scopeId.toNat_lt hends]
    rfl

theorem stops_scope (scopeId : UInt32) (text : List Char) :
    Stops (scope scopeId ++ (']' :: text)) := by
  have hcons {c : Char} (rest : List Char) (hc : Numeral.isDigit 16 c = false) (hdot : c ≠ '.')
      (hcolon : c ≠ ':') : Stops (c :: rest) :=
    ⟨Numeral.ends_cons rest hc,fun _ heq => absurd (List.cons.inj heq).1 hdot,
      fun _ heq => absurd (List.cons.inj heq).1 hcolon⟩
  rw [scope]
  split_ifs
  · exact hcons _ (by decide) (by decide) (by decide)
  · exact hcons _ (by decide) (by decide) (by decide)

theorem readSocketAddrV4_fmt (ip : BitVec 32) (port : UInt16) :
    readSocketAddrV4 (fmtOctets (octets ip) ++ (':' :: decimal port.toNat)) =
      some (v4 ip port, []) := by
  have hread := IpText.readIpv4Addr_fmtOctets (Numeral.length_decompose 256 4 ip.toNat)
    (fun _ h => Numeral.lt_of_mem_decompose (by decide) h)
    (Numeral.ends_cons (decimal port.toNat) (by decide : Numeral.isDigit 10 ':' = false))
  change readIpv4Addr (fmtOctets (octets ip) ++ (':' :: decimal port.toNat)) =
    some (octets ip, ':' :: decimal port.toNat) at hread
  rw [readSocketAddrV4, hread, Option.bind_some, readPort_decimal, Option.map_some, ofNat_octets,
    UInt16.ofNat_toNat]

theorem readSocketAddrV4_bracket (text : List Char) : readSocketAddrV4 ('[' :: text) = none := by
  have hnone : readIpv4Addr ('[' :: text) = none :=
    IpText.readIpv4Addr_ends (Numeral.ends_cons text (by decide)) fun _ heq =>
      absurd (List.cons.inj heq).1 (by decide)
  rw [readSocketAddrV4, hnone]
  rfl

theorem readSocketAddrV6_fmt (ip : BitVec 128) (port : UInt16) (scopeId : UInt32) :
    readSocketAddrV6 (fmt (v6 ip port 0 scopeId)) = some (v6 ip port 0 scopeId, []) := by
  have hread := IpText.readSegments_fmtSegments (Numeral.length_decompose 65536 8 ip.toNat)
    (fun _ h => Numeral.lt_of_mem_decompose (by decide) h)
    (stops_scope scopeId (':' :: decimal port.toNat))
  change readSegments (fmtSegments (segments ip) ++ _) = some (segments ip, _) at hread
  rw [fmt, readSocketAddrV6, IpText.readGivenChar_cons, Option.bind_some, hread, Option.bind_some,
    readScopeId_scope scopeId (Numeral.ends_cons _ (by decide))]
  simp only
  rw [IpText.readGivenChar_cons, Option.bind_some, readPort_decimal, Option.map_some,
    ofNat_segments, UInt16.ofNat_toNat, UInt32.ofNat_toNat]

theorem fromStr_fmt {addr : SocketAddr} (h : addr.flowinfo = 0) :
    fromStr addr.fmt = some addr := by
  cases addr with
  | v4 ip port =>
    rw [fromStr, readSocketAddr, fmt, readSocketAddrV4_fmt]
    rfl
  | v6 ip port flow scopeId =>
    obtain rfl : flow = 0 := h
    have hnone : readSocketAddrV4 (fmt (v6 ip port 0 scopeId)) = none :=
      readSocketAddrV4_bracket _
    rw [fromStr, readSocketAddr, hnone, readSocketAddrV6_fmt]
    rfl

example : String.ofList (fmt (v6 0x20010db8000000000000000000000001 8080 0 0)) =
    "[2001:db8::1]:8080" := by decide

example : String.ofList (fmt (v6 0xffff7f000001 443 0 3)) = "[::ffff:127.0.0.1%3]:443" := by decide

end SocketAddr

end SideDns
