import SideDns.Library.FiniteMap
import SideDns.Validation

namespace SideDns

open FiniteMap (HashMap)

def ipv4Text (ip : BitVec 32) : String :=
  ".".intercalate [toString (ip.extractLsb 31 24).toNat, toString (ip.extractLsb 23 16).toNat,
    toString (ip.extractLsb 15 8).toNat, toString (ip.extractLsb 7 0).toNat]

def dnsIp : String := ipv4Text dnsListenIp

namespace SystemdConfigurator

def routingDomain (domain : String) : String :=
  if Utf8.startsWith domain "*." then "~" ++ (Utf8.stripPrefix domain "*.").getD domain
  else "~" ++ domain ++ "."

def domainList (domains : List String) : String := " ".intercalate (domains.map routingDomain)

def content (ip domainList : String) : String :=
  "# Managed by SideDNS — do not edit manually\n[Resolve]\nDNS=" ++ ip ++ "\nDomains=" ++
    domainList ++ "\n"

def apply (domains : List String) : String := content dnsIp (domainList domains)

end SystemdConfigurator

namespace MacOsConfigurator

abbrev ResolverDir := HashMap String ByteArray

def resolverContent : ByteArray :=
  ("# Managed by SideDNS — do not edit manually\nnameserver " ++ dnsIp ++ "\n").toByteArray

def fileName (domain : String) : String := Utf8.replace domain "*." ""

def isSidednsFile (contents : ByteArray) : Bool :=
  (String.fromUTF8? contents).any (fun c => Utf8.contains c "Managed by SideDNS")

def removeAllFiles (dir : ResolverDir) : ResolverDir := FiniteMap.discard isSidednsFile dir

def write (dir : ResolverDir) (domains : List String) : ResolverDir :=
  domains.foldl (fun files domain => files.insert (fileName domain) resolverContent) dir

def apply (dir : ResolverDir) (domains : List String) : ResolverDir :=
  write (removeAllFiles dir) domains

def revert (dir : ResolverDir) : ResolverDir := removeAllFiles dir

end MacOsConfigurator

namespace WindowsNrptConfigurator

def comment : String := "Managed by SideDNS — do not edit manually"

def removeScript : String :=
  "Get-DnsClientNrptRule | Where-Object \x7b $_.Comment -eq '" ++ comment ++
    "' \x7d | Remove-DnsClientNrptRule -Force"

def nrptNamespace (domain : String) : String :=
  if Utf8.startsWith domain "*." then "." ++ (Utf8.stripPrefix domain "*.").getD domain
  else domain

def addScript (domain : String) : String :=
  "Add-DnsClientNrptRule -Namespace '" ++ domain ++ "' -NameServers '" ++ dnsIp ++
    "' -Comment '" ++ comment ++ "'"

def apply (domains : List String) : List String :=
  removeScript :: (domains.map nrptNamespace).map addScript

end WindowsNrptConfigurator

example : dnsIp = "127.0.53.53" := by decide

example : SystemdConfigurator.domainList ["*.app.test", "api.test"] = "~app.test ~api.test." := by
  decide

end SideDns
