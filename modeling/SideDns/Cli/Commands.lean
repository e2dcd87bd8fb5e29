import SideDns.Cli.Cleanup
import SideDns.Ipc.Client
import SideDns.Proxy.Headers

namespace SideDns

open FiniteMap (IterationOrder)
open Transition (run)

namespace Cli

variable {α : Type}

def validateDomain (lib : TextLibrary) (s : String) : Except String String :=
  if SideDns.validateDomain lib s then .ok (lib.toLowercase s)
  else .error "Invalid domain name"

def validateDomainResolve (lib : TextLibrary) (s : String) : Except String String :=
  match validateDomain lib s with
  | .ok domain =>
      if Utf8.startsWith domain "*." then
        .error ("Wildcard domains are not allowed, please provide an explicit domain, Ex: " ++
          Utf8.replace domain "*." "example.")
      else .ok domain
  | .error message => .error message

theorem map_ok {parsed : Except String String} {f : String → α} {result : α}
    (h : parsed.map f = .ok result) : ∃ domain, parsed = .ok domain ∧ f domain = result := by
  cases parsed with
  | error message => cases h
  | ok domain => exact ⟨domain,rfl,Except.ok.inj h⟩

theorem validateDomain_ok {lib : TextLibrary} {s domain : String}
    (h : validateDomain lib s = .ok domain) :
    SideDns.validateDomain lib s = true ∧ domain = lib.toLowercase s := by
  rw [validateDomain] at h
  split_ifs at h with hv
  exact ⟨hv,(Except.ok.inj h).symm⟩

theorem validateDomainResolve_ok {lib : TextLibrary} {s domain : String}
    (h : validateDomainResolve lib s = .ok domain) :
    validateDomain lib s = .ok domain ∧ patternIsWildcard domain = false := by
  rw [validateDomainResolve] at h
  cases hv : validateDomain lib s with
  | error message =>
    rw [hv] at h
    cases h
  | ok accepted =>
    simp only [hv] at h
    split_ifs at h with hw
    obtain rfl := Except.ok.inj h
    rw [Utf8.startsWith_eq] at hw
    exact ⟨rfl,by simpa [patternIsWildcard] using hw⟩

theorem validateDomain_removable {lib : TextLibrary} (hl : lib.Unicode) {s domain : String}
    (h : validateDomain lib s = .ok domain) : Removable lib domain := by
  obtain ⟨hv,rfl⟩ := validateDomain_ok h
  exact ⟨validateDomain_toLowercase hl hv,toLowercase_idem hl hv⟩

end Cli

inductive Command where
  | add (domain : String) (ip : IpAddr) (port : UInt16) (https : Bool)
  | remove (domain : String)
  | list
  | resolve (domain : String)
  | status
  deriving DecidableEq, Repr

inductive Outcome where
  | refused (message : String)
  | disconnected (cause : SendError)
  | failed (message : String)
  | warned (line : String)
  | printed (lines : List String)
  deriving DecidableEq, Repr

namespace Commands

def scheme (https : Bool) : String := if https then "https" else "http"

def portText (port : UInt16) : String := String.ofList (IpText.decimal port.toNat)

def route (https : Bool) (domain : String) (ip : IpAddr) (port : UInt16) : String :=
  scheme https ++ "://" ++ domain ++ " → " ++ ip.fmt ++ ":" ++ portText port

def add (domain : String) (ip : IpAddr) (port : UInt16) (https : Bool) : IpcResponse → Outcome
  | .ok => .printed ["Added: " ++ route https domain ip port]
  | .error e => .failed e
  | _ => .printed []

def remove (domain : String) : IpcResponse → Outcome
  | .ok => .printed ["Dns rule removed for: " ++ domain]
  | .error e => .failed e
  | _ => .printed []

def resolve (domain : String) : IpcResponse → Outcome
  | .resolved (some rule) =>
      .printed ["Resolved: " ++ route rule.https rule.domain rule.target.ip rule.target.port]
  | .resolved none => .printed ["No DNS rule for '" ++ domain ++ "'"]
  | .error e => .failed e
  | _ => .printed []

def status : IpcResponse → Outcome
  | .status running ruleCount =>
      .printed ["Daemon:  " ++ (if running then "running" else "stopped"),
        "Rules:   " ++ String.ofList (IpText.decimal ruleCount)]
  | .error e => .warned ("error: " ++ e)
  | _ => .printed []

def pad (width : Nat) (cell : String) : String := String.ofList (cell.toList.rightpad width ' ')

def row (widths : List Nat) (cells : List String) : String :=
  "║ " ++ " ║ ".intercalate (List.zipWith pad widths cells) ++ " ║"

def frame (left between right : String) (widths : List Nat) : String :=
  left ++ between.intercalate (widths.map fun w => String.ofList (List.replicate w '═')) ++ right

def widths (rules : List DnsRule) : List Nat :=
  [max ((rules.map fun r => Utf8.len r.domain).max?.getD 0) 6, 23, 5, 6]

def cells (r : DnsRule) : List String :=
  [r.domain, r.target.ip.fmt, portText r.target.port, if r.https then "yes" else "no"]

def table (rules : List DnsRule) : List String :=
  frame "╔═" "═╦═" "═╗" (widths rules) ::
    row (widths rules) ["DOMAIN", "IP", "PORT", "SECURE"] ::
    frame "╠═" "═╬═" "═╣" (widths rules) ::
    (rules.map fun r => row (widths rules) (cells r)) ++
    [frame "╚═" "═╩═" "═╝" (widths rules)]

def listing (rules : List DnsRule) : List String :=
  if rules.isEmpty then ["no rules configured"] else table rules

def list : IpcResponse → Outcome
  | .rules rules => .printed (listing rules)
  | .error e => .warned ("error: " ++ e)
  | _ => .printed []

end Commands

namespace Command

def parse (lib : TextLibrary) : Command → Except String Command
  | add domain ip port https =>
      (Cli.validateDomain lib domain).map fun domain => add domain ip port https
  | remove domain => (Cli.validateDomain lib domain).map remove
  | resolve domain => (Cli.validateDomainResolve lib domain).map resolve
  | list => .ok list
  | status => .ok status

def request : Command → IpcRequest
  | add domain ip port https => .add domain (.new ip port) https
  | remove domain => .remove domain
  | list => .list
  | resolve domain => .resolve domain
  | status => .status

def report : Command → IpcResponse → Outcome
  | add domain ip port https => Commands.add domain ip port https
  | remove domain => Commands.remove domain
  | list => Commands.list
  | resolve domain => Commands.resolve domain
  | status => Commands.status

def outcome (command : Command) : Except SendError IpcResponse → Outcome
  | .ok response => command.report response
  | .error cause => .disconnected cause

def Normal (lib : TextLibrary) : Command → Prop
  | add domain _ _ _ => Removable lib domain
  | remove domain => Removable lib domain
  | resolve domain => Removable lib domain ∧ patternIsWildcard domain = false
  | list => True
  | status => True

theorem parse_normal {lib : TextLibrary} (hl : lib.Unicode) {typed command : Command}
    (h : typed.parse lib = .ok command) : command.Normal lib := by
  cases typed with
  | add s ip port https | remove s =>
    obtain ⟨domain,hv,rfl⟩ := Cli.map_ok h
    exact Cli.validateDomain_removable hl hv
  | resolve s =>
    obtain ⟨domain,hv,rfl⟩ := Cli.map_ok h
    obtain ⟨hplain,hw⟩ := Cli.validateDomainResolve_ok hv
    exact ⟨Cli.validateDomain_removable hl hplain,hw⟩
  | list | status =>
    cases h
    trivial

theorem portable_request (command : Command) : command.request.Portable := by
  intro target ht
  cases command with
  | add domain ip port https =>
    obtain rfl := Option.some.inj ht
    cases ip <;> rfl
  | _ => cases ht

theorem request_ne_subscribe (command : Command) : command.request ≠ .subscribe := by
  intro heq
  cases command <;> cases heq

end Command

structure Typed where
  command : Command
  sent : Nat
  returned : Nat

namespace Typed

def attempt (t : Typed) (command : Command) : Attempt :=
  ⟨command.request, command.portable_request, command.request_ne_subscribe, t.sent, t.returned⟩

def exec (lib : TextLibrary) (order : IterationOrder String DnsRule) (st : AppState) (t : Typed) :
    AppState × Outcome :=
  match t.command.parse lib with
  | .error message => (st, .refused message)
  | .ok command =>
    let exchanged := st.exchange lib order (t.attempt command)
    (exchanged.1, command.outcome exchanged.2)

end Typed

inductive Visit where
  | typed (t : Typed)
  | other (a : Attempt)

namespace Visit

def step (lib : TextLibrary) (order : IterationOrder String DnsRule) (st : AppState) :
    Visit → AppState
  | typed t => (t.exec lib order st).1
  | other a => (st.exchange lib order a).1

def attempt? (lib : TextLibrary) : Visit → Option Attempt
  | typed t => (t.command.parse lib).toOption.map t.attempt
  | other a => some a

end Visit

end SideDns
