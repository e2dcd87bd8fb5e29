import Mathlib.Tactic.MkIffOfInductiveProp
import SideDns.Config
import SideDns.Ipc.Message

namespace SideDns

def SocketAddr.new : IpAddr → UInt16 → SocketAddr
  | .v4 ip, port => .v4 ip port
  | .v6 ip, port => .v6 ip port 0 0

def SocketAddr.port : SocketAddr → UInt16
  | v4 _ port => port
  | v6 _ port _ _ => port

structure RunArgs where
  domain : String
  ip : Option IpAddr
  port : Option UInt16
  https : Bool
  deriving DecidableEq, Repr

inductive Winner where
  | ctrlC
  | stopEvent
  | childExited (status : Option (Option Int))
  deriving DecidableEq, Repr

structure RunOutcomes where
  portOpens : Bool
  childId : Option UInt32
  listeners : List SocketAddr
  prompt : Option SocketAddr
  addAnswer : Option IpcResponse
  subscribes : Bool
  events : List DnsEvent
  winner : Winner
  kills : Bool
  childGone : Bool
  deriving DecidableEq, Repr

inductive Exit where
  | returned (ok : Bool)
  | process (code : Int)
  deriving DecidableEq, Repr

structure Ended where
  exit : Exit
  sent : List IpcRequest
  added : Bool
  killed : Bool
  waited : Bool
  stopReported : Bool
  deriving DecidableEq, Repr

def IpcResponse.isError : IpcResponse → Bool
  | error _ => true
  | _ => false

namespace RunArgs

def localhost : IpAddr := .v4 0x7f000001

def before (exit : Exit) (killed : Bool) : Ended := ⟨exit, [], false, killed, false, false⟩

def killThenExit (o : RunOutcomes) : Ended :=
  before (if o.kills then .process 1 else .returned false) true

def resolveAddress (args : RunArgs) (o : RunOutcomes) : Except Ended (IpAddr × UInt16) :=
  let ip := args.ip.getD localhost
  match args.port with
  | some p => if o.portOpens then .ok (ip, p) else .error (killThenExit o)
  | none =>
    match o.childId with
    | none => .error (killThenExit o)
    | some _ =>
      match o.listeners with
      | [] => .error (killThenExit o)
      | [addr] => .ok (addr.ip, addr.port)
      | _ =>
        match o.prompt with
        | some selection => .ok (selection.ip, selection.port)
        | none => .error (before (.returned false) false)

def stopEvent : List DnsEvent → Bool
  | [] => false
  | event :: events => if event = .daemonStopped then true else stopEvent events

def removeRule (args : RunArgs) (ended : Ended) (exitCode : Int) : Ended :=
  { ended with
    sent := ended.sent ++ [.removeEphemeral args.domain]
    exit := if exitCode ≠ 0 then .process exitCode else .returned true }

def select (args : RunArgs) (o : RunOutcomes) (ended : Ended) : Ended :=
  match o.winner with
  | .ctrlC =>
    let ended := { ended with killed := true }
    if o.kills then args.removeRule ended 0 else { ended with exit := .returned false }
  | .stopEvent =>
    let ended := { ended with killed := true, stopReported := stopEvent o.events }
    { ended with exit := if o.kills then .process 0 else .returned false }
  | .childExited (some code) => args.removeRule { ended with waited := true } (code.getD 1)
  | .childExited none => args.removeRule ended 1

def run (args : RunArgs) (o : RunOutcomes) : Ended :=
  match args.resolveAddress o with
  | .error ended => ended
  | .ok (ip, port) =>
    let request := IpcRequest.addEphemeral args.domain (SocketAddr.new ip port) args.https
    let ended : Ended := ⟨.returned false, [request], o.addAnswer == some .ok, false, false, false⟩
    match o.addAnswer with
    | none => ended
    | some (.error _) => { ended with exit := .process 1 }
    | some _ => if o.subscribes then args.select o ended else ended

structure Released (args : RunArgs) (o : RunOutcomes) (ended : Ended) : Prop where
  child : ended.killed = true ∨ ended.waited = true ∨ o.childGone = true
  rule : ended.added = true → ended.stopReported = false →
    .removeEphemeral args.domain ∈ ended.sent

def addressed (args : RunArgs) (o : RunOutcomes) : Bool :=
  match args.port with
  | some _ => o.portOpens
  | none => o.childId.isSome && (o.listeners.length == 1 ||
      decide (2 ≤ o.listeners.length) && o.prompt.isSome)

@[mk_iff]
inductive Leak (args : RunArgs) (o : RunOutcomes) : Prop where
  | prompt (hport : args.port = none) (hid : o.childId.isSome = true)
      (hl : 2 ≤ o.listeners.length) (hp : o.prompt = none) (hc : o.childGone = false)
  | unsent (ha : args.addressed o = true) (hs : o.addAnswer = none) (hc : o.childGone = false)
  | refused (ha : args.addressed o = true) (message : String)
      (hs : o.addAnswer = some (.error message)) (hc : o.childGone = false)
  | unsubscribed (ha : args.addressed o = true) (answer : IpcResponse)
      (hs : o.addAnswer = some answer) (he : answer.isError = false) (hn : o.subscribes = false)
      (hc : answer = .ok ∨ o.childGone = false)
  | killFailed (ha : args.addressed o = true) (hs : o.addAnswer = some .ok)
      (hn : o.subscribes = true) (hw : o.winner = .ctrlC) (hk : o.kills = false)
  | streamEnded (ha : args.addressed o = true) (hs : o.addAnswer = some .ok)
      (hn : o.subscribes = true) (hw : o.winner = .stopEvent) (hd : .daemonStopped ∉ o.events)
  | waitFailed (ha : args.addressed o = true) (answer : IpcResponse)
      (hs : o.addAnswer = some answer) (he : answer.isError = false) (hn : o.subscribes = true)
      (hw : o.winner = .childExited none) (hc : o.childGone = false)

def Abandoned (args : RunArgs) (o : RunOutcomes) : Prop :=
  args.port = none ∧ o.childId.isSome = true ∧ 2 ≤ o.listeners.length ∧ o.prompt = none

inductive Resolved (args : RunArgs) (o : RunOutcomes) : Except Ended (IpAddr × UInt16) → Prop where
  | found (ip : IpAddr) (port : UInt16) (ha : args.addressed o = true)
      (hn : ¬ args.Abandoned o) : Resolved args o (.ok (ip, port))
  | killed (exit : Exit) (ha : args.addressed o = false) (hn : ¬ args.Abandoned o) :
      Resolved args o (.error (before exit true))
  | abandoned (ha : args.addressed o = false) (hn : args.Abandoned o) :
      Resolved args o (.error (before (.returned false) false))

theorem resolveAddress_cases (args : RunArgs) (o : RunOutcomes) :
    Resolved args o (args.resolveAddress o) := by
  rw [resolveAddress]
  cases hport : args.port with
  | some p =>
    have hn : ¬ args.Abandoned o := by simp [Abandoned, hport]
    cases ho : o.portOpens with
    | true => exact .found _ _ (by simp [addressed, hport, ho]) hn
    | false => exact .killed _ (by simp [addressed, hport, ho]) hn
  | none =>
    cases hid : o.childId with
    | none => exact .killed _ (by simp [addressed, hport, hid]) (by simp [Abandoned, hid])
    | some pid =>
      match hl : o.listeners with
      | [] =>
        exact .killed _ (by simp [addressed, hport, hid, hl]) (by simp [Abandoned, hl])
      | [addr] =>
        exact .found _ _ (by simp [addressed, hport, hid, hl]) (by simp [Abandoned, hl])
      | addr :: next :: rest =>
        cases hp : o.prompt with
        | some selection =>
          exact .found _ _ (by simp [addressed, hport, hid, hl, hp]) (by simp [Abandoned, hp])
        | none =>
          exact .abandoned (by simp [addressed, hport, hid, hl, hp])
            (by simp [Abandoned, hport, hid, hl, hp])

theorem stopEvent_iff (events : List DnsEvent) :
    stopEvent events = true ↔ .daemonStopped ∈ events := by
  induction events with
  | nil => simp [stopEvent]
  | cons event events ih =>
    by_cases he : event = .daemonStopped
    · simp [stopEvent, he]
    · simp [stopEvent, he, ih, eq_comm]

theorem Leak.addressed_or {args : RunArgs} {o : RunOutcomes} (h : args.Leak o) :
    args.addressed o = true ∨ args.Abandoned o ∧ o.childGone = false := by
  cases h with
  | prompt hport hid hl hp hc => exact .inr ⟨⟨hport,hid,hl,hp⟩,hc⟩
  | unsent ha hs hc => exact .inl ha
  | refused ha message hs hc => exact .inl ha
  | unsubscribed ha answer hs he hn hc => exact .inl ha
  | killFailed ha hs hn hw hk => exact .inl ha
  | streamEnded ha hs hn hw hd => exact .inl ha
  | waitFailed ha answer hs he hn hw hc => exact .inl ha

theorem released_iff {args : RunArgs} {o : RunOutcomes} {ended : Ended} :
    args.Released o ended ↔
      (ended.killed = true ∨ ended.waited = true ∨ o.childGone = true) ∧
      (ended.added = true → ended.stopReported = false →
        .removeEphemeral args.domain ∈ ended.sent) :=
  ⟨fun h => ⟨h.child,h.rule⟩,fun h => ⟨h.1,h.2⟩⟩

theorem released_select_iff {args : RunArgs} {o : RunOutcomes} {ended : Ended}
    (hk : ended.killed = false) (hw : ended.waited = false) (hs : ended.stopReported = false)
    (hsent : .removeEphemeral args.domain ∉ ended.sent) :
    args.Released o (args.select o ended) ↔
      match o.winner with
      | .ctrlC => ended.added = true → o.kills = true
      | .stopEvent => ended.added = true → .daemonStopped ∈ o.events
      | .childExited (some _) => True
      | .childExited none => o.childGone = true := by
  rw [released_iff, select]
  cases o.winner with
  | ctrlC => cases hkills : o.kills <;> simp [removeRule, hs, hsent]
  | stopEvent =>
    have hstop := stopEvent_iff o.events
    cases hreported : stopEvent o.events <;> simp_all
  | childExited status => cases status <;> simp [removeRule, hk, hw]

def requested (args : RunArgs) (ip : IpAddr) (port : UInt16) (exit : Exit) (added : Bool) : Ended :=
  ⟨exit, [.addEphemeral args.domain (SocketAddr.new ip port) args.https], added, false, false,
    false⟩

theorem run_subscribing {args : RunArgs} {o : RunOutcomes} {ip : IpAddr} {port : UInt16}
    (hr : args.resolveAddress o = .ok (ip, port)) {answer : IpcResponse}
    (hs : o.addAnswer = some answer) (he : answer.isError = false) :
    args.run o =
      let ended := args.requested ip port (.returned false) (answer == .ok)
      if o.subscribes then args.select o ended else ended := by
  rw [run, hr, hs]
  cases answer <;> first | rfl | cases he

theorem Leak.unaddressed {args : RunArgs} {o : RunOutcomes} (ha : args.addressed o = false) :
    args.Leak o ↔ args.Abandoned o ∧ o.childGone = false := by
  constructor
  · intro hleak
    rcases hleak.addressed_or with ha' | habandoned
    · rw [ha] at ha'
      cases ha'
    · exact habandoned
  · rintro ⟨⟨hport,hid,hl,hp⟩,hc⟩
    exact .prompt hport hid hl hp hc

theorem Leak.not_prompt {args : RunArgs} {o : RunOutcomes} (hn : ¬ args.Abandoned o) :
    ¬ (args.port = none ∧ o.childId.isSome = true ∧ 2 ≤ o.listeners.length ∧ o.prompt = none ∧
      o.childGone = false) :=
  fun h => hn ⟨h.1,h.2.1,h.2.2.1,h.2.2.2.1⟩

section

variable {args : RunArgs} {o : RunOutcomes} {ip : IpAddr} {port : UInt16}

theorem releases_unsent (hr : args.resolveAddress o = .ok (ip, port))
    (ha : args.addressed o = true) (hn : ¬ args.Abandoned o) (hs : o.addAnswer = none) :
    args.Released o (args.run o) ↔ ¬ args.Leak o := by
  have hrun : args.run o = args.requested ip port (.returned false) false := by
    rw [run, hr, hs]
    rfl
  rw [hrun, released_iff, leak_iff]
  simp [requested, Leak.not_prompt hn, ha, hs]

theorem releases_refused (hr : args.resolveAddress o = .ok (ip, port))
    (ha : args.addressed o = true) (hn : ¬ args.Abandoned o) {message : String}
    (hs : o.addAnswer = some (.error message)) :
    args.Released o (args.run o) ↔ ¬ args.Leak o := by
  have hrun : args.run o = args.requested ip port (.process 1) false := by
    rw [run, hr, hs]
    rfl
  rw [hrun, released_iff, leak_iff]
  simp [requested, Leak.not_prompt hn, ha, hs, IpcResponse.isError]

theorem releases_answered (hr : args.resolveAddress o = .ok (ip, port))
    (ha : args.addressed o = true) (hn : ¬ args.Abandoned o) {answer : IpcResponse}
    (hs : o.addAnswer = some answer) (he : answer.isError = false) :
    args.Released o (args.run o) ↔ ¬ args.Leak o := by
  have hprompt := Leak.not_prompt hn
  have herror : ∀ message, answer ≠ .error message := by
    rintro message rfl
    cases he
  rw [run_subscribing hr hs he]
  cases hsub : o.subscribes with
  | false =>
    simp only [Bool.false_eq_true, if_false]
    rw [released_iff, leak_iff]
    simpa [requested, hprompt, ha, hs, he, hsub, herror] using and_comm
  | true =>
    simp only [if_true]
    rw [released_select_iff rfl rfl rfl (by simp [requested]), leak_iff]
    cases hw : o.winner with
    | ctrlC => simp [requested, hprompt, ha, hs, hsub, herror]
    | stopEvent => simp [requested, hprompt, ha, hs, hsub, herror]
    | childExited status => cases status <;> simp [hprompt, ha, hs, he, hsub, herror]

end

theorem run_releases_iff (args : RunArgs) (o : RunOutcomes) :
    args.Released o (args.run o) ↔ ¬ args.Leak o := by
  have hcases := args.resolveAddress_cases o
  generalize hr : args.resolveAddress o = resolved at hcases
  cases hcases with
  | killed exit ha hn =>
    have hrun : args.run o = before exit true := by rw [run, hr]
    rw [hrun, Leak.unaddressed ha]
    exact iff_of_true ⟨.inl rfl,fun h => by cases h⟩ fun h => hn h.1
  | abandoned ha hn =>
    have hrun : args.run o = before (.returned false) false := by rw [run, hr]
    rw [hrun, Leak.unaddressed ha, released_iff, and_iff_right hn]
    simp [before]
  | found ip port ha hn =>
    cases hs : o.addAnswer with
    | none => exact releases_unsent hr ha hn hs
    | some answer =>
      cases he : answer.isError with
      | false => exact releases_answered hr ha hn hs he
      | true =>
        cases answer with
        | error message => exact releases_refused hr ha hn hs
        | _ => cases he

def unsubscribed : RunOutcomes where
  portOpens := true
  childId := some 4711
  listeners := []
  prompt := none
  addAnswer := some .ok
  subscribes := false
  events := []
  winner := .ctrlC
  kills := true
  childGone := false

theorem failed_subscription_leaves_child_and_rule :
    let args : RunArgs := ⟨"api.local", none, some 3000, false⟩
    args.run unsubscribed = ⟨.returned false,
      [.addEphemeral "api.local" (.v4 0x7f000001 3000) false], true, false, false, false⟩ ∧
    ¬ args.Released unsubscribed (args.run unsubscribed) := by
  refine ⟨rfl,fun h => ?_⟩
  rcases h.child with hk | hw | hc
  · cases hk
  · cases hw
  · cases hc

end RunArgs

end SideDns
