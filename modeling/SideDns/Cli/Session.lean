import SideDns.Cli.Commands

namespace SideDns

open FiniteMap (IterationOrder)
open Transition (run)

namespace Layer

theorem WellFormed.mem_rules {l : Layer} (h : l.WellFormed)
    (order : IterationOrder String DnsRule) (rule : DnsRule) :
    rule ∈ l.rules order ↔ l.toMap.lookup rule.domain = some rule := by
  rw [← Multiset.mem_coe, h.coe_rules order, FiniteMap.mem_values]
  constructor
  · rintro ⟨domain,hd⟩
    rwa [h.keyed_toMap _ _ hd]
  · exact fun he => ⟨rule.domain,he⟩

theorem WellFormed.nodup_rules {l : Layer} (h : l.WellFormed)
    (order : IterationOrder String DnsRule) : ((l.rules order).map DnsRule.domain).Nodup :=
  h.keyed_toMap.nodup_of_values (h.coe_rules order)

theorem WellFormed.length_rules {l : Layer} (h : l.WellFormed)
    (order : IterationOrder String DnsRule) : (l.rules order).length = l.len := by
  rw [← Multiset.coe_card, h.coe_rules order, FiniteMap.card_values, h.size_toMap]

theorem WellFormed.answer_some {l : Layer} (h : l.WellFormed) {domain : String} {rule : DnsRule}
    (ha : l.answer domain = some rule) :
    l.toMap.lookup rule.domain = some rule ∧ rule.matches domain = true := by
  rw [h.answer_eq default] at ha
  exact ⟨(h.mem_rules default rule).mp (List.mem_of_find?_eq_some ha),
    List.find?_some (p := fun r : DnsRule => r.matches domain) ha⟩

theorem WellFormed.answer_none {l : Layer} (h : l.WellFormed) {domain : String}
    (ha : l.answer domain = none) {pattern : String} {other : DnsRule}
    (ho : l.toMap.lookup pattern = some other) : other.matches domain = false := by
  rw [h.answer_eq default, List.find?_eq_none] at ha
  obtain rfl := h.keyed_toMap _ _ ho
  exact Bool.eq_false_iff.mpr (ha other ((h.mem_rules default other).mpr ho))

theorem WellFormed.answer_wildcard {l : Layer} (h : l.WellFormed) {domain : String}
    (hd : patternIsWildcard domain = false) {rule : DnsRule} (ha : l.answer domain = some rule)
    (hw : rule.isWildcard = true) : l.toMap.lookup domain = none := by
  cases he : l.exact.lookup domain with
  | some exact =>
    rw [answer, he, Option.some_or] at ha
    obtain rfl := Option.some.inj ha
    rw [h.exact _ _ he] at hw
    cases hw
  | none =>
    rw [h.lookup_toMap, he, Option.or_none, List.find?_eq_none]
    intro other ho heq
    have hwild := h.wildcard other ho
    rw [DnsRule.isWildcard, beq_iff_eq.mp heq, hd] at hwild
    cases hwild

end Layer

abbrev Book := Lifetime → String → Option DnsRule

def AppState.book (st : AppState) : Book := st.store.inner.entry

namespace Book

def write (book : Book) (slot : Lifetime × String) (value : Option DnsRule) : Book :=
  fun kind domain => if (kind, domain) = slot then value else book kind domain

def after (book : Book) : Command → Book
  | .add domain ip port https =>
      book.write (.persistent, domain) (some ⟨domain, .new ip port, https⟩)
  | .remove domain => book.write (.persistent, domain) none
  | _ => book

structure Lists (book : Book) (kind : Lifetime) (rules : List DnsRule) : Prop where
  nodup : (rules.map DnsRule.domain).Nodup
  mem : ∀ rule, rule ∈ rules ↔ book kind rule.domain = some rule

def Silent (book : Book) (kind : Lifetime) (domain : String) : Prop :=
  ∀ pattern rule, book kind pattern = some rule → rule.matches domain = false

structure Answers (book : Book) (domain : String) (kind : Lifetime) (rule : DnsRule) : Prop where
  stored : book kind rule.domain = some rule
  covers : rule.matches domain = true
  ephemeralFirst : kind = .persistent → book.Silent .ephemeral domain
  exactFirst : rule.isWildcard = true → book kind domain = none

inductive Tells (book : Book) : Command → Outcome → Prop where
  | added (domain : String) (ip : IpAddr) (port : UInt16) (https : Bool) :
      Tells book (.add domain ip port https)
        (.printed ["Added: " ++ Commands.route https domain ip port])
  | removed (domain : String) (rule : DnsRule) (hb : book .persistent domain = some rule) :
      Tells book (.remove domain) (.printed ["Dns rule removed for: " ++ domain])
  | missing (domain : String) (hb : book .persistent domain = none) :
      Tells book (.remove domain) (.failed ("No rule found for '" ++ domain ++ "'"))
  | listed (rules : List DnsRule) (hb : book.Lists .persistent rules) :
      Tells book .list (.printed (Commands.listing rules))
  | resolved (domain : String) (kind : Lifetime) (rule : DnsRule)
      (hb : book.Answers domain kind rule) :
      Tells book (.resolve domain) (.printed ["Resolved: " ++
        Commands.route rule.https rule.domain rule.target.ip rule.target.port])
  | unresolved (domain : String) (hb : ∀ kind, book.Silent kind domain) :
      Tells book (.resolve domain) (.printed ["No DNS rule for '" ++ domain ++ "'"])
  | counted (ephemeral persistent : List DnsRule) (he : book.Lists .ephemeral ephemeral)
      (hp : book.Lists .persistent persistent) :
      Tells book .status (.printed ["Daemon:  running",
        "Rules:   " ++ String.ofList (IpText.decimal (ephemeral.length + persistent.length))])

end Book

namespace AppState

variable {lib : TextLibrary} {order : IterationOrder String DnsRule}

theorem book_handle (st : AppState) (request : IpcRequest) :
    (st.handle lib order request).1.book =
      match request.mutation lib with
      | some m => st.book.write m.slot m.value
      | none => st.book := by
  funext kind domain
  rw [book, store_handle]
  cases request.mutation lib with
  | none => rfl
  | some m => exact st.store.wellFormed.entry_apply m kind domain

theorem book_command {command : Command} (hn : command.Normal lib) (st : AppState) :
    (st.handle lib order command.request).1.book = st.book.after command := by
  rw [book_handle]
  cases command with
  | add domain ip port https =>
    obtain ⟨hv,hlower⟩ := hn
    rw [Command.request, IpcRequest.mutation_eq_some_iff.mpr (.add hv), hlower]
    rfl
  | remove domain =>
    obtain ⟨hv,hlower⟩ := hn
    rw [Command.request, IpcRequest.mutation_eq_some_iff.mpr (.remove hv), hlower]
    rfl
  | list | resolve domain | status => rfl

theorem lists_rules (st : AppState) (order : IterationOrder String DnsRule) (kind : Lifetime) :
    st.book.Lists kind ((st.store.inner.layer kind).rules order) := by
  cases kind with
  | ephemeral =>
    have h := st.store.wellFormed.ephemeral
    exact ⟨h.nodup_rules order,h.mem_rules order⟩
  | persistent =>
    have h := st.store.wellFormed.persistent
    exact ⟨h.nodup_rules order,h.mem_rules order⟩

theorem resolve_answers {st : AppState} {domain : String}
    (hd : patternIsWildcard domain = false) {rule : DnsRule}
    (hr : st.store.inner.resolve domain = some rule) :
    ∃ kind, st.book.Answers domain kind rule := by
  have hwell := st.store.wellFormed
  rw [InnerRuleStore.resolve_eq, Option.or_eq_some_iff] at hr
  rcases hr with he | ⟨hnone,hp⟩
  · obtain ⟨hstored,hcovers⟩ := hwell.ephemeral.answer_some he
    exact ⟨.ephemeral,hstored,hcovers,by simp,hwell.ephemeral.answer_wildcard hd he⟩
  · obtain ⟨hstored,hcovers⟩ := hwell.persistent.answer_some hp
    refine ⟨.persistent,hstored,hcovers,fun _ pattern other ho => ?_,
      hwell.persistent.answer_wildcard hd hp⟩
    exact hwell.ephemeral.answer_none hnone ho

theorem resolve_silent {st : AppState} {domain : String}
    (hr : st.store.inner.resolve domain = none) (kind : Lifetime) :
    st.book.Silent kind domain := by
  rw [InnerRuleStore.resolve_eq, Option.or_eq_none_iff] at hr
  intro pattern other ho
  cases kind with
  | ephemeral => exact st.store.wellFormed.ephemeral.answer_none hr.1 ho
  | persistent => exact st.store.wellFormed.persistent.answer_none hr.2 ho

theorem report_tells {command : Command} (hn : command.Normal lib) (st : AppState) :
    st.book.Tells command (command.report (st.handle lib order command.request).2) := by
  cases command with
  | add domain ip port https =>
    have hok : (st.handle lib order (.add domain (.new ip port) https)).2 = .ok :=
      (handle_ok_iff (IpcRequest.mutation_eq_some_iff.mpr (.add hn.1))).mpr ⟨_,rfl⟩
    rw [Command.request, hok]
    exact .added domain ip port https
  | remove domain =>
    obtain ⟨hv,hlower⟩ := hn
    have hremove := st.announced_remove domain
    change (st.store.remove domain).2 = st.book .persistent domain at hremove
    cases hb : st.book .persistent domain with
    | some rule =>
      rw [hb] at hremove
      simp only [Command.request, handle, accept, hv, hlower, hremove, if_true, finish]
      exact .removed domain rule hb
    | none =>
      rw [hb] at hremove
      simp only [Command.request, handle, accept, hv, hlower, hremove, if_true, finish]
      exact .missing domain hb
  | list => exact .listed _ (st.lists_rules order .persistent)
  | resolve domain =>
    obtain ⟨⟨hv,hlower⟩,hd⟩ := hn
    simp only [Command.request, handle, accept, hv, hlower, if_true, finish]
    cases hr : st.store.resolve domain with
    | some rule =>
      obtain ⟨kind,hb⟩ := resolve_answers hd hr
      exact .resolved domain kind rule hb
    | none => exact .unresolved domain (resolve_silent hr)
  | status =>
    have hwell := st.store.wellFormed
    have hlen : st.store.len = (st.store.inner.ephemeral.rules order).length +
        (st.store.inner.persistent.rules order).length := by
      rw [hwell.ephemeral.length_rules, hwell.persistent.length_rules]
      exact st.store.inner.len_eq
    have htold := Book.Tells.counted _ _ (st.lists_rules order .ephemeral)
      (st.lists_rules order .persistent)
    simp only [Command.request, handle, accept, finish, hlen]
    exact htold

theorem exchange_state (st : AppState) (a : Attempt) :
    (st.exchange lib order a).1 =
      if a.Arrives then (st.handle lib order a.request).1 else st := by
  rw [exchange, serveConnection, a.firstLine_arrived]
  split_ifs with h
  · simp only [if_neg a.single]
  · rfl

structure Reportable (bound : Nat) (st : AppState) : Prop where
  portable : st.store.inner.Holds fun rule => rule.target.flowinfo = 0
  count : st.store.len < bound

theorem Reportable.exchange {bound : Nat} {st : AppState} (h : st.Reportable bound) (a : Attempt) :
    (st.exchange lib order a).1.Reportable (bound + 1) := by
  have hcount := h.count
  rw [exchange_state]
  split_ifs
  · have hgrows := st.len_handle_le lib order a.request
    exact ⟨holds_handle h.portable order a.portable.writes,by omega⟩
  · exact ⟨h.portable,by omega⟩

end AppState

namespace Visit

variable {lib : TextLibrary} {order : IterationOrder String DnsRule}

theorem step_eq (st : AppState) (v : Visit) :
    v.step lib order st =
      match v.attempt? lib with
      | some a => (st.exchange lib order a).1
      | none => st := by
  cases v with
  | other a => rfl
  | typed t =>
    simp only [step, attempt?, Typed.exec]
    cases t.command.parse lib with
    | error message => rfl
    | ok command =>
      rfl

theorem reportable_step {bound : Nat} {st : AppState} (h : st.Reportable bound) (v : Visit) :
    (v.step lib order st).Reportable (bound + 1) := by
  rw [step_eq]
  cases v.attempt? lib with
  | some a => exact h.exchange a
  | none => exact ⟨h.portable,Nat.lt_succ_of_lt h.count⟩

theorem reportable_run {bound : Nat} {st : AppState} (h : st.Reportable bound)
    (visits : List Visit) :
    (run (Visit.step lib order) st visits).Reportable (bound + visits.length) := by
  induction visits generalizing bound st with
  | nil => exact h
  | cons v visits ih =>
    have hstep : (v.step lib order st).Reportable (bound + 1) := reportable_step h v
    have hrest := ih hstep
    rwa [Nat.add_right_comm] at hrest

end Visit

namespace Typed

variable {lib : TextLibrary} {order : IterationOrder String DnsRule}

structure Reported (lib : TextLibrary) (order : IterationOrder String DnsRule) (st : AppState)
    (t : Typed) (command : Command) (done : AppState × Outcome) : Prop where
  missed : ¬ (t.attempt command).Arrives → done = (st, .disconnected .connectionClosed)
  changed : (t.attempt command).Arrives → done.1.book = st.book.after command
  told : (t.attempt command).Arrives →
    (t.attempt command).Returns (st.handle lib order command.request).2 →
      st.book.Tells command done.2
  cut : ¬ (t.attempt command).Returns (st.handle lib order command.request).2 →
    ∃ cause, done.2 = .disconnected cause

theorem exec_parsed {t : Typed} {command : Command} (hp : t.command.parse lib = .ok command)
    (st : AppState) :
    t.exec lib order st =
      ((st.exchange lib order (t.attempt command)).1,
        command.outcome (st.exchange lib order (t.attempt command)).2) := by
  simp only [exec, hp]

theorem exec_reported (hl : lib.Unicode) {st : AppState} (h : st.Reportable (2 ^ 64)) {t : Typed}
    {command : Command} (hp : t.command.parse lib = .ok command) :
    Reported lib order st t command (t.exec lib order st) := by
  have hn := Command.parse_normal hl hp
  have hportable : (st.handle lib order command.request).2.Portable :=
    AppState.portable_handle h.portable h.count order command.portable_request
  rw [exec_parsed hp]
  by_cases ha : (t.attempt command).Arrives
  · obtain ⟨hstate,hreply⟩ := AppState.exchange_arrived ha hportable
    change (st.exchange lib order (t.attempt command)).2.toOption =
      if (t.attempt command).Returns (st.handle lib order command.request).2 then
        some (st.handle lib order command.request).2
      else none at hreply
    refine ⟨fun hn => absurd ha hn,fun _ => ?_,fun _ hr => ?_,fun hr => ?_⟩
    · exact (congrArg AppState.book hstate).trans (AppState.book_command hn st)
    · rw [if_pos hr] at hreply
      cases he : (st.exchange lib order (t.attempt command)).2 with
      | error cause =>
        rw [he] at hreply
        cases hreply
      | ok response =>
        rw [he] at hreply
        obtain rfl := Option.some.inj hreply
        exact AppState.report_tells hn st
    · rw [if_neg hr] at hreply
      cases he : (st.exchange lib order (t.attempt command)).2 with
      | error cause => exact ⟨cause,rfl⟩
      | ok response =>
        rw [he] at hreply
        cases hreply
  · rw [AppState.exchange_missed ha]
    exact ⟨fun _ => rfl,fun hn => absurd hn ha,fun hn => absurd hn ha,fun _ => ⟨_,rfl⟩⟩

end Typed

theorem commands_report_truthfully (lib : TextLibrary) (hl : lib.Unicode)
    (order : IterationOrder String DnsRule) (st : AppState) (before : List Visit)
    (hstored : st.store.inner.Holds fun rule => rule.target.flowinfo = 0)
    (hlen : st.store.len + before.length < 2 ^ 64) (t : Typed) :
    let s := run (Visit.step lib order) st before
    (∀ message, t.command.parse lib = .error message → t.exec lib order s = (s, .refused message)) ∧
    ∀ command, t.command.parse lib = .ok command →
      t.Reported lib order s command (t.exec lib order s) := by
  intro s
  have hstart : st.Reportable (st.store.len + 1) := ⟨hstored,Nat.lt_succ_self _⟩
  obtain ⟨hs,hcount⟩ : s.Reportable (st.store.len + 1 + before.length) :=
    Visit.reportable_run hstart before
  refine ⟨fun message hp => ?_,fun command hp => ?_⟩
  · simp only [Typed.exec, hp]
  · exact Typed.exec_reported hl ⟨hs,by omega⟩ hp

def addApi : Typed := ⟨.add "API.local" (.v4 0x7f000001) 3000 true, 200, 200⟩

def removeApi : Typed := ⟨.remove "api.LOCAL", 200, 200⟩

theorem typed_removal_reported :
    let s := run (Visit.step TextLibrary.unicode default) AppState.new [.typed addApi]
    s.book.Tells (.remove "api.local") (removeApi.exec TextLibrary.unicode default s).2 := by
  intro s
  have hreported := (commands_report_truthfully TextLibrary.unicode TextLibrary.unicode_unicode
    default AppState.new [.typed addApi] InnerRuleStore.holds_new (by decide) removeApi).2
    (.remove "api.local") (by rfl)
  exact hreported.told (by decide +kernel) (by decide +kernel)

end SideDns
