import SideDns.Ipc.Origins

namespace SideDns

open Broadcast (Channel)
open FiniteMap (IterationOrder)
open Transition (run Guarded)

namespace Server

variable {Key : Type} {lib : TextLibrary}

inductive Edited (sv : Server Key) : List Connection → Prop where
  | same : Edited sv sv.connections
  | changed (j : Nat) (f : Connection → Connection)
      (hf : ∀ c, (f c).request = c.request ∧ (f c).after = c.after) :
      Edited sv (sv.onConnection j f).connections
  | opened (client : Nat) (request : IpcRequest) :
      Edited sv (sv.connect client request).connections

theorem edited_setStage (sv : Server Key) (j : Nat) (stage : ConnectionStage) :
    Edited sv (sv.setStage j stage).connections :=
  .changed j _ (fun _ => ⟨rfl,rfl⟩)

theorem edited_step (lib : TextLibrary) (sv : Server Key) (action : ServerAction) :
    Edited sv (sv.step lib action).connections := by
  cases action with
  | daemon action => exact .same
  | connect client request => exact .opened client request
  | confirm j => exact .changed j _ (fun _ => ⟨rfl,rfl⟩)
  | poll =>
    simp only [step, poll]
    split <;> exact .same
  | accept =>
    simp only [step, accept]
    split
    · split
      · exact sv.edited_setStage _ _
      · exact .same
    · exact .same
  | handle order j =>
    simp only [step, handleConnection]
    split
    · split_ifs
      · exact sv.edited_setStage _ _
      · exact sv.edited_setStage _ _
    · exact .same
  | answer j =>
    simp only [step, answer]
    split
    · split_ifs
      · exact sv.edited_setStage _ _
      · exact .same
    · exact .same
  | subscriber j action => exact .changed j _ (fun _ => ⟨rfl,rfl⟩)

theorem Edited.keeps {sv : Server Key} {connections : List Connection} (h : Edited sv connections)
    {j : Nat} {c : Connection} (hj : sv.connections[j]? = some c) :
    ∃ c', connections[j]? = some c' ∧ c'.request = c.request := by
  cases h with
  | same => exact ⟨c,hj,rfl⟩
  | changed i f hf =>
    simp only [onConnection, List.getElem?_modify, hj]
    refine ⟨_,rfl,?_⟩
    split_ifs
    · exact (hf c).1
    · rfl
  | opened client request =>
    refine ⟨c,?_,rfl⟩
    simp only [connect, List.getElem?_append, hj, (List.getElem?_eq_some_iff.mp hj).1, if_true]

theorem mem_subscriptions {sv : Server Key} {client j : Nat} (h : j ∈ sv.subscriptions client) :
    ∃ d, sv.connections[j]? = some d ∧ d.request = .subscribe := by
  obtain ⟨-,hany⟩ := List.mem_filter.mp h
  obtain ⟨d,hd,hall⟩ := (Option.any_eq_true _ _).mp hany
  simp only [Bool.and_eq_true, decide_eq_true_eq] at hall
  exact ⟨d,hd,hall.2⟩

theorem Edited.origin {sv : Server Key} {connections : List Connection}
    (h : Edited sv connections) {k : Nat} {c : Connection} (hk : connections[k]? = some c) :
    (∃ c₀, sv.connections[k]? = some c₀ ∧ c₀.after = c.after) ∨
      ∃ client, c.after = sv.subscriptions client := by
  cases h with
  | same => exact .inl ⟨c,hk,rfl⟩
  | changed j f hf =>
    obtain ⟨c₀,hc₀,rfl⟩ := connection_onConnection hk
    refine .inl ⟨c₀,hc₀,?_⟩
    split_ifs
    · exact (hf c₀).2.symm
    · rfl
  | opened client request =>
    simp only [connect, List.getElem?_append] at hk
    split_ifs at hk
    · exact .inl ⟨c,hk,rfl⟩
    · rw [List.getElem?_singleton] at hk
      split_ifs at hk
      obtain rfl := Option.some.inj hk
      exact .inr ⟨client,rfl⟩

structure Wired (sv : Server Key) : Prop where
  after : ∀ (k : Nat) c, sv.connections[k]? = some c →
    ∀ j ∈ c.after, ∃ d, sv.connections[j]? = some d ∧ d.request = .subscribe
  handled : ∀ (k : Nat) c i, sv.connections[k]? = some c → c.stage.call? = some i →
    c.request ≠ .subscribe

theorem wired_serve (d : Daemon Key) : (serve d).Wired := by
  refine ⟨?_,?_⟩
  · intro k c hk
    simp [serve] at hk
  · intro k c i hk
    simp [serve] at hk

theorem Wired.step {sv : Server Key} (h : sv.Wired) (action : ServerAction) :
    (sv.step lib action).Wired := by
  have hedit := sv.edited_step lib action
  refine ⟨?_,?_⟩
  · intro k c hk j hj
    have hold : ∃ d, sv.connections[j]? = some d ∧ d.request = .subscribe := by
      rcases hedit.origin hk with ⟨c₀,hc₀,hafter⟩ | ⟨client,hafter⟩
      · exact h.after k c₀ hc₀ j (hafter ▸ hj)
      · exact mem_subscriptions (hafter ▸ hj)
    obtain ⟨d,hd,hr⟩ := hold
    obtain ⟨d',hd',hr'⟩ := hedit.keeps hd
    exact ⟨d',hd',hr'.trans hr⟩
  · intro k c i hk hi
    rcases sv.sameCall_step lib action hk with ⟨c₀,hc₀,hcall,-,hr⟩ | hnone | ⟨order,-,hserved⟩
    · exact hr ▸ h.handled k c₀ i hc₀ (hcall.trans hi)
    · rw [hi] at hnone
      cases hnone
    · exact hserved.request

def Begun (sv : Server Key) (j : Nat) : Prop :=
  ∃ d, sv.connections[j]? = some d ∧ d.stage ≠ .queued ∧ d.stage ≠ .accepted

def Ordered (lib : TextLibrary) (sv : Server Key) : ServerAction → Prop
  | .handle _ k => ∀ c m rule, sv.connections[k]? = some c → c.stage = .accepted →
      c.request.mutation lib = some m → m.announced sv.daemon.state.store.inner = some rule →
      ∀ j ∈ c.after, sv.Begun j
  | _ => True

theorem begun_of_subscriber {sv : Server Key} {j : Nat} {s : Subscriber}
    (h : sv.subscriber j = some s) : sv.Begun j := by
  obtain ⟨d,hd,hs⟩ := Option.bind_eq_some_iff.mp h
  refine ⟨d,hd,?_,?_⟩
  · intro hq
    rw [hq] at hs
    cases hs
  · intro ha
    rw [ha] at hs
    cases hs

theorem Wired.subscriber_of_begun {sv : Server Key} (h : sv.Wired) {k j : Nat} {c : Connection}
    (hk : sv.connections[k]? = some c) (hj : j ∈ c.after) (hb : sv.Begun j) :
    ∃ s, sv.subscriber j = some s := by
  obtain ⟨d,hd,hq,ha⟩ := hb
  obtain ⟨d',hd',hr⟩ := h.after k c hk j hj
  obtain rfl := Option.some.inj (hd.symm.trans hd')
  rw [subscriber_of_stage hd]
  cases hstage : d.stage with
  | queued => exact absurd hstage hq
  | accepted => exact absurd hstage ha
  | handling call => exact absurd hr (h.handled j d call hd (by rw [hstage]; rfl))
  | answered call => exact absurd hr (h.handled j d call hd (by rw [hstage]; rfl))
  | subscribed s => exact ⟨s,rfl⟩

def Registered (sv : Server Key) : Prop :=
  ∀ (p i : Nat), sv.origins[p]? = some (some i) → ∀ (k : Nat) c, sv.connections[k]? = some c →
    c.stage.call? = some i → ∀ j ∈ c.after, ∃ s, sv.subscriber j = some s ∧ s.registered ≤ p

theorem registered_serve (d : Daemon Key) : (serve d).Registered := by
  intro p i _ k c hk
  simp [serve] at hk

def Awaited (sv : Server Key) : Prop :=
  ∀ (k : Nat) c i request event, sv.connections[k]? = some c → c.stage.call? = some i →
    sv.daemon.calls[i]? = some ⟨request, .announcing event⟩ →
    ∀ j ∈ c.after, ∃ s, sv.subscriber j = some s

theorem awaited_serve (d : Daemon Key) : (serve d).Awaited := by
  intro k c i request event hk
  simp [serve] at hk

theorem announcing_daemon_step {lib : TextLibrary} {d : Daemon Key} (action : Action) {i : Nat}
    {request : IpcRequest} {event : DnsEvent} (hi : i < d.calls.length)
    (h : (d.step lib action).calls[i]? = some ⟨request, .announcing event⟩) :
    d.calls[i]? = some ⟨request, .announcing event⟩ := by
  cases action with
  | request order accepted =>
    simp only [Daemon.step, Daemon.accept, List.getElem?_append, hi, if_true] at h
    exact h
  | proceed k =>
    have hp := d.proceed_cases k
    simp only [Daemon.step] at h
    generalize d.proceed k = d' at h hp
    cases hp with
    | idle => exact h
    | _ =>
      simp only [List.getElem?_set] at h
      split_ifs at h <;> first | exact h | cases h
  | _ =>
    rw [(d.step_sameRules lib rfl).calls] at h
    exact h

theorem subscriber_step (lib : TextLibrary) {sv : Server Key} (action : ServerAction) {j : Nat}
    (h : ∃ s, sv.subscriber j = some s) : ∃ s, (sv.step lib action).subscriber j = some s := by
  obtain ⟨s,hs⟩ := h
  obtain ⟨s',hs',-⟩ := registered_step lib action ⟨s,hs,rfl⟩
  exact ⟨s',hs'⟩

theorem announcing_step {lib : TextLibrary} {sv : Server Key} {action : ServerAction} {i : Nat}
    {request : IpcRequest} {event : DnsEvent} (hi : i < sv.daemon.calls.length)
    (h : (sv.step lib action).daemon.calls[i]? = some ⟨request, .announcing event⟩) :
    sv.daemon.calls[i]? = some ⟨request, .announcing event⟩ := by
  cases ha : action.isDaemon with
  | true =>
    cases action with
    | daemon action => exact announcing_daemon_step action hi h
    | _ => cases ha
  | false =>
    rcases sv.daemon_step lib ha with heq | ⟨order,accepted,heq⟩
    · rw [heq] at h
      exact h
    · rw [heq] at h
      exact announcing_daemon_step (.request order accepted) hi h

theorem Served.announced {sv sv' : Server Key} {order : IterationOrder String DnsRule} {k : Nat}
    {c : Connection} (h : Served lib sv sv' order k c) {request : IpcRequest} {event : DnsEvent}
    (hi : sv'.daemon.calls[sv.daemon.calls.length]? = some ⟨request, .announcing event⟩) :
    ∃ m rule, c.request.mutation lib = some m ∧
      m.announced sv.daemon.state.store.inner = some rule := by
  have hacc := sv.daemon.state.accept_cases lib order c.request
  rw [h.daemon] at hi
  simp only [Daemon.accept, List.getElem?_concat_length] at hi
  have hstage := congrArg Call.stage (Option.some.inj hi)
  generalize sv.daemon.state.accept lib order c.request = accepted at hacc hstage
  cases hacc with
  | announcing m rule hm ha => exact ⟨m,rule,hm,ha⟩
  | stopping hs => cases hstage
  | replied response hm => cases hstage

theorem Awaited.step {sv : Server Key} (h : sv.Awaited) (ht : sv.Traced lib) (hw : sv.Wired)
    {action : ServerAction} (ho : sv.Ordered lib action) : (sv.step lib action).Awaited := by
  intro k c i request event hk hc hi j hj
  refine subscriber_step lib action ?_
  rcases sv.sameCall_step lib action hk with ⟨c₀,hc₀,hcall,hafter,-⟩ | hnone | ⟨order,rfl,hserved⟩
  · have hreq := ht.requests k c₀ i hc₀ (hcall.trans hc)
    have hlt : i < sv.daemon.calls.length := by
      simpa using (List.getElem?_eq_some_iff.mp hreq).1
    exact h k c₀ i request event hc₀ (hcall.trans hc) (announcing_step hlt hi) j (hafter ▸ hj)
  · rw [hc] at hnone
    cases hnone
  · obtain rfl := Option.some.inj (hc.symm.trans hserved.call)
    obtain ⟨m,rule,hm,ha⟩ := hserved.announced hi
    have hb := ho _ m rule hserved.accepted rfl hm ha j hj
    exact hw.subscriber_of_begun hserved.accepted hj hb

theorem Registered.advance {sv : Server Key} (h : sv.Registered) (ht : sv.Traced lib)
    (hs : sv.Sound) (hw : sv.Awaited) (action : Action) :
    (sv.advance lib action).Registered := by
  intro p i hp k c hk hc j hj
  rcases getElem?_origins_advance hp with hold | ⟨rfl,hnew⟩
  · exact h p i hold k c hk hc j hj
  · obtain ⟨rfl,request,event,hi⟩ := origin_eq_some hnew
    obtain ⟨s,hsub⟩ := hw k c i request event hk hc hi j hj
    have hf := hs.faithful j s hsub
    refine ⟨s,hsub,?_⟩
    rw [ht.length]
    exact hf.registered_le.trans hf.next_le

theorem Registered.quiet {sv : Server Key} (h : sv.Registered) (ht : sv.Traced lib)
    {action : ServerAction} (ha : action.isDaemon = false) :
    (sv.step lib action).Registered := by
  intro p i hp k c hk hc j hj
  rw [(sv.quiet_step lib ha).origins] at hp
  rcases sv.sameCall_step lib action hk with ⟨c₀,hc₀,hcall,hafter,-⟩ | hnone | ⟨order,-,hserved⟩
  · obtain ⟨s,hs,hle⟩ := h p i hp k c₀ hc₀ (hcall.trans hc) j (hafter ▸ hj)
    obtain ⟨s',hs',hr⟩ := registered_step lib action ⟨s,hs,rfl⟩
    exact ⟨s',hs',hr ▸ hle⟩
  · rw [hc] at hnone
    cases hnone
  · obtain rfl := Option.some.inj (hc.symm.trans hserved.call)
    exact absurd (ht.origins _ (List.mem_of_getElem? hp)) (Nat.lt_irrefl _)

structure Orderly (lib : TextLibrary) (sv : Server Key) : Prop where
  traced : sv.Traced lib
  sound : sv.Sound
  wired : sv.Wired
  awaited : sv.Awaited
  registered : sv.Registered

theorem orderly_serve {d : Daemon Key} (hd : d.calls = []) : (serve d).Orderly lib :=
  ⟨traced_serve hd, sound_serve d, wired_serve d, awaited_serve d, registered_serve d⟩

theorem Orderly.step {sv : Server Key} (h : sv.Orderly lib) (action : ServerAction)
    (ho : sv.Ordered lib action) : (sv.step lib action).Orderly lib := by
  refine ⟨h.traced.step action,h.sound.step action,h.wired.step action,
    h.awaited.step h.traced h.wired ho,?_⟩
  cases action with
  | daemon action => exact h.registered.advance h.traced h.sound h.awaited action
  | _ => exact h.registered.quiet h.traced rfl

theorem orderly_run {d : Daemon Key} (hd : d.calls = []) {acts : List ServerAction}
    (hg : Guarded (step lib) (Ordered lib) (serve d) acts) :
    (run (step lib) (serve d) acts).Orderly lib :=
  Transition.guarded_invariant (fun sv : Server Key => sv.Orderly lib)
    (fun _ action h ho => h.step action ho) (orderly_serve hd) hg

theorem announcing_handleConnection {sv : Server Key} {k : Nat} {c : Connection} {m : Mutation}
    {rule : DnsRule} (order : IterationOrder String DnsRule)
    (hk : sv.connections[k]? = some c) (hs : c.stage = .accepted)
    (hm : c.request.mutation lib = some m)
    (ha : m.announced sv.daemon.state.store.inner = some rule) :
    (sv.handleConnection lib order k).connections[k]? =
        some { c with stage := .handling sv.daemon.calls.length } ∧
      (sv.handleConnection lib order k).daemon.calls[sv.daemon.calls.length]? =
        some ⟨c.request, .announcing (m.event rule)⟩ ∧
      ∀ j, (sv.handleConnection lib order k).subscriber j = sv.subscriber j := by
  have hnone : sv.subscriber k = none := by
    rw [subscriber_of_stage hk, hs]
    rfl
  obtain ⟨client,request,after,confirmed,stage⟩ := c
  obtain rfl : stage = .accepted := hs
  have hsub : request ≠ .subscribe := by
    rintro rfl
    cases hm
  have hstage := AppState.announcing_of_accept order hm ha
  simp only [handleConnection, hk, if_neg hsub]
  refine ⟨?_,?_,?_⟩
  · simp [setStage, onConnection, hk]
  · simp only [Daemon.accept, List.getElem?_concat_length, hstage]
  · exact sv.subscriber_setStage_of_none hnone rfl

theorem ordered_of_registered {sv : Server Key} {k : Nat} {order : IterationOrder String DnsRule}
    (h : (run (step lib) sv
      [.handle order k, .daemon (.proceed sv.daemon.calls.length)]).Registered) :
    sv.Ordered lib (.handle order k) := by
  intro c m rule hk hs hm ha j hj
  obtain ⟨hconn,hcall,hsub⟩ := announcing_handleConnection order hk hs hm ha
  simp only [Transition.run_cons, Transition.run_nil, step] at h
  generalize sv.handleConnection lib order k = handled at h hconn hcall hsub
  generalize sv.daemon.calls.length = i at h hconn hcall
  have hnew : (handled.advance lib (.proceed i)).origins[handled.origins.length]? =
      some (some i) := by
    simp [advance, Daemon.step, Daemon.proceed, hcall, AppState.proceed, AppState.dispatch,
      Channel.send, origin]
  obtain ⟨s,hs,-⟩ := h _ i hnew k _ hconn rfl j hj
  exact begun_of_subscriber ((hsub j).symm.trans hs)

theorem ordered_iff {sv : Server Key} (h : sv.Orderly lib)
    (order : IterationOrder String DnsRule) (k : Nat) :
    sv.Ordered lib (.handle order k) ↔
      (run (step lib) sv
        [.handle order k, .daemon (.proceed sv.daemon.calls.length)]).Registered := by
  constructor
  · intro ho
    exact ((h.step (.handle order k) ho).step (.daemon (.proceed sv.daemon.calls.length))
      trivial).registered
  · exact ordered_of_registered

def Subscribed (sv : Server Key) (j : Nat) (event : DnsEvent) : Prop :=
  ∃ s, sv.subscriber j = some s ∧
    event ∈ sv.daemon.state.events.sent.drop s.registered ∧
    (s.Tracked → event ∈ s.heard ++ sv.daemon.state.events.unread s.next)

theorem Registered.subscribed {sv : Server Key} (h : sv.Registered) (hs : sv.Sound) {i : Nat}
    {event : DnsEvent} (hl : sv.Logged i event) {k : Nat} {c : Connection}
    (hk : sv.connections[k]? = some c) (hc : c.stage.call? = some i) {j : Nat}
    (hj : j ∈ c.after) : sv.Subscribed j event := by
  obtain ⟨p,hp,he⟩ := hl
  obtain ⟨s,hsub,hle⟩ := h p i hp k c hk hc j hj
  have hf := hs.faithful j s hsub
  have hmem : event ∈ sv.daemon.state.events.sent.drop s.registered := by
    refine List.mem_of_getElem? (i := p - s.registered) ?_
    rw [List.getElem?_drop, Nat.add_sub_cancel' hle, he]
  refine ⟨s,hsub,hmem,?_⟩
  intro ht
  rw [hf.heard ht.1 ht.2, Channel.heard_append_unread hf.registered_le hf.next_le]
  exact hmem

theorem Orderly.announced {sv : Server Key} (h : sv.Orderly lib) {k i : Nat} {c : Connection}
    {call : Call} {m : Mutation} (hk : sv.connections[k]? = some c)
    (hc : c.stage.call? = some i) (hi : sv.daemon.calls[i]? = some call)
    (hm : c.request.mutation lib = some m) (hok : call.stage = .replied .ok) :
    ∃ rule, rule.domain = m.pattern ∧ ∀ j ∈ c.after, sv.Subscribed j (m.event rule) := by
  have hreq := h.traced.requests k c i hk hc
  simp only [List.getElem?_map, hi] at hreq
  have hrec := h.traced.recorded i call hi m (Option.some.inj hreq ▸ hm)
  rw [hok] at hrec
  obtain ⟨rule,hlog,hd⟩ := hrec
  exact ⟨rule,hd,fun j hj => h.registered.subscribed h.sound hlog hk hc hj⟩

theorem subscription_sees_later_requests (lib : TextLibrary) (config : DnsConfig)
    (acts : List ServerAction)
    (hg : Guarded (step lib) (Ordered lib) (serve (Daemon.start config) : Server Key) acts) :
    let sv : Server Key := serve (Daemon.start config)
    (∀ before, before <+: acts → (run (step lib) sv before).Registered) ∧
    (∀ (k i : Nat) c call m, (run (step lib) sv acts).connections[k]? = some c →
      c.stage.call? = some i → (run (step lib) sv acts).daemon.calls[i]? = some call →
      c.request.mutation lib = some m → call.stage = .replied .ok →
      ∃ rule, rule.domain = m.pattern ∧
        ∀ j ∈ c.after, (run (step lib) sv acts).Subscribed j (m.event rule)) ∧
    ∀ order k, (run (step lib) sv acts).Ordered lib (.handle order k) ↔
      (run (step lib) sv (acts ++ [.handle order k,
        .daemon (.proceed (run (step lib) sv acts).daemon.calls.length)])).Registered := by
  intro sv
  have hrun : (run (step lib) sv acts).Orderly lib := orderly_run rfl hg
  refine ⟨?_,?_,?_⟩
  · rintro before ⟨rest,rfl⟩
    rw [Transition.guarded_append] at hg
    exact (orderly_run rfl hg.1).registered
  · intro k i c call m hk hc hi hm hok
    exact hrun.announced hk hc hi hm hok
  · intro order k
    rw [Transition.run_append]
    exact ordered_iff hrun order k

def subscribeThenAdd : List ServerAction :=
  [.connect 0 .subscribe, .confirm 0, .connect 0 (.add "a.test" (.v4 0x7f000001 3000) false),
    .poll, .accept, .poll, .accept]

def inOrder (order : IterationOrder String DnsRule) : List ServerAction :=
  [.handle order 0, .handle order 1, .daemon (.proceed 0)]

theorem subscription_sees_request_handled_later :
    ∃ rule, rule.domain = "a.test" ∧
      (run (step Daemon.plainText) (serve (Daemon.start ⟨[]⟩) : Server Unit)
        (subscribeThenAdd ++ inOrder default)).Subscribed 0 (.ruleAdded rule) := by
  have hg : Guarded (step Daemon.plainText) (Ordered Daemon.plainText)
      (serve (Daemon.start ⟨[]⟩) : Server Unit) (subscribeThenAdd ++ inOrder default) := by
    refine ⟨trivial,trivial,trivial,trivial,trivial,trivial,trivial,?_,?_,trivial,trivial⟩
    · intro c m rule hk _ hm
      obtain rfl := Option.some.inj hk
      cases hm
    · intro c m rule hk _ _ _ j hj
      obtain rfl := Option.some.inj hk
      obtain rfl := List.mem_singleton.mp hj
      exact ⟨_,rfl,by simp,by simp⟩
  obtain ⟨rule,hd,hall⟩ := (subscription_sees_later_requests Daemon.plainText ⟨[]⟩
    (subscribeThenAdd ++ inOrder default) hg).2.1 1 0 _ _
    (.add ⟨"a.test", .v4 0x7f000001 3000, false⟩) rfl rfl rfl rfl rfl
  exact ⟨rule,hd,hall 0 (List.mem_singleton.mpr rfl)⟩

def outOfOrder (order : IterationOrder String DnsRule) : List ServerAction :=
  [.handle order 1, .daemon (.proceed 0), .handle order 0]

theorem event_broadcast_before_registration :
    ¬ ∀ (config : DnsConfig) (acts : List ServerAction),
      (run (step Daemon.plainText)
        (serve (Daemon.start config) : Server Unit) acts).Registered := by
  intro h
  obtain ⟨s,hs,hle⟩ := h ⟨[]⟩ (subscribeThenAdd ++ outOfOrder default) 0 0 rfl 1 _ rfl rfl 0
    (List.mem_singleton.mpr rfl)
  obtain rfl := Option.some.inj hs
  exact absurd hle (by decide)

end Server

end SideDns
