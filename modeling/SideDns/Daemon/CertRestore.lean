import SideDns.Daemon.Handshakes

namespace SideDns

open Transition (run)

namespace Handshake

def Restored (rule : DnsRule) (certified : CertifiedKey) : Handshake → Prop
  | holding name found | checked name found => name = rule.domain → found = rule
  | signing name _ | caching name _ _ => name ≠ rule.domain
  | served name found key => name = rule.domain → found = rule ∧ key = certified
  | resolving _ | missed _ | refused => True

def Due (rule : DnsRule) (certified : CertifiedKey) (n : Nat) : Handshake → Prop
  | resolving name => name = rule.domain ∧ 4 ≤ n
  | missed name => name = rule.domain ∧ 3 ≤ n
  | holding name found => name = rule.domain ∧ found = rule ∧ 2 ≤ n
  | checked name found => name = rule.domain ∧ found = rule ∧ 1 ≤ n
  | served name found key => name = rule.domain ∧ found = rule ∧ key = certified
  | signing _ _ | caching _ _ _ | refused => False

theorem Due.ne_refused {rule : DnsRule} {certified : CertifiedKey} {n : Nat}
    {handshake : Handshake} (h : handshake.Due rule certified n) : handshake ≠ .refused := by
  rintro rfl
  exact h

theorem due_zero {rule : DnsRule} {certified : CertifiedKey} {handshake : Handshake}
    (h : handshake.Due rule certified 0) : handshake = .served rule.domain rule certified := by
  cases handshake with
  | served name found key =>
    obtain ⟨rfl,rfl,rfl⟩ := h
    rfl
  | resolving name => exact absurd h.2 (Nat.not_succ_le_zero _)
  | missed name => exact absurd h.2 (Nat.not_succ_le_zero _)
  | holding name found => exact absurd h.2.2 (Nat.not_succ_le_zero _)
  | checked name found => exact absurd h.2.2 (Nat.not_succ_le_zero _)
  | signing name found => exact h.elim
  | caching name found key => exact h.elim
  | refused => exact h.elim

end Handshake

namespace Daemon

variable {Key : Type} {rule : DnsRule}

structure Steady (rule : DnsRule) (d : Daemon Key) : Prop where
  resolves : d.state.store.resolve rule.domain = some rule
  sent : ∀ event ∈ d.state.events.sent, event.rule? = none
  watched : ∀ event ∈ d.watch.phase.event?, event.rule? = none
  lookups : ∀ found, .holding rule.domain found ∈ d.lookups → found = rule
  cached : ∀ found, d.resolver.cache.lookup rule.domain = some found → found = rule

theorem cached_insert {resolver : DomainResolver Key}
    (h : ∀ found, resolver.cache.lookup rule.domain = some found → found = rule)
    {name : String} {other : DnsRule} (ho : name = rule.domain → other = rule) (found : DnsRule)
    (hf : (resolver.cache.insert name other).lookup rule.domain = some found) :
    found = rule := by
  rw [FiniteMap.lookup_insert_ite] at hf
  split_ifs at hf with heq
  · obtain rfl := Option.some.inj hf
    exact ho heq.symm
  · exact h found hf

theorem Steady.probe {d : Daemon Key} (h : d.Steady rule) (domain : String) :
    (d.probe domain).Steady rule ∧ (d.probe domain).resolver = d.resolver := by
  simp only [Daemon.probe]
  cases d.resolver.cache.lookup domain with
  | some found => exact ⟨h,rfl⟩
  | none =>
    refine ⟨{ h with lookups := fun found hf => ?_ },rfl⟩
    rcases List.mem_append.mp hf with hold | hnew
    · exact h.lookups found hold
    · cases List.mem_singleton.mp hnew

theorem Steady.advance {d : Daemon Key} (h : d.Steady rule) (i : Nat) :
    (d.advance i).Steady rule ∧
      (d.advance i).resolver.certsCache = d.resolver.certsCache := by
  have hadvanced := d.advance_cases i
  generalize d.advance i = d' at hadvanced
  cases hadvanced with
  | missed domain other hi hr =>
    refine ⟨{ h with lookups := fun found hf => ?_ },rfl⟩
    rcases List.mem_or_eq_of_mem_set hf with hold | hnew
    · exact h.lookups found hold
    · obtain ⟨rfl,rfl⟩ := Lookup.holding.inj hnew
      exact Option.some.inj (hr.symm.trans h.resolves)
  | unknown domain hi hr =>
    exact ⟨{ h with lookups := fun found hf => h.lookups found (List.mem_of_mem_eraseIdx hf) },
      rfl⟩
  | holding domain other hi =>
    refine ⟨{ h with
      lookups := fun found hf => h.lookups found (List.mem_of_mem_eraseIdx hf)
      cached := cached_insert h.cached ?_ },rfl⟩
    rintro rfl
    exact h.lookups other (List.mem_of_getElem? hi)
  | idle => exact ⟨h,rfl⟩

theorem watches_nothing {phase : WatchPhase} (h : phase.event? = none) :
    ∀ event ∈ phase.event?, event.rule? = none := by
  intro event he
  rw [h] at he
  cases he

theorem Steady.watch {d : Daemon Key} (h : d.Steady rule) (action : WatchAction) :
    (d.watchStep action).Steady rule ∧ (d.watchStep action).resolver = d.resolver := by
  have hwatched := d.watch_cases action
  generalize d.watchStep action = d' at hwatched
  cases hwatched with
  | received event next hp hr =>
    refine ⟨{ h with watched := fun other ho => ?_ },rfl⟩
    obtain rfl := Option.some.inj ho
    exact h.sent event (List.mem_of_getElem? (Broadcast.Channel.recv_ok_next hr).2)
  | invalidate event hp =>
    have hobserved : d.resolver.observe event = d.resolver := by
      rw [DomainResolver.observe, h.watched event (by rw [hp]; rfl)]
    rw [hobserved]
    refine ⟨{ h with watched := watches_nothing ?_ },rfl⟩
    cases event.isPersistent <;> rfl
  | idle => exact ⟨h,rfl⟩
  | _ => exact ⟨{ h with watched := watches_nothing rfl },rfl⟩

theorem Steady.shut {d d' : Daemon Key} (h : d.Steady rule) (hs : Shut d d') :
    d'.Steady rule ∧ d'.resolver = d.resolver := by
  cases hs with
  | signal => exact ⟨{ h with },rfl⟩
  | shutdown hc hr =>
    refine ⟨{ h with sent := fun event he => ?_ },rfl⟩
    rcases List.mem_append.mp he with hold | hnew
    · exact h.sent event hold
    · obtain rfl := List.mem_singleton.mp hnew
      rfl
  | idle => exact ⟨h,rfl⟩

theorem Steady.step (lib : TextLibrary) {d : Daemon Key} (h : d.Steady rule)
    {action : Action} (ha : action.isHandling = false) :
    (d.step lib action).Steady rule ∧
      (d.step lib action).resolver.certsCache = d.resolver.certsCache := by
  cases action with
  | probe domain => exact (h.probe domain).imp_right (congrArg DomainResolver.certsCache)
  | advance i => exact h.advance i
  | request order request => cases ha
  | proceed i => cases ha
  | watch action => exact (h.watch action).imp_right (congrArg DomainResolver.certsCache)
  | manager action =>
    have hmanaged := d.manager_cases action
    rw [Daemon.step]
    generalize d.managerStep action = d' at hmanaged
    cases hmanaged with
    | step input manager hi hm => exact ⟨{ h with },rfl⟩
    | idle => exact ⟨h,rfl⟩
  | signal => exact (h.shut d.signal_cases).imp_right (congrArg DomainResolver.certsCache)
  | shutdown => exact (h.shut d.shutdown_cases).imp_right (congrArg DomainResolver.certsCache)

end Daemon

def TlsAction.isHandling : TlsAction → Bool
  | daemon action => action.isHandling
  | _ => false

def TlsAction.proceeds (i : Nat) : TlsAction → Bool
  | proceed j _ => i == j
  | _ => false

namespace TlsDaemon

theorem pursue_join (t : TlsDaemon) (io : SignOutcomes) (handshake other : Handshake) :
    (t.join other).pursue io handshake =
      ((t.pursue io handshake).1.join other, (t.pursue io handshake).2) := by
  cases handshake with
  | resolving name =>
    cases hl : t.daemon.resolver.cache.lookup name <;> simp only [pursue, join, hl]
  | missed name =>
    cases hr : t.daemon.state.store.resolve name <;> simp only [pursue, join, hr]
  | checked name rule =>
    have hcerts : (t.join other).certs = t.certs := rfl
    cases hl : t.certs.lookup name <;> simp only [pursue, hcerts, hl]
  | signing name rule =>
    have hgen : (t.join other).generate [name] io = (t.generate [name] io).join other := by
      cases hg : io.generated <;> simp only [generate, hg] <;> rfl
    have hauthority : (t.join other).certAuthority = t.certAuthority := rfl
    have hpairs : (t.join other).keyPairs = t.keyPairs := rfl
    cases hca : t.certAuthority with
    | none => simp only [pursue, hauthority, hca]
    | some ca =>
      cases hs : ca.sign [name] t.keyPairs.length io <;>
        simp only [pursue, hauthority, hpairs, hca, hs, hgen]
  | _ => rfl

theorem proceed_join (t : TlsDaemon) (io : SignOutcomes) (handshake : Handshake) :
    (t.join handshake).proceed t.handshakes.length io =
      (t.pursue io handshake).1.join (t.pursue io handshake).2 := by
  have hi : (t.join handshake).handshakes[t.handshakes.length]? = some handshake :=
    List.getElem?_concat_length
  simp only [proceed, hi, pursue_join]
  simp only [join, t.pursue_keeps io handshake, List.set_append_right _ _ (Nat.le_refl _),
    Nat.sub_self, List.set_cons_zero]

def settle (io : SignOutcomes) : Nat → TlsDaemon × Handshake → TlsDaemon × Handshake
  | 0, p => p
  | n + 1, p => settle io n (p.1.pursue io p.2)

theorem run_join (lib : TextLibrary) (t : TlsDaemon) (io : SignOutcomes) (n : Nat)
    (handshake : Handshake) :
    run (step lib) (t.join handshake) (List.replicate n (.proceed t.handshakes.length io)) =
      (settle io n (t, handshake)).1.join (settle io n (t, handshake)).2 := by
  induction n generalizing t handshake with
  | zero => rfl
  | succ n ih =>
    rw [List.replicate_succ, Transition.run_cons, step, proceed_join,
      ← t.pursue_keeps io handshake]
    exact ih (t.pursue io handshake).1 (t.pursue io handshake).2

def Yields (p : TlsDaemon × Handshake) (r : TlsDaemon × Option CertifiedKey) : Prop :=
  p.1 = r.1 ∧ p.2.certificate = r.2

theorem settle_refused (t : TlsDaemon) (io : SignOutcomes) (n : Nat) :
    Yields (settle io n (t, .refused)) (t, none) := by
  induction n with
  | zero => exact ⟨rfl,rfl⟩
  | succ n ih => exact ih

theorem settle_served (t : TlsDaemon) (io : SignOutcomes) (n : Nat) (name : String)
    (rule : DnsRule) (certified : CertifiedKey) :
    Yields (settle io n (t, .served name rule certified)) (t, some certified) := by
  induction n with
  | zero => exact ⟨rfl,rfl⟩
  | succ n ih => exact ih

theorem settle_signing (t : TlsDaemon) (io : SignOutcomes) (n : Nat) (name : String)
    (rule : DnsRule) :
    Yields (settle io (n + 2) (t, .signing name rule)) (t.signDomain name io) := by
  cases hca : t.certAuthority with
  | none =>
    simp only [settle, pursue, signDomain, hca]
    exact settle_refused t io n
  | some ca =>
    cases hs : ca.sign [name] t.keyPairs.length io with
    | none =>
      simp only [settle, pursue, signDomain, hca, hs]
      exact settle_refused _ io n
    | some certified =>
      simp only [settle, pursue, signDomain, hca, hs]
      exact settle_served _ io n name rule certified

theorem settle_checked (t : TlsDaemon) (io : SignOutcomes) (n : Nat) (name : String)
    (rule : DnsRule) :
    Yields (settle io (n + 3) (t, .checked name rule)) (t.certify name io) := by
  rw [settle]
  cases hl : t.certs.lookup name with
  | some certified =>
    simp only [pursue, certify, hl]
    exact settle_served t io (n + 2) name rule certified
  | none =>
    simp only [pursue, certify, hl]
    exact settle_signing t io n name rule

theorem settle_check (t : TlsDaemon) (io : SignOutcomes) (n : Nat) (name : String)
    (rule : DnsRule) :
    Yields (settle io (n + 3) (t, .check name rule))
      (if rule.https then t.certify name io else (t, none)) := by
  rw [Handshake.check]
  split_ifs
  · exact settle_checked t io n name rule
  · exact settle_refused t io (n + 3)

theorem settle_resolving (t : TlsDaemon) (io : SignOutcomes) {ca : Ca} (name : String)
    (hca : t.certAuthority = some ca) :
    Yields (settle io 6 (t, .resolving name)) (t.resolve (some name) io) := by
  rw [settle]
  cases hl : t.daemon.resolver.cache.lookup name with
  | some rule =>
    simp only [pursue, resolve, hca, resolveDomain, DomainResolver.resolveDomain, hl]
    exact settle_check t io 2 name rule
  | none =>
    rw [settle]
    cases hr : t.daemon.state.store.inner.resolve name with
    | none =>
      simp only [pursue, resolve, hca, resolveDomain, DomainResolver.resolveDomain, hl,
        RuleStore.resolve, hr]
      exact settle_refused t io 4
    | some rule =>
      simp only [pursue, resolve, hca, resolveDomain, DomainResolver.resolveDomain, hl,
        RuleStore.resolve, hr]
      exact settle_check _ io 0 name rule

theorem handshake_alone_resolves (lib : TextLibrary) (t : TlsDaemon)
    (serverName : Option String) (io : SignOutcomes) :
    let t' := run (step lib) t
      (.hello serverName :: List.replicate 6 (.proceed t.handshakes.length io))
    ∃ handshake, t' = (t.resolve serverName io).1.join handshake ∧
      handshake.certificate = (t.resolve serverName io).2 := by
  intro t'
  have hsettled (handshake : Handshake) (hello : t.hello serverName = t.join handshake)
      (hy : Yields (settle io 6 (t, handshake)) (t.resolve serverName io)) :
      ∃ handshake, t' = (t.resolve serverName io).1.join handshake ∧
        handshake.certificate = (t.resolve serverName io).2 := by
    refine ⟨(settle io 6 (t, handshake)).2,?_,hy.2⟩
    rw [← hy.1, ← run_join lib, ← hello]
    rfl
  cases serverName with
  | none => exact hsettled .refused rfl (settle_refused t io 6)
  | some name =>
    cases hca : t.certAuthority with
    | none =>
      refine hsettled .refused (by rw [hello, hca]) ?_
      rw [resolve, hca]
      exact settle_refused t io 6
    | some ca =>
      exact hsettled (.resolving name) (by rw [hello, hca]) (settle_resolving t io name hca)

theorem resolve_isSome (t : TlsDaemon) (name : String) (io : SignOutcomes) :
    (t.resolve (some name) io).2.isSome = true ↔
      t.certAuthority.isSome = true ∧ (t.resolveDomain name).2.any DnsRule.https = true ∧
        ((t.certs.lookup name).isSome = true ∨ io.succeed = true) := by
  cases hca : t.certAuthority with
  | none => simp [resolve, hca]
  | some ca =>
    have hcerts : (t.resolveDomain name).1.certs = t.certs := rfl
    have hauthority : (t.resolveDomain name).1.certAuthority = some ca := hca
    have hpairs : (t.resolveDomain name).1.keyPairs = t.keyPairs := rfl
    simp only [resolve, hca, certify, hcerts]
    cases hr : (t.resolveDomain name).2.any DnsRule.https with
    | false => simp
    | true =>
      cases hl : t.certs.lookup name with
      | some certified => simp
      | none =>
        cases hs : io.succeed <;>
          simp [signDomain, hauthority, Ca.sign, hs]

theorem sign_singleton (ca : Ca) (domain : String) (pair : Nat) (io : SignOutcomes) :
    ca.sign [domain] pair io = if io.succeed then some (ca.leaf [domain] pair) else none := by
  simp [Ca.sign]

theorem signDomain_keeps (t : TlsDaemon) (domain : String) (io : SignOutcomes) :
    (t.signDomain domain io).1.certAuthority = t.certAuthority ∧
      (t.signDomain domain io).1.daemon.state = t.daemon.state ∧
      (t.signDomain domain io).1.daemon.resolver.cache = t.daemon.resolver.cache ∧
      (t.signDomain domain io).1.handshakes = t.handshakes := by
  obtain ⟨ha,hd,hs⟩ := t.generate_keeps [domain] io
  rw [signDomain]
  split
  · exact ⟨rfl,rfl,rfl,rfl⟩
  · split
    · exact ⟨ha,by rw [hd],by rw [hd],hs⟩
    · refine ⟨ha,?_,?_,hs⟩
      · simp only [withCerts, hd]
      · simp only [withCerts, hd]

theorem signDomain_certs {t : TlsDaemon} {ca : Ca} (hca : t.certAuthority = some ca)
    (domain : String) (io : SignOutcomes) (name : String) :
    ((t.signDomain domain io).1.certs.lookup name).isSome = true ↔
      (t.certs.lookup name).isSome = true ∨ domain = name ∧ io.succeed = true := by
  have hcerts : (t.generate [domain] io).certs = t.certs := by
    rw [certs, (t.generate_keeps [domain] io).2.1, certs]
  cases hs : io.succeed with
  | false => simp [signDomain, hca, sign_singleton, hs, hcerts]
  | true =>
    simp only [signDomain, hca, sign_singleton, hs, if_pos, hcerts, and_true]
    change ((t.certs.insert domain _).lookup name).isSome = true ↔ _
    rw [FiniteMap.lookup_insert_ite]
    split_ifs with heq
    · simp [heq]
    · simp [Ne.symm heq]

def restoreFrom (io : Nat → SignOutcomes) (k : Nat) (rules : List DnsRule) (t : TlsDaemon) :
    TlsDaemon :=
  (rules.zipIdx k).foldl (fun t rule => (t.signDomain rule.1.domain (io rule.2)).1) t

theorem restoreFrom_keeps (io : Nat → SignOutcomes) (k : Nat) (rules : List DnsRule)
    (t : TlsDaemon) :
    (restoreFrom io k rules t).certAuthority = t.certAuthority ∧
      (restoreFrom io k rules t).daemon.state = t.daemon.state ∧
      (restoreFrom io k rules t).daemon.resolver.cache = t.daemon.resolver.cache ∧
      (restoreFrom io k rules t).handshakes = t.handshakes := by
  induction rules generalizing k t with
  | nil => exact ⟨rfl,rfl,rfl,rfl⟩
  | cons rule rules ih =>
    obtain ⟨ha,hs,hc,hh⟩ := t.signDomain_keeps rule.domain (io k)
    obtain ⟨ia,is,ic,ih⟩ := ih (k + 1) (t.signDomain rule.domain (io k)).1
    exact ⟨ia.trans ha,is.trans hs,ic.trans hc,ih.trans hh⟩

theorem restoreFrom_certs (io : Nat → SignOutcomes) (k : Nat) (rules : List DnsRule)
    {t : TlsDaemon} {ca : Ca} (hca : t.certAuthority = some ca) (name : String) :
    ((restoreFrom io k rules t).certs.lookup name).isSome = true ↔
      (t.certs.lookup name).isSome = true ∨
        ∃ i rule, rules[i]? = some rule ∧ rule.domain = name ∧ (io (k + i)).succeed = true := by
  induction rules generalizing k t with
  | nil => simp [restoreFrom]
  | cons rule rules ih =>
    have hauthority := (t.signDomain_keeps rule.domain (io k)).1.trans hca
    change ((restoreFrom io (k + 1) rules (t.signDomain rule.domain (io k)).1).certs.lookup
      name).isSome = true ↔ _
    rw [ih (k + 1) hauthority, signDomain_certs hca, or_assoc]
    refine or_congr_right ⟨?_,?_⟩
    · rintro (⟨hd,hs⟩ | ⟨i,other,hi,hd,hs⟩)
      · exact ⟨0,rule,rfl,hd,hs⟩
      · exact ⟨i + 1,other,hi,hd,by rwa [Nat.add_right_comm, Nat.add_assoc] at hs⟩
    · rintro ⟨i,other,hi,hd,hs⟩
      cases i with
      | zero =>
        obtain rfl := Option.some.inj hi
        exact .inl ⟨hd,hs⟩
      | succ i => exact .inr ⟨i,other,hi,hd,by rwa [Nat.add_right_comm, Nat.add_assoc]⟩

theorem restore_eq {t : TlsDaemon} {installed : CertDir} (ht : t.certAuthority.isSome = true)
    (hi : installed.load.isSome = true) (rules : List DnsRule) (io : Nat → SignOutcomes) :
    t.restore installed rules io = restoreFrom io 0 (restorable rules) t := by
  rw [restore, ht, hi]
  rfl

theorem start_certs (loaded installed : CertDir) (config : DnsConfig) (io : Nat → SignOutcomes)
    (name : String) :
    ((start loaded installed config io).certs.lookup name).isSome = true ↔
      loaded.load.isSome = true ∧ installed.load.isSome = true ∧
        ∃ i rule, (restorable config.rules)[i]? = some rule ∧ rule.domain = name ∧
          (io i).succeed = true := by
  have hempty : ((load loaded config).certs.lookup name).isSome = false := by
    simp [load, certs, Daemon.start, Daemon.idle, DomainResolver.new]
  cases hl : loaded.load with
  | none =>
    have ht : (load loaded config).certAuthority = none := hl
    simp [start, restore, ht, hempty]
  | some ca =>
    have ht : (load loaded config).certAuthority = some ca := hl
    cases hi : installed.load with
    | none => simp [start, restore, hi, hempty]
    | some other =>
      rw [start, restore_eq (by rw [ht]; rfl) (by rw [hi]; rfl), restoreFrom_certs _ _ _ ht,
        hempty]
      simp [AppState.loadRules]

theorem start_keeps (loaded installed : CertDir) (config : DnsConfig) (io : Nat → SignOutcomes) :
    (start loaded installed config io).certAuthority = loaded.load ∧
      (start loaded installed config io).daemon.state = (load loaded config).daemon.state ∧
      (start loaded installed config io).daemon.resolver.cache = ∅ ∧
      (start loaded installed config io).handshakes = [] := by
  rw [start, restore]
  split_ifs
  · exact restoreFrom_keeps io 0 _ (load loaded config)
  · exact ⟨rfl,rfl,rfl,rfl⟩

structure Restored (rule : DnsRule) (certified : CertifiedKey) (Q : String → Prop)
    (pairs : List (List String)) (t : TlsDaemon) : Prop where
  authority : t.certAuthority.isSome = true
  steady : t.daemon.Steady rule
  cached : t.certs.lookup rule.domain = some certified
  handshakes : ∀ handshake ∈ t.handshakes, handshake.Restored rule certified
  keyPairs : ∃ more, t.keyPairs = pairs ++ more ∧ ∀ domains ∈ more, ∃ name,
    Q name ∧ name ≠ rule.domain ∧ domains = [name]

section Restoration

variable {lib : TextLibrary} {A : Option Ca} {P : DnsRule → Prop} {Q : String → Prop}
  {rule : DnsRule} {certified : CertifiedKey} {pairs : List (List String)}

theorem restored_check {name : String} {found : DnsRule}
    (h : name = rule.domain → found = rule) :
    (Handshake.check name found).Restored rule certified := by
  rw [Handshake.check]
  split_ifs
  · exact h
  · trivial

theorem Restored.withCache {t : TlsDaemon} (h : t.Restored rule certified Q pairs)
    {name : String} {found : DnsRule} (hf : name = rule.domain → found = rule) :
    (t.withCache (t.daemon.resolver.cache.insert name found)).Restored rule certified Q pairs :=
  { h with
    steady := { h.steady with cached := Daemon.cached_insert h.steady.cached hf } }

theorem Restored.withCerts {t : TlsDaemon} (h : t.Restored rule certified Q pairs)
    {name : String} (hn : name ≠ rule.domain) (other : CertifiedKey) :
    (t.withCerts (t.certs.insert name other)).Restored rule certified Q pairs := by
  refine { h with steady := { h.steady with }, cached := ?_ }
  change (t.certs.insert name other).lookup rule.domain = some certified
  rw [FiniteMap.lookup_insert_ite, if_neg hn.symm]
  exact h.cached

theorem Restored.generate {t : TlsDaemon} (h : t.Restored rule certified Q pairs)
    {name : String} (hq : Q name) (hn : name ≠ rule.domain) (io : SignOutcomes) :
    (t.generate [name] io).Restored rule certified Q pairs := by
  rw [TlsDaemon.generate]
  split_ifs
  · obtain ⟨more,hm,hall⟩ := h.keyPairs
    refine { h with keyPairs := ⟨more ++ [[name]],?_,fun domains hd => ?_⟩ }
    · rw [hm, List.append_assoc]
    · rcases List.mem_append.mp hd with hold | hnew
      · exact hall domains hold
      · exact ⟨name,hq,hn,List.mem_singleton.mp hnew⟩
  · exact h

theorem Restored.pursue {t : TlsDaemon} (h : t.Restored rule certified Q pairs)
    (io : SignOutcomes) {handshake : Handshake} (ha : handshake.Admits P Q t.Issued)
    (hh : handshake.Restored rule certified) :
    (t.pursue io handshake).1.Restored rule certified Q pairs ∧
      (t.pursue io handshake).2.Restored rule certified := by
  cases handshake with
  | resolving name =>
    cases hl : t.daemon.resolver.cache.lookup name with
    | some found =>
      simp only [TlsDaemon.pursue, hl]
      refine ⟨h,restored_check ?_⟩
      rintro rfl
      exact h.steady.cached found hl
    | none =>
      simp only [TlsDaemon.pursue, hl]
      exact ⟨h,trivial⟩
  | missed name =>
    cases hr : t.daemon.state.store.resolve name with
    | none =>
      simp only [TlsDaemon.pursue, hr]
      exact ⟨h,trivial⟩
    | some found =>
      simp only [TlsDaemon.pursue, hr]
      refine ⟨h,?_⟩
      rintro rfl
      exact Option.some.inj (hr.symm.trans h.steady.resolves)
  | holding name found => exact ⟨h.withCache hh,restored_check hh⟩
  | checked name found =>
    cases hl : t.certs.lookup name with
    | some served =>
      simp only [TlsDaemon.pursue, hl]
      refine ⟨h,?_⟩
      rintro rfl
      exact ⟨hh rfl,Option.some.inj (hl.symm.trans h.cached)⟩
    | none =>
      simp only [TlsDaemon.pursue, hl]
      refine ⟨h,?_⟩
      rintro rfl
      cases hl.symm.trans h.cached
  | signing name found =>
    have hgen := h.generate ha.1 hh io
    cases hca : t.certAuthority with
    | none =>
      simp only [TlsDaemon.pursue, hca]
      exact ⟨h,trivial⟩
    | some ca =>
      cases hs : ca.sign [name] t.keyPairs.length io with
      | none =>
        simp only [TlsDaemon.pursue, hca, hs]
        exact ⟨hgen,trivial⟩
      | some signed =>
        simp only [TlsDaemon.pursue, hca, hs]
        exact ⟨hgen,hh⟩
  | caching name found signed => exact ⟨h.withCerts hh signed,fun hn => absurd hn hh⟩
  | served name found served => exact ⟨h,hh⟩
  | refused => exact ⟨h,hh⟩

theorem Restored.proceed {t : TlsDaemon} (h : t.Restored rule certified Q pairs)
    (hs : t.Sound A P Q) (i : Nat) (io : SignOutcomes) :
    (t.proceed i io).Restored rule certified Q pairs := by
  cases hi : t.handshakes[i]? with
  | none =>
    simp only [TlsDaemon.proceed, hi]
    exact h
  | some handshake =>
    simp only [TlsDaemon.proceed, hi]
    have hmem := List.mem_of_getElem? hi
    obtain ⟨hp,hh⟩ := h.pursue io (hs.handshakes handshake hmem) (h.handshakes handshake hmem)
    refine { hp with handshakes := fun other ho => ?_ }
    rcases List.mem_or_eq_of_mem_set ho with hold | rfl
    · exact h.handshakes other hold
    · exact hh

theorem Restored.join {t : TlsDaemon} (h : t.Restored rule certified Q pairs)
    {handshake : Handshake} (hh : handshake.Restored rule certified) :
    (t.join handshake).Restored rule certified Q pairs := by
  refine { h with handshakes := fun other ho => ?_ }
  rcases List.mem_append.mp ho with hold | hnew
  · exact h.handshakes other hold
  · obtain rfl := List.mem_singleton.mp hnew
    exact hh

theorem Restored.step (lib : TextLibrary) {t : TlsDaemon}
    (h : t.Restored rule certified Q pairs) (hs : t.Sound A P Q) {action : TlsAction}
    (ha : action.isHandling = false) :
    (t.step lib action).Restored rule certified Q pairs := by
  cases action with
  | daemon action =>
    obtain ⟨hsteady,hcerts⟩ := h.steady.step lib ha
    refine { h with steady := hsteady, cached := ?_ }
    exact (congrArg (fun certs => certs.lookup rule.domain) hcerts).trans h.cached
  | hello serverName =>
    cases serverName with
    | none => exact h.join trivial
    | some name =>
      cases hca : t.certAuthority with
      | none =>
        simp only [TlsDaemon.step, TlsDaemon.hello, hca]
        exact h.join trivial
      | some ca =>
        simp only [TlsDaemon.step, TlsDaemon.hello, hca]
        exact h.join trivial
  | proceed i io => exact h.proceed hs i io

theorem due_check {found : DnsRule} (hs : rule.https = true) (hf : found = rule) {n : Nat}
    (hn : 1 ≤ n) : (Handshake.check rule.domain found).Due rule certified n := by
  rw [hf, Handshake.check, if_pos hs]
  exact ⟨rfl,rfl,hn⟩

theorem Restored.pursue_due {t : TlsDaemon} (h : t.Restored rule certified Q pairs)
    (hs : rule.https = true) (io : SignOutcomes) {n : Nat} {handshake : Handshake}
    (hd : handshake.Due rule certified n) :
    (t.pursue io handshake).2.Due rule certified (n - 1) := by
  cases handshake with
  | resolving name =>
    obtain ⟨rfl,hn⟩ := hd
    cases hl : t.daemon.resolver.cache.lookup rule.domain with
    | some found =>
      simp only [TlsDaemon.pursue, hl]
      exact due_check hs (h.steady.cached found hl) (by omega)
    | none =>
      simp only [TlsDaemon.pursue, hl]
      exact ⟨rfl,by omega⟩
  | missed name =>
    obtain ⟨rfl,hn⟩ := hd
    simp only [TlsDaemon.pursue, h.steady.resolves]
    exact ⟨rfl,rfl,by omega⟩
  | holding name found =>
    obtain ⟨rfl,hf,hn⟩ := hd
    exact due_check hs hf (by omega)
  | checked name found =>
    obtain ⟨rfl,hf,hn⟩ := hd
    simp only [TlsDaemon.pursue, h.cached]
    exact ⟨rfl,hf,rfl⟩
  | served name found served => exact hd
  | signing name found => exact hd.elim
  | caching name found signed => exact hd.elim
  | refused => exact hd.elim

theorem Restored.step_due (lib : TextLibrary) {t : TlsDaemon}
    (h : t.Restored rule certified Q pairs) (hs : rule.https = true) (action : TlsAction)
    {i n : Nat} {handshake : Handshake}
    (hi : t.handshakes[i]? = some handshake) (hd : handshake.Due rule certified n) :
    ∃ later, (t.step lib action).handshakes[i]? = some later ∧
      later.Due rule certified (if action.proceeds i then n - 1 else n) := by
  have hjoin (other : Handshake) : (t.join other).handshakes[i]? = some handshake := by
    have hlt := (List.getElem?_eq_some_iff.mp hi).1
    rw [TlsDaemon.join, List.getElem?_append_left hlt, hi]
  cases action with
  | daemon action => exact ⟨handshake,hi,hd⟩
  | hello serverName =>
    refine ⟨handshake,?_,hd⟩
    rw [TlsDaemon.step]
    cases serverName with
    | none => exact hjoin .refused
    | some name =>
      rw [TlsDaemon.hello]
      split
      · exact hjoin .refused
      · exact hjoin (.resolving name)
  | proceed j io =>
    by_cases hij : i = j
    · subst hij
      refine ⟨(t.pursue io handshake).2,?_,?_⟩
      · simp only [TlsDaemon.step, TlsDaemon.proceed, hi]
        exact List.getElem?_set_self (List.getElem?_eq_some_iff.mp hi).1
      · simpa [TlsAction.proceeds] using h.pursue_due hs io hd
    · refine ⟨handshake,?_,by simpa [TlsAction.proceeds, hij] using hd⟩
      simp only [TlsDaemon.step, TlsDaemon.proceed]
      split
      · exact hi
      · exact (List.getElem?_set_ne (Ne.symm hij)).trans hi

theorem Restored.run_due {t : TlsDaemon} (h : t.Restored rule certified Q pairs)
    (hsound : t.Sound A P Q) (hs : rule.https = true) {acts : List TlsAction}
    (hok : ∀ action ∈ acts, Permits lib P Q action)
    (ha : ∀ action ∈ acts, action.isHandling = false) {i n : Nat} {handshake : Handshake}
    (hi : t.handshakes[i]? = some handshake) (hd : handshake.Due rule certified n) :
    ∃ later, (Transition.run (TlsDaemon.step lib) t acts).handshakes[i]? = some later ∧
      later.Due rule certified (n - acts.countP (TlsAction.proceeds i)) := by
  induction acts generalizing t n handshake with
  | nil => exact ⟨handshake,hi,hd⟩
  | cons action acts ih =>
    obtain ⟨hfirst,hrest⟩ := List.forall_mem_cons.mp hok
    obtain ⟨hquiet,hquiets⟩ := List.forall_mem_cons.mp ha
    obtain ⟨next,hn,hdue⟩ := h.step_due lib hs action hi hd
    obtain ⟨later,hlater,hend⟩ :=
      ih (h.step lib hsound hquiet) (hsound.step hfirst) hrest hquiets hn hdue
    refine ⟨later,hlater,?_⟩
    rw [List.countP_cons]
    split_ifs at hend ⊢
    · rwa [Nat.add_comm, ← Nat.sub_sub]
    · exact hend

theorem Restored.run {t : TlsDaemon} (h : t.Restored rule certified Q pairs)
    (hsound : t.Sound A P Q) {acts : List TlsAction}
    (hok : ∀ action ∈ acts, Permits lib P Q action)
    (ha : ∀ action ∈ acts, action.isHandling = false) :
    (Transition.run (TlsDaemon.step lib) t acts).Restored rule certified Q pairs := by
  induction acts generalizing t with
  | nil => exact h
  | cons action acts ih =>
    obtain ⟨hfirst,hrest⟩ := List.forall_mem_cons.mp hok
    obtain ⟨hquiet,hquiets⟩ := List.forall_mem_cons.mp ha
    exact ih (h.step lib hsound hquiet) (hsound.step hfirst) hrest hquiets

theorem hello_due {t : TlsDaemon} (ht : t.certAuthority.isSome = true) (rule : DnsRule)
    (certified : CertifiedKey) :
    ∃ handshake, (t.hello (some rule.domain)).handshakes[t.handshakes.length]? = some handshake ∧
      handshake.Due rule certified 4 := by
  obtain ⟨ca,hca⟩ := Option.isSome_iff_exists.mp ht
  refine ⟨.resolving rule.domain,?_,rfl,Nat.le_refl 4⟩
  simp only [hello, hca, join]
  exact List.getElem?_concat_length

theorem Restored.hello_served {t : TlsDaemon} (h : t.Restored rule certified Q pairs)
    (hsound : t.Sound A P Q) (hs : rule.https = true) (hq : Q rule.domain)
    {after : List TlsAction} (hok : ∀ action ∈ after, Permits lib P Q action)
    (ha : ∀ action ∈ after, action.isHandling = false) :
    ∃ handshake, (Transition.run (TlsDaemon.step lib) t
        (.hello (some rule.domain) :: after)).handshakes[t.handshakes.length]? = some handshake ∧
      handshake ≠ .refused ∧ (4 ≤ after.countP (TlsAction.proceeds t.handshakes.length) →
        handshake = .served rule.domain rule certified) := by
  have hpermits : Permits lib P Q (.hello (some rule.domain)) := by
    intro name hn
    obtain rfl := Option.some.inj (Option.mem_def.mp hn)
    exact hq
  have hnext : (t.step lib (.hello (some rule.domain))).Restored rule certified Q pairs :=
    h.step lib hsound rfl
  obtain ⟨handshake,hfirst,hdue⟩ := hello_due h.authority rule certified
  obtain ⟨later,hlater,hend⟩ :=
    hnext.run_due (hsound.step hpermits) hs hok ha hfirst hdue
  refine ⟨later,hlater,hend.ne_refused,fun hn => ?_⟩
  rw [Nat.sub_eq_zero_of_le hn] at hend
  exact Handshake.due_zero hend

end Restoration

theorem steady_load {loaded : CertDir} {config : DnsConfig} {rule : DnsRule}
    (hr : (load loaded config).daemon.state.store.resolve rule.domain = some rule) :
    (load loaded config).daemon.Steady rule := by
  refine ⟨hr,nofun,nofun,nofun,fun found hf => ?_⟩
  simp [load, Daemon.start, Daemon.idle, DomainResolver.new] at hf

theorem steady_signDomain {t : TlsDaemon} {rule : DnsRule} (h : t.daemon.Steady rule)
    (domain : String) (io : SignOutcomes) : (t.signDomain domain io).1.daemon.Steady rule := by
  have hgen : (t.generate [domain] io).daemon.Steady rule := by
    rw [(t.generate_keeps [domain] io).2.1]
    exact h
  rw [signDomain]
  split
  · exact h
  · split
    · exact hgen
    · exact { hgen with }

theorem steady_restore {t : TlsDaemon} {rule : DnsRule} (h : t.daemon.Steady rule)
    (installed : CertDir) (rules : List DnsRule) (io : Nat → SignOutcomes) :
    (t.restore installed rules io).daemon.Steady rule := by
  rw [restore]
  split_ifs
  · exact List.foldlRecOn (motive := fun t : TlsDaemon => t.daemon.Steady rule) _ _ h
      fun t ht other _ => steady_signDomain ht other.1.domain (io other.2)
  · exact h

theorem restored_start {loaded installed : CertDir} {config : DnsConfig}
    {io : Nat → SignOutcomes} {ca : Ca} {rule : DnsRule} {certified : CertifiedKey}
    (hca : loaded.load = some ca)
    (hr : (load loaded config).daemon.state.store.resolve rule.domain = some rule)
    (hl : (start loaded installed config io).certs.lookup rule.domain = some certified)
    (Q : String → Prop) :
    (start loaded installed config io).Restored rule certified Q
      (start loaded installed config io).keyPairs := by
  obtain ⟨hauthority,-,-,hnone⟩ := start_keeps loaded installed config io
  refine ⟨by rw [hauthority, hca]; rfl,steady_restore (steady_load hr) installed _ io,hl,?_,
    [],(List.append_nil _).symm,nofun⟩
  rw [hnone]
  exact nofun

theorem start_restores {loaded installed : CertDir} {config : DnsConfig}
    {io : Nat → SignOutcomes} {ca : Ca} {rule : DnsRule} (hca : loaded.load = some ca)
    (hi : installed.load.isSome = true) (hio : ∀ i, (io i).succeed = true)
    (hs : rule.https = true) (hw : rule.isWildcard = false)
    (hr : (load loaded config).daemon.state.store.resolve rule.domain = some rule) :
    let t := start loaded installed config io
    ∃ pair, t.certs.lookup rule.domain = some (ca.leaf [rule.domain] pair) ∧
      t.keyPairs[pair]? = some [rule.domain] := by
  intro t
  have hsound : t.Sound loaded.load (fun rule => rule ∈ config.rules) (fun _ => True) :=
    (sound_load fun rule hr => hr).restore installed _ io
  obtain ⟨hauthority,hstate,-,-⟩ := start_keeps loaded installed config io
  have hstored : rule ∈ config.rules := by
    rw [← hstate] at hr
    exact t.daemon.state.store.wellFormed.holds_resolve hsound.carries.stored hr
  have hmem : rule ∈ restorable config.rules := List.mem_filter.mpr ⟨hstored,by simp [hs, hw]⟩
  obtain ⟨i,hget⟩ := List.mem_iff_getElem?.mp hmem
  have hcached : (t.certs.lookup rule.domain).isSome = true :=
    (start_certs loaded installed config io rule.domain).mpr
      ⟨by rw [hca]; rfl,hi,i,rule,hget,rfl,hio i⟩
  obtain ⟨certified,hl⟩ := Option.isSome_iff_exists.mp hcached
  obtain ⟨ca',pair,hca',hp,rfl⟩ := hsound.cached rule.domain certified hl
  obtain rfl : ca = ca' := Option.some.inj (hca.symm.trans (hauthority.symm.trans hca'))
  exact ⟨pair,hl,hp⟩

theorem permits_quiet {lib : TextLibrary} {P : DnsRule → Prop} {acts : List TlsAction}
    {action : TlsAction} (ha : action ∈ acts) (hq : action.isHandling = false) :
    Permits lib P (fun name => .hello (some name) ∈ acts) action := by
  cases action with
  | daemon action =>
    cases action with
    | request order request => cases hq
    | _ => trivial
  | hello serverName =>
    intro name hn
    obtain rfl := Option.mem_def.mp hn
    exact ha
  | proceed i io => trivial

theorem restored_names_are_served (lib : TextLibrary) (loaded installed : CertDir)
    (config : DnsConfig) (io : Nat → SignOutcomes) (ca : Ca) (rule : DnsRule)
    (hca : loaded.load = some ca) (hi : installed.load.isSome = true)
    (hio : ∀ i, (io i).succeed = true) (hs : rule.https = true) (hw : rule.isWildcard = false)
    (hr : (load loaded config).daemon.state.store.resolve rule.domain = some rule)
    (before after : List TlsAction)
    (hq : ∀ action ∈ before ++ after, action.isHandling = false) :
    let t := start loaded installed config io
    let i := (run (step lib) t before).handshakes.length
    let t' := run (step lib) t (before ++ .hello (some rule.domain) :: after)
    (∃ more, t'.keyPairs = t.keyPairs ++ more ∧ ∀ domains ∈ more, ∃ name,
      .hello (some name) ∈ before ++ after ∧ name ≠ rule.domain ∧ domains = [name]) ∧
    ∃ handshake pair, t'.handshakes[i]? = some handshake ∧ handshake ≠ .refused ∧
      (4 ≤ after.countP (TlsAction.proceeds i) →
        handshake = .served rule.domain rule (ca.leaf [rule.domain] pair)) ∧
      t.keyPairs[pair]? = some [rule.domain] := by
  intro t i t'
  have hquiet : ∀ action ∈ before ++ .hello (some rule.domain) :: after,
      action.isHandling = false := by
    rw [List.forall_mem_append] at hq
    rw [List.forall_mem_append, List.forall_mem_cons]
    exact ⟨hq.1,rfl,hq.2⟩
  have hok : ∀ action ∈ before ++ .hello (some rule.domain) :: after,
      Permits lib (fun rule => rule ∈ config.rules)
        (fun name => .hello (some name) ∈ before ++ .hello (some rule.domain) :: after) action :=
    fun action ha => permits_quiet ha (hquiet action ha)
  obtain ⟨pair,hl,hp⟩ := start_restores hca hi hio hs hw hr
  have hstart : t.Restored rule (ca.leaf [rule.domain] pair)
      (fun name => .hello (some name) ∈ before ++ .hello (some rule.domain) :: after)
      t.keyPairs := restored_start hca hr hl _
  have hsound : t.Sound loaded.load (fun rule => rule ∈ config.rules)
      (fun name => .hello (some name) ∈ before ++ .hello (some rule.domain) :: after) :=
    (sound_load fun rule hr => hr).restore installed _ io
  constructor
  · obtain ⟨more,hmore,hall⟩ := (hstart.run hsound hok hquiet).keyPairs
    refine ⟨more,hmore,fun domains hd => ?_⟩
    obtain ⟨name,hname,hne,rfl⟩ := hall domains hd
    exact ⟨name,by simpa [hne] using hname,hne,rfl⟩
  · have hrun : t' = run (step lib) (run (step lib) t before)
        (.hello (some rule.domain) :: after) := Transition.run_append _ _ _ _
    rw [List.forall_mem_append, List.forall_mem_cons] at hok hquiet
    obtain ⟨handshake,hserved,hne,hdue⟩ := (hstart.run hsound hok.1 hquiet.1).hello_served
      (hsound.run hok.1) hs (by simp) hok.2.2 hquiet.2.2
    exact ⟨handshake,pair,by rw [hrun, hserved],hne,hdue,hp⟩

def installedPair : CertDir := ⟨.pem 7, .pem 7⟩

def securedApi : DnsRule := ⟨"api.test", .v4 0x7f000001 3000, true⟩

def signs : SignOutcomes := ⟨true, true, true, true, true⟩

theorem securedApi_resolves :
    (load installedPair ⟨[securedApi]⟩).daemon.state.store.resolve securedApi.domain =
      some securedApi := by
  decide

def unsigned : SignOutcomes := ⟨false, true, true, true, true⟩

def beforeHello : List TlsAction :=
  [.daemon (.watch .subscribe), .daemon (.probe "api.test"), .hello (some "other.test"),
    .proceed 0 unsigned]

def afterHello : List TlsAction :=
  [.proceed 1 unsigned, .daemon (.advance 0), .proceed 0 unsigned, .proceed 1 unsigned,
    .daemon (.advance 0), .proceed 1 unsigned, .hello (some "api.test"), .proceed 1 unsigned]

theorem restored_api_is_served :
    let t := start installedPair installedPair ⟨[securedApi]⟩ fun _ => signs
    let t' := run (step .unicode) t (beforeHello ++ .hello (some "api.test") :: afterHello)
    ∃ pair, t'.handshakes[1]? =
        some (.served "api.test" securedApi (Ca.leaf ⟨7, 7⟩ ["api.test"] pair)) ∧
      t.keyPairs[pair]? = some ["api.test"] := by
  obtain ⟨-,handshake,pair,hserved,-,hdue,hp⟩ :=
    restored_names_are_served .unicode installedPair installedPair ⟨[securedApi]⟩ (fun _ => signs)
      ⟨7, 7⟩ securedApi rfl rfl (fun _ => rfl) rfl (by decide) securedApi_resolves beforeHello
      afterHello (by decide)
  obtain rfl := hdue (by decide)
  exact ⟨pair,hserved,hp⟩

end TlsDaemon

end SideDns
