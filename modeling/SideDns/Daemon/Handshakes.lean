import SideDns.Certs.Ca
import SideDns.Daemon.Provenance

namespace SideDns

open FiniteMap (HashMap)
open Transition (run)

inductive KeyUsagePurpose where
  | digitalSignature
  | keyCertSign
  | crlSign
  deriving DecidableEq, Repr

inductive ExtendedKeyUsagePurpose where
  | serverAuth
  | clientAuth
  deriving DecidableEq, Repr

structure Certificate where
  issuer : Nat
  signature : Nat
  subjectAltNames : List String
  commonName : Option String
  keyUsages : List KeyUsagePurpose
  extendedKeyUsages : List ExtendedKeyUsagePurpose
  publicKey : Nat
  deriving DecidableEq, Repr

structure CertifiedKey where
  cert : List Certificate
  key : Nat
  deriving DecidableEq, Repr

structure SignOutcomes where
  generated : Bool
  named : Bool
  signed : Bool
  encoded : Bool
  supported : Bool
  deriving DecidableEq, Repr

namespace SignOutcomes

def succeed (io : SignOutcomes) : Bool :=
  io.generated && io.named && io.signed && io.encoded && io.supported

end SignOutcomes

def Ca.leaf (ca : Ca) (domains : List String) (pair : Nat) : CertifiedKey :=
  ⟨[⟨ca.certificate, ca.key, domains, domains.getLast?, [.digitalSignature], [.serverAuth],
    pair⟩], pair⟩

def Ca.sign (ca : Ca) (domains : List String) (pair : Nat) (io : SignOutcomes) :
    Option CertifiedKey :=
  if domains.isEmpty then none
  else if io.succeed then some (ca.leaf domains pair)
  else none

inductive Handshake where
  | resolving (name : String)
  | missed (name : String)
  | holding (name : String) (rule : DnsRule)
  | checked (name : String) (rule : DnsRule)
  | signing (name : String) (rule : DnsRule)
  | caching (name : String) (rule : DnsRule) (certified : CertifiedKey)
  | served (name : String) (rule : DnsRule) (certified : CertifiedKey)
  | refused
  deriving DecidableEq, Repr

namespace Handshake

def check (name : String) (rule : DnsRule) : Handshake :=
  if rule.https then checked name rule else refused

def certificate : Handshake → Option CertifiedKey
  | served _ _ certified => some certified
  | _ => none

def Admits (P : DnsRule → Prop) (Q : String → Prop) (Issued : String → CertifiedKey → Prop) :
    Handshake → Prop
  | resolving name | missed name => Q name
  | holding name rule => Q name ∧ P rule ∧ rule.matches name = true
  | checked name rule | signing name rule =>
    Q name ∧ (P rule ∧ rule.matches name = true) ∧ rule.https = true
  | caching name rule certified | served name rule certified =>
    (Q name ∧ (P rule ∧ rule.matches name = true) ∧ rule.https = true) ∧ Issued name certified
  | refused => True

end Handshake

namespace Daemon

theorem certs_observe {resolver : DomainResolver CertifiedKey} {event : DnsEvent} {name : String}
    {certified : CertifiedKey}
    (h : (resolver.observe event).certsCache.lookup name = some certified) :
    resolver.certsCache.lookup name = some certified := by
  cases hr : event.rule? with
  | none =>
    simp only [DomainResolver.observe, hr] at h
    exact h
  | some rule =>
    simp only [DomainResolver.observe, hr] at h
    rw [(DomainResolver.lookup_invalidate resolver rule name).2] at h
    split_ifs at h
    exact h

theorem certs_step (lib : TextLibrary) (d : Daemon CertifiedKey) (action : Action) {name : String}
    {certified : CertifiedKey}
    (h : (d.step lib action).resolver.certsCache.lookup name = some certified) :
    d.resolver.certsCache.lookup name = some certified := by
  cases action with
  | probe domain =>
    simp only [step, probe] at h
    cases hl : d.resolver.cache.lookup domain <;> rw [hl] at h <;> exact h
  | advance i =>
    have hadvanced := d.advance_cases i
    rw [step] at h
    generalize d.advance i = d' at hadvanced h
    cases hadvanced <;> exact h
  | request order request => exact h
  | proceed i =>
    have hproceeded := d.proceed_cases i
    rw [step] at h
    generalize d.proceed i = d' at hproceeded h
    cases hproceeded <;> exact h
  | watch action =>
    have hwatched := d.watch_cases action
    rw [step] at h
    generalize d.watchStep action = d' at hwatched h
    cases hwatched with
    | invalidate event hp => exact certs_observe h
    | _ => exact h
  | manager action =>
    have hmanaged := d.manager_cases action
    rw [step] at h
    generalize d.managerStep action = d' at hmanaged h
    cases hmanaged <;> exact h
  | signal =>
    have hshut := d.signal_cases
    rw [step] at h
    generalize d.signal = d' at hshut h
    cases hshut <;> exact h
  | shutdown =>
    have hshut := d.shutdown_cases
    rw [step] at h
    generalize d.shutdown = d' at hshut h
    cases hshut <;> exact h

end Daemon

inductive TlsAction where
  | daemon (action : Action)
  | hello (serverName : Option String)
  | proceed (i : Nat) (io : SignOutcomes)

def TlsAction.daemon? : TlsAction → Option Action
  | daemon action => some action
  | _ => none

structure TlsDaemon where
  daemon : Daemon CertifiedKey
  certAuthority : Option Ca
  keyPairs : List (List String)
  handshakes : List Handshake

namespace TlsDaemon

variable {lib : TextLibrary} {A : Option Ca} {P : DnsRule → Prop} {Q : String → Prop}

def withCache (t : TlsDaemon) (cache : HashMap String DnsRule) : TlsDaemon :=
  { t with daemon := { t.daemon with resolver := { t.daemon.resolver with cache := cache } } }

def withCerts (t : TlsDaemon) (certs : HashMap String CertifiedKey) : TlsDaemon :=
  { t with daemon := { t.daemon with resolver := { t.daemon.resolver with certsCache := certs } } }

def generate (t : TlsDaemon) (domains : List String) (io : SignOutcomes) : TlsDaemon :=
  if io.generated then { t with keyPairs := t.keyPairs ++ [domains] } else t

def certs (t : TlsDaemon) : HashMap String CertifiedKey := t.daemon.resolver.certsCache

def signDomain (t : TlsDaemon) (domain : String) (io : SignOutcomes) :
    TlsDaemon × Option CertifiedKey :=
  match t.certAuthority with
  | none => (t, none)
  | some ca =>
    let generated := t.generate [domain] io
    match ca.sign [domain] t.keyPairs.length io with
    | none => (generated, none)
    | some certified =>
      (generated.withCerts (generated.certs.insert domain certified), some certified)

def load (loaded : CertDir) (config : DnsConfig) : TlsDaemon :=
  ⟨Daemon.start config, loaded.load, [], []⟩

def restorable (rules : List DnsRule) : List DnsRule :=
  rules.filter fun r => r.https && !r.isWildcard

def restore (t : TlsDaemon) (installed : CertDir) (rules : List DnsRule)
    (io : Nat → SignOutcomes) : TlsDaemon :=
  if t.certAuthority.isSome && installed.load.isSome then
    (restorable rules).zipIdx.foldl (fun t rule => (t.signDomain rule.1.domain (io rule.2)).1) t
  else t

def start (loaded installed : CertDir) (config : DnsConfig) (io : Nat → SignOutcomes) :
    TlsDaemon :=
  (load loaded config).restore installed (AppState.new.loadRules (some config)).2 io

def join (t : TlsDaemon) (handshake : Handshake) : TlsDaemon :=
  { t with handshakes := t.handshakes ++ [handshake] }

def hello (t : TlsDaemon) : Option String → TlsDaemon
  | none => t.join .refused
  | some name =>
    match t.certAuthority with
    | none => t.join .refused
    | some _ => t.join (.resolving name)

def pursue (t : TlsDaemon) (io : SignOutcomes) : Handshake → TlsDaemon × Handshake
  | .resolving name =>
    match t.daemon.resolver.cache.lookup name with
    | some rule => (t, .check name rule)
    | none => (t, .missed name)
  | .missed name =>
    match t.daemon.state.store.resolve name with
    | none => (t, .refused)
    | some rule => (t, .holding name rule)
  | .holding name rule =>
    (t.withCache (t.daemon.resolver.cache.insert name rule), .check name rule)
  | .checked name rule =>
    match t.certs.lookup name with
    | some certified => (t, .served name rule certified)
    | none => (t, .signing name rule)
  | .signing name rule =>
    match t.certAuthority with
    | none => (t, .refused)
    | some ca =>
      match ca.sign [name] t.keyPairs.length io with
      | none => (t.generate [name] io, .refused)
      | some certified => (t.generate [name] io, .caching name rule certified)
  | .caching name rule certified =>
    (t.withCerts (t.certs.insert name certified), .served name rule certified)
  | .served name rule certified => (t, .served name rule certified)
  | .refused => (t, .refused)

def proceed (t : TlsDaemon) (i : Nat) (io : SignOutcomes) : TlsDaemon :=
  match t.handshakes[i]? with
  | none => t
  | some handshake =>
    let pursued := t.pursue io handshake
    { pursued.1 with handshakes := t.handshakes.set i pursued.2 }

def resolveDomain (t : TlsDaemon) (domain : String) : TlsDaemon × Option DnsRule :=
  let resolved := t.daemon.resolver.resolveDomain t.daemon.state.store.inner domain
  (t.withCache resolved.1.cache, resolved.2)

def certify (t : TlsDaemon) (domain : String) (io : SignOutcomes) :
    TlsDaemon × Option CertifiedKey :=
  match t.certs.lookup domain with
  | some certified => (t, some certified)
  | none => t.signDomain domain io

def resolve (t : TlsDaemon) (serverName : Option String) (io : SignOutcomes) :
    TlsDaemon × Option CertifiedKey :=
  match serverName with
  | none => (t, none)
  | some domain =>
    match t.certAuthority with
    | none => (t, none)
    | some _ =>
      let resolved := t.resolveDomain domain
      if resolved.2.any DnsRule.https then resolved.1.certify domain io
      else (resolved.1, none)

def step (lib : TextLibrary) (t : TlsDaemon) : TlsAction → TlsDaemon
  | .daemon action => { t with daemon := t.daemon.step lib action }
  | .hello serverName => t.hello serverName
  | .proceed i io => t.proceed i io

def Issued (t : TlsDaemon) (name : String) (certified : CertifiedKey) : Prop :=
  ∃ ca pair, t.certAuthority = some ca ∧ t.keyPairs[pair]? = some [name] ∧
    certified = ca.leaf [name] pair

structure Sound (A : Option Ca) (P : DnsRule → Prop) (Q : String → Prop) (t : TlsDaemon) :
    Prop where
  authority : t.certAuthority = A
  carries : t.daemon.Carries P
  cached : ∀ name certified, t.certs.lookup name = some certified → t.Issued name certified
  handshakes : ∀ handshake ∈ t.handshakes, handshake.Admits P Q t.Issued

theorem Issued.same_name {t : TlsDaemon} {name other : String} {a b : CertifiedKey}
    (ha : t.Issued name a) (hb : t.Issued other b) (hk : a.key = b.key) : name = other := by
  obtain ⟨ca,pair,-,hp,rfl⟩ := ha
  obtain ⟨cb,pair',-,hp',rfl⟩ := hb
  obtain rfl : pair = pair' := hk
  rw [hp] at hp'
  exact List.singleton_inj.mp (Option.some.inj hp')

theorem Issued.generate {t : TlsDaemon} {name : String} {certified : CertifiedKey}
    (h : t.Issued name certified) (domains : List String) (io : SignOutcomes) :
    (t.generate domains io).Issued name certified := by
  obtain ⟨ca,pair,hca,hp,hc⟩ := h
  rw [TlsDaemon.generate]
  split_ifs
  · have hlt := (List.getElem?_eq_some_iff.mp hp).1
    exact ⟨ca,pair,hca,by rw [List.getElem?_append_left hlt, hp],hc⟩
  · exact ⟨ca,pair,hca,hp,hc⟩

theorem sign_eq_some {ca : Ca} {domains : List String} {pair : Nat} {io : SignOutcomes}
    {certified : CertifiedKey} (h : ca.sign domains pair io = some certified) :
    io.generated = true ∧ certified = ca.leaf domains pair := by
  rw [Ca.sign] at h
  split_ifs at h with hd hs
  · simp only [SignOutcomes.succeed, Bool.and_eq_true] at hs
    exact ⟨hs.1.1.1.1,(Option.some.inj h).symm⟩

theorem issued_sign {t : TlsDaemon} {ca : Ca} {name : String} {io : SignOutcomes}
    {certified : CertifiedKey} (hca : t.certAuthority = some ca)
    (hs : ca.sign [name] t.keyPairs.length io = some certified) :
    (t.generate [name] io).Issued name certified := by
  obtain ⟨hg,rfl⟩ := sign_eq_some hs
  refine ⟨ca,t.keyPairs.length,?_,?_,rfl⟩
  · rw [TlsDaemon.generate, if_pos hg, hca]
  · rw [TlsDaemon.generate, if_pos hg, List.getElem?_concat_length]

theorem admits_mono {I J : String → CertifiedKey → Prop} {handshake : Handshake}
    (h : handshake.Admits P Q I) (hij : ∀ name certified, I name certified → J name certified) :
    handshake.Admits P Q J := by
  cases handshake with
  | caching name rule certified => exact ⟨h.1,hij name certified h.2⟩
  | served name rule certified => exact ⟨h.1,hij name certified h.2⟩
  | _ => exact h

theorem admits_check {name : String} {rule : DnsRule} {I : String → CertifiedKey → Prop}
    (hn : Q name) (hr : P rule ∧ rule.matches name = true) :
    (Handshake.check name rule).Admits P Q I := by
  rw [Handshake.check]
  split_ifs with hs
  · exact ⟨hn,hr,hs⟩
  · trivial

theorem generate_keeps (t : TlsDaemon) (domains : List String) (io : SignOutcomes) :
    (t.generate domains io).certAuthority = t.certAuthority ∧
      (t.generate domains io).daemon = t.daemon ∧
      (t.generate domains io).handshakes = t.handshakes := by
  rw [TlsDaemon.generate]
  split_ifs <;> exact ⟨rfl,rfl,rfl⟩

theorem Sound.generate {t : TlsDaemon} (h : t.Sound A P Q) (domains : List String)
    (io : SignOutcomes) : (t.generate domains io).Sound A P Q := by
  have hissued : ∀ name certified, t.Issued name certified →
      (t.generate domains io).Issued name certified :=
    fun name certified hi => hi.generate domains io
  obtain ⟨ha,hd,hs⟩ := t.generate_keeps domains io
  refine ⟨ha.trans h.authority,?_,fun name certified hl => ?_,fun handshake hh => ?_⟩
  · rw [hd]
    exact h.carries
  · rw [certs, hd] at hl
    exact hissued name certified (h.cached name certified hl)
  · rw [hs] at hh
    exact admits_mono (h.handshakes handshake hh) hissued

theorem Sound.withCache {t : TlsDaemon} (h : t.Sound A P Q) {name : String} {rule : DnsRule}
    (hr : P rule ∧ rule.matches name = true) :
    (t.withCache (t.daemon.resolver.cache.insert name rule)).Sound A P Q := by
  refine ⟨h.authority,{ h.carries with cached := fun key other hk => ?_ },h.cached,h.handshakes⟩
  change (t.daemon.resolver.cache.insert name rule).lookup key = some other at hk
  rw [FiniteMap.lookup_insert_ite] at hk
  split_ifs at hk with heq
  · obtain rfl := Option.some.inj hk
    obtain rfl := heq
    exact hr
  · exact h.carries.cached key other hk

theorem Sound.withCerts {t : TlsDaemon} (h : t.Sound A P Q) {name : String}
    {certified : CertifiedKey} (hi : t.Issued name certified) :
    (t.withCerts (t.certs.insert name certified)).Sound A P Q := by
  refine ⟨h.authority,{ h.carries with },fun key other hk => ?_,h.handshakes⟩
  change (t.certs.insert name certified).lookup key = some other at hk
  rw [FiniteMap.lookup_insert_ite] at hk
  split_ifs at hk with heq
  · obtain rfl := Option.some.inj hk
    obtain rfl := heq
    exact hi
  · exact h.cached key other hk

theorem Sound.signDomain {t : TlsDaemon} (h : t.Sound A P Q) (domain : String)
    (io : SignOutcomes) : (t.signDomain domain io).1.Sound A P Q := by
  cases hca : t.certAuthority with
  | none =>
    simp only [TlsDaemon.signDomain, hca]
    exact h
  | some ca =>
    have hgen := h.generate [domain] io
    cases hs : ca.sign [domain] t.keyPairs.length io with
    | none =>
      simp only [TlsDaemon.signDomain, hca, hs]
      exact hgen
    | some certified =>
      simp only [TlsDaemon.signDomain, hca, hs]
      exact hgen.withCerts (issued_sign hca hs)

theorem Sound.pursue {t : TlsDaemon} (h : t.Sound A P Q) (io : SignOutcomes)
    {handshake : Handshake} (hh : handshake.Admits P Q t.Issued) :
    (t.pursue io handshake).1.Sound A P Q ∧
      (t.pursue io handshake).2.Admits P Q (t.pursue io handshake).1.Issued := by
  cases handshake with
  | resolving name =>
    cases hl : t.daemon.resolver.cache.lookup name with
    | some rule =>
      simp only [TlsDaemon.pursue, hl]
      exact ⟨h,admits_check hh (h.carries.cached name rule hl)⟩
    | none =>
      simp only [TlsDaemon.pursue, hl]
      exact ⟨h,hh⟩
  | missed name =>
    cases hr : t.daemon.state.store.resolve name with
    | none =>
      simp only [TlsDaemon.pursue, hr]
      exact ⟨h,trivial⟩
    | some rule =>
      simp only [TlsDaemon.pursue, hr]
      have hwell := t.daemon.state.store.wellFormed
      exact ⟨h,hh,hwell.holds_resolve h.carries.stored hr,(hwell.resolve_stored hr).2⟩
  | holding name rule => exact ⟨h.withCache hh.2,admits_check hh.1 hh.2⟩
  | checked name rule =>
    cases hl : t.certs.lookup name with
    | some certified =>
      simp only [TlsDaemon.pursue, hl]
      exact ⟨h,hh,h.cached name certified hl⟩
    | none =>
      simp only [TlsDaemon.pursue, hl]
      exact ⟨h,hh⟩
  | signing name rule =>
    cases hca : t.certAuthority with
    | none =>
      simp only [TlsDaemon.pursue, hca]
      exact ⟨h,trivial⟩
    | some ca =>
      cases hs : ca.sign [name] t.keyPairs.length io with
      | none =>
        simp only [TlsDaemon.pursue, hca, hs]
        exact ⟨h.generate [name] io,trivial⟩
      | some certified =>
        simp only [TlsDaemon.pursue, hca, hs]
        exact ⟨h.generate [name] io,hh,issued_sign hca hs⟩
  | caching name rule certified => exact ⟨h.withCerts hh.2,hh⟩
  | served name rule certified => exact ⟨h,hh⟩
  | refused => exact ⟨h,hh⟩

theorem pursue_keeps (t : TlsDaemon) (io : SignOutcomes) (handshake : Handshake) :
    (t.pursue io handshake).1.handshakes = t.handshakes := by
  cases handshake with
  | resolving name =>
    rw [TlsDaemon.pursue]
    split <;> rfl
  | missed name =>
    rw [TlsDaemon.pursue]
    split <;> rfl
  | checked name rule =>
    rw [TlsDaemon.pursue]
    split <;> rfl
  | signing name rule =>
    rw [TlsDaemon.pursue]
    split
    · rfl
    · split <;> exact (t.generate_keeps [name] io).2.2
  | _ => rfl

theorem Sound.proceed {t : TlsDaemon} (h : t.Sound A P Q) (i : Nat) (io : SignOutcomes) :
    (t.proceed i io).Sound A P Q := by
  cases hi : t.handshakes[i]? with
  | none =>
    simp only [TlsDaemon.proceed, hi]
    exact h
  | some handshake =>
    simp only [TlsDaemon.proceed, hi]
    obtain ⟨hs,hh⟩ := h.pursue io (h.handshakes handshake (List.mem_of_getElem? hi))
    refine ⟨hs.authority,hs.carries,hs.cached,fun other ho => ?_⟩
    rcases List.mem_or_eq_of_mem_set ho with hold | rfl
    · rw [← t.pursue_keeps io handshake] at hold
      exact hs.handshakes other hold
    · exact hh

theorem Sound.join {t : TlsDaemon} (h : t.Sound A P Q) {handshake : Handshake}
    (hh : handshake.Admits P Q t.Issued) : (t.join handshake).Sound A P Q := by
  refine ⟨h.authority,h.carries,h.cached,fun other ho => ?_⟩
  rcases List.mem_append.mp ho with hold | hnew
  · exact h.handshakes other hold
  · obtain rfl := List.mem_singleton.mp hnew
    exact hh

theorem Sound.hello {t : TlsDaemon} (h : t.Sound A P Q) {serverName : Option String}
    (hq : ∀ name ∈ serverName, Q name) : (t.hello serverName).Sound A P Q := by
  cases serverName with
  | none => exact h.join trivial
  | some name =>
    cases hca : t.certAuthority with
    | none =>
      simp only [TlsDaemon.hello, hca]
      exact h.join trivial
    | some ca =>
      simp only [TlsDaemon.hello, hca]
      exact h.join (hq name rfl)

theorem Sound.daemon {t : TlsDaemon} (h : t.Sound A P Q) {action : Action}
    (hw : Daemon.Writes lib P action) :
    ({ t with daemon := t.daemon.step lib action } : TlsDaemon).Sound A P Q :=
  ⟨h.authority,h.carries.step hw,
    fun name certified hl => h.cached name certified (t.daemon.certs_step lib action hl),
    h.handshakes⟩

theorem Sound.restore {t : TlsDaemon} (h : t.Sound A P Q) (installed : CertDir)
    (rules : List DnsRule) (io : Nat → SignOutcomes) :
    (t.restore installed rules io).Sound A P Q := by
  rw [TlsDaemon.restore]
  split_ifs
  · exact List.foldlRecOn _ _ h fun t ht rule _ => ht.signDomain rule.1.domain (io rule.2)
  · exact h

theorem sound_load {loaded : CertDir} {config : DnsConfig} (h : ∀ rule ∈ config.rules, P rule) :
    (load loaded config).Sound loaded.load P Q := by
  refine ⟨rfl,Daemon.carries_start h,fun name certified hl => ?_,nofun⟩
  simp [load, certs, Daemon.start, Daemon.idle, DomainResolver.new] at hl

def Permits (lib : TextLibrary) (P : DnsRule → Prop) (Q : String → Prop) : TlsAction → Prop
  | .daemon action => Daemon.Writes lib P action
  | .hello serverName => ∀ name ∈ serverName, Q name
  | .proceed _ _ => True

theorem Sound.step {t : TlsDaemon} (h : t.Sound A P Q) {action : TlsAction}
    (hok : Permits lib P Q action) : (t.step lib action).Sound A P Q := by
  cases action with
  | daemon action => exact h.daemon hok
  | hello serverName => exact h.hello hok
  | proceed i io => exact h.proceed i io

theorem Sound.run {t : TlsDaemon} (h : t.Sound A P Q) {acts : List TlsAction}
    (hok : ∀ action ∈ acts, Permits lib P Q action) :
    (Transition.run (TlsDaemon.step lib) t acts).Sound A P Q :=
  Transition.guarded_invariant (Sound A P Q) (fun _ _ ht ha => ht.step ha) h
    (Transition.guarded_of_forall hok t)

theorem permits_run (lib : TextLibrary) (config : DnsConfig) {acts : List TlsAction}
    {action : TlsAction} (ha : action ∈ acts) :
    Permits lib (Daemon.Origin lib config (acts.filterMap TlsAction.daemon?))
      (fun name => .hello (some name) ∈ acts) action := by
  cases action with
  | daemon action =>
    have hmem : action ∈ acts.filterMap TlsAction.daemon? :=
      List.mem_filterMap.mpr ⟨.daemon action,ha,rfl⟩
    cases action with
    | request order request => exact fun m hm rule hr => .inr ⟨order,request,m,hmem,hm,hr⟩
    | _ => trivial
  | hello serverName =>
    intro name hn
    obtain rfl := Option.mem_def.mp hn
    exact ha
  | proceed i io => trivial

theorem certificates_match_names (lib : TextLibrary) (loaded installed : CertDir)
    (config : DnsConfig) (io : Nat → SignOutcomes) (acts : List TlsAction) :
    let t := run (step lib) (start loaded installed config io) acts
    (∀ name rule certified, .served name rule certified ∈ t.handshakes →
      .hello (some name) ∈ acts ∧ rule.https = true ∧ rule.matches name = true ∧
        Daemon.Origin lib config (acts.filterMap TlsAction.daemon?) rule ∧
        ∃ ca pair, loaded.load = some ca ∧ certified = ca.leaf [name] pair) ∧
    (∀ name rule certified other rule' certified', .served name rule certified ∈ t.handshakes →
      .served other rule' certified' ∈ t.handshakes → certified.key = certified'.key →
        name = other) ∧
    ∀ name certified, t.certs.lookup name = some certified →
      ∃ ca pair, loaded.load = some ca ∧ certified = ca.leaf [name] pair := by
  intro t
  have hsound : t.Sound loaded.load (Daemon.Origin lib config (acts.filterMap TlsAction.daemon?))
      (fun name => .hello (some name) ∈ acts) :=
    ((sound_load fun rule hr => .inl hr).restore installed _ io).run
      fun action ha => permits_run lib config ha
  have hleaf : ∀ name certified, t.Issued name certified →
      ∃ ca pair, loaded.load = some ca ∧ certified = ca.leaf [name] pair := by
    rintro name certified ⟨ca,pair,hca,-,hc⟩
    exact ⟨ca,pair,hsound.authority.symm.trans hca,hc⟩
  refine ⟨fun name rule certified hs => ?_,?_,fun name certified hl => ?_⟩
  · obtain ⟨⟨hn,⟨ho,hm⟩,hh⟩,hi⟩ := hsound.handshakes _ hs
    exact ⟨hn,hh,hm,ho,hleaf name certified hi⟩
  · intro name rule certified other rule' certified' hs hs' hk
    exact (hsound.handshakes _ hs).2.same_name (hsound.handshakes _ hs').2 hk
  · exact hleaf name certified (hsound.cached name certified hl)

end TlsDaemon

end SideDns
