import SideDns.Certs.Ca
import SideDns.Certs.Trust

namespace SideDns

open Transition (run Guarded guarded_invariant guarded_of_forall run_invariant)

structure CertInstallArgs where
  force : Bool
  trust : Bool
  deriving DecidableEq, Repr

inductive CertExit where
  | ok
  | alreadyInstalled
  | notInstalled
  | denied
  | failed
  deriving DecidableEq, Repr

structure CertDone where
  exit : CertExit
  reports : List (StoreName × Bool)
  deriving DecidableEq, Repr

inductive CertCommand where
  | install (args : CertInstallArgs) (superuser : Bool) (io : WriteOutcomes) (o : StoreOutcomes)
  | uninstall (superuser : Bool) (io : RemoveOutcomes) (o : StoreOutcomes)
  | trust (args : CertTrustArgs) (superuser : Bool) (o : StoreOutcomes)
  | untrust (args : CertTrustArgs) (superuser : Bool) (o : StoreOutcomes)
  | browserStarted

namespace CertCommand

def isInstall : CertCommand → Bool
  | install _ _ _ _ => true
  | _ => false

def superuser : CertCommand → Bool
  | install _ superuser _ _ => superuser
  | uninstall superuser _ _ => superuser
  | trust _ superuser _ => superuser
  | untrust _ superuser _ => superuser
  | browserStarted => false

end CertCommand

structure CertMachine where
  ca : CertStore
  stores : TrustStores
  deriving DecidableEq, Repr

namespace CertMachine

def clean (debian fedora arch : Bool) : CertMachine :=
  ⟨.empty, ⟨SystemStore.linux debian fedora arch, [], none⟩⟩

def isInstalled (m : CertMachine) : Bool := m.ca.dir.load.isSome

def trust (m : CertMachine) (args : CertTrustArgs) (superuser : Bool) (o : StoreOutcomes) :
    CertMachine × CertDone :=
  match m.ca.dir.load with
  | none => (m, ⟨.notInstalled, []⟩)
  | some ca =>
    if superuser then
      let trusted :=
        TrustStores.each (fun s name => s.installIn ca.certificate o name) args m.stores
      ({ m with stores := trusted.1 }, ⟨.ok, trusted.2⟩)
    else (m, ⟨.denied, []⟩)

def untrust (m : CertMachine) (args : CertTrustArgs) (superuser : Bool) (o : StoreOutcomes) :
    CertMachine × CertDone :=
  match m.ca.dir.load with
  | none => (m, ⟨.notInstalled, []⟩)
  | some _ =>
    if superuser then
      let untrusted := TrustStores.each (fun s name => s.uninstallIn o name) args m.stores
      ({ m with stores := untrusted.1 }, ⟨.ok, untrusted.2⟩)
    else (m, ⟨.denied, []⟩)

def install (m : CertMachine) (args : CertInstallArgs) (superuser : Bool) (io : WriteOutcomes)
    (o : StoreOutcomes) : CertMachine × CertDone :=
  if superuser && args.trust then
    if m.isInstalled && !args.force then (m, ⟨.alreadyInstalled, []⟩)
    else
      let generated : CertMachine := { m with ca := m.ca.step (.loadOrGenerate io) }
      if (m.ca.dir.loadOrGenerate m.ca.generated io).2.isSome then
        generated.trust .default superuser o
      else (generated, ⟨.failed, []⟩)
  else (m, ⟨.denied, []⟩)

def uninstall (m : CertMachine) (superuser : Bool) (io : RemoveOutcomes) (o : StoreOutcomes) :
    CertMachine × CertDone :=
  if m.isInstalled then
    if superuser then
      let untrusted := m.untrust .default superuser o
      ({ untrusted.1 with ca := m.ca.step (.uninstall io) },
        ⟨if (m.ca.dir.uninstall io).2 then .ok else .failed, untrusted.2.reports⟩)
    else (m, ⟨.denied, []⟩)
  else (m, ⟨.notInstalled, []⟩)

def perform (m : CertMachine) : CertCommand → CertMachine × CertDone
  | .install args superuser io o => m.install args superuser io o
  | .uninstall superuser io o => m.uninstall superuser io o
  | .trust args superuser o => m.trust args superuser o
  | .untrust args superuser o => m.untrust args superuser o
  | .browserStarted =>
      ({ m with stores := { m.stores with profiles := m.stores.profiles ++ [none] } }, ⟨.ok, []⟩)

def step (m : CertMachine) (command : CertCommand) : CertMachine := (m.perform command).1

def Working (m : CertMachine) : CertCommand → Prop
  | .uninstall superuser _ o => superuser = true → o.Removes m.stores
  | .untrust _ superuser o => superuser = true → o.Removes m.stores
  | _ => True

inductive Trusting (m : CertMachine) (args : CertTrustArgs) (o : StoreOutcomes) :
    CertMachine → Prop where
  | trusted (ca : Ca) (hl : m.ca.dir.load = some ca) :
      Trusting m args o { m with
        stores := (TrustStores.each (fun s name => s.installIn ca.certificate o name) args
          m.stores).1 }
  | idle : Trusting m args o m

theorem trust_cases (m : CertMachine) (args : CertTrustArgs) (superuser : Bool)
    (o : StoreOutcomes) : Trusting m args o (m.trust args superuser o).1 := by
  rw [trust]
  split
  · exact .idle
  · split_ifs
    · exact .trusted _ ‹_›
    · exact .idle

inductive Untrusting (m : CertMachine) (args : CertTrustArgs) (superuser : Bool)
    (o : StoreOutcomes) : CertMachine → Prop where
  | untrusted (hs : superuser = true) (hl : m.ca.dir.load.isSome = true) :
      Untrusting m args superuser o { m with
        stores := (TrustStores.each (fun s name => s.uninstallIn o name) args m.stores).1 }
  | idle : Untrusting m args superuser o m

theorem untrust_cases (m : CertMachine) (args : CertTrustArgs) (superuser : Bool)
    (o : StoreOutcomes) : Untrusting m args superuser o (m.untrust args superuser o).1 := by
  cases hl : m.ca.dir.load with
  | none =>
    simp only [untrust, hl]
    exact .idle
  | some ca =>
    cases superuser with
    | false =>
      simp only [untrust, hl]
      exact .idle
    | true =>
      simp only [untrust, hl]
      exact .untrusted rfl (by rw [hl]; rfl)

structure Known (m : CertMachine) : Prop where
  fresh : m.ca.Fresh
  generated : ∀ c ∈ m.stores.certs, c < m.ca.generated

theorem Known.trust {m : CertMachine} (h : m.Known) (args : CertTrustArgs) (superuser : Bool)
    (o : StoreOutcomes) : (m.trust args superuser o).1.Known := by
  have hcases := m.trust_cases args superuser o
  generalize (m.trust args superuser o).1 = m' at hcases
  cases hcases with
  | trusted ca hl =>
    refine ⟨h.fresh,fun c hc => ?_⟩
    rcases TrustStores.certs_each_installIn hc with rfl | hold
    · exact h.fresh.1 _ (CertDir.load_eq_some_iff.mp hl).1
    · exact h.generated c hold
  | idle => exact h

theorem Known.untrust {m : CertMachine} (h : m.Known) (args : CertTrustArgs) (superuser : Bool)
    (o : StoreOutcomes) : (m.untrust args superuser o).1.Known := by
  have hcases := m.untrust_cases args superuser o
  generalize (m.untrust args superuser o).1 = m' at hcases
  cases hcases with
  | untrusted hs hl =>
    exact ⟨h.fresh,fun c hc => h.generated c (TrustStores.certs_each_uninstallIn hc)⟩
  | idle => exact h

theorem generated_step (s : CertStore) (a : CaAction) : s.generated ≤ (s.step a).generated := by
  have hstep := s.step_cases a
  generalize s.step a = s' at hstep
  cases hstep with
  | within dir generated hw hg hs => exact hg
  | renewed hs => exact Nat.le_succ _
  | torn hs => exact Nat.le_succ _

theorem Known.store {m : CertMachine} (h : m.Known) (a : CaAction) :
    ({ m with ca := m.ca.step a } : CertMachine).Known :=
  ⟨CertStore.fresh_step h.fresh a,
    fun c hc => Nat.lt_of_lt_of_le (h.generated c hc) (generated_step m.ca a)⟩

theorem ca_untrust (m : CertMachine) (args : CertTrustArgs) (superuser : Bool)
    (o : StoreOutcomes) : (m.untrust args superuser o).1.ca = m.ca := by
  have hcases := m.untrust_cases args superuser o
  generalize (m.untrust args superuser o).1 = m' at hcases
  cases hcases <;> rfl

theorem certs_browserStarted (s : TrustStores) :
    ({ s with profiles := s.profiles ++ [none] } : TrustStores).certs = s.certs := by
  simp [TrustStores.certs, NssStore.certs]

inductive Stepped (m : CertMachine) : CertCommand → CertMachine → Prop where
  | trusted (args : CertTrustArgs) (o : StoreOutcomes) :
      Stepped m (.trust args true o) (m.trust args true o).1
  | untrusted (args : CertTrustArgs) (o : StoreOutcomes) :
      Stepped m (.untrust args true o) (m.untrust args true o).1
  | generated (args : CertInstallArgs) (io : WriteOutcomes) (o : StoreOutcomes) :
      Stepped m (.install args true io o) { m with ca := m.ca.step (.loadOrGenerate io) }
  | installed (args : CertInstallArgs) (io : WriteOutcomes) (o : StoreOutcomes) :
      Stepped m (.install args true io o)
        ({ m with ca := m.ca.step (.loadOrGenerate io) }.trust .default true o).1
  | uninstalled (io : RemoveOutcomes) (o : StoreOutcomes) (hl : m.ca.dir.load.isSome = true) :
      Stepped m (.uninstall true io o)
        { (m.untrust .default true o).1 with ca := m.ca.step (.uninstall io) }
  | started : Stepped m .browserStarted
      { m with stores := { m.stores with profiles := m.stores.profiles ++ [none] } }
  | idle (command : CertCommand) : Stepped m command m

theorem step_cases (m : CertMachine) (command : CertCommand) :
    Stepped m command (m.step command) := by
  cases command with
  | install args superuser io o =>
    cases superuser with
    | false => exact .idle _
    | true =>
      simp only [step, perform, install, Bool.true_and]
      split_ifs
      · exact .idle _
      · exact .installed args io o
      · exact .generated args io o
      · exact .idle _
  | uninstall superuser io o =>
    cases hl : m.isInstalled with
    | false =>
      simp only [step, perform, uninstall, hl]
      exact .idle _
    | true =>
      cases superuser with
      | false =>
        simp only [step, perform, uninstall, hl]
        exact .idle _
      | true =>
        simp only [step, perform, uninstall, hl, if_pos]
        exact .uninstalled io o hl
  | trust args superuser o =>
    cases superuser with
    | true => exact .trusted args o
    | false =>
      simp only [step, perform, trust]
      split <;> exact .idle _
  | untrust args superuser o =>
    cases superuser with
    | true => exact .untrusted args o
    | false =>
      simp only [step, perform, untrust]
      split <;> exact .idle _
  | browserStarted => exact .started

theorem Known.step {m : CertMachine} (h : m.Known) (command : CertCommand) :
    (m.step command).Known := by
  have hstep := m.step_cases command
  generalize m.step command = m' at hstep
  cases hstep with
  | trusted args o => exact h.trust args true o
  | untrusted args o => exact h.untrust args true o
  | generated args io o => exact h.store (.loadOrGenerate io)
  | installed args io o => exact (h.store (.loadOrGenerate io)).trust .default true o
  | uninstalled io o hl =>
    have huntrusted := (h.untrust .default true o).store (.uninstall io)
    rw [ca_untrust] at huntrusted
    exact huntrusted
  | started => exact ⟨h.fresh,by rw [certs_browserStarted]; exact h.generated⟩
  | idle _ => exact h

theorem step_unprivileged {m : CertMachine} {command : CertCommand}
    (h : command.superuser = false) :
    (m.step command).ca = m.ca ∧ (m.step command).stores.certs = m.stores.certs := by
  have hstep := m.step_cases command
  generalize m.step command = m' at hstep
  cases hstep with
  | started => exact ⟨rfl,certs_browserStarted m.stores⟩
  | idle _ => exact ⟨rfl,rfl⟩
  | _ => cases h

theorem step_unloaded {m : CertMachine} (hl : m.ca.dir.load = none) {command : CertCommand}
    (h : command.isInstall = false) :
    (m.step command).ca = m.ca ∧ (m.step command).stores.certs = m.stores.certs := by
  have hstep := m.step_cases command
  generalize m.step command = m' at hstep
  cases hstep with
  | trusted args o =>
    simp only [trust, hl]
    exact ⟨trivial,trivial⟩
  | untrusted args o =>
    simp only [untrust, hl]
    exact ⟨trivial,trivial⟩
  | generated args io o => cases h
  | installed args io o => cases h
  | uninstalled io o hloaded =>
    rw [hl] at hloaded
    cases hloaded
  | started => exact ⟨rfl,certs_browserStarted m.stores⟩
  | idle _ => exact ⟨rfl,rfl⟩

theorem dir_loaded {s : CertStore} (h : s.dir.load.isSome = true) (io : WriteOutcomes) :
    (s.step (.loadOrGenerate io)).dir = s.dir := by
  obtain ⟨ca,hca⟩ := Option.isSome_iff_exists.mp h
  simp only [CertStore.step, CertDir.loadOrGenerate, hca]

structure Backed (m : CertMachine) : Prop where
  tidy : m.stores.Tidy
  unloaded : m.ca.dir.load = none → m.stores.certs = []

theorem Backed.trust {m : CertMachine} (h : m.Backed) (args : CertTrustArgs) (superuser : Bool)
    (o : StoreOutcomes) : (m.trust args superuser o).1.Backed := by
  have hcases := m.trust_cases args superuser o
  generalize (m.trust args superuser o).1 = m' at hcases
  cases hcases with
  | trusted ca hl =>
    refine ⟨h.tidy.each_installIn args _ o,fun hnone => ?_⟩
    cases hl.symm.trans hnone
  | idle => exact h

theorem Backed.generate {m : CertMachine} (h : m.Backed) (io : WriteOutcomes) :
    ({ m with ca := m.ca.step (.loadOrGenerate io) } : CertMachine).Backed := by
  refine ⟨h.tidy,fun hnone => h.unloaded ?_⟩
  by_contra hloaded
  have hsome := Option.isSome_iff_ne_none.mpr hloaded
  rw [dir_loaded hsome io] at hnone
  exact hloaded hnone

theorem Backed.step {m : CertMachine} (h : m.Backed) {command : CertCommand}
    (hw : m.Working command) : (m.step command).Backed := by
  have hstep := m.step_cases command
  generalize m.step command = m' at hstep
  cases hstep with
  | trusted args o => exact h.trust args true o
  | untrusted args o =>
    have hcases := m.untrust_cases args true o
    generalize (m.untrust args true o).1 = m' at hcases
    cases hcases with
    | untrusted hs hl =>
      refine ⟨h.tidy.each_uninstallIn args (hw rfl),fun hnone => ?_⟩
      rw [hnone] at hl
      cases hl
    | idle => exact h
  | generated args io o => exact h.generate io
  | installed args io o => exact (h.generate io).trust .default true o
  | uninstalled io o hl =>
    obtain ⟨ca,hca⟩ := Option.isSome_iff_exists.mp hl
    have hstores : (m.untrust .default true o).1.stores =
        (TrustStores.each (fun s name => s.uninstallIn o name) .default m.stores).1 := by
      simp only [untrust, hca, if_pos]
    refine ⟨?_,fun _ => ?_⟩
    · rw [hstores]
      exact h.tidy.each_uninstallIn .default (hw rfl)
    · rw [hstores]
      exact h.tidy.uninstalled (hw rfl)
  | started =>
    exact ⟨⟨h.tidy.settled,h.tidy.chosen⟩,fun hnone => by
      rw [certs_browserStarted]
      exact h.unloaded hnone⟩
  | idle _ => exact h

theorem run_unloaded {m : CertMachine} (hl : m.ca.dir.load = none) {later : List CertCommand}
    (h : ∀ command ∈ later, command.isInstall = false ∨ command.superuser = false) :
    (run step m later).ca = m.ca ∧ (run step m later).stores.certs = m.stores.certs := by
  induction later generalizing m with
  | nil => exact ⟨rfl,rfl⟩
  | cons command later ih =>
    rw [List.forall_mem_cons] at h
    obtain ⟨hca,hcerts⟩ : (m.step command).ca = m.ca ∧
        (m.step command).stores.certs = m.stores.certs :=
      h.1.elim (step_unloaded hl) step_unprivileged
    obtain ⟨ihca,ihcerts⟩ := ih (m := m.step command) (by rw [hca, hl]) h.2
    exact ⟨ihca.trans hca,ihcerts.trans hcerts⟩

theorem ca_trust (m : CertMachine) (args : CertTrustArgs) (superuser : Bool)
    (o : StoreOutcomes) : (m.trust args superuser o).1.ca = m.ca := by
  have hcases := m.trust_cases args superuser o
  generalize (m.trust args superuser o).1 = m' at hcases
  cases hcases <;> rfl

theorem install_keeps_loaded {m : CertMachine} (hl : m.ca.dir.load.isSome = true)
    (args : CertInstallArgs) (superuser : Bool) (io : WriteOutcomes) (o : StoreOutcomes) :
    (m.step (.install args superuser io o)).ca.dir = m.ca.dir := by
  have hstep := m.step_cases (.install args superuser io o)
  generalize m.step (.install args superuser io o) = m' at hstep
  cases hstep with
  | generated args io o => exact dir_loaded hl io
  | installed args io o =>
    rw [ca_trust]
    exact dir_loaded hl io
  | idle _ => rfl

theorem trusted_roots (debian fedora arch : Bool) (commands : List CertCommand) :
    let m := run step (clean debian fedora arch) commands
    (∀ c ∈ m.stores.certs, c < m.ca.generated) ∧
    (m.ca.dir.load.isSome = true → ∀ args superuser io o,
      (m.step (.install args superuser io o)).ca.dir = m.ca.dir) ∧
    (m.ca.dir.load = none → ∀ later,
      (∀ command ∈ later, command.isInstall = false ∨ command.superuser = false) →
        (run step m later).ca = m.ca ∧ (run step m later).stores.certs = m.stores.certs) ∧
    (Guarded step Working (clean debian fedora arch) commands → m.ca.dir.load = none →
      m.stores.certs = []) := by
  intro m
  have hempty : (clean debian fedora arch).stores.certs = [] := by
    simp [clean, TrustStores.certs, SystemStore.certs, SystemStore.linux, Anchor.certs,
      NssStore.certs]
  refine ⟨?_,fun hl args superuser io o => install_keeps_loaded hl args superuser io o,
    fun hl later h => run_unloaded hl h,fun hw hl => ?_⟩
  · have hclean : (clean debian fedora arch).Known := by
      refine ⟨CertStore.fresh_empty,?_⟩
      rw [hempty]
      simp
    exact (run_invariant Known (fun m command h => h.step command) hclean commands).generated
  · have hclean : (clean debian fedora arch).Backed :=
      ⟨TrustStores.tidy_linux debian fedora arch,fun _ => hempty⟩
    exact (guarded_invariant Backed (fun m command h hc => h.step hc) hclean hw).unloaded hl

def works : StoreOutcomes :=
  ⟨true, .succeeded, true, fun _ => .succeeded, fun _ => .succeeded, true, true, .succeeded,
    .succeeded⟩

theorem works_removes (s : TrustStores) : works.Removes s :=
  ⟨rfl,rfl,rfl,fun _ _ _ => rfl,fun _ => Tool.noConfusion,fun _ => rfl,rfl,fun _ => rfl,rfl⟩

def installThenUninstall : List CertCommand :=
  [.browserStarted, .install ⟨false, true⟩ true ⟨true, true, true⟩ works,
    .uninstall true ⟨true, true⟩ works]

theorem uninstalled_root_untrusted :
    (run step (clean true false false) installThenUninstall).stores.certs = [] :=
  (trusted_roots true false false installThenUninstall).2.2.2
    ⟨trivial,trivial,fun _ => works_removes _,trivial⟩ (by decide)

example : (run step (clean true false false) (installThenUninstall.take 2)).stores.certs =
    [0, 0, 0, 0] := by
  decide

end CertMachine

end SideDns
