import Mathlib.Data.List.Basic

namespace SideDns

inductive Tool where
  | unspawned
  | failed
  | succeeded
  deriving DecidableEq, Repr

structure Anchor where
  dest : String
  dir : Bool
  file : Option Nat
  trusted : Option Nat
  deriving DecidableEq, Repr

namespace Anchor

def install (a : Anchor) (cert : Nat) (copied : Bool) (update : Tool) : Anchor × Bool :=
  if copied then
    if update = .succeeded then ({ a with file := some cert, trusted := some cert }, true)
    else ({ a with file := some cert }, false)
  else (a, false)

def uninstall (a : Anchor) (removed : Bool) (update : Tool) : Anchor × Bool :=
  if removed then
    match update with
    | .unspawned => ({ a with file := none }, false)
    | .failed => ({ a with file := none }, true)
    | .succeeded => ({ a with file := none, trusted := none }, true)
  else (a, false)

def certs (a : Anchor) : List Nat := a.file.toList ++ a.trusted.toList

end Anchor

namespace SystemStore

def linux (debian fedora arch : Bool) : List Anchor :=
  [⟨"/usr/local/share/ca-certificates/sidedns.crt", debian, none, none⟩,
    ⟨"/etc/pki/ca-trust/source/anchors/sidedns.crt", fedora, none, none⟩,
    ⟨"/etc/ca-certificates/trust-source/anchors/sidedns.pem", arch, none, none⟩]

def install (cert : Nat) (copied : Bool) (update : Tool) : List Anchor → List Anchor × Bool
  | [] => ([], false)
  | a :: rest =>
    if a.dir then ((a.install cert copied update).1 :: rest, (a.install cert copied update).2)
    else (a :: (install cert copied update rest).1, (install cert copied update rest).2)

def uninstall (removed : Bool) (update : Tool) : List Anchor → List Anchor × Bool
  | [] => ([], true)
  | a :: rest =>
    if a.file.isSome then ((a.uninstall removed update).1 :: rest, (a.uninstall removed update).2)
    else (a :: (uninstall removed update rest).1, (uninstall removed update rest).2)

def certs (anchors : List Anchor) : List Nat := anchors.flatMap Anchor.certs

end SystemStore

namespace NssStore

def installEach (cert : Nat) : (Nat → Tool) → Bool → List (Option Nat) →
    List (Option Nat) × Option Bool
  | _, anyOk, [] => ([], some anyOk)
  | added, anyOk, profile :: rest =>
    match added 0 with
    | .unspawned => (profile :: rest, none)
    | .failed =>
      let installed := installEach cert (fun i => added (i + 1)) anyOk rest
      (profile :: installed.1, installed.2)
    | .succeeded =>
      let installed := installEach cert (fun i => added (i + 1)) true rest
      (some cert :: installed.1, installed.2)

def install (cert : Nat) (certutil : Bool) (added : Nat → Tool) (profiles : List (Option Nat)) :
    List (Option Nat) × Bool :=
  if certutil then
    if profiles.isEmpty then (profiles, true)
    else
      let installed := installEach cert added false profiles
      (installed.1, installed.2.getD false)
  else (profiles, false)

def uninstallEach : (Nat → Tool) → (Nat → Tool) → List (Option Nat) → List (Option Nat) × Bool
  | _, _, [] => ([], true)
  | checked, deleted, profile :: rest =>
    let uninstalled := uninstallEach (fun i => checked (i + 1)) (fun i => deleted (i + 1)) rest
    match checked 0, deleted 0 with
    | .unspawned, _ => (profile :: rest, false)
    | .failed, _ => (profile :: uninstalled.1, uninstalled.2)
    | .succeeded, .unspawned => (profile :: rest, false)
    | .succeeded, .failed => (profile :: uninstalled.1, uninstalled.2)
    | .succeeded, .succeeded => (none :: uninstalled.1, uninstalled.2)

def uninstall (certutil : Bool) (checked deleted : Nat → Tool) (profiles : List (Option Nat)) :
    List (Option Nat) × Bool :=
  if certutil then uninstallEach checked deleted profiles else (profiles, true)

def certs (profiles : List (Option Nat)) : List Nat := profiles.filterMap id

end NssStore

namespace JavaStore

def install (cert : Nat) (keytool cacerts : Bool) (imported : Tool) (alias? : Option Nat) :
    Option Nat × Bool :=
  if keytool && cacerts then
    if imported = .succeeded then (some cert, true) else (alias?, false)
  else (alias?, false)

def uninstall (keytool cacerts : Bool) (listed deleted : Tool) (alias? : Option Nat) :
    Option Nat × Bool :=
  if keytool && cacerts then
    if listed = .succeeded then
      if deleted = .succeeded then (none, true) else (alias?, false)
    else (alias?, true)
  else (alias?, true)

end JavaStore

inductive StoreName where
  | system
  | nss
  | java
  deriving DecidableEq, Repr

structure CertTrustArgs where
  all : Bool
  system : Bool
  java : Bool
  nss : Bool
  deriving DecidableEq, Repr

def CertTrustArgs.default : CertTrustArgs := ⟨true, false, false, false⟩

def CertTrustArgs.selects (args : CertTrustArgs) : StoreName → Bool
  | .system => args.all || args.system
  | .nss => args.all || args.nss
  | .java => args.all || args.java

structure StoreOutcomes where
  written : Bool
  update : Tool
  certutil : Bool
  checked : Nat → Tool
  edited : Nat → Tool
  keytool : Bool
  cacerts : Bool
  listed : Tool
  keyed : Tool

structure TrustStores where
  anchors : List Anchor
  profiles : List (Option Nat)
  alias? : Option Nat
  deriving DecidableEq, Repr

namespace TrustStores

def installIn (s : TrustStores) (cert : Nat) (o : StoreOutcomes) : StoreName → TrustStores × Bool
  | .system =>
    let installed := SystemStore.install cert o.written o.update s.anchors
    ({ s with anchors := installed.1 }, installed.2)
  | .nss =>
    let installed := NssStore.install cert o.certutil o.edited s.profiles
    ({ s with profiles := installed.1 }, installed.2)
  | .java =>
    let installed := JavaStore.install cert o.keytool o.cacerts o.keyed s.alias?
    ({ s with alias? := installed.1 }, installed.2)

def uninstallIn (s : TrustStores) (o : StoreOutcomes) : StoreName → TrustStores × Bool
  | .system =>
    let uninstalled := SystemStore.uninstall o.written o.update s.anchors
    ({ s with anchors := uninstalled.1 }, uninstalled.2)
  | .nss =>
    let uninstalled := NssStore.uninstall o.certutil o.checked o.edited s.profiles
    ({ s with profiles := uninstalled.1 }, uninstalled.2)
  | .java =>
    let uninstalled := JavaStore.uninstall o.keytool o.cacerts o.listed o.keyed s.alias?
    ({ s with alias? := uninstalled.1 }, uninstalled.2)

def availableStores : List StoreName := [.system, .nss, .java]

def selected (args : CertTrustArgs) : List StoreName := availableStores.filter args.selects

def each (op : TrustStores → StoreName → TrustStores × Bool) (args : CertTrustArgs)
    (s : TrustStores) : TrustStores × List (StoreName × Bool) :=
  (selected args).foldl
    (fun p name => ((op p.1 name).1, p.2 ++ [(name, (op p.1 name).2)])) (s, [])

def certs (s : TrustStores) : List Nat :=
  SystemStore.certs s.anchors ++ NssStore.certs s.profiles ++ s.alias?.toList

end TrustStores

theorem Anchor.certs_install {a : Anchor} {cert c : Nat} {copied : Bool} {update : Tool}
    (h : c ∈ (a.install cert copied update).1.certs) : c = cert ∨ c ∈ a.certs := by
  rw [install] at h
  split_ifs at h
  · simp only [certs, Option.toList_some, List.singleton_append, List.mem_cons, List.mem_nil_iff,
      or_false] at h
    exact .inl (h.elim id id)
  · rcases List.mem_append.mp h with hfile | htrusted
    · exact .inl (List.mem_singleton.mp hfile)
    · exact .inr (List.mem_append_right _ htrusted)
  · exact .inr h

theorem Anchor.certs_uninstall {a : Anchor} {c : Nat} {removed : Bool} {update : Tool}
    (h : c ∈ (a.uninstall removed update).1.certs) : c ∈ a.certs := by
  cases removed with
  | false => exact h
  | true =>
    cases update with
    | succeeded => cases h
    | unspawned => exact List.mem_append_right _ h
    | failed => exact List.mem_append_right _ h

namespace SystemStore

theorem certs_install {anchors : List Anchor} {cert c : Nat} {copied : Bool} {update : Tool}
    (h : c ∈ certs (install cert copied update anchors).1) : c = cert ∨ c ∈ certs anchors := by
  induction anchors with
  | nil => exact .inr h
  | cons a rest ih =>
    rw [install] at h
    simp only [certs, List.flatMap_cons, List.mem_append] at h ih ⊢
    split_ifs at h
    · simp only [List.flatMap_cons, List.mem_append] at h
      rcases h with ha | hrest
      · exact (Anchor.certs_install ha).imp_right .inl
      · exact .inr (.inr hrest)
    · simp only [List.flatMap_cons, List.mem_append] at h
      rcases h with ha | hrest
      · exact .inr (.inl ha)
      · exact (ih hrest).imp_right .inr

theorem certs_uninstall {anchors : List Anchor} {c : Nat} {removed : Bool} {update : Tool}
    (h : c ∈ certs (uninstall removed update anchors).1) : c ∈ certs anchors := by
  induction anchors with
  | nil => exact h
  | cons a rest ih =>
    rw [uninstall] at h
    simp only [certs, List.flatMap_cons, List.mem_append] at h ih ⊢
    split_ifs at h
    · simp only [List.flatMap_cons, List.mem_append] at h
      exact h.imp_left Anchor.certs_uninstall
    · simp only [List.flatMap_cons, List.mem_append] at h
      exact h.imp_right ih

def Settled (anchors : List Anchor) : Prop :=
  ∀ a ∈ anchors, a.trusted.isSome = true → a.file.isSome = true

def Chosen : List Anchor → Prop
  | [] => True
  | a :: rest => if a.dir then ∀ b ∈ rest, b.file = none else a.file = none ∧ Chosen rest

def Cleared (anchors : List Anchor) : Prop := ∀ a ∈ anchors, a.file = none ∧ a.trusted = none

theorem certs_of_cleared {anchors : List Anchor} (h : Cleared anchors) : certs anchors = [] := by
  refine List.flatMap_eq_nil_iff.mpr fun a ha => ?_
  obtain ⟨hf,ht⟩ := h a ha
  rw [Anchor.certs, hf, ht]
  rfl

theorem chosen_of_vacant {anchors : List Anchor} (h : ∀ a ∈ anchors, a.file = none) :
    Chosen anchors := by
  induction anchors with
  | nil => trivial
  | cons a rest ih =>
    rw [List.forall_mem_cons] at h
    rw [Chosen]
    split_ifs
    · exact h.2
    · exact ⟨h.1,ih h.2⟩

theorem Settled.cleared {anchors : List Anchor} (h : Settled anchors)
    (hv : ∀ a ∈ anchors, a.file = none) : Cleared anchors := by
  intro a ha
  refine ⟨hv a ha,Option.not_isSome_iff_eq_none.mp fun ht => ?_⟩
  have hfile := h a ha ht
  rw [hv a ha] at hfile
  cases hfile

theorem settled_cons {a : Anchor} {rest : List Anchor} :
    Settled (a :: rest) ↔ (a.trusted.isSome = true → a.file.isSome = true) ∧ Settled rest :=
  List.forall_mem_cons

theorem Settled.install {anchors : List Anchor} (h : Settled anchors) (cert : Nat) (copied : Bool)
    (update : Tool) : Settled (install cert copied update anchors).1 := by
  induction anchors with
  | nil => exact h
  | cons a rest ih =>
    obtain ⟨ha,hrest⟩ := settled_cons.mp h
    rw [SystemStore.install]
    split_ifs
    · refine settled_cons.mpr ⟨?_,hrest⟩
      rw [Anchor.install]
      split_ifs
      · exact fun _ => rfl
      · exact fun _ => rfl
      · exact ha
    · exact settled_cons.mpr ⟨ha,ih hrest⟩

theorem Chosen.install {anchors : List Anchor} (h : Chosen anchors) (cert : Nat) (copied : Bool)
    (update : Tool) : Chosen (install cert copied update anchors).1 := by
  induction anchors with
  | nil => exact h
  | cons a rest ih =>
    rw [Chosen] at h
    rw [SystemStore.install]
    split_ifs at h ⊢ with hd
    · have hdir : (a.install cert copied update).1.dir = true := by
        rw [Anchor.install]
        split_ifs <;> exact hd
      rw [Chosen, if_pos hdir]
      exact h
    · rw [Chosen, if_neg hd]
      exact ⟨h.1,ih h.2⟩

theorem Chosen.tail {a : Anchor} {rest : List Anchor} (h : Chosen (a :: rest)) :
    Chosen rest ∧ (a.file.isSome = true → ∀ b ∈ rest, b.file = none) := by
  rw [Chosen] at h
  split_ifs at h
  · exact ⟨chosen_of_vacant h,fun _ => h⟩
  · refine ⟨h.2,fun hf => ?_⟩
    rw [h.1] at hf
    cases hf

theorem uninstall_clears {anchors : List Anchor} (hs : Settled anchors) (hc : Chosen anchors) :
    Cleared (uninstall true .succeeded anchors).1 := by
  induction anchors with
  | nil =>
    intro a ha
    cases ha
  | cons a rest ih =>
    obtain ⟨ha,hrest⟩ := settled_cons.mp hs
    obtain ⟨hchosen,hvacant⟩ := hc.tail
    rw [uninstall]
    split_ifs with hf
    · exact List.forall_mem_cons.mpr ⟨⟨rfl,rfl⟩,hrest.cleared (hvacant hf)⟩
    · have htrusted := Option.not_isSome_iff_eq_none.mp fun ht => hf (ha ht)
      exact List.forall_mem_cons.mpr
        ⟨⟨Option.not_isSome_iff_eq_none.mp hf,htrusted⟩,ih hrest hchosen⟩

end SystemStore

namespace NssStore

theorem certs_cons (profile : Option Nat) (rest : List (Option Nat)) :
    certs (profile :: rest) = profile.toList ++ certs rest := by
  cases profile <;> rfl

theorem certs_installEach {cert c : Nat} {added : Nat → Tool} {anyOk : Bool}
    {profiles : List (Option Nat)} (h : c ∈ certs (installEach cert added anyOk profiles).1) :
    c = cert ∨ c ∈ certs profiles := by
  induction profiles generalizing added anyOk with
  | nil => exact .inr h
  | cons profile rest ih =>
    rw [installEach] at h
    rw [certs_cons, List.mem_append]
    cases hadded : added 0 with
    | unspawned =>
      simp only [hadded, certs_cons, List.mem_append] at h
      exact .inr h
    | failed =>
      simp only [hadded, certs_cons, List.mem_append] at h
      rcases h with hp | hrest
      · exact .inr (.inl hp)
      · exact (ih hrest).imp_right .inr
    | succeeded =>
      simp only [hadded, certs_cons, List.mem_append, Option.toList_some,
        List.mem_singleton] at h
      rcases h with hp | hrest
      · exact .inl hp
      · exact (ih hrest).imp_right .inr

theorem certs_install {cert c : Nat} {certutil : Bool} {added : Nat → Tool}
    {profiles : List (Option Nat)} (h : c ∈ certs (install cert certutil added profiles).1) :
    c = cert ∨ c ∈ certs profiles := by
  rw [install] at h
  split_ifs at h
  · exact .inr h
  · exact certs_installEach h
  · exact .inr h

theorem certs_uninstallEach {c : Nat} {checked deleted : Nat → Tool}
    {profiles : List (Option Nat)} (h : c ∈ certs (uninstallEach checked deleted profiles).1) :
    c ∈ certs profiles := by
  induction profiles generalizing checked deleted with
  | nil => exact h
  | cons profile rest ih =>
    rw [uninstallEach] at h
    rw [certs_cons, List.mem_append]
    cases hc : checked 0 with
    | unspawned =>
      simp only [hc, certs_cons, List.mem_append] at h
      exact h
    | failed =>
      simp only [hc, certs_cons, List.mem_append] at h
      exact h.imp_right ih
    | succeeded =>
      cases hd : deleted 0 with
      | unspawned =>
        simp only [hc, hd, certs_cons, List.mem_append] at h
        exact h
      | failed =>
        simp only [hc, hd, certs_cons, List.mem_append] at h
        exact h.imp_right ih
      | succeeded =>
        simp only [hc, hd, certs_cons, List.mem_append] at h
        rcases h with hnone | hrest
        · cases hnone
        · exact .inr (ih hrest)

theorem certs_uninstall {c : Nat} {certutil : Bool} {checked deleted : Nat → Tool}
    {profiles : List (Option Nat)} (h : c ∈ certs (uninstall certutil checked deleted profiles).1) :
    c ∈ certs profiles := by
  rw [uninstall] at h
  split_ifs at h
  · exact certs_uninstallEach h
  · exact h

theorem uninstallEach_clears {checked deleted : Nat → Tool} {profiles : List (Option Nat)}
    (hc : ∀ i c, profiles[i]? = some (some c) → checked i = .succeeded)
    (hr : ∀ i, checked i ≠ .unspawned) (hd : ∀ i, deleted i = .succeeded) :
    certs (uninstallEach checked deleted profiles).1 = [] := by
  induction profiles generalizing checked deleted with
  | nil => rfl
  | cons profile rest ih =>
    have hrest := ih (fun i c hi => hc (i + 1) c hi) (fun i => hr (i + 1)) (fun i => hd (i + 1))
    rw [uninstallEach]
    cases hp : checked 0 with
    | unspawned => exact absurd hp (hr 0)
    | failed =>
      cases profile with
      | none => exact hrest
      | some c =>
        have hsucceeded := hc 0 c rfl
        rw [hp] at hsucceeded
        cases hsucceeded
    | succeeded =>
      simp only [hd 0, certs_cons]
      exact hrest

end NssStore

structure StoreOutcomes.Removes (o : StoreOutcomes) (s : TrustStores) : Prop where
  written : o.written = true
  update : o.update = .succeeded
  certutil : o.certutil = true
  checked : ∀ i c, s.profiles[i]? = some (some c) → o.checked i = .succeeded
  spawned : ∀ i, o.checked i ≠ .unspawned
  edited : ∀ i, o.edited i = .succeeded
  keytool : (o.keytool && o.cacerts) = true
  listed : s.alias?.isSome = true → o.listed = .succeeded
  keyed : o.keyed = .succeeded

namespace TrustStores

theorem mem_certs {s : TrustStores} {c : Nat} :
    c ∈ s.certs ↔ c ∈ SystemStore.certs s.anchors ∨ c ∈ NssStore.certs s.profiles ∨
      s.alias? = some c := by
  rw [certs, List.mem_append, List.mem_append, or_assoc, Option.mem_toList]

theorem each_installIn (s : TrustStores) (args : CertTrustArgs) (cert : Nat)
    (o : StoreOutcomes) :
    (each (fun s name => s.installIn cert o name) args s).1 =
      ⟨if args.selects .system then (SystemStore.install cert o.written o.update s.anchors).1
        else s.anchors,
      if args.selects .nss then (NssStore.install cert o.certutil o.edited s.profiles).1
        else s.profiles,
      if args.selects .java then (JavaStore.install cert o.keytool o.cacerts o.keyed s.alias?).1
        else s.alias?⟩ := by
  cases hs : args.selects .system <;> cases hn : args.selects .nss <;>
    cases hj : args.selects .java <;>
    simp [each, selected, availableStores, hs, hn, hj, installIn]

theorem each_uninstallIn (s : TrustStores) (args : CertTrustArgs) (o : StoreOutcomes) :
    (each (fun s name => s.uninstallIn o name) args s).1 =
      ⟨if args.selects .system then (SystemStore.uninstall o.written o.update s.anchors).1
        else s.anchors,
      if args.selects .nss then (NssStore.uninstall o.certutil o.checked o.edited s.profiles).1
        else s.profiles,
      if args.selects .java then
        (JavaStore.uninstall o.keytool o.cacerts o.listed o.keyed s.alias?).1
        else s.alias?⟩ := by
  cases hs : args.selects .system <;> cases hn : args.selects .nss <;>
    cases hj : args.selects .java <;>
    simp [each, selected, availableStores, hs, hn, hj, uninstallIn]

theorem certs_each_installIn {s : TrustStores} {args : CertTrustArgs} {cert c : Nat}
    {o : StoreOutcomes} (h : c ∈ (each (fun s name => s.installIn cert o name) args s).1.certs) :
    c = cert ∨ c ∈ s.certs := by
  rw [each_installIn, mem_certs] at h
  dsimp only at h
  rw [mem_certs]
  rcases h with ha | hp | hj
  · split_ifs at ha
    · exact (SystemStore.certs_install ha).imp_right fun hold => .inl hold
    · exact .inr (.inl ha)
  · split_ifs at hp
    · exact (NssStore.certs_install hp).imp_right fun hold => .inr (.inl hold)
    · exact .inr (.inr (.inl hp))
  · simp only [JavaStore.install] at hj
    split_ifs at hj
    · exact .inl (Option.some.inj hj).symm
    · exact .inr (.inr (.inr hj))
    · exact .inr (.inr (.inr hj))
    · exact .inr (.inr (.inr hj))

theorem certs_each_uninstallIn {s : TrustStores} {args : CertTrustArgs} {c : Nat}
    {o : StoreOutcomes} (h : c ∈ (each (fun s name => s.uninstallIn o name) args s).1.certs) :
    c ∈ s.certs := by
  rw [each_uninstallIn, mem_certs] at h
  dsimp only at h
  rw [mem_certs]
  rcases h with ha | hp | hj
  · split_ifs at ha
    · exact .inl (SystemStore.certs_uninstall ha)
    · exact .inl ha
  · split_ifs at hp
    · exact .inr (.inl (NssStore.certs_uninstall hp))
    · exact .inr (.inl hp)
  · simp only [JavaStore.uninstall] at hj
    split_ifs at hj
    · exact .inr (.inr hj)
    · exact .inr (.inr hj)
    · exact .inr (.inr hj)
    · exact .inr (.inr hj)

structure Tidy (s : TrustStores) : Prop where
  settled : SystemStore.Settled s.anchors
  chosen : SystemStore.Chosen s.anchors

theorem tidy_cleared {anchors : List Anchor} (h : SystemStore.Cleared anchors) :
    SystemStore.Settled anchors ∧ SystemStore.Chosen anchors := by
  refine ⟨fun a ha ht => ?_,SystemStore.chosen_of_vacant fun a ha => (h a ha).1⟩
  rw [(h a ha).2] at ht
  cases ht

theorem Tidy.each_installIn {s : TrustStores} (h : s.Tidy) (args : CertTrustArgs) (cert : Nat)
    (o : StoreOutcomes) : (each (fun s name => s.installIn cert o name) args s).1.Tidy := by
  rw [TrustStores.each_installIn]
  constructor
  · dsimp only
    split_ifs
    · exact h.settled.install cert _ _
    · exact h.settled
  · dsimp only
    split_ifs
    · exact h.chosen.install cert _ _
    · exact h.chosen

theorem Tidy.each_uninstallIn {s : TrustStores} (h : s.Tidy) (args : CertTrustArgs)
    {o : StoreOutcomes} (ho : o.Removes s) :
    (each (fun s name => s.uninstallIn o name) args s).1.Tidy := by
  obtain ⟨hsettled,hchosen⟩ := tidy_cleared (SystemStore.uninstall_clears h.settled h.chosen)
  rw [TrustStores.each_uninstallIn, ho.written, ho.update]
  constructor
  · dsimp only
    split_ifs
    · exact hsettled
    · exact h.settled
  · dsimp only
    split_ifs
    · exact hchosen
    · exact h.chosen

theorem Tidy.uninstalled {s : TrustStores} (h : s.Tidy) {o : StoreOutcomes} (ho : o.Removes s) :
    (each (fun s name => s.uninstallIn o name) .default s).1.certs = [] := by
  rw [TrustStores.each_uninstallIn, certs, ho.written, ho.update]
  have hanchors := SystemStore.certs_of_cleared
    (SystemStore.uninstall_clears h.settled h.chosen)
  have hprofiles := NssStore.uninstallEach_clears ho.checked ho.spawned ho.edited
  have hjava : (JavaStore.uninstall o.keytool o.cacerts o.listed o.keyed s.alias?).1 = none := by
    simp only [JavaStore.uninstall, ho.keytool, ho.keyed, if_pos]
    split_ifs with hlisted
    · rfl
    · exact Option.not_isSome_iff_eq_none.mp fun hsome => hlisted (ho.listed hsome)
  simp [CertTrustArgs.default, CertTrustArgs.selects, NssStore.uninstall, ho.certutil, hanchors,
    hprofiles, hjava]

theorem tidy_linux (debian fedora arch : Bool) :
    Tidy ⟨SystemStore.linux debian fedora arch, [], none⟩ := by
  obtain ⟨hsettled,hchosen⟩ : SystemStore.Settled (SystemStore.linux debian fedora arch) ∧
      SystemStore.Chosen (SystemStore.linux debian fedora arch) := by
    refine tidy_cleared fun a ha => ?_
    simp only [SystemStore.linux, List.mem_cons, List.not_mem_nil, or_false] at ha
    rcases ha with rfl | rfl | rfl <;> exact ⟨rfl,rfl⟩
  exact ⟨hsettled,hchosen⟩

end TrustStores

end SideDns
