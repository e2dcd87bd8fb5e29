import SideDns.Library.Transition

namespace SideDns

open Transition (run run_invariant Guarded guarded_iff_invariant)

inductive PemFile where
  | absent
  | unparsable
  | pem (pair : Nat)
  deriving DecidableEq, Repr

namespace PemFile

def present : PemFile → Bool
  | absent => false
  | _ => true

def parse : PemFile → Option Nat
  | pem pair => some pair
  | _ => none

def removeFile (file : PemFile) (io : Bool) : PemFile × Bool :=
  if file.present && io then (absent, true) else (file, false)

def garble (file : PemFile) : PemFile := if file.present then unparsable else file

end PemFile

structure Ca where
  certificate : Nat
  key : Nat
  deriving DecidableEq, Repr

structure CaPem where
  cert : Nat
  key : Nat
  deriving DecidableEq, Repr

structure WriteOutcomes where
  createDir : Bool
  cert : Bool
  key : Bool
  deriving DecidableEq, Repr

structure RemoveOutcomes where
  cert : Bool
  key : Bool
  deriving DecidableEq, Repr

structure CertDir where
  cert : PemFile
  key : PemFile
  deriving DecidableEq, Repr

def Ca.generate (pair : Nat) : CaPem × Ca := (⟨pair, pair⟩, ⟨pair, pair⟩)

namespace CertDir

def load (dir : CertDir) : Option Ca :=
  if dir.cert.present && dir.key.present then
    match dir.cert.parse, dir.key.parse with
    | some certificate, some key => some ⟨certificate, key⟩
    | _, _ => none
  else none

def save (dir : CertDir) (caPem : CaPem) (io : WriteOutcomes) : CertDir × Bool :=
  if io.createDir then
    if io.cert then
      let dir := { dir with cert := .pem caPem.cert }
      if io.key then ({ dir with key := .pem caPem.key }, true) else (dir, false)
    else (dir, false)
  else (dir, false)

def loadOrGenerate (dir : CertDir) (pair : Nat) (io : WriteOutcomes) : CertDir × Option Ca :=
  match dir.load with
  | some ca => (dir, some ca)
  | none =>
    let generated := Ca.generate pair
    let saved := dir.save generated.1 io
    if saved.2 then (saved.1, some generated.2) else (saved.1, none)

def uninstall (dir : CertDir) (io : RemoveOutcomes) : CertDir × Bool :=
  let cert := dir.cert.removeFile io.cert
  if cert.2 then
    let key := dir.key.removeFile io.key
    (⟨cert.1, key.1⟩, key.2)
  else (dir, false)

def Matched (dir : CertDir) : Prop := ∀ ca, dir.load = some ca → ca.key = ca.certificate

end CertDir

inductive CaAction where
  | loadOrGenerate (io : WriteOutcomes)
  | uninstall (io : RemoveOutcomes)
  | deleteCert
  | deleteKey
  | garbleCert
  | garbleKey
  deriving DecidableEq, Repr

structure CertStore where
  dir : CertDir
  generated : Nat
  deriving DecidableEq, Repr

namespace CertStore

def empty : CertStore := ⟨⟨.absent, .absent⟩, 0⟩

def step (s : CertStore) : CaAction → CertStore
  | .loadOrGenerate io =>
      ⟨(s.dir.loadOrGenerate s.generated io).1,
        if s.dir.load.isSome then s.generated else s.generated + 1⟩
  | .uninstall io => { s with dir := (s.dir.uninstall io).1 }
  | .deleteCert => { s with dir := { s.dir with cert := .absent } }
  | .deleteKey => { s with dir := { s.dir with key := .absent } }
  | .garbleCert => { s with dir := { s.dir with cert := s.dir.cert.garble } }
  | .garbleKey => { s with dir := { s.dir with key := s.dir.key.garble } }

def splitsPair (s : CertStore) : CaAction → Bool
  | .loadOrGenerate io =>
      s.dir.load.isNone && io.createDir && io.cert && !io.key && s.dir.key.parse.isSome
  | _ => false

def Fresh (s : CertStore) : Prop :=
  (∀ pair, s.dir.cert = .pem pair → pair < s.generated) ∧
    ∀ pair, s.dir.key = .pem pair → pair < s.generated

end CertStore

theorem CertDir.load_eq_some_iff {dir : CertDir} {ca : Ca} :
    dir.load = some ca ↔ dir.cert = .pem ca.certificate ∧ dir.key = .pem ca.key := by
  obtain ⟨cert,key⟩ := dir
  obtain ⟨certificate,secret⟩ := ca
  cases cert <;> cases key <;> simp [load, PemFile.present, PemFile.parse]

theorem CertDir.matched_iff {dir : CertDir} :
    dir.Matched ↔ ∀ certificate key, dir.cert = .pem certificate → dir.key = .pem key →
      key = certificate := by
  constructor
  · intro h certificate key hc hk
    exact h ⟨certificate, key⟩ (load_eq_some_iff.mpr ⟨hc,hk⟩)
  · intro h ca hl
    obtain ⟨hc,hk⟩ := load_eq_some_iff.mp hl
    exact h _ _ hc hk

theorem PemFile.removeFile_pem {file : PemFile} {io : Bool} {pair : Nat}
    (h : (file.removeFile io).1 = .pem pair) : file = .pem pair := by
  rw [removeFile] at h
  split_ifs at h
  exact h

theorem PemFile.garble_ne_pem (file : PemFile) (pair : Nat) : file.garble ≠ .pem pair := by
  cases file <;> simp [garble, present]

theorem CertDir.loadOrGenerate_dir {dir : CertDir} (hl : dir.load = none) (pair : Nat)
    (io : WriteOutcomes) :
    (dir.loadOrGenerate pair io).1 = (dir.save ⟨pair, pair⟩ io).1 := by
  rw [loadOrGenerate, hl]
  exact (apply_ite Prod.fst _ _ _).trans (ite_self _)

structure CertDir.Within (dir' dir : CertDir) : Prop where
  cert : ∀ pair, dir'.cert = .pem pair → dir.cert = .pem pair
  key : ∀ pair, dir'.key = .pem pair → dir.key = .pem pair

theorem CertDir.within_refl (dir : CertDir) : dir.Within dir := ⟨fun _ h => h,fun _ h => h⟩

theorem CertDir.Within.matched {dir dir' : CertDir} (hw : dir'.Within dir) (h : dir.Matched) :
    dir'.Matched := by
  rw [matched_iff] at h ⊢
  exact fun certificate key hc hk => h _ _ (hw.cert _ hc) (hw.key _ hk)

theorem CertDir.uninstall_within (dir : CertDir) (io : RemoveOutcomes) :
    (dir.uninstall io).1.Within dir := by
  rw [uninstall]
  split_ifs
  · exact ⟨fun _ h => PemFile.removeFile_pem h,fun _ h => PemFile.removeFile_pem h⟩
  · exact dir.within_refl

namespace CertStore

inductive Stepped (s : CertStore) (a : CaAction) : CertStore → Prop where
  | within (dir : CertDir) (generated : Nat) (hw : dir.Within s.dir)
      (hg : s.generated ≤ generated) (hs : s.splitsPair a = false) :
      Stepped s a ⟨dir, generated⟩
  | renewed (hs : s.splitsPair a = false) :
      Stepped s a ⟨⟨.pem s.generated, .pem s.generated⟩, s.generated + 1⟩
  | torn (hs : s.splitsPair a = s.dir.key.parse.isSome) :
      Stepped s a ⟨⟨.pem s.generated, s.dir.key⟩, s.generated + 1⟩

theorem stepped_generate (s : CertStore) (io : WriteOutcomes) (hl : s.dir.load = none) :
    Stepped s (.loadOrGenerate io)
      ⟨(s.dir.save ⟨s.generated, s.generated⟩ io).1, s.generated + 1⟩ := by
  obtain ⟨createDir,cert,key⟩ := io
  cases createDir with
  | false => exact .within _ _ s.dir.within_refl (Nat.le_succ _) (by simp [splitsPair])
  | true =>
    cases cert with
    | false => exact .within _ _ s.dir.within_refl (Nat.le_succ _) (by simp [splitsPair])
    | true =>
      cases key with
      | false => exact .torn (by simp [splitsPair, hl])
      | true => exact .renewed (by simp [splitsPair])

theorem step_cases (s : CertStore) (a : CaAction) : Stepped s a (s.step a) := by
  cases a with
  | loadOrGenerate io =>
    cases hl : s.dir.load with
    | some ca =>
      have hs : s.splitsPair (.loadOrGenerate io) = false := by simp [splitsPair, hl]
      simp only [step, CertDir.loadOrGenerate, hl]
      exact .within _ _ s.dir.within_refl (Nat.le_refl _) hs
    | none =>
      have hsaved := stepped_generate s io hl
      rw [← CertDir.loadOrGenerate_dir hl] at hsaved
      rw [step, hl]
      exact hsaved
  | uninstall io => exact .within _ _ (s.dir.uninstall_within io) (Nat.le_refl _) rfl
  | deleteCert => exact .within _ _ ⟨by simp,fun _ h => h⟩ (Nat.le_refl _) rfl
  | deleteKey => exact .within _ _ ⟨fun _ h => h,by simp⟩ (Nat.le_refl _) rfl
  | garbleCert =>
    refine .within _ _ ⟨fun pair h => ?_,fun _ h => h⟩ (Nat.le_refl _) rfl
    exact absurd h (PemFile.garble_ne_pem _ pair)
  | garbleKey =>
    refine .within _ _ ⟨fun _ h => h,fun pair h => ?_⟩ (Nat.le_refl _) rfl
    exact absurd h (PemFile.garble_ne_pem _ pair)

theorem fresh_step {s : CertStore} (h : s.Fresh) (a : CaAction) : (s.step a).Fresh := by
  have hstep := s.step_cases a
  generalize s.step a = next at hstep
  cases hstep with
  | within dir generated hw hg hs =>
    refine ⟨fun pair hp => ?_,fun pair hp => ?_⟩
    · exact Nat.lt_of_lt_of_le (h.1 pair (hw.cert pair hp)) hg
    · exact Nat.lt_of_lt_of_le (h.2 pair (hw.key pair hp)) hg
  | renewed hs =>
    refine ⟨fun pair hp => ?_,fun pair hp => ?_⟩
    · obtain rfl := PemFile.pem.inj hp
      exact Nat.lt_succ_self _
    · obtain rfl := PemFile.pem.inj hp
      exact Nat.lt_succ_self _
  | torn hs =>
    refine ⟨fun pair hp => ?_,fun pair hp => Nat.lt_succ_of_lt (h.2 pair hp)⟩
    obtain rfl := PemFile.pem.inj hp
    exact Nat.lt_succ_self _

theorem matched_step {s : CertStore} (hf : s.Fresh) (hm : s.dir.Matched) (a : CaAction) :
    (s.step a).dir.Matched ↔ s.splitsPair a = false := by
  have hstep := s.step_cases a
  generalize s.step a = next at hstep
  cases hstep with
  | within dir generated hw hg hs => exact iff_of_true (hw.matched hm) hs
  | renewed hs =>
    refine iff_of_true (CertDir.matched_iff.mpr fun certificate key hc hk => ?_) hs
    exact (PemFile.pem.inj hk).symm.trans (PemFile.pem.inj hc)
  | torn hs =>
    rw [hs, CertDir.matched_iff]
    cases hk : s.dir.key with
    | pem key =>
      refine iff_of_false (fun h => ?_) (by simp [PemFile.parse])
      have heq := h s.generated key rfl rfl
      have hlt := hf.2 key hk
      omega
    | absent => simp [PemFile.parse]
    | unparsable => simp [PemFile.parse]

theorem fresh_empty : empty.Fresh := ⟨by simp [empty],by simp [empty]⟩

theorem matched_empty : empty.dir.Matched := by simp [CertDir.matched_iff, empty]

theorem loaded_pairs_match_iff (acts : List CaAction) :
    (∀ before, before <+: acts → (run step empty before).dir.Matched) ↔
      Guarded step (fun s a => s.splitsPair a = false) empty acts := by
  have hrun : Guarded step (fun s a => s.splitsPair a = false) empty acts ↔ _ :=
    guarded_iff_invariant (fun s => s.Fresh ∧ s.dir.Matched)
      (fun s a h => (and_iff_right (fresh_step h.1 a)).trans (matched_step h.1 h.2 a))
      ⟨fresh_empty,matched_empty⟩
  rw [hrun]
  refine forall₂_congr fun before _ => (and_iff_right ?_).symm
  exact run_invariant Fresh (fun s a h => fresh_step h a) fresh_empty before

theorem torn_save_loads_foreign_key :
    let acts := [.loadOrGenerate ⟨true, true, true⟩, .deleteCert,
      .loadOrGenerate ⟨true, true, false⟩]
    (run step empty acts).dir.load = some ⟨1, 0⟩ ∧ ¬ (run step empty acts).dir.Matched := by
  refine ⟨by decide,fun h => ?_⟩
  have hkey := h ⟨1, 0⟩ (by decide)
  cases hkey

end CertStore

end SideDns
