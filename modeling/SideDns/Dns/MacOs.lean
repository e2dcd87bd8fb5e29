import SideDns.Dns.Configurator

namespace SideDns

namespace MacOsConfigurator

def applyAll (dir : ResolverDir) (calls : List (List String)) : ResolverDir :=
  calls.foldl apply dir

def Written (calls : List (List String)) (name : String) : Prop :=
  ∃ domains ∈ calls, name ∈ domains.map fileName

theorem fileName_hostName (name : HostName) : fileName name.text = name.text := by
  have hstar : '*' ∉ name.text.toList := name.notMem_text (by decide) (by decide)
  rw [fileName, Utf8.replace, Utf8.replaceFrom_absent _ (by decide), String.ofList_toList]
  intro c hc
  obtain rfl := Option.some.inj hc
  exact hstar

theorem fileName_wildcard (name : HostName) : fileName ("*." ++ name.text) = name.text := by
  have hstar : '*' ∉ name.text.toList := name.notMem_text (by decide) (by decide)
  have hlist : ("*." ++ name.text).toList = '*' :: '.' :: name.text.toList := by simp
  rw [fileName, Utf8.replace, hlist]
  change String.ofList (Utf8.replaceFrom _ _ 0 name.text.toList) = _
  rw [Utf8.replaceFrom_absent _ (by decide), String.ofList_toList]
  intro c hc
  obtain rfl := Option.some.inj hc
  exact hstar

theorem fileName_plain {lib : TextLibrary} (hl : lib.Documented) {domain : String}
    (h : validateDomain lib domain = true) :
    '/' ∉ (fileName domain).toList ∧ ∃ name : HostName, fileName domain = name.text := by
  obtain ⟨name,rfl | rfl⟩ := validateDomain_hostName hl h
  · rw [fileName_hostName]
    exact ⟨name.notMem_text (by decide) (by decide),name,rfl⟩
  · rw [fileName_wildcard]
    exact ⟨name.notMem_text (by decide) (by decide),name,rfl⟩

theorem isSidednsFile_toByteArray (text : String) :
    isSidednsFile text.toByteArray = Utf8.contains text "Managed by SideDNS" := by
  have hdecode : String.fromUTF8? text.toByteArray = some text := by
    rw [String.fromUTF8?, dif_pos text.isValidUTF8]
    rfl
  rw [isSidednsFile, hdecode]
  rfl

theorem contains_marker (rest : String) :
    Utf8.contains ("# " ++ ("Managed by SideDNS" ++ rest)) "Managed by SideDNS" = true := by
  rw [Utf8.contains, decide_eq_true_eq, String.toList_append, String.toList_append]
  exact (List.prefix_append _ _).isInfix.trans (List.suffix_append _ _).isInfix

theorem isSidednsFile_content (ip : String) :
    isSidednsFile
      ("# Managed by SideDNS — do not edit manually\nnameserver " ++ ip ++ "\n").toByteArray =
        true := by
  have hsplit : "# Managed by SideDNS — do not edit manually\nnameserver " ++ ip ++ "\n" =
      "# " ++ ("Managed by SideDNS" ++ (" — do not edit manually\nnameserver " ++ ip ++ "\n"))
      := by
    apply String.toList_inj.mp
    simp
  rw [isSidednsFile_toByteArray, hsplit]
  exact contains_marker _

theorem isSidednsFile_resolverContent : isSidednsFile resolverContent = true :=
  isSidednsFile_content dnsIp

theorem lookup_write (dir : ResolverDir) (domains : List String) (name : String) :
    (write dir domains).lookup name =
      if name ∈ domains.map fileName then some resolverContent else dir.lookup name := by
  induction domains generalizing dir with
  | nil => simp [write]
  | cons domain domains ih =>
    rw [write, List.foldl_cons, ← write, ih, List.map_cons]
    by_cases hrest : name ∈ domains.map fileName
    · rw [if_pos hrest, if_pos (List.mem_cons_of_mem _ hrest)]
    · rw [if_neg hrest]
      by_cases hname : name = fileName domain
      · rw [hname, Finmap.lookup_insert, if_pos List.mem_cons_self]
      · rw [Finmap.lookup_insert_of_ne _ hname, if_neg]
        rintro hmem
        rcases List.mem_cons.mp hmem with heq | hmem
        · exact hname heq
        · exact hrest hmem

theorem lookup_revert_apply (dir : ResolverDir) (domains : List String) (name : String) :
    (revert (apply dir domains)).lookup name =
      if name ∈ domains.map fileName then none else (revert dir).lookup name := by
  rw [revert, removeAllFiles, FiniteMap.lookup_discard, apply, lookup_write]
  split_ifs with hname
  · rw [Option.filter_some, isSidednsFile_resolverContent]
    rfl
  · rw [← FiniteMap.lookup_discard, removeAllFiles, FiniteMap.discard_idem]
    rfl

theorem lookup_revert_applyAll (dir : ResolverDir) (calls : List (List String)) (name : String) :
    (Written calls name → (revert (applyAll dir calls)).lookup name = none) ∧
    (¬ Written calls name →
      (revert (applyAll dir calls)).lookup name = (revert dir).lookup name) := by
  induction calls generalizing dir with
  | nil =>
    refine ⟨?_,fun _ => rfl⟩
    rintro ⟨domains,hm,-⟩
    cases hm
  | cons domains calls ih =>
    obtain ⟨hwritten,hkept⟩ := ih (apply dir domains)
    by_cases hlater : Written calls name
    · refine ⟨fun _ => hwritten hlater,fun hno => absurd ?_ hno⟩
      obtain ⟨later,hl,hm⟩ := hlater
      exact ⟨later,List.mem_cons_of_mem domains hl,hm⟩
    · have hstep := (hkept hlater).trans (lookup_revert_apply dir domains name)
      constructor
      · rintro ⟨found,hf,hm⟩
        rcases List.mem_cons.mp hf with rfl | hf
        · rw [if_pos hm] at hstep
          exact hstep
        · exact absurd ⟨found,hf,hm⟩ hlater
      · intro hno
        rw [if_neg (fun hm => hno ⟨domains,List.mem_cons_self,hm⟩)] at hstep
        exact hstep

theorem revert_of_unmarked {dir : ResolverDir}
    (h : ∀ name contents, dir.lookup name = some contents → isSidednsFile contents = false) :
    revert dir = dir := by
  apply Finmap.ext_lookup
  intro name
  rw [revert, removeAllFiles, FiniteMap.lookup_discard]
  cases hc : dir.lookup name with
  | none => rfl
  | some contents => simp [h name contents hc]

theorem restores_iff_names_unused (dir : ResolverDir)
    (hdir : ∀ name contents, dir.lookup name = some contents → isSidednsFile contents = false)
    (calls : List (List String)) :
    revert (applyAll dir calls) = dir ↔
      ∀ domains ∈ calls, ∀ domain ∈ domains, fileName domain ∉ dir := by
  constructor
  · intro h domains hd domain hm hmem
    obtain ⟨contents,hc⟩ := Finmap.mem_iff.mp hmem
    have hwritten : Written calls (fileName domain) :=
      ⟨domains,hd,List.mem_map_of_mem hm⟩
    have hnone := (lookup_revert_applyAll dir calls _).1 hwritten
    rw [h, hc] at hnone
    cases hnone
  · intro h
    apply Finmap.ext_lookup
    intro name
    by_cases hw : Written calls name
    · rw [(lookup_revert_applyAll dir calls name).1 hw]
      obtain ⟨domains,hd,hm⟩ := hw
      obtain ⟨domain,hdomain,rfl⟩ := List.mem_map.mp hm
      exact (Finmap.lookup_eq_none.mpr (h domains hd domain hdomain)).symm
    · rw [(lookup_revert_applyAll dir calls name).2 hw, revert_of_unmarked hdir]

def userFiles : ResolverDir :=
  (∅ : ResolverDir).insert "corp.test" "nameserver 10.0.0.1\n".toByteArray

theorem userFiles_unmarked (name : String) (contents : ByteArray)
    (h : userFiles.lookup name = some contents) : isSidednsFile contents = false := by
  rw [userFiles] at h
  by_cases hn : name = "corp.test"
  · subst hn
    rw [Finmap.lookup_insert] at h
    obtain rfl := Option.some.inj h
    rw [isSidednsFile_toByteArray]
    decide
  · rw [Finmap.lookup_insert_of_ne _ hn] at h
    cases h

theorem unrelated_file_restored :
    revert (applyAll userFiles [["api.test", "*.dev.test"], ["dev.test"]]) = userFiles :=
  (restores_iff_names_unused userFiles userFiles_unmarked _).mpr (by decide)

theorem user_file_of_same_name_lost :
    ¬ ∀ (dir : ResolverDir) (calls : List (List String)),
      (∀ name contents, dir.lookup name = some contents → isSidednsFile contents = false) →
        revert (applyAll dir calls) = dir := by
  intro h
  have hlost := congrArg (Finmap.lookup "corp.test") (h userFiles [["*.corp.test"]]
    userFiles_unmarked)
  have hwritten : Written [["*.corp.test"]] "corp.test" :=
    ⟨["*.corp.test"],List.mem_cons_self,by decide⟩
  rw [(lookup_revert_applyAll userFiles [["*.corp.test"]] "corp.test").1 hwritten] at hlost
  rw [userFiles, Finmap.lookup_insert] at hlost
  cases hlost

end MacOsConfigurator

end SideDns
