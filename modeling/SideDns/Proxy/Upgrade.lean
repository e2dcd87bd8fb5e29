import SideDns.Library.FieldList
import SideDns.Proxy.Headers

namespace SideDns

open FieldList (IsWord Lists)

def HeaderMap.Visible (headers : HeaderMap) : Prop :=
  ∀ header ∈ headers, header.2.all HeaderMap.isVisibleAscii = true

namespace ProxyServer

def Listed (headers : HeaderMap) (name option : String) : Prop :=
  ∃ value ∈ headers.getAll name, Lists option.toList value

def Upgrades (headers : HeaderMap) : Prop :=
  Listed headers "upgrade" "websocket" ∧ Listed headers "connection" "upgrade"

structure FollowsGrammar (headers : HeaderMap) : Prop where
  detected : isWebsocket headers = true ↔ Upgrades headers
  kept : Upgrades headers →
    (stripHopByHop headers).getAll "connection" = headers.getAll "connection"
  removed : ¬Upgrades headers → (stripHopByHop headers).getAll "connection" = []

def Bare (upgrade : HeaderValue) : Prop := upgrade.map Char.toLower = "websocket".toList

def Mentions (connection : HeaderValue) : Prop :=
  "upgrade".toList <:+: connection.map Char.toLower

inductive Misread (headers : HeaderMap) : Prop where
  | insideWord {upgrade connection : HeaderValue} {others later : List HeaderValue}
      (upgrades : headers.getAll "upgrade" = upgrade :: others)
      (connections : headers.getAll "connection" = connection :: later)
      (bare : Bare upgrade) (mentions : Mentions connection)
      (unlisted : ∀ value ∈ connection :: later, ¬Lists "upgrade".toList value)
  | laterLine {upgrade connection : HeaderValue} {others later : List HeaderValue}
      (upgrades : headers.getAll "upgrade" = upgrade :: others)
      (connections : headers.getAll "connection" = connection :: later)
      (bare : Bare upgrade) (absent : ¬Mentions connection)
      (listed : ∃ value ∈ later, Lists "upgrade".toList value)
  | upgradeList {upgrade : HeaderValue} {others : List HeaderValue}
      (upgrades : headers.getAll "upgrade" = upgrade :: others) (notBare : ¬Bare upgrade)
      (offered : ∃ value ∈ upgrade :: others, Lists "websocket".toList value)
      (listed : Listed headers "connection" "upgrade")

theorem toStr_of_visible {headers : HeaderMap} (hv : headers.Visible) {name : String}
    {value : HeaderValue} (h : value ∈ headers.getAll name) :
    HeaderMap.toStr value = some (String.ofList value) := by
  obtain ⟨header,hmem,hvalue⟩ := List.mem_filterMap.mp h
  split_ifs at hvalue
  obtain rfl := Option.some.inj hvalue
  rw [HeaderMap.toStr, if_pos (hv header hmem)]

theorem isWebsocket_no_upgrade {headers : HeaderMap} (h : headers.getAll "upgrade" = []) :
    isWebsocket headers = false := by
  simp only [isWebsocket, HeaderMap.get_eq_head? headers "upgrade", h]
  rfl

theorem isWebsocket_cons {headers : HeaderMap} (hv : headers.Visible)
    {upgrade connection : HeaderValue} {others later : List HeaderValue}
    (hu : headers.getAll "upgrade" = upgrade :: others)
    (hc : headers.getAll "connection" = connection :: later) :
    isWebsocket headers = true ↔ Bare upgrade ∧ Mentions connection := by
  have hupgrade := toStr_of_visible hv (hu ▸ List.mem_cons_self)
  have hconnection := toStr_of_visible hv (hc ▸ List.mem_cons_self)
  simp only [isWebsocket, HeaderMap.get_eq_head?, hu, hc, List.head?_cons, Option.bind_some,
    hupgrade, hconnection, Option.map_some, Option.getD_some, Bool.and_eq_true, beq_iff_eq,
    Option.some.injEq, Utf8.contains, decide_eq_true_eq]
  have htext (value : HeaderValue) :
      (Utf8.toAsciiLowercase (String.ofList value)).toList = value.map Char.toLower := by
    rw [Utf8.toList_toAsciiLowercase, String.toList_ofList]
  rw [← String.toList_inj, htext, htext]
  rfl

theorem isWord_websocket : IsWord "websocket".toList :=
  ⟨by decide,Utf8.forall_mem_of_all (by decide)⟩

theorem listed_of_bare {headers : HeaderMap} {upgrade : HeaderValue}
    {others : List HeaderValue} (hu : headers.getAll "upgrade" = upgrade :: others)
    (hbare : Bare upgrade) : Listed headers "upgrade" "websocket" :=
  ⟨upgrade,hu ▸ List.mem_cons_self,isWord_websocket.lists hbare⟩

theorem listed_cons {headers : HeaderMap} {name option : String} (h : Listed headers name option) :
    ∃ first rest, headers.getAll name = first :: rest := by
  obtain ⟨value,hvalue,-⟩ := h
  exact List.exists_cons_of_ne_nil (List.ne_nil_of_mem hvalue)

theorem isWebsocket_lines {headers : HeaderMap} (h : isWebsocket headers = true) :
    (∃ upgrade others, headers.getAll "upgrade" = upgrade :: others) ∧
      ∃ connection later, headers.getAll "connection" = connection :: later := by
  constructor
  · refine List.exists_cons_of_ne_nil ?_
    intro hnil
    rw [isWebsocket_no_upgrade hnil] at h
    cases h
  · refine List.exists_cons_of_ne_nil ?_
    intro hnil
    rw [isWebsocket_of_no_connection hnil] at h
    cases h

theorem upgrades_of_isWebsocket {headers : HeaderMap} (hv : headers.Visible)
    (hm : ¬Misread headers) (h : isWebsocket headers = true) : Upgrades headers := by
  obtain ⟨⟨upgrade,others,hu⟩,connection,later,hc⟩ := isWebsocket_lines h
  obtain ⟨hbare,hmentions⟩ := (isWebsocket_cons hv hu hc).mp h
  refine ⟨listed_of_bare hu hbare,?_⟩
  by_contra hunlisted
  refine hm (.insideWord hu hc hbare hmentions ?_)
  intro value hvalue hlists
  exact hunlisted ⟨value,hc ▸ hvalue,hlists⟩

theorem isWebsocket_of_upgrades {headers : HeaderMap} (hv : headers.Visible)
    (hm : ¬Misread headers) (h : Upgrades headers) : isWebsocket headers = true := by
  obtain ⟨upgrade,others,hu⟩ := listed_cons h.1
  obtain ⟨connection,later,hc⟩ := listed_cons h.2
  rw [isWebsocket_cons hv hu hc]
  have hbare : Bare upgrade := by
    by_contra hnot
    obtain ⟨value,hvalue,hlists⟩ := h.1
    exact hm (.upgradeList hu hnot ⟨value,hu ▸ hvalue,hlists⟩ h.2)
  refine ⟨hbare,?_⟩
  by_contra habsent
  obtain ⟨value,hvalue,hlists⟩ := h.2
  rw [hc] at hvalue
  rcases List.mem_cons.mp hvalue with rfl | hlater
  · exact habsent hlists.within
  · exact hm (.laterLine hu hc hbare habsent ⟨value,hlater,hlists⟩)

theorem Misread.undetected {headers : HeaderMap} (hv : headers.Visible) (hm : Misread headers) :
    ¬(isWebsocket headers = true ↔ Upgrades headers) := by
  intro hiff
  cases hm with
  | insideWord hu hc hbare hmentions hunlisted =>
    obtain ⟨-,value,hvalue,hlists⟩ := hiff.mp ((isWebsocket_cons hv hu hc).mpr ⟨hbare,hmentions⟩)
    exact hunlisted value (hc ▸ hvalue) hlists
  | laterLine hu hc hbare habsent hlisted =>
    obtain ⟨value,hlater,hlists⟩ := hlisted
    have hconnection : Listed headers "connection" "upgrade" :=
      ⟨value,hc ▸ List.mem_cons_of_mem _ hlater,hlists⟩
    have hdetected := hiff.mpr ⟨listed_of_bare hu hbare,hconnection⟩
    exact habsent ((isWebsocket_cons hv hu hc).mp hdetected).2
  | upgradeList hu hnot hoffered hlisted =>
    obtain ⟨value,hvalue,hlists⟩ := hoffered
    obtain ⟨connection,later,hc⟩ := listed_cons hlisted
    have hdetected := hiff.mpr ⟨⟨value,hu ▸ hvalue,hlists⟩,hlisted⟩
    exact hnot ((isWebsocket_cons hv hu hc).mp hdetected).1

theorem followsGrammar_of_detected {headers : HeaderMap}
    (h : isWebsocket headers = true ↔ Upgrades headers) : FollowsGrammar headers := by
  have hstrip := connection_stripHopByHop headers
  refine ⟨h,?_,?_⟩
  · intro hupgrades
    rw [hstrip, if_pos (h.mpr hupgrades)]
  · intro hplain
    rw [hstrip, if_neg (fun hw => hplain (h.mp hw))]

theorem followsGrammar_iff_not_misread {headers : HeaderMap} (hv : headers.Visible) :
    FollowsGrammar headers ↔ ¬Misread headers := by
  constructor
  · intro h hm
    exact hm.undetected hv h.detected
  · intro hm
    exact followsGrammar_of_detected
      ⟨upgrades_of_isWebsocket hv hm,isWebsocket_of_upgrades hv hm⟩

def listRequest : HeaderMap :=
  [("upgrade", "WebSocket".toList), ("connection", "keep-alive, Upgrade".toList)]

theorem list_request_follows_grammar : FollowsGrammar listRequest := by
  have hv : listRequest.Visible := by
    unfold HeaderMap.Visible
    decide
  refine (followsGrammar_iff_not_misread hv).mpr ?_
  intro hm
  cases hm with
  | insideWord hu hc hbare hmentions hunlisted =>
    obtain ⟨rfl,-⟩ := List.cons.inj hc
    exact hunlisted _ List.mem_cons_self (by decide)
  | laterLine hu hc hbare habsent hlisted =>
    obtain ⟨-,rfl⟩ := List.cons.inj hc
    obtain ⟨value,hvalue,-⟩ := hlisted
    cases hvalue
  | upgradeList hu hnot hoffered hlisted =>
    obtain ⟨rfl,-⟩ := List.cons.inj hu
    exact hnot (by unfold Bare; decide)

def twoLineRequest : HeaderMap :=
  [("upgrade", "websocket".toList), ("connection", "keep-alive".toList),
    ("connection", "Upgrade".toList)]

theorem second_connection_line_ignored :
    ¬ ∀ headers : HeaderMap, headers.Visible → FollowsGrammar headers := by
  intro h
  have hv : twoLineRequest.Visible := by
    unfold HeaderMap.Visible
    decide
  have hupgrades : Upgrades twoLineRequest := by
    unfold Upgrades Listed
    decide
  have hdetected := (h twoLineRequest hv).detected.mpr hupgrades
  exact absurd hdetected (by decide)

example : isWebsocket [("upgrade", "websocket".toList),
    ("connection", "upgrade-insecure-requests".toList)] = true := by decide

example : isWebsocket [("upgrade", "websocket, h2c".toList), ("connection", "Upgrade".toList)] =
    false := by decide

end ProxyServer

end SideDns
