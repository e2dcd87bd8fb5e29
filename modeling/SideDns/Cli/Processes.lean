import SideDns.Library.Worklist
import SideDns.Rule

namespace SideDns

open Worklist (SingleParent Reaches fresh)

structure Process where
  pid : UInt32
  parent : Option UInt32
  deriving DecidableEq, Repr

structure ProcessTable where
  processes : List Process
  nodup : (processes.map Process.pid).Nodup

inductive Protocol where
  | tcp
  | udp
  deriving DecidableEq, Repr

structure Listener where
  pid : UInt32
  name : String
  socket : SocketAddr
  protocol : Protocol
  deriving DecidableEq, Repr

namespace ProcessTable

def pushChild (current : UInt32) (targetPids : Finset UInt32) (pidsToCheck : List UInt32)
    (process : Process) : List UInt32 :=
  match process.parent with
  | some ppid =>
      if ppid == current && !decide (process.pid ∈ targetPids) then process.pid :: pidsToCheck
      else pidsToCheck
  | none => pidsToCheck

def search (table : ProcessTable) : Nat → Finset UInt32 → List UInt32 →
    Option (List UInt32 × Finset UInt32)
  | 0, _, _ => none
  | _ + 1, targetPids, [] => some ([], targetPids)
  | fuel + 1, targetPids, current :: pidsToCheck =>
      let targetPids := insert current targetPids
      (table.search fuel targetPids
        (table.processes.foldl (pushChild current targetPids) pidsToCheck)).map
          (fun r => (current :: r.1, r.2))

def listenersOf (targetPids : Finset UInt32) (listeners : Option (List Listener)) :
    List (String × SocketAddr) :=
  match listeners with
  | some all => all.filterMap (fun l =>
      if l.pid ∈ targetPids ∧ l.protocol = .tcp then some (l.name, l.socket) else none)
  | none => []

def detectNetworkProcesses (table : ProcessTable) (listeners : Option (List Listener))
    (fuel : Nat) (processPid : UInt32) : Option (List (String × SocketAddr)) :=
  (table.search fuel ∅ [processPid]).map (fun r => listenersOf r.2 listeners)

def children (table : ProcessTable) (ppid : UInt32) : List UInt32 :=
  (table.processes.filter (fun p => p.parent == some ppid)).map Process.pid

def Descends (table : ProcessTable) (root pid : UInt32) : Prop :=
  Relation.ReflTransGen
    (fun ppid pid => ∃ process ∈ table.processes, process.pid = pid ∧ process.parent = some ppid)
    root pid

theorem mem_children {table : ProcessTable} {ppid pid : UInt32} :
    pid ∈ table.children ppid ↔
      ∃ process ∈ table.processes, process.pid = pid ∧ process.parent = some ppid := by
  simp only [children, List.mem_map, List.mem_filter, beq_iff_eq]
  constructor
  · rintro ⟨process,⟨hmem,hparent⟩,hpid⟩
    exact ⟨process,hmem,hpid,hparent⟩
  · rintro ⟨process,hmem,hpid,hparent⟩
    exact ⟨process,⟨hmem,hparent⟩,hpid⟩

theorem reaches_iff_descends (table : ProcessTable) (root pid : UInt32) :
    Reaches table.children root pid ↔ table.Descends root pid := by
  have hrel : (fun a b => b ∈ table.children a) = fun ppid pid =>
      ∃ process ∈ table.processes, process.pid = pid ∧ process.parent = some ppid := by
    funext ppid pid
    exact propext mem_children
  rw [Reaches, hrel, Descends]

theorem singleParent_children (table : ProcessTable) : SingleParent table.children where
  nodup := fun _ => table.nodup.sublist (List.filter_sublist.map _)
  unique := by
    intro ppid ppid' pid h h'
    obtain ⟨process,hmem,hpid,hparent⟩ := mem_children.mp h
    obtain ⟨process',hmem',hpid',hparent'⟩ := mem_children.mp h'
    obtain rfl : process = process' :=
      List.inj_on_of_nodup_map table.nodup hmem hmem' (hpid.trans hpid'.symm)
    exact Option.some.inj (hparent.symm.trans hparent')

theorem children_known (table : ProcessTable) (ppid : UInt32) :
    ∀ pid ∈ table.children ppid, pid ∈ (table.processes.map Process.pid).toFinset := by
  intro pid h
  obtain ⟨process,hmem,rfl,-⟩ := mem_children.mp h
  exact List.mem_toFinset.mpr (List.mem_map_of_mem hmem)

theorem foldl_pushChild (current : UInt32) (targetPids : Finset UInt32)
    (processes : List Process) (pidsToCheck : List UInt32) :
    processes.foldl (pushChild current targetPids) pidsToCheck =
      (((processes.filter (fun p => p.parent == some current)).map Process.pid).filter
        (fun pid => decide (pid ∉ targetPids))).reverse ++ pidsToCheck := by
  induction processes generalizing pidsToCheck with
  | nil => rfl
  | cons process processes ih =>
    rw [List.foldl_cons, ih, pushChild]
    cases hparent : process.parent with
    | none => simp [hparent]
    | some ppid =>
      by_cases hcurrent : ppid = current
      · by_cases htarget : process.pid ∈ targetPids <;> simp [hparent, hcurrent, htarget]
      · simp [hparent, hcurrent]

theorem search_eq_loop (table : ProcessTable) (fuel : Nat) (targetPids : Finset UInt32)
    (pidsToCheck : List UInt32) :
    table.search fuel targetPids pidsToCheck =
      (Worklist.loop table.children fuel ⟨targetPids, pidsToCheck⟩).map
        (fun r => (r.1, r.2.visited)) := by
  induction fuel generalizing targetPids pidsToCheck with
  | zero => rfl
  | succ fuel ih =>
    cases pidsToCheck with
    | nil => rfl
    | cons current rest =>
      rw [search, Worklist.loop, ih, foldl_pushChild]
      simp only [Option.map_map]
      rfl

theorem listenersOf_eq (targetPids : Finset UInt32) (all : List Listener) :
    listenersOf targetPids (some all) =
      (all.filter (fun l => decide (l.pid ∈ targetPids) && l.protocol == .tcp)).map
        (fun l => (l.name, l.socket)) := by
  rw [listenersOf]
  induction all with
  | nil => rfl
  | cons l all ih =>
    rw [List.filterMap_cons]
    by_cases h : l.pid ∈ targetPids ∧ l.protocol = .tcp
    · rw [if_pos h, ih, List.filter_cons_of_pos (by simp [h]), List.map_cons]
    · rw [if_neg h, ih, List.filter_cons_of_neg (by simpa using h)]

theorem mem_listenersOf {targetPids : Finset UInt32} {all : List Listener}
    {found : String × SocketAddr} :
    found ∈ listenersOf targetPids (some all) ↔
      ∃ l ∈ all, l.pid ∈ targetPids ∧ l.protocol = .tcp ∧ found = (l.name, l.socket) := by
  rw [listenersOf_eq, List.mem_map]
  refine exists_congr fun l => ?_
  rw [List.mem_filter, Bool.and_eq_true, decide_eq_true_eq, beq_iff_eq, @eq_comm _ found]
  simp only [and_assoc]

theorem process_tree_searched (table : ProcessTable) (root : UInt32) (all : List Listener) :
    let fuel := table.processes.length + 2
    ∃ popped targetPids addresses,
      (∀ extra, table.search (fuel + extra) ∅ [root] = some (popped, targetPids)) ∧
      popped.Nodup ∧
      (∀ pid, pid ∈ targetPids ↔ table.Descends root pid) ∧
      (∀ extra, table.detectNetworkProcesses (some all) (fuel + extra) root = some addresses) ∧
      addresses = (all.filter (fun l => decide (l.pid ∈ targetPids) && l.protocol == .tcp)).map
        (fun l => (l.name, l.socket)) ∧
      ∀ found, found ∈ addresses ↔
        ∃ l ∈ all, table.Descends root l.pid ∧ l.protocol = .tcp ∧ found = (l.name, l.socket) := by
  intro fuel
  obtain ⟨popped,last,hloop,hnodup,hreach⟩ :=
    Worklist.loop_start table.singleParent_children table.children_known root
  have hcard : (table.processes.map Process.pid).toFinset.card = table.processes.length := by
    rw [List.toFinset_card_of_nodup table.nodup, List.length_map]
  rw [hcard] at hloop
  have hsearch : ∀ extra, table.search (fuel + extra) ∅ [root] = some (popped, last.visited) := by
    intro extra
    have hstart := hloop extra
    rw [Worklist.start] at hstart
    rw [search_eq_loop, hstart]
    rfl
  have htargets : ∀ pid, pid ∈ last.visited ↔ table.Descends root pid :=
    fun pid => (hreach pid).trans (table.reaches_iff_descends root pid)
  refine ⟨popped,last.visited,listenersOf last.visited (some all),hsearch,hnodup,htargets,?_,
    listenersOf_eq last.visited all,?_⟩
  · intro extra
    rw [detectNetworkProcesses, hsearch]
    rfl
  · intro found
    simp only [mem_listenersOf, htargets]

example :
    let table : ProcessTable := ⟨[⟨2, some 1⟩, ⟨1, some 3⟩, ⟨3, some 2⟩, ⟨4, some 4⟩], by decide⟩
    table.search 6 ∅ [1] = some ([1, 2, 3], {1, 2, 3}) := by
  decide

end ProcessTable

end SideDns
