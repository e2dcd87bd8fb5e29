import SideDns.Ipc.Client

namespace SideDns

open Transition (run)

def IpcResponse.event? : IpcResponse → Option DnsEvent
  | event sent => some sent
  | _ => none

inductive LineResult where
  | failed
  | skipped
  | event (sent : DnsEvent)
  deriving DecidableEq, Repr

inductive TaskPhase where
  | reading
  | sending (event : DnsEvent)
  | finished
  | abandoned
  deriving DecidableEq, Repr

structure Subscription where
  written : List UInt8
  inFlight : List UInt8
  received : List UInt8
  closed : Bool
  phase : TaskPhase
  accepted : List DnsEvent
  queue : List DnsEvent
  dropped : Bool
  yielded : List DnsEvent
  deriving DecidableEq, Repr

inductive SubscriptionAction where
  | write (bytes : List UInt8)
  | close
  | arrive (count : Nat)
  | nextLine
  | send
  | recv
  | drop
  deriving DecidableEq, Repr

namespace IpcClient

def readLine (line : List UInt8) : LineResult :=
  match String.fromUTF8? ⟨line.toArray⟩ with
  | none => .failed
  | some text =>
    match Wire.decode IpcResponse.ofJson text with
    | some (.event sent) => .event sent
    | _ => .skipped

def forwarded : List (List UInt8) → List DnsEvent
  | [] => []
  | line :: rest =>
    match readLine line with
    | .failed => []
    | .skipped => forwarded rest
    | .event sent => sent :: forwarded rest

theorem readLine_whole {response : IpcResponse} (h : response.Portable) :
    readLine (Wire.jsonBytes response.toJson) =
      match response.event? with
      | some sent => .event sent
      | none => .skipped := by
  have hdecode := Wire.decode_payload IpcResponse.ofJson response.toJson
  rw [IpcResponse.ofJson_toJson h] at hdecode
  have hvalid : String.fromUTF8? ⟨(Wire.jsonBytes response.toJson).toArray⟩ =
      some (Wire.payload response.toJson) := by
    rw [String.fromUTF8?]
    exact dif_pos (Wire.payload response.toJson).isValidUTF8
  rw [readLine, hvalid]
  simp only [hdecode]
  cases response <;> rfl

theorem readLine_undecoded {line : List UInt8}
    (h : Wire.decodeLine IpcResponse.ofJson line = none) :
    readLine line = .failed ∨ readLine line = .skipped := by
  rw [readLine]
  rw [Wire.decodeLine] at h
  cases htext : String.fromUTF8? ⟨line.toArray⟩ with
  | none => exact .inl rfl
  | some text =>
    rw [htext, Option.bind_some] at h
    simp only [h]
    exact .inr trivial

theorem forwarded_whole {responses : List IpcResponse} (h : ∀ r ∈ responses, r.Portable)
    {torn : List (List UInt8)} (ht : forwarded torn = []) :
    forwarded (responses.map (fun r => Wire.jsonBytes r.toJson) ++ torn) =
      responses.filterMap IpcResponse.event? := by
  induction responses with
  | nil => exact ht
  | cons response responses ih =>
    obtain ⟨hresponse,hrest⟩ := List.forall_mem_cons.mp h
    rw [List.map_cons, List.cons_append, forwarded, readLine_whole hresponse]
    cases hevent : response.event? with
    | none => rw [List.filterMap_cons_none hevent, ← ih hrest]
    | some sent => rw [List.filterMap_cons_some hevent, ← ih hrest]

theorem forwarded_take {responses : List IpcResponse} (h : ∀ r ∈ responses, r.Portable)
    (count : Nat) :
    forwarded (Lines.lines ((responses.flatMap Wire.writeResponse).take count)) =
      (Lines.arrived (fun r => Wire.jsonBytes r.toJson) count responses).filterMap
        IpcResponse.event? := by
  have hlines : ∀ r ∈ responses, Lines.IsLine (Wire.jsonBytes r.toJson) ∧
      Wire.jsonBytes r.toJson ≠ [] := fun r _ =>
    ⟨Wire.payload_isLine r.toJson,Wire.jsonBytes_ne_nil r.toJson⟩
  have hbytes : responses.flatMap Wire.writeResponse =
      responses.flatMap fun r => Wire.jsonBytes r.toJson ++ [Lines.newline] :=
    List.flatMap_congr fun r _ => Wire.line_eq r.toJson
  obtain ⟨torn,heq,hcase⟩ := Lines.lines_take_flatMap hlines count
  rw [hbytes, heq]
  have hwhole := Lines.arrived_prefix (fun r : IpcResponse => Wire.jsonBytes r.toJson) count
    responses
  refine forwarded_whole (fun r hr => h r (hwhole.subset hr)) ?_
  rcases hcase with rfl | ⟨r,-,k,hk,rfl⟩
  · rfl
  · obtain ⟨members,hobject⟩ := r.toJson_object
    rw [hobject] at hk ⊢
    have hnone := Wire.decodeLine_torn IpcResponse.ofJson hk
    rw [forwarded]
    rcases readLine_undecoded hnone with hline | hline <;> rw [hline]
    rfl

end IpcClient

namespace Subscription

open IpcClient (readLine forwarded)

def channelCapacity : Nat := 32

def subscribe : Subscription := ⟨[], [], [], false, .reading, [], [], false, []⟩

def write (bytes : List UInt8) (c : Subscription) : Subscription :=
  if c.closed then c
  else { c with written := c.written ++ bytes, inFlight := c.inFlight ++ bytes }

def arrive (count : Nat) (c : Subscription) : Subscription :=
  { c with
    received := c.received ++ c.inFlight.take count
    inFlight := c.inFlight.drop count }

def Ready (c : Subscription) : Prop :=
  Lines.newline ∈ c.received ∨ (c.closed = true ∧ c.inFlight = [])

instance (c : Subscription) : Decidable c.Ready := inferInstanceAs (Decidable (_ ∨ _))

def nextLine (c : Subscription) : Subscription :=
  match c.phase with
  | .reading =>
    if c.Ready then
      match Lines.nextLine c.received with
      | none => { c with phase := .finished }
      | some (line, rest) =>
        match readLine line with
        | .failed => { c with received := rest, phase := .finished }
        | .skipped => { c with received := rest }
        | .event sent => { c with received := rest, phase := .sending sent }
    else c
  | _ => c

def send (c : Subscription) : Subscription :=
  match c.phase with
  | .sending event =>
    if c.dropped then { c with phase := .abandoned }
    else if c.queue.length < channelCapacity then
      { c with
        phase := .reading
        accepted := c.accepted ++ [event]
        queue := c.queue ++ [event] }
    else c
  | _ => c

def recv (c : Subscription) : Subscription :=
  match c.queue with
  | [] => c
  | event :: rest => { c with queue := rest, yielded := c.yielded ++ [event] }

def step (c : Subscription) : SubscriptionAction → Subscription
  | .write bytes => c.write bytes
  | .close => { c with closed := true }
  | .arrive count => c.arrive count
  | .nextLine => c.nextLine
  | .send => c.send
  | .recv => c.recv
  | .drop => { c with dropped := true, queue := [] }

def Continues (c : Subscription) (more : List UInt8) : Prop := c.closed = true → more = []

def ahead (c : Subscription) (more : List UInt8) : List DnsEvent :=
  forwarded (Lines.lines (c.received ++ (c.inFlight ++ more)))

def total (c : Subscription) (more : List UInt8) : List DnsEvent :=
  forwarded (Lines.lines (c.written ++ more))

end Subscription

def TaskPhase.Remains (ahead tail : List DnsEvent) : TaskPhase → Prop
  | reading => tail = ahead
  | sending event => tail = event :: ahead
  | finished => tail = []
  | abandoned => True

namespace Subscription

open IpcClient (readLine forwarded)

structure Faithful (c : Subscription) : Prop where
  stream : ∀ more, c.Continues more →
    ∃ tail, c.total more = c.accepted ++ tail ∧ c.phase.Remains (c.ahead more) tail
  consumed : c.yielded ++ c.queue <+: c.accepted
  kept : c.dropped = false → c.yielded ++ c.queue = c.accepted
  capacity : c.queue.length ≤ channelCapacity

theorem faithful_subscribe : subscribe.Faithful :=
  ⟨fun _ _ => ⟨_,rfl,rfl⟩,List.prefix_rfl,fun _ => rfl,Nat.zero_le _⟩

theorem Faithful.write {c : Subscription} (h : c.Faithful) (bytes : List UInt8) :
    (c.write bytes).Faithful := by
  rw [Subscription.write]
  split_ifs with hc
  · exact h
  · refine { h with stream := fun more _ => ?_ }
    obtain ⟨tail,htotal,hphase⟩ := h.stream (bytes ++ more) fun hclosed => absurd hclosed hc
    refine ⟨tail,?_,?_⟩
    · simpa only [total, List.append_assoc] using htotal
    · simpa only [ahead, List.append_assoc] using hphase

theorem Faithful.close {c : Subscription} (h : c.Faithful) :
    ({ c with closed := true } : Subscription).Faithful := by
  refine { h with stream := fun more hmore => ?_ }
  obtain rfl := hmore rfl
  exact h.stream [] fun _ => rfl

theorem Faithful.arrive {c : Subscription} (h : c.Faithful) (count : Nat) :
    (c.arrive count).Faithful := by
  refine { h with stream := fun more hmore => ?_ }
  have hsame : (c.arrive count).ahead more = c.ahead more := by
    simp only [ahead, Subscription.arrive, List.append_assoc]
    rw [← List.append_assoc (c.inFlight.take count), List.take_append_drop]
  rw [hsame]
  exact h.stream more hmore

theorem Ready.nextLine {c : Subscription} (h : c.Ready) {more : List UInt8}
    (hmore : c.Continues more) :
    Lines.nextLine (c.received ++ (c.inFlight ++ more)) =
      (Lines.nextLine c.received).map fun p => (p.1, p.2 ++ (c.inFlight ++ more)) := by
  rcases h with hline | ⟨hclosed,hflight⟩
  · exact Lines.nextLine_extend _ hline
  · rw [hflight, hmore hclosed, List.append_nil, List.append_nil]
    cases Lines.nextLine c.received with
    | none => rfl
    | some p => simp

theorem Ready.ahead_none {c : Subscription} (h : c.Ready) {more : List UInt8}
    (hmore : c.Continues more) (hnext : Lines.nextLine c.received = none) :
    c.ahead more = [] := by
  have hwhole := h.nextLine hmore
  rw [hnext, Option.map_none] at hwhole
  rw [ahead, Lines.lines_of_nextLine_none hwhole]
  rfl

theorem Ready.ahead_some {c : Subscription} (h : c.Ready) {more line rest : List UInt8}
    (hmore : c.Continues more) (hnext : Lines.nextLine c.received = some (line, rest)) :
    c.ahead more =
      forwarded (line :: Lines.lines (rest ++ (c.inFlight ++ more))) := by
  have hwhole := h.nextLine hmore
  rw [hnext, Option.map_some] at hwhole
  rw [ahead, Lines.lines_of_nextLine hwhole]

theorem Faithful.nextLine {c : Subscription} (h : c.Faithful) : c.nextLine.Faithful := by
  cases hp : c.phase with
  | reading =>
    simp only [Subscription.nextLine, hp]
    split_ifs with hready
    · cases hnext : Lines.nextLine c.received with
      | none =>
        refine { h with stream := fun more hmore => ?_ }
        obtain ⟨tail,htotal,hphase⟩ := h.stream more hmore
        rw [hp] at hphase
        refine ⟨tail,htotal,?_⟩
        rw [TaskPhase.Remains, hphase]
        exact hready.ahead_none hmore hnext
      | some p =>
        obtain ⟨line,rest⟩ := p
        have htail : ∀ more, c.Continues more → c.total more = c.accepted ++
            forwarded (line :: Lines.lines (rest ++ (c.inFlight ++ more))) := by
          intro more hmore
          obtain ⟨tail,htotal,hphase⟩ := h.stream more hmore
          rw [hp] at hphase
          rw [htotal, hphase, hready.ahead_some hmore hnext]
        cases hline : readLine line with
        | failed =>
          simp only [hline]
          refine { h with stream := fun more hmore => ⟨_,htail more hmore,?_⟩ }
          rw [forwarded, hline]
          rfl
        | skipped =>
          simp only [hline]
          refine { h with stream := fun more hmore => ⟨_,htail more hmore,?_⟩ }
          rw [forwarded, hline]
          rfl
        | event sent =>
          simp only [hline]
          refine { h with stream := fun more hmore => ⟨_,htail more hmore,?_⟩ }
          rw [forwarded, hline]
          rfl
    · exact h
  | _ => simpa only [Subscription.nextLine, hp] using h

theorem Faithful.send {c : Subscription} (h : c.Faithful) : c.send.Faithful := by
  cases hp : c.phase with
  | sending event =>
    simp only [Subscription.send, hp]
    have hstream : ∀ more, c.Continues more →
        c.total more = c.accepted ++ event :: c.ahead more := by
      intro more hmore
      obtain ⟨tail,htotal,hphase⟩ := h.stream more hmore
      rw [hp] at hphase
      rw [htotal, hphase]
    split_ifs with hdropped hroom
    · exact { h with stream := fun more hmore => ⟨_,hstream more hmore,trivial⟩ }
    · have hkept := h.kept (by simpa using hdropped)
      refine ⟨fun more hmore => ⟨_,?_,rfl⟩,?_,fun _ => ?_,?_⟩
      · rw [List.append_assoc]
        exact hstream more hmore
      · rw [← List.append_assoc, hkept]
      · rw [← List.append_assoc, hkept]
      · rw [List.length_append]
        exact hroom
    · exact h
  | _ => simpa only [Subscription.send, hp] using h

theorem Faithful.recv {c : Subscription} (h : c.Faithful) : c.recv.Faithful := by
  cases hq : c.queue with
  | nil => simpa only [Subscription.recv, hq] using h
  | cons event rest =>
    simp only [Subscription.recv, hq]
    have hsplit : (c.yielded ++ [event]) ++ rest = c.yielded ++ c.queue := by
      rw [hq, List.append_assoc]
      rfl
    have hroom := h.capacity
    rw [hq, List.length_cons] at hroom
    refine ⟨h.stream,?_,fun hd => ?_,Nat.le_of_succ_le hroom⟩
    · rw [hsplit]
      exact h.consumed
    · rw [hsplit]
      exact h.kept hd

theorem Faithful.step {c : Subscription} (h : c.Faithful) (action : SubscriptionAction) :
    (c.step action).Faithful := by
  cases action with
  | write bytes => exact h.write bytes
  | close => exact h.close
  | arrive count => exact h.arrive count
  | nextLine => exact h.nextLine
  | send => exact h.send
  | recv => exact h.recv
  | drop =>
    refine ⟨h.stream,?_,fun hd => absurd hd (by simp [Subscription.step]),Nat.zero_le _⟩
    change c.yielded ++ [] <+: c.accepted
    rw [List.append_nil]
    exact (List.prefix_append _ _).trans h.consumed

theorem faithful_run (acts : List SubscriptionAction) : (run step subscribe acts).Faithful :=
  Transition.run_invariant Faithful (fun _ action h => h.step action) faithful_subscribe acts

theorem receiver_yields_written_events (responses : List IpcResponse)
    (hp : ∀ r ∈ responses, r.Portable) (count : Nat) (acts : List SubscriptionAction)
    (hw : (run step subscribe acts).written =
      (responses.flatMap Wire.writeResponse).take count) :
    let c := run step subscribe acts
    let events := (Lines.arrived (fun r => Wire.jsonBytes r.toJson) count responses).filterMap
      IpcResponse.event?
    c.yielded <+: events ∧ c.queue.length ≤ channelCapacity ∧
    (c.phase = .finished → c.dropped = false → c.yielded ++ c.queue = events) := by
  intro c events
  have hfaithful : c.Faithful := faithful_run acts
  have htotal : c.total [] = events := by
    rw [total, List.append_nil, hw, IpcClient.forwarded_take hp]
  obtain ⟨tail,hstream,hphase⟩ := hfaithful.stream [] fun _ => rfl
  rw [htotal] at hstream
  refine ⟨?_,hfaithful.capacity,fun hfinished hkept => ?_⟩
  · rw [hstream]
    exact ((List.prefix_append _ _).trans hfaithful.consumed).trans (List.prefix_append _ _)
  · rw [hfinished] at hphase
    rw [hstream, hphase, List.append_nil, hfaithful.kept hkept]

end Subscription

end SideDns
