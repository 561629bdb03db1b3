import Uniqueness.Cluster.Forward
import Uniqueness.Proofs.SortedMaps

/-!
Where the connections lead that a node keeps to others. The node is known by its id, and may be reached elsewhere by
the time that its connection is asked for again.
-/

namespace Uniqueness.Cluster.Connections

variable {ω α : Type}

inductive Event where
  | handed (node : UInt64) (asked reached : String)
  | dropped (node : UInt64)
  deriving DecidableEq

inductive Errand (ω : Type) where
  | connect (node : UInt64) (address : String)
  | evict (node : UInt64)
  | call (node : UInt64) (address : String) (request : String → Call ω Bytes)
  | forward (f : Forwarder) (leader : UInt64) (address : String) (command : Command)

def handedBy (node : UInt64) (address : String) : Except Fault Connection → List Event
  | .ok connection => [.handed node address connection.address]
  | .error _ => []

def droppedByCall (node : UInt64) : Except CallFault α → List Event
  | .error (.unreachable (.network _)) => [.dropped node]
  | _ => []

def droppedBySend (leader : UInt64) : Except Fault Response → List Event
  | .error (.network _) => [.dropped leader]
  | _ => []

def Errand.run (α : Type) [Codec α] (net : Network ω) :
    Errand ω → Connections → ω → List Event × Connections × ω
  | .connect node address, c, w =>
    let (result, c, w) := c.connect net node address w
    (handedBy node address result, c, w)
  | .evict node, c, w => ([.dropped node], c.evict node, w)
  | .call node address request, c, w =>
    let handed := handedBy node address (c.connect net node address w).1
    let (result, c, w) := c.call (α := α) net node address request w
    (handed ++ droppedByCall node result, c, w)
  | .forward f leader address command, c, w =>
    let handed := handedBy leader address (c.connect net leader address w).1
    let (result, f, w) := { f with connections := c }.send net leader address command w
    (handed ++ droppedBySend leader result, f.connections, w)

def trace (α : Type) [Codec α] (net : Network ω) : List (Errand ω) → Connections → ω → List Event
  | [], _, _ => []
  | e :: rest, c, w =>
    let (events, c, w) := e.run α net c w
    events ++ trace α net rest c w

def Event.next (node : UInt64) (o : Option String) : Event → Option String
  | .handed n asked _ => if n = node then some (o.getD asked) else o
  | .dropped n => if n = node then none else o

def opened (node : UInt64) (events : List Event) : Option String :=
  events.foldl (Event.next node) none

def Event.Follows (past : List Event) : Event → Prop
  | .handed node asked reached => reached = (opened node past).getD asked
  | .dropped _ => True

def Follow : List Event → List Event → Prop
  | _, [] => True
  | past, e :: rest => e.Follows past ∧ Follow (past ++ [e]) rest

def Kept (past : List Event) (c : Connections) : Prop :=
  ∀ node, (c.get? node).map Connection.address = opened node past

theorem opened_append_singleton (node : UInt64) (past : List Event) (e : Event) :
    opened node (past ++ [e]) = e.next node (opened node past) := by
  rw [opened, List.foldl_append]
  rfl

theorem follow_append (past events rest : List Event) :
    Follow past (events ++ rest) ↔ Follow past events ∧ Follow (past ++ events) rest := by
  induction events generalizing past with
  | nil => simp [Follow]
  | cons e events ih =>
    rw [List.cons_append, Follow, Follow, ih, List.append_assoc, and_assoc]
    rfl

section

variable {net : Network ω} {past : List Event} {c : Connections}

theorem kept_empty : Kept [] .empty :=
  fun _ => rfl

theorem Kept.evict (h : Kept past c) (node : UInt64) : Kept (past ++ [.dropped node]) (c.evict node) := by
  intro n
  rw [opened_append_singleton, Connections.evict, SortedMap.get?_erase, Event.next, ← h n]
  by_cases hn : n = node
  · rw [if_pos hn, if_pos hn.symm]
    rfl
  · rw [if_neg hn, if_neg (Ne.symm hn)]

theorem Kept.handed (h : Kept past c) {c' : Connections} {node : UInt64} {asked : String} {connection : Connection}
    (hreached : connection.address = (opened node past).getD asked)
    (hget : ∀ n, c'.get? n = if n = node then some connection else c.get? n) :
    Kept (past ++ [.handed node asked connection.address]) c' := by
  intro n
  rw [opened_append_singleton, Event.next, hget n]
  by_cases hn : n = node
  · rw [if_pos hn, if_pos hn.symm, Option.map_some, hreached, hn]
  · rw [if_neg hn, if_neg (Ne.symm hn), h n]

structure Continues (past events : List Event) (c : Connections) : Prop where
  follow : Follow past events
  kept : Kept (past ++ events) c

theorem Kept.continues (h : Kept past c) : Continues past [] c where
  follow := trivial
  kept := by rwa [List.append_nil]

theorem Kept.continues_evict (h : Kept past c) (node : UInt64) : Continues past [.dropped node] (c.evict node) where
  follow := ⟨trivial, trivial⟩
  kept := h.evict node

theorem Kept.continues_handed (h : Kept past c) {c' : Connections} {node : UInt64} {asked : String}
    {connection : Connection} (hreached : connection.address = (opened node past).getD asked)
    (hget : ∀ n, c'.get? n = if n = node then some connection else c.get? n) :
    Continues past [.handed node asked connection.address] c' where
  follow := ⟨hreached, trivial⟩
  kept := h.handed hreached hget

theorem Continues.append {c' : Connections} {events rest : List Event} (h : Continues past events c)
    (hrest : Continues (past ++ events) rest c') : Continues past (events ++ rest) c' where
  follow := (follow_append past events rest).mpr ⟨h.follow, hrest.follow⟩
  kept := by rw [← List.append_assoc]; exact hrest.kept

theorem connect_cases (h : Kept past c) (net : Network ω) (node : UInt64) (address : String) (w : ω) :
    (∃ fault w', c.connect net node address w = (.error fault, c, w') ∧ ∀ status, fault ≠ .network status) ∨
      ∃ connection c' w', c.connect net node address w = (.ok connection, c', w') ∧
        Continues past [.handed node address connection.address] c' := by
  have hnode := h node
  rw [connect]
  cases hget : c.get? node with
  | some connection =>
    rw [hget, Option.map_some] at hnode
    have hreached : connection.address = (opened node past).getD address := by rw [← hnode, Option.getD_some]
    refine .inr ⟨connection, c, w, rfl, h.continues_handed hreached fun n => ?_⟩
    split
    case isTrue hn => rw [hn, hget]
    case isFalse => rfl
  | none =>
    rw [hget, Option.map_none] at hnode
    simp only
    cases Address.check address with
    | error invalid => exact .inl ⟨_, w, rfl, fun status hne => by cases hne⟩
    | ok =>
      simp only
      rcases net.opens address w with ⟨text | _, w'⟩
      · exact .inl ⟨_, w', rfl, fun status hne => by cases hne⟩
      · have hreached : address = (opened node past).getD address := by rw [← hnode, Option.getD_none]
        exact .inr ⟨⟨address⟩, _, w', rfl,
          h.continues_handed hreached (SortedMap.get?_insert c node ⟨address⟩)⟩

theorem droppedByCall_of_ne {fault : Fault} (h : ∀ status, fault ≠ .network status) (node : UInt64) :
    droppedByCall (α := α) node (.error (.unreachable fault)) = [] := by
  cases fault with
  | network status => exact absurd rfl (h status)
  | _ => rfl

theorem droppedBySend_of_ne {fault : Fault} (h : ∀ status, fault ≠ .network status) (node : UInt64) :
    droppedBySend node (.error fault) = [] := by
  cases fault with
  | network status => exact absurd rfl (h status)
  | _ => rfl

theorem droppedByCall_ofStatus (h : Kept past c) (node : UInt64) (status : Status) :
    Continues past (droppedByCall (α := α) node (.error (.ofStatus status))) (c.afterCall node status) := by
  rw [CallFault.ofStatus, afterCall]
  cases status.code.isDisconnect with
  | true => exact h.continues_evict node
  | false => exact h.continues

theorem droppedBySend_ofReply (node leader : UInt64) (reply : ExecuteReply) :
    droppedBySend node (Forwarder.ofReply leader reply) = [] := by
  cases reply with
  | done result =>
    rw [Forwarder.ofReply]
    cases Json.decode Response result <;> rfl
  | refused reason hint =>
    rw [Forwarder.ofReply]
    split_ifs <;> rfl

theorem continues_call [Codec α] (h : Kept past c) (node : UInt64) (address : String)
    (request : String → Call ω Bytes) (w : ω) :
    Continues past ((Errand.call node address request).run α net c w).1
      ((Errand.call node address request).run α net c w).2.1 := by
  rw [Errand.run, call]
  obtain ⟨fault, w', hconnect, hfault⟩ | ⟨connection, c', w', hconnect, hc'⟩ := connect_cases h net node address w
  · rw [hconnect]
    change Continues past ([] ++ droppedByCall (α := α) node (.error (.unreachable fault))) c
    rw [droppedByCall_of_ne hfault]
    exact h.continues
  · rw [hconnect]
    simp only
    rcases request connection.address w' with ⟨status | answer, w''⟩
    · exact hc'.append (droppedByCall_ofStatus hc'.kept node status)
    · simp only
      cases Json.decode α answer with
      | error invalid => exact hc'.append hc'.kept.continues
      | ok value => exact hc'.append hc'.kept.continues

theorem continues_forward [Codec α] (h : Kept past c) (f : Forwarder) (leader : UInt64) (address : String)
    (command : Command) (w : ω) :
    Continues past ((Errand.forward f leader address command).run α net c w).1
      ((Errand.forward f leader address command).run α net c w).2.1 := by
  rw [Errand.run, Forwarder.send]
  obtain ⟨fault, w', hconnect, hfault⟩ | ⟨connection, c', w', hconnect, hc'⟩ := connect_cases h net leader address w
  · simp only [hconnect, droppedBySend_of_ne hfault]
    exact h.continues
  · simp only [hconnect]
    rcases net.execute connection.address (Json.encode command) w' with ⟨status | reply, w''⟩
    · exact hc'.append (hc'.kept.continues_evict leader)
    · simp only [droppedBySend_ofReply]
      exact hc'.append hc'.kept.continues

theorem continues_run [Codec α] (h : Kept past c) (e : Errand ω) (w : ω) :
    Continues past (e.run α net c w).1 (e.run α net c w).2.1 := by
  cases e with
  | connect node address =>
    rw [Errand.run]
    rcases connect_cases h net node address w with ⟨fault, w', hconnect, -⟩ | ⟨connection, c', w', hconnect, hc'⟩
    · rw [hconnect]
      exact h.continues
    · rw [hconnect]
      exact hc'
  | evict node => exact h.continues_evict node
  | call node address request => exact continues_call h node address request w
  | forward f leader address command => exact continues_forward h f leader address command w

theorem follow_trace [Codec α] (h : Kept past c) (errands : List (Errand ω)) (w : ω) :
    Follow past (trace α net errands c w) := by
  induction errands generalizing past c w with
  | nil => trivial
  | cons e rest ih =>
    have hrun : Continues past (e.run α net c w).1 (e.run α net c w).2.1 := continues_run h e w
    exact (follow_append past _ _).mpr ⟨hrun.follow, ih hrun.kept _⟩

end

def Straight (events : List Event) : Prop :=
  ∀ node asked reached, .handed node asked reached ∈ events → reached = asked

def Steady (events : List Event) : Prop :=
  ∀ node first reached between again reached' before after,
    events = before ++ .handed node first reached :: between ++ .handed node again reached' :: after →
      .dropped node ∉ between → again = first

theorem foldl_next_some {node : UInt64} {events : List Event} (h : .dropped node ∉ events) (address : String) :
    events.foldl (Event.next node) (some address) = some address := by
  induction events with
  | nil => rfl
  | cons e rest ih =>
    rw [List.mem_cons, not_or] at h
    have hnext : e.next node (some address) = some address := by
      cases e with
      | handed n asked reached =>
        rw [Event.next]
        split <;> rfl
      | dropped n => exact if_neg fun hn => h.1 (congrArg Event.dropped hn.symm)
    rw [List.foldl_cons, hnext, ih h.2]

theorem opened_after_handed {node : UInt64} {between : List Event} (h : .dropped node ∉ between) (before : List Event)
    (asked reached : String) :
    opened node (before ++ .handed node asked reached :: between) = some ((opened node before).getD asked) := by
  rw [opened, List.foldl_append, List.foldl_cons, Event.next, if_pos rfl]
  exact foldl_next_some h _

theorem exists_handed_of_opened {node : UInt64} {address : String} (events : List Event)
    (h : opened node events = some address) : ∃ before reached between,
      events = before ++ .handed node address reached :: between ∧ .dropped node ∉ between := by
  induction events using List.reverseRecOn with
  | nil => cases h
  | append_singleton events e ih =>
    -- what is kept already has been opened by an earlier event, which the last one leaves
    have hearlier : opened node events = some address → .dropped node ≠ e → ∃ before reached between,
        events ++ [e] = before ++ .handed node address reached :: between ∧ .dropped node ∉ between := by
      intro ho he
      obtain ⟨before, reached, between, rfl, hbetween⟩ := ih ho
      refine ⟨before, reached, between ++ [e], by simp, ?_⟩
      rw [List.mem_append, List.mem_singleton, not_or]
      exact ⟨hbetween, he⟩
    rw [opened_append_singleton] at h
    cases e with
    | handed n asked reached =>
      rw [Event.next] at h
      split at h
      case isTrue hn =>
        subst hn
        cases ho : opened n events with
        | none =>
          rw [ho] at h
          cases h
          exact ⟨events, reached, [], rfl, List.not_mem_nil⟩
        | some earlier =>
          rw [ho] at h
          exact hearlier (ho.trans h) nofun
      case isFalse => exact hearlier h nofun
    | dropped n =>
      rw [Event.next] at h
      split at h
      case isTrue => cases h
      case isFalse hn => exact hearlier h fun he => hn (Event.dropped.inj he).symm

theorem Follow.handed {events : List Event} (h : Follow [] events) {before after : List Event} {node : UInt64}
    {asked reached : String} (hevents : events = before ++ .handed node asked reached :: after) :
    reached = (opened node before).getD asked := by
  rw [hevents, follow_append] at h
  exact h.2.1

theorem Follow.straight_iff {events : List Event} (h : Follow [] events) : Straight events ↔ Steady events := by
  constructor
  · intro hstraight node first reached between again reached' before after hevents hbetween
    have hagain := h.handed hevents
    rw [opened_after_handed hbetween, Option.getD_some] at hagain
    have hfirst : reached = first := hstraight node first reached (by simp [hevents])
    have hlast : reached' = again := hstraight node again reached' (by simp [hevents])
    have hsplit : events = before ++ .handed node first reached :: (between ++ .handed node again reached' :: after) := by
      simp [hevents]
    rw [← hlast, hagain, ← h.handed hsplit, hfirst]
  · intro hsteady node asked reached hmem
    obtain ⟨before, after, hevents⟩ := List.append_of_mem hmem
    have hreached := h.handed hevents
    cases ho : opened node before with
    | none => rw [hreached, ho, Option.getD_none]
    | some first =>
      obtain ⟨earlier, _, between, rfl, hbetween⟩ := exists_handed_of_opened before ho
      rw [hreached, ho, Option.getD_some]
      exact (hsteady node first _ between asked reached earlier after hevents hbetween).symm

/-- Whatever is done with connections, one that is handed out leads to where its node was said to be when the
connection was opened. So all of them lead to where they should exactly if no node is said to be elsewhere before its
connection is dropped. -/
theorem straight_iff_steady (α : Type) [Codec α] (net : Network ω) (errands : List (Errand ω)) (w : ω) :
    (∀ before node asked reached after,
      trace α net errands .empty w = before ++ .handed node asked reached :: after →
        reached = (opened node before).getD asked) ∧
      (Straight (trace α net errands .empty w) ↔ Steady (trace α net errands .empty w)) := by
  have hfollow : Follow [] (trace α net errands .empty w) := follow_trace kept_empty errands w
  exact ⟨fun before node asked reached after hevents => hfollow.handed hevents, hfollow.straight_iff⟩

def recording : Network (List String) :=
  { Network.isolated (List String) with
    opens := fun _ w => (.ok (), w)
    execute := fun address _ w => (.ok (.refused "not initialized" ⟨0, ""⟩), w ++ [address]) }

def sender : Forwarder :=
  .ofSettings .standard

def moved : List (Errand (List String)) :=
  [.forward sender 2 "a:1" .size, .forward sender 2 "b:1" .size]

theorem moved_node_is_sent_to_where_it_was :
    trace Response recording moved .empty [] = [.handed 2 "a:1" "a:1", .handed 2 "b:1" "a:1"] ∧
      ¬Straight (trace Response recording moved .empty []) ∧
      let first := sender.send recording 2 "a:1" .size []
      (first.2.1.send recording 2 "b:1" .size first.2.2).2.2 = ["a:1", "a:1"] := by
  have htrace : trace Response recording moved .empty [] = [.handed 2 "a:1" "a:1", .handed 2 "b:1" "a:1"] := by
    decide +kernel
  refine ⟨htrace, ?_, by decide +kernel⟩
  intro hstraight
  rw [htrace] at hstraight
  exact absurd (hstraight 2 "b:1" "a:1" (by simp)) (by decide)

end Uniqueness.Cluster.Connections
