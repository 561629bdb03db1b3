import Uniqueness.Proofs.StoreContents

/-!
A store is an ordered map of records beside a map of notes. Whatever is called for, with cursors that stay
open between other calls, the answers are those of two maps that know no keys of bytes and no JSON.
-/

namespace Uniqueness.Store

inductive Call (ε : Type) where
  | get (r : StateRef)
  | putAllIfAbsent (entries : History)
  | putAll (es : List Entry)
  | size
  | iterate
  | next (cursor : Nat)
  | clear
  | replaceAll (items : List (Except ε Entry))
  | readNote (name : String)
  | writeNote (name : String) (value : Bytes)
  | reopen

inductive Answer (ε : Type) where
  | done
  | record (found : Option Consumption)
  | present (records : History)
  | count (n : Nat)
  | item (e : Option Entry)
  | replaced (outcome : Except ε Nat)
  | note (value : Option Bytes)

variable {ε : Type}

namespace Call

def onNotes : Call ε → Bool
  | .readNote _ => true
  | .writeNote _ _ => true
  | _ => false

def closes : Call ε → Bool
  | .reopen => true
  | _ => false

def isNext (cursor : Nat) : Call ε → Bool
  | .next i => i == cursor
  | _ => false

end Call

structure Session where
  store : Store
  cursors : List Cursor

namespace Session

def empty : Session :=
  ⟨.empty, []⟩

def step (s : Session) : Call ε → Except Fault (Answer ε × Session)
  | .get r => do return (.record (← s.store.get r), s)
  | .putAllIfAbsent entries => do
    let (present, store) ← s.store.putAllIfAbsent entries
    return (.present present, { s with store })
  | .putAll es => .ok (.done, { s with store := s.store.putAll es })
  | .size => .ok (.count s.store.size, s)
  | .iterate => .ok (.done, { s with cursors := s.cursors ++ [s.store.cursor] })
  | .next i => match s.cursors[i]? with
    | none => .ok (.item none, s)
    | some cursor => match cursor.next with
      | (none, rest) => .ok (.item none, { s with cursors := s.cursors.set i rest })
      | (some (.ok e), rest) => .ok (.item (some e), { s with cursors := s.cursors.set i rest })
      | (some (.error fault), _) => .error fault
  | .clear => .ok (.done, { s with store := s.store.clear })
  | .replaceAll items => match s.store.replaceAll items with
    | .ok (count, store) => .ok (.replaced (.ok count), { s with store })
    | .error e => .ok (.replaced (.error e), s)
  | .readNote name => .ok (.note (s.store.readNote name), s)
  | .writeNote name value => .ok (.done, { s with store := s.store.writeNote name value })
  | .reopen => .ok (.done, { s with cursors := [] })

def run (s : Session) : List (Call ε) → Except Fault (List (Answer ε) × Session)
  | [] => .ok ([], s)
  | call :: calls => do
    let (answer, s) ← s.step call
    let (answers, s) ← s.run calls
    return (answer :: answers, s)

end Session

def given (cursor : Nat) (calls : List (Call ε)) (answers : List (Answer ε)) : List (Answer ε) :=
  (((calls.zip answers).takeWhile fun p => !p.1.closes).filter fun p => p.1.isNext cursor).map (·.2)

section

variable {cursor : Nat} {call : Call ε} {calls : List (Call ε)} {answer : Answer ε} {answers : List (Answer ε)}

theorem given_closed (h : call.closes = true) : given cursor (call :: calls) (answer :: answers) = [] := by
  rw [given, List.zip_cons_cons, List.takeWhile_cons_of_neg (by simp [h])]
  rfl

theorem given_cons (h : call.closes = false) : given cursor (call :: calls) (answer :: answers) =
    if call.isNext cursor then answer :: given cursor calls answers else given cursor calls answers := by
  rw [given, List.zip_cons_cons, List.takeWhile_cons_of_pos (by simp [h]), List.filter_cons]
  split
  case isTrue => rfl
  case isFalse => rfl

end

structure Catalog where
  records : History
  notes : SortedMap String Bytes
  readings : List (List Entry)

namespace Catalog

def empty : Catalog :=
  ⟨.empty, .empty, []⟩

def step (c : Catalog) : Call ε → Answer ε × Catalog
  | .get r => (.record (c.records.get? r), c)
  | .putAllIfAbsent entries =>
    let present := c.records.filter fun r => r ∈ entries.keys
    (.present present, if present.isEmpty then { c with records := c.records.insertAll entries.entries } else c)
  | .putAll es => (.done, { c with records := c.records.insertAll es })
  | .size => (.count c.records.size, c)
  | .iterate => (.done, { c with readings := c.readings ++ [c.records.entries] })
  | .next i => match c.readings[i]? with
    | none => (.item none, c)
    | some rest => (.item rest.head?, { c with readings := c.readings.set i rest.tail })
  | .clear => (.done, { c with records := .empty })
  | .replaceAll items => match items.mapM id with
    | .ok es => (.replaced (.ok es.length), { c with records := .ofList es })
    | .error e => (.replaced (.error e), c)
  | .readNote name => (.note (c.notes.get? name), c)
  | .writeNote name value => (.done, { c with notes := c.notes.insert name value })
  | .reopen => (.done, { c with readings := [] })

def run (c : Catalog) : List (Call ε) → List (Answer ε) × Catalog
  | [] => ([], c)
  | call :: calls =>
    let (answer, c) := c.step call
    let (answers, c) := c.run calls
    (answer :: answers, c)

def place (e : Entry) : Bytes × Bytes :=
  (e.1.key, Json.encode e.2)

def session (c : Catalog) : Session :=
  ⟨⟨tableOf c.records, c.notes⟩, c.readings.map (·.map place)⟩

theorem next_places (es : List Entry) :
    Cursor.next (es.map place) = (es.head?.map .ok, es.tail.map place) := by
  cases es with
  | nil => rfl
  | cons e es =>
    rw [List.map_cons, Cursor.next, place, decodeEntry_key, List.head?_cons, List.tail_cons, Option.map_some]

theorem holds_session (c : Catalog) : c.session.store.Holds c.records :=
  rfl

theorem session_insertAll (c : Catalog) (es : List Entry) :
    Catalog.session { c with records := c.records.insertAll es } =
      { c.session with store := c.session.store.putAll es } := by
  rw [session, ← c.holds_session.putAll es]
  rfl

theorem step_session (c : Catalog) (call : Call ε) :
    c.session.step call = .ok ((c.step call).1, (c.step call).2.session) := by
  have hc := c.holds_session
  cases call with
  | get r =>
    rw [Session.step, hc.get, ok_bind]
    rfl
  | putAllIfAbsent entries =>
    simp only [Session.step, hc.putAllIfAbsent, ok_bind, pure_eq_ok, Catalog.step]
    split
    case isTrue => rw [session_insertAll]
    case isFalse => rfl
  | putAll es => rw [Session.step, Catalog.step, session_insertAll]
  | size =>
    rw [Session.step, hc.size]
    rfl
  | iterate =>
    rw [Session.step, Catalog.step, session, session, List.map_append, List.map_singleton]
    rfl
  | next i =>
    have hcursor : c.session.cursors[i]? = c.readings[i]?.map (·.map place) := List.getElem?_map
    rw [Session.step, Catalog.step, hcursor]
    cases c.readings[i]? with
    | none => rfl
    | some rest =>
      have hset : (c.readings.set i rest.tail).map (·.map place) = c.session.cursors.set i (rest.tail.map place) :=
        List.map_set
      simp only [Option.map_some, next_places, session, hset]
      cases rest with
      | nil => rfl
      | cons e rest => rfl
  | clear => rfl
  | replaceAll items =>
    rw [Session.step, replaceAll_eq, Catalog.step]
    cases items.mapM id with
    | error fault => rfl
    | ok es => rfl
  | readNote name => rfl
  | writeNote name value => rfl
  | reopen => rfl

theorem run_session (c : Catalog) (calls : List (Call ε)) :
    c.session.run calls = .ok ((c.run calls).1, (c.run calls).2.session) := by
  induction calls generalizing c with
  | nil => rfl
  | cons call calls ih =>
    simp only [Session.run, step_session, ok_bind, ih, pure_eq_ok]
    rfl

theorem run_append (c : Catalog) (calls after : List (Call ε)) : c.run (calls ++ after) =
    ((c.run calls).1 ++ ((c.run calls).2.run after).1, ((c.run calls).2.run after).2) := by
  induction calls generalizing c with
  | nil => rfl
  | cons call calls ih => simp only [List.cons_append, run, ih]

theorem step_frame (c : Catalog) (call : Call ε) :
    if call.onNotes then (c.step call).2.records = c.records else (c.step call).2.notes = c.notes := by
  cases call with
  | putAllIfAbsent entries =>
    change (c.step (.putAllIfAbsent entries)).2.notes = c.notes
    rw [step]
    split
    case isTrue => rfl
    case isFalse => rfl
  | next i =>
    change (c.step (.next i)).2.notes = c.notes
    rw [step]
    cases c.readings[i]? with
    | none => rfl
    | some rest => rfl
  | replaceAll items =>
    change (c.step (.replaceAll items)).2.notes = c.notes
    rw [step]
    cases items.mapM id with
    | error e => rfl
    | ok es => rfl
  | get r => rfl
  | putAll es => rfl
  | size => rfl
  | iterate => rfl
  | clear => rfl
  | readNote name => rfl
  | writeNote name value => rfl
  | reopen => rfl

theorem readings_step {c : Catalog} {call : Call ε} {i : Nat} {rest : List Entry} (hi : c.readings[i]? = some rest)
    (hopen : call.closes = false) :
    (c.step call).2.readings[i]? = some (if call.isNext i then rest.tail else rest) := by
  cases call with
  | iterate =>
    have hlt : i < c.readings.length := (List.getElem?_eq_some_iff.mp hi).1
    exact (List.getElem?_append_left hlt).trans hi
  | next j =>
    rw [step, Call.isNext]
    by_cases hj : j = i
    · subst hj
      rw [hi, if_pos (beq_self_eq_true j)]
      exact List.getElem?_set_self (List.getElem?_eq_some_iff.mp hi).1
    · rw [if_neg (mt beq_iff_eq.mp hj)]
      cases c.readings[j]? with
      | none => exact hi
      | some other => exact (List.getElem?_set_ne hj).trans hi
  | putAllIfAbsent entries =>
    change (c.step (.putAllIfAbsent entries)).2.readings[i]? = some rest
    rw [step]
    split
    case isTrue => exact hi
    case isFalse => exact hi
  | replaceAll items =>
    change (c.step (.replaceAll items)).2.readings[i]? = some rest
    rw [step]
    cases items.mapM id with
    | error e => exact hi
    | ok es => exact hi
  | reopen => cases hopen
  | get r => exact hi
  | putAll es => exact hi
  | size => exact hi
  | clear => exact hi
  | readNote name => exact hi
  | writeNote name value => exact hi

theorem step_next {c : Catalog} {call : Call ε} {i : Nat} {rest : List Entry} (hi : c.readings[i]? = some rest)
    (hnext : call.isNext i = true) : (c.step call).1 = .item rest.head? := by
  cases call with
  | next j =>
    obtain rfl : j = i := beq_iff_eq.mp hnext
    rw [step, hi]
  | _ => cases hnext

theorem given_run {c : Catalog} {i : Nat} {rest : List Entry} (hi : c.readings[i]? = some rest)
    (calls : List (Call ε)) : ∃ k, given i calls (c.run calls).1 = (List.range k).map fun n => .item rest[n]? := by
  induction calls generalizing c rest with
  | nil => exact ⟨0, rfl⟩
  | cons call calls ih =>
    cases hcloses : call.closes with
    | true => exact ⟨0, given_closed hcloses⟩
    | false =>
      -- the call takes the first of what is still to be read, or nothing
      obtain ⟨k, hk⟩ := ih (readings_step hi hcloses)
      rw [run, given_cons hcloses, hk]
      cases hnext : call.isNext i with
      | true =>
        refine ⟨k + 1, ?_⟩
        rw [if_pos rfl, step_next hi hnext, List.range_succ_eq_map, List.map_cons, List.map_map, List.head?_eq_getElem?]
        simp only [if_true, List.getElem?_tail]
        rfl
      | false => exact ⟨k, by simp only [Bool.false_eq_true, if_false]⟩

end Catalog

open Catalog (step_session run_session run_append step_frame given_run)

/-- What is read through a cursor is what was there when it was opened, whatever is written afterwards. -/
theorem refines_ordered_map (calls : List (Call ε)) :
    let answers := (Catalog.empty.run calls).1
    let c := (Catalog.empty.run calls).2
    ∃ s, Session.empty.run calls = .ok (answers, s) ∧
      s.store.entries = .ok c.records.entries ∧ s.store.notes = c.notes ∧ Increasing c.records.entries ∧
      (∀ call : Call ε, ∃ answer s', s.step call = .ok (answer, s') ∧
        if call.onNotes then s'.store.table = s.store.table else s'.store.notes = s.store.notes) ∧
      ∀ after : List (Call ε), ∃ later s' k,
        Session.empty.run (calls ++ .iterate :: after) = .ok (answers ++ .done :: later, s') ∧
        given s.cursors.length after later = (List.range k).map fun n => .item c.records.entries[n]? := by
  intro answers c
  refine ⟨c.session, run_session .empty calls, c.holds_session.entries, rfl, c.records.increasing, ?_, ?_⟩
  · intro call
    refine ⟨_, _, step_session c call, ?_⟩
    have hframe := step_frame c call
    split at hframe
    case isTrue hnotes =>
      rw [if_pos hnotes]
      exact congrArg tableOf hframe
    case isFalse hnotes =>
      rw [if_neg hnotes]
      exact hframe
  · intro after
    let opened := (c.step (.iterate (ε := ε))).2
    have hreading : opened.readings[c.readings.length]? = some c.records.entries := List.getElem?_concat_length
    have hcursor : c.session.cursors.length = c.readings.length := List.length_map _
    obtain ⟨k, hk⟩ := given_run hreading after
    refine ⟨(opened.run after).1, (opened.run after).2.session, k, ?_, hcursor ▸ hk⟩
    have hrun := run_session .empty (calls ++ .iterate :: after)
    rw [run_append] at hrun
    exact hrun

def readAfterClear : List (Call Fault) :=
  [.putAll [default], .iterate, .replaceAll [.ok default, .error .unusable], .clear, .size, .next 0, .next 0]

theorem reading_outlives_clear : ∃ s, Session.empty.run readAfterClear =
    .ok ([.done, .done, .replaced (.error .unusable), .done, .count 0, .item (some default), .item none], s) := by
  obtain ⟨s, hrun, -⟩ := refines_ordered_map readAfterClear
  exact ⟨s, hrun⟩

end Uniqueness.Store
