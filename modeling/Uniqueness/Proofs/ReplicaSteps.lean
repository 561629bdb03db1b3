import Uniqueness.Proofs.LogReplay

namespace Uniqueness

namespace History

def replyTo (h : History) (e : Log.Entry) : Response :=
  match e.payload with
  | .command c => h.reply c
  | _ => .noop

def repliesTo (h : History) : List Log.Entry → List Response
  | [] => []
  | e :: rest => h.replyTo e :: repliesTo (h.after e) rest

end History

namespace Replica

variable {r : Replica} {h : History}

def advanced (r : Replica) (h : History) (es : List Log.Entry) : Replica :=
  { r with machine := r.machine.holding (h.afterAll es), applied := r.applied.advanceAll es }

theorem applyEntry_eq (hr : r.machine.store.Holds h) (e : Log.Entry) :
    r.applyEntry e = .ok (h.replyTo e, r.advanced h [e]) := by
  cases hp : e.payload with
  | blank =>
    simp only [applyEntry, hp, History.replyTo, advanced, History.afterAll, List.foldl_cons, List.foldl_nil,
      History.after, Machine.holding_self hr, Applied.advanceAll, Applied.advance]
  | command c =>
    simp only [applyEntry, hp, Machine.apply_eq hr, History.replyTo, advanced, History.afterAll,
      List.foldl_cons, List.foldl_nil, History.after, Applied.advanceAll, Applied.advance]
  | membership m =>
    simp only [applyEntry, hp, History.replyTo, advanced, History.afterAll, List.foldl_cons, List.foldl_nil,
      History.after, Machine.holding_self hr, Applied.advanceAll, Applied.advance]

theorem advanced_nil (hr : r.machine.store.Holds h) : r.advanced h [] = r := by
  simp only [advanced, History.afterAll, List.foldl_nil, Machine.holding_self hr, Applied.advanceAll]

theorem applyAll_eq (hr : r.machine.store.Holds h) (es : List Log.Entry) :
    r.applyAll es = (.ok (h.repliesTo es), r.advanced h es) := by
  induction es generalizing r h with
  | nil => rw [applyAll, History.repliesTo, advanced_nil hr]
  | cons e es ih =>
    have he : (r.advanced h [e]).machine.store.Holds (h.after e) := rfl
    rw [applyAll, applyEntry_eq hr]
    simp only [ih he]
    rfl

theorem apply_eq (hr : r.machine.store.Holds h) (es : List Log.Entry) :
    r.apply es =
      (.ok (h.repliesTo es), if es.isEmpty then r.advanced h es else (r.advanced h es).persist) := by
  rw [apply, applyAll_eq hr]

theorem appliedOf_persist (r : Replica) : appliedOf r.persist.machine.store = .ok r.applied := by
  rw [persist, appliedOf, Store.readNote_writeNote]
  exact Json.decode_encode r.applied

theorem ofDisk_eq {s : Store} {a : Applied} (ha : appliedOf s = .ok a) (folder : Archive.Folder) :
    ofDisk s folder = .ok ⟨.ofStore s, a, .ofFolder folder⟩ := by
  rw [ofDisk, ha, ok_bind, pure_eq_ok]

def fresh (folder : Archive.Folder) : Replica :=
  ⟨.empty, .start, .ofFolder folder⟩

theorem holds_fresh (folder : Archive.Folder) : (fresh folder).machine.store.Holds .empty :=
  rfl

structure Covers (log : Log.Committed) (a p : Nat) (s : Store) : Prop where
  reached : a ≤ p
  holds : s.Holds (log.records p)
  noted : appliedOf s = .ok (log.position a)

structure Follows (log : Log.Committed) (a p : Nat) (r : Replica) : Prop where
  covers : Covers log a p r.machine.store
  applied : r.applied = log.position a

variable {log : Log.Committed} {a p : Nat} {s : Store}

theorem Covers.within (hs : Covers log a p s) :
    Covers log (min a log.entries.length) (min p log.entries.length) s where
  reached := by
    have := hs.reached
    omega
  holds := by
    rw [Log.Committed.records, log.take_min]
    exact hs.holds
  noted := by
    rw [Log.Committed.position, log.take_min]
    exact hs.noted

theorem Covers.opened (hs : Covers log a p s) (folder : Archive.Folder) :
    ∃ r, ofDisk s folder = .ok r ∧ Follows log a p r :=
  ⟨_, ofDisk_eq hs.noted folder, hs, rfl⟩

namespace Follows

theorem fresh (log : Log.Committed) (folder : Archive.Folder) : Follows log 0 0 (fresh folder) where
  covers := ⟨Nat.le_refl 0, rfl, rfl⟩
  applied := rfl

theorem holds (hr : Follows log a p r) : r.machine.store.Holds (log.records p) :=
  hr.covers.holds

theorem noted (hr : Follows log a p r) : appliedOf r.machine.store = .ok r.applied := by
  rw [hr.applied, hr.covers.noted]

theorem pending (hr : Follows log a p r) : log.pending r.applied.last = log.entries.drop a := by
  rw [hr.applied, log.pending_position]

theorem holds_advanced (hr : Follows log a p r) (n : Nat) :
    (r.advanced (log.records p) ((log.pending r.applied.last).take n)).machine.store.Holds
      (log.records (max p (a + n))) := by
  rw [hr.pending, ← log.records_redelivered hr.covers.reached n]
  rfl

theorem applied_advanced (hr : Follows log a p r) (n : Nat) :
    (r.advanced (log.records p) ((log.pending r.applied.last).take n)).applied = log.position (a + n) := by
  rw [hr.pending, ← log.position_add a n, ← hr.applied]
  rfl

theorem apply (hr : Follows log a p r) (n : Nat) : ∃ responses r',
    r.apply ((log.pending r.applied.last).take n) = (.ok responses, r') ∧
      Follows log (a + n) (max p (a + n)) r' := by
  have hholds := hr.holds_advanced n
  have happlied := hr.applied_advanced n
  have hreached : a + n ≤ max p (a + n) := Nat.le_max_right _ _
  refine ⟨_, _, apply_eq hr.holds _, ?_⟩
  split
  case isTrue he =>
    refine ⟨⟨hreached, hholds, ?_⟩, happlied⟩
    rw [← happlied, List.isEmpty_iff.mp he, advanced_nil hr.holds, hr.noted]
  case isFalse =>
    refine ⟨⟨hreached, hholds.writeNote _ _, ?_⟩, happlied⟩
    rw [appliedOf_persist, happlied]

theorem halted (hr : Follows log a p r) (n j : Nat) :
    Covers log a (max p (a + min j n))
      (r.applyAll (((log.pending r.applied.last).take n).take j)).2.machine.store := by
  have hreached : a ≤ max p (a + min j n) := Nat.le_trans hr.covers.reached (Nat.le_max_left _ _)
  have hholds := hr.holds_advanced (min j n)
  rw [List.take_take, applyAll_eq hr.holds]
  exact ⟨hreached, hholds, hr.covers.noted⟩

end Follows

end Replica

end Uniqueness
