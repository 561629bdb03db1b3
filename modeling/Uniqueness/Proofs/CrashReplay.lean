import Uniqueness.Proofs.ReplicaSteps

/-!
A replica that stops in the middle of batches, or whose store fails there, is opened again and gets
the entries after the position that it has written. When it has got them all it is where it would be
had nothing happened.
-/

namespace Uniqueness.Replica

def callsStore : Command → Bool
  | .claim c => !c.inputs.isEmpty
  | _ => true

def applyEntryWith (flaw : Option Store.Fault) (r : Replica) (e : Log.Entry) :
    Except Storage.Fault (Response × Replica) :=
  match e.payload, flaw with
  | .command c, some fault =>
    if callsStore c then .error ⟨.write, .stateMachine, .machine (.store fault)⟩ else r.applyEntry e
  | _, _ => r.applyEntry e

def applyAllWith (flaws : Nat → Option Store.Fault) (i : Nat) (r : Replica) :
    List Log.Entry → Except Storage.Fault (List Response) × Replica
  | [] => (.ok [], r)
  | e :: rest => match r.applyEntryWith (flaws i) e with
    | .error fault => (.error fault, r)
    | .ok (response, r) => match r.applyAllWith flaws (i + 1) rest with
      | (.ok responses, r) => (.ok (response :: responses), r)
      | (.error fault, r) => (.error fault, r)

def applyWith (flaws : Nat → Option Store.Fault) (r : Replica) (batch : List Log.Entry) :
    Except Storage.Fault (List Response) × Replica :=
  match r.applyAllWith flaws 0 batch with
  | (.error fault, r) => (.error fault, r)
  | (.ok responses, r) =>
    if batch.isEmpty then (.ok responses, r)
    else match flaws batch.length with
      | some fault => (.error ⟨.write, .stateMachine, .store fault⟩, r)
      | none => (.ok responses, r.persist)

theorem applyEntryWith_none (r : Replica) (e : Log.Entry) : r.applyEntryWith none e = r.applyEntry e := by
  rw [applyEntryWith]
  nofun

theorem applyAllWith_none (r : Replica) (i : Nat) (es : List Log.Entry) :
    r.applyAllWith (fun _ => none) i es = r.applyAll es := by
  induction es generalizing r i with
  | nil => rfl
  | cons e es ih =>
    rw [applyAllWith, applyAll, applyEntryWith_none]
    cases r.applyEntry e with
    | error fault => rfl
    | ok found =>
      cases hrest : found.2.applyAll es with
      | mk result r' =>
        cases result with
        | error fault => simp only [ih, hrest]
        | ok responses => simp only [ih, hrest]

theorem applyWith_none (r : Replica) (batch : List Log.Entry) :
    r.applyWith (fun _ => none) batch = r.apply batch := by
  rw [applyWith, apply, applyAllWith_none]
  rcases r.applyAll batch with ⟨result, r'⟩
  cases result with
  | error fault => rfl
  | ok responses =>
    by_cases hb : batch.isEmpty = true
    · simp only [hb, if_true]
    · simp only [if_neg hb]

variable {r : Replica} {h : History}

theorem applyEntryWith_cases (hr : r.machine.store.Holds h) (flaw : Option Store.Fault) (e : Log.Entry) :
    r.applyEntryWith flaw e = .ok (h.replyTo e, r.advanced h [e]) ∨
      ∃ fault, r.applyEntryWith flaw e = .error fault := by
  rw [applyEntryWith.eq_def]
  split
  · split
    · exact .inr ⟨_, rfl⟩
    · exact .inl (applyEntry_eq hr e)
  · exact .inl (applyEntry_eq hr e)

theorem applyAllWith_cases (hr : r.machine.store.Holds h) (flaws : Nat → Option Store.Fault) (i : Nat)
    (es : List Log.Entry) : r.applyAllWith flaws i es = (.ok (h.repliesTo es), r.advanced h es) ∨
      ∃ j fault, r.applyAllWith flaws i es = (.error fault, r.advanced h (es.take j)) := by
  induction es generalizing r h i with
  | nil => exact .inl (by rw [applyAllWith, History.repliesTo, advanced_nil hr])
  | cons e es ih =>
    rw [applyAllWith]
    rcases applyEntryWith_cases hr (flaws i) e with he | ⟨fault, he⟩
    · have hnext : (r.advanced h [e]).machine.store.Holds (h.after e) := rfl
      rw [he]
      rcases ih hnext (i + 1) with hes | ⟨j, fault, hes⟩
      · exact .inl (by simp only [hes]; rfl)
      · exact .inr ⟨j + 1, fault, by simp only [hes]; rfl⟩
    · exact .inr ⟨0, fault, by rw [he, List.take_zero, advanced_nil hr]⟩

theorem applyWith_cases (hr : r.machine.store.Holds h) (flaws : Nat → Option Store.Fault)
    (batch : List Log.Entry) : r.applyWith flaws batch = r.apply batch ∨
      ∃ j fault, r.applyWith flaws batch = (.error fault, (r.applyAll (batch.take j)).2) := by
  rw [applyWith]
  rcases applyAllWith_cases hr flaws 0 batch with hes | ⟨j, fault, hes⟩
  · rw [hes, apply_eq hr]
    simp only
    split
    · exact .inl rfl
    · split
      case h_1 fault hf =>
        refine .inr ⟨batch.length, ⟨.write, .stateMachine, .store fault⟩, ?_⟩
        rw [List.take_length, applyAll_eq hr]
      case h_2 => exact .inl rfl
  · exact .inr ⟨j, fault, by rw [hes, applyAll_eq hr]⟩

inductive Delivery where
  | batch (n : Nat) (flaws : Nat → Option Store.Fault)
  | crash (n j : Nat)

def deliver (log : Log.Committed) (r : Replica) : Delivery → Except Fault Replica
  | .batch n flaws => match r.applyWith flaws ((log.pending r.applied.last).take n) with
    | (.ok _, r) => .ok r
    | (.error _, r) => r.reopen
  | .crash n j => (r.applyAll (((log.pending r.applied.last).take n).take j)).2.reopen

def deliverAll (log : Log.Committed) (r : Replica) : List Delivery → Except Fault Replica
  | [] => .ok r
  | d :: ds => do (← r.deliver log d).deliverAll log ds

variable {log : Log.Committed} {a p : Nat}

theorem Follows.deliver (hr : Follows log a p r) (d : Delivery) :
    ∃ a' p' r', r.deliver log d = .ok r' ∧ Follows log a' p' r' := by
  cases d with
  | crash n j =>
    obtain ⟨r', hopen, hr'⟩ := (hr.halted n j).opened (r.applyAll _).2.archive.folder
    exact ⟨_, _, r', hopen, hr'⟩
  | batch n flaws =>
    rw [Replica.deliver]
    rcases applyWith_cases hr.holds flaws ((log.pending r.applied.last).take n) with hw | ⟨j, fault, hw⟩
    · obtain ⟨responses, r', ha, hr'⟩ := hr.apply n
      rw [hw, ha]
      exact ⟨_, _, r', rfl, hr'⟩
    · obtain ⟨r', hopen, hr'⟩ := (hr.halted n j).opened (r.applyAll _).2.archive.folder
      rw [hw]
      exact ⟨_, _, r', hopen, hr'⟩

theorem Follows.deliverAll (hr : Follows log a p r) (ds : List Delivery) :
    ∃ a' p' r', r.deliverAll log ds = .ok r' ∧ Follows log a' p' r' := by
  induction ds generalizing a p r with
  | nil => exact ⟨a, p, r, rfl, hr⟩
  | cons d ds ih =>
    obtain ⟨a₁, p₁, r₁, hd, hr₁⟩ := hr.deliver d
    obtain ⟨a', p', r', hds, hr'⟩ := ih hr₁
    exact ⟨a', p', r', by rw [Replica.deliverAll, hd, ok_bind, hds], hr'⟩

def uninterrupted (folder : Archive.Folder) (es : List Log.Entry) : Replica :=
  ((fresh folder).apply es).2

theorem uninterrupted_eq (folder : Archive.Folder) (es : List Log.Entry) : uninterrupted folder es =
    if es.isEmpty then (fresh folder).advanced .empty es else ((fresh folder).advanced .empty es).persist := by
  rw [uninterrupted, apply_eq (holds_fresh folder)]

theorem table_uninterrupted (folder : Archive.Folder) (es : List Log.Entry) :
    (uninterrupted folder es).machine.store.table = Store.tableOf (History.afterAll .empty es) := by
  rw [uninterrupted_eq]
  split
  · rfl
  · rfl

theorem applied_uninterrupted (folder : Archive.Folder) (es : List Log.Entry) :
    (uninterrupted folder es).applied = Applied.start.advanceAll es := by
  rw [uninterrupted_eq]
  split
  · rfl
  · rfl

/-- Wherever a replica has been stopped, its records are those of a prefix of the log that reaches the
position it has written, and with the whole log delivered it is where one batch would have led. -/
theorem crash_replay_converges (log : Log.Committed) (folder : Archive.Folder) (deliveries : List Delivery) :
    ∃ r, (fresh folder).deliverAll log deliveries = .ok r ∧
      (∃ a p, a ≤ p ∧
        r.machine.store.table = (uninterrupted folder (log.entries.take p)).machine.store.table ∧
        r.applied = (uninterrupted folder (log.entries.take a)).applied ∧
        appliedOf r.machine.store = .ok r.applied) ∧
      (log.pending r.applied.last = [] →
        r.machine.store.table = (uninterrupted folder log.entries).machine.store.table ∧
        r.applied = (uninterrupted folder log.entries).applied ∧
        appliedOf r.machine.store = .ok (uninterrupted folder log.entries).applied) ∧
      (∃ responses, ((fresh folder).apply log.entries).1 = .ok responses) ∧
      ∃ r', r.deliver log (.batch log.entries.length fun _ => none) = .ok r' ∧
        log.pending r'.applied.last = [] := by
  obtain ⟨a, p, r, hd, hr⟩ := (Follows.fresh log folder).deliverAll deliveries
  refine ⟨r, hd, ⟨a, p, hr.covers.reached, ?_, ?_, hr.noted⟩, ?_, ?_, ?_⟩
  · rw [table_uninterrupted]
    exact hr.holds
  · rw [applied_uninterrupted]
    exact hr.applied
  · intro hnone
    -- nothing is left, so the position and the records are those of the whole log
    rw [hr.pending, List.drop_eq_nil_iff] at hnone
    have htake : ∀ n, log.entries.length ≤ n → log.entries.take n = log.entries := fun n => List.take_of_length_le
    have happlied : r.applied = Applied.start.advanceAll log.entries := by
      rw [hr.applied, Log.Committed.position, htake a hnone]
    refine ⟨?_, ?_, ?_⟩
    · rw [table_uninterrupted, hr.holds, Log.Committed.records, htake p (Nat.le_trans hnone hr.covers.reached)]
    · rw [applied_uninterrupted, happlied]
    · rw [applied_uninterrupted, hr.noted, happlied]
  · exact ⟨_, by rw [apply_eq (holds_fresh folder)]⟩
  · obtain ⟨responses, r', ha, hr'⟩ := hr.apply log.entries.length
    refine ⟨r', ?_, ?_⟩
    · rw [deliver, applyWith_none, ha]
    · rw [hr'.pending, List.drop_eq_nil_iff]
      omega

end Uniqueness.Replica
