import Uniqueness.Proofs.Bootstrap

/-!
How long a replica refuses queries. An installation that fails leaves a mark that no entry, snapshot or
query takes away. The mark is kept in memory only, so a replica that is opened again has lost it.
-/

namespace Uniqueness.Replica

open Archive (Meta)

inductive Act where
  | apply (batch : List Log.Entry)
  | build
  | install (about : Meta) (stream : Bytes)
  | query (command : Command)
  | reopen

inductive Outcome where
  | applied (result : Except Storage.Fault (List Response))
  | built (result : Except Storage.Fault (Meta × Bytes))
  | installed (result : Except Storage.Fault Unit)
  | answered (result : Except Machine.Fault Response)
  | opened

def act (r : Replica) : Act → Except Fault (Outcome × Replica)
  | .apply batch => .ok (.applied (r.apply batch).1, (r.apply batch).2)
  | .build => .ok (.built r.build.1, r.build.2)
  | .install about stream =>
    .ok (.installed ((r.receive stream).install about).1, ((r.receive stream).install about).2)
  | .query command => .ok (.answered (r.machine.query command), r)
  | .reopen => r.reopen.map fun r => (.opened, r)

def run (r : Replica) : List Act → Except Fault (List Outcome × Replica)
  | [] => .ok ([], r)
  | x :: acts => do
    let (outcome, r) ← r.act x
    let (outcomes, r) ← r.run acts
    return (outcome :: outcomes, r)

def Reopened (acts : List Act) : Prop :=
  ∃ front back, acts = front ++ .reopen :: back ∧ ∀ about stream, .install about stream ∉ back

def Act.mark (marked : Bool) : Act → Bool
  | .install _ _ => true
  | .reopen => false
  | _ => marked

theorem reopened_concat_iff {acts : List Act} {x : Act} : Reopened (acts ++ [x]) ↔
    x = .reopen ∨ Reopened acts ∧ ∀ about stream, x ≠ .install about stream := by
  constructor
  · rintro ⟨front, back, h, hnone⟩
    rcases List.eq_nil_or_concat' back with rfl | ⟨back, y, rfl⟩
    · exact .inl (List.singleton_inj.mp (List.append_inj' h rfl).2)
    · rw [← List.cons_append, ← List.append_assoc] at h
      obtain ⟨rfl, hy⟩ := List.append_inj' h rfl
      obtain rfl := List.singleton_inj.mp hy
      refine .inr ⟨⟨front, back, rfl, ?_⟩, ?_⟩
      · intro about stream hmem
        exact hnone about stream (List.mem_append_left _ hmem)
      · rintro about stream rfl
        exact hnone about stream (by simp)
  · rintro (rfl | ⟨⟨front, back, rfl, hnone⟩, hx⟩)
    · exact ⟨acts, [], rfl, nofun⟩
    · refine ⟨front, back ++ [x], by simp, ?_⟩
      intro about stream hmem
      rcases List.mem_append.mp hmem with hmem | hmem
      · exact hnone about stream hmem
      · exact hx about stream (List.mem_singleton.mp hmem).symm

theorem foldl_mark_iff (acts : List Act) : acts.foldl Act.mark true = false ↔ Reopened acts := by
  induction acts using List.reverseRecOn with
  | nil => simp [Reopened]
  | append_singleton acts x ih =>
    rw [List.foldl_concat, reopened_concat_iff, ← ih]
    cases x with
    | install about stream => simp [Act.mark]
    | _ => simp [Act.mark]

variable {r r' : Replica} {h : History} {a : Applied}

theorem act_build {result : Except Storage.Fault (Meta × Bytes)} (hb : r.build = (result, r')) :
    r.act .build = .ok (.built result, r') := by
  rw [act, hb]

theorem act_install {about : Meta} {stream : Bytes} {result : Except Storage.Fault Unit}
    (hi : (r.receive stream).install about = (result, r')) :
    r.act (.install about stream) = .ok (.installed result, r') := by
  rw [act, hi]

theorem act_query {command : Command} {result : Except Machine.Fault Response}
    (hq : r.machine.query command = result) : r.act (.query command) = .ok (.answered result, r) := by
  rw [act, hq]

theorem Stands.act_reopen (hr : Stands h a r) :
    r.act .reopen = .ok (.opened, ⟨.ofStore r.machine.store, a, .ofFolder r.archive.folder⟩) := by
  rw [Replica.act, Replica.reopen, ofDisk_eq hr.noted]
  rfl

theorem run_cons {x : Act} {acts : List Act} {outcome : Outcome} {outcomes : List Outcome} {r'' : Replica}
    (hact : r.act x = .ok (outcome, r')) (hrun : r'.run acts = .ok (outcomes, r'')) :
    r.run (x :: acts) = .ok (outcome :: outcomes, r'') := by
  rw [run, hact, ok_bind]
  simp only [hrun, ok_bind, pure_eq_ok]

theorem Stands.act (hr : Stands h a r) (x : Act) : ∃ outcome r' h' a', r.act x = .ok (outcome, r') ∧
    Stands h' a' r' ∧
    (outcome ≠ .installed (.ok ()) → r'.machine.needsResync = x.mark r.machine.needsResync) := by
  cases x with
  | apply batch =>
    obtain ⟨r', happly, hr', -⟩ := hr.apply batch
    have hkeeps := (r.apply_keeps batch).1
    rw [happly] at hkeeps
    exact ⟨_, r', _, _, by rw [Replica.act, happly], hr', fun _ => hkeeps⟩
  | build =>
    obtain ⟨result, archive, hbuild⟩ := build_eq hr.holds
    exact ⟨_, _, h, a, act_build hbuild, ⟨hr.holds, hr.applied, hr.noted⟩, fun _ => rfl⟩
  | install about stream =>
    rcases install_cases (r.received_receive stream) about with ⟨es, -, hi⟩ | ⟨-, corruption, hi⟩
    · exact ⟨_, _, _, _, act_install hi, stands_installed _ es about, fun hne => absurd rfl hne⟩
    · exact ⟨_, _, h, a, act_install hi, ⟨hr.holds, hr.applied, hr.noted⟩, fun _ => rfl⟩
  | query command => exact ⟨_, r, h, a, act_query rfl, hr, fun _ => rfl⟩
  | reopen => exact ⟨_, _, h, a, hr.act_reopen, ⟨hr.holds, rfl, hr.noted⟩, fun _ => rfl⟩

theorem Stands.run (hr : Stands h a r) (acts : List Act) : ∃ outcomes r' h' a', r.run acts = .ok (outcomes, r') ∧
    Stands h' a' r' ∧
    (.installed (.ok ()) ∉ outcomes → r'.machine.needsResync = acts.foldl Act.mark r.machine.needsResync) := by
  induction acts generalizing r h a with
  | nil => exact ⟨[], r, h, a, rfl, hr, fun _ => rfl⟩
  | cons x acts ih =>
    obtain ⟨outcome, r₁, h₁, a₁, hact, hr₁, hmark⟩ := hr.act x
    obtain ⟨outcomes, r', h', a', hrun, hr', hmarks⟩ := ih hr₁
    refine ⟨outcome :: outcomes, r', h', a', run_cons hact hrun, hr', ?_⟩
    intro hnone
    rw [List.mem_cons, not_or] at hnone
    rw [hmarks hnone.2, hmark (Ne.symm hnone.1), List.foldl_cons]

/-- After an installation that failed, and until one succeeds, a replica answers a query exactly if it has been
opened again and no other installation has failed since. -/
theorem refuses_until_reopened (folder : Archive.Folder) (before : List Act) : ∃ outcomes r,
    (fresh folder).run before = .ok (outcomes, r) ∧ ∀ about stream fault r₁,
      r.act (.install about stream) = .ok (.installed (.error fault), r₁) → ∀ between, ∃ outcomes' r₂,
        r₁.run between = .ok (outcomes', r₂) ∧ (.installed (.ok ()) ∉ outcomes' →
          ∀ command, command.isReadOnly = true →
            (Reopened between → ∃ response, r₂.machine.query command = .ok response) ∧
            (¬Reopened between → r₂.machine.query command = .error .needsResync)) := by
  obtain ⟨outcomes, r, h, a, hrun, hr, -⟩ := (Stands.fresh folder).run before
  refine ⟨outcomes, r, hrun, ?_⟩
  intro about stream fault r₁ hfail between
  obtain ⟨outcome, r₁', h₁, a₁, hact, hr₁, hmark⟩ := hr.act (.install about stream)
  rw [hfail] at hact
  cases hact
  obtain ⟨outcomes', r₂, h₂, a₂, hrun', hr₂, hmarks⟩ := hr₁.run between
  refine ⟨outcomes', r₂, hrun', ?_⟩
  intro hnone command hc
  have hresync := hmarks hnone
  rw [hmark nofun, Act.mark] at hresync
  constructor
  · intro hreopened
    rw [(foldl_mark_iff between).mpr hreopened] at hresync
    exact ⟨_, Machine.query_eq hr₂.holds hresync hc⟩
  · intro hnot
    rw [eq_true_of_ne_false (mt (foldl_mark_iff between).mp hnot)] at hresync
    exact Machine.query_needsResync hresync hc

theorem act_install_nothing (r : Replica) : r.act (.install default []) =
    .ok (.installed (.error ⟨.read, .snapshot, .snapshot (.corrupted .header)⟩),
      { r.receive [] with machine := r.machine.marked true }) := by
  apply act_install
  rw [install, received_receive]
  rfl

theorem run_claimed : ∃ r, Stands (History.afterAll .empty [claimed]) (Applied.start.advanceAll [claimed]) r ∧
    (fresh .empty).act (.apply [claimed]) = .ok (.applied (.ok [.committed]), r) := by
  obtain ⟨r, happly, hr, -⟩ := (Stands.fresh .empty).apply [claimed]
  have hreplies : History.repliesTo .empty [claimed] = [.committed] := by decide +kernel
  rw [hreplies] at happly
  exact ⟨r, hr, by rw [act, happly]⟩

theorem marked_replica_refuses : ∃ outcomes r fault r₁ outcomes' r₂,
    (fresh .empty).run [.apply [claimed]] = .ok (outcomes, r) ∧
    r.act (.install default []) = .ok (.installed (.error fault), r₁) ∧
    r₁.run [.query .size] = .ok (outcomes', r₂) ∧ r₂.machine.query .size = .error .needsResync := by
  obtain ⟨outcomes, r, hrun, hall⟩ := refuses_until_reopened .empty [.apply [claimed]]
  have hfail := r.act_install_nothing
  obtain ⟨outcomes', r₂, hrun', hquery⟩ := hall _ _ _ _ hfail [.query .size]
  refine ⟨outcomes, r, _, _, outcomes', r₂, hrun, hfail, hrun', ?_⟩
  cases hrun'
  have hnot : ¬Reopened [.query .size] := by
    rw [← foldl_mark_iff]
    decide
  exact (hquery (by simp) .size rfl).2 hnot

theorem reopened_replica_answers : ∃ r,
    (fresh .empty).run [.apply [claimed], .install default [], .query .size, .reopen, .query .size] =
      .ok ([.applied (.ok [.committed]), .installed (.error ⟨.read, .snapshot, .snapshot (.corrupted .header)⟩),
        .answered (.error .needsResync), .opened, .answered (.ok (.size 1))], r) := by
  obtain ⟨r, hr, happly⟩ := run_claimed
  have hmarked : Stands _ _ { r.receive [] with machine := r.machine.marked true } :=
    ⟨hr.holds, hr.applied, hr.noted⟩
  have hrefused : (r.machine.marked true).query .size = .error .needsResync := Machine.query_needsResync rfl rfl
  have hcounted : (Machine.ofStore r.machine.store).query .size = .ok (.size 1) := by
    rw [Machine.query_eq (m := .ofStore r.machine.store) hr.holds rfl rfl]
    decide +kernel
  exact ⟨_, run_cons happly (run_cons r.act_install_nothing (run_cons (act_query hrefused)
    (run_cons hmarked.act_reopen (run_cons (act_query hcounted) rfl))))⟩

end Uniqueness.Replica
