import Uniqueness.Proofs.TornFolders
import Uniqueness.Replica

/-!
Snapshots of a process that may stop at any time: while it writes a file, between two steps of a commit,
or while an opening clears away what was left before. The next opening finds the snapshot of the last
commit, or of the one that was cut off.
-/

namespace Uniqueness

namespace Replica

theorem takeWhile_snapshotName (a : Applied) (n : UInt64) :
    (snapshotName a n).toList.reverse.takeWhile (· != '-') = (Decimal.digits n.toNat).reverse := by
  have hdigits : ∀ c ∈ (Decimal.digits n.toNat).reverse, (c != '-') = true := by
    intro c hc
    rw [bne_iff_ne]
    rintro rfl
    exact absurd (Decimal.isDigit_of_mem_digits (List.mem_reverse.mp hc)) (by decide)
  -- the number stands after the last dash
  obtain ⟨front, hfront⟩ : ∃ front : List Char, (snapshotName a n).toList = front ++ '-' :: Decimal.digits n.toNat := by
    have htext : (Decimal.text n.toNat).toList = Decimal.digits n.toNat := String.toList_ofList
    rw [snapshotName]
    cases a.last with
    | none =>
      refine ⟨['-'], ?_⟩
      rw [String.toList_append, htext]
      rfl
    | some id =>
      refine ⟨(id.leader.text ++ "-" ++ Decimal.text id.index.toNat).toList, ?_⟩
      simp only
      rw [String.toList_append, String.toList_append, htext, List.append_assoc]
      rfl
  rw [hfront, List.reverse_append, List.reverse_cons, List.append_assoc, List.takeWhile_append_of_pos hdigits]
  exact List.append_nil _

theorem snapshotName_ne {m n : UInt64} (h : m ≠ n) (a b : Applied) : snapshotName a m ≠ snapshotName b n := by
  intro he
  apply h
  have hdigits : Decimal.digits m.toNat = Decimal.digits n.toNat := by
    rw [← List.reverse_inj, ← takeWhile_snapshotName a, ← takeWhile_snapshotName b, he]
  have hvalue := congrArg (Nat.ofDigitChars 10 · 0) hdigits
  simp only [Decimal.ofDigitChars_digits] at hvalue
  exact UInt64.toNat_inj.mp hvalue

end Replica

namespace Archive

open Folder (Torn)

variable {folder left : Folder} {name source : String} {content : Bytes} {n : UInt64} {about : Meta}

inductive Phase where
  | stopped (folder : Folder)
  | running (archive : Archive) (drawn : Option UInt64)

structure Course where
  phase : Phase
  /-- The snapshot of the last commit that was finished. One that was cut off counts as finished once its snapshot is
  the current one: when only older ones were left to remove, or when an opening has found it. -/
  finished : Option (Stored × Bytes)
  underWay : Option (Stored × Bytes)
  made : List Stored

namespace Course

def start : Course :=
  ⟨.stopped .empty, none, none, []⟩

def opened (c : Course) (a : Archive) : Course :=
  if a.current = c.finished.map (·.1) then { c with phase := .running a none, underWay := none }
  else ⟨.running a none, c.underWay, none, a.current.toList ++ c.made⟩

inductive Step (c : Course) : Course → Prop
  | draw {a : Archive} {drawn : Option UInt64} (hc : c.phase = .running a drawn) (hn : a.next + 1 ≠ 0) :
    Step c { c with phase := .running a.draw.2 (some a.draw.1) }
  | write {a : Archive} {n : UInt64} (hc : c.phase = .running a (some n)) {content : Bytes} {folder : Folder}
    (ht : Torn a.folder (writeSteps (draftName n) content) folder) :
    Step c { c with phase := .running { a with folder } (some n) }
  | receive {a : Archive} {drawn : Option UInt64} (hc : c.phase = .running a drawn) {content : Bytes} {folder : Folder}
    (ht : Torn a.folder (writeSteps receivingName content) folder) :
    Step c { c with phase := .running { a with folder } drawn }
  | commit {a : Archive} {n : UInt64} (hc : c.phase = .running a (some n)) {source : String} {content : Bytes}
    (hsource : source = draftName n ∨ source = receivingName) (hs : a.folder.get? source = some content)
    (about : Meta) :
    Step c ⟨.running (a.commit n about source).2 none, some (⟨n, about⟩, content), c.underWay, ⟨n, about⟩ :: c.made⟩
  | commitCutOff {a : Archive} {n : UInt64} (hc : c.phase = .running a (some n)) {source : String} {content : Bytes}
    (hsource : source = draftName n ∨ source = receivingName) (hs : a.folder.get? source = some content)
    (about : Meta) {folder : Folder} (ht : Torn a.folder (commitSteps n about source) folder) :
    Step c { c with phase := .stopped folder, underWay := some (⟨n, about⟩, content) }
  | pruneCutOff {a : Archive} {n : UInt64} (hc : c.phase = .running a (some n)) {source : String} {content : Bytes}
    (hsource : source = draftName n ∨ source = receivingName) (hs : a.folder.get? source = some content)
    (about : Meta) {moved folder : Folder} (hrun : a.folder.run (commitSteps n about source) = (true, moved))
    (names : List String) (ht : Torn moved (pruneSteps (some n) false names) folder) :
    Step c ⟨.stopped folder, some (⟨n, about⟩, content), none, ⟨n, about⟩ :: c.made⟩
  | stop {a : Archive} {drawn : Option UInt64} (hc : c.phase = .running a drawn) :
    Step c { c with phase := .stopped a.folder, underWay := none }
  | openingCutOff {folder folder' : Folder} (hc : c.phase = .stopped folder) {names others : List String}
    (hn : names.Perm folder.keys)
    (ht : Torn folder (pruneSteps ((newest folder names).map (·.number)) true others) folder') :
    Step c { c with phase := .stopped folder' }
  | opening {folder : Folder} (hc : c.phase = .stopped folder) {names others : List String}
    (hn : names.Perm folder.keys) (ho : others.Perm folder.keys) : Step c (c.opened (openAs folder names others))

inductive Reachable : Course → Prop
  | start : Reachable start
  | step {c c' : Course} (hc : Reachable c) (h : Step c c') : Reachable c'

structure Recorded (c : Course) : Prop where
  last : c.finished.map (·.1) = c.made.head?
  decreasing : c.made.Pairwise fun s t => t.number < s.number
  room : ∀ s ∈ c.made.head?, s.number + 1 ≠ 0

structure Stopped (folder : Folder) (c : Course) : Prop extends Recorded c where
  finds : ∃ kept, (kept = c.finished ∨ kept = c.underWay ∧ kept ≠ none) ∧ Finds folder kept
  files : ∀ name m, number? name = some m → folder.get? name ≠ none → name ∈ namesOf m
  later : ∀ p ∈ c.underWay, p.1.number + 1 ≠ 0 ∧ ∀ s ∈ c.made.head?, s.number < p.1.number

structure Running (a : Archive) (drawn : Option UInt64) (c : Course) : Prop extends Recorded c where
  current : a.current = c.made.head?
  finds : Finds a.folder c.finished
  files : ∀ name m, number? name = some m → a.folder.get? name ≠ none →
    (∃ s ∈ a.current, name = dataName s.number ∨ name = aboutName s.number) ∨ name = draftName m ∧ m < a.next
  above : ∀ s ∈ a.current, s.number < a.next
  drawn : ∀ n ∈ drawn, n + 1 = a.next ∧ n + 1 ≠ 0 ∧ ∀ s ∈ a.current, s.number < n

def Sound (c : Course) : Prop :=
  match c.phase with
  | .stopped folder => Stopped folder c
  | .running a drawn => Running a drawn c

variable {c : Course} {a : Archive} {drawn : Option UInt64} {m : UInt64}

theorem Recorded.cons (h : Recorded c) {s : Stored} (hroom : s.number + 1 ≠ 0)
    (hlater : ∀ t ∈ c.made.head?, t.number < s.number) (phase : Phase) (content : Bytes)
    (underWay : Option (Stored × Bytes)) : Recorded ⟨phase, some (s, content), underWay, s :: c.made⟩ where
  last := rfl
  decreasing := by
    refine List.pairwise_cons.mpr ⟨?_, h.decreasing⟩
    obtain ⟨-, hdecreasing, -⟩ := h
    cases hmade : c.made with
    | nil => nofun
    | cons t rest =>
      rw [hmade] at hlater hdecreasing
      have ht := hlater t rfl
      refine List.forall_mem_cons.mpr ⟨ht, fun t' hm => ?_⟩
      exact UInt64.lt_trans ((List.pairwise_cons.mp hdecreasing).1 t' hm) ht
  room t ht := by
    cases ht
    exact hroom

theorem Recorded.mem_opened (h : Recorded c) (a : Archive) {s : Stored} (hs : s ∈ a.current.toList ++ c.made) :
    s ∈ (c.opened a).made := by
  rw [opened]
  split
  case isTrue hcurrent =>
    rcases List.mem_append.mp hs with hs | hs
    · rw [hcurrent, h.last] at hs
      exact List.mem_of_mem_head? (Option.mem_toList.mp hs)
    · exact hs
  case isFalse => exact hs

namespace Running

theorem lt_next (h : Running a drawn c) : ∀ s ∈ c.made, s.number < a.next := by
  have habove := h.above
  have hdecreasing := h.decreasing
  rw [h.current] at habove
  cases hmade : c.made with
  | nil => nofun
  | cons s rest =>
    rw [hmade] at habove hdecreasing
    have hs := habove s rfl
    exact List.forall_mem_cons.mpr ⟨hs, fun t ht => UInt64.lt_trans ((List.pairwise_cons.mp hdecreasing).1 t ht) hs⟩

theorem of_aboutNumber? (h : Running a drawn c) (hn : aboutNumber? name = some n) (hget : a.folder.get? name ≠ none) :
    ∃ s ∈ a.current, n = s.number := by
  rcases h.files name n (number?_of_aboutNumber? hn) hget with ⟨s, hs, rfl | rfl⟩ | ⟨rfl, -⟩
  · rw [aboutNumber?_dataName] at hn
    cases hn
  · rw [aboutNumber?_aboutName] at hn
    exact ⟨s, hs, (Option.some.inj hn).symm⟩
  · rw [aboutNumber?_draftName] at hn
    cases hn

theorem names (h : Running a drawn c) (hn : number? name = some n) (hget : a.folder.get? name ≠ none) :
    name ∈ namesOf n ∧ n < a.next := by
  rcases h.files name n hn hget with ⟨s, hs, rfl | rfl⟩ | ⟨rfl, hlt⟩
  · cases (number?_dataName s.number).symm.trans hn
    exact ⟨by simp [namesOf], h.above s hs⟩
  · cases (number?_aboutName s.number).symm.trans hn
    exact ⟨by simp [namesOf], h.above s hs⟩
  · exact ⟨by simp [namesOf], hlt⟩

theorem draw (h : Running a drawn c) (hn : a.next + 1 ≠ 0) :
    Running a.draw.2 (some a.draw.1) { c with phase := .running a.draw.2 (some a.draw.1) } where
  toRecorded := ⟨h.last, h.decreasing, h.room⟩
  current := h.current
  finds := h.finds
  files name m hm hget := (h.files name m hm hget).imp_right fun hd => ⟨hd.1, UInt64.lt_trans hd.2 (lt_succ hn)⟩
  above s hs := UInt64.lt_trans (h.above s hs) (lt_succ hn)
  drawn n hm := by
    cases hm
    exact ⟨rfl, hn, h.above⟩

theorem write (h : Running a drawn c) (hname : name = receivingName ∨ ∃ n < a.next, name = draftName n)
    (ht : Torn a.folder (writeSteps name content) folder) :
    Running { a with folder } drawn { c with phase := .running { a with folder } drawn } where
  toRecorded := ⟨h.last, h.decreasing, h.room⟩
  current := h.current
  finds := by
    have hdata : ∀ m, dataName m ≠ name := by
      rcases hname with rfl | ⟨n, -, rfl⟩
      · exact fun m => ne_receivingName (number?_dataName m)
      · exact fun m => dataName_ne_draftName m n
    have habout : aboutNumber? name = none := by
      rcases hname with rfl | ⟨n, -, rfl⟩
      · exact aboutNumber?_source (n := 0) (.inr rfl)
      · exact aboutNumber?_source (.inl rfl)
    refine h.finds.of_described fun name' m hm =>
      ⟨get?_of_torn_writeSteps ht ?_, fun _ => get?_of_torn_writeSteps ht (hdata m)⟩
    rintro rfl
    rw [habout] at hm
    cases hm
  files name' m hm hget := by
    by_cases he : name' = name
    · subst he
      rcases hname with rfl | ⟨n, hlt, rfl⟩
      · rw [number?_receivingName] at hm
        cases hm
      · cases (number?_draftName n).symm.trans hm
        exact .inr ⟨rfl, hlt⟩
    · exact h.files name' m hm fun hnone => hget ((get?_of_torn_writeSteps ht he).trans hnone)
  above := h.above
  drawn := h.drawn

theorem stop (h : Running a drawn c) : Stopped a.folder { c with phase := .stopped a.folder, underWay := none } where
  toRecorded := ⟨h.last, h.decreasing, h.room⟩
  finds := ⟨c.finished, .inl rfl, h.finds⟩
  files _ _ hm hget := (h.names hm hget).1
  later := nofun

section Commit

variable (h : Running a (some n) c) (hsource : source = draftName n ∨ source = receivingName)

include h

theorem later : n + 1 ≠ 0 ∧ ∀ s ∈ c.made.head?, s.number < n := by
  obtain ⟨-, hroom, hlater⟩ := h.drawn n rfl
  exact ⟨hroom, h.current ▸ hlater⟩

theorem described_lt (hm : aboutNumber? name = some m) (hget : a.folder.get? name ≠ none) : m < n := by
  obtain ⟨s, hs, rfl⟩ := h.of_aboutNumber? hm hget
  exact (h.drawn n rfl).2.2 s hs

include hsource

theorem finds_committed (about : Meta) :
    Finds (committed a.folder n about source content) (some (⟨n, about⟩, content)) where
  newest p hp := by
    cases hp
    refine ⟨get?_committed _ _ _ _ _, get?_aboutName_committed _ _ _ _ _, fun name t ht => ?_⟩
    exact stored?_committed (aboutNumber?_source hsource) (fun _ _ hm hget => h.described_lt hm hget) ht
  nothing := nofun

theorem finds_unfinished (hsame : ∀ name, name ≠ source → name ≠ dataName n → name ≠ aboutDraftName n →
      left.get? name = a.folder.get? name) : Finds left c.finished := by
  have hne : ∀ name m, aboutNumber? name = some m → left.get? name = a.folder.get? name := by
    intro name m hm
    apply hsame
    all_goals rintro rfl
    · rw [aboutNumber?_source hsource] at hm
      cases hm
    · rw [aboutNumber?_dataName] at hm
      cases hm
    · rw [aboutNumber?_aboutDraftName] at hm
      cases hm
  refine h.finds.of_described fun name m hm => ⟨hne name m hm, fun hget => ?_⟩
  have hmn : m ≠ n := UInt64.ne_of_lt (h.described_lt hm hget)
  have hother : ∀ other, number? other = some n → dataName m ≠ other := fun other ho =>
    ne_of_number? (number?_dataName m) (by rw [ho]; exact fun he => hmn (Option.some.inj he).symm)
  apply hsame _ _ (hother _ (number?_dataName n)) (hother _ (number?_aboutDraftName n))
  rcases hsource with rfl | rfl
  · exact hother _ (number?_draftName n)
  · exact ne_receivingName (number?_dataName m)

theorem names_commit (hsame : ∀ name, name ≠ source → name ≠ dataName n → name ≠ aboutName n →
      name ≠ aboutDraftName n → left.get? name = a.folder.get? name) (hm : number? name = some m)
    (hget : left.get? name ≠ none) : name ∈ namesOf m ∧ m ≤ n := by
  by_cases hn : name ∈ namesOf n
  · cases (number?_of_mem_namesOf hn).symm.trans hm
    exact ⟨hn, UInt64.le_refl _⟩
  · have hne : name ≠ dataName n ∧ name ≠ aboutName n ∧ name ≠ draftName n ∧ name ≠ aboutDraftName n := by
      simpa [namesOf] using hn
    have hs : name ≠ source := by
      rcases hsource with rfl | rfl
      · exact hne.2.2.1
      · exact ne_receivingName hm
    rw [hsame name hs hne.1 hne.2.1 hne.2.2.2] at hget
    obtain ⟨hmem, hlt⟩ := h.names hm hget
    obtain ⟨hnext, hroom, -⟩ := h.drawn n rfl
    exact ⟨hmem, le_of_lt_succ hroom (hnext ▸ hlt)⟩

theorem names_committed (about : Meta) (hm : number? name = some m)
    (hget : (committed a.folder n about source content).get? name ≠ none) : name ∈ namesOf m ∧ m ≤ n :=
  h.names_commit hsource (fun _ hs hdata habout hdraft => get?_committed_of_ne hs hdata habout hdraft _ _ _) hm hget

variable (hs : a.folder.get? source = some content)

include hs

theorem commit (about : Meta) : Running (a.commit n about source).2 none
    ⟨.running (a.commit n about source).2 none, some (⟨n, about⟩, content), c.underWay, ⟨n, about⟩ :: c.made⟩ := by
  obtain ⟨hroom, hlater⟩ := h.later
  rw [commit_current hs (h.current ▸ hlater)]
  refine ⟨h.toRecorded.cons (s := ⟨n, about⟩) hroom hlater _ _ _, rfl, ?_, ?_, ?_, nofun⟩
  · refine ⟨fun p hp => ?_, nofun⟩
    cases hp
    exact Newest.prune (s := ⟨n, about⟩) ((h.finds_committed hsource about).newest _ rfl) false
  · intro name m hm hget
    rw [get?_prune] at hget
    cases hstale : isStale (some n) false name with
    | true => exact absurd (if_pos hstale) hget
    | false =>
      rw [hstale, if_neg Bool.false_ne_true] at hget
      obtain ⟨hmem, hle⟩ := h.names_committed hsource about hm hget
      exact .inl ⟨_, rfl, eq_of_not_isStale hmem hstale (.inr hle)⟩
  · intro s hs
    cases hs
    exact (h.drawn n rfl).1 ▸ lt_succ hroom

theorem commitCutOff (about : Meta) (ht : Torn a.folder (commitSteps n about source) left) :
    Stopped left { c with phase := .stopped left, underWay := some (⟨n, about⟩, content) } := by
  have hlater : ∀ p ∈ some (Stored.mk n about, content),
      p.1.number + 1 ≠ 0 ∧ ∀ s ∈ c.made.head?, s.number < p.1.number := by
    intro p hp
    cases hp
    exact h.later
  -- the description is not in place before the last step
  rcases torn_commitSteps hs ht with rfl | hsame
  · exact ⟨⟨h.last, h.decreasing, h.room⟩, ⟨_, .inr ⟨rfl, nofun⟩, h.finds_committed hsource about⟩,
      fun name m hm hget => (h.names_committed hsource about hm hget).1, hlater⟩
  · exact ⟨⟨h.last, h.decreasing, h.room⟩, ⟨_, .inl rfl, h.finds_unfinished hsource hsame⟩,
      fun name m hm hget => (h.names_commit hsource (fun _ hs hdata _ hdraft => hsame _ hs hdata hdraft) hm hget).1,
      hlater⟩

theorem pruneCutOff (about : Meta) {moved : Folder} (hrun : a.folder.run (commitSteps n about source) = (true, moved))
    {names : List String} (ht : Torn moved (pruneSteps (some n) false names) left) :
    Stopped left ⟨.stopped left, some (⟨n, about⟩, content), none, ⟨n, about⟩ :: c.made⟩ := by
  obtain ⟨hroom, hlater⟩ := h.later
  rw [run_commitSteps hs] at hrun
  cases hrun
  refine ⟨h.toRecorded.cons (s := ⟨n, about⟩) hroom hlater _ _ _, ⟨_, .inl rfl, ?_⟩, ?_, nofun⟩
  · exact (h.finds_committed hsource about).of_torn ht
  · intro name m hm hget
    have hsame := (mem_of_torn_pruneSteps ht name).resolve_right fun hgone => hget hgone.2
    exact (h.names_committed hsource about hm (hsame ▸ hget)).1

end Commit

end Running

namespace Stopped

variable {names others : List String}

theorem openingCutOff (h : Stopped folder c) (hn : names.Perm folder.keys)
    (ht : Torn folder (pruneSteps ((newest folder names).map (·.number)) true others) left) :
    Stopped left { c with phase := .stopped left } := by
  obtain ⟨kept, hkept, hfinds⟩ := h.finds
  rw [hfinds.newest_eq hn, Option.map_map] at ht
  refine ⟨⟨h.last, h.decreasing, h.room⟩, ⟨kept, hkept, hfinds.of_torn ht⟩, ?_, h.later⟩
  intro name m hm hget
  have hsame := (mem_of_torn_pruneSteps ht name).resolve_right fun hgone => hget hgone.2
  exact h.files name m hm (hsame ▸ hget)

theorem files_ofFolder (h : Stopped folder c) (hm : number? name = some m)
    (hget : (ofFolder folder).folder.get? name ≠ none) :
    ∃ s ∈ (ofFolder folder).current, name = dataName s.number ∨ name = aboutName s.number := by
  change ((prune _ _ true).folder.get? name) ≠ none at hget
  rw [get?_prune] at hget
  have hcurrent : (ofFolder folder).current = newest folder folder.keys := rfl
  rw [hcurrent]
  cases hnewest : newest folder folder.keys with
  | none =>
    rw [hnewest] at hget
    exact absurd (if_pos (isStale_none hm true)) hget
  | some s =>
    rw [hnewest] at hget
    cases hstale : isStale (some s.number) true name with
    | true => exact absurd (if_pos hstale) hget
    | false =>
      simp only [Option.map_some, hstale, Bool.false_eq_true, if_false] at hget
      exact ⟨s, rfl, eq_of_not_isStale (h.files name m hm hget) hstale (.inl rfl)⟩

theorem running (h : Stopped folder c) {c' : Course} (hr : Recorded c') (hfinds : Finds folder c'.finished) :
    Running (ofFolder folder) none c' := by
  have hcurrent : (ofFolder folder).current = c'.finished.map (·.1) := hfinds.newest_eq (.refl _)
  refine ⟨hr, hcurrent.trans hr.last, hfinds.ofFolder, fun _ _ hm hget => .inl (h.files_ofFolder hm hget), ?_, nofun⟩
  intro s hs
  rw [next_ofFolder hs]
  exact lt_succ (hr.room s (hr.last ▸ hcurrent ▸ hs))

theorem opening (h : Stopped folder c) : Running (ofFolder folder) none (c.opened (ofFolder folder)) ∧
    (c.opened (ofFolder folder)).phase = .running (ofFolder folder) none := by
  obtain ⟨kept, hkept, hfinds⟩ := h.finds
  have hcurrent : (ofFolder folder).current = kept.map (·.1) := hfinds.newest_eq (.refl _)
  rcases hkept with rfl | ⟨rfl, hsome⟩
  · rw [opened, if_pos hcurrent]
    exact ⟨h.running ⟨h.last, h.decreasing, h.room⟩ hfinds, rfl⟩
  · obtain ⟨⟨s, content⟩, hunderWay⟩ := Option.ne_none_iff_exists'.mp hsome
    obtain ⟨hroom, hlater⟩ := h.later _ hunderWay
    rw [hunderWay] at hcurrent hfinds
    have hne : (ofFolder folder).current ≠ c.finished.map (·.1) := by
      rw [hcurrent, h.last]
      intro he
      exact UInt64.lt_irrefl _ (hlater s he.symm)
    rw [opened, if_neg hne, hunderWay, hcurrent]
    exact ⟨h.running (h.toRecorded.cons hroom hlater _ _ _) hfinds, rfl⟩

end Stopped

theorem Sound.step {c' : Course} (hc : Sound c) (h : Step c c') : Sound c' := by
  cases h with
  | draw hphase hn =>
    rw [Sound, hphase] at hc
    exact hc.draw hn
  | @write a n hphase _ _ ht =>
    rw [Sound, hphase] at hc
    obtain ⟨hnext, hroom, -⟩ := hc.drawn n rfl
    exact hc.write (.inr ⟨n, hnext ▸ lt_succ hroom, rfl⟩) ht
  | receive hphase ht =>
    rw [Sound, hphase] at hc
    exact hc.write (.inl rfl) ht
  | commit hphase hsource hs about =>
    rw [Sound, hphase] at hc
    exact hc.commit hsource hs about
  | commitCutOff hphase hsource hs about ht =>
    rw [Sound, hphase] at hc
    exact hc.commitCutOff hsource hs about ht
  | pruneCutOff hphase hsource hs about hrun _ ht =>
    rw [Sound, hphase] at hc
    exact hc.pruneCutOff hsource hs about hrun ht
  | stop hphase =>
    rw [Sound, hphase] at hc
    exact hc.stop
  | openingCutOff hphase hn ht =>
    rw [Sound, hphase] at hc
    exact hc.openingCutOff hn ht
  | opening hphase hn ho =>
    rw [Sound, hphase] at hc
    obtain ⟨kept, -, hfinds⟩ := hc.finds
    obtain ⟨hrunning, hopened⟩ := hc.opening
    rw [hfinds.openAs_eq hn ho, Sound, hopened]
    exact hrunning

theorem Reachable.sound (h : Reachable c) : Sound c := by
  induction h with
  | start =>
    refine ⟨⟨rfl, List.Pairwise.nil, nofun⟩, ⟨none, .inl rfl, nofun, fun _ name => ?_⟩, ?_, nofun⟩
    · rw [Option.eq_none_iff_forall_ne_some]
      intro t ht
      obtain ⟨-, -, text, htext, -⟩ := stored?_eq_some_iff.mp ht
      rw [SortedMap.get?_empty] at htext
      cases htext
    · intro name m _ hget
      exact absurd (SortedMap.get?_empty name) hget
  | step _ h ih => exact ih.step h

def Fresh (n : UInt64) (s : Stored) : Prop :=
  s.number < n ∧ ∀ p q, Replica.snapshotName p n ≠ Replica.snapshotName q s.number

/-- However often and wherever a process has stopped, the next opening finds the snapshot of the last commit that
was finished, or of the one that was cut off, with the data it was committed with. It leaves no other numbered file,
does not depend on the order in which the files are listed, and draws a number that none of the snapshots
has had. -/
theorem opening_recovers (h : Reachable c) (hc : c.phase = .stopped folder) {names others : List String}
    (hn : names.Perm folder.keys) (ho : others.Perm folder.keys) :
    openAs folder names others = ofFolder folder ∧
    (∃ kept, (kept = c.finished ∨ kept = c.underWay ∧ kept ≠ none) ∧
      (ofFolder folder).current = kept.map (·.1) ∧ ∀ p ∈ kept, (ofFolder folder).read p.1 = .ok p.2) ∧
    (∀ name m, number? name = some m → (ofFolder folder).folder.contains name = true →
      ∃ s ∈ (ofFolder folder).current, name = dataName s.number ∨ name = aboutName s.number) ∧
    (∀ s ∈ (ofFolder folder).current.toList ++ c.made, Fresh (ofFolder folder).draw.1 s) ∧
    c.made.Pairwise fun s t => Fresh s.number t := by
  have hstopped := h.sound
  rw [Sound, hc] at hstopped
  obtain ⟨kept, hkept, hfinds⟩ := hstopped.finds
  obtain ⟨hrunning, -⟩ := hstopped.opening
  have hfresh : ∀ n s, s.number < n → Fresh n s := fun n s hlt =>
    ⟨hlt, Replica.snapshotName_ne (UInt64.ne_of_lt hlt).symm⟩
  refine ⟨hfinds.openAs_eq hn ho, ⟨kept, hkept, hfinds.newest_eq (.refl _), ?_⟩, ?_, ?_, ?_⟩
  · exact fun p hp => (hfinds.ofFolder.newest p hp).read
  · intro name m hm hcontains
    apply hstopped.files_ofFolder hm
    exact Option.isSome_iff_ne_none.mp hcontains
  · exact fun s hs => hfresh _ _ (hrunning.lt_next s (hstopped.mem_opened _ hs))
  · exact hstopped.decreasing.imp fun hlt => hfresh _ _ hlt

theorem Reachable.write (h : Reachable c) (hc : c.phase = .running a drawn) (hn : a.next + 1 ≠ 0) (content : Bytes) :
    Reachable { c with phase := .running (a.draw.2.writeDraft a.next content) (some a.next) } := by
  have ht : Torn a.folder (writeSteps (draftName a.next) content) (a.draw.2.writeDraft a.next content).folder :=
    Folder.torn_of_run rfl
  exact (h.step (.draw hc hn)).step (.write rfl ht)

def first : Archive :=
  ((ofFolder .empty).draw.2.writeDraft 1 [1]).commit 1 default (draftName 1) |>.2

def remains : Folder :=
  (committed (first.draw.2.writeDraft 2 [2]).folder 2 default (draftName 2) [2]).erase (dataName 1)

def crashed : Course :=
  ⟨.stopped remains, some (⟨2, default⟩, [2]), none, [⟨2, default⟩, ⟨1, default⟩]⟩

theorem reachable_crashed : Reachable crashed := by
  have hopened : (start.opened (ofFolder .empty)).phase = .running (ofFolder .empty) none := rfl
  have hfirst := ((Reachable.start.step (.opening rfl (.refl _) (.refl _))).write hopened (by decide) [1]).step
    (.commit rfl (.inl rfl) (get?_writeFile _ _ _) default)
  have hwritten := hfirst.write (a := first) rfl (by decide +kernel) [2]
  have hmoved : (first.draw.2.writeDraft 2 [2]).folder.run (commitSteps 2 default (draftName 2)) =
      (true, committed (first.draw.2.writeDraft 2 [2]).folder 2 default (draftName 2) [2]) :=
    run_commitSteps (get?_writeFile _ _ _) _ _
  have htorn : Torn (committed (first.draw.2.writeDraft 2 [2]).folder 2 default (draftName 2) [2])
      [.remove (dataName 1), .remove (aboutName 1)] remains := .next rfl (.stop _ _)
  have hcut := hwritten.step (.pruneCutOff rfl (.inl rfl) (get?_writeFile _ _ _) default hmoved
    [dataName 1, aboutName 1] htorn)
  exact hcut.step (.openingCutOff rfl (.refl _) (.stop _ (pruneSteps _ _ [aboutName 1])))

theorem cut_off_commit_is_found : Reachable crashed ∧ remains.get? (dataName 1) = none ∧
    openAs remains remains.keys.reverse remains.keys = ofFolder remains ∧
    (ofFolder remains).current = some ⟨2, default⟩ ∧ (ofFolder remains).read ⟨2, default⟩ = .ok [2] ∧
    (∀ name m, number? name = some m → (ofFolder remains).folder.contains name = true →
      name = dataName 2 ∨ name = aboutName 2) ∧
    (ofFolder remains).draw.1 = 3 ∧ Fresh 3 ⟨1, default⟩ ∧ Fresh 3 ⟨2, default⟩ := by
  obtain ⟨horder, ⟨kept, hkept, hcurrent, hread⟩, hfiles, hfresh, -⟩ :=
    opening_recovers reachable_crashed rfl (List.reverse_perm remains.keys) (.refl _)
  have hgone : remains.get? (dataName 1) = none := by
    rw [remains, SortedMap.get?_erase, if_pos rfl]
  obtain rfl : kept = some (⟨2, default⟩, [2]) := by
    rcases hkept with hfinished | ⟨hnone, hsome⟩
    · exact hfinished
    · exact absurd hnone hsome
  have hsecond : (ofFolder remains).current = some ⟨2, default⟩ := hcurrent
  have hnext : (ofFolder remains).draw.1 = 3 := by
    rw [draw, next_ofFolder hsecond]
    rfl
  rw [hsecond] at hfiles
  rw [hnext] at hfresh
  have hcontent : (ofFolder remains).read ⟨2, default⟩ = .ok [2] := hread (⟨2, default⟩, [2]) rfl
  refine ⟨reachable_crashed, hgone, horder, hsecond, hcontent, ?_, hnext, ?_, ?_⟩
  · intro name m hm hcontains
    obtain ⟨s, hs, hname⟩ := hfiles name m hm hcontains
    cases hs
    exact hname
  · exact hfresh _ (List.mem_append_right _ (List.mem_cons_of_mem _ List.mem_cons_self))
  · exact hfresh _ (List.mem_append_right _ List.mem_cons_self)

end Course

end Archive

end Uniqueness
