import Uniqueness.Proofs.NewestSnapshot
import Mathlib.Logic.Function.Basic

/-!
Builds of snapshots, and one installation at a time, that use an archive side by side. A commit removes
all files with lower numbers, also that of a build which is still under way, and such a build then fails.
-/

namespace Uniqueness.Archive

def Folder.extend (folder : Folder) (name : String) (piece : Bytes) : Folder :=
  match folder.get? name with
  | none => folder
  | some content => folder.insert name (content ++ piece)

inductive Build where
  | drawn
  | writing (content : Bytes) (before : Option Stored)

structure Traffic where
  archive : Archive
  builds : UInt64 → Option Build
  arrival : Option (Bytes × Option UInt64)
  committed : List (Stored × Bytes)

namespace Folder

theorem get?_extend {folder : Folder} {name : String} {content : Bytes} (h : folder.get? name = some content)
    (piece : Bytes) : (folder.extend name piece).get? name = some (content ++ piece) := by
  rw [extend, h]
  simp only [SortedMap.get?_insert, if_true]

theorem get?_extend_of_missing {folder : Folder} {name : String} (h : folder.get? name = none) (piece : Bytes) :
    (folder.extend name piece).get? name = none := by
  rw [extend, h]
  exact h

theorem get?_extend_of_ne {name name' : String} (h : name' ≠ name) (folder : Folder) (piece : Bytes) :
    (folder.extend name piece).get? name' = folder.get? name' := by
  rw [extend]
  split
  · rfl
  · rw [SortedMap.get?_insert, if_neg h]

end Folder

namespace Traffic

def start (folder : Folder) : Traffic where
  archive := ofFolder folder
  builds _ := none
  arrival := none
  committed := ((ofFolder folder).current.bind fun s =>
    ((ofFolder folder).folder.get? (dataName s.number)).map fun content => (s, content)).toList

def draw (t : Traffic) : Traffic :=
  { t with archive := t.archive.draw.2 }

def setBuild (t : Traffic) (n : UInt64) (b : Option Build) : Traffic :=
  { t with builds := Function.update t.builds n b }

def setFolder (t : Traffic) (folder : Folder) : Traffic :=
  { t with archive := { t.archive with folder } }

def commit (t : Traffic) (n : UInt64) (about : Meta) (source : String) (content : Bytes) : Traffic :=
  match t.archive.commit n about source with
  | (.ok (), archive) => { t with archive, committed := (⟨n, about⟩, content) :: t.committed }
  | (.error _, archive) => { t with archive }

inductive Step (t : Traffic) : Traffic → Prop
  | draw (hn : t.archive.next + 1 ≠ 0) : Step t (t.draw.setBuild t.archive.next (some .drawn))
  | create {n : UInt64} (h : t.builds n = some .drawn) :
    Step t ((t.setFolder (t.archive.folder.insert (draftName n) [])).setBuild n
      (some (.writing [] t.archive.current)))
  | write {n : UInt64} {content : Bytes} {before : Option Stored} (h : t.builds n = some (.writing content before))
    (piece : Bytes) :
    Step t ((t.setFolder (t.archive.folder.extend (draftName n) piece)).setBuild n
      (some (.writing (content ++ piece) before)))
  | finish {n : UInt64} {content : Bytes} {before : Option Stored} (h : t.builds n = some (.writing content before))
    (about : Meta) : Step t ((t.setBuild n none).commit n about (draftName n) content)
  | begin (h : ∀ p ∈ t.arrival, p.2 = none) :
    Step t { t.setFolder (t.archive.folder.insert receivingName []) with arrival := some ([], none) }
  | receive {content : Bytes} (h : t.arrival = some (content, none)) (piece : Bytes) :
    Step t { t.setFolder (t.archive.folder.extend receivingName piece) with arrival := some (content ++ piece, none) }
  | number {content : Bytes} (h : t.arrival = some (content, none)) (hn : t.archive.next + 1 ≠ 0) :
    Step t { t.draw with arrival := some (content, some t.archive.next) }
  | install {content : Bytes} {n : UInt64} (h : t.arrival = some (content, some n)) (about : Meta) :
    Step t ({ t with arrival := none }.commit n about receivingName content)

inductive Reachable : Traffic → Prop
  | start {folder : Folder} (h : (ofFolder folder).next ≠ 0) : Reachable (start folder)
  | step {t t' : Traffic} (ht : Reachable t) (h : Step t t') : Reachable t'

/-- Whether a snapshot with a higher number has become current since a build began. -/
def Overtaken (current before : Option Stored) (n : UInt64) : Prop :=
  ∃ s ∈ current, n < s.number ∧ ∀ b ∈ before, b.number < s.number

def Unused (t : Traffic) (n : UInt64) : Prop :=
  n < t.archive.next ∧ ∀ p ∈ t.committed, p.1.number ≠ n

structure Drafted (t : Traffic) (n : UInt64) (content : Bytes) (before : Option Stored) : Prop where
  later : ∀ b ∈ before, ∃ s ∈ t.archive.current, b.number ≤ s.number
  kept : ¬Overtaken t.archive.current before n → t.archive.folder.get? (draftName n) = some content
  lost : Overtaken t.archive.current before n → t.archive.folder.get? (draftName n) = none

structure Sound (t : Traffic) : Prop where
  current : ∀ s ∈ t.archive.current, ∃ content, (s, content) ∈ t.committed ∧
    t.archive.folder.get? (dataName s.number) = some content
  highest : ∀ p ∈ t.committed, ∃ s ∈ t.archive.current, p.1.number ≤ s.number
  distinct : t.committed.Pairwise fun p q => p.1.number ≠ q.1.number
  below : ∀ p ∈ t.committed, p.1.number < t.archive.next
  builds : ∀ n b, t.builds n = some b → Unused t n
  drafts : ∀ n content before, t.builds n = some (.writing content before) → Drafted t n content before
  arrival : ∀ p ∈ t.arrival, t.archive.folder.get? receivingName = some p.1
  numbered : ∀ p ∈ t.arrival, ∀ n ∈ p.2, Unused t n ∧ t.builds n = none

variable {t : Traffic} {n : UInt64}

theorem not_overtaken_self (current : Option Stored) (n : UInt64) : ¬Overtaken current current n := by
  rintro ⟨s, hs, -, hall⟩
  exact absurd (hall s hs) (UInt64.lt_irrefl _)

theorem setBuild_of_ne {m : UInt64} (h : m ≠ n) (b : Option Build) : (t.setBuild n b).builds m = t.builds m :=
  Function.update_of_ne h _ _

theorem setBuild_self (b : Option Build) : (t.setBuild n b).builds n = b :=
  Function.update_self ..

namespace Sound

theorem start {folder : Folder} (h : (ofFolder folder).next ≠ 0) : Sound (start folder) := by
  cases hs : (ofFolder folder).current with
  | none =>
    have hnone : (Traffic.start folder).committed = [] := by rw [Traffic.start, hs]; rfl
    refine ⟨?_, ?_, ?_, ?_, nofun, nofun, nofun, nofun⟩
    · intro s hmem
      cases hs.symm.trans hmem
    all_goals rw [hnone]
    · exact nofun
    · exact List.Pairwise.nil
    · exact nofun
  | some s =>
    obtain ⟨content, hcontent⟩ := data_ofFolder hs
    have hone : (Traffic.start folder).committed = [(s, content)] := by
      rw [Traffic.start, hs, Option.bind_some, hcontent]
      rfl
    refine ⟨?_, ?_, ?_, ?_, nofun, nofun, nofun, nofun⟩
    · intro s' hmem
      cases hs.symm.trans hmem
      rw [hone]
      exact ⟨content, List.mem_cons_self, hcontent⟩
    all_goals rw [hone]
    · exact List.forall_mem_singleton.mpr ⟨s, hs, UInt64.le_refl _⟩
    · exact List.pairwise_singleton _ _
    · exact List.forall_mem_singleton.mpr (number_lt_ofFolder h s hs)

theorem draw (ht : Sound t) (hn : t.archive.next + 1 ≠ 0) :
    Sound t.draw ∧ Unused t.draw t.archive.next ∧ t.draw.builds t.archive.next = none ∧
      ∀ p ∈ t.arrival, p.2 ≠ some t.archive.next := by
  have hlt := lt_succ hn
  have hunused : ∀ m, Unused t m → Unused t.draw m := fun m hm => ⟨Std.lt_trans hm.1 hlt, hm.2⟩
  refine ⟨⟨ht.current, ht.highest, ht.distinct, ?_, ?_, ?_, ht.arrival, ?_⟩, ⟨hlt, ?_⟩, ?_, ?_⟩
  · exact fun p hp => Std.lt_trans (ht.below p hp) hlt
  · exact fun m b hb => hunused m (ht.builds m b hb)
  · intro m content before hb
    have hd := ht.drafts m content before hb
    exact ⟨hd.later, hd.kept, hd.lost⟩
  · exact fun p hp m hm => ⟨hunused m (ht.numbered p hp m hm).1, (ht.numbered p hp m hm).2⟩
  · intro p hp he
    exact absurd (ht.below p hp) (he ▸ UInt64.lt_irrefl _)
  · rw [Option.eq_none_iff_forall_ne_some]
    intro b hb
    exact UInt64.lt_irrefl _ (ht.builds _ b hb).1
  · intro p hp he
    exact UInt64.lt_irrefl _ (ht.numbered p hp _ he).1.1

theorem setBuild_none (ht : Sound t) (n : UInt64) : Sound (t.setBuild n none) := by
  have hsome : ∀ m b, (t.setBuild n none).builds m = some b → t.builds m = some b := by
    intro m b hb
    by_cases hm : m = n
    · rw [hm, setBuild_self] at hb
      cases hb
    · rwa [setBuild_of_ne hm] at hb
  refine ⟨ht.current, ht.highest, ht.distinct, ht.below, ?_, ?_, ht.arrival, ?_⟩
  · exact fun m b hb => ht.builds m b (hsome m b hb)
  · intro m content before hb
    have hd := ht.drafts m content before (hsome m _ hb)
    exact ⟨hd.later, hd.kept, hd.lost⟩
  · intro p hp m hm
    refine ⟨(ht.numbered p hp m hm).1, ?_⟩
    rw [Option.eq_none_iff_forall_ne_some]
    intro b hb
    have hnone := (ht.numbered p hp m hm).2
    rw [hsome m b hb] at hnone
    cases hnone

theorem setDraft (ht : Sound t) {folder : Folder} (hfolder : ∀ name, name ≠ draftName n →
      folder.get? name = t.archive.folder.get? name) {b : Build} (hunused : Unused t n)
    (harrival : ∀ p ∈ t.arrival, p.2 ≠ some n)
    (hb : ∀ content before, b = .writing content before →
      Drafted ((t.setFolder folder).setBuild n (some b)) n content before) :
    Sound ((t.setFolder folder).setBuild n (some b)) := by
  refine ⟨?_, ht.highest, ht.distinct, ht.below, ?_, ?_, ?_, ?_⟩
  · intro s hs
    obtain ⟨content, hmem, hget⟩ := ht.current s hs
    exact ⟨content, hmem, (hfolder _ (dataName_ne_draftName _ _)).trans hget⟩
  · intro m b' hb'
    by_cases hm : m = n
    · rw [hm]
      exact hunused
    · rw [setBuild_of_ne hm] at hb'
      exact ht.builds m b' hb'
  · intro m content before hb'
    by_cases hm : m = n
    · rw [hm, setBuild_self] at hb'
      rw [hm]
      exact hb content before (Option.some.inj hb')
    · rw [setBuild_of_ne hm] at hb'
      have hd := ht.drafts m content before hb'
      have hget := hfolder _ (draftName_ne hm)
      exact ⟨hd.later, fun h => hget.trans (hd.kept h), fun h => hget.trans (hd.lost h)⟩
  · intro p hp
    exact (hfolder _ (ne_receivingName (number?_draftName n)).symm).trans (ht.arrival p hp)
  · intro p hp m hm
    obtain ⟨hunused', hnone⟩ := ht.numbered p hp m hm
    refine ⟨hunused', (setBuild_of_ne ?_ _).trans hnone⟩
    rintro rfl
    exact harrival p hp hm

theorem arrival_ne (ht : Sound t) {b : Build} (hb : t.builds n = some b) : ∀ p ∈ t.arrival, p.2 ≠ some n := by
  intro p hp hn
  have hnone := (ht.numbered p hp n hn).2
  rw [hb] at hnone
  cases hnone

theorem setArrival (ht : Sound t) {folder : Folder} (hfolder : ∀ name, name ≠ receivingName →
      folder.get? name = t.archive.folder.get? name) {arrival : Option (Bytes × Option UInt64)}
    (hget : ∀ p ∈ arrival, folder.get? receivingName = some p.1)
    (hnumber : ∀ p ∈ arrival, ∀ m ∈ p.2, Unused t m ∧ t.builds m = none) :
    Sound { t.setFolder folder with arrival } := by
  refine ⟨?_, ht.highest, ht.distinct, ht.below, ht.builds, ?_, hget, hnumber⟩
  · intro s hs
    obtain ⟨content, hmem, hread⟩ := ht.current s hs
    exact ⟨content, hmem, (hfolder _ (ne_receivingName (number?_dataName _))).trans hread⟩
  · intro m content before hb
    have hd := ht.drafts m content before hb
    have hsame := hfolder _ (ne_receivingName (number?_draftName m))
    exact ⟨hd.later, fun h => hsame.trans (hd.kept h), fun h => hsame.trans (hd.lost h)⟩

end Sound

structure Ready (t : Traffic) (n : UInt64) (source : String) (content : Bytes) : Prop where
  unused : Unused t n
  noBuild : t.builds n = none
  arrival : ∀ p ∈ t.arrival, p.2 ≠ some n ∧ source ≠ receivingName
  number : ∀ m, number? source = some m → m = n
  file : t.archive.folder.get? source = some content

namespace Ready

variable {source : String} {content : Bytes} (hr : Ready t n source content) (about : Meta)

include hr

theorem ne_source {m : UInt64} {name : String} (hm : number? name = some m) (hmn : m ≠ n) : name ≠ source := by
  rintro rfl
  exact hmn (hr.number m hm)

theorem ne_of_build {m : UInt64} {b : Build} (hb : t.builds m = some b) : m ≠ n := by
  rintro rfl
  rw [hr.noBuild] at hb
  cases hb

theorem get?_committed_of_ne {m : UInt64} {name : String} (hm : number? name = some m) (hmn : m ≠ n) :
    (Archive.committed t.archive.folder n about source content).get? name = t.archive.folder.get? name := by
  apply get?_committed_of_number (hr.ne_source hm hmn)
  rw [hm]
  exact fun he => hmn (Option.some.inj he)

theorem get?_receivingName {p : Bytes × Option UInt64} (hp : p ∈ t.arrival) :
    (Archive.committed t.archive.folder n about source content).get? receivingName =
      t.archive.folder.get? receivingName := by
  apply get?_committed_of_number (hr.arrival p hp).2.symm
  rw [number?_receivingName]
  exact nofun

theorem sound (ht : Sound t) {archive : Archive} (hnext : archive.next = t.archive.next)
    (hcurrent : ∀ s ∈ archive.current, ∃ c, (s, c) ∈ (⟨n, about⟩, content) :: t.committed ∧
      archive.folder.get? (dataName s.number) = some c)
    (hhighest : ∀ p ∈ (⟨n, about⟩, content) :: t.committed, ∃ s ∈ archive.current, p.1.number ≤ s.number)
    (hdrafts : ∀ m c before, t.builds m = some (.writing c before) →
      Drafted { t with archive } m c before)
    (harrival : ∀ p ∈ t.arrival, archive.folder.get? receivingName = some p.1) :
    Sound { t with archive, committed := (⟨n, about⟩, content) :: t.committed } := by
  have hunused : ∀ m, Unused t m → m ≠ n →
      Unused { t with archive, committed := (⟨n, about⟩, content) :: t.committed } m := by
    intro m hm hmn
    refine ⟨?_, List.forall_mem_cons.mpr ⟨hmn.symm, hm.2⟩⟩
    exact hnext ▸ hm.1
  refine ⟨hcurrent, hhighest, ?_, ?_, ?_, ?_, harrival, ?_⟩
  · exact List.pairwise_cons.mpr ⟨fun p hp => (hr.unused.2 p hp).symm, ht.distinct⟩
  · refine List.forall_mem_cons.mpr ⟨?_, ?_⟩
    · exact hnext ▸ hr.unused.1
    · exact fun p hp => hnext ▸ ht.below p hp
  · exact fun m b hb => hunused m (ht.builds m b hb) (hr.ne_of_build hb)
  · intro m c before hb
    have hd := hdrafts m c before hb
    exact ⟨hd.later, hd.kept, hd.lost⟩
  · intro p hp m hm
    obtain ⟨hu, hnone⟩ := ht.numbered p hp m hm
    refine ⟨hunused m hu ?_, hnone⟩
    rintro rfl
    exact (hr.arrival p hp).1 hm

theorem sound_behind (ht : Sound t) {s : Stored} (hs : s ∈ t.archive.current) (hlt : n < s.number) :
    Sound (t.commit n about source content) := by
  rw [Traffic.commit, commit_behind hr.file hs hlt]
  refine hr.sound about ht rfl ?_ ?_ ?_ ?_
  · intro s' hs'
    obtain ⟨c, hmem, hget⟩ := ht.current s' hs'
    exact ⟨c, List.mem_cons_of_mem _ hmem,
      (hr.get?_committed_of_ne about (number?_dataName _) (hr.unused.2 _ hmem)).trans hget⟩
  · exact List.forall_mem_cons.mpr ⟨⟨s, hs, UInt64.le_of_lt hlt⟩, ht.highest⟩
  · intro m c before hb
    have hd := ht.drafts m c before hb
    have hget := hr.get?_committed_of_ne about (number?_draftName m) (hr.ne_of_build hb)
    exact ⟨hd.later, fun h => hget.trans (hd.kept h), fun h => hget.trans (hd.lost h)⟩
  · exact fun p hp => (hr.get?_receivingName about hp).trans (ht.arrival p hp)

theorem current_commit (hlt : ∀ s ∈ t.archive.current, s.number < n) :
    (t.commit n about source content).archive.current = some ⟨n, about⟩ := by
  rw [Traffic.commit, commit_current hr.file hlt]
  rfl

theorem sound_ahead (ht : Sound t) (hfast : ∀ s ∈ t.archive.current, s.number ≤ n) :
    Sound (t.commit n about source content) := by
  have hlt : ∀ s ∈ t.archive.current, s.number < n := by
    intro s hs
    obtain ⟨c, hmem, -⟩ := ht.current s hs
    exact UInt64.lt_of_le_of_ne (hfast s hs) (hr.unused.2 _ hmem)
  rw [Traffic.commit, commit_current hr.file hlt]
  refine hr.sound about ht rfl ?_ ?_ ?_ ?_
  · intro s hs
    cases hs
    exact ⟨content, List.mem_cons_self, by rw [get?_dataName_prune, get?_committed]⟩
  · refine List.forall_mem_cons.mpr ⟨⟨_, rfl, UInt64.le_refl _⟩, ?_⟩
    intro p hp
    obtain ⟨s, hs, hle⟩ := ht.highest p hp
    exact ⟨_, rfl, UInt64.le_trans hle (hfast s hs)⟩
  · intro m c before hb
    have hd := ht.drafts m c before hb
    have hmn := hr.ne_of_build hb
    have hget := hr.get?_committed_of_ne about (number?_draftName m) hmn
    have hbefore : ∀ b ∈ before, b.number < n := by
      intro b hm
      obtain ⟨s, hs, hle⟩ := hd.later b hm
      exact UInt64.lt_of_le_of_lt hle (hlt s hs)
    -- a build below `n` is overtaken and loses its file; one above has not been overtaken, and keeps it
    refine ⟨fun b hm => ⟨_, rfl, UInt64.le_of_lt (hbefore b hm)⟩, ?_, ?_⟩
    · intro h
      have hnm : ¬m < n := fun hmn => h ⟨_, rfl, hmn, hbefore⟩
      have hnot : ¬Overtaken t.archive.current before m := by
        rintro ⟨s, hs, hms, -⟩
        exact hnm (UInt64.lt_trans hms (hlt s hs))
      rw [get?_prune, isStale_of_ne (number?_draftName m) hmn, decide_eq_false hnm, Bool.or_false,
        if_neg Bool.false_ne_true, hget, hd.kept hnot]
    · rintro ⟨s, hs, hms, -⟩
      cases hs
      rw [get?_prune, isStale_of_ne (number?_draftName m) hmn, decide_eq_true hms, Bool.true_or, if_pos rfl]
  · intro p hp
    have hstale : isStale (some n) false receivingName = false := if_pos rfl
    rw [get?_prune, hstale, if_neg Bool.false_ne_true, hr.get?_receivingName about hp, ht.arrival p hp]

theorem sound_commit (ht : Sound t) : Sound (t.commit n about source content) := by
  by_cases h : ∃ s ∈ t.archive.current, n < s.number
  · obtain ⟨s, hs, hlt⟩ := h
    exact hr.sound_behind about ht hs hlt
  · push Not at h
    exact hr.sound_ahead about ht fun s hs => UInt64.not_lt.mp (by simpa using h s hs)

end Ready

namespace Sound

theorem ready_finish (ht : Sound t) {content : Bytes} {before : Option Stored}
    (hb : t.builds n = some (.writing content before)) (hnot : ¬Overtaken t.archive.current before n) :
    Ready (t.setBuild n none) n (draftName n) content where
  unused := ht.builds n _ hb
  noBuild := setBuild_self _
  arrival p hp := ⟨ht.arrival_ne hb p hp, ne_receivingName (number?_draftName n)⟩
  number m hm := by
    rw [number?_draftName] at hm
    exact (Option.some.inj hm).symm
  file := (ht.drafts n content before hb).kept hnot

theorem ready_install (ht : Sound t) {content : Bytes} (ha : t.arrival = some (content, some n)) :
    Ready { t with arrival := none } n receivingName content where
  unused := (ht.numbered _ ha n rfl).1
  noBuild := (ht.numbered _ ha n rfl).2
  arrival := nofun
  number m hm := by
    rw [number?_receivingName] at hm
    cases hm
  file := ht.arrival _ ha

theorem commit_lost {content : Bytes} {before : Option Stored} (ht : Sound t)
    (hb : t.builds n = some (.writing content before)) (h : Overtaken t.archive.current before n) (about : Meta) :
    t.archive.commit n about (draftName n) = (.error .missing, t.archive) :=
  commit_missing ((ht.drafts n content before hb).lost h) n about

theorem step {t' : Traffic} (ht : Sound t) (h : Step t t') : Sound t' := by
  cases h with
  | draw hn =>
    obtain ⟨hd, hunused, -, harrival⟩ := ht.draw hn
    exact hd.setDraft (fun _ _ => rfl) hunused harrival nofun
  | @create n hb =>
    have hother : ∀ name, name ≠ draftName n →
        (t.archive.folder.insert (draftName n) []).get? name = t.archive.folder.get? name := by
      intro name hn
      rw [SortedMap.get?_insert, if_neg hn]
    apply ht.setDraft hother (ht.builds n _ hb) (ht.arrival_ne hb)
    intro content before he
    cases he
    refine ⟨fun b hb => ⟨b, hb, UInt64.le_refl _⟩, fun _ => ?_, fun h => absurd h (not_overtaken_self _ n)⟩
    exact (SortedMap.get?_insert ..).trans (if_pos rfl)
  | @write n content before hb piece =>
    have hd := ht.drafts n content before hb
    apply ht.setDraft (fun name hn => Folder.get?_extend_of_ne hn _ _) (ht.builds n _ hb) (ht.arrival_ne hb)
    intro content' before' he
    cases he
    exact ⟨hd.later, fun h => Folder.get?_extend (hd.kept h) piece,
      fun h => Folder.get?_extend_of_missing (hd.lost h) piece⟩
  | @finish n content before hb about =>
    have hnone := ht.setBuild_none n
    by_cases h : Overtaken t.archive.current before n
    · have hlost : (t.setBuild n none).archive.commit n about (draftName n) = (.error .missing, t.archive) :=
        ht.commit_lost hb h about
      rw [Traffic.commit, hlost]
      exact hnone
    · exact (ht.ready_finish hb h).sound_commit about hnone
  | begin ha =>
    apply ht.setArrival
    · intro name hn
      rw [SortedMap.get?_insert, if_neg hn]
    · intro p hp
      cases hp
      rw [SortedMap.get?_insert, if_pos rfl]
    · intro p hp
      cases hp
      nofun
  | receive ha piece =>
    apply ht.setArrival fun name hn => Folder.get?_extend_of_ne hn _ _
    · intro p hp
      cases hp
      exact Folder.get?_extend (ht.arrival _ ha) piece
    · intro p hp
      cases hp
      nofun
  | number ha hn =>
    obtain ⟨hd, hunused, hnone, -⟩ := ht.draw hn
    apply hd.setArrival (fun _ _ => rfl)
    · intro p hp
      cases hp
      exact ht.arrival (_, none) ha
    · intro p hp m hm
      cases hp
      cases hm
      exact ⟨hunused, hnone⟩
  | install ha about =>
    have hnone : Sound { t with arrival := none } :=
      ht.setArrival (fun _ _ => rfl) nofun nofun
    exact (ht.ready_install ha).sound_commit about hnone

end Sound

theorem Reachable.sound (ht : Reachable t) : Sound t := by
  induction ht with
  | start h => exact Sound.start h
  | step _ h ih => exact ih.step h

/-- A build commits its data exactly if no snapshot with a higher number has become current since it
began to write, and an installation always does. Whoever commits, the current snapshot is the committed
one with the highest number, and can be read as it was written. -/
theorem commits_iff_not_overtaken (ht : Reachable t) (about : Meta) :
    (∀ n content before, t.builds n = some (.writing content before) →
      ((t.archive.commit n about (draftName n)).1 = .ok () ↔ ¬Overtaken t.archive.current before n)) ∧
    (∀ n content, t.arrival = some (content, some n) → (t.archive.commit n about receivingName).1 = .ok ()) ∧
    (∀ n source, ∀ s ∈ t.archive.current, n < s.number →
      (t.archive.commit n about source).2.current = t.archive.current) ∧
    (t.archive.current = none → t.committed = []) ∧
    (t.committed.Pairwise fun p q => p.1.number ≠ q.1.number) ∧
    ∀ s ∈ t.archive.current, (∀ p ∈ t.committed, p.1.number ≤ s.number) ∧
      ∃ content, (s, content) ∈ t.committed ∧ t.archive.read s = .ok content := by
  have hsound := ht.sound
  refine ⟨?_, ?_, ?_, ?_, hsound.distinct, ?_⟩
  · intro n content before hb
    by_cases h : Overtaken t.archive.current before n
    · rw [hsound.commit_lost hb h]
      exact iff_of_false nofun (fun hn => hn h)
    · rw [Archive.commit_eq ((hsound.drafts n content before hb).kept h)]
      exact iff_of_true rfl h
  · intro n content ha
    rw [Archive.commit_eq (hsound.arrival _ ha)]
  · exact fun n source s hs hlt => current_commit_behind t.archive hs hlt about source
  · intro hnone
    rw [List.eq_nil_iff_forall_not_mem]
    intro p hp
    obtain ⟨s, hs, -⟩ := hsound.highest p hp
    rw [hnone] at hs
    cases hs
  · intro s hs
    obtain ⟨content, hmem, hget⟩ := hsound.current s hs
    refine ⟨?_, content, hmem, ?_⟩
    · intro p hp
      obtain ⟨s', hs', hle⟩ := hsound.highest p hp
      cases Option.some.inj (Option.mem_def.mp hs' ▸ Option.mem_def.mp hs)
      exact hle
    · rw [read, hget]

def drawnTwice : Traffic :=
  ((start .empty).draw.setBuild 1 (some .drawn)).draw.setBuild 2 (some .drawn)

def written (t : Traffic) (n : UInt64) (content : Bytes) : Traffic :=
  let created := (t.setFolder (t.archive.folder.insert (draftName n) [])).setBuild n (some (.writing [] t.archive.current))
  (created.setFolder (created.archive.folder.extend (draftName n) content)).setBuild n
    (some (.writing content t.archive.current))

theorem reachable_drawnTwice : Reachable drawnTwice :=
  ((Reachable.start (by decide)).step (.draw (by decide))).step (.draw (by decide))

theorem Reachable.written (ht : Reachable t) (h : t.builds n = some .drawn) (content : Bytes) :
    Reachable (t.written n content) :=
  (ht.step (.create h)).step (.write (setBuild_self _) content)

theorem Reachable.finished (ht : Reachable t) {content : Bytes} {before : Option Stored}
    (hb : t.builds n = some (.writing content before)) (hnone : t.archive.current = none) (about : Meta) :
    ∃ t', Reachable t' ∧ t'.archive.current = some ⟨n, about⟩ ∧ ∀ m, m ≠ n → t'.builds m = t.builds m := by
  have hnot : ¬Overtaken t.archive.current before n := by
    rintro ⟨s, hs, -⟩
    rw [hnone] at hs
    cases hs
  have hr := ht.sound.ready_finish hb hnot
  refine ⟨_, ht.step (.finish hb about), hr.current_commit about ?_, fun m hm => ?_⟩
  · intro s hs
    rw [setBuild, hnone] at hs
    cases hs
  · rw [Traffic.commit, Archive.commit_eq hr.file]
    exact setBuild_of_ne hm none

theorem slow_build_fails : ∃ t, Reachable t ∧ t.builds 1 = some (.writing [1] none) ∧
    t.archive.current = some ⟨2, default⟩ ∧
    t.archive.commit 1 default (draftName 1) = (.error .missing, t.archive) := by
  have ht : Reachable ((drawnTwice.written 1 [1]).written 2 [2]) :=
    (reachable_drawnTwice.written rfl [1]).written rfl [2]
  obtain ⟨t, ht, hcurrent, hothers⟩ := ht.finished (n := 2) rfl rfl default
  have hb := hothers 1 (by decide)
  refine ⟨t, ht, hb, hcurrent, ht.sound.commit_lost hb ?_ default⟩
  rw [hcurrent]
  exact ⟨_, rfl, by decide, nofun⟩

theorem late_build_commits : ∃ t before, Reachable t ∧ t.builds 1 = some (.writing [1] before) ∧
    t.archive.current = some ⟨2, default⟩ ∧ (t.archive.commit 1 default (draftName 1)).1 = .ok () ∧
    (t.archive.commit 1 default (draftName 1)).2.current = some ⟨2, default⟩ ∧
    ∃ content, (⟨2, default⟩, content) ∈ t.committed ∧ t.archive.read ⟨2, default⟩ = .ok content := by
  have hone : Reachable (drawnTwice.written 2 [2]) := reachable_drawnTwice.written rfl [2]
  obtain ⟨t, ht, hcurrent, hothers⟩ := hone.finished (n := 2) rfl rfl default
  have hlate := ht.written (hothers 1 (by decide)) [1]
  have hcurrent' : (t.written 1 [1]).archive.current = some ⟨2, default⟩ := hcurrent
  obtain ⟨hbuild, -, hkeep, -, -, hread⟩ := commits_iff_not_overtaken hlate default
  refine ⟨_, _, hlate, setBuild_self _, hcurrent', (hbuild 1 [1] _ (setBuild_self _)).mpr (not_overtaken_self _ 1), ?_,
    (hread _ hcurrent').2⟩
  exact (hkeep 1 (draftName 1) _ hcurrent' (by decide)).trans hcurrent'

end Traffic

end Uniqueness.Archive
