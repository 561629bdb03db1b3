import Uniqueness.Archive
import Uniqueness.Proofs.Numerals
import Uniqueness.Proofs.SortedMaps
import Mathlib.Data.List.Basic

namespace Uniqueness

namespace Archive

theorem append_ne_append (stem : String) {s t : String} (h : s.toList ≠ t.toList) : stem ++ s ≠ stem ++ t := by
  intro he
  have hl := congrArg String.toList he
  rw [String.toList_append, String.toList_append] at hl
  exact h (List.append_cancel_left hl)

theorem dataName_ne_aboutDraftName (n : UInt64) : dataName n ≠ aboutDraftName n :=
  append_ne_append _ (by decide)

theorem dataName_ne_aboutName (n : UInt64) : dataName n ≠ aboutName n :=
  append_ne_append _ (by decide)

theorem number?_append (n : UInt64) {ending : String} (h : ending.toList.head? = some '.') :
    number? (numeral n ++ ending) = some n := by
  have hpoint : ∀ c ∈ (numeral n).toList, (c != '.') = true := by
    intro c hc
    rw [bne_iff_ne]
    rintro rfl
    exact absurd (Decimal.isDigit_of_mem_padded hc) (by decide)
  obtain ⟨rest, hrest⟩ := List.head?_eq_some_iff.mp h
  have hname : (numeral n ++ ending).toList.takeWhile (· != '.') = (numeral n).toList := by
    rw [String.toList_append, List.takeWhile_append_of_pos hpoint, hrest]
    exact List.append_nil _
  rw [number?, hname, String.ofList_toList, numeral, Decimal.word64?_padded]

theorem number?_dataName (n : UInt64) : number? (dataName n) = some n :=
  number?_append n rfl

theorem number?_draftName (n : UInt64) : number? (draftName n) = some n :=
  number?_append n rfl

theorem number?_aboutName (n : UInt64) : number? (aboutName n) = some n :=
  number?_append n rfl

theorem number?_aboutDraftName (n : UInt64) : number? (aboutDraftName n) = some n :=
  number?_append n rfl

theorem number?_receivingName : number? receivingName = none := by
  decide

theorem ne_receivingName {name : String} {n : UInt64} (h : number? name = some n) : name ≠ receivingName := by
  rintro rfl
  rw [number?_receivingName] at h
  cases h

theorem ne_of_number? {name name' : String} {n : UInt64} (h : number? name = some n) (h' : number? name' ≠ some n) :
    name ≠ name' := by
  rintro rfl
  exact h' h

theorem dataName_ne_draftName (m n : UInt64) : dataName m ≠ draftName n := by
  by_cases hn : m = n
  · rw [hn]
    exact append_ne_append _ (by decide)
  · apply ne_of_number? (number?_dataName m)
    rw [number?_draftName]
    exact fun h => hn (Option.some.inj h).symm

theorem draftName_ne {m n : UInt64} (h : m ≠ n) : draftName m ≠ draftName n := by
  apply ne_of_number? (number?_draftName m)
  rw [number?_draftName]
  exact fun he => h (Option.some.inj he).symm

theorem toList_of_stem? {ending name stem : String} (h : stem? ending name = some stem) :
    name.toList = stem.toList ++ ending.toList := by
  rw [stem?] at h
  split at h
  case isTrue he => rw [← Option.some.inj h, String.toList_ofList, he]
  case isFalse => cases h

theorem stem?_append_eq_none (stem : String) {ending last : String} (h : ¬ending.toList <:+ last.toList)
    (h' : ¬last.toList <:+ ending.toList) : stem? ending (stem ++ last) = none := by
  rw [Option.eq_none_iff_forall_ne_some]
  intro front hfront
  have hending : ending.toList <:+ (stem ++ last).toList := ⟨front.toList, (toList_of_stem? hfront).symm⟩
  have hlast : last.toList <:+ (stem ++ last).toList := ⟨stem.toList, String.toList_append.symm⟩
  rcases List.suffix_or_suffix_of_suffix hending hlast with hs | hs
  · exact h hs
  · exact h' hs

theorem not_isStale_dataName (n : UInt64) (all : Bool) : isStale (some n) all (dataName n) = false := by
  unfold isStale
  rw [if_neg (ne_receivingName (number?_dataName n)), number?_dataName, dataName,
    stem?_append_eq_none _ (by decide) (by decide)]
  exact if_pos rfl

theorem not_isStale_aboutName (n : UInt64) (all : Bool) : isStale (some n) all (aboutName n) = false := by
  unfold isStale
  rw [if_neg (ne_receivingName (number?_aboutName n)), number?_aboutName, aboutName,
    stem?_append_eq_none _ (by decide) (by decide)]
  exact if_pos rfl

theorem isStale_of_ne {name : String} {n k : UInt64} (hn : number? name = some n) (hk : n ≠ k) (all : Bool) :
    isStale (some k) all name = (decide (n < k) || all) := by
  unfold isStale
  rw [if_neg (ne_receivingName hn), hn]
  exact if_neg hk

theorem run_remove (folder : Folder) (names : List String) :
    (folder.run (names.map .remove)).1 = true ∧ ∀ name, (folder.run (names.map .remove)).2.get? name =
      if name ∈ names then none else folder.get? name := by
  induction names generalizing folder with
  | nil => exact ⟨rfl, fun name => by rw [if_neg List.not_mem_nil]; rfl⟩
  | cons first names ih =>
    obtain ⟨hrun, hget⟩ := ih (folder.erase first)
    refine ⟨hrun, fun name => ?_⟩
    refine (hget name).trans ?_
    rw [SortedMap.get?_erase]
    by_cases hn : name ∈ names
    · simp [hn]
    · by_cases hf : name = first
      · simp [hf]
      · simp [hn, hf]

theorem get?_writeFile (a : Archive) (name : String) (content : Bytes) :
    (a.writeFile name content).folder.get? name = some content := by
  change SortedMap.get? ((a.folder.insert name []).insert name content) name = some content
  rw [SortedMap.get?_insert, if_pos rfl]

theorem get?_writeFile_of_ne {name name' : String} (h : name' ≠ name) (a : Archive) (content : Bytes) :
    (a.writeFile name content).folder.get? name' = a.folder.get? name' := by
  change SortedMap.get? ((a.folder.insert name []).insert name content) name' = _
  rw [SortedMap.get?_insert, if_neg h, SortedMap.get?_insert, if_neg h]

theorem received_eq_ok_iff {a : Archive} {content : Bytes} :
    a.received = .ok content ↔ a.folder.get? receivingName = some content := by
  rw [received]
  cases a.folder.get? receivingName with
  | none => exact iff_of_false nofun nofun
  | some found => rw [Except.ok.injEq, Option.some.injEq]

def committed (folder : Folder) (n : UInt64) (about : Meta) (source : String) (content : Bytes) : Folder :=
  let moved := (folder.erase source).insert (dataName n) content
  let drafted := (moved.insert (aboutDraftName n) []).insert (aboutDraftName n) (Json.encode about)
  (drafted.erase (aboutDraftName n)).insert (aboutName n) (Json.encode about)

theorem run_commitSteps {folder : Folder} {source : String} {content : Bytes}
    (h : folder.get? source = some content) (n : UInt64) (about : Meta) :
    folder.run (commitSteps n about source) = (true, committed folder n about source content) := by
  have hdraft : ∀ f : Folder, (f.insert (aboutDraftName n) (Json.encode about)).get? (aboutDraftName n) =
      some (Json.encode about) := by
    intro f
    rw [SortedMap.get?_insert, if_pos rfl]
  simp only [commitSteps, writeSteps, List.cons_append, List.nil_append, Folder.run, Folder.step?, h, hdraft,
    committed]

theorem get?_committed (folder : Folder) (n : UInt64) (about : Meta) (source : String) (content : Bytes) :
    (committed folder n about source content).get? (dataName n) = some content := by
  rw [committed, SortedMap.get?_insert, if_neg (dataName_ne_aboutName n), SortedMap.get?_erase,
    if_neg (dataName_ne_aboutDraftName n), SortedMap.get?_insert, if_neg (dataName_ne_aboutDraftName n),
    SortedMap.get?_insert, if_neg (dataName_ne_aboutDraftName n), SortedMap.get?_insert, if_pos rfl]

theorem get?_aboutName_committed (folder : Folder) (n : UInt64) (about : Meta) (source : String) (content : Bytes) :
    (committed folder n about source content).get? (aboutName n) = some (Json.encode about) := by
  rw [committed, SortedMap.get?_insert, if_pos rfl]

section Others

variable {name source : String} {n : UInt64} (hs : name ≠ source)

include hs

theorem get?_committed_of_ne (hdata : name ≠ dataName n) (habout : name ≠ aboutName n)
    (hdraft : name ≠ aboutDraftName n) (folder : Folder) (about : Meta) (content : Bytes) :
    (committed folder n about source content).get? name = folder.get? name := by
  rw [committed, SortedMap.get?_insert, if_neg habout, SortedMap.get?_erase, if_neg hdraft, SortedMap.get?_insert,
    if_neg hdraft, SortedMap.get?_insert, if_neg hdraft, SortedMap.get?_insert, if_neg hdata, SortedMap.get?_erase,
    if_neg hs]

theorem get?_committed_of_number (hn : number? name ≠ some n) (folder : Folder) (about : Meta) (content : Bytes) :
    (committed folder n about source content).get? name = folder.get? name := by
  apply get?_committed_of_ne hs
  · rintro rfl
    exact hn (number?_dataName n)
  · rintro rfl
    exact hn (number?_aboutName n)
  · rintro rfl
    exact hn (number?_aboutDraftName n)

end Others

theorem get?_run_pruneSteps {folder : Folder} {names : List String} (hn : ∀ name ∈ folder.keys, name ∈ names)
    (keep : Option UInt64) (all : Bool) (name : String) :
    (folder.run (pruneSteps keep all names)).2.get? name =
      if isStale keep all name then none else folder.get? name := by
  refine ((run_remove folder (names.filter (isStale keep all))).2 name).trans ?_
  by_cases hs : isStale keep all name = true
  · rw [if_pos hs]
    split
    case isTrue => rfl
    case isFalse hm => exact SortedMap.get?_eq_none_iff.mpr fun hk => hm (List.mem_filter.mpr ⟨hn name hk, hs⟩)
  · rw [if_neg hs, if_neg fun hm => hs (List.mem_filter.mp hm).2]

theorem get?_prune (a : Archive) (keep : Option UInt64) (all : Bool) (name : String) :
    (a.prune keep all).folder.get? name = if isStale keep all name then none else a.folder.get? name :=
  get?_run_pruneSteps (fun _ h => h) keep all name

theorem get?_dataName_prune (a : Archive) (n : UInt64) (all : Bool) :
    (a.prune (some n) all).folder.get? (dataName n) = a.folder.get? (dataName n) := by
  rw [get?_prune, not_isStale_dataName]
  exact if_neg Bool.false_ne_true

theorem commit_eq {a : Archive} {source : String} {content : Bytes} (h : a.folder.get? source = some content)
    (n : UInt64) (about : Meta) : a.commit n about source = (.ok (),
      if a.current.any (n < ·.number) then { a with folder := committed a.folder n about source content }
      else prune { a with folder := committed a.folder n about source content, current := some ⟨n, about⟩ }
        (some n) false) := by
  rw [commit, run_commitSteps h]
  simp only
  split
  · rfl
  · rfl

theorem commit_missing {a : Archive} {source : String} (h : a.folder.get? source = none) (n : UInt64) (about : Meta) :
    a.commit n about source = (.error .missing, a) := by
  simp only [commit, commitSteps, List.cons_append, Folder.run, Folder.step?, h]

theorem commit_ok {a : Archive} {source : String} {content : Bytes}
    (h : a.folder.get? source = some content) (n : UInt64) (about : Meta) :
    ∃ a', a.commit n about source = (.ok (), a') ∧ a'.read ⟨n, about⟩ = .ok content := by
  refine ⟨_, commit_eq h n about, ?_⟩
  split
  · simp only [read, get?_committed]
  · simp only [read, get?_dataName_prune, get?_committed]

end Archive

end Uniqueness
