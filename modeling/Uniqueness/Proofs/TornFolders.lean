import Uniqueness.Proofs.NewestSnapshot

namespace Uniqueness

namespace Archive

def FileStep.names : FileStep → List String
  | .write name _ => [name]
  | .rename source target => [source, target]
  | .remove name => [name]

namespace Folder

/-- What may be left of a folder when steps on it are cut off, at any point or after the last. -/
inductive Torn : Folder → List FileStep → Folder → Prop
  | stop (folder : Folder) (steps : List FileStep) : Torn folder steps folder
  | within {piece content : Bytes} (h : piece <+: content) (folder : Folder) (name : String) (rest : List FileStep) :
    Torn folder (.write name content :: rest) (folder.insert name piece)
  | next {folder folder' left : Folder} {s : FileStep} {rest : List FileStep} (hs : folder.step? s = some folder')
    (h : Torn folder' rest left) : Torn folder (s :: rest) left

variable {folder left : Folder} {name : String}

theorem Torn.append {folder' : Folder} {first rest : List FileStep} (h : folder.run first = (true, folder'))
    (ht : Torn folder' rest left) : Torn folder (first ++ rest) left := by
  induction first generalizing folder with
  | nil =>
    cases h
    exact ht
  | cons s first ih =>
    rw [run] at h
    split at h
    case h_1 => cases h
    case h_2 folder' hs => exact .next hs (ih h)

theorem torn_of_run {steps : List FileStep} (h : folder.run steps = (true, left)) : Torn folder steps left := by
  have ht := Torn.append h (.stop left [])
  rwa [List.append_nil] at ht

theorem run_append {first : List FileStep} (h : folder.run first = (true, left)) (rest : List FileStep) :
    folder.run (first ++ rest) = left.run rest := by
  induction first generalizing folder with
  | nil =>
    cases h
    rfl
  | cons s first ih =>
    rw [run] at h
    split at h
    case h_1 => cases h
    case h_2 folder' hs =>
      rw [List.cons_append, run, hs]
      exact ih h

theorem Torn.of_append {first rest : List FileStep} (h : Torn folder (first ++ rest) left) :
    Torn folder first left ∨ ∃ folder', folder.run first = (true, folder') ∧ Torn folder' rest left := by
  induction first generalizing folder with
  | nil => exact .inr ⟨folder, rfl, h⟩
  | cons s first ih =>
    cases h with
    | stop => exact .inl (.stop _ _)
    | within hpiece => exact .inl (.within hpiece _ _ _)
    | next hs h =>
      rcases ih h with h | ⟨folder', hrun, h⟩
      · exact .inl (.next hs h)
      · refine .inr ⟨folder', ?_, h⟩
        rw [run, hs]
        exact hrun

theorem get?_step?_of_not_mem {s : FileStep} (hs : folder.step? s = some left) (hn : name ∉ s.names) :
    left.get? name = folder.get? name := by
  cases s with
  | write n content =>
    cases hs
    rw [SortedMap.get?_insert, if_neg (List.ne_of_not_mem_cons hn)]
  | rename source target =>
    obtain ⟨hsource, htarget⟩ := not_or.mp (mt List.mem_cons.mpr hn)
    rw [step?] at hs
    split at hs
    case h_1 => cases hs
    case h_2 =>
      cases hs
      rw [SortedMap.get?_insert, if_neg (List.ne_of_not_mem_cons htarget), SortedMap.get?_erase, if_neg hsource]
  | remove n =>
    cases hs
    rw [SortedMap.get?_erase, if_neg (List.ne_of_not_mem_cons hn)]

theorem Torn.get?_of_not_mem {steps : List FileStep} (h : Torn folder steps left)
    (hn : ∀ s ∈ steps, name ∉ s.names) : left.get? name = folder.get? name := by
  induction h with
  | stop => rfl
  | within _ folder n rest =>
    have hne : name ≠ n := List.ne_of_not_mem_cons (hn _ List.mem_cons_self)
    rw [SortedMap.get?_insert, if_neg hne]
  | next hs _ ih =>
    rw [ih fun s hm => hn s (List.mem_cons_of_mem _ hm), get?_step?_of_not_mem hs (hn _ List.mem_cons_self)]

theorem Torn.get?_remove {names : List String} (h : Torn folder (names.map .remove) left) (name : String) :
    left.get? name = folder.get? name ∨ name ∈ names ∧ left.get? name = none := by
  induction names generalizing folder with
  | nil =>
    cases h
    exact .inl rfl
  | cons first names ih =>
    cases h with
    | stop => exact .inl rfl
    | next hs h =>
      cases hs
      rcases ih h with hget | ⟨hm, hget⟩
      · rw [SortedMap.get?_erase] at hget
        by_cases hf : name = first
        · exact .inr ⟨hf ▸ List.mem_cons_self, by rw [hget, if_pos hf]⟩
        · exact .inl (by rw [hget, if_neg hf])
      · exact .inr ⟨List.mem_cons_of_mem _ hm, hget⟩

end Folder

open Folder (Torn)

variable {folder left : Folder} {name source : String} {content : Bytes} {n : UInt64} {about : Meta}

theorem get?_of_torn_writeSteps {name' : String} (h : Torn folder (writeSteps name content) left)
    (hne : name' ≠ name) : left.get? name' = folder.get? name' := by
  apply h.get?_of_not_mem
  intro s hs hm
  rcases List.mem_cons.mp hs with rfl | hs
  · exact hne (List.mem_singleton.mp hm)
  · rw [List.mem_singleton.mp hs] at hm
    exact hne (List.mem_singleton.mp hm)

theorem mem_of_torn_pruneSteps {keep : Option UInt64} {all : Bool} {names : List String}
    (h : Torn folder (pruneSteps keep all names) left) (name : String) :
    left.get? name = folder.get? name ∨ isStale keep all name = true ∧ left.get? name = none :=
  (h.get?_remove name).imp_right fun hm => ⟨(List.mem_filter.mp hm.1).2, hm.2⟩

theorem torn_commitSteps (hs : folder.get? source = some content) (h : Torn folder (commitSteps n about source) left) :
    left = committed folder n about source content ∨
      ∀ name, name ≠ source → name ≠ dataName n → name ≠ aboutDraftName n → left.get? name = folder.get? name := by
  have hfront : ∀ {left' : Folder},
      Torn folder ([.rename source (dataName n)] ++ writeSteps (aboutDraftName n) (Json.encode about)) left' →
      ∀ name, name ≠ source → name ≠ dataName n → name ≠ aboutDraftName n → left'.get? name = folder.get? name := by
    intro left' ht name hsource hdata hdraft
    apply ht.get?_of_not_mem
    simp [writeSteps, FileStep.names, hsource, hdata, hdraft]
  rcases h.of_append with ht | ⟨folder', hrun, ht⟩
  · exact .inr (hfront ht)
  · cases ht with
    | stop => exact .inr (hfront (Folder.torn_of_run hrun))
    | next hlast ht =>
      cases ht
      have hall := run_commitSteps hs n about
      rw [commitSteps, Folder.run_append hrun, Folder.run, hlast] at hall
      exact .inl (congrArg Prod.snd hall)

def openAs (folder : Folder) (names others : List String) : Archive :=
  let current := newest folder names
  let next := match current with
    | none => 1
    | some s => s.number + 1
  ⟨(folder.run (pruneSteps (current.map (·.number)) true others)).2, next, current⟩

theorem ofFolder_eq (folder : Folder) : ofFolder folder = openAs folder folder.keys folder.keys :=
  rfl

structure Finds (folder : Folder) (kept : Option (Stored × Bytes)) : Prop where
  newest : ∀ p ∈ kept, Newest folder p.1 p.2
  nothing : kept = none → ∀ name, stored? folder name = none

namespace Finds

variable {kept : Option (Stored × Bytes)}

theorem newest_eq (h : Finds folder kept) {names : List String} (hn : names.Perm folder.keys) :
    Archive.newest folder names = kept.map (·.1) := by
  cases kept with
  | none =>
    have hnothing : names.filterMap (stored? folder) = [] :=
      List.filterMap_eq_nil_iff.mpr fun name _ => h.nothing rfl name
    rw [Archive.newest, hnothing]
    rfl
  | some p =>
    have hp := h.newest p rfl
    exact hp.newest_eq (hn.mem_iff.mpr hp.aboutName_mem_keys)

theorem openAs_eq (h : Finds folder kept) {names others : List String} (hn : names.Perm folder.keys)
    (ho : others.Perm folder.keys) : openAs folder names others = ofFolder folder := by
  -- neither what is removed nor what is found depends on the order of the names
  have hfolder : ∀ keep, (folder.run (pruneSteps keep true others)).2 =
      (folder.run (pruneSteps keep true folder.keys)).2 := by
    intro keep
    apply SortedMap.ext_get?
    intro name
    rw [get?_run_pruneSteps (fun _ hm => ho.mem_iff.mpr hm), get?_run_pruneSteps (fun _ hm => hm)]
  rw [ofFolder_eq, openAs, openAs, h.newest_eq hn, h.newest_eq (.refl _), hfolder]

theorem mono (h : Finds folder kept) (hstored : ∀ name t, stored? left name = some t → stored? folder name = some t)
    (hfiles : ∀ p ∈ kept, left.get? (dataName p.1.number) = folder.get? (dataName p.1.number) ∧
      left.get? (aboutName p.1.number) = folder.get? (aboutName p.1.number)) : Finds left kept where
  newest p hp := by
    have hnewest := h.newest p hp
    obtain ⟨hdata, habout⟩ := hfiles p hp
    exact ⟨hdata.trans hnewest.data, habout.trans hnewest.described,
      fun name t ht => hnewest.others name t (hstored name t ht)⟩
  nothing hnone name := by
    rw [Option.eq_none_iff_forall_ne_some]
    intro t ht
    have hfound := hstored name t ht
    rw [h.nothing hnone] at hfound
    cases hfound

theorem of_torn (h : Finds folder kept) {all : Bool} {names : List String}
    (ht : Torn folder (pruneSteps (kept.map (·.1.number)) all names) left) : Finds left kept := by
  refine h.mono ?_ ?_
  · intro name t
    apply stored?_of_get?
    intro name content hget
    have hsame := (mem_of_torn_pruneSteps ht name).resolve_right fun hm => by
      rw [hm.2] at hget
      cases hget
    rw [← hget, hsame]
  · rintro p hp
    cases hp
    have hstays : ∀ name, isStale (some p.1.number) all name = false → left.get? name = folder.get? name := by
      intro name hname
      refine (mem_of_torn_pruneSteps ht name).resolve_right ?_
      rintro ⟨hm, -⟩
      exact Bool.false_ne_true (hname.symm.trans hm)
    exact ⟨hstays _ (not_isStale_dataName _ _), hstays _ (not_isStale_aboutName _ _)⟩

protected theorem ofFolder (h : Finds folder kept) : Finds (ofFolder folder).folder kept := by
  have hnumber : kept.map (·.1.number) = (Archive.newest folder folder.keys).map (·.number) := by
    rw [h.newest_eq (.refl _), Option.map_map]
    rfl
  have ht : Torn folder (pruneSteps (kept.map (·.1.number)) true folder.keys) (ofFolder folder).folder := by
    rw [hnumber]
    exact Folder.torn_of_run (Prod.ext (run_remove _ _).1 rfl)
  exact h.of_torn ht

theorem of_described (h : Finds folder kept) (hget : ∀ name m, aboutNumber? name = some m →
      left.get? name = folder.get? name ∧
        (folder.get? name ≠ none → left.get? (dataName m) = folder.get? (dataName m))) : Finds left kept := by
  refine h.mono ?_ ?_
  · intro name t ht
    obtain ⟨hn, hdata, text, htext, hdecode⟩ := stored?_eq_some_iff.mp ht
    obtain ⟨hname, hsame⟩ := hget name t.number hn
    rw [hname] at htext
    refine stored?_eq_some_iff.mpr ⟨hn, ?_, text, htext, hdecode⟩
    rw [SortedMap.contains, ← hsame (by rw [htext]; exact Option.some_ne_none _)]
    exact hdata
  · intro p hp
    obtain ⟨habout, hdata⟩ := hget _ _ (aboutNumber?_aboutName p.1.number)
    refine ⟨hdata ?_, habout⟩
    rw [(h.newest p hp).described]
    exact Option.some_ne_none _

end Finds

def namesOf (n : UInt64) : List String :=
  [dataName n, aboutName n, draftName n, aboutDraftName n]

theorem number?_of_mem_namesOf (h : name ∈ namesOf n) : number? name = some n := by
  simp only [namesOf, List.mem_cons, List.not_mem_nil, or_false] at h
  rcases h with rfl | rfl | rfl | rfl
  · exact number?_dataName n
  · exact number?_aboutName n
  · exact number?_draftName n
  · exact number?_aboutDraftName n

theorem aboutNumber?_source (h : source = draftName n ∨ source = receivingName) : aboutNumber? source = none := by
  rcases h with rfl | rfl
  · exact aboutNumber?_draftName n
  · decide

theorem isStale_append {n : UInt64} {stem : String} (hn : number? (stem ++ ".tmp") = some n) (all : Bool) :
    isStale (some n) all (stem ++ ".tmp") = true := by
  unfold isStale
  rw [if_neg (ne_receivingName hn), hn]
  simp only [if_true, stem?_append, Option.isSome_some]

theorem eq_of_not_isStale {k : UInt64} {all : Bool} (h : name ∈ namesOf n) (hs : isStale (some k) all name = false)
    (hall : all = true ∨ n ≤ k) : name = dataName k ∨ name = aboutName k := by
  have hn := number?_of_mem_namesOf h
  have hk : n = k := by
    by_contra hne
    rw [isStale_of_ne hn hne, Bool.or_eq_false_iff, decide_eq_false_iff_not] at hs
    rcases hall with rfl | hle
    · cases hs.2
    · exact hs.1 (UInt64.lt_of_le_of_ne hle hne)
  subst hk
  simp only [namesOf, List.mem_cons, List.not_mem_nil, or_false] at h
  rcases h with rfl | rfl | rfl | rfl
  · exact .inl rfl
  · exact .inr rfl
  · have hdraft : draftName n = dataName n ++ ".tmp" := by
      rw [dataName, String.append_assoc]
      rfl
    rw [hdraft] at hn hs
    cases (isStale_append hn all).symm.trans hs
  · have hdraft : aboutDraftName n = aboutName n ++ ".tmp" := by
      rw [aboutName, String.append_assoc]
      rfl
    rw [hdraft] at hn hs
    cases (isStale_append hn all).symm.trans hs

theorem isStale_none (hn : number? name = some n) (all : Bool) : isStale none all name = true := by
  unfold isStale
  rw [if_neg (ne_receivingName hn), hn]

end Archive

end Uniqueness
