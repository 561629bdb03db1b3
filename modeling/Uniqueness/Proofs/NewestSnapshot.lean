import Uniqueness.Proofs.LawfulCodecs
import Uniqueness.Proofs.SnapshotFolders

namespace Uniqueness.Archive

theorem stem?_append (stem ending : String) : stem? ending (stem ++ ending) = some stem := by
  have hlength : (stem ++ ending).length - ending.length = stem.toList.length := by
    rw [String.length_append, Nat.add_sub_cancel, String.length_toList]
  rw [stem?, hlength, String.toList_append, List.take_left]
  simp only [if_true, String.ofList_toList]

theorem aboutNumber?_aboutName (n : UInt64) : aboutNumber? (aboutName n) = some n := by
  rw [aboutNumber?, aboutName, stem?_append, Option.bind_some, numeral, Decimal.word64?_padded]

theorem aboutNumber?_append_eq_none (n : UInt64) {last : String} (h : ¬".meta.json".toList <:+ last.toList)
    (h' : ¬last.toList <:+ ".meta.json".toList) : aboutNumber? (numeral n ++ last) = none := by
  rw [aboutNumber?, stem?_append_eq_none _ h h', Option.bind_none]

theorem aboutNumber?_dataName (n : UInt64) : aboutNumber? (dataName n) = none :=
  aboutNumber?_append_eq_none n (by decide) (by decide)

theorem aboutNumber?_draftName (n : UInt64) : aboutNumber? (draftName n) = none :=
  aboutNumber?_append_eq_none n (by decide) (by decide)

theorem aboutNumber?_aboutDraftName (n : UInt64) : aboutNumber? (aboutDraftName n) = none :=
  aboutNumber?_append_eq_none n (by decide) (by decide)

theorem number?_of_aboutNumber? {name : String} {n : UInt64} (h : aboutNumber? name = some n) :
    number? name = some n := by
  obtain ⟨stem, hstem, hn⟩ := Option.bind_eq_some_iff.mp h
  have hpoint : ∀ c ∈ stem.toList, (c != '.') = true := by
    intro c hc
    rw [bne_iff_ne]
    rintro rfl
    exact Decimal.point_notMem_of_word64? hn hc
  have hname : name.toList.takeWhile (· != '.') = stem.toList := by
    rw [toList_of_stem? hstem, List.takeWhile_append_of_pos hpoint]
    exact List.append_nil _
  rw [number?, hname, String.ofList_toList, hn]

theorem stored?_eq_some_iff {folder : Folder} {name : String} {s : Stored} : stored? folder name = some s ↔
    aboutNumber? name = some s.number ∧ folder.contains (dataName s.number) = true ∧
      ∃ text, folder.get? name = some text ∧ Json.decode Meta text = .ok s.about := by
  delta stored?
  split
  case h_2 hne =>
    refine iff_of_false nofun ?_
    rintro ⟨hn, -, text, hget, -⟩
    exact hne _ _ hn hget
  case h_1 n text hn hget =>
    rw [hn, hget]
    split
    case isFalse hdata =>
      refine iff_of_false nofun ?_
      rintro ⟨hs, hc, -⟩
      rw [← Option.some.inj hs] at hc
      exact hdata hc
    case isTrue hdata =>
      split
      case h_1 about hd =>
        constructor
        · intro hs
          cases hs
          exact ⟨rfl, hdata, text, rfl, hd⟩
        · rintro ⟨hs, -, text', htext, hd'⟩
          cases htext
          rw [hd, Except.ok.injEq] at hd'
          rw [Option.some.injEq] at hs
          rw [hs, hd']
      case h_2 fault hd =>
        refine iff_of_false nofun ?_
        rintro ⟨-, -, text', htext, hd'⟩
        cases htext
        rw [hd] at hd'
        cases hd'

theorem number?_of_stored? {folder : Folder} {name : String} {s : Stored} (h : stored? folder name = some s) :
    number? name = some s.number :=
  number?_of_aboutNumber? (stored?_eq_some_iff.mp h).1

theorem stored?_aboutName {folder : Folder} {n : UInt64} {about : Meta} {content : Bytes}
    (habout : folder.get? (aboutName n) = some (Json.encode about))
    (hdata : folder.get? (dataName n) = some content) : stored? folder (aboutName n) = some ⟨n, about⟩ := by
  have hcontains : folder.contains (dataName n) = true := by rw [SortedMap.contains, hdata, Option.isSome_some]
  exact stored?_eq_some_iff.mpr ⟨aboutNumber?_aboutName n, hcontains, _, habout, Json.decode_encode about⟩

theorem stored?_of_get? {folder folder' : Folder}
    (h : ∀ name content, folder.get? name = some content → folder'.get? name = some content) {name : String}
    {s : Stored} (hs : stored? folder name = some s) : stored? folder' name = some s := by
  obtain ⟨hn, hdata, text, hget, hdecode⟩ := stored?_eq_some_iff.mp hs
  obtain ⟨content, hcontent⟩ := Option.isSome_iff_exists.mp hdata
  refine stored?_eq_some_iff.mpr ⟨hn, ?_, text, h _ _ hget, hdecode⟩
  rw [SortedMap.contains, h _ _ hcontent, Option.isSome_some]

theorem foldl_newer {s : Stored} {found : List Stored} {best : Option Stored}
    (hfound : ∀ t ∈ found, t.number < s.number ∨ t = s) (hbest : ∀ t ∈ best, t.number < s.number ∨ t = s)
    (h : best = some s ∨ s ∈ found) : found.foldl newer best = some s := by
  induction found generalizing best with
  | nil => exact h.resolve_right List.not_mem_nil
  | cons t found ih =>
    obtain ⟨ht, hrest⟩ := List.forall_mem_cons.mp hfound
    rw [List.foldl_cons]
    by_cases hb : best = some s
    · -- nothing that follows is newer
      have hle : t.number ≤ s.number := by
        rcases ht with hlt | rfl
        · exact Std.le_of_lt hlt
        · exact Std.le_refl _
      have hkeep : newer best t = some s := by
        rw [newer, hb, Option.any_some, decide_eq_true hle, if_pos rfl]
      exact ih hrest (hkeep ▸ hb ▸ hbest) (.inl hkeep)
    · have hlower : ∀ b ∈ best, b.number < s.number := by
        intro b hm
        refine (hbest b hm).resolve_right ?_
        rintro rfl
        exact hb hm
      have hnext : ∀ b ∈ newer best t, b.number < s.number ∨ b = s := by
        intro b hm
        rw [newer] at hm
        split at hm
        · exact .inl (hlower b hm)
        · rw [← Option.some.inj hm]
          exact ht
      refine ih hrest hnext ?_
      rcases List.mem_cons.mp (h.resolve_left hb) with rfl | hm
      · refine .inl ?_
        rw [newer, if_neg]
        rw [Option.any_eq_true]
        rintro ⟨b, hm, hle⟩
        exact absurd (hlower b hm) (Std.not_lt_of_ge (of_decide_eq_true hle))
      · exact .inr hm

theorem mem_of_foldl_newer {s : Stored} {found : List Stored} {best : Option Stored}
    (h : found.foldl newer best = some s) : best = some s ∨ s ∈ found := by
  induction found generalizing best with
  | nil => exact .inl h
  | cons t found ih =>
    rcases ih h with hb | hm
    · rw [newer] at hb
      split at hb
      · exact .inl hb
      · rw [← Option.some.inj hb]
        exact .inr List.mem_cons_self
    · exact .inr (List.mem_cons_of_mem _ hm)

theorem data_ofFolder {folder : Folder} {s : Stored} (h : (ofFolder folder).current = some s) :
    ∃ content, (ofFolder folder).folder.get? (dataName s.number) = some content := by
  have hnewest : newest folder folder.keys = some s := h
  obtain ⟨name, -, hname⟩ := List.mem_filterMap.mp ((mem_of_foldl_newer hnewest).resolve_left nofun)
  obtain ⟨content, hcontent⟩ := Option.isSome_iff_exists.mp (stored?_eq_some_iff.mp hname).2.1
  refine ⟨content, ?_⟩
  rw [ofFolder, hnewest]
  exact (get?_dataName_prune _ _ _).trans hcontent

def NumberedBelow (folder : Folder) (n : UInt64) : Prop :=
  ∀ name m, number? name = some m → folder.get? name ≠ none → m < n

variable {a : Archive} {n : UInt64} {source : String} {content : Bytes}

theorem commit_current (hs : a.folder.get? source = some content) (hcurrent : ∀ s ∈ a.current, s.number < n)
    (about : Meta) : a.commit n about source = (.ok (),
      prune { a with folder := committed a.folder n about source content, current := some ⟨n, about⟩ }
        (some n) false) := by
  rw [commit_eq hs, if_neg]
  rw [Option.any_eq_true]
  rintro ⟨s, hm, hlt⟩
  exact absurd (hcurrent s hm) (Std.not_lt_of_ge (Std.le_of_lt (of_decide_eq_true hlt)))

theorem commit_behind (hs : a.folder.get? source = some content) {s : Stored} (hmem : s ∈ a.current)
    (hlt : n < s.number) (about : Meta) :
    a.commit n about source = (.ok (), { a with folder := committed a.folder n about source content }) := by
  rw [commit_eq hs, if_pos]
  exact (Option.any_eq_true _ _).mpr ⟨s, hmem, decide_eq_true hlt⟩

theorem current_commit_behind (a : Archive) {s : Stored} (hmem : s ∈ a.current) (hlt : n < s.number) (about : Meta)
    (source : String) : (a.commit n about source).2.current = a.current := by
  cases hs : a.folder.get? source with
  | none => rw [commit_missing hs]
  | some content => rw [commit_behind hs hmem hlt]

theorem current_commit (hs : a.folder.get? source = some content) (hcurrent : ∀ s ∈ a.current, s.number < n)
    (about : Meta) : (a.commit n about source).2.current = some ⟨n, about⟩ ∧
      (a.commit n about source).2.read ⟨n, about⟩ = .ok content := by
  rw [commit_current hs hcurrent]
  refine ⟨rfl, ?_⟩
  rw [read, get?_dataName_prune, get?_committed]

theorem toNat_succ {n : UInt64} (h : n + 1 ≠ 0) : (n + 1).toNat = n.toNat + 1 := by
  have hn := n.toNat_lt
  have h' : (n + 1).toNat ≠ 0 := fun he => h (UInt64.toNat_inj.mp he)
  rw [UInt64.toNat_add, UInt64.toNat_one] at h' ⊢
  omega

theorem lt_succ {n : UInt64} (h : n + 1 ≠ 0) : n < n + 1 := by
  rw [UInt64.lt_iff_toNat_lt, toNat_succ h]
  exact Nat.lt_add_one _

theorem le_of_lt_succ {m n : UInt64} (hn : n + 1 ≠ 0) (h : m < n + 1) : m ≤ n := by
  rw [UInt64.lt_iff_toNat_lt, toNat_succ hn] at h
  exact UInt64.le_iff_toNat_le.mpr (Nat.le_of_lt_add_one h)

theorem commit_keeps (a : Archive) (n : UInt64) (about : Meta) (source : String) :
    (a.commit n about source).2.next = a.next ∧
      ∀ s ∈ (a.commit n about source).2.current, s ∈ a.current ∨ s.number = n := by
  cases h : a.folder.get? source with
  | none =>
    rw [commit_missing h]
    exact ⟨rfl, fun s hs => .inl hs⟩
  | some content =>
    rw [commit_eq h]
    split
    · exact ⟨rfl, fun s hs => .inl hs⟩
    · refine ⟨rfl, fun s hs => .inr ?_⟩
      rw [← Option.some.inj hs]

theorem next_ofFolder {folder : Folder} {s : Stored} (h : (ofFolder folder).current = some s) :
    (ofFolder folder).next = s.number + 1 := by
  have hnewest : newest folder folder.keys = some s := h
  rw [ofFolder, hnewest]
  rfl

theorem number_lt_ofFolder {folder : Folder} (h : (ofFolder folder).next ≠ 0) :
    ∀ s ∈ (ofFolder folder).current, s.number < (ofFolder folder).next := by
  intro s hs
  rw [next_ofFolder hs] at h ⊢
  exact lt_succ h

theorem stored?_committed {folder : Folder} (hsource : aboutNumber? source = none)
    (hbelow : ∀ name m, aboutNumber? name = some m → folder.get? name ≠ none → m < n) {about : Meta}
    {name : String} {t : Stored} (h : stored? (committed folder n about source content) name = some t) :
    t.number < n ∨ t = ⟨n, about⟩ := by
  obtain ⟨hnumber, -, text, hget, hdecode⟩ := stored?_eq_some_iff.mp h
  have hs : name ≠ source := by
    rintro rfl
    rw [hsource] at hnumber
    cases hnumber
  by_cases hn : t.number = n
  · -- of the files with this number only the description is read as one
    rw [hn] at hnumber
    have hdata : name ≠ dataName n := by
      rintro rfl
      rw [aboutNumber?_dataName] at hnumber
      cases hnumber
    have hdraft : name ≠ aboutDraftName n := by
      rintro rfl
      rw [aboutNumber?_aboutDraftName] at hnumber
      cases hnumber
    by_cases habout : name = aboutName n
    · rw [habout, get?_aboutName_committed] at hget
      rw [← Option.some.inj hget, Json.decode_encode, Except.ok.injEq] at hdecode
      rw [hdecode, ← hn]
      exact .inr rfl
    · rw [get?_committed_of_ne hs hdata habout hdraft] at hget
      have hlt := hbelow name n hnumber (by rw [hget]; exact nofun)
      exact absurd hlt (Std.lt_irrefl)
  · have hname := number?_of_stored? h
    rw [get?_committed_of_number hs (by rw [hname]; exact fun he => hn (Option.some.inj he))] at hget
    exact .inl (hbelow name t.number hnumber (by rw [hget]; exact nofun))

structure Newest (folder : Folder) (s : Stored) (content : Bytes) : Prop where
  data : folder.get? (dataName s.number) = some content
  described : folder.get? (aboutName s.number) = some (Json.encode s.about)
  others : ∀ name t, stored? folder name = some t → t.number < s.number ∨ t = s

namespace Newest

variable {folder : Folder} {s : Stored}

theorem aboutName_mem_keys (h : Newest folder s content) : aboutName s.number ∈ folder.keys := by
  rw [SortedMap.mem_keys, h.described, Option.isSome_some]

theorem newest_eq (h : Newest folder s content) {names : List String} (hn : aboutName s.number ∈ names) :
    newest folder names = some s := by
  apply foldl_newer
  · intro t ht
    obtain ⟨name, -, hname⟩ := List.mem_filterMap.mp ht
    exact h.others name t hname
  · nofun
  · exact .inr (List.mem_filterMap.mpr ⟨aboutName s.number, hn, stored?_aboutName h.described h.data⟩)

theorem prune (h : Newest a.folder s content) (all : Bool) :
    Newest (a.prune (some s.number) all).folder s content where
  data := by rw [get?_dataName_prune, h.data]
  described := by rw [get?_prune, not_isStale_aboutName, if_neg Bool.false_ne_true, h.described]
  others name t ht := by
    apply h.others name t
    refine stored?_of_get? ?_ ht
    intro name' content' hget
    rw [get?_prune] at hget
    split at hget
    · cases hget
    · exact hget

theorem reopen (h : Newest a.folder s content) :
    a.reopen.current = some s ∧ Newest a.reopen.folder s content := by
  have hopen : a.reopen = Archive.prune ⟨a.folder, s.number + 1, some s⟩ (some s.number) true := by
    rw [Archive.reopen, ofFolder, h.newest_eq h.aboutName_mem_keys]
    rfl
  rw [hopen]
  exact ⟨rfl, Newest.prune (a := ⟨a.folder, s.number + 1, some s⟩) h true⟩

theorem read (h : Newest a.folder s content) : a.read s = .ok content := by
  rw [Archive.read, h.data]

end Newest

theorem newest_commit (hs : a.folder.get? source = some content) (hsource : number? source = none)
    (hbelow : NumberedBelow a.folder n) (hcurrent : ∀ s ∈ a.current, s.number < n) (about : Meta) :
    Newest (a.commit n about source).2.folder ⟨n, about⟩ content := by
  rw [commit_current hs hcurrent]
  refine Newest.prune (s := ⟨n, about⟩) ⟨?_, ?_, ?_⟩ false
  · exact get?_committed _ _ _ _ _
  · exact get?_aboutName_committed _ _ _ _ _
  · intro name t ht
    have hsource' : aboutNumber? source = none := by
      rw [Option.eq_none_iff_forall_ne_some]
      intro m hm
      rw [number?_of_aboutNumber? hm] at hsource
      cases hsource
    exact stored?_committed hsource' (fun name m hm => hbelow name m (number?_of_aboutNumber? hm)) ht

end Uniqueness.Archive
