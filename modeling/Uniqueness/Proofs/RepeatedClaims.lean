import Uniqueness.Proofs.FirstWriterWins
import Uniqueness.Proofs.LogReplay

namespace Uniqueness

namespace History

variable {h : History} {c : Claim} {commands : List Command}

theorem commitAll_append (h : History) (commands commands' : List Command) :
    h.commitAll (commands ++ commands') = (h.commitAll commands).commitAll commands' :=
  List.foldl_append

theorem getElem?_replies (h : History) (commands : List Command) (i : Nat) :
    (h.replies commands)[i]? = (commands[i]?).map (h.commitAll (commands.take i)).reply := by
  induction commands generalizing h i with
  | nil => rfl
  | cons command commands ih =>
    rw [replies]
    cases i with
    | zero => rfl
    | succ i =>
      rw [List.getElem?_cons_succ, ih, List.getElem?_cons_succ]
      rfl

theorem reply_claim_eq_committed_iff : h.reply (.claim c) = .committed ↔ Vacant h c := by
  rw [reply]
  split
  case isTrue hv => exact iff_of_true rfl hv
  case isFalse hv => exact iff_of_false (fun he => Response.noConfusion he) hv

theorem reply_of_nil (hc : c.inputs = []) : h.reply (.claim c) = .committed := by
  rw [reply_claim_eq_committed_iff, Vacant, hc]
  exact fun r hr => absurd hr List.not_mem_nil

def Recorded (h : History) (c : Claim) : Prop :=
  ∀ r ∈ c.inputs, h.get? r = some (c.record r)

theorem recorded_commit (hv : Vacant h c) : Recorded (h.commit (.claim c)) c := by
  intro r hr
  rw [commit, if_pos hv, c.get?_insertAll_entries, if_pos hr]

theorem Recorded.commitAll (hr : Recorded h c) (commands : List Command) : Recorded (h.commitAll commands) c :=
  fun r hm => get?_commitAll (hr r hm) commands

theorem Recorded.reply (hr : Recorded h c) (hc : c.inputs ≠ []) :
    h.reply (.claim c) = .conflict ⟨c.records⟩ := by
  have hv : ¬Vacant h c := by
    obtain ⟨r, hm⟩ := List.exists_mem_of_ne_nil _ hc
    intro hv
    have hnone := hv r hm
    rw [hr r hm] at hnone
    cases hnone
  have hrecords : h.filter (fun r => r ∈ c.inputs) = c.records := by
    apply SortedMap.ext_get?
    intro r
    rw [SortedMap.get?_filter, c.get?_records]
    by_cases hm : r ∈ c.inputs
    · rw [if_pos (decide_eq_true hm), if_pos hm, hr r hm]
    · simp [hm]
  rw [History.reply, if_neg hv, hrecords]

theorem recorded_of_committed {before : List Command} (hr : (h.commitAll before).reply (.claim c) = .committed)
    (rest : List Command) :
    Recorded (h.commitAll (before ++ .claim c :: rest)) c := by
  rw [commitAll_append]
  exact (recorded_commit (reply_claim_eq_committed_iff.mp hr)).commitAll rest

theorem reply_again {i j : Nat} (hij : i < j) (hi : commands[i]? = some (.claim c))
    (hj : commands[j]? = some (.claim c)) (hr : (h.replies commands)[i]? = some .committed) (hc : c.inputs ≠ []) :
    (h.replies commands)[j]? = some (.conflict ⟨c.records⟩) := by
  rw [getElem?_replies, hi, Option.map_some, Option.some.injEq] at hr
  have htake : commands.take j = commands.take i ++ .claim c :: (commands.drop (i + 1)).take (j - (i + 1)) := by
    obtain ⟨k, rfl⟩ := Nat.exists_eq_add_of_le hij
    rw [List.take_add, List.take_add_one, hi, Nat.add_sub_cancel_left]
    simp
  have hrecorded := recorded_of_committed hr ((commands.drop (i + 1)).take (j - (i + 1)))
  rw [← htake] at hrecorded
  rw [getElem?_replies, hj, Option.map_some, hrecorded.reply hc]

end History

theorem Claim.onlyWith_records {c : Claim} (hc : c.inputs ≠ []) : Conflict.onlyWith ⟨c.records⟩ c.tx = true := by
  rw [Conflict.onlyWith, c.isEmpty_records, Bool.and_eq_true]
  constructor
  · simpa using hc
  · rw [List.all_eq_true]
    intro e he
    have hget := SortedMap.get?_eq_some_iff.mpr he
    rw [c.get?_records] at hget
    split at hget
    · rw [← Option.some.inj hget]
      exact decide_eq_true rfl
    · cases hget

namespace Repeats

open History (Settled after_of_settled settled_after)

inductive Item where
  | attempt
  | other (command : Command)
  deriving DecidableEq

def Item.command (c : Claim) : Item → Command
  | .attempt => .claim c
  | .other command => command

def commands (c : Claim) (items : List Item) : List Command :=
  items.map (Item.command c)

def others (items : List Item) : List Item :=
  items.filter (· ≠ .attempt)

def keepFirst : List Item → List Item
  | [] => []
  | .attempt :: items => .attempt :: others items
  | .other command :: items => .other command :: keepFirst items

def answersToOthers : List Item → List Response → List Response
  | .attempt :: items, _ :: responses => answersToOthers items responses
  | .other _ :: items, response :: responses => response :: answersToOthers items responses
  | _, _ => []

variable {h : History} {c : Claim}

def entry (c : Claim) : Log.Entry :=
  ⟨default, .command (.claim c)⟩

theorem commitAll_others (hs : Settled h (entry c)) (items : List Item) :
    h.commitAll (commands c items) = h.commitAll (commands c (others items)) := by
  -- an attempt changes nothing once the claim is settled, and no other command unsettles it
  induction items generalizing h with
  | nil => rfl
  | cons item items ih =>
    cases item with
    | attempt =>
      have hsame : h.commit (.claim c) = h := after_of_settled hs
      change (h.commit (.claim c)).commitAll (commands c items) = _
      rw [hsame, ih hs]
      rfl
    | other command => exact ih (hs.afterAll [⟨default, .command command⟩])

theorem answers_others (hs : Settled h (entry c)) (items : List Item) :
    answersToOthers items (h.replies (commands c items)) = h.replies (commands c (others items)) := by
  induction items generalizing h with
  | nil => rfl
  | cons item items ih =>
    cases item with
    | attempt =>
      have hsame : h.commit (.claim c) = h := after_of_settled hs
      change answersToOthers items ((h.commit (.claim c)).replies (commands c items)) = _
      rw [hsame, ih hs]
      rfl
    | other command => exact congrArg (h.reply command :: ·) (ih (hs.afterAll [⟨default, .command command⟩]))

theorem commitAll_keepFirst (h : History) (c : Claim) (items : List Item) :
    h.commitAll (commands c (keepFirst items)) = h.commitAll (commands c items) := by
  induction items generalizing h with
  | nil => rfl
  | cons item items ih =>
    cases item with
    | attempt => exact (commitAll_others (settled_after h (entry c)) items).symm
    | other command => exact ih (h.commit command)

theorem answers_keepFirst (h : History) (c : Claim) (items : List Item) :
    answersToOthers (keepFirst items) (h.replies (commands c (keepFirst items))) =
      answersToOthers items (h.replies (commands c items)) := by
  induction items generalizing h with
  | nil => rfl
  | cons item items ih =>
    cases item with
    | attempt =>
      have hs : Settled (h.commit (.claim c)) (entry c) := settled_after h (entry c)
      have hothers : others (others items) = others items := by simp [others]
      have hkept := answers_others hs (others items)
      rw [hothers] at hkept
      exact hkept.trans (answers_others hs items).symm
    | other command => exact congrArg (h.reply command :: ·) (ih (h.commit command))

end Repeats

end Uniqueness
