import Uniqueness.Settings.Peers
import Uniqueness.Proofs.Numerals
import Uniqueness.Proofs.Results
import Uniqueness.Proofs.SortedMaps

/-!
The peers of a table of names. A table that has been read is gone through in an order of its own, and a node may have
more than one name: what the order decides is said here.
-/

namespace Uniqueness.Peers

open Decimal (Numeral)

def IsNumber (name : String) : Prop :=
  ∃ n : UInt64, Numeral name.toList n.toNat

def NamedOnce (named : List (String × String)) : Prop :=
  ∀ e ∈ named, ∀ e' ∈ named, ∀ n : UInt64, Numeral e.1.toList n.toNat → Numeral e'.1.toList n.toNat → e.1 = e'.1

def Agree (named : List (String × String)) : Prop :=
  ∀ e ∈ named, ∀ e' ∈ named, ∀ n : UInt64, Numeral e.1.toList n.toNat → Numeral e'.1.toList n.toNat → e.2 = e'.2

def OneStranger (named : List (String × String)) : Prop :=
  ∀ e ∈ named, ∀ e' ∈ named, ¬IsNumber e.1 → ¬IsNumber e'.1 → e.1 = e'.1

structure Keeps (p : Peers) (named : List (String × String)) : Prop where
  size : p.addresses.size = named.length
  address : ∀ e ∈ named, ∀ n : UInt64, Numeral e.1.toList n.toNat → p.get? n = some e.2

def notNumber (name : String) : Fault :=
  .domain ("invalid peer node id '" ++ name ++ "'")

def numbered (e : String × String) : UInt64 × String :=
  ((Decimal.word64? e.1).getD 0, e.2)

theorem isNumber_iff {name : String} : IsNumber name ↔ (Decimal.word64? name).isSome := by
  rw [Option.isSome_iff_exists]
  exact exists_congr fun n => Decimal.word64?_eq_some_iff.symm

instance (name : String) : Decidable (IsNumber name) :=
  decidable_of_iff _ isNumber_iff.symm

theorem namedOnce_iff {named : List (String × String)} : NamedOnce named ↔
    ∀ e ∈ named, ∀ e' ∈ named, IsNumber e.1 → Decimal.word64? e.1 = Decimal.word64? e'.1 → e.1 = e'.1 := by
  refine forall₄_congr fun e _ e' _ => ?_
  simp only [IsNumber, ← Decimal.word64?_eq_some_iff, forall_exists_index]
  refine forall_congr' fun n => imp_congr_right fun hn => ?_
  rw [hn, eq_comm]

instance (named : List (String × String)) : Decidable (NamedOnce named) :=
  decidable_of_iff _ namedOnce_iff.symm

theorem word64?_of_not_isNumber {name : String} (h : ¬IsNumber name) : Decimal.word64? name = none := by
  simpa [isNumber_iff] using h

theorem numbered_eq {e : String × String} {n : UInt64} (h : Numeral e.1.toList n.toNat) : numbered e = (n, e.2) := by
  rw [numbered, Decimal.word64?_eq_some_iff.mpr h, Option.getD_some]

theorem numeral_numbered {e : String × String} (h : IsNumber e.1) : Numeral e.1.toList (numbered e).1.toNat := by
  obtain ⟨n, hn⟩ := h
  rwa [numbered_eq hn]

theorem notNumber_inj {name name' : String} (h : notNumber name = notNumber name') : name = name' := by
  have htext := congrArg String.toList (Fault.domain.inj h)
  simp only [String.toList_append, List.append_assoc, List.append_cancel_left_eq, List.append_cancel_right_eq] at htext
  exact String.toList_inj.mp htext

theorem Agree.of_namedOnce {named : List (String × String)} (hnames : (named.map (·.1)).Nodup) (h : NamedOnce named) :
    Agree named := by
  intro e he e' he' n hn hn'
  rw [List.inj_on_of_nodup_map hnames he he' (h e he e' he' n hn hn')]

theorem addNamed_of_numbers {order : List (String × String)} (h : ∀ e ∈ order, IsNumber e.1) (p : Peers) :
    addNamed order p = .ok ⟨p.addresses.insertAll (order.map numbered)⟩ := by
  induction order generalizing p with
  | nil => rfl
  | cons e order ih =>
    obtain ⟨⟨n, hn⟩, horder⟩ := List.forall_mem_cons.mp h
    obtain ⟨name, address⟩ := e
    rw [addNamed, Decimal.word64?_eq_some_iff.mpr hn, List.map_cons, numbered_eq hn]
    exact ih horder _

theorem addNamed_cons_of_not_isNumber {e : String × String} (h : ¬IsNumber e.1) (order : List (String × String))
    (p : Peers) : addNamed (e :: order) p = .error (notNumber e.1) := by
  obtain ⟨name, address⟩ := e
  rw [addNamed, word64?_of_not_isNumber h]
  rfl

theorem addNamed_of_not_isNumber {order : List (String × String)} (h : ∃ e ∈ order, ¬IsNumber e.1) (p : Peers) :
    ∃ e ∈ order, ¬IsNumber e.1 ∧ addNamed order p = .error (notNumber e.1) := by
  induction order generalizing p with
  | nil =>
    obtain ⟨e, he, -⟩ := h
    cases he
  | cons e order ih =>
    by_cases hnumber : IsNumber e.1
    · obtain ⟨n, hn⟩ := hnumber
      have hrest : ∃ e ∈ order, ¬IsNumber e.1 := by
        obtain ⟨e', he', hno⟩ := h
        rcases List.mem_cons.mp he' with rfl | he'
        · exact absurd ⟨n, hn⟩ hno
        · exact ⟨e', he', hno⟩
      obtain ⟨e', he', hno, herror⟩ := ih hrest (p.insert n e.2)
      refine ⟨e', List.mem_cons_of_mem _ he', hno, ?_⟩
      rw [← herror, addNamed, Decimal.word64?_eq_some_iff.mpr hn]
    · exact ⟨e, List.mem_cons_self, hnumber, addNamed_cons_of_not_isNumber hnumber order p⟩

theorem ofNamed_of_numbers {order : List (String × String)} (h : ∀ e ∈ order, IsNumber e.1) :
    ofNamed order = .ok (ofList (order.map numbered)) :=
  addNamed_of_numbers h .empty

theorem ofNamed_of_not_numbers {order : List (String × String)} (h : ¬∀ e ∈ order, IsNumber e.1) :
    ∃ e ∈ order, ¬IsNumber e.1 ∧ ofNamed order = .error (notNumber e.1) := by
  push Not at h
  exact addNamed_of_not_isNumber h .empty

theorem exists_ofNamed_iff {order : List (String × String)} :
    (∃ p, ofNamed order = .ok p) ↔ ∀ e ∈ order, IsNumber e.1 := by
  constructor
  · rintro ⟨p, hp⟩
    by_contra hno
    obtain ⟨e, -, -, herror⟩ := ofNamed_of_not_numbers hno
    rw [herror] at hp
    cases hp
  · intro h
    exact ⟨_, ofNamed_of_numbers h⟩

theorem mapError_inner (order : List (String × String)) : (ofNamed order).mapError Fault.inner = ofNamed order := by
  by_cases hall : ∀ e ∈ order, IsNumber e.1
  · rw [ofNamed_of_numbers hall]
    rfl
  · obtain ⟨e, -, -, herror⟩ := ofNamed_of_not_numbers hall
    rw [herror]
    rfl

theorem get?_last {order : List (String × String)} {e : String × String} {n : UInt64}
    (h : Numeral e.1.toList n.toNat) : (ofList ((order ++ [e]).map numbered)).get? n = some e.2 := by
  rw [get?, ofList, SortedMap.get?_ofList, List.map_append, List.reverse_append]
  simp [numbered_eq h]

section

variable {named order order' : List (String × String)} (horder : order.Perm named)

include horder

theorem isNumber_of_perm (h : ∀ e ∈ named, IsNumber e.1) : ∀ e ∈ order, IsNumber e.1 :=
  fun e he => h e (horder.mem_iff.mp he)

theorem get?_of_agree (hall : ∀ e ∈ named, IsNumber e.1) (hagree : Agree named) {e : String × String} (he : e ∈ named)
    {n : UInt64} (hn : Numeral e.1.toList n.toNat) : (ofList (order.map numbered)).get? n = some e.2 := by
  have hmem : (n, e.2) ∈ order.map numbered := List.mem_map.mpr ⟨e, horder.mem_iff.mpr he, numbered_eq hn⟩
  refine SortedMap.get?_insertAll_of_mem hmem fun address haddress => ?_
  obtain ⟨e', he', hnumbered⟩ := List.mem_map.mp haddress
  have hmem' := horder.mem_iff.mp he'
  have hn' := numeral_numbered (hall e' hmem')
  rw [hnumbered] at hn'
  rw [← hagree e' hmem' e he n hn' hn, ← (Prod.mk.inj hnumbered).2]

theorem ofList_eq_of_agree (horder' : order'.Perm named) (hall : ∀ e ∈ named, IsNumber e.1) (hagree : Agree named) :
    ofList (order.map numbered) = ofList (order'.map numbered) := by
  have hget : ∀ n, (ofList (order.map numbered)).get? n = (ofList (order'.map numbered)).get? n := by
    intro n
    by_cases hn : ∃ e ∈ named, Numeral e.1.toList n.toNat
    · obtain ⟨e, he, hn⟩ := hn
      rw [get?_of_agree horder hall hagree he hn, get?_of_agree horder' hall hagree he hn]
    · have hnone : ∀ {es : List (String × String)}, es.Perm named → (ofList (es.map numbered)).get? n = none := by
        intro es hes
        refine SortedMap.get?_insertAll_of_not_mem fun f hf => ?_
        obtain ⟨e, he, rfl⟩ := List.mem_map.mp hf
        rintro rfl
        have hmem := hes.mem_iff.mp he
        exact hn ⟨e, hmem, numeral_numbered (hall e hmem)⟩
      rw [hnone horder, hnone horder']
  exact congrArg Peers.mk (SortedMap.ext_get? hget)

theorem keeps_iff (hnames : (named.map (·.1)).Nodup) (hall : ∀ e ∈ named, IsNumber e.1) :
    (ofList (order.map numbered)).Keeps named ↔ NamedOnce named := by
  have hkeys : (order.map numbered).map (·.1) = order.map fun e => (numbered e).1 := List.map_map
  have hnodup : (order.map fun e => (numbered e).1).Nodup ↔ (named.map fun e => (numbered e).1).Nodup :=
    (horder.map _).nodup_iff
  have hsize : (ofList (order.map numbered)).addresses.size = named.length ↔
      (named.map fun e => (numbered e).1).Nodup := by
    have hlength : named.length = (order.map numbered).length := by rw [List.length_map, horder.length_eq]
    rw [← hnodup, ← hkeys, hlength]
    exact SortedMap.size_ofList_eq_length_iff
  constructor
  · intro hkeeps e he e' he' n hn hn'
    have hnumber : (numbered e).1 = (numbered e').1 := by rw [numbered_eq hn, numbered_eq hn']
    rw [List.inj_on_of_nodup_map (hsize.mp hkeeps.size) he he' hnumber]
  · intro hone
    have hagree := Agree.of_namedOnce hnames hone
    refine ⟨hsize.mpr ?_, fun e he n hn => get?_of_agree horder hall hagree he hn⟩
    refine List.Nodup.map_on (fun e he e' he' hnumber => ?_) hnames.of_map
    have hn := numeral_numbered (hall e he)
    have hn' := numeral_numbered (hall e' he')
    rw [← hnumber] at hn'
    exact List.inj_on_of_nodup_map hnames he he' (hone e he e' he' _ hn hn')

end

theorem ofNamed_eq_iff {named : List (String × String)} :
    (∀ order order', order.Perm named → order'.Perm named → ofNamed order = ofNamed order') ↔
      OneStranger named ∧ ((∀ e ∈ named, IsNumber e.1) → Agree named) := by
  constructor
  · intro h
    constructor
    · intro e he e' he' hno hno'
      have herror := h _ _ (List.perm_cons_erase he).symm (List.perm_cons_erase he').symm
      rw [ofNamed, ofNamed, addNamed_cons_of_not_isNumber hno, addNamed_cons_of_not_isNumber hno'] at herror
      exact notNumber_inj (Except.error.inj herror)
    · intro hall e he e' he' n hn hn'
      have hlast : ∀ {f}, f ∈ named → (named.erase f ++ [f]).Perm named := fun hf =>
        (List.perm_append_singleton _ _).trans (List.perm_cons_erase hf).symm
      have hsame := h _ _ (hlast he) (hlast he')
      rw [ofNamed_of_numbers (isNumber_of_perm (hlast he) hall),
        ofNamed_of_numbers (isNumber_of_perm (hlast he') hall)] at hsame
      have hget := congrArg (fun p => p.get? n) (Except.ok.inj hsame)
      simp only [get?_last hn, get?_last hn'] at hget
      exact Option.some.inj hget
  · rintro ⟨hone, hagree⟩ order order' horder horder'
    by_cases hall : ∀ e ∈ named, IsNumber e.1
    · rw [ofNamed_of_numbers (isNumber_of_perm horder hall), ofNamed_of_numbers (isNumber_of_perm horder' hall),
        ofList_eq_of_agree horder horder' hall (hagree hall)]
    · have hno : ∀ {es : List (String × String)}, es.Perm named → ¬∀ e ∈ es, IsNumber e.1 := fun hes h =>
        hall (isNumber_of_perm hes.symm h)
      obtain ⟨e, he, heno, herror⟩ := ofNamed_of_not_numbers (hno horder)
      obtain ⟨e', he', heno', herror'⟩ := ofNamed_of_not_numbers (hno horder')
      rw [herror, herror', hone e (horder.mem_iff.mp he) e' (horder'.mem_iff.mp he') heno heno']

/-- In which order the names of a table are gone through once it has been read. -/
structure Walk where
  order : SortedMap String String → List (String × String)
  perm (named : SortedMap String String) : (order named).Perm named.entries

namespace Walk

def sorted : Walk :=
  ⟨SortedMap.entries, fun _ => .refl _⟩

def reversed : Walk :=
  ⟨fun named => named.entries.reverse, fun named => List.reverse_perm named.entries⟩

def through (named : SortedMap String String) (order : List (String × String)) (h : order.Perm named.entries) : Walk where
  order other := if other = named then order else other.entries
  perm other := by
    split
    case isTrue heq => exact heq ▸ h
    case isFalse => exact .refl _

theorem order_through {named : SortedMap String String} {order : List (String × String)}
    (h : order.Perm named.entries) : (through named order h).order named = order :=
  if_pos rfl

end Walk

def readBy (walk : Walk) : Tree → Except Fault Peers
  | .table fields ending => do ofNamed (walk.order (← readNamed ending fields .empty))
  | t => .error (t.refuse "a map")

theorem readBy_sorted (t : Tree) : readBy .sorted t = ofTree t := by
  cases t <;> rfl

def Spells (fields : List (Label × Tree)) (named : List (String × String)) : Prop :=
  List.Forall₂ (fun f e => f.1.text? = some e.1 ∧ f.2 = .text e.2) fields named

theorem readNamed_of_spells {fields : List (Label × Tree)} {named : List (String × String)} (h : Spells fields named)
    {ending : Ending} (hending : ending ≠ .broken) (m : SortedMap String String) :
    readNamed ending fields m = .ok (m.insertAll named) := by
  induction h generalizing m with
  | nil => rw [readNamed, if_neg hending, SortedMap.insertAll_nil]
  | @cons f e fields named hf _ ih =>
    obtain ⟨label, t⟩ := f
    obtain ⟨hlabel, rfl⟩ : label.text? = some e.1 ∧ t = .text e.2 := hf
    rw [readNamed, hlabel, SortedMap.insertAll_cons]
    exact ih (m.insert e.1 e.2)

theorem readBy_table (walk : Walk) {fields : List (Label × Tree)} {named : List (String × String)}
    (h : Spells fields named) {ending : Ending} (hending : ending ≠ .broken) :
    readBy walk (.table fields ending) = ofNamed (walk.order (.ofList named)) := by
  rw [readBy, readNamed_of_spells h hending, ok_bind]
  rfl

end Uniqueness.Peers
