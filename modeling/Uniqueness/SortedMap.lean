namespace Uniqueness

def Increasing {κ α : Type} [Ord κ] (es : List (κ × α)) : Prop :=
  es.Pairwise fun a b => compare a.1 b.1 = .lt

structure SortedMap (κ α : Type) [Ord κ] where
  entries : List (κ × α)
  increasing : Increasing entries

namespace SortedMap

variable {κ α β : Type} [Ord κ]

instance [DecidableEq κ] [DecidableEq α] : DecidableEq (SortedMap κ α) := fun m n =>
  if h : m.entries = n.entries then .isTrue (by cases m; cases n; cases h; rfl)
  else .isFalse fun e => h (congrArg entries e)

@[ext] theorem ext {m n : SortedMap κ α} (h : m.entries = n.entries) : m = n := by
  cases m; cases n; cases h; rfl

def empty : SortedMap κ α :=
  ⟨[], .nil⟩

instance : Inhabited (SortedMap κ α) :=
  ⟨empty⟩

def size (m : SortedMap κ α) : Nat :=
  m.entries.length

def isEmpty (m : SortedMap κ α) : Bool :=
  m.entries.isEmpty

def keys (m : SortedMap κ α) : List κ :=
  m.entries.map (·.1)

def lookup (k : κ) : List (κ × α) → Option α
  | [] => none
  | e :: es => match compare k e.1 with
    | .lt => none
    | .eq => some e.2
    | .gt => lookup k es

def get? (m : SortedMap κ α) (k : κ) : Option α :=
  lookup k m.entries

def contains (m : SortedMap κ α) (k : κ) : Bool :=
  (m.get? k).isSome

def filter (m : SortedMap κ α) (p : κ → Bool) : SortedMap κ α :=
  ⟨m.entries.filter fun e => p e.1, m.increasing.filter _⟩

def map (m : SortedMap κ α) (f : α → β) : SortedMap κ β :=
  ⟨m.entries.map fun e => (e.1, f e.2), by
    simpa [Increasing, List.pairwise_map] using m.increasing⟩

def last? (m : SortedMap κ α) : Option (κ × α) :=
  m.entries.getLast?

def insertEntry (k : κ) (v : α) : List (κ × α) → List (κ × α)
  | [] => [(k, v)]
  | e :: es => match compare k e.1 with
    | .lt => (k, v) :: e :: es
    | .eq => (k, v) :: es
    | .gt => e :: insertEntry k v es

theorem mem_insertEntry {k : κ} {v : α} {es : List (κ × α)} {e : κ × α}
    (h : e ∈ insertEntry k v es) : e = (k, v) ∨ e ∈ es := by
  induction es with
  | nil => exact .inl (List.mem_singleton.mp h)
  | cons f es ih =>
    simp only [insertEntry] at h
    split at h
    · exact List.mem_cons.mp h
    · rcases List.mem_cons.mp h with h | h
      · exact .inl h
      · exact .inr (List.mem_cons_of_mem _ h)
    · rcases List.mem_cons.mp h with h | h
      · exact .inr (h ▸ List.mem_cons_self)
      · exact (ih h).imp_right (List.mem_cons_of_mem _)

theorem increasing_insertEntry [Std.TransOrd κ] [Std.LawfulEqOrd κ] {k : κ} {v : α}
    {es : List (κ × α)} (h : Increasing es) : Increasing (insertEntry k v es) := by
  induction es with
  | nil => exact List.pairwise_singleton _ _
  | cons f es ih =>
    obtain ⟨hf, hes⟩ := List.pairwise_cons.mp h
    simp only [insertEntry]
    split
    case h_1 hk =>
      refine List.pairwise_cons.mpr ⟨fun e he => ?_, h⟩
      rcases List.mem_cons.mp he with he | he
      · exact he ▸ hk
      · exact Std.TransCmp.lt_trans hk (hf e he)
    case h_2 hk =>
      refine List.pairwise_cons.mpr ⟨fun e he => ?_, hes⟩
      rw [show k = f.1 from Std.LawfulEqCmp.eq_of_compare hk]
      exact hf e he
    case h_3 hk =>
      refine List.pairwise_cons.mpr ⟨fun e he => ?_, ih hes⟩
      rcases mem_insertEntry he with he | he
      · exact he ▸ Std.OrientedCmp.lt_of_gt hk
      · exact hf e he

variable [Std.TransOrd κ] [Std.LawfulEqOrd κ]

def insert (m : SortedMap κ α) (k : κ) (v : α) : SortedMap κ α :=
  ⟨insertEntry k v m.entries, increasing_insertEntry m.increasing⟩

def insertAll (m : SortedMap κ α) (es : List (κ × α)) : SortedMap κ α :=
  es.foldl (fun m e => m.insert e.1 e.2) m

def ofList (es : List (κ × α)) : SortedMap κ α :=
  empty.insertAll es

def erase (m : SortedMap κ α) (k : κ) : SortedMap κ α :=
  m.filter fun a => compare a k != .eq

end SortedMap

abbrev SortedSet (κ : Type) [Ord κ] := SortedMap κ Unit

namespace SortedSet

variable {κ : Type} [Ord κ] [Std.TransOrd κ] [Std.LawfulEqOrd κ]

def insert (s : SortedSet κ) (k : κ) : SortedSet κ :=
  SortedMap.insert s k ()

def ofList (ks : List κ) : SortedSet κ :=
  SortedMap.ofList (ks.map fun k => (k, ()))

end SortedSet

end Uniqueness
