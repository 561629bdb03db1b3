import Uniqueness.Settings
import Uniqueness.Proofs.JsonRoundTrip
import Uniqueness.Proofs.NamedPeers

namespace Uniqueness

theorem Shape.readTable_append {σ : Type} (shape : Shape σ) (ending : Ending) (before rest : List (Label × Tree)) (d : σ) :
    shape.readTable ending (before ++ rest) d = shape.readTable .closed before d >>= shape.readTable ending rest := by
  induction before generalizing d with
  | nil => rfl
  | cons f before ih =>
    obtain ⟨label, t⟩ := f
    rw [List.cons_append, Shape.readTable, Shape.readTable]
    cases label.text? with
    | none => rfl
    | some name =>
      simp only
      cases shape.fields.find? fun f => f.name = name with
      | none =>
        simp only
        split
        · rfl
        · split
          · exact ih d
          · rfl
      | some f =>
        simp only
        split
        · rfl
        · cases f.fill d t with
          | error fault => rfl
          | ok d' => exact ih d'

namespace Settings

open Peers (Walk)

def Draft.withPeers (d : Draft) (p : Option Peers) : Draft :=
  { d with peers := p }

def peersField (walk : Walk) : Field Draft :=
  ⟨"peers", fun d => d.peers.isSome,
    fun d t => (fun p => d.withPeers (some p)) <$> (Peers.readBy walk t).mapError Uniqueness.Fault.inner⟩

def shapeBy (walk : Walk) : Shape Draft :=
  { shape with fields := shape.fields.set 3 (peersField walk) }

def readBy (walk : Walk) (t : Tree) : Except Uniqueness.Fault Settings := do
  return (← (shapeBy walk).read {} t).finish

def decodeBy (walk : Walk) (bs : Bytes) : Except Uniqueness.Fault Settings := do
  let (t, rest) := Json.parse bs
  let s ← readBy walk t
  if (Json.skip rest).isEmpty then .ok s else .error .malformed

theorem shapeBy_sorted : shapeBy .sorted = shape := by
  have hfield : peersField .sorted = .of "peers" Draft.peers fun d a => { d with peers := some a } := by
    simp only [peersField, Peers.readBy_sorted]
    rfl
  rw [shapeBy, hfield]
  rfl

theorem readBy_sorted (t : Tree) : readBy .sorted t = ofTree t := by
  rw [readBy, shapeBy_sorted]
  rfl

theorem decodeBy_sorted (bs : Bytes) : decodeBy .sorted bs = Json.decode Settings bs := by
  simp only [decodeBy, readBy_sorted]
  rfl

def Blind (f : Field Draft) : Prop :=
  ∀ (d : Draft) (p : Option Peers), f.isFilled (d.withPeers p) = f.isFilled d ∧
    ∀ t, f.fill (d.withPeers p) t = (·.withPeers p) <$> f.fill d t

theorem blind_of {α : Type} [Codec α] {name : String} {get : Draft → Option α} {put : Draft → α → Draft}
    (hget : ∀ d p, get (d.withPeers p) = get d) (hput : ∀ d p a, put (d.withPeers p) a = (put d a).withPeers p) :
    Blind (.of name get put) := by
  intro d p
  refine ⟨congrArg Option.isSome (hget d p), fun t => ?_⟩
  have hfill : ∀ x : Except Uniqueness.Fault α, put (d.withPeers p) <$> x = (·.withPeers p) <$> put d <$> x := by
    rintro (fault | a)
    · rfl
    · exact congrArg Except.ok (hput d p a)
  exact hfill (ofInner t)

theorem blind_fields : ∀ f ∈ shape.fields, f.name ≠ "peers" → Blind f := by
  simp only [shape, List.forall_mem_cons]
  exact ⟨fun _ => blind_of (fun _ _ => rfl) fun _ _ _ => rfl, fun _ => blind_of (fun _ _ => rfl) fun _ _ _ => rfl,
    fun _ => blind_of (fun _ _ => rfl) fun _ _ _ => rfl, fun h => absurd rfl h,
    fun _ => blind_of (fun _ _ => rfl) fun _ _ _ => rfl, fun _ => blind_of (fun _ _ => rfl) fun _ _ _ => rfl,
    fun _ => blind_of (fun _ _ => rfl) fun _ _ _ => rfl, fun _ => blind_of (fun _ _ => rfl) fun _ _ _ => rfl, nofun⟩

theorem find?_shapeBy (walk : Walk) {name : String} (h : name ≠ "peers") :
    ((shapeBy walk).fields.find? fun f => f.name = name) = shape.fields.find? fun f => f.name = name := by
  have hname : decide ("peers" = name) = false := decide_eq_false h.symm
  simp only [shapeBy, shape, List.set_cons_succ, List.set_cons_zero, List.find?_cons, peersField, Field.of, hname]

theorem readTable_withPeers (walk : Walk) {fields : List (Label × Tree)} (h : ∀ f ∈ fields, f.1.text? ≠ some "peers")
    (ending : Ending) (d : Draft) (p : Option Peers) : (shapeBy walk).readTable ending fields (d.withPeers p) =
      (·.withPeers p) <$> shape.readTable ending fields d := by
  induction fields generalizing d with
  | nil =>
    rw [Shape.readTable, Shape.readTable]
    split <;> rfl
  | cons f fields ih =>
    obtain ⟨label, t⟩ := f
    obtain ⟨hlabel, hfields⟩ := List.forall_mem_cons.mp h
    rw [Shape.readTable, Shape.readTable]
    cases hname : label.text? with
    | none => rfl
    | some name =>
      have hne : name ≠ "peers" := fun hpeers => hlabel (hname.trans (congrArg some hpeers))
      simp only [find?_shapeBy walk hne]
      cases hfind : shape.fields.find? fun f => f.name = name with
      | none =>
        change (if t.isSound then _ else _) = _ <$> (if t.isSound then _ else _)
        split
        · exact ih hfields d
        · rfl
      | some f =>
        have hfname : f.name = name := by simpa using List.find?_some hfind
        obtain ⟨hfilled, hfill⟩ := blind_fields f (List.mem_of_find?_eq_some hfind) (hfname ▸ hne) d p
        simp only [hfilled, hfill]
        split
        · rfl
        · cases f.fill d t with
          | error fault => rfl
          | ok d' => exact ih hfields d'

theorem readList_withPeers (walk : Walk) {fields : List (Field Draft)} (h : ∀ f ∈ fields, Blind f) (ending : Ending)
    (items : List Tree) (d : Draft) (p : Option Peers) : (shapeBy walk).readList ending fields items (d.withPeers p) =
      (·.withPeers p) <$> shape.readList ending fields items d := by
  induction fields generalizing items d with
  | nil =>
    rw [Shape.readList, Shape.readList]
    split
    · rfl
    · split <;> rfl
  | cons f fields ih =>
    obtain ⟨hf, hfields⟩ := List.forall_mem_cons.mp h
    cases items with
    | nil =>
      rw [Shape.readList, Shape.readList]
      split
      · rfl
      · rfl
    | cons t items =>
      rw [Shape.readList, Shape.readList, (hf d p).2]
      cases f.fill d t with
      | error fault => rfl
      | ok d' => exact ih hfields items d'

inductive Place : (Tree → Tree) → Prop
  | table {before after : List (Label × Tree)} {label : Label} {ending : Ending} (named : label.text? = some "peers")
    (alone : ∀ f ∈ before ++ after, f.1.text? ≠ some "peers") :
    Place fun t => .table (before ++ (label, t) :: after) ending
  | list {node listen advertised : Tree} {after : List Tree} {ending : Ending} :
    Place fun t => .list (node :: listen :: advertised :: t :: after) ending

theorem read_place {place : Tree → Tree} (h : Place place) :
    ∃ (start : Except Uniqueness.Fault Draft) (finish : Draft → Except Uniqueness.Fault Draft), ∀ walk t,
      (shapeBy walk).read {} (place t) = start >>= fun d =>
        (Peers.readBy walk t).mapError Uniqueness.Fault.inner >>= fun p => (·.withPeers (some p)) <$> finish d := by
  cases h with
  | @table before after label ending hlabel alone =>
    obtain ⟨hbefore, hafter⟩ := List.forall_mem_append.mp alone
    -- The fields before the peers leave a draft without peers, and those after them do not look at them.
    refine ⟨(·.withPeers none) <$> shape.readTable .closed before {}, shape.readTable ending after, fun walk t => ?_⟩
    have hstart : (shapeBy walk).readTable .closed before {} = (·.withPeers none) <$> shape.readTable .closed before {} :=
      readTable_withPeers walk hbefore .closed {} none
    change (shapeBy walk).readTable ending (before ++ (label, t) :: after) {} = _
    rw [Shape.readTable_append, hstart]
    cases shape.readTable .closed before {} with
    | error fault => rfl
    | ok d =>
      have hfind : ((shapeBy walk).fields.find? fun f => f.name = "peers") = some (peersField walk) := by
        simp [shapeBy, shape, Field.of, peersField]
      rw [map_ok, ok_bind, ok_bind, Shape.readTable]
      simp only [hlabel, hfind]
      change ((fun p => d.withPeers (some p)) <$> (Peers.readBy walk t).mapError Uniqueness.Fault.inner >>=
        (shapeBy walk).readTable ending after) = _
      cases (Peers.readBy walk t).mapError Uniqueness.Fault.inner with
      | error fault => rfl
      | ok p => exact readTable_withPeers walk hafter ending (d.withPeers none) (some p)
  | @list node listen advertised after ending =>
    obtain ⟨first, second, third, fourth, rest, hfields, hnames⟩ : ∃ first second third fourth rest,
        shape.fields = first :: second :: third :: fourth :: rest ∧ ∀ f ∈ rest, f.name ≠ "peers" :=
      ⟨_, _, _, _, _, rfl, by simp [Field.of]⟩
    have hrest : ∀ f ∈ rest, Blind f := by
      intro f hf
      refine blind_fields f ?_ (hnames f hf)
      rw [hfields]
      iterate 4 apply List.mem_cons_of_mem
      exact hf
    refine ⟨first.fill {} node >>= (second.fill · listen) >>= (third.fill · advertised),
      shape.readList ending rest after, fun walk t => ?_⟩
    have hfields' : (shapeBy walk).fields = first :: second :: third :: peersField walk :: rest := by
      rw [shapeBy, hfields]
      rfl
    change (shapeBy walk).readList ending (shapeBy walk).fields (node :: listen :: advertised :: t :: after) {} = _
    simp only [hfields', Shape.readList, bind_assoc]
    refine bind_congr fun d => bind_congr fun d => bind_congr fun d => ?_
    change ((fun p => d.withPeers (some p)) <$> (Peers.readBy walk t).mapError Uniqueness.Fault.inner >>=
      (shapeBy walk).readList ending rest after) = _
    cases (Peers.readBy walk t).mapError Uniqueness.Fault.inner with
    | error fault => rfl
    | ok p => exact readList_withPeers walk hrest ending after d (some p)

theorem readBy_place {place : Tree → Tree} (h : Place place) {s : Settings} (hs : ofTree (place (.object [])) = .ok s)
    (walk : Walk) (t : Tree) : readBy walk (place t) =
      (fun p => { s with peers := p }) <$> (Peers.readBy walk t).mapError Uniqueness.Fault.inner := by
  obtain ⟨start, finish, hread⟩ := read_place h
  rw [← readBy_sorted, readBy, hread] at hs
  obtain ⟨_, hread', hs'⟩ := bind_eq_ok_iff.mp hs
  obtain ⟨d, hstart, hrest⟩ := bind_eq_ok_iff.mp hread'
  obtain ⟨_, -, hfinish⟩ := bind_eq_ok_iff.mp hrest
  obtain ⟨d', hd', rfl⟩ := map_eq_ok_iff.mp hfinish
  obtain rfl := Except.ok.inj hs'
  rw [readBy, hread, hstart, ok_bind, hd']
  cases (Peers.readBy walk t).mapError Uniqueness.Fault.inner <;> rfl

inductive Tells (bs : Bytes) (named : List (String × String)) (s : Settings) : Prop
  | intro {place : Tree → Tree} {fields : List (Label × Tree)} {ending : Ending} {rest : Bytes} (isPlace : Place place)
    (parsed : Json.parse bs = (place (.table fields ending), rest)) (complete : Json.skip rest = [])
    (spelt : Peers.Spells fields named) (sound : ending ≠ .broken) (others : ofTree (place (.object [])) = .ok s)

theorem decodeBy_of_tells {bs : Bytes} {named : List (String × String)} {s : Settings} (h : Tells bs named s)
    (walk : Walk) : decodeBy walk bs =
      (fun p => { s with peers := p }) <$> Peers.ofNamed (walk.order (.ofList named)) := by
  obtain ⟨hplace, hparse, hrest, hspelt, hsound, hs⟩ := h
  rw [decodeBy, hparse]
  change (readBy walk _ >>= fun s => if (Json.skip _).isEmpty then Except.ok s else .error .malformed) = _
  rw [readBy_place hplace hs, Peers.readBy_table walk hspelt hsound, Peers.mapError_inner, hrest]
  cases Peers.ofNamed (walk.order (.ofList named)) <;> rfl

theorem map_peers_inj {s : Settings} {x y : Except Uniqueness.Fault Peers}
    (h : (fun p => { s with peers := p }) <$> x = (fun p => { s with peers := p }) <$> y) : x = y := by
  have hback : ∀ z : Except Uniqueness.Fault Peers, Settings.peers <$> (fun p => { s with peers := p }) <$> z = z := by
    rintro (fault | p) <;> rfl
  rw [← hback x, h, hback]

/-- In any order, settings are read exactly if all names are numbers. There is a peer for each name exactly if no
node has two, and the order has no part in what is read exactly if it has none in the addresses or in the fault. -/
theorem peers_survive_iff {bs : Bytes} {named : List (String × String)} {s : Settings} (h : Tells bs named s)
    (hnames : (named.map (·.1)).Nodup) :
    Json.decode Settings bs = decodeBy .sorted bs ∧
    (∀ walk, (∃ s', decodeBy walk bs = .ok s') ↔ ∀ e ∈ named, Peers.IsNumber e.1) ∧
    (∀ walk s', decodeBy walk bs = .ok s' →
      s' = { s with peers := s'.peers } ∧ (s'.peers.Keeps named ↔ Peers.NamedOnce named)) ∧
    ((∀ walk walk', decodeBy walk bs = decodeBy walk' bs) ↔
      Peers.OneStranger named ∧ ((∀ e ∈ named, Peers.IsNumber e.1) → Peers.Agree named)) := by
  have hperm : (SortedMap.ofList named).entries.Perm named := SortedMap.perm_ofList hnames
  have horder : ∀ walk : Walk, (walk.order (.ofList named)).Perm named := fun walk => (walk.perm _).trans hperm
  refine ⟨(decodeBy_sorted bs).symm, fun walk => ?_, fun walk s' hs' => ?_, ?_⟩
  · simp only [decodeBy_of_tells h, map_eq_ok_iff]
    rw [exists_comm]
    simp only [exists_and_left, exists_eq', and_true, Peers.exists_ofNamed_iff, (horder walk).mem_iff]
  · rw [decodeBy_of_tells h] at hs'
    obtain ⟨p, hp, rfl⟩ := map_eq_ok_iff.mp hs'
    have hall := Peers.exists_ofNamed_iff.mp ⟨p, hp⟩
    rw [Peers.ofNamed_of_numbers hall] at hp
    obtain rfl := Except.ok.inj hp
    exact ⟨rfl, Peers.keeps_iff (horder walk) hnames fun e he => hall e ((horder walk).mem_iff.mpr he)⟩
  · rw [← Peers.ofNamed_eq_iff]
    constructor
    · -- Any two orders are those in which two maps of this table may be gone through.
      intro hsame order order' ho ho'
      have hthrough := hsame (.through _ order (ho.trans hperm.symm)) (.through _ order' (ho'.trans hperm.symm))
      simp only [decodeBy_of_tells h, Walk.order_through] at hthrough
      exact map_peers_inj hthrough
    · intro hsame walk walk'
      rw [decodeBy_of_tells h, decodeBy_of_tells h, hsame _ _ (horder walk) (horder walk')]

def ownNames : List (String × String) :=
  [("2", "a"), ("+03", "b")]

theorem peers_of_own_names_survive :
    let bs := Json.bytes (.object [("peers", .object (ownNames.map fun e => (e.1, .text e.2)))])
    Tells bs ownNames standard ∧ (ownNames.map (·.1)).Nodup ∧
      (∀ walk, ∃ s', decodeBy walk bs = .ok s' ∧ s'.peers.Keeps ownNames) ∧
      ∀ walk walk', decodeBy walk bs = decodeBy walk' bs := by
  intro bs
  have hnames : (ownNames.map (·.1)).Nodup := by decide
  have hplace : Place fun t => .object [("peers", t)] := @Place.table [] [] (.plain "peers") .closed rfl nofun
  have htells : Tells bs ownNames standard :=
    .intro hplace (Json.parse_bytes rfl) rfl (.cons ⟨rfl, rfl⟩ (.cons ⟨rfl, rfl⟩ .nil)) nofun rfl
  obtain ⟨-, hok, hkeeps, hsame⟩ := peers_survive_iff htells hnames
  have hall : ∀ e ∈ ownNames, Peers.IsNumber e.1 := by decide +kernel
  have hone : Peers.NamedOnce ownNames := by decide +kernel
  refine ⟨htells, hnames, fun walk => ?_, hsame.mpr ⟨?_, ?_⟩⟩
  · obtain ⟨s', hs'⟩ := (hok walk).mpr hall
    exact ⟨s', hs', (hkeeps walk s' hs').2.mpr hone⟩
  · intro e he _ _ hno
    exact absurd (hall e he) hno
  · exact fun _ => Peers.Agree.of_namedOnce hnames hone

def twoNames : Bytes :=
  Utf8.encode "\x7b\"peers\":\x7b\"2\":\"a\",\"02\":\"b\"\x7d\x7d"

theorem peer_of_two_names_is_lost :
    decodeBy .sorted twoNames = .ok { standard with peers := .ofList [(2, "a")] } ∧
      decodeBy .reversed twoNames = .ok { standard with peers := .ofList [(2, "b")] } := by
  decide +kernel

end Settings

end Uniqueness
