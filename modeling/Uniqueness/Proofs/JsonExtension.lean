import Uniqueness.Proofs.JsonRoundTrip

/-!
A value that has come to its end is read alike whatever follows. So no text of a record is the
beginning of another.
-/

namespace Uniqueness.Json

theorem skip_append {bs r q : Bytes} {b : UInt8} (h : skip bs = b :: r) :
    skip (bs ++ q) = b :: (r ++ q) := by
  rw [skip, List.dropWhile_append]
  rw [skip] at h
  simp [h]

theorem scan_append {done : List Piece} {bs rest q : Bytes} {ps : List Piece}
    (h : scan done bs = some (ps, rest)) : scan done (bs ++ q) = some (ps, rest ++ q) := by
  fun_induction scan done bs with
  | case2 =>
    cases h
    exact scan_quote _ _
  | case5 _ w x y z r n hu hq ih =>
    exact (scan_unit hu _ _).trans (ih h)
  | case8 _ e r he n hn hq ih =>
    exact (scan_simple hn he _ _).trans (ih h)
  | case10 _ b r hq hs hc ih =>
    exact (scan_byte hq hs hc _ _).trans (ih h)
  | _ => cases h

theorem label_append {bs rest q : Bytes} {l : Label} (h : label bs = some (l, rest)) :
    label (bs ++ q) = some (l, rest ++ q) := by
  obtain ⟨⟨ps, r⟩, hs, hl⟩ := Option.map_eq_some_iff.mp h
  cases hl
  rw [label, scan_append hs, Option.map_some]

theorem literal_append {word : String} {t : Tree} {bs rest q : Bytes} {u : Tree}
    (h : literal word t bs = (u, rest)) (hu : u.isSound = true) :
    literal word t (bs ++ q) = (u, rest ++ q) := by
  simp only [literal, after?] at h ⊢
  by_cases hp : (Utf8.encode word).isPrefixOf bs = true
  · obtain ⟨r, rfl⟩ := List.isPrefixOf_iff_prefix.mp hp
    have hpq : (Utf8.encode word).isPrefixOf (Utf8.encode word ++ r ++ q) = true := by
      rw [List.isPrefixOf_iff_prefix, List.append_assoc]
      exact List.prefix_append _ _
    rw [if_pos hp, List.drop_left] at h
    rw [if_pos hpq, List.append_assoc, List.drop_left]
    cases h
    rfl
  · rw [if_neg hp] at h
    cases h
    cases hu

theorem digits_extend {bs ds rest q : Bytes} (h : digits bs = (ds, rest)) (hr : rest ≠ []) :
    digits (bs ++ q) = (ds, rest ++ q) := by
  rw [digits, Prod.mk.injEq] at h
  obtain ⟨ht, hd⟩ := h
  have hlt : (bs.takeWhile isDigit).length ≠ bs.length := by
    intro hl
    have := List.takeWhile_append_dropWhile (p := isDigit) (l := bs)
    have hlen := congrArg List.length this
    rw [List.length_append, hl, hd] at hlen
    exact hr (List.eq_nil_of_length_eq_zero (by omega))
  rw [digits, List.takeWhile_append, if_neg hlt, List.dropWhile_append, hd, ht]
  cases rest with
  | nil => exact absurd rfl hr
  | cons b rest => simp

theorem whole?_append {bs ds rest q : Bytes} (h : whole? bs = some (ds, rest)) (hr : rest ≠ []) :
    whole? (bs ++ q) = some (ds, rest ++ q) := by
  rw [whole?.eq_def] at h
  split at h
  · cases h
  · cases h
  case h_3 hnil hzero =>
    have hd : digits bs = (ds, rest) := Option.some.inj h
    rw [whole?.eq_def, digits_extend hd hr]
    split
    case h_1 heq =>
      cases heq
      exact (hnil _ hd).elim
    case h_2 heq =>
      cases heq
      exact (hzero _ _ _ hd).elim
    case h_3 => rfl

theorem fraction?_append {bs ds rest q : Bytes} (h : fraction? bs = some (ds, rest)) (hr : rest ≠ []) :
    fraction? (bs ++ q) = some (ds, rest ++ q) := by
  rw [fraction?.eq_def] at h
  split at h
  case h_1 r =>
    split at h
    · cases h
    case h_2 ds' r' hnil hd =>
      cases h
      rw [List.cons_append, fraction?, digits_extend hd hr]
      cases ds' with
      | nil => exact (hnil rfl).elim
      | cons b bs => rfl
  case h_2 hpoint =>
    cases h
    rw [fraction?.eq_def]
    split
    case h_1 r heq =>
      cases bs with
      | nil => exact absurd rfl hr
      | cons b tail =>
        cases heq
        exact (hpoint _ rfl).elim
    case h_2 => rfl

def signOf : Bytes → Bytes × Bytes
  | 0x2B :: rest => ([0x2B], rest)
  | 0x2D :: rest => ([0x2D], rest)
  | rest => ([], rest)

theorem signOf_append {bs : Bytes} (h : bs ≠ []) (q : Bytes) :
    signOf (bs ++ q) = ((signOf bs).1, (signOf bs).2 ++ q) := by
  cases bs with
  | nil => exact absurd rfl h
  | cons b bs =>
    by_cases hp : b = 0x2B
    · subst hp
      rfl
    by_cases hm : b = 0x2D
    · subst hm
      rfl
    rw [List.cons_append, signOf, signOf]
    · rfl
    · rintro _ ⟨⟩
      exact hp rfl
    · rintro _ ⟨⟩
      exact hm rfl
    · rintro _ ⟨⟩
      exact hp rfl
    · rintro _ ⟨⟩
      exact hm rfl

theorem exponent?_mark {b : UInt8} (hb : b = 0x65 ∨ b = 0x45) (bs : Bytes) :
    exponent? (b :: bs) = match digits (signOf bs).2 with
      | ([], _) => none
      | (ds, rest) => some (b :: (signOf bs).1 ++ ds, rest) := by
  rw [exponent?.eq_def]
  simp only [if_pos hb]
  rfl

theorem exponent?_append {bs ds rest q : Bytes} (h : exponent? bs = some (ds, rest)) (hr : rest ≠ []) :
    exponent? (bs ++ q) = some (ds, rest ++ q) := by
  cases bs with
  | nil =>
    cases h
    exact absurd rfl hr
  | cons b r =>
    by_cases hb : b = 0x65 ∨ b = 0x45
    · rw [exponent?_mark hb] at h
      split at h
      · cases h
      case h_2 ds' r' hnil hd =>
        cases h
        have hne : r ≠ [] := by
          rintro rfl
          cases hd
          exact hnil rfl
        rw [List.cons_append, exponent?_mark hb, signOf_append hne]
        simp only [digits_extend hd hr]
    · rw [exponent?.eq_def] at h
      rw [List.cons_append, exponent?.eq_def]
      simp only [if_neg hb] at h ⊢
      cases h
      rfl

def minusOf : Bytes → Bool × Bytes
  | 0x2D :: rest => (true, rest)
  | bs => (false, bs)

theorem minusOf_append {bs : Bytes} (h : bs ≠ []) (q : Bytes) :
    minusOf (bs ++ q) = ((minusOf bs).1, (minusOf bs).2 ++ q) := by
  cases bs with
  | nil => exact absurd rfl h
  | cons b bs =>
    by_cases hm : b = 0x2D
    · subst hm
      rfl
    rw [List.cons_append, minusOf, minusOf]
    · rfl
    · rintro _ ⟨⟩
      exact hm rfl
    · rintro _ ⟨⟩
      exact hm rfl

theorem number_eq_some_iff {bs rest : Bytes} {t : Tree} :
    number bs = some (t, rest) ↔ ∃ ds r₁ fraction r₂ exponent,
      whole? (minusOf bs).2 = some (ds, r₁) ∧ fraction? r₁ = some (fraction, r₂) ∧
        exponent? r₂ = some (exponent, rest) ∧ t = numberTree (minusOf bs).1 ds fraction exponent := by
  have h : number bs = (whole? (minusOf bs).2).bind fun w => (fraction? w.2).bind fun f =>
      (exponent? f.2).bind fun e => some (numberTree (minusOf bs).1 w.1 f.1 e.1, e.2) := rfl
  rw [h]
  simp only [Option.bind_eq_some_iff, Option.some.injEq, Prod.mk.injEq]
  constructor
  · rintro ⟨⟨ds, r₁⟩, hw, ⟨fraction, r₂⟩, hf, ⟨exponent, r₃⟩, he, rfl, rfl⟩
    exact ⟨ds, r₁, fraction, r₂, exponent, hw, hf, he, rfl⟩
  · rintro ⟨ds, r₁, fraction, r₂, exponent, hw, hf, he, rfl⟩
    exact ⟨(ds, r₁), hw, (fraction, r₂), hf, (exponent, rest), he, rfl, rfl⟩

theorem number_append {bs rest q : Bytes} {t : Tree} (h : number bs = some (t, rest)) (hr : rest ≠ []) :
    number (bs ++ q) = some (t, rest ++ q) := by
  obtain ⟨ds, r₁, fraction, r₂, exponent, hw, hf, he, rfl⟩ := number_eq_some_iff.mp h
  have h₂ : r₂ ≠ [] := by
    rintro rfl
    cases he
    exact hr rfl
  have h₁ : r₁ ≠ [] := by
    rintro rfl
    cases hf
    exact h₂ rfl
  have hb : bs ≠ [] := by
    rintro rfl
    cases hw
  rw [number_eq_some_iff, minusOf_append hb]
  exact ⟨ds, r₁ ++ q, fraction, r₂ ++ q, exponent, whole?_append hw h₁, fraction?_append hf h₂,
    exponent?_append he hr, rfl⟩

def Ended (t : Tree) (rest : Bytes) : Prop :=
  t.isSound = true ∧ ((∀ n, t ≠ .int n) ∧ (∀ s, t ≠ .real s) ∨ rest ≠ [])

structure Extends (fuel : Nat) : Prop where
  value : ∀ {bs t rest}, Json.value fuel bs = (t, rest) → Ended t rest →
    ∀ {more} (q), fuel ≤ more → Json.value more (bs ++ q) = (t, rest ++ q)
  items : ∀ {bs ts ending rest}, Json.items fuel bs = (ts, ending, rest) → ending ≠ .broken →
    ∀ {more} (q), fuel ≤ more → Json.items more (bs ++ q) = (ts, ending, rest ++ q)
  fields : ∀ {bs fs ending rest}, Json.fields fuel bs = (fs, ending, rest) → ending ≠ .broken →
    ∀ {more} (q), fuel ≤ more → Json.fields more (bs ++ q) = (fs, ending, rest ++ q)

theorem ne_nil_of_skip {bs r : Bytes} {b : UInt8} (h : skip bs = b :: r) : bs ≠ [] := by
  rintro rfl
  cases h

theorem extends_items {fuel : Nat} (ih : Extends fuel) {bs rest : Bytes} {ts : List Tree}
    {ending : Ending} (h : items (fuel + 1) bs = (ts, ending, rest)) (he : ending ≠ .broken) {more : Nat}
    (q : Bytes) (hm : fuel ≤ more) : items (more + 1) (bs ++ q) = (ts, ending, rest ++ q) := by
  rw [items] at h
  rcases hv : value fuel bs with ⟨t, r⟩
  simp only [hv] at h
  split at h
  case isFalse =>
    cases h
    exact absurd rfl he
  case isTrue hs =>
    have hvq : ∀ {b r'}, skip r = b :: r' → value more (bs ++ q) = (t, r ++ q) := fun hc =>
      ih.value hv ⟨hs, .inr (ne_nil_of_skip hc)⟩ q hm
    split at h
    case h_1 r' hc =>
      rcases hi : items fuel r' with ⟨us, ending', r''⟩
      simp only [hi] at h
      cases h
      rw [items, hvq hc]
      simp only [hs, if_true, skip_append hc, ih.items hi he q hm]
    case h_2 r' hc =>
      cases h
      rw [items, hvq hc]
      simp only [hs, if_true, skip_append hc]
    case h_3 =>
      cases h
      exact absurd rfl he

theorem extends_fields {fuel : Nat} (ih : Extends fuel) {bs rest : Bytes} {fs : List (Label × Tree)}
    {ending : Ending} (h : fields (fuel + 1) bs = (fs, ending, rest)) (he : ending ≠ .broken) {more : Nat}
    (q : Bytes) (hm : fuel ≤ more) : fields (more + 1) (bs ++ q) = (fs, ending, rest ++ q) := by
  have hbroken : ∀ {gs : List (Label × Tree)} {r}, (gs, Ending.broken, r) ≠ (fs, ending, rest) := by
    rintro gs r ⟨⟩
    exact he rfl
  rw [fields] at h
  split at h
  case h_2 => exact absurd h hbroken
  case h_1 r hopen =>
    split at h
    case h_1 => exact absurd h hbroken
    case h_2 l r₁ hl =>
      split at h
      case h_2 => exact absurd h hbroken
      case h_1 r₂ hcolon =>
        rcases hv : value fuel r₂ with ⟨t, r₃⟩
        simp only [hv] at h
        split at h
        case isFalse => exact absurd h hbroken
        case isTrue hs =>
          have hvq : ∀ {b r'}, skip r₃ = b :: r' → value more (r₂ ++ q) = (t, r₃ ++ q) := fun hc =>
            ih.value hv ⟨hs, .inr (ne_nil_of_skip hc)⟩ q hm
          rw [fields]
          simp only [skip_append hopen, label_append hl, skip_append hcolon]
          split at h
          case h_1 r₄ hc =>
            rcases hi : fields fuel r₄ with ⟨gs, ending', r₅⟩
            simp only [hi] at h
            cases h
            simp only [hvq hc, hs, if_true, skip_append hc, ih.fields hi he q hm]
          case h_2 r₄ hc =>
            cases h
            simp only [hvq hc, hs, if_true, skip_append hc]
          case h_3 => exact absurd h hbroken

theorem items_nil (fuel : Nat) : (items fuel []).2.1 = .broken := by
  cases fuel with
  | zero => rfl
  | succ fuel => cases fuel <;> rfl

theorem fields_nil (fuel : Nat) : (fields fuel []).2.1 = .broken := by
  cases fuel <;> rfl

theorem skip_skip (bs : Bytes) : skip (skip bs) = skip bs := by
  induction bs with
  | nil => rfl
  | cons b bs ih =>
    by_cases hs : isSpace b = true
    · have hb : skip (b :: bs) = skip bs := List.dropWhile_cons_of_pos hs
      rw [hb, ih]
    · have hb : skip (b :: bs) = b :: bs := List.dropWhile_cons_of_neg hs
      rw [hb, hb]

theorem value_skip (fuel : Nat) (bs : Bytes) : value (fuel + 1) (skip bs) = value (fuel + 1) bs := by
  rw [value, value, skip_skip]

theorem extends_list {fuel : Nat} (ih : Extends fuel) {bs rest : Bytes} {t : Tree}
    (h : value (fuel + 1) (0x5B :: bs) = (t, rest)) (he : t.isSound = true) {more : Nat} (q : Bytes)
    (hm : fuel ≤ more) : value (more + 1) (0x5B :: (bs ++ q)) = (t, rest ++ q) := by
  by_cases hclose : (skip bs).head? = some 0x5D
  · obtain ⟨r, hr⟩ := List.head?_eq_some_iff.mp hclose
    rw [value, skip_cons (b := 0x5B) rfl] at h ⊢
    simp only [hr, skip_append hr] at h ⊢
    cases h
    rfl
  · rcases hi : items fuel (skip bs) with ⟨ts, ending, r⟩
    rw [value_items hclose hi] at h
    cases h
    have hne : ending ≠ .broken := by simpa [Tree.isSound] using he
    cases hb : skip bs with
    | nil =>
      have := items_nil fuel
      rw [← hb, hi] at this
      exact absurd this hne
    | cons b r' =>
      rw [hb] at hi hclose
      have hs := skip_append (q := q) hb
      apply value_items
      · rwa [hs]
      · rw [hs]
        exact ih.items hi hne q hm

theorem extends_table {fuel : Nat} (ih : Extends fuel) {bs rest : Bytes} {t : Tree}
    (h : value (fuel + 1) (0x7B :: bs) = (t, rest)) (he : t.isSound = true) {more : Nat} (q : Bytes)
    (hm : fuel ≤ more) : value (more + 1) (0x7B :: (bs ++ q)) = (t, rest ++ q) := by
  by_cases hclose : (skip bs).head? = some 0x7D
  · obtain ⟨r, hr⟩ := List.head?_eq_some_iff.mp hclose
    rw [value, skip_cons (b := 0x7B) rfl] at h ⊢
    simp only [hr, skip_append hr] at h ⊢
    cases h
    rfl
  · rcases hi : fields fuel (skip bs) with ⟨fs, ending, r⟩
    rw [value_fields hclose hi] at h
    cases h
    have hne : ending ≠ .broken := by simpa [Tree.isSound] using he
    cases hb : skip bs with
    | nil =>
      have := fields_nil fuel
      rw [← hb, hi] at this
      exact absurd this hne
    | cons b r' =>
      rw [hb] at hi hclose
      have hs := skip_append (q := q) hb
      apply value_fields
      · rwa [hs]
      · rw [hs]
        exact ih.fields hi hne q hm

theorem extends_number {b : UInt8} {bs rest : Bytes} {t : Tree} (h : number (b :: bs) = some (t, rest))
    (he : Ended t rest) (q : Bytes) : number (b :: (bs ++ q)) = some (t, rest ++ q) := by
  have hr : rest ≠ [] := by
    obtain ⟨ds, r₁, fraction, r₂, exponent, -, -, -, rfl⟩ := number_eq_some_iff.mp h
    rcases he.2 with ⟨hi, hf⟩ | hr
    · rw [numberTree] at hi hf
      split at hi
      case isTrue => exact absurd rfl (hi _)
      case isFalse hn =>
        rw [if_neg hn] at hf
        exact absurd rfl (hf _)
    · exact hr
  exact number_append h hr

theorem extends_text {fuel : Nat} {r rest : Bytes} {t : Tree} (h : value (fuel + 1) (0x22 :: r) = (t, rest))
    (ht : t.isSound = true) (more : Nat) (q : Bytes) :
    value (more + 1) (0x22 :: (r ++ q)) = (t, rest ++ q) := by
  rw [value, skip_cons (b := 0x22) rfl] at h ⊢
  simp only [if_true] at h ⊢
  split at h
  · cases h
    exact absurd ht (by decide)
  case h_2 l r' hl =>
    cases h
    rw [label_append hl]

theorem extends_value {fuel : Nat} (ih : Extends fuel) {bs rest : Bytes} {t : Tree}
    (h : value (fuel + 1) bs = (t, rest)) (he : Ended t rest) {more : Nat} (q : Bytes)
    (hm : fuel ≤ more) : value (more + 1) (bs ++ q) = (t, rest ++ q) := by
  cases hb : skip bs with
  | nil =>
    rw [value, hb] at h
    cases h
    exact absurd he.1 (by decide)
  | cons b r =>
    have hs : isSpace b = false := by
      have := List.head?_dropWhile_not isSpace bs
      rw [skip] at hb
      rwa [hb] at this
    rw [← value_skip, hb] at h
    rw [← value_skip, skip_append hb]
    by_cases hq : b = 0x22
    · subst hq
      exact extends_text h he.1 more q
    by_cases hl : b = 0x5B
    · subst hl
      exact extends_list ih h he.1 q hm
    by_cases ht : b = 0x7B
    · subst ht
      exact extends_table ih h he.1 q hm
    rw [value, skip_cons hs] at h ⊢
    simp only [if_neg hq, if_neg hl, if_neg ht] at h ⊢
    by_cases hn : b = 0x6E
    · rw [if_pos hn] at h ⊢
      exact literal_append h he.1
    by_cases hy : b = 0x74
    · rw [if_neg hn, if_pos hy] at h ⊢
      exact literal_append h he.1
    by_cases hf : b = 0x66
    · rw [if_neg hn, if_neg hy, if_pos hf] at h ⊢
      exact literal_append h he.1
    rw [if_neg hn, if_neg hy, if_neg hf] at h ⊢
    split at h
    · cases h
      exact absurd he.1 (by decide)
    case h_2 found hd =>
      subst h
      rw [extends_number hd he]

theorem extendsAll (fuel : Nat) : Extends fuel := by
  induction fuel with
  | zero =>
    refine ⟨?_, ?_, ?_⟩
    · rintro bs t rest ⟨⟩ he
      exact absurd he.1 (by decide)
    · rintro bs ts ending rest ⟨⟩ he
      exact absurd rfl he
    · rintro bs fs ending rest ⟨⟩ he
      exact absurd rfl he
  | succ fuel ih =>
    have hsucc : ∀ {more}, fuel + 1 ≤ more → ∃ less, more = less + 1 ∧ fuel ≤ less := by
      intro more hm
      exact ⟨more - 1, by omega, by omega⟩
    refine ⟨?_, ?_, ?_⟩
    · intro bs t rest h he more q hm
      obtain ⟨less, rfl, hl⟩ := hsucc hm
      exact extends_value ih h he q hl
    · intro bs ts ending rest h he more q hm
      obtain ⟨less, rfl, hl⟩ := hsucc hm
      exact extends_items ih h he q hl
    · intro bs fs ending rest h he more q hm
      obtain ⟨less, rfl, hl⟩ := hsucc hm
      exact extends_fields ih h he q hl

theorem eq_nil_of_parse {t t' : Tree} {p q rest : Bytes} (hw : isWritable t = true)
    (hb : p ++ q = bytes t) (hp : parse p = (t', rest)) (hs : t'.isSound = true)
    (hn : (∀ n, t' ≠ .int n) ∧ ∀ s, t' ≠ .real s) : q = [] := by
  have hm : 2 * p.length + 2 ≤ 2 * (p ++ q).length + 2 := by
    rw [List.length_append]
    omega
  have hq := (extendsAll _).value hp ⟨hs, .inl hn⟩ q hm
  have hr : parse (p ++ q) = (t, []) := by rw [hb, parse_bytes hw]
  rw [parse, hq, Prod.mk.injEq] at hr
  exact List.append_eq_nil_iff.mp hr.2 |>.2

end Uniqueness.Json
