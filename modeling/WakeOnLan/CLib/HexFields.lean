import WakeOnLan.CLib.Tokens

/-!
# CLib.HexFields

The texts that a format of `%2x` fields with a separator between them accepts.

* `Cut sep n s fs r` — the format cuts `s` into the `n` fields `fs`, each with the white space
  before it, and leaves `r` (`scan_hexFields_iff`). There is at most one such cut (`Cut.unique`).
* `Plain fs r`       — a cut in which nothing was read liberally: white space only around the
  whole, no signs.
* `Padded sep n s`   — `s` renders `n` octets, up to surrounding white space; these are the texts
  with a plain cut (`padded_iff`).
* `OnlyPlain sep n s` — the format reads `s` plainly, or not at all (`onlyPlain_iff`).
-/

namespace CLib

inductive Cut (sep : UInt8) : Nat → Bytes → List (Bytes × Bytes) → Bytes → Prop where
  | last {b t r : Bytes} : (∀ c ∈ b, isSpace c = true) → HexItem t r →
      Cut sep 1 (b ++ (t ++ r)) [(b, t)] r
  | field {n : Nat} {b t s r : Bytes} {fs : List (Bytes × Bytes)} :
      (∀ c ∈ b, isSpace c = true) → HexItem t (sep :: s) → Cut sep (n + 1) s fs r →
      Cut sep (n + 2) (b ++ (t ++ sep :: s)) ((b, t) :: fs) r

structure Plain (fs : List (Bytes × Bytes)) (r : Bytes) : Prop where
  inner : ∀ f ∈ fs.tail, f.1 = []
  digits : ∀ f ∈ fs, ∀ c ∈ f.2, isXDigit c = true
  rest : ∀ c ∈ r, isSpace c = true

def Padded (sep : UInt8) (n : Nat) (s : Bytes) : Prop :=
  ∃ bs b t b', bs.length = n ∧ (∀ c ∈ b, isSpace c = true) ∧ HexFields sep bs t ∧
    (∀ c ∈ b', isSpace c = true) ∧ s = b ++ t ++ b'

section Cut

variable {sep : UInt8} {n : Nat} {s r b t : Bytes} {fs : List (Bytes × Bytes)}

/-! ## Cuts and scans -/

theorem HexItem.stops_space (h : HexItem t r) : Stops isSpace (t ++ r) := by
  cases h with
  | two hd _ => exact stops_cons.mpr (isXDigit_not_space hd)
  | one hd _ _ => exact stops_cons.mpr (isXDigit_not_space hd)
  | signed hc _ =>
    rcases hc with rfl | rfl
    · exact stops_cons.mpr rfl
    · exact stops_cons.mpr rfl

theorem scan_hexItem_blanks (hb : ∀ c ∈ b, isSpace c = true) (h : HexItem t r) :
    (Directive.num 16 (some 2)).scan (b ++ (t ++ r)) = .ok (some (.num (itemVal t)), r) :=
  scan_hexItem (dropWhile_munch hb h.stops_space) h

theorem takeWhile_space (s : Bytes) : ∀ c ∈ s.takeWhile isSpace, isSpace c = true :=
  fun c hc => List.all_eq_true.mp List.all_takeWhile c hc

/-- The format assigns all its fields exactly on the texts that can be cut. -/
theorem scan_hexFields_iff (sep : UInt8) (n : Nat) (s : Bytes) :
    (scan (hexFields sep (n + 1)) s).values.length = n + 1 ↔ ∃ fs r, Cut sep (n + 1) s fs r := by
  induction n generalizing s with
  | zero =>
    constructor
    · intro h
      rcases hs : (Directive.num 16 (some 2)).scan s with e | ⟨v, r⟩
      · rw [hexFields, scan_cons_error hs] at h
        cases h
      · obtain ⟨t, ht, hitem⟩ := scan_hexItem_inv hs
        have hcut : Cut sep 1 (s.takeWhile isSpace ++ (t ++ r)) _ r :=
          .last (takeWhile_space s) hitem
        rw [← ht, List.takeWhile_append_dropWhile] at hcut
        exact ⟨_, r, hcut⟩
    · rintro ⟨fs, r, h⟩
      cases h with
      | last hb hitem =>
        rw [hexFields, scan_cons_ok (scan_hexItem_blanks hb hitem)]
        rfl
  | succ n ih =>
    constructor
    · intro h
      rcases hs : (Directive.num 16 (some 2)).scan s with e | ⟨v, u⟩
      · rw [hexFields, scan_cons_error hs] at h
        cases h
      · obtain ⟨v, rfl⟩ := scan_num_inv hs
        rcases hl : (Directive.lit sep).scan u with e | ⟨w, u'⟩
        · rw [hexFields, scan_cons_ok hs, scan_cons_error hl] at h
          simp at h
        · obtain ⟨rfl, rfl⟩ := scan_lit_inv hl
          rw [hexFields, scan_cons_ok hs, scan_cons_ok hl] at h
          have hrest : (scan (hexFields sep (n + 1)) u').values.length = n + 1 := by
            simpa using h
          obtain ⟨fs, r, hfs⟩ := (ih u').mp hrest
          obtain ⟨t, ht, hitem⟩ := scan_hexItem_inv hs
          have hcut : Cut sep (n + 2) (s.takeWhile isSpace ++ (t ++ sep :: u')) _ r :=
            .field (takeWhile_space s) hitem hfs
          rw [← ht, List.takeWhile_append_dropWhile] at hcut
          exact ⟨_, r, hcut⟩
    · rintro ⟨fs, r, h⟩
      cases h with
      | field hb hitem hrest =>
        have hlen := (ih _).mpr ⟨_, _, hrest⟩
        rw [hexFields, scan_cons_ok (scan_hexItem_blanks hb hitem), scan_cons_ok (scan_lit sep _)]
        simp [hlen]

/-- What one field takes is determined by the text. -/
theorem HexItem.cancel {b' t' r' : Bytes} (hb : ∀ c ∈ b, isSpace c = true) (h : HexItem t r)
    (hb' : ∀ c ∈ b', isSpace c = true) (h' : HexItem t' r')
    (heq : b ++ (t ++ r) = b' ++ (t' ++ r')) : b = b' ∧ t = t' ∧ r = r' := by
  have hblank : b = b' := by
    have h1 := takeWhile_munch hb h.stops_space
    have h2 := takeWhile_munch hb' h'.stops_space
    rw [heq, h2] at h1
    exact h1.symm
  subst hblank
  have htr : t ++ r = t' ++ r' := List.append_cancel_left heq
  have hv := scan_hexItem_blanks hb h
  have hv' := scan_hexItem_blanks hb' h'
  rw [heq, hv'] at hv
  obtain rfl : r' = r := congrArg Prod.snd (Except.ok.inj hv)
  exact ⟨rfl, List.append_cancel_right htr, rfl⟩

/-- There is at most one cut. -/
theorem Cut.unique {fs' : List (Bytes × Bytes)} {r' : Bytes} (h : Cut sep n s fs r)
    (h' : Cut sep n s fs' r') : fs = fs' ∧ r = r' := by
  induction h generalizing fs' r' with
  | @last b t r hb hitem =>
    generalize hs : b ++ (t ++ r) = s at h'
    cases h' with
    | last hb' hitem' =>
      obtain ⟨rfl, rfl, rfl⟩ := hitem.cancel hb hb' hitem' hs
      exact ⟨rfl, rfl⟩
  | @field n b t u r fs hb hitem _ ih =>
    generalize hs : b ++ (t ++ sep :: u) = s at h'
    cases h' with
    | field hb' hitem' hrest' =>
      obtain ⟨rfl, rfl, htail⟩ := hitem.cancel hb hb' hitem' hs
      cases htail
      obtain ⟨rfl, rfl⟩ := ih hrest'
      exact ⟨rfl, rfl⟩

/-! ## Plain cuts -/

theorem isSpace_not_alnum {c : UInt8} (h : isSpace c = true) : isAlnum c = false := by
  revert c
  apply forall_byte
  decide +kernel

theorem not_alnum_classes {c : UInt8} (h : isAlnum c = false) :
    isXDigit c = false ∧ isX c = false := by
  obtain ⟨hd, hx, hX⟩ := not_alnum h
  exact ⟨hd, by simp [isX, hx, hX]⟩

theorem HexOctet.item {o : UInt8} (h : HexOctet t o) (hr : Stops isAlnum r) : HexItem t r := by
  rcases h with ⟨d, hd, rfl, -⟩ | ⟨d, e, hd, he, rfl, -⟩
  · exact .one hd (fun c hc => (not_alnum_classes (hr c hc)).1)
      fun _ c hc => (not_alnum_classes (hr c hc)).2
  · exact .two hd he

theorem HexItem.octet (h : HexItem t r) (hd : ∀ c ∈ t, isXDigit c = true) :
    ∃ o, HexOctet t o := by
  cases h with
  | @two d e _ hfst hsnd =>
    have hlt := digitVal_lt_of_isXDigit hfst
    have hlt' := digitVal_lt_of_isXDigit hsnd
    refine ⟨UInt8.ofNat (digitVal d * 16 + digitVal e), .inr ⟨d, e, hfst, hsnd, rfl, ?_⟩⟩
    rw [UInt8.toNat_ofNat']
    omega
  | @one d _ hfst _ _ =>
    have hlt := digitVal_lt_of_isXDigit hfst
    refine ⟨UInt8.ofNat (digitVal d), .inl ⟨d, hfst, rfl, ?_⟩⟩
    rw [UInt8.toNat_ofNat']
    omega
  | signed hc _ =>
    rcases hc with rfl | rfl
    · exact absurd (hd 43 (List.mem_cons_self ..)) (by decide)
    · exact absurd (hd 45 (List.mem_cons_self ..)) (by decide)

/-- A rendering of octets is cut at its separators. -/
theorem HexFields.cut {bs : Bytes} (hsep : isAlnum sep = false) (h : HexFields sep bs t)
    (hlen : bs.length = n + 1) (hb : ∀ c ∈ b, isSpace c = true) (hr : Stops isAlnum r) :
    ∃ u fs, Cut sep (n + 1) (b ++ (t ++ r)) ((b, u) :: fs) r ∧ (∀ f ∈ fs, f.1 = []) ∧
      ∀ f ∈ (b, u) :: fs, ∀ c ∈ f.2, CLib.isXDigit c = true := by
  induction n generalizing bs t b with
  | zero =>
    obtain ⟨o, rfl⟩ := List.length_eq_one_iff.mp hlen
    have ho : HexOctet t o := h
    refine ⟨t, [], .last hb (ho.item hr), by simp, ?_⟩
    intro f hf c hc
    obtain rfl := List.mem_singleton.mp hf
    exact ho.isXDigit hc
  | succ n ih =>
    obtain ⟨o, bs, rfl⟩ := List.exists_cons_of_length_eq_add_one hlen
    obtain ⟨o', bs, rfl⟩ := List.exists_cons_of_length_eq_add_one (Nat.succ.inj hlen)
    obtain ⟨u, v, hu, hv, rfl⟩ := h
    obtain ⟨u', fs, hcut, hin, hdig⟩ := ih hv (Nat.succ.inj hlen) (b := []) (by simp)
    have hitem : HexItem u (sep :: (v ++ r)) := hu.item (stops_cons.mpr hsep)
    refine ⟨u, ([], u') :: fs, ?_, ?_, ?_⟩
    · have := Cut.field hb hitem hcut
      simpa [List.append_assoc] using this
    · intro f hf
      rcases List.mem_cons.mp hf with rfl | hf
      · rfl
      · exact hin f hf
    · intro f hf
      rcases List.mem_cons.mp hf with rfl | hf
      · exact fun c hc => hu.isXDigit hc
      · exact hdig f hf

/-- The fields of a plain cut render octets. -/
theorem Cut.octets (h : Cut sep n s fs r) (hin : ∀ f ∈ fs.tail, f.1 = [])
    (hd : ∀ f ∈ fs, ∀ c ∈ f.2, isXDigit c = true) :
    ∃ f fs' bs t, fs = f :: fs' ∧ (∀ c ∈ f.1, isSpace c = true) ∧ bs.length = n ∧
      HexFields sep bs t ∧ s = f.1 ++ (t ++ r) := by
  induction h with
  | @last b t r hb hitem =>
    obtain ⟨o, ho⟩ := hitem.octet (hd (b, t) (List.mem_cons_self ..))
    exact ⟨_, _, [o], t, rfl, hb, rfl, ho, rfl⟩
  | @field n b t u r fs hb hitem _ ih =>
    obtain ⟨o, ho⟩ := hitem.octet (hd (b, t) (List.mem_cons_self ..))
    obtain ⟨f, fs', bs, v, rfl, -, hlen, hv, rfl⟩ :=
      ih (fun f hf => hin f (List.mem_of_mem_tail hf)) fun f hf => hd f (List.mem_cons_of_mem _ hf)
    have hf : f.1 = [] := hin f (List.mem_cons_self ..)
    obtain ⟨o', bs, rfl⟩ := List.exists_cons_of_length_eq_add_one hlen
    refine ⟨_, _, o :: o' :: bs, t ++ sep :: v, rfl, hb, by rw [List.length_cons, hlen],
      ⟨t, v, ho, hv, rfl⟩, ?_⟩
    rw [hf]
    simp

/-- The padded renderings of octets are the texts with a plain cut. -/
theorem padded_iff (hsep : isAlnum sep = false) :
    Padded sep (n + 1) s ↔ ∃ fs r, Cut sep (n + 1) s fs r ∧ Plain fs r := by
  constructor
  · rintro ⟨bs, b, t, b', hlen, hb, ht, hb', rfl⟩
    have hstop : Stops isAlnum b' := by
      intro c hc
      exact isSpace_not_alnum (hb' c (List.mem_of_head? hc))
    obtain ⟨u, fs, hcut, hin, hdig⟩ := ht.cut hsep hlen hb hstop
    rw [← List.append_assoc] at hcut
    exact ⟨_, b', hcut, hin, hdig, hb'⟩
  · rintro ⟨fs, r, hcut, hin, hdig, hr⟩
    obtain ⟨f, fs', bs, t, -, hb, hlen, ht, rfl⟩ := hcut.octets hin hdig
    exact ⟨bs, f.1, t, r, hlen, hb, ht, hr, (List.append_assoc ..).symm⟩

/-- `s` is plain as far as the format can read it. -/
def OnlyPlain (sep : UInt8) (n : Nat) (s : Bytes) : Prop := ∀ fs r, Cut sep n s fs r → Plain fs r

theorem onlyPlain_iff (hsep : isAlnum sep = false) :
    OnlyPlain sep (n + 1) s ↔ ((∃ fs r, Cut sep (n + 1) s fs r) → Padded sep (n + 1) s) := by
  constructor
  · rintro h ⟨fs, r, hcut⟩
    exact (padded_iff hsep).mpr ⟨fs, r, hcut, h fs r hcut⟩
  · intro h fs r hcut
    obtain ⟨fs', r', hcut', hplain⟩ := (padded_iff hsep).mp (h ⟨fs, r, hcut⟩)
    obtain ⟨rfl, rfl⟩ := hcut.unique hcut'
    exact hplain

/-! ## White space behind the text -/

variable {w : Bytes}

theorem stops_append_blanks {p : UInt8 → Bool} (hp : ∀ c, isSpace c = true → p c = false)
    (hw : ∀ c ∈ w, isSpace c = true) : Stops p (r ++ w) ↔ Stops p r := by
  cases r with
  | nil =>
    refine ⟨fun _ => stops_nil, fun _ c hc => ?_⟩
    exact hp c (hw c (List.mem_of_head? hc))
  | cons c r => rw [List.cons_append, stops_cons, stops_cons]

theorem HexItem.append_blanks_iff (hw : ∀ c ∈ w, isSpace c = true) :
    HexItem t (r ++ w) ↔ HexItem t r := by
  have hd : Stops isXDigit (r ++ w) ↔ Stops isXDigit r :=
    stops_append_blanks (fun c hc => (not_alnum_classes (isSpace_not_alnum hc)).1) hw
  have hx : Stops isX (r ++ w) ↔ Stops isX r :=
    stops_append_blanks (fun c hc => (not_alnum_classes (isSpace_not_alnum hc)).2) hw
  constructor
  · intro h
    cases h with
    | two hfst hsnd => exact .two hfst hsnd
    | one hfst hstop hzero => exact .one hfst (hd.mp hstop) fun h0 => hx.mp (hzero h0)
    | signed hc hsnd => exact .signed hc hsnd
  · intro h
    cases h with
    | two hfst hsnd => exact .two hfst hsnd
    | one hfst hstop hzero => exact .one hfst (hd.mpr hstop) fun h0 => hx.mpr (hzero h0)
    | signed hc hsnd => exact .signed hc hsnd

theorem HexItem.not_space (h : HexItem t r) {c : UInt8} (hc : c ∈ t) : isSpace c = false := by
  cases h with
  | two hfst hsnd =>
    simp only [List.mem_cons, List.not_mem_nil, or_false] at hc
    rcases hc with rfl | rfl
    · exact isXDigit_not_space hfst
    · exact isXDigit_not_space hsnd
  | one hfst _ _ =>
    obtain rfl := List.mem_singleton.mp hc
    exact isXDigit_not_space hfst
  | signed hsign hsnd =>
    simp only [List.mem_cons, List.not_mem_nil, or_false] at hc
    rcases hc with rfl | rfl
    · rcases hsign with rfl | rfl
      · rfl
      · rfl
    · exact isXDigit_not_space hsnd

/-- An item at the beginning of a text with white space behind it lies in the text. -/
theorem HexItem.of_append {u : Bytes} (h : HexItem t r) (hw : ∀ c ∈ w, isSpace c = true)
    (heq : u ++ w = t ++ r) : ∃ r', u = t ++ r' ∧ r = r' ++ w := by
  rcases List.append_eq_append_iff.mp heq with ⟨a, ha, hr⟩ | ⟨a, ha, hr⟩
  · cases a with
    | nil => exact ⟨[], by rw [ha, List.append_nil, List.append_nil], by rw [hr]; rfl⟩
    | cons c a =>
      have hspace := h.not_space (c := c) (by rw [ha]; simp)
      rw [hw c (by rw [hr]; simp)] at hspace
      cases hspace
  · exact ⟨a, ha, hr⟩

theorem scan_hexItem_append (hw : ∀ c ∈ w, isSpace c = true) {v : Option Value}
    (h : (Directive.num 16 (some 2)).scan s = .ok (v, r)) :
    (Directive.num 16 (some 2)).scan (s ++ w) = .ok (v, r ++ w) := by
  obtain ⟨t, ht, hitem⟩ := scan_hexItem_inv h
  rw [scan_hexItem ht hitem] at h
  cases h
  have hne : s.dropWhile isSpace ≠ [] := by
    rw [ht]
    cases hitem <;> simp
  have ht' : (s ++ w).dropWhile isSpace = t ++ (r ++ w) := by
    rw [List.dropWhile_append, if_neg (by simpa using hne), ht, List.append_assoc]
  exact scan_hexItem ht' ((HexItem.append_blanks_iff hw).mpr hitem)

theorem scan_hexItem_of_append (hw : ∀ c ∈ w, isSpace c = true) {v : Option Value}
    (h : (Directive.num 16 (some 2)).scan (s ++ w) = .ok (v, r)) :
    ∃ r', r = r' ++ w ∧ (Directive.num 16 (some 2)).scan s = .ok (v, r') := by
  obtain ⟨t, ht, hitem⟩ := scan_hexItem_inv h
  rw [scan_hexItem ht hitem] at h
  cases h
  by_cases hnil : s.dropWhile isSpace = []
  · rw [List.dropWhile_append, if_pos (by simpa using hnil)] at ht
    have hnone := dropWhile_munch hw stops_nil
    rw [List.append_nil] at hnone
    rw [hnone] at ht
    cases hitem <;> cases ht
  · rw [List.dropWhile_append, if_neg (by simpa using hnil)] at ht
    obtain ⟨r', hs, rfl⟩ := hitem.of_append hw ht
    exact ⟨r', rfl, scan_hexItem hs ((HexItem.append_blanks_iff hw).mp hitem)⟩

theorem scan_lit_append (hsep : isSpace sep = false) (hw : ∀ c ∈ w, isSpace c = true)
    (fmt : List Directive) (h : ∀ s, (scan fmt (s ++ w)).values = (scan fmt s).values) (s : Bytes) :
    (scan (.lit sep :: fmt) (s ++ w)).values = (scan (.lit sep :: fmt) s).values := by
  have hother : ∀ {c : UInt8} (u : Bytes), c ≠ sep →
      (Directive.lit sep).scan (c :: u) = .error .matching := by
    intro c u hc
    simp [Directive.scan, hc]
  cases s with
  | nil =>
    have hnil : (Directive.lit sep).scan [] = .error .input := rfl
    cases w with
    | nil => rfl
    | cons c w =>
      have hc : c ≠ sep := by
        rintro rfl
        rw [hw c (List.mem_cons_self ..)] at hsep
        cases hsep
      rw [List.nil_append, scan_cons_error (hother w hc), scan_cons_error hnil]
  | cons c s =>
    by_cases hc : c = sep
    · subst hc
      rw [List.cons_append, scan_cons_ok (scan_lit c _), scan_cons_ok (scan_lit c _)]
      exact h s
    · rw [List.cons_append, scan_cons_error (hother _ hc), scan_cons_error (hother _ hc)]

/-- White space behind the text changes nothing that the format assigns. -/
theorem scan_hexFields_append (hsep : isSpace sep = false) (hw : ∀ c ∈ w, isSpace c = true)
    (n : Nat) (s : Bytes) :
    (scan (hexFields sep n) (s ++ w)).values = (scan (hexFields sep n) s).values := by
  induction n generalizing s with
  | zero => rfl
  | succ n ih =>
    rcases hs : (Directive.num 16 (some 2)).scan s with e | ⟨v, r⟩
    · rcases hs' : (Directive.num 16 (some 2)).scan (s ++ w) with e' | ⟨v, r⟩
      · cases n with
        | zero => rw [hexFields, scan_cons_error hs, scan_cons_error hs']
        | succ n => rw [hexFields, scan_cons_error hs, scan_cons_error hs']
      · obtain ⟨r', -, hok⟩ := scan_hexItem_of_append hw hs'
        rw [hs] at hok
        cases hok
    · have hs' := scan_hexItem_append hw hs
      cases n with
      | zero =>
        rw [hexFields, scan_cons_ok hs, scan_cons_ok hs']
        rfl
      | succ n =>
        rw [hexFields, scan_cons_ok hs, scan_cons_ok hs']
        simp only [scan_lit_append hsep hw (hexFields sep (n + 1)) ih]

end Cut

end CLib
