import WakeOnLan.CLib.Bytes

/-!
# CLib.Scanf

The directives of `sscanf` and what a format does to an input string, after the C standard.

* `Directive.scan` — one directive: the value it assigns, if any, and the unread input; or why
  it fails (`matching` when the next byte does not fit, `input` when there is none).
* `scan`   — a whole format. Directives run in order and the first failure ends the scan; the
  values assigned before it stay assigned.
* `Scan.ret` — the value `sscanf` returns: the number of assignments, or `EOF`.
* `store` / `sscanfInto` — writes the assigned values through the argument list.

A numeric conversion takes the longest prefix that is, or begins, a number `strtoul` accepts: an
optional sign, for base sixteen an optional `0x`, then digits. A sign or a bare `0x` without
digits is therefore a matching failure. `HexOctet` is the text of one octet in one or two
hexadecimal digits, `HexFields` the text of several octets with a separator between them, and
`scan_hexFields` the round trip through `%2x` and the separator.
-/

namespace CLib

inductive Directive where
  | space
  | lit (c : UInt8)
  | set (width : Option Nat) (p : UInt8 → Bool)
  | num (base : Nat) (width : Option Nat)
  | skipWord

inductive Value where
  | str (s : Bytes)
  | num (v : UInt32)
  deriving DecidableEq, Repr

inductive Failure where
  | input
  | matching
  deriving DecidableEq, Repr

/-- The part of the input a conversion of this width may look at. -/
def window : Option Nat → Bytes → Bytes
  | none, s => s
  | some w, s => s.take w

def sign : Bytes → Bool × Bytes
  | [] => (false, [])
  | c :: s => if c = 43 then (false, s) else if c = 45 then (true, s) else (false, c :: s)

/-- The input after a `0x` that base sixteen accepts. -/
def radix (base : Nat) : Bytes → Bytes
  | c :: x :: s => if base = 16 ∧ c = 48 ∧ (x = 120 ∨ x = 88) then s else c :: x :: s
  | s => s

/-- `strtoul` on a 64-bit `unsigned long`, stored in an `unsigned int`. -/
def strtoul (neg : Bool) (v : Nat) : UInt32 :=
  if 2 ^ 64 ≤ v then UInt32.ofNat (2 ^ 64 - 1)
  else if neg then UInt32.ofNat (2 ^ 64 - v)
  else UInt32.ofNat v

def scanNum (base : Nat) (width : Option Nat) (s : Bytes) :
    Except Failure (Option Value × Bytes) :=
  let t := s.dropWhile isSpace
  if t = [] then .error .input
  else
    let field := window width t
    let body := radix base (sign field).2
    let ds := body.takeWhile (isDigitOf base)
    if ds = [] then .error .matching
    else .ok (some (.num (strtoul (sign field).1 (digitsVal base ds))),
      t.drop (field.length - (body.length - ds.length)))

def scanSet (width : Option Nat) (p : UInt8 → Bool) (s : Bytes) :
    Except Failure (Option Value × Bytes) :=
  if s = [] then .error .input
  else
    let tok := (window width s).takeWhile p
    if tok = [] then .error .matching else .ok (some (.str tok), s.drop tok.length)

def Directive.scan : Directive → Bytes → Except Failure (Option Value × Bytes)
  | .space, s => .ok (none, s.dropWhile isSpace)
  | .lit _, [] => .error .input
  | .lit c, d :: s => if d = c then .ok (none, s) else .error .matching
  | .set width p, s => scanSet width p s
  | .num base width, s => scanNum base width s
  | .skipWord, s =>
    let t := s.dropWhile isSpace
    if t = [] then .error .input else .ok (none, t.dropWhile fun c => !isSpace c)

def Directive.converts : Directive → Bool
  | .space | .lit _ => false
  | _ => true

/-- What a format did to its input: the values assigned, whether a conversion completed, and the
failure that ended the scan early. -/
structure Scan where
  values : List Value
  converted : Bool
  stop : Option Failure
  deriving DecidableEq, Repr

def scan : List Directive → Bytes → Scan
  | [], _ => ⟨[], false, none⟩
  | d :: ds, s =>
    match d.scan s with
    | .error e => ⟨[], false, some e⟩
    | .ok (v, s') =>
      let r := scan ds s'
      ⟨v.toList ++ r.values, d.converts || r.converted, r.stop⟩

/-- `EOF` (`-1`) when the input ends before the first conversion, else the assignment count. -/
def Scan.ret (r : Scan) : Int :=
  if r.converted = false ∧ r.stop = some .input then -1 else r.values.length

def sscanf (s : Bytes) (fmt : List Directive) : Scan := scan fmt (cstr s)

/-- Write the assigned values through the arguments, in order. -/
def store {σ ε : Type} : List (Value → σ → Except ε σ) → List Value → σ → Except ε σ
  | arg :: args, v :: vs, st =>
    match arg v st with
    | .ok st' => store args vs st'
    | .error e => .error e
  | _, _, st => .ok st

/-- `sscanf` with its argument list: the value it returns and the state it leaves. -/
def sscanfInto {σ ε : Type} (s : Bytes) (fmt : List Directive)
    (args : List (Value → σ → Except ε σ)) (st : σ) : Except ε (Int × σ) :=
  match store args (sscanf s fmt).values st with
  | .ok st' => .ok ((sscanf s fmt).ret, st')
  | .error e => .error e

/-! ## Running a format -/

theorem scan_cons_ok {d : Directive} {ds : List Directive} {s s' : Bytes} {v : Option Value}
    (h : d.scan s = .ok (v, s')) :
    scan (d :: ds) s =
      ⟨v.toList ++ (scan ds s').values, d.converts || (scan ds s').converted,
        (scan ds s').stop⟩ := by
  simp [scan, h]

theorem scan_cons_error {d : Directive} {ds : List Directive} {s : Bytes} {e : Failure}
    (h : d.scan s = .error e) : scan (d :: ds) s = ⟨[], false, some e⟩ := by
  simp [scan, h]

theorem scan_space (s : Bytes) : Directive.space.scan s = .ok (none, s.dropWhile isSpace) := rfl

theorem scan_lit (c : UInt8) (s : Bytes) : (Directive.lit c).scan (c :: s) = .ok (none, s) := by
  simp [Directive.scan]

theorem scan_lit_inv {c : UInt8} {s r : Bytes} {v : Option Value}
    (h : (Directive.lit c).scan s = .ok (v, r)) : v = none ∧ s = c :: r := by
  cases s with
  | nil => cases h
  | cons d s =>
    simp only [Directive.scan] at h
    split at h
    · rename_i hd
      cases h
      exact ⟨rfl, hd ▸ rfl⟩
    · cases h

theorem scan_num_inv {b : Nat} {w : Option Nat} {s r : Bytes} {v : Option Value}
    (h : (Directive.num b w).scan s = .ok (v, r)) : ∃ n, v = some (.num n) := by
  simp only [Directive.scan, scanNum] at h
  split at h
  · cases h
  · split at h
    · cases h
    · cases h
      exact ⟨_, rfl⟩

theorem converts_of_scan {d : Directive} {s s' : Bytes} {v : Value}
    (h : d.scan s = .ok (some v, s')) : d.converts = true := by
  cases d with
  | space => simp [Directive.scan] at h
  | lit c => cases (scan_lit_inv h).1
  | set w p => rfl
  | num b w => rfl
  | skipWord => rfl

theorem scan_converted {fmt : List Directive} {s : Bytes} (h : (scan fmt s).values ≠ []) :
    (scan fmt s).converted = true := by
  induction fmt generalizing s with
  | nil => exact absurd rfl h
  | cons d ds ih =>
    rcases hd : d.scan s with e | ⟨v, s'⟩
    · rw [scan_cons_error hd] at h
      exact absurd rfl h
    · rw [scan_cons_ok hd] at h ⊢
      cases v with
      | none => simp [ih (by simpa using h)]
      | some v => simp [converts_of_scan hd]

/-- What a conversion assigns, if it assigns anything. -/
inductive Kind where
  | str
  | num
  deriving DecidableEq, Repr

def Value.kind : Value → Kind
  | .str _ => .str
  | .num _ => .num

def Directive.kind : Directive → Option Kind
  | .set _ _ => some .str
  | .num _ _ => some .num
  | _ => none

theorem scan_kind {d : Directive} {s s' : Bytes} {v : Option Value}
    (h : d.scan s = .ok (v, s')) : v.map Value.kind = d.kind := by
  cases d with
  | space => cases h; rfl
  | lit c => rw [(scan_lit_inv h).1]; rfl
  | set w p =>
    simp only [Directive.scan, scanSet] at h
    split at h
    · cases h
    · split at h
      · cases h
      · cases h
        rfl
  | num b w =>
    obtain ⟨n, rfl⟩ := scan_num_inv h
    rfl
  | skipWord =>
    simp only [Directive.scan] at h
    split at h
    · cases h
    · cases h
      rfl

/-- The values of a scan are of the kinds that the conversions of the format have, in their order;
there may be fewer of them. -/
theorem scan_kinds (fmt : List Directive) (s : Bytes) :
    (scan fmt s).values.map Value.kind <+: fmt.filterMap Directive.kind := by
  induction fmt generalizing s with
  | nil => exact List.prefix_rfl
  | cons d ds ih =>
    rcases hd : d.scan s with e | ⟨v, s'⟩
    · rw [scan_cons_error hd]
      exact List.nil_prefix
    · have hkind := scan_kind hd
      rw [scan_cons_ok hd, List.filterMap_cons, ← hkind]
      cases v with
      | none => exact ih s'
      | some v => exact (List.prefix_cons_inj v.kind).mpr (ih s')

theorem length_of_ret {r : Scan} {n : Nat} (h : r.ret = n) : r.values.length = n := by
  unfold Scan.ret at h
  split at h
  · omega
  · exact_mod_cast h

/-- A positive return value is the number of assignments. -/
theorem sscanf_ret_eq {s : Bytes} {fmt : List Directive} {n : Nat} (hn : 0 < n) :
    (sscanf s fmt).ret = n ↔ (sscanf s fmt).values.length = n := by
  refine ⟨length_of_ret, ?_⟩
  intro h
  have hne : (sscanf s fmt).values ≠ [] := by
    intro he
    rw [he, List.length_nil] at h
    omega
  have hc : (sscanf s fmt).converted = true := scan_converted hne
  simp [Scan.ret, hc, h]

/-- A scanset either fails or takes a non-empty run of its class, no longer than its width. -/
theorem scanSet_cases (w : Option Nat) (p : UInt8 → Bool) (s : Bytes) :
    (∃ e, scanSet w p s = .error e) ∨
    ∃ tok, tok ≠ [] ∧ (∀ c ∈ tok, p c = true) ∧ (∀ n, w = some n → tok.length ≤ n) ∧
      scanSet w p s = .ok (some (.str tok), s.drop tok.length) := by
  unfold scanSet
  split
  · exact .inl ⟨_, rfl⟩
  · simp only
    split
    · exact .inl ⟨_, rfl⟩
    · rename_i hne
      refine .inr ⟨_, hne, ?_, ?_, rfl⟩
      · intro c hc
        exact List.all_eq_true.mp List.all_takeWhile c hc
      · rintro n rfl
        have := (List.takeWhile_sublist (l := s.take n) p).length_le
        simp only [List.length_take] at this
        simp only [window]
        omega

/-! ## Octets in hexadecimal -/

/-- `t` is one or two hexadecimal digits that denote the octet `b`. -/
def HexOctet (t : Bytes) (b : UInt8) : Prop :=
  (∃ d, isXDigit d = true ∧ t = [d] ∧ b.toNat = digitVal d) ∨
  (∃ d e, isXDigit d = true ∧ isXDigit e = true ∧ t = [d, e] ∧
    b.toNat = digitVal d * 16 + digitVal e)

instance (t : Bytes) (b : UInt8) : Decidable (HexOctet t b) :=
  match t with
  | [d] => decidable_of_iff (isXDigit d = true ∧ b.toNat = digitVal d) (by simp [HexOctet])
  | [d, e] =>
    decidable_of_iff (isXDigit d = true ∧ isXDigit e = true ∧
      b.toNat = digitVal d * 16 + digitVal e) (by simp [HexOctet])
  | [] | _ :: _ :: _ :: _ => .isFalse (by simp [HexOctet])

def isAlnum (c : UInt8) : Bool := isDigit c || isAlpha c

theorem isXDigit_not_space {c : UInt8} (h : isXDigit c = true) : isSpace c = false := by
  revert c
  apply forall_byte
  decide +kernel

theorem isXDigit_not_sign {c : UInt8} (h : isXDigit c = true) : c ≠ 43 ∧ c ≠ 45 := by
  revert c
  apply forall_byte
  decide +kernel

theorem isXDigit_not_x {c : UInt8} (h : isXDigit c = true) : c ≠ 120 ∧ c ≠ 88 := by
  revert c
  apply forall_byte
  decide +kernel

theorem not_alnum {c : UInt8} (h : isAlnum c = false) :
    isXDigit c = false ∧ c ≠ 120 ∧ c ≠ 88 := by
  revert c
  apply forall_byte
  decide +kernel

theorem toUInt32_eq_strtoul {b : UInt8} {v : Nat} (h : b.toNat = v) :
    strtoul false v = b.toUInt32 := by
  subst h
  have hb := b.toNat_lt
  have hv : ¬ 2 ^ 64 ≤ b.toNat := by omega
  apply UInt32.toNat_inj.mp
  simp only [strtoul, if_neg hv, Bool.false_eq_true, if_false, UInt32.toNat_ofNat',
    UInt8.toNat_toUInt32]
  omega

/-- `%2x` reads two digits, whatever follows them. -/
theorem scan_hexPair {d e b : UInt8} (hd : isXDigit d = true) (he : isXDigit e = true)
    (hb : b.toNat = digitVal d * 16 + digitVal e) (rest : Bytes) :
    (Directive.num 16 (some 2)).scan (d :: e :: rest) =
      .ok (some (.num b.toUInt32), rest) := by
  have hsp := isXDigit_not_space hd
  have hsg := isXDigit_not_sign hd
  obtain ⟨hx, hX⟩ := isXDigit_not_x he
  have hdig : isDigitOf 16 d = true := by rw [isDigitOf_sixteen]; exact hd
  have hdig' : isDigitOf 16 e = true := by rw [isDigitOf_sixteen]; exact he
  have hv := toUInt32_eq_strtoul (v := digitVal d * 16 + digitVal e) hb
  simp [Directive.scan, scanNum, hsp, window, sign, hsg, radix, hx, hX, hdig, hdig', digitsVal,
    hv]

/-- `%2x` reads the text of an octet back, as long as neither a digit nor a letter follows it. -/
theorem scan_hexOctet {t rest : Bytes} {b : UInt8} (h : HexOctet t b) (hr : Stops isAlnum rest) :
    (Directive.num 16 (some 2)).scan (t ++ rest) = .ok (some (.num b.toUInt32), rest) := by
  rcases h with ⟨d, hd, rfl, hb⟩ | ⟨d, e, hd, he, rfl, hb⟩
  · have hsp := isXDigit_not_space hd
    have hsg := isXDigit_not_sign hd
    have hdig : isDigitOf 16 d = true := by rw [isDigitOf_sixteen]; exact hd
    have hv := toUInt32_eq_strtoul (v := digitVal d) hb
    cases rest with
    | nil =>
      simp [Directive.scan, scanNum, hsp, window, sign, hsg, radix, hdig, digitsVal, hv]
    | cons c r =>
      obtain ⟨hc, hx, hX⟩ := not_alnum (stops_cons.mp hr)
      have hcd : isDigitOf 16 c = false := by rw [isDigitOf_sixteen]; exact hc
      simp [Directive.scan, scanNum, hsp, window, sign, hsg, radix, hx, hX, hdig, hcd, digitsVal,
        hv]
  · exact scan_hexPair hd he hb rest

/-- `t` is the octets `bs` in two digits each, with nothing between them. -/
inductive HexPairs : Bytes → Bytes → Prop where
  | nil : HexPairs [] []
  | cons {d e b : UInt8} {bs t : Bytes} : isXDigit d = true → isXDigit e = true →
      b.toNat = digitVal d * 16 + digitVal e → HexPairs bs t → HexPairs (b :: bs) (d :: e :: t)

theorem HexPairs.length {bs t : Bytes} (h : HexPairs bs t) : t.length = 2 * bs.length := by
  induction h with
  | nil => rfl
  | cons _ _ _ _ ih =>
    simp only [List.length_cons, ih]
    omega

/-- The pair of an octet stands at twice its index. -/
theorem HexPairs.drop {bs t : Bytes} (h : HexPairs bs t) {j : Nat} (hj : j < bs.length) :
    ∃ d e u, t.drop (2 * j) = d :: e :: u ∧ isXDigit d = true ∧ isXDigit e = true ∧
      (bs.getD j 0).toNat = digitVal d * 16 + digitVal e := by
  induction h generalizing j with
  | nil => exact absurd hj (Nat.not_lt_zero j)
  | cons hd he hb _ ih =>
    cases j with
    | zero => exact ⟨_, _, _, rfl, hd, he, hb⟩
    | succ j =>
      obtain ⟨d, e, u, hu, hrest⟩ := ih (Nat.lt_of_succ_lt_succ hj)
      exact ⟨d, e, u, by simpa [Nat.mul_succ] using hu, hrest⟩

/-- `%2x` fields with the literal `sep` between them. -/
def hexFields (sep : UInt8) : Nat → List Directive
  | 0 => []
  | 1 => [.num 16 (some 2)]
  | n + 2 => .num 16 (some 2) :: .lit sep :: hexFields sep (n + 1)

/-- `t` is a rendering of the octets `bs`, with `sep` between them. -/
def HexFields (sep : UInt8) : Bytes → Bytes → Prop
  | [], t => t = []
  | [b], t => HexOctet t b
  | b :: b' :: bs, t => ∃ u v, HexOctet u b ∧ HexFields sep (b' :: bs) v ∧ t = u ++ sep :: v

/-- Texts of octets, joined. -/
theorem hexFields_intercalate (sep : UInt8) (ts : List Bytes) {bs : Bytes}
    (hlen : ts.length = bs.length) (h : ∀ x ∈ ts.zip bs, HexOctet x.1 x.2) :
    HexFields sep bs ([sep].intercalate ts) := by
  induction bs generalizing ts with
  | nil =>
    rw [List.length_eq_zero_iff.mp hlen]
    rfl
  | cons b bs ih =>
    obtain ⟨t, ts, rfl⟩ := List.exists_cons_of_length_eq_add_one hlen
    have ht : HexOctet t b := h (t, b) (List.mem_cons_self ..)
    have hts := ih ts (Nat.succ.inj hlen) fun x hx => h x (List.mem_cons_of_mem _ hx)
    cases bs with
    | nil =>
      rw [List.length_eq_zero_iff.mp (Nat.succ.inj hlen)]
      simpa [HexFields] using ht
    | cons b' bs =>
      obtain ⟨t', ts, rfl⟩ := List.exists_cons_of_length_eq_add_one (Nat.succ.inj hlen)
      refine ⟨t, _, ht, hts, ?_⟩
      rw [List.intercalate_cons_cons, List.append_assoc, List.singleton_append]

theorem HexOctet.isXDigit {t : Bytes} {b c : UInt8} (h : HexOctet t b) (hc : c ∈ t) :
    isXDigit c = true := by
  rcases h with ⟨d, hd, rfl, _⟩ | ⟨d, e, hd, he, rfl, _⟩
  · rw [List.mem_singleton] at hc
    exact hc ▸ hd
  · simp only [List.mem_cons, List.not_mem_nil, or_false] at hc
    rcases hc with rfl | rfl
    · exact hd
    · exact he

theorem HexFields.mem {sep : UInt8} {bs t : Bytes} {c : UInt8} (h : HexFields sep bs t)
    (hc : c ∈ t) : c = sep ∨ CLib.isXDigit c = true := by
  induction bs generalizing t with
  | nil =>
    rw [show t = [] from h] at hc
    cases hc
  | cons b bs ih =>
    cases bs with
    | nil => exact .inr (HexOctet.isXDigit h hc)
    | cons b' bs =>
      obtain ⟨u, v, hu, hv, rfl⟩ := h
      rcases List.mem_append.mp hc with hc | hc
      · exact .inr (hu.isXDigit hc)
      · rcases List.mem_cons.mp hc with rfl | hc
        · exact .inl rfl
        · exact ih hv hc

theorem HexOctet.length_pos {t : Bytes} {b : UInt8} (h : HexOctet t b) : 0 < t.length := by
  rcases h with ⟨d, _, rfl, _⟩ | ⟨d, e, _, _, rfl, _⟩
  · exact Nat.one_pos
  · exact Nat.two_pos

/-- `n` octets take at least `n` digits and `n - 1` separators. -/
theorem HexFields.length_le {sep : UInt8} {bs t : Bytes} (h : HexFields sep bs t) :
    2 * bs.length ≤ t.length + 1 := by
  induction bs generalizing t with
  | nil => exact Nat.zero_le _
  | cons b bs ih =>
    cases bs with
    | nil =>
      have := HexOctet.length_pos h
      simp only [List.length_cons, List.length_nil]
      omega
    | cons b' bs =>
      obtain ⟨u, v, hu, hv, rfl⟩ := h
      have := hu.length_pos
      have := ih hv
      simp only [List.length_cons, List.length_append] at *
      omega

theorem cstr_eq_self {s : Bytes} (h : ∀ c ∈ s, c ≠ 0) : cstr s = s := by
  have hs : ∀ c ∈ s, (c != 0) = true := by simpa using h
  have := takeWhile_munch hs stops_nil
  simpa [cstr] using this

theorem HexFields.cstr_eq {sep : UInt8} {bs t : Bytes} (hsep : sep ≠ 0)
    (h : HexFields sep bs t) : cstr t = t := by
  apply cstr_eq_self
  rintro c hc rfl
  rcases h.mem hc with h0 | h0
  · exact hsep h0.symm
  · exact absurd h0 (by decide)

theorem scan_hexFields {sep : UInt8} (hsep : isAlnum sep = false) {bs t : Bytes} (hne : bs ≠ [])
    (h : HexFields sep bs t) :
    scan (hexFields sep bs.length) t = ⟨bs.map fun b => .num b.toUInt32, true, none⟩ := by
  induction bs generalizing t with
  | nil => exact absurd rfl hne
  | cons b bs ih =>
    cases bs with
    | nil =>
      have hs := scan_hexOctet (show HexOctet t b from h) stops_nil
      rw [List.append_nil] at hs
      simp [hexFields, scan, hs, Directive.converts]
    | cons b' bs =>
      obtain ⟨u, v, hu, hv, rfl⟩ := h
      have hs := scan_hexOctet hu (show Stops isAlnum (sep :: v) from stops_cons.mpr hsep)
      have hrest := ih (by simp) hv
      simp only [List.length_cons] at hrest
      simp [hexFields, scan_cons_ok hs, scan_cons_ok (scan_lit sep v), hrest, Directive.converts]

end CLib
