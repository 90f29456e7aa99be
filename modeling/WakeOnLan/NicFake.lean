import Mathlib.Data.List.Infix
import WakeOnLan.CLib.Printf
import WakeOnLan.Packet

/-!
# WakeOnLan.NicFake

`check/nic-fake.py`: the card that the tests send their packets to.

* `Check`         — what a part of its thread prints, and how the thread ends in it, if it does.
* `waitForPacket` — the thread, on the datagram that comes in.
* `waitForPacket_exit` — what it lets pass, check by check.
* `Check.Errs`    — if the thread ends in this part, it is with an error.
* `waitForPacket_iff`  — the datagrams that it lets pass, as byte strings; the others end it.

The thread does not look at the first copy of the address. Of a datagram that is longer than a plain
packet it takes the last six octets for a password and leaves the last five out of its data, so that
four lengths end it with an index that is out of range.
-/

namespace WakeOnLan

open CLib

namespace NicFake

/-- How the thread ends before its time: in `getout`, or with an `IndexError`. -/
inductive Exit where
  | getout (status : Nat)
  | indexError
  deriving DecidableEq, Repr

structure Check where
  said : List Bytes
  exit : Option Exit
  deriving DecidableEq, Repr

def pass : Check := ⟨[], none⟩

def print (line : Bytes) : Check := ⟨[line], none⟩

def raise (e : Exit) : Check := ⟨[], some e⟩

def Check.andThen (c d : Check) : Check :=
  match c.exit with
  | none => ⟨c.said ++ d.said, d.exit⟩
  | some _ => c

/-- `for a in as` -/
def forEach {α : Type} (f : α → Check) : List α → Check
  | [] => pass
  | a :: as => (f a).andThen (forEach f as)

def getout (status : Nat) : Check :=
  (print (if status ≠ 0 then ascii "ERROR" else ascii "GOOD")).andThen (raise (.getout status))

/-- Six elements of a tuple, as `%2x %2x %2x %2x %2x %2x` prints them. -/
def printSix (label t : Bytes) (off : Nat) : Check :=
  let six := (t.drop off).take 6
  if six.length = 6 then
    print (label ++ ([32] : Bytes).intercalate (six.map fun b => fmtHex 2 b.toNat))
  else raise .indexError

def complain (text label t : Bytes) (off : Nat) : Check :=
  (print text).andThen ((printSix label t off).andThen (getout 1))

/-- `if t[i] != want[j]` -/
def compare (t : Bytes) (i : Nat) (want : List Int) (j : Nat) (complaint : Check) : Check :=
  match t[i]?, want[j]? with
  | some a, some b => if (a.toNat : Int) ≠ b then complaint else pass
  | _, _ => raise .indexError

def checkHeader (header : Bytes) : Check :=
  forEach (fun h => if h ≠ 0xff then
    complain (ascii "Error: Header not conforming") (ascii "Header:   ") header 0 else pass) header

/-- The loop begins with the second copy. -/
def checkMagic (magic : Bytes) (mac : List Int) : Check :=
  forEach (fun i => forEach (fun j => compare magic (i * 6 + j) mac j
    (complain (ascii "Error: Magic Data not conforming")
      (ascii "Magic(" ++ fmtInt (i * 6) ++ ascii "): ") magic (i * 6))) (List.range 6))
    (List.range' 1 15)

def checkSecureon (secureon : Bytes) (sec : List Int) : Check :=
  forEach (fun i => compare secureon i sec i
    (complain (ascii "Error: SecureON password not conforming") (ascii "SecureON: ") secureon 0))
    (List.range 6)

def received (l : Nat) : Bytes := ascii "Received " ++ fmtInt l ++ ascii " octets"

/-- `mac` and `sec` are the numbers that the thread was started with. -/
def waitForPacket (mac sec : List Int) (datagram : Bytes) : Check :=
  let r := datagram.take 1024
  let l := r.length
  if l < 102 then (print (received l ++ ascii ", too less")).andThen (getout 1)
  else
    let header := r.take 6
    let magic := if l > 102 then (r.take (l - 5)).drop 6 else r.drop 6
    (print (received l)).andThen <| (checkHeader header).andThen <|
      (print (ascii "Header GOOD")).andThen <| (checkMagic magic mac).andThen <|
      (print (ascii "Data GOOD")).andThen <|
      if l > 102 then
        (checkSecureon (r.drop (l - 6)) sec).andThen (print (ascii "SecureON GOOD"))
      else pass

/-! ## Checks that the thread survives -/

section Checks

variable {α : Type} {c d : Check} {f : α → Check} {as : List α}

theorem exit_andThen : (c.andThen d).exit = none ↔ c.exit = none ∧ d.exit = none := by
  cases h : c.exit with
  | none => simp [Check.andThen, h]
  | some e => simp [Check.andThen, h]

theorem exit_forEach : (forEach f as).exit = none ↔ ∀ a ∈ as, (f a).exit = none := by
  induction as with
  | nil => simp [forEach, pass]
  | cons a as ih => rw [forEach, exit_andThen, ih, List.forall_mem_cons]

theorem exit_complain {text label t : Bytes} {off : Nat} :
    (complain text label t off).exit ≠ none := by
  rw [complain, Ne, exit_andThen, exit_andThen]
  rintro ⟨_, _, h⟩
  cases h

theorem exit_compare {t : Bytes} {want : List Int} {i j : Nat} (hc : c.exit ≠ none) :
    (compare t i want j c).exit = none ↔
      ∃ b, t[i]? = some b ∧ want[j]? = some (b.toNat : Int) := by
  cases ht : t[i]? with
  | none => simp [compare, ht, raise]
  | some a =>
    cases hw : want[j]? with
    | none => simp [compare, ht, hw, raise]
    | some b =>
      by_cases hab : (a.toNat : Int) = b
      · simp [compare, ht, hw, hab, pass]
      · simp [compare, ht, hw, hab, hc, Ne.symm hab]

def Check.Errs (c : Check) : Prop := ∀ e ∈ c.exit, e = .getout 1 ∨ e = .indexError

theorem Check.Errs.of_none (h : c.exit = none) : c.Errs := by
  intro e he
  rw [h] at he
  cases he

theorem Check.Errs.andThen (hc : c.Errs) (hd : d.Errs) : (c.andThen d).Errs := by
  cases h : c.exit with
  | none =>
    rw [Check.andThen, h]
    exact hd
  | some x =>
    rw [Check.andThen, h]
    exact hc

theorem errs_forEach (hf : ∀ a, (f a).Errs) : (forEach f as).Errs := by
  induction as with
  | nil => exact .of_none rfl
  | cons a as ih => exact (hf a).andThen ih

theorem errs_indexError : (raise .indexError).Errs := by
  rintro e ⟨⟩
  exact .inr rfl

theorem errs_getout : (getout 1).Errs := by
  rintro e ⟨⟩
  exact .inl rfl

theorem errs_complain (text label t : Bytes) (off : Nat) : (complain text label t off).Errs := by
  have hsix : (printSix label t off).Errs := by
    simp only [printSix]
    split
    · exact .of_none rfl
    · exact errs_indexError
  exact Check.Errs.andThen (.of_none rfl) (hsix.andThen errs_getout)

theorem errs_compare (t : Bytes) (i : Nat) (want : List Int) (j : Nat) (hc : c.Errs) :
    (compare t i want j c).Errs := by
  unfold compare
  split
  · split
    · exact hc
    · exact .of_none rfl
  · exact errs_indexError

/-- A check without complaint prints nothing. -/
theorem forEach_pass (hf : ∀ a, (f a).exit = none → f a = pass)
    (h : (forEach f as).exit = none) : forEach f as = pass := by
  induction as with
  | nil => rfl
  | cons a as ih =>
    rw [forEach, exit_andThen] at h
    rw [forEach, hf a h.1, ih h.2]
    rfl

theorem compare_pass {t : Bytes} {want : List Int} {i j : Nat} (hc : c.exit ≠ none)
    (h : (compare t i want j c).exit = none) : compare t i want j c = pass := by
  obtain ⟨b, ht, hw⟩ := (exit_compare hc).mp h
  simp [compare, ht, hw]

end Checks

/-! ## Rows of six -/

/-- Six octets as the thread has them from its command line. -/
def ints (o : Octets) : List Int := o.bytes.map fun b => (b.toNat : Int)

theorem octets_eq {o o' : Octets} (h : o.bytes = o'.bytes) : o = o' := by
  cases o
  cases o'
  cases h
  rfl

theorem ints_injective {o o' : Octets} (h : ints o = ints o') : o = o' :=
  octets_eq (List.map_injective_iff.mpr
    (fun _ _ hab => UInt8.toNat_inj.mp (Int.ofNat.inj hab)) h)

/-- The octets that a list of numbers begins with are its own. -/
theorem ints_prefix_unique {o o' : Octets} {want : List Int} (h : ints o <+: want)
    (h' : ints o' <+: want) : o = o' := by
  apply ints_injective
  have hlen : (ints o).length = (ints o').length := by
    rw [ints, ints, List.length_map, List.length_map, o.len, o'.len]
  exact (List.prefix_of_prefix_length_le h h' (Nat.le_of_eq hlen)).eq_of_length hlen

theorem ints_prefix_iff {o o' : Octets} : ints o <+: ints o' ↔ o = o' := by
  constructor
  · intro h
    exact ints_prefix_unique h (List.prefix_refl _)
  · rintro rfl
    exact List.prefix_refl _

/-- Six comparisons in a row hold if six octets stand there that are wanted. -/
theorem row_iff (t : Bytes) (off : Nat) (want : List Int) :
    (∀ j ∈ List.range 6, ∃ b, t[off + j]? = some b ∧ want[j]? = some (b.toNat : Int)) ↔
      ∃ a : Octets, a.bytes <+: t.drop off ∧ ints a <+: want := by
  constructor
  · intro h
    have hlen : ((t.drop off).take 6).length = 6 := by
      obtain ⟨b, hb, _⟩ := h 5 (by decide)
      obtain ⟨hlt, _⟩ := List.getElem?_eq_some_iff.mp hb
      rw [List.length_take, List.length_drop]
      omega
    refine ⟨⟨(t.drop off).take 6, hlen⟩, List.take_prefix .., ?_⟩
    rw [List.prefix_iff_getElem?]
    intro j hj
    have hj' : j < 6 := by rwa [ints, List.length_map, hlen] at hj
    obtain ⟨b, hb, hw⟩ := h j (List.mem_range.mpr hj')
    rw [hw]
    have hget : ((t.drop off).take 6)[j]? = some b := by
      rw [List.getElem?_take_of_lt hj', List.getElem?_drop, hb]
    obtain ⟨hlt, hget⟩ := List.getElem?_eq_some_iff.mp hget
    simp only [ints, List.getElem_map, hget]
  · rintro ⟨a, ha, hw⟩ j hj
    have hj' : j < a.bytes.length := by
      rw [a.len]
      exact List.mem_range.mp hj
    refine ⟨a.bytes[j], ?_, ?_⟩
    · rw [← List.getElem?_drop]
      exact List.prefix_iff_getElem?.mp ha j hj'
    · have hget := List.prefix_iff_getElem?.mp hw j (by rwa [ints, List.length_map])
      simpa only [ints, List.getElem_map] using hget

theorem append_prefix_iff {α : Type} {a b xs : List α} :
    a ++ b <+: xs ↔ a <+: xs ∧ b <+: xs.drop a.length := by
  constructor
  · rintro ⟨c, rfl⟩
    rw [List.append_assoc, List.drop_left]
    exact ⟨List.prefix_append .., List.prefix_append ..⟩
  · rintro ⟨⟨c, rfl⟩, h⟩
    rw [List.drop_left] at h
    exact (List.prefix_append_right_inj a).mpr h

/-- The same row again and again. -/
theorem replicate_prefix_iff {α : Type} {a xs : List α} {n : Nat} :
    (List.replicate n a).flatten <+: xs ↔ ∀ i < n, a <+: xs.drop (i * a.length) := by
  induction n generalizing xs with
  | zero => simp
  | succ n ih =>
    rw [List.replicate_succ, List.flatten_cons, append_prefix_iff, ih]
    constructor
    · rintro ⟨h0, h⟩ i hi
      cases i with
      | zero => simpa using h0
      | succ i =>
        have hdrop := h i (by omega)
        rw [List.drop_drop] at hdrop
        rwa [Nat.succ_mul, Nat.add_comm]
    · intro h
      refine ⟨by simpa using h 0 (by omega), fun i hi => ?_⟩
      have hdrop := h (i + 1) (by omega)
      rw [List.drop_drop]
      rwa [Nat.succ_mul, Nat.add_comm] at hdrop

theorem length_rows (a : Octets) : (List.replicate 15 a.bytes).flatten.length = 90 := by
  simp [a.len, macLen]

/-! ## The thread -/

theorem checkHeader_exit (header : Bytes) :
    (checkHeader header).exit = none ↔ ∀ h ∈ header, h = 0xff := by
  rw [checkHeader, exit_forEach]
  refine forall_congr' fun h => imp_congr_right fun _ => ?_
  by_cases hh : h = 0xff
  · simp [hh, pass]
  · simp only [hh, ne_eq, not_false_eq_true, if_true, iff_false]
    exact exit_complain

theorem checkMagic_exit (magic : Bytes) (mac : List Int) :
    (checkMagic magic mac).exit = none ↔
      ∃ a : Octets, ints a <+: mac ∧ (List.replicate 15 a.bytes).flatten <+: magic.drop 6 := by
  have hrow : ∀ i, (forEach (fun j => compare magic (i * 6 + j) mac j
      (complain (ascii "Error: Magic Data not conforming")
        (ascii "Magic(" ++ fmtInt (i * 6) ++ ascii "): ") magic (i * 6)))
      (List.range 6)).exit = none ↔
        ∃ a : Octets, a.bytes <+: magic.drop (i * 6) ∧ ints a <+: mac := by
    intro i
    rw [exit_forEach, ← row_iff]
    exact forall_congr' fun j => imp_congr_right fun _ => exit_compare exit_complain
  have hdrop : ∀ (a : Octets) (i : Nat),
      (magic.drop 6).drop (i * a.bytes.length) = magic.drop ((i + 1) * 6) := by
    intro a i
    rw [List.drop_drop, a.len]
    congr 1
    simp only [macLen]
    omega
  rw [checkMagic, exit_forEach]
  constructor
  · intro h
    have h' : ∀ i < 15, ∃ a : Octets, a.bytes <+: magic.drop ((i + 1) * 6) ∧ ints a <+: mac :=
      fun i hi => (hrow (i + 1)).mp (h (i + 1) (List.mem_range'_1.mpr (by omega)))
    obtain ⟨a, _, ha⟩ := h' 0 (by decide)
    refine ⟨a, ha, replicate_prefix_iff.mpr fun i hi => ?_⟩
    obtain ⟨a', hpre, ha'⟩ := h' i hi
    rw [hdrop, ints_prefix_unique ha ha']
    exact hpre
  · rintro ⟨a, ha, hrows⟩ i hi
    obtain ⟨hlo, hhi⟩ := List.mem_range'_1.mp hi
    have hpre := replicate_prefix_iff.mp hrows (i - 1) (by omega)
    rw [hdrop, Nat.sub_add_cancel hlo] at hpre
    exact (hrow i).mpr ⟨a, hpre, ha⟩

theorem checkSecureon_exit (secureon : Bytes) (sec : List Int) :
    (checkSecureon secureon sec).exit = none ↔
      ∃ p : Octets, p.bytes <+: secureon ∧ ints p <+: sec := by
  have hrow := row_iff secureon 0 sec
  rw [List.drop_zero] at hrow
  rw [checkSecureon, exit_forEach, ← hrow]
  refine forall_congr' fun j => imp_congr_right fun _ => ?_
  rw [Nat.zero_add]
  exact exit_compare exit_complain

/-- What the thread lets pass: a datagram of 102 octets, or of 107 or more. -/
theorem waitForPacket_exit (mac sec : List Int) {datagram r : Bytes} (hr : datagram.take 1024 = r) :
    (waitForPacket mac sec datagram).exit = none ↔
      (∀ h ∈ r.take 6, h = 0xff) ∧
      (∃ a : Octets, ints a <+: mac ∧ (List.replicate 15 a.bytes).flatten <+: r.drop 12) ∧
      (r.length = 102 ∨
        107 ≤ r.length ∧ ∃ p : Octets, p.bytes <:+ r ∧ ints p <+: sec) := by
  simp only [waitForPacket, hr]
  by_cases hshort : r.length < 102
  · rw [if_pos hshort, exit_andThen]
    constructor
    · rintro ⟨_, h⟩
      cases h
    · rintro ⟨_, _, h | h⟩
      · omega
      · omega
  · rw [if_neg hshort]
    simp only [exit_andThen, checkHeader_exit, checkMagic_exit]
    by_cases hlong : r.length > 102
    · have hmagic : ∀ a : Octets, (List.replicate 15 a.bytes).flatten <+:
          ((r.take (r.length - 5)).drop 6).drop 6 ↔
            (List.replicate 15 a.bytes).flatten <+: r.drop 12 ∧ 107 ≤ r.length := by
        intro a
        rw [List.drop_drop, List.drop_take, List.prefix_take_iff, length_rows]
        exact and_congr_right fun _ => by omega
      have hsec : ∀ p : Octets, p.bytes <+: r.drop (r.length - 6) ↔ p.bytes <:+ r := by
        intro p
        rw [List.suffix_iff_eq_drop, p.len]
        constructor
        · intro h
          exact h.eq_of_length (by rw [List.length_drop, p.len, macLen]; omega)
        · intro h
          rw [macLen] at h
          rw [← h]
      simp only [if_pos hlong, hmagic, exit_andThen, checkSecureon_exit, hsec, print, true_and,
        and_true]
      constructor
      · rintro ⟨hheader, ⟨a, ha, hrows, hl⟩, hp⟩
        exact ⟨hheader, ⟨a, ha, hrows⟩, .inr ⟨hl, hp⟩⟩
      · rintro ⟨hheader, ⟨a, ha, hrows⟩, hl | ⟨hl, hp⟩⟩
        · omega
        · exact ⟨hheader, ⟨a, ha, hrows, hl⟩, hp⟩
    · have hl : r.length = 102 := by omega
      simp only [if_neg hlong, List.drop_drop, print, pass, true_and, and_true]
      constructor
      · rintro ⟨hheader, hrows⟩
        exact ⟨hheader, hrows, .inl hl⟩
      · rintro ⟨hheader, hrows, _⟩
        exact ⟨hheader, hrows⟩

/-- What the thread prints about a datagram of `l` octets that it lets pass. -/
def passed (l : Nat) : Check :=
  ⟨[received l, ascii "Header GOOD", ascii "Data GOOD"] ++
    if l > 102 then [ascii "SecureON GOOD"] else [], none⟩

theorem checkHeader_pass {header : Bytes} (h : (checkHeader header).exit = none) :
    checkHeader header = pass := by
  refine forEach_pass (fun b hb => ?_) h
  split at hb
  · exact absurd hb exit_complain
  · rename_i hff
    rw [if_neg hff]

theorem checkMagic_pass {magic : Bytes} {mac : List Int}
    (h : (checkMagic magic mac).exit = none) : checkMagic magic mac = pass :=
  forEach_pass (fun _ hrow => forEach_pass (fun _ => compare_pass exit_complain) hrow) h

theorem checkSecureon_pass {secureon : Bytes} {sec : List Int}
    (h : (checkSecureon secureon sec).exit = none) : checkSecureon secureon sec = pass :=
  forEach_pass (fun _ => compare_pass exit_complain) h

theorem waitForPacket_passed {mac sec : List Int} {datagram r : Bytes}
    (hr : datagram.take 1024 = r) (h : (waitForPacket mac sec datagram).exit = none) :
    waitForPacket mac sec datagram = passed r.length := by
  simp only [waitForPacket, hr] at h ⊢
  by_cases hshort : r.length < 102
  · rw [if_pos hshort, exit_andThen] at h
    cases h.2
  · rw [if_neg hshort] at h ⊢
    simp only [exit_andThen] at h
    obtain ⟨_, hheader, _, hmagic, _, hsec⟩ := h
    rw [checkHeader_pass hheader, checkMagic_pass hmagic]
    by_cases hlong : r.length > 102
    · rw [if_pos hlong, exit_andThen] at hsec
      rw [if_pos hlong, checkSecureon_pass hsec.1, passed, if_pos hlong]
      rfl
    · rw [if_neg hlong, passed, if_neg hlong]
      rfl

theorem passed_iff {mac sec : List Int} {datagram r : Bytes} (hr : datagram.take 1024 = r) :
    waitForPacket mac sec datagram = passed r.length ↔
      (waitForPacket mac sec datagram).exit = none := by
  constructor
  · intro h
    rw [h]
    rfl
  · exact waitForPacket_passed hr

theorem waitForPacket_errs (mac sec : List Int) (datagram : Bytes) :
    (waitForPacket mac sec datagram).Errs := by
  have hprint (line : Bytes) : (print line).Errs := .of_none rfl
  have hheader (header : Bytes) : (checkHeader header).Errs := by
    refine errs_forEach fun h => ?_
    split
    · exact errs_complain _ _ _ _
    · exact .of_none rfl
  have hmagic (magic : Bytes) : (checkMagic magic mac).Errs :=
    errs_forEach fun _ => errs_forEach fun _ => errs_compare _ _ _ _ (errs_complain _ _ _ _)
  have hsecureon (secureon : Bytes) : (checkSecureon secureon sec).Errs :=
    errs_forEach fun _ => errs_compare _ _ _ _ (errs_complain _ _ _ _)
  simp only [waitForPacket]
  split
  · exact (hprint _).andThen errs_getout
  · refine (hprint _).andThen ((hheader _).andThen ((hprint _).andThen ((hmagic _).andThen
      ((hprint _).andThen ?_))))
    split
    · exact (hsecureon _).andThen (hprint _)
    · exact .of_none rfl

/-- The thread lets a datagram pass, of which it sees 1024 octets, exactly if they are a header, six
octets of any kind, fifteen times the address, and behind that nothing, or five octets or more that
end with the password; the first octet of the password is then the last of the address if they are
just five. Any other datagram ends it with an error. -/
theorem waitForPacket_iff (mac sec : List Int) (datagram : Bytes) :
    (waitForPacket mac sec datagram = passed (datagram.take 1024).length ↔
      ∃ (a : Octets) (first rest : Bytes), ints a <+: mac ∧ first.length = 6 ∧
        datagram.take 1024 =
          List.replicate 6 0xff ++ first ++ (List.replicate 15 a.bytes).flatten ++ rest ∧
        (rest = [] ∨
          5 ≤ rest.length ∧ ∃ p : Octets, p.bytes <:+ datagram.take 1024 ∧ ints p <+: sec)) ∧
    (waitForPacket mac sec datagram ≠ passed (datagram.take 1024).length →
      ∃ e, (waitForPacket mac sec datagram).exit = some e ∧ (e = .getout 1 ∨ e = .indexError)) := by
  generalize hr : datagram.take 1024 = r
  rw [Ne, passed_iff hr]
  constructor
  · rw [waitForPacket_exit mac sec hr]
    constructor
    · rintro ⟨hheader, ⟨a, ha, rest, hrest⟩, hsize⟩
      have hlong : 102 ≤ r.length := by
        rcases hsize with h | ⟨h, _⟩
        · omega
        · omega
      have hsplit : r.take 6 ++ (r.drop 6).take 6 ++ r.drop 12 = r := by
        rw [List.append_assoc, show (12 : Nat) = 6 + 6 from rfl, ← List.drop_drop,
          List.take_append_drop, List.take_append_drop]
      have hff : r.take 6 = List.replicate 6 0xff := by
        rw [List.eq_replicate_iff]
        exact ⟨by rw [List.length_take]; omega, hheader⟩
      have hcount : r.length = 12 + (90 + rest.length) := by
        have := congrArg List.length hrest
        rw [List.length_append, length_rows, List.length_drop] at this
        omega
      refine ⟨a, (r.drop 6).take 6, rest, ha, by rw [List.length_take, List.length_drop]; omega, ?_,
        ?_⟩
      · rw [List.append_assoc, hrest, ← hff, hsplit]
      · rcases hsize with h | ⟨h, hp⟩
        · exact .inl (List.length_eq_zero_iff.mp (by omega))
        · exact .inr ⟨by omega, hp⟩
    · rintro ⟨a, first, rest, ha, hfirst, rfl, hrest⟩
      have hprefix : (List.replicate 6 (0xff : UInt8) ++ first).length = 12 := by
        rw [List.length_append, List.length_replicate, hfirst]
      refine ⟨?_, ⟨a, ha, rest, ?_⟩, ?_⟩
      · rw [List.append_assoc, List.append_assoc, List.take_left' List.length_replicate]
        exact fun h hh => List.eq_of_mem_replicate hh
      · rw [List.append_assoc, List.drop_left' hprefix]
      · rw [List.length_append, List.length_append, hprefix, length_rows]
        rcases hrest with rfl | ⟨h, hp⟩
        · exact .inl rfl
        · exact .inr ⟨by omega, hp⟩
  · intro hother
    obtain ⟨e, he⟩ := Option.ne_none_iff_exists'.mp hother
    exact ⟨e, he, waitForPacket_errs mac sec datagram e he⟩

/-! ## The packets of `wol` -/

section Packets

variable (a : Octets) (p : Option Octets)

theorem magicPacket_header : ∀ h ∈ (magicPacket a p).take 6, h = 0xff := by
  have hlen : (List.replicate magicHeader (0xff : UInt8)).length = 6 := List.length_replicate
  rw [magicPacket, List.append_assoc, List.take_left' hlen]
  exact fun h hh => List.eq_of_mem_replicate hh

theorem magicPacket_drop : (magicPacket a p).drop 12 =
    (List.replicate 15 a.bytes).flatten ++ (p.map Octets.bytes).getD [] := by
  have hfirst : (List.replicate magicHeader (0xff : UInt8) ++ a.bytes).length = 12 := by
    rw [List.length_append, List.length_replicate, a.len]
    rfl
  rw [magicPacket, magicTimes, List.replicate_succ, List.flatten_cons, ← List.append_assoc,
    List.append_assoc, List.drop_left' hfirst]

variable {a p}

/-- The rows of a packet are those of its address only. -/
theorem magicPacket_rows {b : Octets} :
    (∃ c : Octets, ints c <+: ints b ∧
      (List.replicate 15 c.bytes).flatten <+: (magicPacket a p).drop 12) ↔ a = b := by
  rw [magicPacket_drop]
  constructor
  · rintro ⟨c, hc, hpre⟩
    have hlen : (List.replicate 15 c.bytes).flatten.length =
        (List.replicate 15 a.bytes).flatten.length := by rw [length_rows, length_rows]
    have heq := (List.prefix_of_prefix_length_le hpre (List.prefix_append ..)
      (Nat.le_of_eq hlen)).eq_of_length hlen
    rw [List.replicate_succ, List.replicate_succ, List.flatten_cons, List.flatten_cons] at heq
    have hbytes := (List.append_inj heq (by rw [a.len, c.len])).1
    rw [← ints_prefix_iff.mp hc, octets_eq hbytes]
  · rintro rfl
    exact ⟨a, List.prefix_refl _, List.prefix_append ..⟩

/-- Its last six octets are its password. -/
theorem magicPacket_last {o q : Octets} :
    (∃ s : Octets, s.bytes <:+ magicPacket a (some o) ∧ ints s <+: ints q) ↔ o = q := by
  constructor
  · rintro ⟨s, hs, hq⟩
    have hlen : s.bytes.length = o.bytes.length := by rw [s.len, o.len]
    have hlast : o.bytes <:+ magicPacket a (some o) := List.suffix_append ..
    have heq := (List.suffix_of_suffix_length_le hs hlast (Nat.le_of_eq hlen)).eq_of_length hlen
    rw [← ints_prefix_iff.mp hq, octets_eq heq]
  · rintro rfl
    exact ⟨o, List.suffix_append .., List.prefix_refl _⟩

theorem magicPacket_received : (magicPacket a p).take 1024 = magicPacket a p := by
  apply List.take_of_length_le
  rw [length_magicPacket]
  split
  · decide
  · decide

/-- A card with an address and a password of its own lets a magic packet pass if it is for this
address, and has either no password or this one. -/
theorem magicPacket_iff (b q : Octets) :
    (waitForPacket (ints b) (ints q) (magicPacket a p)).exit = none ↔
      a = b ∧ (p = none ∨ p = some q) := by
  rw [waitForPacket_exit (ints b) (ints q) magicPacket_received,
    and_iff_right (magicPacket_header a p), magicPacket_rows, length_magicPacket]
  refine and_congr_right fun _ => ?_
  cases p with
  | none => simp [sizeofPacket, magicHeader, magicTimes, macLen]
  | some o =>
    rw [magicPacket_last]
    simp [sizeofSecureon, sizeofPacket, magicHeader, magicTimes, macLen, magicSecureon]

end Packets

end NicFake

end WakeOnLan
