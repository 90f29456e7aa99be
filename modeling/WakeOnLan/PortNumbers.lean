import WakeOnLan.MacfileFormat
import WakeOnLan.Run

/-!
# WakeOnLan.PortNumbers

A port as a string of decimal digits, of any length.

* `SendsTo`       — the port to which the datagrams of a port number go.
* `OptionPort ds` — `-p` with the digits `ds` is rejected, or sets the port they denote.
* `LinePort ds`   — every line with the digits `ds` behind the colon of its host goes to the
  default port, or to the port they denote, and none of them gets into the password.
* `portDigits_iff` — the strings for which this is so: `%5u` looks at five digits.
-/

namespace WakeOnLan

open CLib

/-- Every datagram of a call in UDP mode with this port number goes to the port `n`. -/
def SendsTo (portnum : UInt32) (n : Nat) : Prop :=
  ∀ g env m sock mac host pass o, g.packetMode &&& udpMode ≠ 0 → m.WF →
    assembleAndSend g env m sock mac host portnum pass = .ok o →
    ∀ d ∈ datagrams o.events, ∃ addr, d.1 = some (addr, n)

def OptionPort (ds : Bytes) : Prop :=
  ∀ programName getpass p p', parseOpt programName getpass p (.port ds) = .ok p' →
    p'.globals.port.toUInt16.toNat = digitsVal 10 ds ∧ 1 ≤ digitsVal 10 ds ∧
      digitsVal 10 ds ≤ 65535 ∧ SendsTo p'.globals.port (digitsVal 10 ds)

/-- `lead MAC sep HOST:` and then a number, behind which `rest` begins without a digit. -/
structure PortLine where
  lead : Blanks
  mac : Word isMacChar (some 17)
  sep : Word isSpace none
  host : Word isHostChar none
  fits : host.text.length ≤ 254
  rest : Bytes
  stops : Stops isDigit rest

def PortLine.text (l : PortLine) (ds : Bytes) : Bytes :=
  l.lead.text ++ (l.mac.text ++ (l.sep.text ++ (l.host.text ++ 58 :: (ds ++ l.rest))))

/-- The password that stands behind the number. -/
def PortLine.passwd (l : PortLine) : Option Bytes :=
  (scanStr passFmt (cstr l.rest)).map Prod.fst

/-- The record of a line that `main` sends to the port of `ds`, or to the default port. -/
structure RecordPort (l : PortLine) (ds : Bytes) (r : Record) : Prop where
  port : recordPort r.port = defaultPort ∨
    (recordPort r.port).toUInt16.toNat = digitsVal 10 ds ∧ 1 ≤ digitsVal 10 ds ∧
      digitsVal 10 ds ≤ 65535
  sends : SendsTo (recordPort r.port) (recordPort r.port).toUInt16.toNat
  passwd : r.passwd = l.passwd

/-- `*port` is `0` when `macfile_parse` calls `get_tokens`. -/
def LinePort (ds : Bytes) : Prop :=
  ∀ (l : PortLine) (o : Outs), o.port = 0 →
    ∃ mask o', getTokens (l.text ds) o = .ok (mask, o') ∧ mask ≠ 0 ∧
      RecordPort l ds (record mask o')

theorem sendsTo (portnum : UInt32) : SendsTo portnum portnum.toUInt16.toNat := by
  intro g env m sock mac host pass o hmode hm ho d hd
  rw [assembleAndSend_udp hmode] at ho
  cases hp : pass.read with
  | error f => simp [sendUdp, hp] at ho
  | ok pw =>
    obtain ⟨o', ho', -, -, hdata⟩ := sendUdp_datagrams g env sock mac host portnum hm hp
    rw [ho] at ho'
    cases ho'
    obtain ⟨addr, -, hdest⟩ := mem_datagramOf (hdata ▸ hd)
    exact ⟨addr, hdest⟩

/-- The number that `%5u` makes of the digits. -/
def firstFive (ds : Bytes) : Nat := digitsVal 10 (ds.take 5)

section Digits

variable {ds : Bytes}

theorem digit_ne_zero (hd : ∀ c ∈ ds, isDigit c = true) {c : UInt8} (hc : c ∈ ds) : c ≠ 0 := by
  rintro rfl
  cases hd 0 hc

theorem firstFive_lt (hd : ∀ c ∈ ds, isDigit c = true) : firstFive ds < 100000 := by
  have hlt := digitsVal_lt fun c hc => hd c (List.mem_of_mem_take (i := 5) hc)
  have hpow : 10 ^ (ds.take 5).length ≤ 10 ^ 5 :=
    Nat.pow_le_pow_right (by decide) (List.length_take_le ..)
  exact Nat.lt_of_lt_of_le hlt hpow

theorem toNat_firstFive (hd : ∀ c ∈ ds, isDigit c = true) :
    (UInt32.ofNat (firstFive ds)).toNat = firstFive ds := by
  have hlt := firstFive_lt hd
  rw [UInt32.toNat_ofNat', Nat.mod_eq_of_lt (by omega)]

theorem firstFive_of_short (h : ds.length ≤ 5) : firstFive ds = digitsVal 10 ds := by
  rw [firstFive, List.take_of_length_le h]

/-- Every digit that is left out makes the number at least ten times too small. -/
theorem firstFive_lt_of_long (h : 5 < ds.length) (hpos : 1 ≤ firstFive ds) :
    firstFive ds < digitsVal 10 ds := by
  have happ := digitsVal_append 10 (ds.take 5) (ds.drop 5)
  rw [List.take_append_drop] at happ
  have hpow : 10 ^ 1 ≤ 10 ^ (ds.drop 5).length := by
    apply Nat.pow_le_pow_right (by decide)
    rw [List.length_drop]
    omega
  have hmul := Nat.mul_le_mul_left (digitsVal 10 (ds.take 5)) hpow
  rw [firstFive] at hpos ⊢
  omega

/-! ## The option -/

theorem scanUnsigned_digits (hne : ds ≠ []) (hd : ∀ c ∈ ds, isDigit c = true) :
    scanUnsigned ds (some 5) = some (UInt32.ofNat (firstFive ds)) := by
  have hc : cstr ds = ds := cstr_eq_self fun c => digit_ne_zero hd
  have hscan := scan_decimal (w := 5) (by decide) (by decide) hne hd stops_nil
  rw [List.append_nil, List.append_nil] at hscan
  simp only [scanUnsigned, sscanf, hc, scan_cons_ok hscan]
  rfl

theorem parsePort_digits (hne : ds ≠ []) (hd : ∀ c ∈ ds, isDigit c = true) (programName : Bytes)
    (getpass : Option Bytes) (p : Parse) :
    parseOpt programName getpass p (.port ds) =
      if firstFive ds > 65535 ∨ firstFive ds = 0 then
        .error (usage programName "Invalid port given")
      else .ok { p with globals := { p.globals with port := UInt32.ofNat (firstFive ds) } } := by
  have hzero : UInt32.ofNat (firstFive ds) = 0 ↔ firstFive ds = 0 := by
    rw [← UInt32.toNat_inj, toNat_firstFive hd]
    rfl
  have hbig : UInt32.ofNat (firstFive ds) > 65535 ↔ firstFive ds > 65535 := by
    rw [gt_iff_lt, UInt32.lt_iff_toNat_lt, toNat_firstFive hd]
    rfl
  simp only [parseOpt, scanUnsigned_digits hne hd, hzero, hbig]

theorem optionPort_iff (hd : ∀ c ∈ ds, isDigit c = true) :
    OptionPort ds ↔ ds.length ≤ 5 ∨ firstFive ds = 0 ∨ firstFive ds > 65535 := by
  by_cases hne : ds = []
  · subst hne
    simp only [List.length_nil, Nat.zero_le, true_or, iff_true]
    intro programName getpass p p' h
    cases h
  · constructor
    · intro h
      by_contra hcon
      obtain ⟨hlong, hzero, hbig⟩ :
          5 < ds.length ∧ ¬ firstFive ds = 0 ∧ ¬ firstFive ds > 65535 := by
        omega
      have hok := parsePort_digits hne hd [] none ⟨{}, false⟩
      rw [if_neg (by omega)] at hok
      have hport := (h _ _ _ _ hok).1
      have hlt := firstFive_lt_of_long hlong (by omega)
      rw [UInt32.toNat_toUInt16, toNat_firstFive hd] at hport
      omega
    · intro h programName getpass p p' hok
      rw [parsePort_digits hne hd] at hok
      split at hok
      · cases hok
      · cases hok
        have hshort : ds.length ≤ 5 := by omega
        have hlt := firstFive_lt hd
        have hport : (UInt32.ofNat (firstFive ds)).toUInt16.toNat = digitsVal 10 ds := by
          rw [UInt32.toNat_toUInt16, toNat_firstFive hd, ← firstFive_of_short hshort]
          omega
        rw [← firstFive_of_short hshort] at hport ⊢
        refine ⟨hport, by omega, by omega, ?_⟩
        have hsends := sendsTo (UInt32.ofNat (firstFive ds))
        rwa [hport] at hsends

/-! ## The line -/

theorem stops_cstr {p : UInt8 → Bool} {s : Bytes} (h : Stops p s) : Stops p (cstr s) := by
  cases s with
  | nil => exact h
  | cons c s =>
    by_cases hc : c = 0
    · simp [cstr, hc]
    · have hcons : cstr (c :: s) = c :: cstr s := by simp [cstr, hc]
      rw [hcons]
      exact stops_cons.mpr (stops_cons.mp h)

theorem PortLine.cstr_text (l : PortLine) (hd : ∀ c ∈ ds, isDigit c = true) :
    cstr (l.text ds) = l.lead.text ++ (l.mac.text ++ (l.sep.text ++ (l.host.text ++
      (58 :: ds ++ cstr l.rest)))) := by
  have hlead : ∀ c ∈ l.lead.text, c ≠ 0 := by
    rintro c hc rfl
    cases l.lead.chars 0 hc
  rw [PortLine.text, cstr_append hlead, cstr_append fun c => l.mac.ne_zero rfl,
    cstr_append fun c => l.sep.ne_zero rfl, cstr_append fun c => l.host.ne_zero rfl,
    ← List.cons_append, cstr_append]
  intro c hc
  rcases List.mem_cons.mp hc with rfl | hc
  · decide
  · exact digit_ne_zero hd hc

/-- The record of a line: the first five digits are its port, and a password is looked for behind
them. -/
theorem PortLine.getTokens_eq (l : PortLine) (hne : ds ≠ []) (hd : ∀ c ∈ ds, isDigit c = true)
    {o : Outs} (ho : o.port = 0) :
    ∃ mask o', getTokens (l.text ds) o = .ok (mask, o') ∧ mask ≠ 0 ∧
      record mask o' = ⟨l.mac.text, l.host.text, UInt32.ofNat (firstFive ds),
        (scanStr passFmt (ds.drop 5 ++ cstr l.rest)).map Prod.fst⟩ := by
  have hport := scanPort_digits hne hd (stops_cstr l.stops)
  have hf := fields_host l.lead l.mac l.sep l.host
    (show Stops isHostChar (58 :: ds ++ cstr l.rest) from stops_cons.mpr rfl)
  rw [← l.cstr_text hd, hport] at hf
  obtain ⟨o', hok, hrec⟩ := getTokens_some hf (Nat.lt_succ_of_le l.fits) ho
  exact ⟨_, o', hok, Fields.mask_ne_zero _, hrec⟩

theorem recordPort_default {v : UInt32} (h : ¬ (1 ≤ v.toNat ∧ v.toNat ≤ 65535)) :
    recordPort v = defaultPort := by
  have hzero : v = 0 ↔ v.toNat = 0 := by
    rw [← UInt32.toNat_inj]
    rfl
  have hbig : v > 65535 ↔ v.toNat > 65535 := Iff.rfl
  rw [recordPort, if_pos]
  rw [hzero, hbig]
  omega

/-- ` 0:1:2 lab.x:` and then a number and `rest` -/
def shortLine (rest : Bytes) (stops : Stops isDigit rest) : PortLine :=
  { lead := exampleLine.lead, mac := exampleLine.mac, sep := exampleLine.sep,
    host := exampleLine.host, fits := by decide, rest := rest, stops := stops }

def zeroOuts : Outs := { exampleOuts with port := 0 }

/-- Behind a colon without digits, `%5u` goes on to the next word. -/
theorem not_linePort_nil : ¬ LinePort [] := by
  intro h
  let l := shortLine (32 :: ascii "80") (stops_cons.mpr rfl)
  obtain ⟨mask, o', hok, -, hrec⟩ := h l zeroOuts rfl
  have hrun : getTokens (l.text []) zeroOuts =
      .ok (7, { mac := ⟨ascii "0:1:2", by decide⟩, host := ⟨ascii "lab.x", by decide⟩,
                port := 80, passwd := ⟨[], by decide⟩ }) := by decide +kernel
  rw [hrun] at hok
  cases hok
  rcases hrec.port with hport | ⟨hport, -⟩
  · exact absurd hport (by decide)
  · exact absurd hport (by decide)

theorem isDigit_isPassChar {c : UInt8} (h : isDigit c = true) : isPassChar c = true := by
  simp [isPassChar, isXDigit, h]

/-- Of a longer number, the rest is a password. -/
theorem not_linePort_long (hd : ∀ c ∈ ds, isDigit c = true) (hlong : 5 < ds.length) :
    ¬ LinePort ds := by
  intro h
  have hne : ds ≠ [] := by
    rintro rfl
    cases hlong
  let l := shortLine [] stops_nil
  obtain ⟨mask, o', hok, -, hrec⟩ := h l zeroOuts rfl
  obtain ⟨mask', o'', hok', -, hrec'⟩ := l.getTokens_eq hne hd (o := zeroOuts) rfl
  rw [hok] at hok'
  cases hok'
  have hpass : (scanStr passFmt (ds.drop 5)).map Prod.fst = none := by
    have := hrec.passwd
    rw [hrec', show cstr l.rest = [] from rfl, List.append_nil] at this
    exact this
  obtain ⟨d, t, ht⟩ : ∃ d t, ds.drop 5 = d :: t := by
    apply List.exists_cons_of_ne_nil
    rw [Ne, List.drop_eq_nil_iff]
    omega
  have hdigit : isDigit d = true := hd d (List.mem_of_mem_drop (by rw [ht]; simp))
  have hnone := scanStr_none_inv (Option.map_eq_none_iff.mp hpass)
  rw [ht] at hnone
  simp [isDigit_not_space hdigit, window, isDigit_isPassChar hdigit] at hnone

theorem linePort_iff (hd : ∀ c ∈ ds, isDigit c = true) :
    LinePort ds ↔ 1 ≤ ds.length ∧ ds.length ≤ 5 := by
  constructor
  · intro h
    constructor
    · by_contra hcon
      obtain rfl : ds = [] := List.length_eq_zero_iff.mp (by omega)
      exact not_linePort_nil h
    · by_contra hcon
      exact not_linePort_long hd (by omega) h
  · rintro ⟨hpos, hshort⟩ l o ho
    obtain ⟨mask, o', hok, hmask, hrec⟩ := l.getTokens_eq (List.ne_nil_of_length_pos hpos) hd ho
    refine ⟨mask, o', hok, hmask, ?_, sendsTo _, ?_⟩
    · rw [hrec, recordPort_toNat, effectivePort, toNat_firstFive hd, ← firstFive_of_short hshort]
      by_cases hin : 1 ≤ firstFive ds ∧ firstFive ds ≤ 65535
      · exact .inr ⟨if_pos hin, hin⟩
      · exact .inl (recordPort_default (by rwa [toNat_firstFive hd]))
    · rw [hrec, List.drop_of_length_le hshort]
      rfl

end Digits

/-- **The ports that are read as they are written.** For a string of decimal digits, `-p` is
rejected or sets the number it denotes exactly when it has at most five digits, or the first five
are no port; and lines of a macfile with it go to that number or to the default port, with all its
digits used up, exactly when it has one to five digits. -/
theorem portDigits_iff {ds : Bytes} (hd : ∀ c ∈ ds, isDigit c = true) :
    (OptionPort ds ↔ ds.length ≤ 5 ∨ firstFive ds = 0 ∨ firstFive ds > 65535) ∧
    (LinePort ds ↔ 1 ≤ ds.length ∧ ds.length ≤ 5) :=
  ⟨optionPort_iff hd, linePort_iff hd⟩

theorem portDigits_nine :
    OptionPort (ascii "00009") ∧ LinePort (ascii "00009") := by
  have hd : ∀ c ∈ ascii "00009", isDigit c = true := List.all_eq_true.mp rfl
  obtain ⟨hoption, hline⟩ := portDigits_iff hd
  exact ⟨hoption.mpr (.inl (by decide)), hline.mpr (by decide)⟩

/-- `-p 123456` sets the port 12345, and behind a host the `6` is a password. -/
theorem not_portDigits_six :
    ¬ OptionPort (ascii "123456") ∧
    (∃ p, parseOpt [] none ⟨{}, false⟩ (.port (ascii "123456")) = .ok p ∧
      p.globals.port = 12345) ∧
    ∃ o', getTokens (ascii "0 h:123456") zeroOuts = .ok (15, o') ∧
      record 15 o' = ⟨ascii "0", ascii "h", 12345, some (ascii "6")⟩ := by
  have hparse : parseOpt [] none ⟨{}, false⟩ (.port (ascii "123456")) =
      .ok ⟨{ port := 12345 }, false⟩ := by decide +kernel
  have hline : getTokens (ascii "0 h:123456") zeroOuts =
      .ok (15, { mac := ⟨ascii "0", by decide⟩, host := ⟨ascii "h", by decide⟩, port := 12345,
                 passwd := ⟨ascii "6", by decide⟩ }) := by decide +kernel
  refine ⟨fun h => ?_, ⟨_, hparse, rfl⟩, ⟨_, hline, rfl⟩⟩
  exact absurd (h _ _ _ _ hparse).1 (by decide)

end WakeOnLan
