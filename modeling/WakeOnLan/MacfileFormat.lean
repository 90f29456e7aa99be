import WakeOnLan.CLib.Tokens
import WakeOnLan.MacfileCorrect

/-!
# WakeOnLan.MacfileFormat

The format of macfiles, as a printer of lines, and `get_tokens` against it.

* `Line`         — a line of the format: its fields, the white space around them, its tail.
* `Line.render`  — the text of such a line.
* `fields_body`  — the pass of `WakeOnLan.MacfileCorrect` over a printed line.
* `getTokens_render` — parsing undoes printing.
-/

namespace WakeOnLan

open CLib

/-! ## Lines -/

/-- What may stand behind the last field. -/
inductive Trailer where
  | blanks (b : Blanks)
  | comment (sep : Word isSpace none) (text : Bytes)

def Trailer.text : Trailer → Bytes
  | .blanks b => b.text
  | .comment sep text => sep.text ++ 35 :: text

/-- `lead MAC sep HOST[:PORT][ PASSWORD]tail` -/
structure Line where
  lead : Blanks
  mac : Word isMacChar (some 17)
  sep : Word isSpace none
  host : Word isHostChar none
  port : Option (Word isDigit (some 5))
  passwd : Option (Word isSpace none × Word isPassChar (some 17))
  tail : Trailer

def Line.portText (l : Line) : Bytes :=
  match l.port with
  | none => []
  | some ds => 58 :: ds.text

def Line.passwdText (l : Line) : Bytes :=
  match l.passwd with
  | none => []
  | some (sep, p) => sep.text ++ p.text

/-- The line without its tail. -/
def Line.body (l : Line) : Bytes :=
  l.lead.text ++ l.mac.text ++ l.sep.text ++ l.host.text ++ l.portText ++ l.passwdText

def Line.render (l : Line) : Bytes := l.body ++ l.tail.text

def Line.parts (l : Line) : Fields :=
  { mac := l.mac.text, host := l.host.text,
    port := l.port.map fun ds => UInt32.ofNat (digitsVal 10 ds.text),
    passwd := l.passwd.map fun p => p.2.text }

/-! ## Classes -/

theorem isMacChar_not_space {c : UInt8} (h : isMacChar c = true) : isSpace c = false := by
  revert c
  apply forall_byte
  decide +kernel

theorem isHostChar_not_space {c : UInt8} (h : isHostChar c = true) : isSpace c = false := by
  revert c
  apply forall_byte
  decide +kernel

theorem isPassChar_not_space {c : UInt8} (h : isPassChar c = true) : isSpace c = false := by
  revert c
  apply forall_byte
  decide +kernel

/-! ## One token -/

section Token

variable {p : UInt8 → Bool} {width : Option Nat} {b r s : Bytes}

theorem stops_word (hp : ∀ c, p c = true → isSpace c = false) (w : Word p width) (r : Bytes) :
    Stops isSpace (w.text ++ r) := by
  obtain ⟨text, ne, chars, -⟩ := w
  cases text with
  | nil => exact absurd rfl ne
  | cons c t => exact stops_cons.mpr (hp c (chars c (List.mem_cons_self ..)))

/-- A word behind white space is read back as a whole. -/
theorem scanStr_word (hp : ∀ c, p c = true → isSpace c = false) (hb : ∀ c ∈ b, isSpace c = true)
    (w : Word p width) (hr : Stops p r ∨ width = some w.text.length) :
    scanStr (.set width p) (b ++ (w.text ++ r)) = some (w.text, r) := by
  rw [scanStr, dropWhile_munch hb (stops_word hp w r), scan_word w hr]

/-- A scanset behind white space takes the longest run of its class that its width allows. -/
theorem scanStr_set (width : Option Nat) (p : UInt8 → Bool) (s : Bytes) :
    scanStr (.set width p) s =
      let t := s.dropWhile isSpace
      let tok := (window width t).takeWhile p
      if tok = [] then none else some (tok, t.drop tok.length) := by
  by_cases hnil : s.dropWhile isSpace = []
  · cases width with
    | none => simp [scanStr, Directive.scan, scanSet, hnil, window]
    | some n => simp [scanStr, Directive.scan, scanSet, hnil, window]
  · by_cases htok : (window width (s.dropWhile isSpace)).takeWhile p = []
    · simp [scanStr, Directive.scan, scanSet, hnil, htok]
    · simp [scanStr, Directive.scan, scanSet, hnil, htok]

theorem scanStr_inv {width : Option Nat} {p : UInt8 → Bool} {s t r : Bytes}
    (h : scanStr (.set width p) s = some (t, r)) :
    t ≠ [] ∧ (window width (s.dropWhile isSpace)).takeWhile p = t ∧
      (s.dropWhile isSpace).drop t.length = r := by
  rw [scanStr_set] at h
  by_cases htok : (window width (s.dropWhile isSpace)).takeWhile p = []
  · simp [htok] at h
  · simp only [htok, if_false, Option.some.injEq, Prod.mk.injEq] at h
    obtain ⟨rfl, rfl⟩ := h
    exact ⟨htok, rfl, rfl⟩

theorem scanStr_none_inv {width : Option Nat} {p : UInt8 → Bool} {s : Bytes}
    (h : scanStr (.set width p) s = none) :
    (window width (s.dropWhile isSpace)).takeWhile p = [] := by
  rw [scanStr_set] at h
  by_contra htok
  simp [htok] at h

/-- Nothing is read where the class stops at once. -/
theorem scanStr_stops (h : Stops p (s.dropWhile isSpace)) : scanStr (.set width p) s = none := by
  have htok : (window width (s.dropWhile isSpace)).takeWhile p = [] := by
    cases width with
    | none => exact takeWhile_of_stops h
    | some n => exact takeWhile_of_stops (stops_take h n)
  rw [scanStr_set, if_pos htok]

/-- Of the digits behind a colon the first five are the port. -/
theorem scanPort_digits {ds : Bytes} (hne : ds ≠ []) (hd : ∀ c ∈ ds, isDigit c = true)
    (hr : Stops isDigit r) :
    scanPort (58 :: ds ++ r) =
      some (UInt32.ofNat (digitsVal 10 (ds.take 5)), ds.drop 5 ++ r) := by
  simp only [scanPort, List.cons_append, scan_lit, scan_decimal (w := 5) (by decide) (by decide)
    hne hd hr]

theorem scanPort_word (ds : Word isDigit (some 5)) (hr : Stops isDigit r) :
    scanPort (58 :: ds.text ++ r) = some (UInt32.ofNat (digitsVal 10 ds.text), r) := by
  have hlen := ds.fits 5 rfl
  rw [scanPort_digits ds.ne ds.chars hr, List.take_of_length_le hlen, List.drop_of_length_le hlen]
  rfl

theorem scanPort_stops (h : Stops (· == 58) s) : scanPort s = none := by
  cases s with
  | nil => rfl
  | cons c s =>
    have hc : c ≠ 58 := by simpa using stops_cons.mp h
    simp [scanPort, Directive.scan, hc]

end Token

/-! ## Reading a printed line -/

/-- What may follow the last field: white space, and then no password. -/
structure EndsLine (t : Bytes) : Prop where
  atEnd : AtEnd t
  noPass : Stops isPassChar (t.dropWhile isSpace)

theorem Trailer.endsLine (t : Trailer) : EndsLine t.text := by
  cases t with
  | blanks b =>
    refine ⟨?_, ?_⟩
    · have := atEnd_blanks_append b.chars (s := []) stops_nil
      rwa [List.append_nil] at this
    · have := dropWhile_munch b.chars (stops_nil : Stops isSpace [])
      rw [List.append_nil] at this
      rw [Trailer.text, this]
      exact stops_nil
  | comment sep text =>
    refine ⟨atEnd_sep_append sep _, ?_⟩
    rw [Trailer.text, dropWhile_munch sep.chars (stops_cons.mpr rfl)]
    exact stops_cons.mpr rfl

/-- The pass over a line with an address and a host. -/
theorem fields_host (lead : Blanks) (mac : Word isMacChar (some 17)) (sep : Word isSpace none)
    (host : Word isHostChar none) {t : Bytes} (ht : Stops isHostChar t) :
    fields (lead.text ++ (mac.text ++ (sep.text ++ (host.text ++ t)))) =
      match scanPort t with
      | some (port, s) =>
        some ⟨mac.text, host.text, some port, (scanStr passFmt s).map Prod.fst⟩
      | none => some ⟨mac.text, host.text, none, (scanStr passFmt t).map Prod.fst⟩ := by
  have hmac : scanStr macFmt (lead.text ++ (mac.text ++ (sep.text ++ (host.text ++ t)))) =
      some (mac.text, sep.text ++ (host.text ++ t)) :=
    scanStr_word (fun c => isMacChar_not_space) lead.chars mac
      (.inl ((atEnd_sep_append sep _).stops fun c => isMacChar_not_space))
  have hhost : scanStr hostFmt (sep.text ++ (host.text ++ t)) = some (host.text, t) :=
    scanStr_word (fun c => isHostChar_not_space) sep.chars host (.inl ht)
  cases hport : scanPort t with
  | none => simp [fields, hmac, hhost, hport]
  | some v => simp [fields, hmac, hhost, hport]

section Body

variable (l : Line) {t : Bytes}

theorem Line.atEnd_passwdText (ht : AtEnd t) : AtEnd (l.passwdText ++ t) := by
  unfold Line.passwdText
  split
  · exact ht
  · rw [List.append_assoc]
    exact atEnd_sep_append _ _

theorem Line.stops_portText (ht : AtEnd t) :
    Stops isHostChar (l.portText ++ (l.passwdText ++ t)) := by
  unfold Line.portText
  split
  · exact (l.atEnd_passwdText ht).stops fun c => isHostChar_not_space
  · exact stops_cons.mpr rfl

theorem Line.scan_passwd (ht : EndsLine t) :
    (scanStr passFmt (l.passwdText ++ t)).map Prod.fst = l.passwd.map fun p => p.2.text := by
  unfold Line.passwdText
  split
  · rename_i h
    rw [List.nil_append, h, passFmt, scanStr_stops ht.noPass]
    rfl
  · rename_i sep p h
    have hstop := ht.atEnd.stops fun c => isPassChar_not_space
    rw [List.append_assoc, h, passFmt,
      scanStr_word (fun c => isPassChar_not_space) sep.chars p (.inl hstop)]
    rfl

/-- The pass over a printed line finds its fields. -/
theorem fields_body (ht : EndsLine t) : fields (l.body ++ t) = some l.parts := by
  have hbody : l.body ++ t = l.lead.text ++ (l.mac.text ++ (l.sep.text ++ (l.host.text ++
      (l.portText ++ (l.passwdText ++ t))))) := by
    simp only [Line.body, List.append_assoc]
  rw [hbody, fields_host l.lead l.mac l.sep l.host (l.stops_portText ht.atEnd)]
  have hend := l.atEnd_passwdText ht.atEnd
  rw [Line.parts]
  cases hp : l.port with
  | none =>
    have hport : scanPort (l.passwdText ++ t) = none :=
      scanPort_stops (hend.stops fun c hc => by rw [show c = 58 by simpa using hc]; rfl)
    simp only [Line.portText, hp, List.nil_append, hport, l.scan_passwd ht, Option.map_none]
  | some ds =>
    have hport := scanPort_word ds (hend.stops fun c => isDigit_not_space)
    simp only [Line.portText, hp, hport, l.scan_passwd ht, Option.map_some]

end Body

/-! ## The line as a C string -/

theorem Trailer.exists_cstr (t : Trailer) : ∃ t' : Trailer, cstr t.text = t'.text := by
  have hblanks : ∀ {b : Bytes}, (∀ c ∈ b, isSpace c = true) → ∀ c ∈ b, c ≠ 0 := by
    rintro b hb c hc rfl
    cases hb 0 hc
  cases t with
  | blanks b => exact ⟨.blanks b, cstr_eq_self (hblanks b.chars)⟩
  | comment sep text =>
    refine ⟨.comment sep (cstr text), ?_⟩
    rw [Trailer.text, cstr_append (hblanks sep.chars)]
    rfl

theorem Line.ne_zero (l : Line) {c : UInt8} (hc : c ∈ l.body) : c ≠ 0 := by
  simp only [Line.body, List.mem_append] at hc
  rcases hc with ((((hc | hc) | hc) | hc) | hc) | hc
  · rintro rfl
    cases l.lead.chars 0 hc
  · exact l.mac.ne_zero rfl hc
  · exact l.sep.ne_zero rfl hc
  · exact l.host.ne_zero rfl hc
  · unfold Line.portText at hc
    split at hc
    · cases hc
    · rename_i ds _
      rcases List.mem_cons.mp hc with rfl | hc
      · decide
      · exact ds.ne_zero rfl hc
  · unfold Line.passwdText at hc
    split at hc
    · cases hc
    · rename_i sep p _
      rcases List.mem_append.mp hc with hc | hc
      · exact sep.ne_zero rfl hc
      · exact p.ne_zero rfl hc

theorem Line.fields_render (l : Line) : fields (cstr l.render) = some l.parts := by
  obtain ⟨t', ht'⟩ := l.tail.exists_cstr
  rw [Line.render, cstr_append (fun c => l.ne_zero), ht']
  exact fields_body l t'.endsLine

/-! ## Parsing undoes printing -/

/-- `get_tokens` has handed back the mask and the fields of the line `l`; the outputs for fields
that it lacks are as they were. -/
structure Line.Tokens (l : Line) (mask : UInt32) (o o' : Outs) : Prop where
  mask : mask = l.parts.mask
  mac : o'.mac.str = l.mac.text
  host : o'.host.str = l.host.text
  port : ∀ ds, l.port = some ds → o'.port.toNat = digitsVal 10 ds.text
  noPort : l.port = none → o'.port = o.port
  passwd : ∀ sep p, l.passwd = some (sep, p) → o'.passwd.str = p.text
  noPasswd : l.passwd = none → o'.passwd.str = o.passwd.str

theorem toNat_port (ds : Word isDigit (some 5)) :
    (UInt32.ofNat (digitsVal 10 ds.text)).toNat = digitsVal 10 ds.text := by
  have hlt := digitsVal_lt ds.chars
  have hpow : 10 ^ ds.text.length ≤ 10 ^ 5 := Nat.pow_le_pow_right (by decide) (ds.fits 5 rfl)
  rw [UInt32.toNat_ofNat', Nat.mod_eq_of_lt (by omega)]

theorem Line.getTokens_eq (l : Line) {line : Bytes} (h : fields (cstr line) = some l.parts)
    (hfit : l.host.text.length < 255) (o : Outs) :
    ∃ o', getTokens line o = .ok (l.parts.mask, o') ∧ l.Tokens l.parts.mask o o' := by
  obtain ⟨o', hok, hmac, hhost, hport, hpass⟩ := getTokens_fields h hfit o
  refine ⟨o', hok, rfl, hmac, hhost, ?_, ?_, ?_, ?_⟩
  · intro ds hds
    rw [hport, Line.parts, hds]
    exact toNat_port ds
  · intro hds
    rw [hport, Line.parts, hds]
    rfl
  · intro sep p hp
    rw [hpass, Line.parts, hp]
    rfl
  · intro hp
    rw [hpass, Line.parts, hp]
    rfl

/-- **Parsing undoes printing.** On a printed line `get_tokens` returns the mask of its fields and
exactly these fields, whatever the white space and the comment are; on a blank line and on a
comment it returns `0`. -/
theorem getTokens_render :
    (∀ (l : Line) (o : Outs), l.host.text.length ≤ 254 →
      ∃ mask o', getTokens l.render o = .ok (mask, o') ∧ l.Tokens mask o o') ∧
    (∀ (b : Blanks) (o : Outs), ∃ o', getTokens b.text o = .ok (0, o')) ∧
    (∀ (b : Blanks) (text : Bytes) (o : Outs),
      ∃ o', getTokens (b.text ++ 35 :: text) o = .ok (0, o')) := by
  have hnone : ∀ {line : Bytes} (o : Outs), Stops isMacChar ((cstr line).dropWhile isSpace) →
      ∃ o', getTokens line o = .ok (0, o') :=
    fun o h => ⟨o, getTokens_no_mac (scanStr_stops h) o⟩
  have hblanks : ∀ b : Blanks, ∀ c ∈ b.text, c ≠ 0 := by
    rintro b c hc rfl
    cases b.chars 0 hc
  refine ⟨?_, ?_, ?_⟩
  · intro l o hfit
    obtain ⟨o', hok, htok⟩ := l.getTokens_eq l.fields_render (Nat.lt_succ_of_le hfit) o
    exact ⟨_, o', hok, htok⟩
  · intro b o
    apply hnone
    rw [cstr_eq_self (hblanks b), ← List.append_nil b.text, dropWhile_munch b.chars stops_nil]
    exact stops_nil
  · intro b text o
    apply hnone
    rw [cstr_append (hblanks b), show cstr (35 :: text) = 35 :: cstr text from rfl,
      dropWhile_munch b.chars (stops_cons.mpr rfl)]
    exact stops_cons.mpr rfl

/-- ` 0:1:2 lab.x:080\t1-2 # up` -/
def exampleLine : Line :=
  { lead := ⟨ascii " ", List.all_eq_true.mp rfl⟩,
    mac := ⟨ascii "0:1:2", by decide, List.all_eq_true.mp rfl, by decide⟩,
    sep := ⟨ascii " ", by decide, List.all_eq_true.mp rfl, by decide⟩,
    host := ⟨ascii "lab.x", by decide, List.all_eq_true.mp rfl, by decide⟩,
    port := some ⟨ascii "080", by decide, List.all_eq_true.mp rfl, by decide⟩,
    passwd := some (⟨ascii "\t", by decide, List.all_eq_true.mp rfl, by decide⟩,
      ⟨ascii "1-2", by decide, List.all_eq_true.mp rfl, by decide⟩),
    tail := .comment ⟨ascii " ", by decide, List.all_eq_true.mp rfl, by decide⟩
      (ascii " up\n") }

def exampleOuts : Outs :=
  { mac := ⟨[], by decide⟩, host := ⟨[], by decide⟩, port := 7, passwd := ⟨[], by decide⟩ }

theorem getTokens_render_example :
    ∃ o', getTokens (ascii " 0:1:2 lab.x:080\t1-2 # up\n") exampleOuts = .ok (15, o') ∧
      o'.mac.str = ascii "0:1:2" ∧ o'.host.str = ascii "lab.x" ∧ o'.port.toNat = 80 ∧
      o'.passwd.str = ascii "1-2" := by
  obtain ⟨mask, o', hok, htok⟩ := getTokens_render.1 exampleLine exampleOuts (by decide)
  have hmask : mask = 15 := htok.mask
  subst hmask
  exact ⟨o', hok, htok.mac, htok.host, htok.port _ rfl, htok.passwd _ _ rfl⟩

end WakeOnLan
