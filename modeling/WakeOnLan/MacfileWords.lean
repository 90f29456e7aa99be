import WakeOnLan.MacfileFormat

/-!
# WakeOnLan.MacfileWords

Which of the lines that `get_tokens` accepts are in the format.

* `Conforms`   — the line is one of the format, and its fields are what `get_tokens` hands back.
* `cutWord`    — the next word of a text, set off by white space.
* `WholeWords` — every token of the line ends where its word ends.
* `conforms_iff` — these are the accepted lines that conform.
-/

namespace WakeOnLan

open CLib

def Conforms (line : Bytes) (mask : UInt32) (o o' : Outs) : Prop :=
  ∃ l : Line, cstr line = l.render ∧ l.Tokens mask o o'

/-! ## Words -/

/-- The next word of a text, and what follows it. -/
def cutWord (s : Bytes) : Bytes × Bytes :=
  let t := s.dropWhile isSpace
  (t.takeWhile (!isSpace ·), t.dropWhile (!isSpace ·))

def isMacWord (w : Bytes) : Bool := w.all isMacChar && w.length ≤ 17

/-- Host characters, and perhaps a colon and one to five digits. -/
def isHostWord (w : Bytes) : Bool :=
  match w.dropWhile isHostChar with
  | [] => true
  | c :: ds => c == 58 && ds.all isDigit && 0 < ds.length && ds.length ≤ 5

def isPassWord (w : Bytes) : Bool := w.all isPassChar && w.length ≤ 17

/-- No word at all, or the first word of a comment. -/
def isLastWord (w : Bytes) : Bool := w.head?.all (· == 35)

/-- The first word is a MAC field; the second is a host, perhaps with a port; the third, if there
is one, begins a comment, or it is a password and the next one, if there is one, does. -/
def WholeWords (s : Bytes) : Prop :=
  let w₁ := cutWord s
  let w₂ := cutWord w₁.2
  let w₃ := cutWord w₂.2
  isMacWord w₁.1 ∧ isHostWord w₂.1 ∧
    (isLastWord w₃.1 ∨ isPassWord w₃.1 ∧ isLastWord (cutWord w₃.2).1)

instance (s : Bytes) : Decidable (WholeWords s) := inferInstanceAs (Decidable (_ ∧ _))

theorem cutWord_append {b w r : Bytes} (hb : ∀ c ∈ b, isSpace c = true) (hne : w ≠ [])
    (hw : ∀ c ∈ w, isSpace c = false) (hr : AtEnd r) : cutWord (b ++ (w ++ r)) = (w, r) := by
  have hstop : Stops isSpace (w ++ r) := by
    cases w with
    | nil => exact absurd rfl hne
    | cons c w => exact stops_cons.mpr (hw c (List.mem_cons_self ..))
  have hw' : ∀ c ∈ w, (!isSpace c) = true := by simpa using hw
  simp only [cutWord, dropWhile_munch hb hstop, takeWhile_munch hw' hr, dropWhile_munch hw' hr]

/-- White space, the word, and what follows it. -/
theorem cutWord_spec (s : Bytes) :
    ∃ b, (∀ c ∈ b, isSpace c = true) ∧ s = b ++ ((cutWord s).1 ++ (cutWord s).2) ∧
      AtEnd (cutWord s).2 ∧ (AtEnd s → (cutWord s).1 ≠ [] → b ≠ []) ∧
      ((cutWord s).1 = [] → (cutWord s).2 = []) := by
  refine ⟨s.takeWhile isSpace, ?_, ?_, stops_dropWhile _, ?_, ?_⟩
  · exact fun c hc => List.all_eq_true.mp List.all_takeWhile c hc
  · rw [cutWord, List.takeWhile_append_dropWhile, List.takeWhile_append_dropWhile]
  · intro hend hne hb
    cases s with
    | nil => exact hne rfl
    | cons c s =>
      have hc : isSpace c = true := by simpa [AtEnd] using hend
      simp [hc] at hb
  · intro h
    have hstop : Stops isSpace (s.dropWhile isSpace) := stops_dropWhile s
    simp only [cutWord] at h ⊢
    cases ht : s.dropWhile isSpace with
    | nil => rfl
    | cons c t =>
      rw [ht] at h hstop
      simp [stops_cons.mp hstop] at h

/-! ## Printed lines consist of whole words -/

theorem Trailer.isLastWord (t : Trailer) : isLastWord (cutWord t.text).1 = true := by
  cases t with
  | blanks b =>
    have h := dropWhile_munch b.chars (stops_nil : Stops isSpace [])
    rw [List.append_nil] at h
    simp [Trailer.text, cutWord, h, WakeOnLan.isLastWord]
  | comment sep text =>
    have h := dropWhile_munch sep.chars (stops_cons.mpr rfl : Stops isSpace (35 :: text))
    simp [Trailer.text, cutWord, h, WakeOnLan.isLastWord, show isSpace 35 = false from rfl]

section Render

variable (l : Line)

theorem Line.isHostWord : isHostWord (l.host.text ++ l.portText) = true := by
  have hstop : Stops isHostChar l.portText := by
    have := l.stops_portText (t := []) stops_nil
    unfold Line.portText at this ⊢
    split
    · exact stops_nil
    · exact stops_cons.mpr rfl
  rw [WakeOnLan.isHostWord, dropWhile_munch l.host.chars hstop]
  cases hport : l.port with
  | none => simp [Line.portText, hport]
  | some ds =>
    have hlen := ds.fits 5 rfl
    have hpos : 0 < ds.text.length := List.length_pos_of_ne_nil ds.ne
    have hall : ds.text.all isDigit = true := List.all_eq_true.mpr ds.chars
    simp only [Line.portText, hport, hall, beq_self_eq_true, hpos, hlen, decide_true, Bool.and_self]

theorem Line.hostWord_not_space {c : UInt8} (hc : c ∈ l.host.text ++ l.portText) :
    isSpace c = false := by
  rcases List.mem_append.mp hc with hc | hc
  · exact isHostChar_not_space (l.host.chars c hc)
  · unfold Line.portText at hc
    split at hc
    · cases hc
    · rename_i ds _
      rcases List.mem_cons.mp hc with rfl | hc
      · rfl
      · exact isDigit_not_space (ds.chars c hc)

theorem Line.wholeWords : WholeWords l.render := by
  have hend := l.tail.endsLine.atEnd
  have h₁ : cutWord l.render = (l.mac.text, l.sep.text ++
      ((l.host.text ++ l.portText) ++ (l.passwdText ++ l.tail.text))) := by
    simp only [Line.render, Line.body, List.append_assoc]
    exact cutWord_append l.lead.chars l.mac.ne (fun c hc => isMacChar_not_space (l.mac.chars c hc))
      (atEnd_sep_append _ _)
  have h₂ : cutWord (l.sep.text ++ ((l.host.text ++ l.portText) ++ (l.passwdText ++ l.tail.text))) =
      (l.host.text ++ l.portText, l.passwdText ++ l.tail.text) :=
    cutWord_append l.sep.chars (by simp [l.host.ne]) (fun c => l.hostWord_not_space)
      (l.atEnd_passwdText hend)
  have hmac : isMacWord l.mac.text = true := by
    have hlen := l.mac.fits 17 rfl
    have hall : l.mac.text.all isMacChar = true := List.all_eq_true.mpr l.mac.chars
    simp [isMacWord, hall, hlen]
  simp only [WholeWords, h₁, h₂]
  refine ⟨hmac, l.isHostWord, ?_⟩
  unfold Line.passwdText
  split
  · exact .inl l.tail.isLastWord
  · rename_i sep p _
    have hlen := p.fits 17 rfl
    have hall : p.text.all isPassChar = true := List.all_eq_true.mpr p.chars
    have h₃ : cutWord (sep.text ++ p.text ++ l.tail.text) = (p.text, l.tail.text) := by
      rw [List.append_assoc]
      exact cutWord_append sep.chars p.ne (fun c hc => isPassChar_not_space (p.chars c hc)) hend
    rw [h₃]
    exact .inr ⟨by simp [isPassWord, hall, hlen], l.tail.isLastWord⟩

end Render

/-! ## Accepted lines of whole words are printed lines -/

theorem exists_tail {s : Bytes} (hend : AtEnd s) (h : isLastWord (cutWord s).1 = true) :
    ∃ t : Trailer, s = t.text := by
  obtain ⟨b, hb, hs, -, hsep, hnil⟩ := cutWord_spec s
  cases hw : (cutWord s).1 with
  | nil =>
    refine ⟨.blanks ⟨b, hb⟩, ?_⟩
    rwa [hw, hnil hw, List.nil_append, List.append_nil] at hs
  | cons c w =>
    rw [hw] at h hs
    have hc : c = 35 := by simpa [isLastWord] using h
    have hne : b ≠ [] := hsep hend (by simp [hw])
    refine ⟨.comment ⟨b, hne, hb, by simp⟩ (w ++ (cutWord s).2), ?_⟩
    rw [Trailer.text, ← hc]
    exact hs

/-- A line with tokens has a MAC and a host. -/
theorem scanStr_of_fields {s : Bytes} {f : Fields} (h : fields s = some f) :
    ∃ mac r host r', scanStr macFmt s = some (mac, r) ∧ scanStr hostFmt r = some (host, r') := by
  unfold fields at h
  split at h
  · cases h
  · rename_i mac r hm
    split at h
    · cases h
    · rename_i host r' hh
      exact ⟨mac, r, host, r', hm, hh⟩

/-- Where a token is read there is a word. -/
theorem cutWord_ne_nil {p : UInt8 → Bool} {width : Option Nat} {s : Bytes} {x : Bytes × Bytes}
    (h : scanStr (.set width p) s = some x) : (cutWord s).1 ≠ [] := by
  intro hw
  obtain ⟨b, hb, hs, -, -, hnil⟩ := cutWord_spec s
  rw [hw, hnil hw] at hs
  have hdrop := dropWhile_munch hb (stops_nil : Stops isSpace [])
  simp only [List.append_nil] at hs hdrop
  rw [hs, scanStr_stops (by rw [hdrop]; exact stops_nil)] at h
  cases h

/-- And it begins with a character of the token. -/
theorem takeWhile_cutWord_ne_nil {p : UInt8 → Bool} {width : Option Nat} {s : Bytes}
    {x : Bytes × Bytes} (h : scanStr (.set width p) s = some x) :
    (cutWord s).1.takeWhile p ≠ [] := by
  intro htake
  obtain ⟨c, w, hw⟩ := List.exists_cons_of_ne_nil (cutWord_ne_nil h)
  have hc : p c = false := by
    by_contra hc
    rw [hw, List.takeWhile_cons_of_pos (by simpa using hc)] at htake
    cases htake
  have hhead : (s.dropWhile isSpace).head? = some c := by
    have := congrArg List.head? (List.takeWhile_append_dropWhile (p := (!isSpace ·))
      (l := s.dropWhile isSpace))
    rw [show (s.dropWhile isSpace).takeWhile (!isSpace ·) = c :: w from hw] at this
    exact this.symm
  rw [scanStr_stops] at h
  · cases h
  · intro d hd
    rw [hhead] at hd
    cases hd
    exact hc

theorem isMacWord_iff {w : Bytes} :
    isMacWord w = true ↔ (∀ c ∈ w, isMacChar c = true) ∧ w.length ≤ 17 := by
  simp [isMacWord]

theorem isPassWord_iff {w : Bytes} :
    isPassWord w = true ↔ (∀ c ∈ w, isPassChar c = true) ∧ w.length ≤ 17 := by
  simp [isPassWord]

/-- The port of a host word, and the text of both. -/
theorem exists_port {w : Bytes} (h : isHostWord w = true) :
    ∃ port : Option (Word isDigit (some 5)), w = w.takeWhile isHostChar ++
      (match port with
        | none => []
        | some ds => 58 :: ds.text) := by
  have hw := List.takeWhile_append_dropWhile (p := isHostChar) (l := w)
  simp only [isHostWord] at h
  split at h
  · rename_i hnil
    refine ⟨none, ?_⟩
    rw [hnil] at hw
    exact hw.symm
  · rename_i c ds hcons
    simp only [Bool.and_eq_true, beq_iff_eq, List.all_eq_true, decide_eq_true_eq] at h
    obtain ⟨⟨⟨rfl, hall⟩, hpos⟩, hlen⟩ := h
    refine ⟨some ⟨ds, List.ne_nil_of_length_pos hpos, hall, ?_⟩, ?_⟩
    · rintro n hn
      cases hn
      exact hlen
    · rw [hcons] at hw
      exact hw.symm

theorem WholeWords.exists_line {s : Bytes} {f : Fields} (h : WholeWords s)
    (hf : fields s = some f) : ∃ l : Line, s = l.render := by
  obtain ⟨hmac, hhost, hrest⟩ := h
  obtain ⟨mac, r, host, r', hm, hh⟩ := scanStr_of_fields hf
  obtain ⟨b₁, hb₁, hs, hend₁, -, -⟩ := cutWord_spec s
  obtain ⟨b₂, hb₂, hs₁, hend₂, hsep₂, -⟩ := cutWord_spec (cutWord s).2
  obtain ⟨hmac, hmac17⟩ := isMacWord_iff.mp hmac
  let m : Word isMacChar (some 17) :=
    ⟨(cutWord s).1, cutWord_ne_nil hm, hmac, by simpa using hmac17⟩
  have hr : r = (cutWord s).2 := by
    have hscan := scanStr_word (fun c => isMacChar_not_space) hb₁ m
      (.inl (hend₁.stops fun c => isMacChar_not_space))
    rw [show b₁ ++ (m.text ++ (cutWord s).2) = s from hs.symm] at hscan
    have := hm.symm.trans hscan
    exact congrArg Prod.snd (Option.some.inj this)
  subst hr
  let h : Word isHostChar none := ⟨(cutWord (cutWord s).2).1.takeWhile isHostChar,
    takeWhile_cutWord_ne_nil hh, fun c hc => List.all_eq_true.mp List.all_takeWhile c hc, by simp⟩
  let sep : Word isSpace none := ⟨b₂, hsep₂ hend₁ (cutWord_ne_nil hh), hb₂, by simp⟩
  obtain ⟨port, hport⟩ := exists_port hhost
  obtain ⟨passwd, tail, hrest⟩ : ∃ passwd tail, (cutWord (cutWord s).2).2 =
      Line.passwdText ⟨⟨b₁, hb₁⟩, m, sep, h, port, passwd, tail⟩ ++ tail.text := by
    rcases hrest with hlast | ⟨hpass, hlast⟩
    · obtain ⟨tail, htail⟩ := exists_tail hend₂ hlast
      exact ⟨none, tail, htail⟩
    · obtain ⟨b₃, hb₃, hs₂, hend₃, hsep₃, -⟩ := cutWord_spec (cutWord (cutWord s).2).2
      by_cases hne : (cutWord (cutWord (cutWord s).2).2).1 = []
      · obtain ⟨tail, htail⟩ := exists_tail hend₂ (by rw [hne]; rfl)
        exact ⟨none, tail, htail⟩
      · obtain ⟨tail, htail⟩ := exists_tail hend₃ hlast
        obtain ⟨hpass, hpass17⟩ := isPassWord_iff.mp hpass
        refine ⟨some (⟨b₃, hsep₃ hend₂ hne, hb₃, by simp⟩, ⟨_, hne, hpass, by simpa using hpass17⟩),
          tail, ?_⟩
        rw [← htail]
        exact hs₂.trans (List.append_assoc ..).symm
  refine ⟨⟨⟨b₁, hb₁⟩, m, sep, h, port, passwd, tail⟩, ?_⟩
  have hline : s = b₁ ++ ((cutWord s).1 ++ (b₂ ++ ((cutWord (cutWord s).2).1 ++
      (cutWord (cutWord s).2).2))) := by
    rw [← hs₁]
    exact hs
  rw [hport, hrest] at hline
  simp only [Line.render, Line.body, Line.portText, Line.passwdText, List.append_assoc] at hline ⊢
  exact hline

theorem Conforms.wholeWords {line : Bytes} {mask : UInt32} {o o' : Outs}
    (h : Conforms line mask o o') : WholeWords (cstr line) := by
  obtain ⟨l, hl, -⟩ := h
  rw [hl]
  exact l.wholeWords

/-- **The lines that are taken as a whole.** Of the lines that `get_tokens` accepts, those conform
to the format, with their fields handed back, that consist of whole words. -/
theorem conforms_iff {line : Bytes} {mask : UInt32} {o o' : Outs}
    (h : getTokens line o = .ok (mask, o')) (hmask : mask ≠ 0) :
    Conforms line mask o o' ↔ WholeWords (cstr line) := by
  constructor
  · exact Conforms.wholeWords
  · intro hwords
    obtain ⟨f, hf⟩ : ∃ f, fields (cstr line) = some f := by
      cases hf : fields (cstr line) with
      | none =>
        obtain ⟨o₁, hok, -⟩ := getTokens_none hf o
        rw [h] at hok
        cases hok
        exact absurd rfl hmask
      | some f => exact ⟨f, rfl⟩
    obtain ⟨l, hl⟩ := hwords.exists_line hf
    have hparts : fields (cstr line) = some l.parts := by
      rw [hl]
      exact fields_body l l.tail.endsLine
    have hfit : l.host.text.length < 255 := by
      by_contra hlong
      rw [getTokens_overflow hparts hlong o] at h
      cases h
    obtain ⟨o₁, hok, htok⟩ := l.getTokens_eq hparts hfit o
    rw [h] at hok
    cases hok
    exact ⟨l, hl, htok⟩

theorem conforms_lab :
    ∃ o', getTokens (ascii "0:1 lab\n") exampleOuts = .ok (3, o') ∧
      Conforms (ascii "0:1 lab\n") 3 exampleOuts o' := by
  have h : getTokens (ascii "0:1 lab\n") exampleOuts =
      .ok (3, { exampleOuts with mac := ⟨ascii "0:1", by decide⟩,
                                 host := ⟨ascii "lab", by decide⟩ }) := by decide +kernel
  exact ⟨_, h, (conforms_iff h (by decide)).mpr (by decide +kernel)⟩

/-- Of the word `beta` behind the host, `be` is taken for a password. -/
theorem not_conforms_beta :
    ∃ o', getTokens (ascii "0:1 lab beta\n") exampleOuts = .ok (11, o') ∧
      o'.passwd.str = ascii "be" ∧ ¬ Conforms (ascii "0:1 lab beta\n") 11 exampleOuts o' := by
  have h : getTokens (ascii "0:1 lab beta\n") exampleOuts =
      .ok (11, { exampleOuts with mac := ⟨ascii "0:1", by decide⟩,
                                  host := ⟨ascii "lab", by decide⟩,
                                  passwd := ⟨ascii "be", by decide⟩ }) := by decide +kernel
  exact ⟨_, h, rfl, fun hc => absurd hc.wholeWords (by decide +kernel)⟩

end WakeOnLan
