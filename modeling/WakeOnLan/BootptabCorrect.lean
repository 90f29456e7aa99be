import WakeOnLan.Bootptab

/-!
# WakeOnLan.BootptabCorrect

`wol-bootptab` on files of entries.

* `bootpField_cell`, `bootpRecord_piece` — what a cell and a piece add to the two lists.
* `bootptab_eq`  — the script pairs what it finds at the places of the file, by position.
* `Place.Quiet`  — no other tag at a scanned place matches one of the patterns.
* `bootptab_iff` — when the output is the lines of the entries; on a quiet file every `ha` and every
  `ip` tag has to stand at a place where the script reads it.
-/

namespace WakeOnLan

open CLib Awk

/-! ## What is collected -/

/-- The hardware addresses that the script takes from a field. -/
def Cell.macs (c : Cell) : List Bytes := if c.isHa then words (haAction c.text).2 else []

/-- What the first action leaves of a field. -/
def Cell.left (c : Cell) : Bytes := if c.isHa then (haAction c.text).1 else c.text

/-- The hosts that the script takes from a field. -/
def Cell.hosts (c : Cell) : List Bytes :=
  if matchesIn ipRule c.left then words (ipAction c.left) else []

def Place.macs (p : Place) : List Bytes := if p.scanned then p.cell.macs else []

def Place.hosts (p : Place) : List Bytes := if p.scanned then p.cell.hosts else []

/-- The script finds the hardware addresses of the entries and no others; and their hosts, behind
the last of which there can be more. -/
structure Gives (f : Bootptab) : Prop where
  macs : f.places.flatMap Place.macs = f.entries.map fun e => macText e.hex
  hosts : f.entries.map Entry.addr <+: f.places.flatMap Place.hosts

/-! Where no other tag matches: -/

/-- If the script looks at it and it is not a `ha` or `ip` tag, neither pattern matches. -/
def Place.Quiet (p : Place) : Prop :=
  p.scanned = true → p.cell.tag.wanted = false →
    p.cell.isHa = false ∧ matchesIn ipRule p.cell.text = false

instance (p : Place) : Decidable p.Quiet := inferInstanceAs (Decidable (_ → _ → _))

/-- The hardware address that the script takes from a `ha` tag; behind a newline, the character that
`substr` leaves out is not the first colon. -/
def Cell.mac? (c : Cell) : Option Bytes :=
  match c.tag with
  | .ha hex .. => some (if c.gap = [] then macText hex else 58 :: macText hex)
  | _ => none

/-- The host that the script takes from an `ip` tag; the pattern has no hyphen. -/
def Cell.host? (c : Cell) : Option Bytes :=
  match c.tag with
  | .ip addr .. => if addr.head? = some 45 then none else some addr
  | _ => none

def Place.mac? (p : Place) : Option Bytes := if p.last then none else p.cell.mac?

def Place.host? (p : Place) : Option Bytes :=
  if p.last || !p.tagged then none else p.cell.host?

/-- The place of a tag is one where the script reads it. -/
def Place.Read (p : Place) : Prop :=
  match p.cell.tag with
  | .ha .. => p.last = false ∧ p.cell.gap = []
  | .ip addr .. => p.last = false ∧ p.tagged = true ∧ addr.head? ≠ some 45
  | .other .. => True

/-! ## One field -/

section Octets

variable {hex : Bytes}

theorem gsub_octets (hd : ∀ c ∈ hex, isXDigit c = true) (hlen : hex.length % 2 = 0) :
    gsub [.one isXDigit, .one isXDigit] (fun m => 58 :: m) hex =
      (octets hex).flatMap (58 :: ·) := by
  induction hex using octets.induct with
  | case1 => exact gsub_nil
  | case2 a => simp at hlen
  | case3 a b r ih =>
    have hr := ih (fun c hc => hd c (by simp [hc])) (by simp only [List.length_cons] at hlen; omega)
    rw [gsub_pair (hd a (by simp)) (hd b (by simp)), hr]
    rfl

theorem octets_ne_nil (hlen : hex.length = 12) : octets hex ≠ [] := by
  obtain ⟨a, r, rfl⟩ := List.exists_cons_of_length_eq_add_one hlen
  obtain ⟨b, r, rfl⟩ := List.exists_cons_of_length_eq_add_one (Nat.succ.inj hlen)
  simp [octets]

theorem flatMap_octets (hlen : hex.length = 12) :
    (octets hex).flatMap (58 :: ·) = 58 :: macText hex := by
  have hne := octets_ne_nil hlen
  rw [macText]
  cases h : octets hex with
  | nil => exact absurd h hne
  | cons o os => rw [intercalate_eq, List.flatMap_cons, List.cons_append]

theorem mem_octets {o : Bytes} (h : o ∈ octets hex) : ∀ c ∈ o, c ∈ hex := by
  induction hex using octets.induct with
  | case1 => cases h
  | case2 a => cases h
  | case3 a b r ih =>
    rcases List.mem_cons.mp h with rfl | h
    · simp
    · intro c hc
      simp [ih h c hc]

/-- The text of an address is digits and colons. -/
theorem mem_macText (hlen : hex.length = 12) (hd : ∀ c ∈ hex, isXDigit c = true) :
    ∀ c ∈ 58 :: macText hex, c = 58 ∨ isXDigit c = true := by
  intro c hc
  rw [← flatMap_octets hlen] at hc
  obtain ⟨o, ho, hc⟩ := List.mem_flatMap.mp hc
  rcases List.mem_cons.mp hc with rfl | hc
  · exact .inl rfl
  · exact .inr (hd c (mem_octets ho c hc))

theorem isWord_macText (hlen : hex.length = 12) (hd : ∀ c ∈ hex, isXDigit c = true) :
    IsWord (macText hex) ∧ IsWord (58 :: macText hex) := by
  have hblank : ∀ c ∈ 58 :: macText hex, isBlank c = false := by
    intro c hc
    rcases mem_macText hlen hd c hc with rfl | hx
    · rfl
    · exact (isXDigit_ne hx).2.2.2.2
  have hne : macText hex ≠ [] := by
    obtain ⟨a, r, rfl⟩ := List.exists_cons_of_length_eq_add_one hlen
    obtain ⟨b, r, rfl⟩ := List.exists_cons_of_length_eq_add_one (Nat.succ.inj hlen)
    simp [macText, octets, intercalate_eq]
  exact ⟨⟨hne, fun c hc => hblank c (List.mem_cons_of_mem _ hc)⟩, by simp, hblank⟩

end Octets

/-! ## One cell -/

theorem gap_ne {g : Bytes} (hg : ∀ c ∈ g, isBlank c = true) :
    (∀ c ∈ g, c ≠ 104) ∧ ∀ c ∈ g, c ≠ 105 :=
  ⟨fun c hc => (isBlank_ne (hg c hc)).2.2.1, fun c hc => (isBlank_ne (hg c hc)).2.2.2.1⟩

theorem matchesIn_ha_skip {tok s : Bytes} (h : ∀ c ∈ tok, c ≠ 104) :
    matchesIn haRule (tok ++ s) = matchesIn haRule s := matchesIn_skip h

theorem matchesIn_ip_skip {tok s : Bytes} (h : ∀ c ∈ tok, c ≠ 105) :
    matchesIn ipRule (tok ++ s) = matchesIn ipRule s := matchesIn_skip h

section Fields

variable {g hex addr : Bytes}

theorem matchesIn_ha (hg : ∀ c ∈ g, isBlank c = true) (hlen : hex.length = 12)
    (hd : ∀ c ∈ hex, isXDigit c = true) :
    matchesIn haRule (g ++ (ascii "ha=0x" ++ hex)) = true := by
  have hne : hex ≠ [] := by
    intro h
    simp [h] at hlen
  have hend : [] ∈ rests haRule (ascii "ha=0x" ++ (hex ++ [])) :=
    mem_rests_lit _ (mem_rests_plus hne hd (List.mem_singleton.mpr rfl))
  rw [List.append_nil] at hend
  rw [matchesIn_ha_skip (gap_ne hg).1]
  exact matchesIn_of_mem hend

/-- The field after both substitutions, and without its first character. -/
theorem haAction_ha (hg : ∀ c ∈ g, isBlank c = true) (hlen : hex.length = 12)
    (hd : ∀ c ∈ hex, isXDigit c = true) :
    haAction (g ++ (ascii "ha=0x" ++ hex)) =
      (g ++ 58 :: macText hex, (g ++ 58 :: macText hex).drop 1) := by
  have hno : (104 : UInt8) ∉ hex := fun h => (isXDigit_ne (hd _ h)).2.2.1 rfl
  have hskip : gsub (lit (ascii "ha=0x")) (fun _ => []) (g ++ (ascii "ha=0x" ++ hex)) =
      g ++ gsub (lit (ascii "ha=0x")) (fun _ => []) (ascii "ha=0x" ++ hex) :=
    gsub_skip fun c hc => beq_eq_false_iff_ne.mpr ((gap_ne hg).1 c hc)
  have hlit : gsub (lit (ascii "ha=0x")) (fun _ => []) (ascii "ha=0x" ++ hex) =
      gsub (lit (ascii "ha=0x")) (fun _ => []) hex := gsub_lit (ascii "a=0x") hex
  have hpairs : gsub [.one isXDigit, .one isXDigit] (fun m => 58 :: m) (g ++ hex) =
      g ++ 58 :: macText hex := by
    rw [gsub_skip fun c hc => (isBlank_ne (hg c hc)).2.2.2.2, gsub_octets hd (by omega),
      flatMap_octets hlen]
  have hall : gsub (lit (ascii "ha=0x")) (fun _ => []) hex = hex := gsub_lit_all (by decide) hno
  simp only [haAction, hskip, hlit, hall, hpairs]

theorem words_haAction (hg : ∀ c ∈ g, isBlank c = true) (hlen : hex.length = 12)
    (hd : ∀ c ∈ hex, isXDigit c = true) :
    words ((g ++ 58 :: macText hex).drop 1) =
      [if g = [] then macText hex else 58 :: macText hex] := by
  obtain ⟨hm, hm'⟩ := isWord_macText hlen hd
  cases g with
  | nil => exact words_isWord hm
  | cons c g =>
    rw [List.cons_append, List.drop_one, List.tail_cons,
      words_blanks fun d hd => hg d (List.mem_cons_of_mem _ hd), words_isWord hm']
    rfl

theorem not_matchesIn_ip_ha (hg : ∀ c ∈ g, isBlank c = true) (hlen : hex.length = 12)
    (hd : ∀ c ∈ hex, isXDigit c = true) :
    matchesIn ipRule (g ++ 58 :: macText hex) = false := by
  rw [matchesIn_ip_skip (gap_ne hg).2]
  refine not_matchesIn_of_not_mem (b := 105) (by decide) ?_
  intro h
  rcases mem_macText hlen hd _ h with h | h
  · cases h
  · exact (isXDigit_ne h).2.2.2.1 rfl

theorem not_mem_host (hh : ∀ c ∈ addr, isHostText c = true) : 61 ∉ addr :=
  fun h => (isHostText_ne (hh _ h)).2.2 rfl

theorem not_matchesIn_ha_ip (hg : ∀ c ∈ g, isBlank c = true)
    (hh : ∀ c ∈ addr, isHostText c = true) :
    matchesIn haRule (g ++ (ascii "ip=" ++ addr)) = false := by
  rw [matchesIn_ha_skip (gap_ne hg).1, matchesIn_ha_skip (by decide +kernel)]
  exact not_matchesIn_of_not_mem (b := 61) (by decide) (not_mem_host hh)

theorem ipAction_ip (hg : ∀ c ∈ g, isBlank c = true) (hh : ∀ c ∈ addr, isHostText c = true) :
    ipAction (g ++ (ascii "ip=" ++ addr)) = g ++ addr := by
  have hskip : ipAction (g ++ (ascii "ip=" ++ addr)) = g ++ ipAction (ascii "ip=" ++ addr) :=
    gsub_skip fun c hc => beq_eq_false_iff_ne.mpr ((gap_ne hg).2 c hc)
  have hlit : ipAction (ascii "ip=" ++ addr) = ipAction addr := gsub_lit (ascii "p=") addr
  rw [hskip, hlit, ipAction, gsub_lit_all (b := 61) (by decide) (not_mem_host hh)]

theorem isIpText_of_isHostText {c : UInt8} (h : isHostText c = true) (hne : c ≠ 45) :
    isIpText c = true := by
  revert c
  apply forall_byte
  decide +kernel

/-- The pattern for a host has letters, digits, dots and underscores, but no hyphen. -/
theorem matchesIn_ip (hg : ∀ c ∈ g, isBlank c = true) (hne : addr ≠ [])
    (hh : ∀ c ∈ addr, isHostText c = true) :
    matchesIn ipRule (g ++ (ascii "ip=" ++ addr)) = !decide (addr.head? = some 45) := by
  rw [matchesIn_ip_skip (gap_ne hg).2]
  cases addr with
  | nil => exact absurd rfl hne
  | cons a addr =>
    by_cases ha : a = 45
    · subst ha
      have hrest : matchesIn ipRule (ascii "p=" ++ 45 :: addr) = false := by
        rw [matchesIn_ip_skip (by decide +kernel)]
        exact not_matchesIn_of_not_mem (b := 61) (by decide) (not_mem_host hh)
      have hhead : matchesAt ipRule (105 :: (ascii "p=" ++ 45 :: addr)) = false := rfl
      show matchesIn ipRule (105 :: (ascii "p=" ++ 45 :: addr)) = _
      rw [matchesIn, hhead, hrest]
      simp
    · have hone : ∀ c ∈ [a], isIpText c = true := by
        simpa using isIpText_of_isHostText (hh a (List.mem_cons_self ..)) ha
      have hend : addr ∈ rests ipRule (ascii "ip=" ++ ([a] ++ addr)) :=
        mem_rests_lit _ (mem_rests_plus (by simp) hone (List.mem_singleton.mpr rfl))
      have hmatch : matchesIn ipRule (ascii "ip=" ++ a :: addr) = true := matchesIn_of_mem hend
      rw [hmatch]
      simp [ha]

end Fields

theorem isHa_ha {c : Cell} {hex : Bytes} (h : c.tag.ha? = some hex) : c.isHa = true := by
  obtain ⟨g, tag, hg⟩ := c
  cases tag with
  | ha hex hlen hd => exact matchesIn_ha hg hlen hd
  | ip => cases h
  | other => cases h

/-- A cell with a tag that the script is after adds its address to one of the lists. -/
theorem Cell.wanted_adds {c : Cell} (h : c.tag.wanted = true) :
    c.macs = c.mac?.toList ∧ c.hosts = c.host?.toList := by
  obtain ⟨g, tag, hg⟩ := c
  cases tag with
  | ha hex hlen hd =>
    have hha := isHa_ha (c := ⟨g, .ha hex hlen hd, hg⟩) rfl
    simp only [Cell.macs, Cell.hosts, Cell.left, hha, if_true]
    rw [Cell.text, Tag.text, haAction_ha hg hlen hd]
    constructor
    · exact words_haAction hg hlen hd
    · simp [not_matchesIn_ip_ha hg hlen hd, Cell.host?]
  | ip addr hne hh =>
    have hha : Cell.isHa ⟨g, .ip addr hne hh, hg⟩ = false := not_matchesIn_ha_ip hg hh
    have hword : IsWord addr := ⟨hne, fun c hc => (isHostText_not_blank (hh c hc)).1⟩
    have hwords : words (g ++ addr) = [addr] := by rw [words_blanks hg, words_isWord hword]
    simp only [Cell.macs, Cell.hosts, Cell.left, hha, Bool.false_eq_true, if_false]
    refine ⟨rfl, ?_⟩
    rw [Cell.text, Tag.text, matchesIn_ip hg hne hh, ipAction_ip hg hh, hwords]
    by_cases haddr : addr.head? = some 45 <;> simp [haddr, Cell.host?]
  | other => cases h

/-! ## Pieces and files -/

/-- A cell adds its addresses and hosts to the lists. -/
theorem bootpField_cell (c : Cell) (l : Lists) :
    (bootpField l c.text).macs = l.macs ++ c.macs ∧
      (bootpField l c.text).ips = l.ips ++ c.hosts := by
  by_cases hha : c.isHa = true
  · have hleft : c.left = (haAction c.text).1 := if_pos hha
    rw [bootpField, ← Cell.isHa, if_pos hha, Cell.macs, if_pos hha, Cell.hosts, hleft]
    simp only
    split
    · exact ⟨words_collect .., words_collect ..⟩
    · exact ⟨words_collect .., (List.append_nil _).symm⟩
  · have hleft : c.left = c.text := if_neg hha
    rw [bootpField, ← Cell.isHa, if_neg hha, Cell.macs, if_neg hha, Cell.hosts, hleft]
    simp only
    split
    · exact ⟨(List.append_nil _).symm, words_collect ..⟩
    · exact ⟨(List.append_nil _).symm, (List.append_nil _).symm⟩

theorem foldl_bootpField (cells : List Cell) (l : Lists) :
    ((cells.map Cell.text).foldl bootpField l).macs = l.macs ++ cells.flatMap Cell.macs ∧
      ((cells.map Cell.text).foldl bootpField l).ips = l.ips ++ cells.flatMap Cell.hosts := by
  induction cells generalizing l with
  | nil => simp
  | cons c cells ih =>
    obtain ⟨hmacs, hips⟩ := ih (bootpField l c.text)
    obtain ⟨hmac, hip⟩ := bootpField_cell c l
    rw [List.map_cons, List.foldl_cons, hmacs, hips, hmac, hip, List.flatMap_cons,
      List.flatMap_cons, List.append_assoc, List.append_assoc]
    exact ⟨rfl, rfl⟩

theorem matchesIn_piece (p : List Cell) : matchesIn haRule (pieceText p) = p.any Cell.isHa := by
  cases p with
  | nil => rfl
  | cons c p =>
    rw [pieceText, List.map_cons, haRule, matchesIn_join (by decide) rfl, ← List.map_cons,
      List.any_map]
    rfl

theorem flatMap_places (tagged : Bool) (p : List Cell) :
    (placesOf tagged p).flatMap Place.macs =
        (if tagged then p.dropLast.flatMap Cell.macs else []) ∧
      (placesOf tagged p).flatMap Place.hosts =
        if tagged then p.dropLast.flatMap Cell.hosts else [] := by
  induction p using placesOf.induct with
  | case1 => cases tagged <;> simp [placesOf]
  | case2 c => cases tagged <;> simp [placesOf, Place.macs, Place.hosts, Place.scanned]
  | case3 c d p ih =>
    simp only [placesOf, List.flatMap_cons, List.dropLast_cons_cons, ih]
    cases tagged <;> simp [Place.macs, Place.hosts, Place.scanned]

/-- A piece adds what stands at its places, when the first pattern matches at all. -/
theorem bootpRecord_piece (p : List Cell) (l : Lists) :
    (bootpRecord l (pieceText p)).macs =
        l.macs ++ (placesOf (p.any Cell.isHa) p).flatMap Place.macs ∧
      (bootpRecord l (pieceText p)).ips =
        l.ips ++ (placesOf (p.any Cell.isHa) p).flatMap Place.hosts := by
  obtain ⟨hmac, hhost⟩ := flatMap_places (p.any Cell.isHa) p
  rw [hmac, hhost, bootpRecord, matchesIn_piece]
  cases p.any Cell.isHa with
  | true =>
    rw [if_pos rfl, if_pos rfl, if_pos rfl, fields_pieceText]
    exact foldl_bootpField p.dropLast l
  | false => exact ⟨(List.append_nil _).symm, (List.append_nil _).symm⟩

theorem foldl_bootpRecord (ps : List (List Cell)) (l : Lists) :
    let places := ps.flatMap fun p => placesOf (p.any Cell.isHa) p
    ((ps.map pieceText).foldl bootpRecord l).macs = l.macs ++ places.flatMap Place.macs ∧
      ((ps.map pieceText).foldl bootpRecord l).ips = l.ips ++ places.flatMap Place.hosts := by
  induction ps generalizing l with
  | nil => simp
  | cons p ps ih =>
    obtain ⟨hmacs, hips⟩ := ih (bootpRecord l (pieceText p))
    obtain ⟨hmac, hip⟩ := bootpRecord_piece p l
    simp only [List.map_cons, List.foldl_cons, List.flatMap_cons, List.flatMap_append] at *
    rw [hmacs, hips, hmac, hip, List.append_assoc, List.append_assoc]
    exact ⟨rfl, rfl⟩

/-- The script pairs what it finds, by position. -/
theorem bootptab_eq (f : Bootptab) :
    bootptab f.text = pairUp (f.places.flatMap Place.macs) (f.places.flatMap Place.hosts) := by
  obtain ⟨hmacs, hips⟩ := foldl_bootpRecord f.pieces ⟨[], []⟩
  rw [bootptab, foldl_records (fun l => rfl), splitOn_text, endLines_eq, hmacs, hips]
  rfl

/-! ## Quiet files -/

theorem mem_placesOf {tagged : Bool} {p : List Cell} {q : Place} (h : q ∈ placesOf tagged p) :
    q.tagged = tagged ∧ q.cell ∈ p := by
  induction p using placesOf.induct with
  | case1 => cases h
  | case2 c =>
    obtain rfl := List.mem_singleton.mp h
    exact ⟨rfl, List.mem_cons_self⟩
  | case3 c d p ih =>
    rcases List.mem_cons.mp h with rfl | h
    · exact ⟨rfl, List.mem_cons_self⟩
    · exact (ih h).imp_right (List.mem_cons_of_mem c)

theorem tagged_of_isHa {f : Bootptab} {p : Place} (hp : p ∈ f.places) (h : p.cell.isHa = true) :
    p.tagged = true := by
  obtain ⟨q, -, hq⟩ := List.mem_flatMap.mp hp
  obtain ⟨htagged, hcell⟩ := mem_placesOf hq
  rw [htagged]
  exact List.any_eq_true.mpr ⟨p.cell, hcell, h⟩

/-- A place where no other tag matches adds the address of its own. -/
theorem Place.Quiet.adds {f : Bootptab} {p : Place} (hp : p ∈ f.places) (h : p.Quiet) :
    p.macs = p.mac?.toList ∧ p.hosts = p.host?.toList := by
  have htagged := tagged_of_isHa hp
  cases hw : p.cell.tag.wanted with
  | true =>
    obtain ⟨hmac, hhost⟩ := Cell.wanted_adds hw
    have hno : p.tagged = false → p.cell.mac? = none := by
      intro hfalse
      cases hc : p.cell.isHa with
      | true =>
        rw [htagged hc] at hfalse
        cases hfalse
      | false =>
        rw [Cell.macs, hc] at hmac
        exact Option.toList_eq_nil_iff.mp hmac.symm
    rw [Place.macs, Place.hosts, hmac, hhost, Place.mac?, Place.host?, Place.scanned]
    cases p.last with
    | true => simp
    | false =>
      cases ht : p.tagged with
      | true => simp
      | false => simp [hno ht]
  | false =>
    have hnone : p.mac? = none ∧ p.host? = none := by
      obtain ⟨⟨g, tag, hg⟩, tagged, last⟩ := p
      cases tag with
      | ha => cases hw
      | ip => cases hw
      | other => simp [Place.mac?, Place.host?, Cell.mac?, Cell.host?]
    rw [hnone.1, hnone.2, Place.macs, Place.hosts]
    split
    · rename_i hscan
      obtain ⟨hha, hip⟩ := h hscan hw
      simp [Cell.macs, Cell.hosts, Cell.left, hha, hip]
    · exact ⟨rfl, rfl⟩

theorem flatMap_quiet {f : Bootptab} (h : ∀ p ∈ f.places, p.Quiet) :
    f.places.flatMap Place.macs = f.places.filterMap Place.mac? ∧
      f.places.flatMap Place.hosts = f.places.filterMap Place.host? := by
  rw [List.filterMap_eq_flatMap_toList, List.filterMap_eq_flatMap_toList]
  exact ⟨List.flatMap_congr fun p hp => ((h p hp).adds hp).1,
    List.flatMap_congr fun p hp => ((h p hp).adds hp).2⟩

/-- On a quiet file the script pairs what it takes from the tags. -/
theorem bootptab_quiet {f : Bootptab} (h : ∀ p ∈ f.places, p.Quiet) :
    bootptab f.text =
      pairUp (f.places.filterMap Place.mac?) (f.places.filterMap Place.host?) := by
  obtain ⟨hmacs, hhosts⟩ := flatMap_quiet h
  rw [bootptab_eq, hmacs, hhosts]

/-! ## The tags of a file -/

theorem map_placesOf (tagged : Bool) (p : List Cell) : (placesOf tagged p).map Place.cell = p := by
  induction p using placesOf.induct with
  | case1 => rfl
  | case2 c => rfl
  | case3 c d p ih => rw [placesOf, List.map_cons, ih]

theorem map_places (f : Bootptab) : f.places.map Place.cell = f.pieces.flatten := by
  rw [Bootptab.places, List.map_flatMap]
  simp only [map_placesOf]
  exact List.flatMap_id

section Tags

variable {β : Type} {g : Tag → Option β} (hg : ∀ t h, g (.other t h) = none)

theorem flatten_consCell (c : Cell) (ps : List (List Cell)) :
    (consCell c ps).flatten = c :: ps.flatten := by
  cases ps <;> rfl

include hg

theorem filterMap_cut (s : Sep) (t : Tag) (ps : List (List Cell)) :
    (s.cut t ps).flatten.filterMap (g ·.tag) =
      (g t).toList ++ ps.flatten.filterMap (g ·.tag) := by
  have hempty : g Tag.empty = none := hg _ _
  cases s <;> cases h : g t <;>
    simp [Sep.cut, flatten_consCell, Tag.cell, Tag.indented, hempty, h]

theorem filterMap_tags (tags : List (Sep × Tag)) (ps : List (List Cell)) :
    (tags.foldr (fun x ps => x.1.cut x.2 ps) ps).flatten.filterMap (g ·.tag) =
      tags.filterMap (g ·.2) ++ ps.flatten.filterMap (g ·.tag) := by
  induction tags with
  | nil => rfl
  | cons x tags ih =>
    rw [List.foldr_cons, filterMap_cut hg, ih]
    cases h : g x.2 <;> simp [h]

/-- The tags at the places of a file are those of its entries. -/
theorem filterMap_pieces (f : Bootptab) :
    f.places.filterMap (g ·.cell.tag) = f.entries.flatMap fun e => e.tags.filterMap (g ·.2) := by
  have hcells : f.places.filterMap (g ·.cell.tag) = f.pieces.flatten.filterMap (g ·.tag) := by
    rw [← map_places, List.filterMap_map]
    rfl
  rw [hcells, Bootptab.pieces]
  induction f.entries with
  | nil => simp [Tag.empty, hg]
  | cons e es ih =>
    rw [List.foldr_cons, Entry.cut, flatten_consCell, List.filterMap_cons, hg, filterMap_tags hg,
      ih]
    rfl

end Tags

theorem hardware_places (f : Bootptab) :
    f.places.filterMap (fun p => p.cell.tag.ha?.map macText) =
      f.entries.map fun e => macText e.hex := by
  have hmac : ∀ e ∈ f.entries,
      (e.tags.filterMap fun x => x.2.ha?.map macText) = [macText e.hex] := by
    intro e _
    rw [← List.map_filterMap, e.oneHa]
    rfl
  rw [filterMap_pieces (g := fun t => t.ha?.map macText) fun _ _ => rfl,
    List.flatMap_congr hmac, List.map_eq_flatMap]

theorem addr_places (f : Bootptab) :
    f.places.filterMap (·.cell.tag.ip?) = f.entries.map Entry.addr := by
  rw [filterMap_pieces fun _ _ => rfl, List.map_eq_flatMap]
  simp only [Entry.oneIp]

/-! ## When the lines are right -/

theorem length_filterMap_le {α β : Type} {f g : α → Option β} {l : List α}
    (h : ∀ x ∈ l, g x = none → f x = none) : (l.filterMap f).length ≤ (l.filterMap g).length := by
  induction l with
  | nil => exact Nat.le_refl _
  | cons x l ih =>
    have hx := h x (List.mem_cons_self ..)
    have ih := ih fun y hy => h y (List.mem_cons_of_mem _ hy)
    cases hg : g x with
    | none => simpa [hg, hx hg] using ih
    | some b =>
      cases hf : f x with
      | none =>
        simp only [List.filterMap_cons, hf, hg, List.length_cons]
        omega
      | some c => simpa [hf, hg] using ih

/-- What is only left out or changed has to be the same everywhere for the lists to be the same. -/
theorem filterMap_eq_iff {α β : Type} {f g : α → Option β} {l : List α}
    (h : ∀ x ∈ l, g x = none → f x = none) :
    l.filterMap f = l.filterMap g ↔ ∀ x ∈ l, f x = g x := by
  constructor
  · intro heq
    induction l with
    | nil => simp
    | cons x l ih =>
      have hx := h x (List.mem_cons_self ..)
      have hl : ∀ y ∈ l, g y = none → f y = none := fun y hy => h y (List.mem_cons_of_mem _ hy)
      have hle := length_filterMap_le hl
      cases hg : g x with
      | none =>
        simp only [List.filterMap_cons, hg, hx hg] at heq
        simpa [hg, hx hg] using ih hl heq
      | some b =>
        cases hf : f x with
        | none =>
          have hlen := congrArg List.length heq
          simp only [List.filterMap_cons, hf, hg, List.length_cons] at hlen
          omega
        | some c =>
          simp only [List.filterMap_cons, hf, hg] at heq
          obtain ⟨hbc, hrest⟩ := List.cons.inj heq
          simpa [hf, hg, hbc] using ih hl hrest
  · intro heq
    exact List.filterMap_congr heq

theorem read_iff (p : Place) :
    p.Read ↔ p.mac? = p.cell.tag.ha?.map macText ∧ p.host? = p.cell.tag.ip? := by
  obtain ⟨⟨g, tag, hg⟩, tagged, last⟩ := p
  cases tag with
  | ha hex hlen hd =>
    have hcolon : 58 :: macText hex ≠ macText hex := List.cons_ne_self _ _
    by_cases hgap : g = [] <;> cases last <;>
      simp [Place.Read, Place.mac?, Place.host?, Cell.mac?, Cell.host?, Tag.ha?, Tag.ip?, hgap,
        hcolon]
  | ip addr hne hh =>
    by_cases haddr : addr.head? = some 45 <;> cases last <;> cases tagged <;>
      simp [Place.Read, Place.mac?, Place.host?, Cell.mac?, Cell.host?, Tag.ha?, Tag.ip?, haddr]
  | other t plain =>
    simp [Place.Read, Place.mac?, Place.host?, Cell.mac?, Cell.host?, Tag.ha?, Tag.ip?]

theorem isWord_macs {p : Place} {m : Bytes} (h : m ∈ p.macs) : IsWord m := by
  rw [Place.macs] at h
  split at h
  · rw [Cell.macs] at h
    split at h
    · exact mem_words h
    · cases h
  · cases h

theorem host?_none {p : Place} (h : p.cell.tag.ip? = none) : p.host? = none := by
  obtain ⟨⟨g, tag, hg⟩, tagged, last⟩ := p
  cases tag with
  | ha => simp [Place.host?, Cell.host?]
  | ip => cases h
  | other => simp [Place.host?, Cell.host?]

theorem mac?_none {p : Place} (h : p.cell.tag.ha? = none) : p.mac? = none := by
  obtain ⟨⟨g, tag, hg⟩, tagged, last⟩ := p
  cases tag with
  | ha => cases h
  | ip => simp [Place.mac?, Cell.mac?]
  | other => simp [Place.mac?, Cell.mac?]

theorem isWord_of_ha? {t : Tag} {hex : Bytes} (h : t.ha? = some hex) : IsWord (macText hex) := by
  cases t with
  | ha hex hlen hd =>
    cases h
    exact (isWord_macText hlen hd).1
  | ip => cases h
  | other => cases h

theorem ne_nil_of_ip? {t : Tag} {addr : Bytes} (h : t.ip? = some addr) : addr ≠ [] := by
  cases t with
  | ha => cases h
  | ip addr hne hh =>
    cases h
    exact hne
  | other => cases h

theorem Entry.isWord (e : Entry) : IsWord (macText e.hex) ∧ e.addr ≠ [] := by
  have hha : e.hex ∈ e.tags.filterMap (·.2.ha?) := by simp [e.oneHa]
  have hip : e.addr ∈ e.tags.filterMap (·.2.ip?) := by simp [e.oneIp]
  obtain ⟨x, -, hx⟩ := List.mem_filterMap.mp hha
  obtain ⟨y, -, hy⟩ := List.mem_filterMap.mp hip
  exact ⟨isWord_of_ha? hx, ne_nil_of_ip? hy⟩

theorem pairUp_eq_lines_iff {es : List Entry} {ms as : List Bytes} (hm : ∀ m ∈ ms, IsWord m) :
    pairUp ms as = es.map Entry.line ↔
      ms = es.map (fun e => macText e.hex) ∧ es.map Entry.addr <+: as := by
  induction es generalizing ms as with
  | nil => cases ms <;> simp [pairUp]
  | cons e es ih =>
    obtain ⟨he, hne⟩ := e.isWord
    cases ms with
    | nil => simp [pairUp]
    | cons m ms =>
      have hms : ∀ m ∈ ms, IsWord m := fun m hm' => hm m (List.mem_cons_of_mem _ hm')
      rw [pairUp, List.map_cons, List.map_cons, List.map_cons, List.cons.injEq, ih hms,
        List.cons.injEq]
      constructor
      · rintro ⟨hline, hms, has⟩
        obtain ⟨hmac, haddr⟩ := pairLine_inj (hm m (List.mem_cons_self ..)) he hline
        cases as with
        | nil => exact absurd haddr.symm hne
        | cons a as => exact ⟨⟨hmac, hms⟩, List.cons_prefix_cons.mpr ⟨haddr.symm, has⟩⟩
      · rintro ⟨⟨rfl, hms⟩, has⟩
        cases as with
        | nil => exact absurd (List.prefix_nil.mp has) (List.cons_ne_nil _ _)
        | cons a as =>
          obtain ⟨hhost, has⟩ := List.cons_prefix_cons.mp has
          exact ⟨by rw [← hhost]; rfl, hms, has⟩

theorem lines_iff_gives (f : Bootptab) :
    bootptab f.text = f.entries.map Entry.line ↔ Gives f := by
  have hm : ∀ m ∈ f.places.flatMap Place.macs, IsWord m := by
    intro m hm
    obtain ⟨p, -, hp⟩ := List.mem_flatMap.mp hm
    exact isWord_macs hp
  rw [bootptab_eq, pairUp_eq_lines_iff hm]
  exact ⟨fun h => ⟨h.1, h.2⟩, fun h => ⟨h.macs, h.hosts⟩⟩

theorem reads_iff (f : Bootptab) :
    (f.places.filterMap Place.mac? = f.entries.map fun e => macText e.hex) ∧
        f.places.filterMap Place.host? = f.entries.map Entry.addr ↔
      ∀ p ∈ f.places, p.Read := by
  rw [← hardware_places, ← addr_places,
    filterMap_eq_iff fun p _ h => mac?_none (by simpa using h),
    filterMap_eq_iff fun p _ h => host?_none h]
  simp only [read_iff]
  constructor
  · intro h p hp
    exact ⟨h.1 p hp, h.2 p hp⟩
  · intro h
    exact ⟨fun p hp => (h p hp).1, fun p hp => (h p hp).2⟩

/-- On a quiet file there is no host too many. -/
theorem gives_iff_read {f : Bootptab} (h : ∀ p ∈ f.places, p.Quiet) :
    Gives f ↔ ∀ p ∈ f.places, p.Read := by
  obtain ⟨hmacs, hhosts⟩ := flatMap_quiet h
  rw [← reads_iff]
  constructor
  · rintro ⟨hm, ha⟩
    rw [hmacs] at hm
    rw [hhosts] at ha
    refine ⟨hm, (ha.eq_of_length_le ?_).symm⟩
    have hle : (f.places.filterMap Place.host?).length ≤
        (f.places.filterMap (·.cell.tag.ip?)).length :=
      length_filterMap_le fun p _ h => host?_none h
    rwa [addr_places] at hle
  · rintro ⟨hm, ha⟩
    exact ⟨hmacs.trans hm, hhosts ▸ ha ▸ List.prefix_rfl⟩

/-- **The join by position.** The script prints the lines of the entries exactly when the fields
that it scans give the addresses and the hosts of the entries. Where no other tag matches one of the
patterns, this is so exactly when it reads every `ha` and `ip` tag where it stands. -/
theorem bootptab_iff (f : Bootptab) :
    (bootptab f.text = f.entries.map Entry.line ↔ Gives f) ∧
      ((∀ p ∈ f.places, p.Quiet) →
        (bootptab f.text = f.entries.map Entry.line ↔ ∀ p ∈ f.places, p.Read)) :=
  ⟨lines_iff_gives f, fun h => (lines_iff_gives f).trans (gives_iff_read h)⟩

example :
    bootptab (ascii "xterm1:ha=0x00e4ff76553e:ht=ethernet:bf=vmlinuz:ip=xterm1:tc=.default:\n") =
      [ascii "00:e4:ff:76:55:3e xterm1"] := by decide +kernel

-- the second pattern matches in another tag
example :
    bootptab (ascii "xterm1:ha=0x00e4ff76553e:ht=ethernet:gip=10.0.0.254:ip=xterm1:\n") =
      [ascii "00:e4:ff:76:55:3e g10.0.0.254"] := by decide +kernel

theorem indent_tab : Indent [9] := by simp [Indent, isTabOrSpace]

theorem isBlank_newline : ∀ c ∈ [10], isBlank c = true := by simp [isBlank]

theorem plain_ethernet : Plain (ascii "ht=ethernet") := by
  constructor <;> decide +kernel

theorem plain_xterm2 : Plain (ascii "xterm2") := by
  constructor <;> decide +kernel

theorem isXDigit_xterm2 : ∀ c ∈ ascii "00e5ee6744e3", isXDigit c = true := by decide +kernel

theorem isHostText_xterm2 : ∀ c ∈ ascii "10.0.0.25", isHostText c = true := by decide +kernel

/-- An entry whose `ip` tag stands on the second line. -/
def xterm2 : Entry where
  gap := []
  name := ascii "xterm2"
  tags := [(.colon, .other (ascii "ht=ethernet") plain_ethernet),
    (.colon, .ha (ascii "00e5ee6744e3") rfl isXDigit_xterm2),
    (.colonBreak [9] indent_tab, .ip (ascii "10.0.0.25") nofun isHostText_xterm2)]
  hex := ascii "00e5ee6744e3"
  addr := ascii "10.0.0.25"
  gap_blank := nofun
  name_plain := plain_xterm2
  oneHa := rfl
  oneIp := rfl

def xterms : Bootptab := ⟨[xterm2], [10], isBlank_newline⟩

/-- That line has no `ha` tag, and the address is not read. -/
theorem not_lines_xterms :
    xterms.text = ascii "xterm2:ht=ethernet:ha=0x00e5ee6744e3:\\\n\tip=10.0.0.25:\n" ∧
      bootptab xterms.text = [ascii "00:e5:ee:67:44:e3 "] ∧
      xterms.entries.map Entry.line = [ascii "00:e5:ee:67:44:e3 10.0.0.25"] ∧
      bootptab xterms.text ≠ xterms.entries.map Entry.line := by
  refine ⟨?_, ?_, ?_, ?_⟩ <;> decide +kernel

end WakeOnLan
