import WakeOnLan.Scripts

/-!
# WakeOnLan.Bootptab

The files that `wol-bootptab` is made for.

* `Tag`, `Sep`, `Entry`, `Bootptab` — entries of tags, and how they are laid out over lines.
* `pieces` — a file as the script cuts it: pieces between backslashes, cells between colons.
  `text_eq` says that these are the same text.
* `Place`  — a cell and what is around it in its piece.
-/

namespace WakeOnLan

open CLib Awk

/-! ## Entries -/

/-- The text of a name, or of a tag of any other kind: all that is between two separators. -/
structure Plain (t : Bytes) : Prop where
  colon : 58 ∉ t
  backslash : 92 ∉ t

inductive Tag where
  | ha (hex : Bytes) (len : hex.length = 12) (digits : ∀ c ∈ hex, isXDigit c = true)
  | ip (addr : Bytes) (ne : addr ≠ []) (host : ∀ c ∈ addr, isHostText c = true)
  | other (t : Bytes) (plain : Plain t)

namespace Tag

def text : Tag → Bytes
  | ha hex .. => ascii "ha=0x" ++ hex
  | ip addr .. => ascii "ip=" ++ addr
  | other t _ => t

def ha? : Tag → Option Bytes
  | ha hex .. => some hex
  | _ => none

def ip? : Tag → Option Bytes
  | ip addr .. => some addr
  | _ => none

/-- The tag is one that the script is after. -/
def wanted : Tag → Bool
  | other .. => false
  | _ => true

/-- Nothing between two colons. -/
def empty : Tag := other [] ⟨by simp, by simp⟩

end Tag

/-- What stands before a tag: a colon, and where the line is continued there a backslash, a newline
and indentation. The next line can have a colon of its own. -/
inductive Sep where
  | colon
  | colonBreak (w : Bytes) (indent : Indent w)
  | colonBreakColon (w : Bytes) (indent : Indent w)
  | breakColon (w : Bytes) (indent : Indent w)

def Sep.text : Sep → Bytes
  | colon => [58]
  | colonBreak w _ => 58 :: 92 :: 10 :: w
  | colonBreakColon w _ => 58 :: 92 :: 10 :: (w ++ [58])
  | breakColon w _ => 92 :: 10 :: (w ++ [58])

/-- A name and tags, one of each kind that counts; `gap` are the blanks and newlines before it. -/
structure Entry where
  gap : Bytes
  name : Bytes
  tags : List (Sep × Tag)
  hex : Bytes
  addr : Bytes
  gap_blank : ∀ c ∈ gap, isBlank c = true
  name_plain : Plain name
  oneHa : tags.filterMap (·.2.ha?) = [hex]
  oneIp : tags.filterMap (·.2.ip?) = [addr]

def Entry.text (e : Entry) : Bytes :=
  e.gap ++ (e.name ++ ((e.tags.flatMap fun x => x.1.text ++ x.2.text) ++ [58]))

/-- `gap` is what follows the last colon. -/
structure Bootptab where
  entries : List Entry
  gap : Bytes
  gap_blank : ∀ c ∈ gap, isBlank c = true

def Bootptab.text (f : Bootptab) : Bytes := f.entries.flatMap Entry.text ++ f.gap

/-- The digits in pairs. -/
def octets : Bytes → List Bytes
  | [] => []
  | [_] => []
  | a :: b :: r => [a, b] :: octets r

/-- `xx:xx:xx:xx:xx:xx` -/
def macText (hex : Bytes) : Bytes := [58].intercalate (octets hex)

/-- The line that an entry is meant to give. -/
def Entry.line (e : Entry) : Bytes := pairLine (macText e.hex) e.addr

/-! ## Cells and pieces -/

/-- A text between two colons: a tag, and the blanks that a newline put before it. -/
structure Cell where
  gap : Bytes
  tag : Tag
  gap_blank : ∀ c ∈ gap, isBlank c = true

def Cell.text (c : Cell) : Bytes := c.gap ++ c.tag.text

/-- The cell has a match of the first pattern. -/
def Cell.isHa (c : Cell) : Bool := matchesIn haRule c.text

/-- A cell behind a colon. -/
def Tag.cell (t : Tag) : Cell := ⟨[], t, by simp⟩

/-- A cell behind the indentation of a continued line. -/
def Tag.indented (t : Tag) (w : Bytes) (h : Indent w) : Cell :=
  ⟨10 :: w, t, List.forall_mem_cons.mpr ⟨rfl, isBlank_of_indent h⟩⟩

/-- A cell at the beginning of the first piece. -/
def consCell (c : Cell) : List (List Cell) → List (List Cell)
  | [] => [[c]]
  | p :: ps => (c :: p) :: ps

/-- A tag behind its separator; what stands before them goes on in the first piece. -/
def Sep.cut (t : Tag) (ps : List (List Cell)) : Sep → List (List Cell)
  | colon => consCell t.cell ps
  | colonBreak w h => [Tag.empty.cell] :: consCell (t.indented w h) ps
  | colonBreakColon w h =>
    [Tag.empty.cell] :: consCell (Tag.empty.indented w h) (consCell t.cell ps)
  | breakColon w h => [] :: consCell (Tag.empty.indented w h) (consCell t.cell ps)

def Entry.cut (e : Entry) (ps : List (List Cell)) : List (List Cell) :=
  consCell ⟨e.gap, .other e.name e.name_plain, e.gap_blank⟩
    (e.tags.foldr (fun x ps => x.1.cut x.2 ps) ps)

/-- The pieces of a file between its backslashes. -/
def Bootptab.pieces (f : Bootptab) : List (List Cell) :=
  f.entries.foldr Entry.cut [[⟨f.gap, .empty, f.gap_blank⟩]]

/-- A cell and what is around it: whether its piece has a match of the first pattern, and whether it
is the last cell of the piece, with a backslash behind it and no colon. -/
structure Place where
  cell : Cell
  tagged : Bool
  last : Bool

/-- The script looks at the cell. -/
def Place.scanned (p : Place) : Bool := p.tagged && !p.last

def placesOf (tagged : Bool) : List Cell → List Place
  | [] => []
  | [c] => [⟨c, tagged, true⟩]
  | c :: d :: p => ⟨c, tagged, false⟩ :: placesOf tagged (d :: p)

def Bootptab.places (f : Bootptab) : List Place :=
  f.pieces.flatMap fun p => placesOf (p.any Cell.isHa) p

def pieceText (p : List Cell) : Bytes := [58].intercalate (p.map Cell.text)

/-! ## The text of the pieces -/

@[simp] theorem Tag.text_empty : Tag.empty.text = [] := rfl

@[simp] theorem Cell.text_cell (t : Tag) : t.cell.text = t.text := rfl

@[simp] theorem Cell.text_indented (t : Tag) (w : Bytes) (h : Indent w) :
    (t.indented w h).text = 10 :: (w ++ t.text) := rfl

theorem pieceText_cons (c : Cell) (p : List Cell) :
    pieceText (c :: p) = c.text ++ p.flatMap fun d => 58 :: d.text := by
  rw [pieceText, List.map_cons, intercalate_eq, List.flatMap_map]

/-- What follows a cell. -/
def tailText : List (List Cell) → Bytes
  | [] => []
  | p :: ps => (p.flatMap fun c => 58 :: c.text) ++ ps.flatMap fun q => 92 :: pieceText q

theorem tailText_consCell (c : Cell) (ps : List (List Cell)) :
    tailText (consCell c ps) = 58 :: (c.text ++ tailText ps) := by
  cases ps with
  | nil => simp [consCell, tailText]
  | cons p ps => simp [consCell, tailText]

/-- A backslash in place of the colon. -/
theorem tailText_break (c : Cell) (p : List Cell) (ps : List (List Cell)) :
    tailText (p :: consCell c ps) =
      (p.flatMap fun c => 58 :: c.text) ++ 92 :: (c.text ++ tailText ps) := by
  cases ps with
  | nil => simp [consCell, tailText, pieceText_cons]
  | cons q ps => simp [consCell, tailText, pieceText_cons]

theorem tailText_cut (s : Sep) (t : Tag) (ps : List (List Cell)) :
    tailText (s.cut t ps) = s.text ++ (t.text ++ tailText ps) := by
  cases s with
  | colon =>
    rw [Sep.cut, tailText_consCell]
    rfl
  | colonBreak w h =>
    rw [Sep.cut, tailText_break]
    simp [Sep.text]
  | colonBreakColon w h =>
    rw [Sep.cut, tailText_break, tailText_consCell]
    simp [Sep.text]
  | breakColon w h =>
    rw [Sep.cut, tailText_break, tailText_consCell]
    simp [Sep.text]

theorem tailText_tags (tags : List (Sep × Tag)) (ps : List (List Cell)) :
    tailText (tags.foldr (fun x ps => x.1.cut x.2 ps) ps) =
      (tags.flatMap fun x => x.1.text ++ x.2.text) ++ tailText ps := by
  induction tags with
  | nil => rfl
  | cons x tags ih =>
    rw [List.foldr_cons, tailText_cut, ih]
    simp

theorem tailText_pieces (f : Bootptab) : tailText f.pieces = 58 :: f.text := by
  obtain ⟨entries, gap, hgap⟩ := f
  induction entries with
  | nil => simp [Bootptab.pieces, Bootptab.text, tailText, Cell.text]
  | cons e es ih =>
    simp only [Bootptab.pieces, Bootptab.text] at ih ⊢
    rw [List.foldr_cons, Entry.cut, tailText_consCell, tailText_tags, ih]
    simp [Entry.text, Cell.text, Tag.text]

theorem exists_pieces (f : Bootptab) : ∃ c p ps, f.pieces = (c :: p) :: ps := by
  have hcons : ∀ c ps, ∃ p qs, consCell c ps = (c :: p) :: qs := by
    intro c ps
    cases ps with
    | nil => exact ⟨[], [], rfl⟩
    | cons p ps => exact ⟨p, ps, rfl⟩
  obtain ⟨entries, gap, hgap⟩ := f
  cases entries with
  | nil => exact ⟨_, _, _, rfl⟩
  | cons e es => exact ⟨_, hcons _ _⟩

/-- The pieces, with backslashes between them, are the file. -/
theorem text_eq (f : Bootptab) : f.text = [92].intercalate (f.pieces.map pieceText) := by
  obtain ⟨c, p, ps, h⟩ := exists_pieces f
  have htail := tailText_pieces f
  rw [h, tailText, List.flatMap_cons, List.cons_append, List.cons_append, List.append_assoc]
    at htail
  rw [h, List.map_cons, intercalate_eq, pieceText_cons, List.flatMap_map, List.append_assoc]
  exact (List.cons.inj htail).2.symm

/-! ## Separators -/

theorem isBlank_ne {c : UInt8} (h : isBlank c = true) :
    c ≠ 58 ∧ c ≠ 92 ∧ c ≠ 104 ∧ c ≠ 105 ∧ isXDigit c = false := by
  revert c
  apply forall_byte
  decide +kernel

theorem isXDigit_ne {c : UInt8} (h : isXDigit c = true) :
    c ≠ 58 ∧ c ≠ 92 ∧ c ≠ 104 ∧ c ≠ 105 ∧ isBlank c = false := by
  revert c
  apply forall_byte
  decide +kernel

theorem isHostText_ne {c : UInt8} (h : isHostText c = true) : c ≠ 58 ∧ c ≠ 92 ∧ c ≠ 61 := by
  revert c
  apply forall_byte
  decide +kernel

theorem Tag.not_mem_text (t : Tag) : 58 ∉ t.text ∧ 92 ∉ t.text := by
  cases t with
  | ha hex len digits =>
    have h : ∀ c ∈ hex, c ≠ 58 ∧ c ≠ 92 := fun c hc =>
      ⟨(isXDigit_ne (digits c hc)).1, (isXDigit_ne (digits c hc)).2.1⟩
    simp only [Tag.text, List.mem_append, not_or]
    exact ⟨⟨by decide, fun hc => (h _ hc).1 rfl⟩, by decide, fun hc => (h _ hc).2 rfl⟩
  | ip addr ne host =>
    simp only [Tag.text, List.mem_append, not_or]
    exact ⟨⟨by decide, fun hc => (isHostText_ne (host _ hc)).1 rfl⟩, by decide,
      fun hc => (isHostText_ne (host _ hc)).2.1 rfl⟩
  | other t plain => exact ⟨plain.colon, plain.backslash⟩

theorem Cell.not_mem_text (c : Cell) : 58 ∉ c.text ∧ 92 ∉ c.text := by
  simp only [Cell.text, List.mem_append, not_or]
  exact ⟨⟨fun h => (isBlank_ne (c.gap_blank _ h)).1 rfl, c.tag.not_mem_text.1⟩,
    fun h => (isBlank_ne (c.gap_blank _ h)).2.1 rfl, c.tag.not_mem_text.2⟩

theorem not_mem_pieceText (p : List Cell) : 92 ∉ pieceText p := by
  cases p with
  | nil => simp [pieceText]
  | cons c p =>
    rw [pieceText_cons]
    simp [c.not_mem_text.2, fun d : Cell => d.not_mem_text.2]

/-- The script sees the pieces. -/
theorem splitOn_text (f : Bootptab) : f.text.splitOn 92 = f.pieces.map pieceText := by
  obtain ⟨c, p, ps, h⟩ := exists_pieces f
  rw [text_eq]
  refine List.splitOn_intercalate 92 ?_ (by simp [h])
  intro l hl
  obtain ⟨q, -, rfl⟩ := List.mem_map.mp hl
  exact not_mem_pieceText q

/-- The script sees the cells, the last of which it leaves out. -/
theorem fields_pieceText (p : List Cell) :
    (Awk.fields 58 (pieceText p)).dropLast = p.dropLast.map Cell.text := by
  cases p with
  | nil => rfl
  | cons c p =>
    have hsplit : (pieceText (c :: p)).splitOn 58 = (c :: p).map Cell.text := by
      refine List.splitOn_intercalate 58 ?_ (by simp)
      intro l hl
      obtain ⟨d, -, rfl⟩ := List.mem_map.mp hl
      exact d.not_mem_text.1
    by_cases hnil : pieceText (c :: p) = []
    · rw [hnil] at hsplit
      cases p with
      | nil =>
        rw [Awk.fields, if_pos hnil]
        rfl
      | cons d p => simp at hsplit
    · rw [Awk.fields, if_neg hnil, hsplit, List.map_dropLast]

end WakeOnLan
