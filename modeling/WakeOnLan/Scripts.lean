import WakeOnLan.Awk

/-!
# WakeOnLan.Scripts

The AWK programs of `wol-dhcpdconf` and `wol-bootptab`. Both collect hardware addresses in the
string `mac` and hosts in the string `ip`, and join the two by position at the end.

* `endLines`  — the `END` rule of both.
* `dhcpdconf` — records are lines, fields are words.
* `bootptab`  — records are cut at backslashes, fields at colons.
-/

namespace WakeOnLan

open CLib Awk

/-- The two strings that a script collects. -/
structure Lists where
  mac : Bytes
  ip : Bytes
  deriving DecidableEq

/-- `s = s " " x` -/
def collect (s x : Bytes) : Bytes := s ++ 32 :: x

/-- The `END` rule: `print MAC[i], IP[i]` for every `i` that `MAC` has. -/
def endLines (l : Lists) : List Bytes :=
  let macs := words l.mac
  let ips := words l.ip
  (List.range macs.length).map fun i => nth macs (i + 1) ++ 32 :: nth ips (i + 1)

/-! ## `wol-dhcpdconf` -/

def isTabOrSpace (c : UInt8) : Bool := c == 32 || c == 9

/-- `[0-9a-zA-Z:]` -/
def isMacText (c : UInt8) : Bool := isDigit c || isAlpha c || c == 58

/-- `[0-9a-zA-Z._-]` -/
def isHostText (c : UInt8) : Bool := isDigit c || isAlpha c || c == 46 || c == 95 || c == 45

/-- `/^[ \t]*hardware[ \t\n]+ethernet[ \t\n]+[0-9a-zA-Z:]+;/` -/
def hardwareRule : Pattern :=
  .star isTabOrSpace :: (lit (ascii "hardware") ++ .plus isBlank :: (lit (ascii "ethernet") ++
    [.plus isBlank, .plus isMacText, .one (· == 59)]))

/-- `/^[ \t]*fixed-address[ \t\n]+[0-9a-zA-Z._-]+[ \t\n]*;/` -/
def fixedAddressRule : Pattern :=
  .star isTabOrSpace :: (lit (ascii "fixed-address") ++
    [.plus isBlank, .plus isHostText, .star isBlank, .one (· == 59)])

/-- `sub (/;/, "", s)` -/
def rmSemicolon (s : Bytes) : Bytes := sub [.one (· == 59)] (fun _ => []) s

def fixedAddressAction (l : Lists) (record : Bytes) (fields : List Bytes) : Lists :=
  if matchesAt fixedAddressRule record then
    { l with ip := collect l.ip (rmSemicolon (nth fields 2)) }
  else l

/-- Both rules on one line. The assignment to `$3` in the first rebuilds the record that the second
is matched with. -/
def dhcpdRecord (l : Lists) (record : Bytes) : Lists :=
  if matchesAt hardwareRule record then
    let mac := rmSemicolon (nth (words record) 3)
    let fields := (words record).set 2 mac
    fixedAddressAction { l with mac := collect l.mac mac } (joinFields fields) fields
  else fixedAddressAction l record (words record)

/-- The lines that `wol-dhcpdconf` prints. -/
def dhcpdconf (input : Bytes) : List Bytes :=
  endLines ((Awk.records 10 input).foldl dhcpdRecord ⟨[], []⟩)

/-! ## `wol-bootptab` -/

/-- `/ha=0x[0-9a-fA-F]+/` -/
def haRule : Pattern := lit (ascii "ha=0x") ++ [.plus isXDigit]

/-- `[0-9.-_a-zA-Z]`: the hyphen makes a range from `.` to `_`. -/
def isIpText (c : UInt8) : Bool := isDigit c || (46 ≤ c && c ≤ 95) || isAlpha c

/-- `"ip=[0-9.-_a-zA-Z]+"` -/
def ipRule : Pattern := lit (ascii "ip=") ++ [.plus isIpText]

/-- The first action on a field: the field afterwards, and what is collected. -/
def haAction (field : Bytes) : Bytes × Bytes :=
  let field := gsub (lit (ascii "ha=0x")) (fun _ => []) field
  let field := gsub [.one isXDigit, .one isXDigit] (fun m => 58 :: m) field
  (field, field.drop 1)

def ipAction (field : Bytes) : Bytes := gsub (lit (ascii "ip=")) (fun _ => []) field

/-- Both actions on one field. -/
def bootpField (l : Lists) (field : Bytes) : Lists :=
  let (l, field) :=
    if matchesIn haRule field then
      ({ l with mac := collect l.mac (haAction field).2 }, (haAction field).1)
    else (l, field)
  if matchesIn ipRule field then { l with ip := collect l.ip (ipAction field) } else l

/-- The loop `i < NF` leaves out the last field. -/
def bootpRecord (l : Lists) (record : Bytes) : Lists :=
  if matchesIn haRule record then (Awk.fields 58 record).dropLast.foldl bootpField l else l

/-- The lines that `wol-bootptab` prints. -/
def bootptab (input : Bytes) : List Bytes :=
  endLines ((Awk.records 92 input).foldl bootpRecord ⟨[], []⟩)

/-! ## Blanks -/

/-- Blanks within a line. -/
def Indent (w : Bytes) : Prop := ∀ c ∈ w, isTabOrSpace c = true

theorem isBlank_of_indent {w : Bytes} (h : Indent w) : ∀ c ∈ w, isBlank c = true := by
  intro c hc
  have htab := h c hc
  simp only [isTabOrSpace] at htab
  rw [isBlank, htab, Bool.true_or]

theorem isHostText_not_blank {c : UInt8} (h : isHostText c = true) :
    isBlank c = false ∧ (c == 59) = false := by
  revert c
  apply forall_byte
  decide +kernel

/-! ## The join -/

/-- The hardware addresses that were collected. -/
def Lists.macs (l : Lists) : List Bytes := words l.mac

/-- The hosts that were collected. -/
def Lists.ips (l : Lists) : List Bytes := words l.ip

theorem words_collect (s x : Bytes) : words (collect s x) = words s ++ words x :=
  words_append rfl s x

/-- A line of the output. -/
def pairLine (m a : Bytes) : Bytes := m ++ 32 :: a

/-- Two lists joined by position; where the second ends, nothing stands behind the blank. -/
def pairUp : List Bytes → List Bytes → List Bytes
  | [], _ => []
  | m :: ms, as => pairLine m (as.headD []) :: pairUp ms as.tail

theorem range_pairUp (ms as : List Bytes) :
    ((List.range ms.length).map fun i => nth ms (i + 1) ++ 32 :: nth as (i + 1)) =
      pairUp ms as := by
  induction ms generalizing as with
  | nil => rfl
  | cons m ms ih =>
    rw [List.length_cons, List.range_succ_eq_map, List.map_cons, List.map_map, pairUp, ← ih]
    cases as with
    | nil => rfl
    | cons a as => rfl

theorem endLines_eq (l : Lists) : endLines l = pairUp l.macs l.ips :=
  range_pairUp l.macs l.ips

/-- Words as they stand in a collected string. -/
def IsWord (w : Bytes) : Prop := w ≠ [] ∧ ∀ c ∈ w, isBlank c = false

theorem words_isWord {w : Bytes} (h : IsWord w) : words w = [w] := words_single h.1 h.2

theorem pairLine_inj {m m' a a' : Bytes} (hm : IsWord m) (hm' : IsWord m')
    (h : pairLine m a = pairLine m' a') : m = m' ∧ a = a' := by
  have hfirst : ∀ {w : Bytes} (s : Bytes), IsWord w →
      (pairLine w s).takeWhile (!isBlank ·) = w := by
    intro w s hw
    exact takeWhile_munch (fun c hc => by simp [hw.2 c hc]) (stops_cons.mpr rfl)
  have hmac : m = m' := by rw [← hfirst a hm, h, hfirst a' hm']
  subst hmac
  exact ⟨rfl, (List.cons.inj (List.append_cancel_left h)).2⟩

end WakeOnLan
