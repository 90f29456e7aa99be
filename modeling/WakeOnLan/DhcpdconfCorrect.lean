import Mathlib.Data.List.Forall2
import WakeOnLan.Scripts

/-!
# WakeOnLan.DhcpdconfCorrect

`wol-dhcpdconf` on files of host blocks.

* `Item`, `Block` — the statements of a block, one per line; a block has one hardware address and
  at most one fixed address.
* `dhcpdRecord_item` — a line adds what it states to the two lists, and nothing else.
* `dhcpdconf_eq`     — the script pairs the hardware addresses of all blocks with the fixed
  addresses of those that have one, by position.
* `paired_iff`       — when that pairs the right ones; `confText` writes out hosts as files do.
-/

namespace WakeOnLan

open CLib Awk

/-! ## Host blocks -/

inductive Item where
  | hardware (mac : Bytes)
  | fixedAddress (addr : Bytes)
  | other
  deriving DecidableEq

def Item.mac? : Item → Option Bytes
  | .hardware m => some m
  | _ => none

def Item.addr? : Item → Option Bytes
  | .fixedAddress a => some a
  | _ => none

/-- What may stand behind a statement on its line: nothing, or a blank and any text. -/
def Tail (t : Bytes) : Prop := Stops (fun c => !isTabOrSpace c) t

/-- The text of a line. -/
inductive Renders : Item → Bytes → Prop where
  | hardware {w₀ w₁ w₂ m t : Bytes} : Indent w₀ → Indent w₁ → w₁ ≠ [] → Indent w₂ → w₂ ≠ [] →
      m ≠ [] → (∀ c ∈ m, isMacText c = true) → Tail t →
      Renders (.hardware m)
        (w₀ ++ (ascii "hardware" ++ (w₁ ++ (ascii "ethernet" ++ (w₂ ++ (m ++ 59 :: t))))))
  | fixedAddress {w₀ w₁ w₂ a t : Bytes} : Indent w₀ → Indent w₁ → w₁ ≠ [] → Indent w₂ →
      a ≠ [] → (∀ c ∈ a, isHostText c = true) → Tail t →
      Renders (.fixedAddress a)
        (w₀ ++ (ascii "fixed-address" ++ (w₁ ++ (a ++ (w₂ ++ 59 :: t)))))
  | other {l : Bytes} : matchesAt hardwareRule l = false → matchesAt fixedAddressRule l = false →
      Renders .other l

structure Block where
  items : List Item
  mac : Bytes
  addr : Option Bytes
  oneMac : items.filterMap Item.mac? = [mac]
  oneAddr : items.filterMap Item.addr? = addr.toList

/-- The text of a file: the lines of its blocks, each with its newline, which the last line may
lack. -/
def RendersConf (blocks : List Block) (input : Bytes) : Prop :=
  ∃ ls last, List.Forall₂ Renders (blocks.flatMap Block.items)
      (ls ++ if last = [] then [] else [last]) ∧
    (∀ l ∈ ls, 10 ∉ l) ∧ 10 ∉ last ∧ input = ls.flatMap (· ++ [10]) ++ last

/-- The line that a block is meant to give. -/
def Block.line (b : Block) : Option Bytes := b.addr.map (pairLine b.mac)

/-- The lines of all blocks that have both addresses are printed, in file order, and no line pairs
the addresses of different blocks. -/
structure Paired (blocks : List Block) (out : List Bytes) : Prop where
  contains : (blocks.filterMap Block.line).Sublist out
  noMix : ∀ l ∈ out, ∀ b ∈ blocks, ∀ b' ∈ blocks, ∀ a, b'.addr = some a → l = pairLine b.mac a →
    ∃ c ∈ blocks, c.mac = b.mac ∧ c.addr = some a

/-! ## One line -/

theorem isMacText_not_blank {c : UInt8} (h : isMacText c = true) :
    isBlank c = false ∧ (c == 59) = false := by
  revert c
  apply forall_byte
  decide +kernel

/-- A word ends where blanks begin. -/
theorem stops_indent {w : Bytes} (h : Indent w) (hne : w ≠ []) (s : Bytes) :
    Stops (fun c => !isBlank c) (w ++ s) := by
  cases w with
  | nil => exact absurd rfl hne
  | cons c w =>
    have := isBlank_of_indent h c (List.mem_cons_self ..)
    exact stops_cons.mpr (by simp [this])

theorem stops_tail {t : Bytes} (h : Tail t) : Stops (fun c => !isBlank c) t := by
  cases t with
  | nil => exact stops_nil
  | cons c t =>
    have hc : isTabOrSpace c = true := by simpa using stops_cons.mp h
    simp only [isTabOrSpace] at hc
    exact stops_cons.mpr (by rw [isBlank, hc]; rfl)

theorem rmSemicolon_end {w t : Bytes} (hw : ∀ c ∈ w, (c == 59) = false) :
    rmSemicolon (w ++ 59 :: t) = w ++ t := by
  rw [rmSemicolon, sub_skip hw, sub_single rfl]
  rfl

theorem rmSemicolon_none {w : Bytes} (hw : ∀ c ∈ w, (c == 59) = false) : rmSemicolon w = w := by
  have h : rmSemicolon (w ++ []) = w ++ [] := sub_skip hw
  rwa [List.append_nil] at h

theorem isWord_hardware : IsWord (ascii "hardware") := ⟨by decide, by decide +kernel⟩

theorem isWord_ethernet : IsWord (ascii "ethernet") := ⟨by decide, by decide +kernel⟩

theorem isWord_fixedAddress : IsWord (ascii "fixed-address") := ⟨by decide, by decide +kernel⟩

section Line

variable {w₀ w₁ w₂ x t : Bytes}

theorem matches_hardware (h₀ : Indent w₀) (h₁ : Indent w₁) (hne₁ : w₁ ≠ []) (h₂ : Indent w₂)
    (hne₂ : w₂ ≠ []) (hne : x ≠ []) (hx : ∀ c ∈ x, isMacText c = true) :
    matchesAt hardwareRule
      (w₀ ++ (ascii "hardware" ++ (w₁ ++ (ascii "ethernet" ++ (w₂ ++ (x ++ 59 :: t)))))) =
        true := by
  have hend : t ∈ rests [.one (· == 59)] (59 :: t) := by simp [rests, Atom.rests]
  exact matchesAt_of_mem (mem_rests_star h₀ (mem_rests_lit _ (mem_rests_plus hne₁
    (isBlank_of_indent h₁) (mem_rests_lit _ (mem_rests_plus hne₂ (isBlank_of_indent h₂)
      (mem_rests_plus hne hx hend))))))

theorem words_hardware (h₀ : Indent w₀) (h₁ : Indent w₁) (hne₁ : w₁ ≠ []) (h₂ : Indent w₂)
    (hne₂ : w₂ ≠ []) (hx : ∀ c ∈ x, isMacText c = true) (ht : Tail t) :
    words (w₀ ++ (ascii "hardware" ++ (w₁ ++ (ascii "ethernet" ++ (w₂ ++ (x ++ 59 :: t)))))) =
      ascii "hardware" :: ascii "ethernet" :: (x ++ [59]) :: words t := by
  have hword : ∀ c ∈ x ++ [59], isBlank c = false := by
    intro c hc
    rcases List.mem_append.mp hc with hc | hc
    · exact (isMacText_not_blank (hx c hc)).1
    · rw [List.mem_singleton.mp hc]
      rfl
  have hsplit : x ++ 59 :: t = x ++ [59] ++ t := by simp
  rw [words_blanks (isBlank_of_indent h₀),
    words_word isWord_hardware.1 isWord_hardware.2 (stops_indent h₁ hne₁ _),
    words_blanks (isBlank_of_indent h₁),
    words_word isWord_ethernet.1 isWord_ethernet.2 (stops_indent h₂ hne₂ _),
    words_blanks (isBlank_of_indent h₂), hsplit,
    words_word (by simp) hword (stops_tail ht)]

/-- The rebuilt record of a hardware line does not match the second rule. -/
theorem joinFields_hardware (fields : List Bytes) :
    matchesAt fixedAddressRule (joinFields (ascii "hardware" :: fields)) = false := by
  have hjoin : ∃ s, joinFields (ascii "hardware" :: fields) = 104 :: s := by
    cases fields with
    | nil => exact ⟨_, rfl⟩
    | cons f fs => exact ⟨_, rfl⟩
  obtain ⟨s, hs⟩ := hjoin
  rw [hs, ← List.nil_append (104 :: s)]
  exact not_matchesAt_star_lit (List.forall_mem_nil _) rfl rfl (by decide)

theorem dhcpdRecord_hardware (h₀ : Indent w₀) (h₁ : Indent w₁) (hne₁ : w₁ ≠ []) (h₂ : Indent w₂)
    (hne₂ : w₂ ≠ []) (hne : x ≠ []) (hx : ∀ c ∈ x, isMacText c = true) (ht : Tail t) (l : Lists) :
    dhcpdRecord l
        (w₀ ++ (ascii "hardware" ++ (w₁ ++ (ascii "ethernet" ++ (w₂ ++ (x ++ 59 :: t)))))) =
      { l with mac := collect l.mac x } := by
  have hsemi : rmSemicolon (x ++ [59]) = x := by
    rw [rmSemicolon_end fun c hc => (isMacText_not_blank (hx c hc)).2, List.append_nil]
  have hthird : nth (ascii "hardware" :: ascii "ethernet" :: (x ++ [59]) :: words t) 3 =
      x ++ [59] := rfl
  rw [dhcpdRecord, if_pos (matches_hardware h₀ h₁ hne₁ h₂ hne₂ hne hx),
    words_hardware h₀ h₁ hne₁ h₂ hne₂ hx ht, hthird, hsemi]
  simp only [List.set_cons_succ, List.set_cons_zero]
  rw [fixedAddressAction, joinFields_hardware]
  rfl

theorem matches_fixedAddress (h₀ : Indent w₀) (h₁ : Indent w₁) (hne₁ : w₁ ≠ []) (h₂ : Indent w₂)
    (hne : x ≠ []) (hx : ∀ c ∈ x, isHostText c = true) :
    matchesAt fixedAddressRule
      (w₀ ++ (ascii "fixed-address" ++ (w₁ ++ (x ++ (w₂ ++ 59 :: t))))) = true := by
  have hend : t ∈ rests [.one (· == 59)] (59 :: t) := by simp [rests, Atom.rests]
  exact matchesAt_of_mem (mem_rests_star h₀ (mem_rests_lit _ (mem_rests_plus hne₁
    (isBlank_of_indent h₁) (mem_rests_plus hne hx (mem_rests_star (isBlank_of_indent h₂) hend)))))

/-- The second word of a line with a fixed address has the semicolon or not. -/
theorem second_fixedAddress (h₀ : Indent w₀) (h₁ : Indent w₁) (hne₁ : w₁ ≠ []) (h₂ : Indent w₂)
    (hne : x ≠ []) (hx : ∀ c ∈ x, isHostText c = true) (ht : Tail t) :
    rmSemicolon (nth (words
      (w₀ ++ (ascii "fixed-address" ++ (w₁ ++ (x ++ (w₂ ++ 59 :: t)))))) 2) = x := by
  have hblank : ∀ c ∈ x, isBlank c = false := fun c hc => (isHostText_not_blank (hx c hc)).1
  have hsemi : ∀ c ∈ x, (c == 59) = false := fun c hc => (isHostText_not_blank (hx c hc)).2
  rw [words_blanks (isBlank_of_indent h₀),
    words_word isWord_fixedAddress.1 isWord_fixedAddress.2 (stops_indent h₁ hne₁ _),
    words_blanks (isBlank_of_indent h₁)]
  by_cases hw : w₂ = []
  · have hword : ∀ c ∈ x ++ [59], isBlank c = false := by
      intro c hc
      rcases List.mem_append.mp hc with hc | hc
      · exact hblank c hc
      · rw [List.mem_singleton.mp hc]
        rfl
    have hsplit : x ++ 59 :: t = x ++ [59] ++ t := by simp
    rw [hw, List.nil_append, hsplit, words_word (by simp) hword (stops_tail ht)]
    show rmSemicolon (x ++ [59]) = x
    rw [rmSemicolon_end hsemi, List.append_nil]
  · rw [words_word hne hblank (stops_indent h₂ hw _)]
    exact rmSemicolon_none hsemi

theorem dhcpdRecord_fixedAddress (h₀ : Indent w₀) (h₁ : Indent w₁) (hne₁ : w₁ ≠ [])
    (h₂ : Indent w₂) (hne : x ≠ []) (hx : ∀ c ∈ x, isHostText c = true) (ht : Tail t) (l : Lists) :
    dhcpdRecord l (w₀ ++ (ascii "fixed-address" ++ (w₁ ++ (x ++ (w₂ ++ 59 :: t))))) =
      { l with ip := collect l.ip x } := by
  have hno : matchesAt hardwareRule
      (w₀ ++ (ascii "fixed-address" ++ (w₁ ++ (x ++ (w₂ ++ 59 :: t))))) = false :=
    not_matchesAt_star_lit h₀ rfl rfl (by decide)
  rw [dhcpdRecord, if_neg (by simp [hno]), fixedAddressAction,
    if_pos (matches_fixedAddress h₀ h₁ hne₁ h₂ hne hx),
    second_fixedAddress h₀ h₁ hne₁ h₂ hne hx ht]

end Line

theorem isWord_mac {it : Item} {text m : Bytes} (h : Renders it text) (hm : it.mac? = some m) :
    IsWord m := by
  cases h with
  | hardware _ _ _ _ _ hne hx =>
    cases hm
    exact ⟨hne, fun c hc => (isMacText_not_blank (hx c hc)).1⟩
  | fixedAddress => cases hm
  | other => cases hm

theorem isWord_addr {it : Item} {text a : Bytes} (h : Renders it text) (ha : it.addr? = some a) :
    IsWord a := by
  cases h with
  | hardware => cases ha
  | fixedAddress _ _ _ _ hne hx =>
    cases ha
    exact ⟨hne, fun c hc => (isHostText_not_blank (hx c hc)).1⟩
  | other => cases ha

/-- A line adds what it states to the two lists, and nothing else. -/
theorem dhcpdRecord_item {it : Item} {text : Bytes} (h : Renders it text) (l : Lists) :
    (dhcpdRecord l text).macs = l.macs ++ it.mac?.toList ∧
      (dhcpdRecord l text).ips = l.ips ++ it.addr?.toList := by
  have hmac : ∀ {m}, it.mac? = some m → words (collect l.mac m) = l.macs ++ [m] := by
    intro m hm
    rw [words_collect, words_isWord (isWord_mac h hm), Lists.macs]
  have haddr : ∀ {a}, it.addr? = some a → words (collect l.ip a) = l.ips ++ [a] := by
    intro a ha
    rw [words_collect, words_isWord (isWord_addr h ha), Lists.ips]
  cases h with
  | hardware h₀ h₁ hne₁ h₂ hne₂ hne hx ht =>
    rw [dhcpdRecord_hardware h₀ h₁ hne₁ h₂ hne₂ hne hx ht]
    exact ⟨hmac rfl, (List.append_nil _).symm⟩
  | fixedAddress h₀ h₁ hne₁ h₂ hne hx ht =>
    rw [dhcpdRecord_fixedAddress h₀ h₁ hne₁ h₂ hne hx ht]
    exact ⟨(List.append_nil _).symm, haddr rfl⟩
  | other hno hno' =>
    rw [dhcpdRecord, if_neg (by simp [hno]), fixedAddressAction, if_neg (by simp [hno'])]
    exact ⟨(List.append_nil _).symm, (List.append_nil _).symm⟩

/-! ## The whole file -/

/-- The lists behind a sequence of lines. -/
theorem foldl_dhcpdRecord {items : List Item} {ls : List Bytes}
    (h : List.Forall₂ Renders items ls) (l : Lists) :
    (ls.foldl dhcpdRecord l).macs = l.macs ++ items.filterMap Item.mac? ∧
      (ls.foldl dhcpdRecord l).ips = l.ips ++ items.filterMap Item.addr? := by
  induction h generalizing l with
  | nil => simp
  | @cons it text items ls hit hrest ih =>
    obtain ⟨hmacs, hips⟩ := ih (dhcpdRecord l text)
    obtain ⟨hmac, hip⟩ := dhcpdRecord_item hit l
    rw [List.foldl_cons, hmacs, hips, hmac, hip]
    cases it <;> simp [List.filterMap_cons, Item.mac?, Item.addr?]

theorem exists_renders {items : List Item} {ls : List Bytes} (h : List.Forall₂ Renders items ls)
    {it : Item} (hit : it ∈ items) : ∃ text, Renders it text := by
  induction h with
  | nil => cases hit
  | cons hr _ ih =>
    rcases List.mem_cons.mp hit with rfl | hit
    · exact ⟨_, hr⟩
    · exact ih hit

section Conf

variable {blocks : List Block} {input : Bytes}

theorem filterMap_mac (blocks : List Block) :
    (blocks.flatMap Block.items).filterMap Item.mac? = blocks.map Block.mac := by
  induction blocks with
  | nil => rfl
  | cons b bs ih => simp [b.oneMac, ih]

theorem filterMap_addr (blocks : List Block) :
    (blocks.flatMap Block.items).filterMap Item.addr? = blocks.filterMap Block.addr := by
  induction blocks with
  | nil => rfl
  | cons b bs ih =>
    rw [List.flatMap_cons, List.filterMap_append, b.oneAddr, ih]
    cases h : b.addr <;> simp [h]

theorem isWord_of_mem_macs (h : RendersConf blocks input) :
    ∀ m ∈ blocks.map Block.mac, IsWord m := by
  intro m hm
  obtain ⟨ls, last, hr, -⟩ := h
  rw [← filterMap_mac] at hm
  obtain ⟨it, hit, hm⟩ := List.mem_filterMap.mp hm
  obtain ⟨text, ht⟩ := exists_renders hr hit
  exact isWord_mac ht hm

theorem isWord_of_mem_addrs (h : RendersConf blocks input) :
    ∀ a ∈ blocks.filterMap Block.addr, IsWord a := by
  intro a ha
  obtain ⟨ls, last, hr, -⟩ := h
  rw [← filterMap_addr] at ha
  obtain ⟨it, hit, ha⟩ := List.mem_filterMap.mp ha
  obtain ⟨text, ht⟩ := exists_renders hr hit
  exact isWord_addr ht ha

/-- The script pairs the hardware addresses of all blocks with the fixed addresses of those that
have one. -/
theorem dhcpdconf_eq (h : RendersConf blocks input) :
    dhcpdconf input = pairUp (blocks.map Block.mac) (blocks.filterMap Block.addr) := by
  obtain ⟨ls, last, hr, hls, hlast, rfl⟩ := h
  obtain ⟨hmacs, hips⟩ := foldl_dhcpdRecord hr ⟨[], []⟩
  rw [dhcpdconf, records_terminated hls hlast, endLines_eq, hmacs, hips, filterMap_mac,
    filterMap_addr]
  rfl

/-! ## The pairing -/

theorem pairUp_eq (ms as : List Bytes) :
    pairUp ms as = List.zipWith pairLine ms as ++ (ms.drop as.length).map (pairLine · []) := by
  induction ms generalizing as with
  | nil => simp [pairUp]
  | cons m ms ih =>
    cases as with
    | nil =>
      rw [pairUp, ih]
      simp [pairLine]
    | cons a as =>
      rw [pairUp, List.tail_cons, ih]
      simp [pairLine]

theorem zipWith_pairLine_take (ms as : List Bytes) :
    List.zipWith pairLine (ms.take as.length) as = List.zipWith pairLine ms as := by
  induction as generalizing ms with
  | nil => simp
  | cons a as ih =>
    cases ms with
    | nil => rfl
    | cons m ms => simp [ih]

theorem zipWith_pairLine_inj {ms ms' as : List Bytes} (h : ms.length = as.length)
    (h' : ms'.length = as.length)
    (heq : List.zipWith pairLine ms as = List.zipWith pairLine ms' as) : ms = ms' := by
  induction as generalizing ms ms' with
  | nil => rw [List.length_eq_zero_iff.mp h, List.length_eq_zero_iff.mp h']
  | cons a as ih =>
    obtain ⟨m, ms, rfl⟩ := List.exists_cons_of_length_eq_add_one h
    obtain ⟨m', ms', rfl⟩ := List.exists_cons_of_length_eq_add_one h'
    obtain ⟨hm, hrest⟩ := List.cons.inj heq
    rw [List.append_cancel_right hm, ih (by simpa using h) (by simpa using h') hrest]

/-- The blocks that have both addresses. -/
def addressed (blocks : List Block) : List Block := blocks.filter fun b => b.addr.isSome

theorem length_addressed (blocks : List Block) :
    ((addressed blocks).map Block.mac).length = (blocks.filterMap Block.addr).length := by
  induction blocks with
  | nil => rfl
  | cons b bs ih => cases h : b.addr <;> simpa [addressed, h] using ih

theorem filterMap_line (blocks : List Block) :
    blocks.filterMap Block.line =
      List.zipWith pairLine ((addressed blocks).map Block.mac) (blocks.filterMap Block.addr) := by
  induction blocks with
  | nil => rfl
  | cons b bs ih => cases h : b.addr <;> simpa [addressed, Block.line, h] using ih

/-- A line with an address does not end in the blank. -/
def hasAddr (l : Bytes) : Bool := l.getLast? != some 32

theorem hasAddr_pairLine {m a : Bytes} (ha : IsWord a) : hasAddr (pairLine m a) = true := by
  have hlast : (pairLine m a).getLast? = some (a.getLast ha.1) := by
    rw [pairLine, List.getLast?_append_of_ne_nil _ (by simp), List.getLast?_cons,
      List.getLast?_eq_some_getLast ha.1]
    rfl
  have hne : a.getLast ha.1 ≠ 32 := by
    intro h
    have := ha.2 _ (List.getLast_mem ha.1)
    rw [h] at this
    cases this
  simp [hasAddr, hlast, hne]

theorem filter_hasAddr {ms as : List Bytes} (ha : ∀ a ∈ as, IsWord a) :
    (List.zipWith pairLine ms as).filter hasAddr = List.zipWith pairLine ms as := by
  rw [List.filter_eq_self]
  intro l hl
  rw [← List.map_uncurry_zip_eq_zipWith] at hl
  obtain ⟨⟨m, a⟩, hma, rfl⟩ := List.mem_map.mp hl
  exact hasAddr_pairLine (ha a (List.of_mem_zip hma).2)

theorem filter_hasAddr_rest (ms : List Bytes) : (ms.map (pairLine · [])).filter hasAddr = [] := by
  rw [List.filter_eq_nil_iff]
  intro l hl
  obtain ⟨m, -, rfl⟩ := List.mem_map.mp hl
  simp [hasAddr, pairLine]

/-- The script pairs every block with its own address exactly when the blocks that have one come
with the first hardware addresses of the file. -/
theorem paired_iff (h : RendersConf blocks input) :
    Paired blocks (dhcpdconf input) ↔
      (addressed blocks).map Block.mac <+: blocks.map Block.mac := by
  have hm := isWord_of_mem_macs h
  have ha := isWord_of_mem_addrs h
  have hlen := length_addressed blocks
  rw [dhcpdconf_eq h, pairUp_eq, List.prefix_iff_eq_take, hlen]
  constructor
  · intro hp
    have hsub := hp.contains.filter hasAddr
    rw [List.filter_append, filter_hasAddr ha, filter_hasAddr_rest, List.append_nil, filterMap_line,
      filter_hasAddr ha] at hsub
    have hle : (blocks.filterMap Block.addr).length ≤ (blocks.map Block.mac).length := by
      rw [List.length_map]
      exact List.length_filterMap_le ..
    have heq := hsub.eq_of_length (by simp only [List.length_zipWith]; omega)
    rw [← zipWith_pairLine_take (blocks.map Block.mac)] at heq
    exact zipWith_pairLine_inj hlen (List.length_take_of_le hle) heq
  · intro hprefix
    have hfirst : List.zipWith pairLine (blocks.map Block.mac) (blocks.filterMap Block.addr) =
        blocks.filterMap Block.line := by
      rw [filterMap_line, hprefix, zipWith_pairLine_take]
    rw [hfirst]
    refine ⟨List.sublist_append_left .., ?_⟩
    intro l hl b hb b' hb' a hab hline
    have hmac := hm b.mac (List.mem_map_of_mem hb)
    rcases List.mem_append.mp hl with hl | hl
    · obtain ⟨c, hc, hcl⟩ := List.mem_filterMap.mp hl
      obtain ⟨a', hca, rfl⟩ := Option.map_eq_some_iff.mp hcl
      obtain ⟨hcb, rfl⟩ := pairLine_inj (hm c.mac (List.mem_map_of_mem hc)) hmac hline
      exact ⟨c, hc, hcb, hca⟩
    · obtain ⟨m, hmem, rfl⟩ := List.mem_map.mp hl
      have hnil := (pairLine_inj (hm m (List.mem_of_mem_drop hmem)) hmac hline).2
      exact absurd hnil.symm (ha a (List.mem_filterMap.mpr ⟨b', hb', hab⟩)).1

end Conf

/-! ## Two hosts -/

structure Host where
  name : Bytes
  mac : Bytes
  addr : Option Bytes

/-- A host block with its braces on lines of their own. -/
def Host.block (h : Host) : Block where
  items := [.other, .other, .hardware h.mac] ++ h.addr.toList.map .fixedAddress ++ [.other]
  mac := h.mac
  addr := h.addr
  oneMac := by cases h.addr <;> rfl
  oneAddr := by cases h.addr <;> rfl

def Host.lines (h : Host) : List Bytes :=
  [ascii "host " ++ h.name, ascii "\x7b", ascii "  hardware ethernet " ++ (h.mac ++ [59])] ++
    h.addr.toList.map (fun a => ascii "  fixed-address " ++ (a ++ [59])) ++ [ascii "\x7d"]

def confText (hosts : List Host) : Bytes :=
  (hosts.flatMap Host.lines).flatMap (· ++ [10])

structure Host.WellFormed (h : Host) : Prop where
  line : ∀ l ∈ h.lines, 10 ∉ l
  mac_ne : h.mac ≠ []
  mac : ∀ c ∈ h.mac, isMacText c = true
  addr : ∀ a ∈ h.addr, a ≠ [] ∧ ∀ c ∈ a, isHostText c = true

theorem Host.renders_lines {h : Host} (hw : h.WellFormed) :
    List.Forall₂ Renders h.block.items h.lines := by
  obtain ⟨name, mac, addr⟩ := h
  have hblank : Indent [32] := by simp [Indent, isTabOrSpace]
  have hindent : Indent [32, 32] := by simp [Indent, isTabOrSpace]
  have hname : Renders .other (ascii "host " ++ name) := .other rfl rfl
  have hhardware : Renders (.hardware mac) (ascii "  hardware ethernet " ++ (mac ++ [59])) :=
    .hardware hindent hblank (by simp) hblank (by simp) hw.mac_ne hw.mac stops_nil
  have hclose : Renders .other (ascii "\x7d") := .other rfl rfl
  refine .cons hname (.cons (.other rfl rfl) (.cons hhardware ?_))
  cases addr with
  | none => exact .cons hclose .nil
  | some a =>
    obtain ⟨ha, hat⟩ := hw.addr a rfl
    exact .cons (.fixedAddress hindent hblank (by simp) (List.forall_mem_nil _) ha hat stops_nil)
      (.cons hclose .nil)

theorem rendersConf_hosts (hosts : List Host) (hw : ∀ h ∈ hosts, h.WellFormed) :
    RendersConf (hosts.map Host.block) (confText hosts) := by
  have hlines : ∀ l ∈ hosts.flatMap Host.lines, 10 ∉ l := by
    intro l hl
    obtain ⟨h, hh, hl⟩ := List.mem_flatMap.mp hl
    exact (hw h hh).line l hl
  refine ⟨hosts.flatMap Host.lines, [], ?_, hlines, by simp, by simp [confText]⟩
  rw [if_pos rfl, List.append_nil]
  clear hlines
  induction hosts with
  | nil => exact .nil
  | cons h hosts ih =>
    exact List.rel_append (Host.renders_lines (hw h (List.mem_cons_self ..)))
      (ih fun h hh => hw h (List.mem_cons_of_mem _ hh))

def zaphod : Host := ⟨ascii "zaphod", ascii "11:ab:e3:5f:7f:8c", some (ascii "10.0.0.1")⟩

def marvin : Host := ⟨ascii "marvin", ascii "22:ba:3e:f5:f7:c8", some (ascii "marvin.is.depp.at")⟩

def arthur : Host := ⟨ascii "arthur", ascii "33:00:00:00:00:2a", none⟩

theorem wellFormed_zaphod : zaphod.WellFormed := by
  constructor <;> decide +kernel

theorem wellFormed_marvin : marvin.WellFormed := by
  constructor <;> decide +kernel

theorem wellFormed_arthur : arthur.WellFormed := by
  constructor <;> decide +kernel

theorem rendersConf_zaphod_marvin :
    RendersConf [zaphod.block, marvin.block] (confText [zaphod, marvin]) :=
  rendersConf_hosts [zaphod, marvin] (by simp [wellFormed_zaphod, wellFormed_marvin])

theorem rendersConf_arthur_marvin :
    RendersConf [arthur.block, marvin.block] (confText [arthur, marvin]) :=
  rendersConf_hosts [arthur, marvin] (by simp [wellFormed_arthur, wellFormed_marvin])

theorem paired_zaphod_marvin :
    Paired [zaphod.block, marvin.block] (dhcpdconf (confText [zaphod, marvin])) :=
  (paired_iff rendersConf_zaphod_marvin).mpr (by decide)

/-- A host without address gets that of the next one. -/
theorem not_paired_arthur_marvin :
    RendersConf [arthur.block, marvin.block] (confText [arthur, marvin]) ∧
      dhcpdconf (confText [arthur, marvin]) =
        [ascii "33:00:00:00:00:2a marvin.is.depp.at", ascii "22:ba:3e:f5:f7:c8 "] ∧
      ¬ Paired [arthur.block, marvin.block] (dhcpdconf (confText [arthur, marvin])) := by
  refine ⟨rendersConf_arthur_marvin, by decide +kernel, ?_⟩
  intro h
  have hline := h.contains
  revert hline
  decide +kernel

end WakeOnLan
