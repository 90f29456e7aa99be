import WakeOnLan.BootptabCorrect
import WakeOnLan.DhcpdconfCorrect
import WakeOnLan.MacfileFormat
import WakeOnLan.Trace

/-!
# WakeOnLan.Pipeline

`wol-dhcpdconf < /etc/dhcpd.conf | wol -` and `wol-bootptab < /etc/bootptab | wol -`.

* `Sys.piped`      — what a script prints is the standard input of `wol`.
* `piped_trace`    — a run on it works off the records of the lines.
* `printedRecord_pair`, `targets_eq_iff` — the records of addresses and hosts that were joined.
* `dhcpdconf_wol`, `bootptab_wol` — the two pipelines, from the file to what the run shows, and when
  every host is woken under its own address.
-/

namespace WakeOnLan

open CLib

/-! ## The pipe -/

/-- What `print` writes. -/
def printed (ls : List Bytes) : Bytes := ls.flatMap (· ++ [10])

/-- The standard input is a pipe from a script that prints these lines. -/
def Sys.piped (sys : Sys) (out : List Bytes) : Sys := { sys with stdin := (printed out, .eof) }

theorem newlineTerminated_printed (ls : List Bytes) : NewlineTerminated (printed ls) := by
  induction ls with
  | nil => exact .inl rfl
  | cons l ls ih =>
    refine NewlineTerminated.append (.inr ?_) ih
    rw [List.getLast?_append]
    rfl

theorem lines_printed {ls : List Bytes} (h : ∀ l ∈ ls, 10 ∉ l) :
    lines (printed ls) = ls.map (· ++ [10]) := by
  induction ls with
  | nil => rfl
  | cons l ls ih =>
    have hrest : printed (l :: ls) = l ++ 10 :: printed ls := by
      rw [printed, List.flatMap_cons, List.append_assoc]
      rfl
    rw [hrest, lines_line (h l List.mem_cons_self),
      ih fun l' hl' => h l' (List.mem_cons_of_mem l hl'), List.map_cons]

/-- What `wol` makes of a line that is printed. -/
def printedRecord (l : Bytes) : Option Record := lineRecord (l ++ [10])

theorem records_printed {ls : List Bytes} (h : ∀ l ∈ ls, 10 ∉ l) :
    records (printed ls) = ls.filterMap printedRecord := by
  rw [records, lines_printed h, List.filterMap_map]
  rfl

theorem macfile_printed {ls : List Bytes} (h : ∀ l ∈ ls, 10 ∉ l)
    (hfit : ∀ l ∈ ls, HostFits (l ++ [10])) : Macfile (printed ls) where
  terminated := newlineTerminated_printed ls
  fits := by
    intro line hline
    rw [lines_printed h] at hline
    obtain ⟨l, hl, rfl⟩ := List.mem_map.mp hline
    exact hfit l hl

/-- The targets that come through the pipe. -/
def pipedTargets (out : List Bytes) : List WakeTarget := (records (printed out)).map Record.target

section Pipe

variable {sys : Sys} {posixlyCorrect : Bool} {args out : List Bytes} {s₀ : State}

/-- With `-` among its operands `wol` works off what comes through the pipe, and nothing else. -/
theorem piped_trace (hout : Macfile (printed out))
    (hstart : start (sys.piped out) (commandLine posixlyCorrect sys.programName args) = .ok s₀)
    (hstdin : s₀.globals.requestStdin = true) (hmode : ¬ InProxyMode s₀.globals)
    (events : List Event) (halt : Halt) :
    MainRuns (sys.piped out) posixlyCorrect args events halt ↔
      events = diagnostics sys.programName sys.getpass
          (scanned posixlyCorrect sys.programName args).found ⟨{}, false⟩ ++
        traceOf sys s₀.globals (pipedTargets out) ∧
      halt = ended (.ok ()) (failedOf sys s₀.globals (pipedTargets out)) := by
  have hnone : operandTargets (sys.piped out) (commandLine posixlyCorrect sys.programName args)
      s₀.globals = [] := by
    rw [operandTargets, if_pos hstdin]
    rfl
  have hruns := runs_trace hstart hmode
  rw [hnone, source_stdin hstdin] at hruns
  have hfeed : ∀ rs tail stop, Feed (sys.piped out) 0 (some .stdin) rs tail stop ↔
      rs = records (printed out) ∧ tail = [] ∧ stop = ended (.ok ()) := by
    intro rs tail stop
    constructor
    · rintro ⟨⟩
      rename_i res fp hopen hexec
      cases hopen
      obtain ⟨rfl, rfl⟩ := (exec_macfile hout _).mp hexec
      exact ⟨rfl, rfl, rfl⟩
    · rintro ⟨rfl, rfl, rfl⟩
      exact .read rfl ((exec_macfile hout _).mpr ⟨rfl, rfl⟩)
  constructor
  · intro h
    obtain ⟨events', hrun, rfl⟩ := h.runs
    obtain ⟨rs, tail, stop, hf, rfl, rfl⟩ := (hruns _ _).mp hrun
    obtain ⟨rfl, rfl, rfl⟩ := (hfeed _ _ _).mp hf
    exact ⟨by rw [List.append_nil]; rfl, rfl⟩
  · rintro ⟨rfl, rfl⟩
    have hrun := (hruns (traceOf sys s₀.globals (pipedTargets out)) _).mpr
      ⟨_, _, _, (hfeed _ _ _).mpr ⟨rfl, rfl, rfl⟩, (List.append_nil _).symm, rfl⟩
    exact mainRuns_of_runs hrun

end Pipe

/-! ## Joined lines -/

/-- A hardware address that `get_tokens` takes as a whole. -/
structure MacWord (m : Bytes) : Prop where
  ne : m ≠ []
  chars : ∀ c ∈ m, isMacChar c = true
  short : m.length ≤ 17

/-- A host that `get_tokens` takes as a whole. -/
structure HostWord (a : Bytes) : Prop where
  ne : a ≠ []
  chars : ∀ c ∈ a, isHostText c = true
  short : a.length ≤ 254

/-- Address and host, and the defaults of the program. -/
def hostTarget (m a : Bytes) : WakeTarget :=
  { mac := m, host := a, port := defaultPort, passwd := none }

section Joined

variable {m a : Bytes} {ms as : List Bytes}

def newline : Trailer := .blanks ⟨[10], List.all_eq_true.mp rfl⟩

theorem fields_pair (hm : MacWord m) (ha : HostWord a) :
    fields (cstr (pairLine m a ++ [10])) = some ⟨m, a, none, none⟩ := by
  have hline : pairLine m a ++ [10] = Line.render
      { lead := ⟨[], List.forall_mem_nil _⟩
        mac := ⟨m, hm.ne, hm.chars, fun n hn => Option.some.inj hn ▸ hm.short⟩
        sep := ⟨[32], List.cons_ne_nil _ _, List.all_eq_true.mp rfl, fun n hn => by cases hn⟩
        host := ⟨a, ha.ne, ha.chars, fun n hn => by cases hn⟩
        port := none
        passwd := none
        tail := newline } := by
    simp [pairLine, Line.render, Line.body, Line.portText, Line.passwdText, Trailer.text, newline]
  rw [hline, Line.fields_render]
  rfl

theorem printedRecord_pair (hm : MacWord m) (ha : HostWord a) :
    printedRecord (pairLine m a) = some ⟨m, a, 0, none⟩ :=
  lineRecord_some (fields_pair hm ha) (Nat.lt_succ_of_le ha.short)

/-- Without a host there is no record. -/
theorem fields_bare (hm : MacWord m) : fields (cstr (pairLine m [] ++ [10])) = none := by
  have hzero : ∀ c ∈ m ++ [32, 10], c ≠ 0 := by
    intro c hc
    rcases List.mem_append.mp hc with hc | hc
    · rintro rfl
      cases hm.chars 0 hc
    · rintro rfl
      revert hc
      decide
  have hmac : scanStr macFmt (m ++ [32, 10]) = some (m, [32, 10]) :=
    scanStr_word (b := []) (fun c => isMacChar_not_space) (List.forall_mem_nil _)
      ⟨m, hm.ne, hm.chars, fun n hn => Option.some.inj hn ▸ hm.short⟩ (.inl (stops_cons.mpr rfl))
  have hhost : scanStr hostFmt [32, 10] = none := scanStr_stops stops_nil
  have hline : pairLine m [] ++ [10] = m ++ [32, 10] := by simp [pairLine]
  rw [hline, cstr_eq_self hzero]
  simp only [fields, hmac, hhost]

theorem printedRecord_bare (hm : MacWord m) : printedRecord (pairLine m []) = none :=
  lineRecord_none (fields_bare hm)

theorem pairUp_cons_nil (m : Bytes) (ms : List Bytes) :
    pairUp (m :: ms) [] = pairLine m [] :: pairUp ms [] := rfl

theorem pairUp_cons (m a : Bytes) (ms as : List Bytes) :
    pairUp (m :: ms) (a :: as) = pairLine m a :: pairUp ms as := rfl

/-- The records of addresses and hosts, joined by position. -/
theorem filterMap_pairUp (hm : ∀ m ∈ ms, MacWord m) (ha : ∀ a ∈ as, HostWord a) :
    (pairUp ms as).filterMap printedRecord = List.zipWith (⟨·, ·, 0, none⟩) ms as := by
  induction ms generalizing as with
  | nil => rw [pairUp, List.zipWith_nil_left, List.filterMap_nil]
  | cons m ms ih =>
    have hms : ∀ m ∈ ms, MacWord m := fun m' hm' => hm m' (List.mem_cons_of_mem m hm')
    have hmac := hm m List.mem_cons_self
    cases as with
    | nil =>
      rw [pairUp_cons_nil, List.filterMap_cons_none (printedRecord_bare hmac), ih hms ha,
        List.zipWith_nil_right, List.zipWith_nil_right]
    | cons a as =>
      rw [pairUp_cons,
        List.filterMap_cons_some (printedRecord_pair hmac (ha a List.mem_cons_self)),
        ih hms fun a' ha' => ha a' (List.mem_cons_of_mem a ha'), List.zipWith_cons_cons]

theorem mem_pairUp {l : Bytes} (h : l ∈ pairUp ms as) :
    ∃ m ∈ ms, ∃ a, l = pairLine m a ∧ (a = [] ∨ a ∈ as) := by
  induction ms generalizing as with
  | nil => cases h
  | cons m ms ih =>
    cases as with
    | nil =>
      rcases List.mem_cons.mp h with rfl | h
      · exact ⟨m, List.mem_cons_self, [], rfl, .inl rfl⟩
      · obtain ⟨m', hm', a, hl, ha⟩ := ih h
        exact ⟨m', List.mem_cons_of_mem m hm', a, hl, ha⟩
    | cons a as =>
      rcases List.mem_cons.mp h with rfl | h
      · exact ⟨m, List.mem_cons_self, a, rfl, .inr List.mem_cons_self⟩
      · obtain ⟨m', hm', a', hl, ha⟩ := ih h
        exact ⟨m', List.mem_cons_of_mem m hm', a', hl, ha.imp_right (List.mem_cons_of_mem a)⟩

theorem length_pairUp (ms as : List Bytes) : (pairUp ms as).length = ms.length := by
  induction ms generalizing as with
  | nil => rfl
  | cons m ms ih => rw [pairUp, List.length_cons, List.length_cons, ih]

/-- A line has one record at most. -/
theorem length_records_pairUp (ms as : List Bytes) :
    ((pairUp ms as).filterMap printedRecord).length ≤ ms.length := by
  rw [← length_pairUp ms as]
  exact List.length_filterMap_le ..

theorem newline_not_mem_pair (hm : ∀ c ∈ m, isMacChar c = true) (ha : a = [] ∨ HostWord a) :
    10 ∉ pairLine m a := by
  intro h
  rcases List.mem_append.mp h with h | h
  · cases hm 10 h
  · rcases List.mem_cons.mp h with h | h
    · cases h
    · rcases ha with rfl | ha
      · cases h
      · cases ha.chars 10 h

theorem hostFits_pair (hm : MacWord m) (ha : a = [] ∨ HostWord a) :
    HostFits (pairLine m a ++ [10]) := by
  intro f hf
  rcases ha with rfl | ha
  · rw [fields_bare hm] at hf
    cases hf
  · rw [fields_pair hm ha] at hf
    cases hf
    exact ha.short

theorem newline_not_mem_pairUp (hm : ∀ m ∈ ms, ∀ c ∈ m, isMacChar c = true)
    (ha : ∀ a ∈ as, HostWord a) : ∀ l ∈ pairUp ms as, 10 ∉ l := by
  intro l hl
  obtain ⟨m, hm', a, rfl, ha'⟩ := mem_pairUp hl
  exact newline_not_mem_pair (hm m hm') (ha'.imp_right (ha a))

theorem macfile_pairUp (hm : ∀ m ∈ ms, MacWord m) (ha : ∀ a ∈ as, HostWord a) :
    Macfile (printed (pairUp ms as)) := by
  refine macfile_printed (newline_not_mem_pairUp (fun m hm' => (hm m hm').chars) ha) ?_
  intro l hl
  obtain ⟨m, hm', a, rfl, ha'⟩ := mem_pairUp hl
  exact hostFits_pair (hm m hm') (ha'.imp_right (ha a))

theorem pipedTargets_pairUp (hm : ∀ m ∈ ms, MacWord m) (ha : ∀ a ∈ as, HostWord a) :
    pipedTargets (pairUp ms as) = List.zipWith hostTarget ms as := by
  have hline := newline_not_mem_pairUp (fun m hm' => (hm m hm').chars) ha
  rw [pipedTargets, records_printed hline, filterMap_pairUp hm ha, List.map_zipWith]
  rfl

end Joined

/-! ## `wol-dhcpdconf` -/

/-- The target that a block is meant to give. -/
def Block.target (b : Block) : Option WakeTarget := b.addr.map (hostTarget b.mac)

section Conf

variable {blocks : List Block} {input : Bytes}

theorem Renders.hostText {it : Item} {text a : Bytes} (h : Renders it text)
    (ha : it.addr? = some a) : ∀ c ∈ a, isHostText c = true := by
  cases h with
  | hardware => cases ha
  | fixedAddress _ _ _ _ _ hx =>
    cases ha
    exact hx
  | other => cases ha

theorem RendersConf.macWord (h : RendersConf blocks input)
    (hmac : ∀ b ∈ blocks, b.mac.length ≤ 17 ∧ ∀ c ∈ b.mac, isMacChar c = true) :
    ∀ m ∈ blocks.map Block.mac, MacWord m := by
  intro m hm
  have hne := (isWord_of_mem_macs h m hm).1
  obtain ⟨b, hb, rfl⟩ := List.mem_map.mp hm
  exact ⟨hne, (hmac b hb).2, (hmac b hb).1⟩

theorem RendersConf.hostWord (h : RendersConf blocks input)
    (haddr : ∀ b ∈ blocks, ∀ a ∈ b.addr, a.length ≤ 254) :
    ∀ a ∈ blocks.filterMap Block.addr, HostWord a := by
  intro a ha
  have hne := (isWord_of_mem_addrs h a ha).1
  obtain ⟨b, hb, hba⟩ := List.mem_filterMap.mp ha
  obtain ⟨ls, last, hr, -⟩ := h
  rw [← filterMap_addr] at ha
  obtain ⟨it, hit, ha⟩ := List.mem_filterMap.mp ha
  obtain ⟨text, ht⟩ := exists_renders hr hit
  exact ⟨hne, ht.hostText ha, haddr b hb a hba⟩

theorem filterMap_target (blocks : List Block) :
    blocks.filterMap Block.target =
      List.zipWith hostTarget ((addressed blocks).map Block.mac) (blocks.filterMap Block.addr) := by
  induction blocks with
  | nil => rfl
  | cons b bs ih => cases h : b.addr <;> simpa [addressed, Block.target, h] using ih

/-- Joined with the same hosts, one address each, the addresses are the same. -/
theorem zipWith_hostTarget_iff {ms ms' as : List Bytes} (h : ms.length = as.length)
    (hle : as.length ≤ ms'.length) :
    List.zipWith hostTarget ms' as = List.zipWith hostTarget ms as ↔ ms <+: ms' := by
  induction as generalizing ms ms' with
  | nil => simp [List.length_eq_zero_iff.mp h]
  | cons a as ih =>
    obtain ⟨m, ms, rfl⟩ := List.exists_cons_of_length_eq_add_one h
    cases ms' with
    | nil => cases hle
    | cons m' ms' =>
      have hrest := @ih ms ms' (by simpa using h) (by simpa using hle)
      rw [List.zipWith_cons_cons, List.zipWith_cons_cons, List.cons.injEq, hrest,
        List.cons_prefix_cons, hostTarget, hostTarget]
      simp [eq_comm]

/-- `wol-dhcpdconf < /etc/dhcpd.conf | wol -`. On a file of host blocks, with addresses and hosts of
a length that fits, the run works off the hardware addresses of all blocks and the fixed addresses
of those that have one, joined by position. It wakes every host under its own address, and no other,
exactly if the blocks that have one come with the first hardware addresses of the file. -/
theorem dhcpdconf_wol (h : RendersConf blocks input)
    (hmac : ∀ b ∈ blocks, b.mac.length ≤ 17 ∧ ∀ c ∈ b.mac, isMacChar c = true)
    (haddr : ∀ b ∈ blocks, ∀ a ∈ b.addr, a.length ≤ 254)
    {sys : Sys} {posixlyCorrect : Bool} {args : List Bytes} {s₀ : State}
    (hstart : start (sys.piped (dhcpdconf input))
      (commandLine posixlyCorrect sys.programName args) = .ok s₀)
    (hstdin : s₀.globals.requestStdin = true) (hmode : ¬ InProxyMode s₀.globals) :
    ∃ ts, ts = List.zipWith hostTarget (blocks.map Block.mac) (blocks.filterMap Block.addr) ∧
      (∀ events halt, MainRuns (sys.piped (dhcpdconf input)) posixlyCorrect args events halt ↔
        events = diagnostics sys.programName sys.getpass
            (scanned posixlyCorrect sys.programName args).found ⟨{}, false⟩ ++
          traceOf sys s₀.globals ts ∧
        halt = ended (.ok ()) (failedOf sys s₀.globals ts)) ∧
      (ts = blocks.filterMap Block.target ↔
        (addressed blocks).map Block.mac <+: blocks.map Block.mac) := by
  have hm := h.macWord hmac
  have ha := h.hostWord haddr
  have hlen := length_addressed blocks
  have hle : (blocks.filterMap Block.addr).length ≤ (blocks.map Block.mac).length := by
    rw [List.length_map]
    exact List.length_filterMap_le ..
  rw [dhcpdconf_eq h] at hstart ⊢
  refine ⟨_, rfl, fun events halt => ?_, ?_⟩
  · rw [← pipedTargets_pairUp hm ha]
    exact piped_trace (macfile_pairUp hm ha) hstart hstdin hmode events halt
  · rw [filterMap_target]
    exact zipWith_hostTarget_iff hlen hle

end Conf

/-- A system that knows every host. -/
def everyHostSys : Sys :=
  { exampleSys with call := fun _ =>
      { exampleCall with gethostbyname := fun _ => some 7, sendto := fun _ buf => buf.length } }

/-- The file of the manual, with `wol -`. -/
theorem dhcpdconf_wol_zaphod_marvin :
    MainRuns (everyHostSys.piped (dhcpdconf (confText [zaphod, marvin]))) false [ascii "-"]
      [.sendto (.inet 7 40000) (magicPacket ⟨[0x11, 0xab, 0xe3, 0x5f, 0x7f, 0x8c], rfl⟩ none),
        .stdout (ascii "Waking up 11:ab:e3:5f:7f:8c...\n"),
        .sendto (.inet 7 40000) (magicPacket ⟨[0x22, 0xba, 0x3e, 0xf5, 0xf7, 0xc8], rfl⟩ none),
        .stdout (ascii "Waking up 22:ba:3e:f5:f7:c8...\n")] (.exit 0) := by
  have hline : commandLine false everyHostSys.programName [ascii "-"] =
      ⟨2, [], [ascii "-"]⟩ := by decide +kernel
  have hstart : start (everyHostSys.piped (dhcpdconf (confText [zaphod, marvin])))
      ⟨2, [], [ascii "-"]⟩ = .ok _ := rfl
  rw [← hline] at hstart
  obtain ⟨ts, rfl, hruns, -⟩ := dhcpdconf_wol rendersConf_zaphod_marvin (by decide +kernel)
    (by decide +kernel) hstart rfl (fun h => h.2 (by decide))
  refine (hruns _ _).mpr ⟨?_, ?_⟩
  · decide +kernel
  · decide +kernel

/-! ## `wol-bootptab` -/

/-- The target that an entry is meant to give. -/
def Entry.target (e : Entry) : WakeTarget := hostTarget (macText e.hex) e.addr

section Hardware

variable {hex m a : Bytes}

theorem length_flatMap_octets {n : Nat} (h : hex.length = 2 * n) :
    ((octets hex).flatMap (58 :: ·)).length = 3 * n := by
  induction hex using octets.induct generalizing n with
  | case1 =>
    obtain rfl : n = 0 := by simpa using h.symm
    rfl
  | case2 a => simp only [List.length_singleton] at h; omega
  | case3 a b r ih =>
    obtain ⟨k, rfl⟩ : ∃ k, n = k + 1 := ⟨n - 1, by simp only [List.length_cons] at h; omega⟩
    have hr := ih (n := k) (by simp only [List.length_cons] at h; omega)
    rw [octets, List.flatMap_cons, List.length_append, hr]
    simp only [List.length_cons, List.length_nil]
    omega

theorem length_macText (h : hex.length = 12) : (macText hex).length = 17 := by
  have hlen := length_flatMap_octets (n := 6) h
  rw [flatMap_octets h, List.length_cons] at hlen
  omega

theorem macWord_macText (hlen : hex.length = 12) (hd : ∀ c ∈ hex, isXDigit c = true) :
    MacWord (macText hex) where
  ne := (isWord_macText hlen hd).1.1
  chars := by
    intro c hc
    rcases mem_macText hlen hd c (List.mem_cons_of_mem _ hc) with rfl | hx
    · rfl
    · rw [isMacChar, hx, Bool.true_or]
  short := Nat.le_of_eq (length_macText hlen)

theorem head_macText (hlen : hex.length = 12) (hd : ∀ c ∈ hex, isXDigit c = true) :
    (macText hex).head? ≠ some 58 := by
  obtain ⟨a, r, rfl⟩ := List.exists_cons_of_length_eq_add_one hlen
  obtain ⟨b, r, rfl⟩ := List.exists_cons_of_length_eq_add_one (Nat.succ.inj hlen)
  rw [macText, octets, Awk.intercalate_eq]
  intro h
  obtain rfl : a = 58 := Option.some.inj h
  cases hd 58 List.mem_cons_self

/-- A hardware address as the script collects it: in full, or, from the beginning of a continued
line, behind a colon. -/
inductive Collected : Bytes → Prop where
  | whole {w : Bytes} : MacWord w → w.head? ≠ some 58 → Collected w
  | spoilt {w : Bytes} : MacWord w → w.length = 17 → Collected (58 :: w)

theorem Place.collected {p : Place} (h : p.mac? = some m) : Collected m := by
  obtain ⟨⟨g, tag, hg⟩, tagged, last⟩ := p
  cases last with
  | true => cases h
  | false =>
    cases tag with
    | ha hex hlen hd =>
      simp only [Place.mac?, Cell.mac?, Bool.false_eq_true, if_false, Option.some.injEq] at h
      split at h
      · subst h
        exact .whole (macWord_macText hlen hd) (head_macText hlen hd)
      · subst h
        exact .spoilt (macWord_macText hlen hd) (length_macText hlen)
    | ip => cases h
    | other => cases h

theorem Collected.chars (h : Collected m) : ∀ c ∈ m, isMacChar c = true := by
  cases h with
  | whole hw => exact hw.chars
  | spoilt hw => exact List.forall_mem_cons.mpr ⟨rfl, hw.chars⟩

theorem cstr_pair (hm : ∀ c ∈ m, isMacChar c = true) (a : Bytes) :
    cstr (pairLine m a ++ [10]) = m ++ 32 :: cstr (a ++ [10]) := by
  have hzero : ∀ c ∈ m, c ≠ 0 := by
    rintro c hc rfl
    cases hm 0 hc
  rw [pairLine, List.append_assoc, cstr_append hzero]
  rfl

/-- Of eighteen characters the last is left for the host. -/
theorem scan_spoilt {w : Bytes} (hw : MacWord w) (hlen : w.length = 17) (a : Bytes) :
    ∃ p d, isMacChar d = true ∧ scanStr macFmt (cstr (pairLine (58 :: w) a ++ [10])) =
      some (p, d :: 32 :: cstr (a ++ [10])) := by
  have hm : ∀ c ∈ 58 :: w, isMacChar c = true := List.forall_mem_cons.mpr ⟨rfl, hw.chars⟩
  obtain ⟨p, d, hpd⟩ : ∃ p d, 58 :: w = p ++ [d] := by
    rcases List.eq_nil_or_concat (58 :: w) with h | ⟨p, d, h⟩
    · cases h
    · exact ⟨p, d, h.trans (List.concat_eq_append ..)⟩
  have hplen : p.length = 17 := by
    have := congrArg List.length hpd
    rw [List.length_cons, hlen, List.length_append, List.length_singleton] at this
    omega
  have hp : ∀ c ∈ p, isMacChar c = true := fun c hc => hm c (hpd ▸ List.mem_append_left _ hc)
  have hpne : p ≠ [] := by
    rintro rfl
    cases hplen
  refine ⟨p, d, hm d (hpd ▸ List.mem_append_right _ List.mem_cons_self), ?_⟩
  rw [cstr_pair hm, hpd, List.append_assoc, List.singleton_append]
  exact scanStr_word (b := []) (fun c => isMacChar_not_space) (List.forall_mem_nil _)
    ⟨p, hpne, hp, fun n hn => Option.some.inj hn ▸ Nat.le_of_eq hplen⟩
    (.inr (congrArg some hplen.symm))

/-- That is a host of one character, or none. -/
theorem hostFits_spoilt {w : Bytes} (hw : MacWord w) (hlen : w.length = 17) (a : Bytes) :
    HostFits (pairLine (58 :: w) a ++ [10]) := by
  intro f hf
  obtain ⟨p, d, hd, hmac⟩ := scan_spoilt hw hlen a
  simp only [fields, hmac] at hf
  cases hhost : isHostChar d with
  | false =>
    have hnone : scanStr hostFmt (d :: 32 :: cstr (a ++ [10])) = none := by
      refine scanStr_stops ?_
      rw [List.dropWhile_cons_of_neg (by simp [isMacChar_not_space hd])]
      exact stops_cons.mpr hhost
    rw [hnone] at hf
    cases hf
  | true =>
    have hsome : scanStr hostFmt (d :: 32 :: cstr (a ++ [10])) =
        some ([d], 32 :: cstr (a ++ [10])) :=
      scanStr_word (b := []) (fun c => isHostChar_not_space) (List.forall_mem_nil _)
        ⟨[d], List.cons_ne_nil _ _, by simpa using hhost, fun n hn => by cases hn⟩
        (.inl (stops_cons.mpr rfl))
    have hone : ([d] : Bytes).length ≤ 254 := Nat.le_of_ble_eq_true rfl
    simp only [hsome] at hf
    split at hf
    · cases hf
      exact hone
    · cases hf
      exact hone

/-- A line with the colon in front gives no address of a host. -/
theorem head_spoilt {w : Bytes} (hw : MacWord w) {r : Record}
    (h : printedRecord (pairLine (58 :: w) a) = some r) : r.mac.head? = some 58 := by
  have hm : ∀ c ∈ 58 :: w, isMacChar c = true := List.forall_mem_cons.mpr ⟨rfl, hw.chars⟩
  cases hf : fields (cstr (pairLine (58 :: w) a ++ [10])) with
  | none =>
    rw [printedRecord, lineRecord_none hf] at h
    cases h
  | some f =>
    have hmac : f.mac.head? = some 58 := by
      rw [cstr_pair hm, fields] at hf
      cases hscan : scanStr macFmt (58 :: w ++ 32 :: cstr (a ++ [10])) with
      | none =>
        rw [hscan] at hf
        cases hf
      | some x =>
        obtain ⟨t, s⟩ := x
        obtain ⟨-, htok, -⟩ := scanStr_inv hscan
        have hhead : t.head? = some 58 := by
          rw [← htok]
          rfl
        rw [hscan] at hf
        simp only at hf
        split at hf
        · cases hf
        · split at hf
          · cases hf
            exact hhead
          · cases hf
            exact hhead
    by_cases hfit : f.host.length < 255
    · rw [printedRecord, lineRecord_some hf hfit] at h
      cases h
      exact hmac
    · rw [printedRecord, lineRecord, getTokens_overflow hf hfit] at h
      cases h

end Hardware

section Tab

variable {es : List Entry} {ms as : List Bytes}

theorem Entry.macWord (e : Entry) : MacWord (macText e.hex) ∧ (macText e.hex).head? ≠ some 58 := by
  have hha : e.hex ∈ e.tags.filterMap (·.2.ha?) := by simp [e.oneHa]
  obtain ⟨⟨sep, tag⟩, -, hx⟩ := List.mem_filterMap.mp hha
  cases tag with
  | ha hex hlen hd =>
    cases hx
    exact ⟨macWord_macText hlen hd, head_macText hlen hd⟩
  | ip => cases hx
  | other => cases hx

theorem Entry.ne_spoilt (e : Entry) {w : Bytes} : 58 :: w ≠ macText e.hex := by
  intro h
  exact e.macWord.2 (h ▸ rfl)

theorem target_spoilt {w a : Bytes} (hw : MacWord w) {r : Record}
    (h : printedRecord (pairLine (58 :: w) a) = some r) (e : Entry) : r.target ≠ e.target := by
  intro heq
  have hmac : r.mac = macText e.hex := congrArg WakeTarget.mac heq
  exact e.macWord.2 (hmac ▸ head_spoilt hw h)

/-- There are as many targets as entries only if every line gives one; and then they are the same
only if the lists are. By induction on the entries. -/
theorem targets_eq_iff (hm : ∀ m ∈ ms, Collected m) (ha : ∀ a ∈ as, HostWord a)
    (hms : ms.length ≤ es.length) (has : as.length ≤ es.length) :
    ((pairUp ms as).filterMap printedRecord).map Record.target = es.map Entry.target ↔
      ms = es.map (fun e => macText e.hex) ∧ as = es.map Entry.addr := by
  induction es generalizing ms as with
  | nil =>
    obtain rfl := List.length_eq_zero_iff.mp (Nat.le_zero.mp hms)
    obtain rfl := List.length_eq_zero_iff.mp (Nat.le_zero.mp has)
    simp [pairUp]
  | cons e es ih =>
    cases ms with
    | nil => simp [pairUp]
    | cons m ms =>
      have hms' : ms.length ≤ es.length := Nat.le_of_succ_le_succ hms
      have hrest : ∀ m ∈ ms, Collected m := fun m' hm' => hm m' (List.mem_cons_of_mem m hm')
      -- a line without a target is one too few
      have hfew : ∀ as', ((pairUp ms as').filterMap printedRecord).map Record.target ≠
          (e :: es).map Entry.target := by
        intro as' h
        have hlen := congrArg List.length h
        have hle := length_records_pairUp ms as'
        simp only [List.length_map, List.length_cons] at hlen
        omega
      cases hm m List.mem_cons_self with
      | @spoilt w hw hlen =>
        constructor
        · intro h
          rw [pairUp] at h
          cases hr : printedRecord (pairLine (58 :: w) (as.headD [])) with
          | none =>
            rw [List.filterMap_cons_none hr] at h
            exact absurd h (hfew _)
          | some r =>
            rw [List.filterMap_cons_some hr] at h
            exact absurd (List.cons.inj h).1 (target_spoilt hw hr e)
        · rintro ⟨h, -⟩
          exact absurd (List.cons.inj h).1 e.ne_spoilt
      | whole hw hhead =>
        cases as with
        | nil =>
          constructor
          · intro h
            rw [pairUp_cons_nil, List.filterMap_cons_none (printedRecord_bare hw)] at h
            exact absurd h (hfew _)
          · rintro ⟨-, h⟩
            cases h
        | cons a as =>
          have hagain := ih hrest (fun a' ha' => ha a' (List.mem_cons_of_mem a ha')) hms'
            (Nat.le_of_succ_le_succ has)
          rw [pairUp_cons,
            List.filterMap_cons_some (printedRecord_pair hw (ha a List.mem_cons_self))]
          constructor
          · intro h
            obtain ⟨hfirst, htail⟩ := List.cons.inj h
            obtain ⟨rfl, rfl⟩ := hagain.mp htail
            have hmac : m = macText e.hex := congrArg WakeTarget.mac hfirst
            have hhost : a = e.addr := congrArg WakeTarget.host hfirst
            rw [hmac, hhost]
            exact ⟨rfl, rfl⟩
          · rintro ⟨hmacs, haddrs⟩
            obtain ⟨hmac, hmacs⟩ := List.cons.inj hmacs
            obtain ⟨hhost, haddrs⟩ := List.cons.inj haddrs
            rw [List.map_cons, List.map_cons, hagain.mpr ⟨hmacs, haddrs⟩, hmac, hhost]
            rfl

end Tab

section Bootptab

variable {f : Bootptab}

theorem Place.hostWord (hfit : ∀ e ∈ f.entries, e.addr.length ≤ 254) :
    ∀ a ∈ f.places.filterMap Place.host?, HostWord a := by
  intro a ha
  obtain ⟨p, hp, hpa⟩ := List.mem_filterMap.mp ha
  have hip : p.cell.tag.ip? = some a ∧ a ≠ [] ∧ ∀ c ∈ a, isHostText c = true := by
    obtain ⟨⟨g, tag, hg⟩, tagged, last⟩ := p
    cases tag with
    | ha => simp [Place.host?, Cell.host?] at hpa
    | ip addr hne hh =>
      simp only [Place.host?, Cell.host?] at hpa
      split at hpa
      · cases hpa
      · split at hpa
        · cases hpa
        · cases hpa
          exact ⟨rfl, hne, hh⟩
    | other => simp [Place.host?, Cell.host?] at hpa
  have hmem : a ∈ f.entries.map Entry.addr := by
    rw [← addr_places]
    exact List.mem_filterMap.mpr ⟨p, hp, hip.1⟩
  obtain ⟨e, he, rfl⟩ := List.mem_map.mp hmem
  exact ⟨hip.2.1, hip.2.2, hfit e he⟩

theorem collected_places : ∀ m ∈ f.places.filterMap Place.mac?, Collected m := by
  intro m hm
  obtain ⟨p, -, hp⟩ := List.mem_filterMap.mp hm
  exact p.collected hp

theorem newline_not_mem_bootptab (hfit : ∀ e ∈ f.entries, e.addr.length ≤ 254)
    (hquiet : ∀ p ∈ f.places, p.Quiet) : ∀ l ∈ bootptab f.text, 10 ∉ l := by
  rw [bootptab_quiet hquiet]
  exact newline_not_mem_pairUp (fun m hm => (collected_places m hm).chars) (Place.hostWord hfit)

theorem macfile_bootptab (hfit : ∀ e ∈ f.entries, e.addr.length ≤ 254)
    (hquiet : ∀ p ∈ f.places, p.Quiet) : Macfile (printed (bootptab f.text)) := by
  refine macfile_printed (newline_not_mem_bootptab hfit hquiet) fun l hl => ?_
  rw [bootptab_quiet hquiet] at hl
  obtain ⟨m, hm, a, rfl, ha⟩ := mem_pairUp hl
  cases collected_places m hm with
  | whole hw => exact hostFits_pair hw (ha.imp_right (Place.hostWord hfit a))
  | spoilt hw hlen => exact hostFits_spoilt hw hlen a

/-- The script collects no more addresses and hosts than there are entries. -/
theorem length_collected :
    (f.places.filterMap Place.mac?).length ≤ f.entries.length ∧
      (f.places.filterMap Place.host?).length ≤ f.entries.length := by
  constructor
  · have hle : (f.places.filterMap Place.mac?).length ≤
        (f.places.filterMap fun p => p.cell.tag.ha?.map macText).length :=
      length_filterMap_le fun p _ h => mac?_none (by simpa using h)
    rwa [hardware_places, List.length_map] at hle
  · have hle : (f.places.filterMap Place.host?).length ≤
        (f.places.filterMap (·.cell.tag.ip?)).length :=
      length_filterMap_le fun p _ h => host?_none h
    rwa [addr_places, List.length_map] at hle

/-- `wol-bootptab < /etc/bootptab | wol -`. On a file of entries, with hosts of a length that fits
and no other tag that matches, the run comes to its end, and its targets are those of the entries
exactly if every tag stands where the script reads it. -/
theorem bootptab_wol (hfit : ∀ e ∈ f.entries, e.addr.length ≤ 254)
    (hquiet : ∀ p ∈ f.places, p.Quiet)
    {sys : Sys} {posixlyCorrect : Bool} {args : List Bytes} {s₀ : State}
    (hstart : start (sys.piped (bootptab f.text))
      (commandLine posixlyCorrect sys.programName args) = .ok s₀)
    (hstdin : s₀.globals.requestStdin = true) (hmode : ¬ InProxyMode s₀.globals) :
    ∃ ts, ts = pipedTargets (bootptab f.text) ∧
      (∀ events halt, MainRuns (sys.piped (bootptab f.text)) posixlyCorrect args events halt ↔
        events = diagnostics sys.programName sys.getpass
            (scanned posixlyCorrect sys.programName args).found ⟨{}, false⟩ ++
          traceOf sys s₀.globals ts ∧
        halt = ended (.ok ()) (failedOf sys s₀.globals ts)) ∧
      (ts = f.entries.map Entry.target ↔ ∀ p ∈ f.places, p.Read) := by
  obtain ⟨hms, has⟩ := @length_collected f
  refine ⟨_, rfl, piped_trace (macfile_bootptab hfit hquiet) hstart hstdin hmode, ?_⟩
  rw [pipedTargets, records_printed (newline_not_mem_bootptab hfit hquiet),
    bootptab_quiet hquiet, targets_eq_iff collected_places (Place.hostWord hfit) hms has]
  exact reads_iff f

end Bootptab

theorem plain_vmlinuz : Plain (ascii "bf=vmlinuz") := by
  constructor <;> decide +kernel

theorem isXDigit_xterm1 : ∀ c ∈ ascii "00e4ff76553e", isXDigit c = true := by decide +kernel

theorem isHostText_xterm1 : ∀ c ∈ ascii "xterm1", isHostText c = true := by decide +kernel

theorem plain_xterm1 : Plain (ascii "xterm1") := by
  constructor <;> decide +kernel

theorem isBlank_nil : ∀ c ∈ [], Awk.isBlank c = true := nofun

/-- `xterm1:ha=0x00e4ff76553e:ht=ethernet:bf=vmlinuz:ip=xterm1:` -/
def xterm1 : Entry where
  gap := []
  name := ascii "xterm1"
  tags := [(.colon, .ha (ascii "00e4ff76553e") rfl isXDigit_xterm1),
    (.colon, .other (ascii "ht=ethernet") plain_ethernet),
    (.colon, .other (ascii "bf=vmlinuz") plain_vmlinuz),
    (.colon, .ip (ascii "xterm1") nofun isHostText_xterm1)]
  hex := ascii "00e4ff76553e"
  addr := ascii "xterm1"
  gap_blank := isBlank_nil
  name_plain := plain_xterm1
  oneHa := rfl
  oneIp := rfl

/-- Of `xterm1` and `xterm2`, whose `ip` tag stands on its own line, only the first is woken. -/
theorem bootptab_wol_xterms :
    MainRuns (everyHostSys.piped (bootptab (Bootptab.text ⟨[xterm1, xterm2], [10],
        isBlank_newline⟩))) false [ascii "-"]
      [.sendto (.inet 7 40000) (magicPacket ⟨[0x00, 0xe4, 0xff, 0x76, 0x55, 0x3e], rfl⟩ none),
        .stdout (ascii "Waking up 00:e4:ff:76:55:3e...\n")] (.exit 0) := by
  have hline : commandLine false everyHostSys.programName [ascii "-"] =
      ⟨2, [], [ascii "-"]⟩ := by decide +kernel
  have hstart : start (everyHostSys.piped (bootptab (Bootptab.text ⟨[xterm1, xterm2], [10],
      isBlank_newline⟩))) ⟨2, [], [ascii "-"]⟩ = .ok _ := rfl
  rw [← hline] at hstart
  obtain ⟨ts, rfl, hruns, -⟩ := bootptab_wol (f := ⟨[xterm1, xterm2], [10], isBlank_newline⟩)
    (by decide +kernel) (by decide +kernel) hstart rfl (fun h => h.2 (by decide))
  refine (hruns _ _).mpr ⟨?_, ?_⟩
  · decide +kernel
  · decide +kernel

end WakeOnLan
