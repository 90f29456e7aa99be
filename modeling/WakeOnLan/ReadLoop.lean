import WakeOnLan.MacfileStream

/-!
# WakeOnLan.ReadLoop

The read loop of `main` over all streams.

* `exec_good`       — on a good stream the loop ends, and its records are those of the terminated
  lines, in order.
* `good_of_exec`    — only on a good stream does it end: behind an unterminated last line
  `macfile_parse` keeps returning `0` without reading, and a long host is an overflow.
* `macfile_records` — newline-terminated streams: what is read is a function of the lines.
* `readLoop_ends`   — when the loop ends and hands back only tokens it has just read.
-/

namespace WakeOnLan

open CLib

/-! ## Good streams -/

theorem filterMap_skipped {skipped : List Bytes} (h : ∀ l ∈ skipped, lineRecord l = none) :
    skipped.filterMap lineRecord = [] := by
  rw [List.filterMap_eq_nil_iff]
  exact h

theorem exec_good {s : Bytes} {ending : Ending} (h : Good s ending) (junk : Nat → Outs) :
    Exec readRound (reader junk s ending) ((wholeLines s).filterMap lineRecord) (.ok ()) := by
  have key : ∀ n s junk, Good s ending → (wholeLines s).length ≤ n →
      Exec readRound (reader junk s ending) ((wholeLines s).filterMap lineRecord) (.ok ()) := by
    intro n
    induction n with
    | zero =>
      intro s junk h hn
      rcases readRound_good h junk with ⟨hr, hall⟩ | ⟨skipped, line, s', r, hnext, _, _⟩
      · rw [filterMap_skipped hall]
        exact .done hr
      · rw [hnext.whole] at hn
        simp at hn
    | succ n ih =>
      intro s junk h hn
      rcases readRound_good h junk with ⟨hr, hall⟩ | ⟨skipped, line, s', r, hnext, hrec, hr⟩
      · rw [filterMap_skipped hall]
        exact .done hr
      · have hlen : (wholeLines s).length = skipped.length + ((wholeLines s').length + 1) := by
          rw [hnext.whole]; simp
        have he := ih s' (fun n => junk (n + 1)) (h.next hnext) (by omega)
        rw [hnext.whole, List.filterMap_append, filterMap_skipped hnext.noRecord,
          List.filterMap_cons_some hrec, List.nil_append, ← List.singleton_append]
        exact .next hr he
  exact key _ s junk h (Nat.le_refl _)

theorem length_wholeRecords (s : Bytes) :
    ((wholeLines s).filterMap lineRecord).length ≤ (lines s).length :=
  Nat.le_trans (List.length_filterMap_le ..) (List.length_filter_le ..)

/-! ## Other streams -/

section Calls

variable {l s t line : Bytes} {ending : Ending} {f : Fields}

/-- A call on a line without tokens is the call on what follows it, from other array contents. -/
theorem macfileParse_skip (hl : 10 ∉ l) (hf : fields (cstr (l ++ [10])) = none) (junk : Outs) :
    ∃ junk', macfileParse junk (fopened (l ++ 10 :: s) ending) =
      macfileParse junk' (fopened s ending) := by
  obtain ⟨o', hok, hport⟩ := getTokens_none hf { junk with port := 0 }
  have ho' : { o' with port := 0 } = o' := by
    rw [show (0 : UInt32) = o'.port from hport.symm]
  refine ⟨o', ?_⟩
  simp only [macfileParse, macfileLoop_line hl, hok, if_true, ho']

theorem macfileParse_record (hl : 10 ∉ l) (hf : fields (cstr (l ++ [10])) = some f)
    (hfit : f.host.length < 255) (junk : Outs) :
    macfileParse junk (fopened (l ++ 10 :: s) ending) =
      .ok ⟨some f.record, f.record.port, fopened s ending⟩ := by
  obtain ⟨o', hok, hr⟩ := getTokens_some hf hfit (o := { junk with port := 0 }) rfl
  have hport : o'.port = f.record.port := hr ▸ rfl
  simp only [macfileParse, macfileLoop_line hl, hok, if_neg f.mask_ne_zero, hr, hport]
  rfl

theorem macfileParse_overflow (hl : 10 ∉ l) (hf : fields (cstr (l ++ [10])) = some f)
    (hlong : ¬ f.host.length < 255) (junk : Outs) :
    macfileParse junk (fopened (l ++ 10 :: s) ending) = .error .overflow := by
  simp only [macfileParse, macfileLoop_line hl, getTokens_overflow hf hlong]

theorem macfileParse_tail_overflow (ht : 10 ∉ t) (hne : t ≠ []) (hf : fields (cstr t) = some f)
    (hlong : ¬ f.host.length < 255) (junk : Outs) :
    macfileParse junk (fopened t ending) = .error .overflow := by
  simp only [macfileParse, macfileLoop_tail ht hne, getTokens_overflow hf hlong]

/-- An unterminated last line is answered with `0`, with tokens or without. -/
theorem macfileParse_tail_eof (ht : 10 ∉ t) (hne : t ≠ []) (hfit : HostFits t) (junk : Outs) :
    ∃ r, macfileParse junk (fopened t .eof) = .ok ⟨some r, r.port, (fopened t .eof).hitEnd⟩ := by
  have hok : ∃ k o', getTokens t { junk with port := 0 } = .ok (k, o') := by
    cases hf : fields (cstr t) with
    | none =>
      obtain ⟨o', hok, _⟩ := getTokens_none hf { junk with port := 0 }
      exact ⟨_, o', hok⟩
    | some f =>
      obtain ⟨o', hok, _⟩ :=
        getTokens_some hf (Nat.lt_succ_of_le (hfit f hf)) (o := { junk with port := 0 }) rfl
      exact ⟨_, o', hok⟩
  obtain ⟨k, o', hok⟩ := hok
  refine ⟨record k o', ?_⟩
  simp only [macfileParse, macfileLoop_tail ht hne, hok]
  rfl

/-- With the end-of-file flag set before the call nothing is read, and the call returns `0` with
whatever its arrays hold. -/
theorem macfileParse_stuck {fp : File} (hfeof : fp.feof = true) (hferr : fp.ferror = false)
    (junk : Outs) :
    macfileParse junk fp = .ok ⟨some (record 0 { junk with port := 0 }), 0, fp⟩ := by
  simp only [macfileParse, macfileLoop_flag (.inl hfeof), hferr]
  rfl

end Calls

/-- A read loop that will never get anywhere. -/
def Reader.Stuck (s : Reader) : Prop := s.fp.feof = true ∧ s.fp.ferror = false

theorem not_exec_stuck {s : Reader} (h : s.Stuck) {rs : List Record} {res : Except Fault Unit} :
    ¬ Exec readRound s rs res := by
  apply not_exec_of_invariant (P := Reader.Stuck) _ h
  intro s hs
  have hr := macfileParse_stuck hs.1 hs.2 (s.junk 0)
  exact ⟨[record 0 { s.junk 0 with port := 0 }], ⟨fun n => s.junk (n + 1), s.fp⟩,
    readRound_record hr, hs⟩

theorem exec_error {s : Reader} {e : Fault} (h : macfileParse (s.junk 0) s.fp = .error e)
    {rs : List Record} : ¬ Exec readRound s rs (.ok ()) := by
  have hr : readRound s = ([], .done (.error e)) := by simp [readRound, h]
  intro he
  cases he with
  | done hs => rw [hr] at hs; cases hs
  | next hs _ => rw [hr] at hs; cases hs

theorem exec_next {s : Reader} {r : Record} {port : UInt32} {fp : File}
    (h : macfileParse (s.junk 0) s.fp = .ok ⟨some r, port, fp⟩) {rs : List Record}
    {res : Except Fault Unit} (he : Exec readRound s rs res) :
    ∃ rs', Exec readRound ⟨fun n => s.junk (n + 1), fp⟩ rs' res := by
  have hr := readRound_record h
  cases he with
  | done hs => rw [hr] at hs; cases hs
  | next hs he' => rw [hr] at hs; cases hs; exact ⟨_, he'⟩

/-- The loop ends normally only on a good stream, by induction on its lines. -/
theorem good_of_exec {s : Bytes} {ending : Ending} {junk : Nat → Outs} {rs : List Record}
    (he : Exec readRound (reader junk s ending) rs (.ok ())) : Good s ending := by
  induction s using byLines generalizing junk rs with
  | nil => exact ⟨by simp [lines], .inl (.inl rfl)⟩
  | tail t ht hne =>
    have hfit : HostFits t := by
      intro f hf
      by_contra hlong
      exact exec_error (macfileParse_tail_overflow ht hne hf (by omega) _) he
    refine ⟨by simpa [lines_tail ht hne] using hfit, ?_⟩
    cases ending with
    | error => exact .inr rfl
    | eof =>
      obtain ⟨r, hr⟩ := macfileParse_tail_eof ht hne hfit (junk 0)
      obtain ⟨rs', he'⟩ := exec_next hr he
      exact absurd he' (not_exec_stuck ⟨rfl, rfl⟩)
  | line l s hl ih =>
    suffices h : HostFits (l ++ [10]) ∧ Good s ending by
      refine ⟨?_, h.2.ends.imp_left newlineTerminated_line.mpr⟩
      rw [lines_line hl]
      intro line hline
      rcases List.mem_cons.mp hline with rfl | hline
      · exact h.1
      · exact h.2.fits line hline
    cases hf : fields (cstr (l ++ [10])) with
    | none =>
      obtain ⟨junk', hskip⟩ : ∃ junk', macfileParse (junk 0) (fopened (l ++ 10 :: s) ending) =
          macfileParse junk' (fopened s ending) := macfileParse_skip hl hf (junk 0)
      have hround : readRound (reader junk (l ++ 10 :: s) ending) =
          readRound (reader (fun n => if n = 0 then junk' else junk n) s ending) := by
        simp [readRound, reader, hskip]
      refine ⟨?_, ih (he.congr hround)⟩
      intro f hf'
      cases hf.symm.trans hf'
    | some f =>
      by_cases hfit : f.host.length < 255
      · obtain ⟨rs', he'⟩ := exec_next (macfileParse_record hl hf hfit _) he
        refine ⟨?_, ih he'⟩
        intro f' hf'
        cases hf.symm.trans hf'
        exact Nat.le_of_lt_succ hfit
      · exact absurd he (exec_error (macfileParse_overflow hl hf hfit _))

/-! ## Newline-terminated streams -/

/-- `get_tokens` returns the mask `0` on the line. -/
def NoTokens (line : Bytes) : Prop := ∃ o, getTokens line freshOuts = .ok (0, o)

theorem NoTokens.fields {line : Bytes} (h : NoTokens line) : fields (cstr line) = none := by
  obtain ⟨o, ho⟩ := h
  cases hf : WakeOnLan.fields (cstr line) with
  | none => rfl
  | some f =>
    by_cases hfit : f.host.length < 255
    · obtain ⟨o', hok, _⟩ := getTokens_some hf hfit (o := freshOuts) rfl
      rw [ho] at hok
      exact absurd (congrArg Prod.fst (Except.ok.inj hok)).symm f.mask_ne_zero
    · rw [getTokens_overflow hf hfit] at ho
      cases ho

/-- A stream that `macfile_records` speaks of: newline-terminated, its hosts fit. -/
structure Macfile (s : Bytes) : Prop where
  terminated : NewlineTerminated s
  fits : ∀ line ∈ lines s, HostFits line

theorem Macfile.good {s : Bytes} (h : Macfile s) : Good s .eof := ⟨h.fits, .inl h.terminated⟩

theorem Macfile.append {a b : Bytes} (ha : Macfile a) (hb : Macfile b) : Macfile (a ++ b) where
  terminated := ha.terminated.append hb.terminated
  fits := by
    intro line hline
    rw [lines_append ha.terminated] at hline
    rcases List.mem_append.mp hline with h | h
    · exact ha.fits line h
    · exact hb.fits line h

theorem Macfile.of_noTokens {s : Bytes} (ht : NewlineTerminated s)
    (h : ∀ line ∈ lines s, NoTokens line) : Macfile s where
  terminated := ht
  fits := by
    intro line hline f hf
    rw [(h line hline).fields] at hf
    cases hf

/-- The records of a macfile: those of its lines, in order. -/
def records (s : Bytes) : List Record := (lines s).filterMap lineRecord

theorem records_append {a : Bytes} (ha : NewlineTerminated a) (b : Bytes) :
    records (a ++ b) = records a ++ records b := by
  rw [records, lines_append ha, List.filterMap_append]
  rfl

theorem records_noTokens {s : Bytes} (h : ∀ line ∈ lines s, NoTokens line) : records s = [] :=
  filterMap_skipped fun line hline => lineRecord_none (h line hline).fields

theorem exec_macfile {s : Bytes} (h : Macfile s) (junk : Nat → Outs) {rs : List Record}
    {res : Except Fault Unit} :
    Exec readRound (reader junk s .eof) rs res ↔ rs = records s ∧ res = .ok () := by
  have he := exec_good h.good junk
  rw [wholeLines_eq h.terminated] at he
  constructor
  · intro he'
    exact he'.deterministic he
  · rintro ⟨rfl, rfl⟩
    exact he

/-- **A macfile is read line by line.** The results of the calls, up to the first non-zero one, are
exactly the records of the lines with a non-zero mask, in file order; so the records of a
concatenation are those of its parts, and lines with mask `0` can be inserted or deleted. -/
theorem macfile_records :
    (∀ (junk : Nat → Outs) (s : Bytes), Macfile s → ∀ rs res,
      Exec readRound (reader junk s .eof) rs res ↔
        rs = (lines s).filterMap lineRecord ∧ res = .ok ()) ∧
    (∀ (junk : Nat → Outs) (a b : Bytes), Macfile a → Macfile b → ∀ ra rb,
      Exec readRound (reader junk a .eof) ra (.ok ()) →
      Exec readRound (reader junk b .eof) rb (.ok ()) →
      Exec readRound (reader junk (a ++ b) .eof) (ra ++ rb) (.ok ())) ∧
    (∀ (junk : Nat → Outs) (a m b : Bytes), Macfile a → Macfile b → NewlineTerminated m →
      (∀ line ∈ lines m, NoTokens line) → ∀ rs res,
      Exec readRound (reader junk (a ++ m ++ b) .eof) rs res ↔
        Exec readRound (reader junk (a ++ b) .eof) rs res) := by
  refine ⟨fun junk s h rs res => exec_macfile h junk, ?_, ?_⟩
  · intro junk a b ha hb ra rb hra hrb
    obtain ⟨rfl, -⟩ := (exec_macfile ha junk).mp hra
    obtain ⟨rfl, -⟩ := (exec_macfile hb junk).mp hrb
    rw [exec_macfile (ha.append hb), records_append ha.terminated]
    exact ⟨rfl, rfl⟩
  · intro junk a m b ha hb hm hno rs res
    have hmac := Macfile.of_noTokens hm hno
    rw [exec_macfile ((ha.append hmac).append hb), exec_macfile (ha.append hb),
      records_append (ha.append hmac).terminated, records_append ha.terminated,
      records_append ha.terminated, records_noTokens hno, List.append_nil]

/-- A comment and a record, then a blank and a malformed line, then a record with port and
password. -/
theorem macfile_records_three_parts :
    Exec readRound
      (reader (fun _ => freshOuts)
        (ascii "# lab\n00:11 a\n" ++ ascii "\nzz\n" ++ ascii "00:22 b.c:99 1-2\n") .eof)
      [⟨ascii "00:11", ascii "a", 0, none⟩, ⟨ascii "00:22", ascii "b.c", 99, some (ascii "1-2")⟩]
      (.ok ()) := by
  have ha : Macfile (ascii "# lab\n00:11 a\n") := ⟨by decide, by decide +kernel⟩
  have hb : Macfile (ascii "00:22 b.c:99 1-2\n") := ⟨by decide, by decide +kernel⟩
  have hno : ∀ line ∈ lines (ascii "\nzz\n"), NoTokens line := by
    intro line hline
    have hl : line = ascii "\n" ∨ line = ascii "zz\n" := by simpa [lines, ascii] using hline
    rcases hl with rfl | rfl
    · exact ⟨freshOuts, by decide +kernel⟩
    · exact ⟨freshOuts, by decide +kernel⟩
  refine (macfile_records.2.2 _ _ _ _ ha hb (by decide) hno _ _).mpr ?_
  exact macfile_records.2.1 _ _ _ ha hb [_] [_]
    ((macfile_records.1 _ _ ha _ _).mpr ⟨by decide +kernel, rfl⟩)
    ((macfile_records.1 _ _ hb _ _).mpr ⟨by decide +kernel, rfl⟩)

/-! ## When the loop ends -/

/-- What is asked of the read loop on a stream: a call returns `0` at most once per line; every
such call hands back the tokens of a line that it took from the stream itself; and after finitely
many calls one returns non-zero. -/
structure LoopEnds (junk : Nat → Outs) (s : Bytes) (ending : Ending) : Prop where
  atMostOnce : ∀ rs s', Steps readRound (reader junk s ending) rs s' →
    rs.length ≤ (lines s).length
  ownLine : ∀ rs s₁ r s₂, Steps readRound (reader junk s ending) rs s₁ →
    readRound s₁ = ([r], .next s₂) →
    ∃ taken, s₁.fp.rest = taken ++ s₂.fp.rest ∧ ∃ line ∈ lines taken, lineRecord line = some r
  ends : ∃ rs, Exec readRound (reader junk s ending) rs (.ok ())

theorem loopEnds_of_good {s : Bytes} {ending : Ending} (h : Good s ending) (junk : Nat → Outs) :
    LoopEnds junk s ending := by
  have he := exec_good h junk
  have hle := length_wholeRecords s
  refine ⟨?_, ?_, ⟨_, he⟩⟩
  · intro rs' s' hs
    obtain ⟨rs'', hrs, _⟩ := he.split hs
    rw [hrs, List.length_append] at hle
    omega
  · intro rs' s₁ r s₂ hs hr
    obtain ⟨junk₁, rest, rfl, hgood⟩ :
        ∃ junk₁ rest, s₁ = reader junk₁ rest ending ∧ Good rest ending := by
      apply hs.invariant
        (P := fun s => ∃ junk₁ rest, s = reader junk₁ rest ending ∧ Good rest ending)
        _ ⟨junk, s, rfl, h⟩
      rintro s t s' ⟨junk₁, rest, rfl, hgood⟩ hround
      rcases readRound_good hgood junk₁ with ⟨hdone, _⟩ | ⟨skipped, line, s'', r, hn, _, hnext⟩
      · rw [hdone] at hround
        cases hround
      · rw [hnext] at hround
        cases hround
        exact ⟨_, s'', rfl, hgood.next hn⟩
    rcases readRound_good hgood junk₁ with ⟨hdone, _⟩ | ⟨skipped, line, s'', r', hn, hrec, hnext⟩
    · rw [hdone] at hr
      cases hr
    · rw [hnext] at hr
      cases hr
      exact ⟨skipped.flatten ++ line, hn.bytes, line, hn.taken, hrec⟩

/-- **The read loop ends exactly on good streams**: newline-terminated ones, or ones that end in a
read error, in which no host token is longer than its array. -/
theorem readLoop_ends (junk : Nat → Outs) (s : Bytes) (ending : Ending) :
    LoopEnds junk s ending ↔
      (NewlineTerminated s ∨ ending = .error) ∧ ∀ line ∈ lines s, HostFits line := by
  constructor
  · intro h
    obtain ⟨rs, he⟩ := h.ends
    have hgood := good_of_exec he
    exact ⟨hgood.ends, hgood.fits⟩
  · rintro ⟨hend, hfit⟩
    exact loopEnds_of_good ⟨hfit, hend⟩ junk

/-- On a stream of one record without a newline at its end the loop does not end. -/
theorem readLoop_unterminated :
    ¬ LoopEnds (fun _ => freshOuts) (ascii "00:11:22:33:44:55 host") .eof := by
  intro h
  obtain ⟨rs, he⟩ := h.ends
  exact absurd (good_of_exec he).ends (by decide)

end WakeOnLan
