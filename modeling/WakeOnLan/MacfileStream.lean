import WakeOnLan.CLib.Loop
import WakeOnLan.MacfileCorrect

/-!
# WakeOnLan.MacfileStream

A whole macfile, read call by call as `main` does.

* `readRound`   — one call of `macfile_parse`; `Exec readRound` is the read loop of `main`, its
  events are the records, its result `.ok ()` the first non-zero return.
* `lineRecord`  — the record of a line, from `get_tokens` on fresh outputs.
* `Good`, `macfileParse_good` — one call on a good rest of a stream: it skips the lines without
  tokens and returns the record of the next line, or there is none and it returns `-1`.
-/

namespace WakeOnLan

open CLib

def emptyArray (cap : Nat) (h : 0 < cap) : CharArray cap := ⟨[], h⟩

def freshOuts : Outs :=
  { mac := emptyArray 18 (by decide), host := emptyArray 255 (by decide), port := 0,
    passwd := emptyArray 18 (by decide) }

/-- The record of one line, when `get_tokens` returns a non-zero mask from fresh outputs. -/
def lineRecord (line : Bytes) : Option Record :=
  match getTokens line freshOuts with
  | .ok (mask, o) => if mask = 0 then none else some (record mask o)
  | .error _ => none

/-- The host token of the line, if it has one, is at most 254 characters long. -/
def HostFits (line : Bytes) : Prop := ∀ f, fields (cstr line) = some f → f.host.length ≤ 254

instance (line : Bytes) : Decidable (HostFits line) :=
  decidable_of_iff ((fields (cstr line)).all fun f => f.host.length ≤ 254) (by
    simp [HostFits, Option.all_eq_true])

/-- The read loop between two calls: the stream, and what the uninitialised arrays of the calls
to come will hold. -/
structure Reader where
  junk : Nat → Outs
  fp : File

def readRound (s : Reader) : List Record × Round Reader (Except Fault Unit) :=
  match macfileParse (s.junk 0) s.fp with
  | .error e => ([], .done (.error e))
  | .ok p =>
    match p.record with
    | some r => ([r], .next ⟨fun n => s.junk (n + 1), p.fp⟩)
    | none => ([], .done (.ok ()))

theorem readRound_record {s : Reader} {r : Record} {port : UInt32} {fp : File}
    (h : macfileParse (s.junk 0) s.fp = .ok ⟨some r, port, fp⟩) :
    readRound s = ([r], .next ⟨fun n => s.junk (n + 1), fp⟩) := by
  simp only [readRound, h]

theorem readRound_last {s : Reader} {port : UInt32} {fp : File}
    (h : macfileParse (s.junk 0) s.fp = .ok ⟨none, port, fp⟩) :
    readRound s = ([], .done (.ok ())) := by
  simp only [readRound, h]

theorem readRound_done_inv {s : Reader} {rs : List Record}
    (h : readRound s = (rs, .done (.ok ()))) :
    rs = [] ∧ ∃ port fp, macfileParse (s.junk 0) s.fp = .ok ⟨none, port, fp⟩ := by
  simp only [readRound] at h
  split at h
  · cases h
  · rename_i p hp
    obtain ⟨record, port, fp⟩ := p
    cases record with
    | some r => cases h
    | none =>
      cases h
      exact ⟨rfl, port, fp, hp⟩

theorem readRound_next_inv {s s' : Reader} {rs : List Record} (h : readRound s = (rs, .next s')) :
    ∃ r port, rs = [r] ∧ macfileParse (s.junk 0) s.fp = .ok ⟨some r, port, s'.fp⟩ ∧
      ∀ n, s'.junk n = s.junk (n + 1) := by
  simp only [readRound] at h
  split at h
  · cases h
  · rename_i p hp
    obtain ⟨record, port, fp⟩ := p
    cases record with
    | some r =>
      cases h
      exact ⟨r, port, rfl, hp, fun _ => rfl⟩
    | none => cases h

/-- The loop at its start, on a stream that has just been opened. -/
def reader (junk : Nat → Outs) (content : Bytes) (ending : Ending) : Reader :=
  ⟨junk, fopened content ending⟩

/-! ## The record of a line -/

theorem lineRecord_none {line : Bytes} (h : fields (cstr line) = none) :
    lineRecord line = none := by
  obtain ⟨o', hok, _⟩ := getTokens_none h freshOuts
  simp [lineRecord, hok]

theorem lineRecord_some {line : Bytes} {f : Fields} (h : fields (cstr line) = some f)
    (hfit : f.host.length < 255) : lineRecord line = some f.record := by
  obtain ⟨o', hok, hr⟩ := getTokens_some h hfit (o := freshOuts) rfl
  simp [lineRecord, hok, hr, f.mask_ne_zero]

/-! ## Lines inside one call -/

theorem macfileLoop_unfold (fp : File) (o : Outs) (k : UInt32) :
    macfileLoop fp o k =
      if fp.feof ∨ fp.ferror then .ok (.left k, fp, o)
      else
        match getline fp with
        | (none, fp') => .ok (.failed, fp', o)
        | (some willy, fp') =>
          match getTokens willy o with
          | .error e => .error e
          | .ok (tokens, o') =>
            if tokens = 0 then macfileLoop fp' o' tokens else .ok (.left tokens, fp', o') := by
  rw [macfileLoop]
  split
  · rfl
  · split
    · rename_i h
      simp only [h]
    · rename_i willy fp' h
      rcases ht : getTokens willy o with e | ⟨tokens, o'⟩
      · simp only [h, ht]
      · simp only [h, ht]

/-- Only a host that does not fit stops a call. -/
theorem getTokens_error {str : Bytes} {o : Outs} {e : Fault} (h : getTokens str o = .error e) :
    e = .overflow := by
  cases hf : fields (cstr str) with
  | none =>
    obtain ⟨o', hok, -⟩ := getTokens_none hf o
    rw [h] at hok
    cases hok
  | some f =>
    by_cases hfit : f.host.length < 255
    · obtain ⟨o', hok, -⟩ := getTokens_fields hf hfit o
      rw [h] at hok
      cases hok
    · have herr := getTokens_overflow hf hfit o
      rw [h] at herr
      cases herr
      rfl

theorem macfileLoop_error {fp : File} {o : Outs} {k : UInt32} {e : Fault}
    (h : macfileLoop fp o k = .error e) : e = .overflow := by
  fun_induction macfileLoop fp o k with
  | case1 => cases h
  | case2 => cases h
  | case3 _ _ _ _ _ _ _ _ ht =>
    cases h
    exact getTokens_error ht
  | case4 _ _ _ _ _ _ _ _ _ ih => exact ih h
  | case5 => cases h

/-- The only error of a call is an overflow. -/
theorem macfileParse_error {junk : Outs} {fp : File} {e : Fault}
    (h : macfileParse junk fp = .error e) : e = .overflow := by
  simp only [macfileParse] at h
  split at h
  · rename_i hloop
    cases h
    exact macfileLoop_error hloop
  · cases h
  · split at h
    · cases h
    · cases h

section Calls

variable {l s t : Bytes} {ending : Ending} {o : Outs} {f : Fields} {k : UInt32}

theorem macfileLoop_nil (o : Outs) (k : UInt32) :
    macfileLoop (fopened [] ending) o k = .ok (.failed, (fopened [] ending).hitEnd, o) := by
  rw [macfileLoop_unfold, getline_nil rfl]
  rfl

theorem macfileLoop_flag {fp : File} (h : fp.feof ∨ fp.ferror) (o : Outs) (k : UInt32) :
    macfileLoop fp o k = .ok (.left k, fp, o) := by
  rw [macfileLoop_unfold, if_pos h]

theorem macfileLoop_line (hl : 10 ∉ l) (o : Outs) (k : UInt32) :
    macfileLoop (fopened (l ++ 10 :: s) ending) o k =
      match getTokens (l ++ [10]) o with
      | .error e => .error e
      | .ok (tokens, o') =>
        if tokens = 0 then macfileLoop (fopened s ending) o' tokens
        else .ok (.left tokens, fopened s ending, o') := by
  rw [macfileLoop_unfold, getline_line hl rfl]
  rfl

theorem macfileLoop_tail (ht : 10 ∉ t) (hne : t ≠ []) (o : Outs) (k : UInt32) :
    macfileLoop (fopened t ending) o k =
      match getTokens t o with
      | .error e => .error e
      | .ok (tokens, o') => .ok (.left tokens, (fopened t ending).hitEnd, o') := by
  have hflag : (fopened t ending).hitEnd.feof ∨ (fopened t ending).hitEnd.ferror := by
    cases ending with
    | eof => exact .inl rfl
    | error => exact .inr rfl
  have hget : getline (fopened t ending) = (some t, (fopened t ending).hitEnd) :=
    getline_tail ht hne
  rw [macfileLoop_unfold, hget]
  simp only [fopened, Bool.false_eq_true, or_self, if_false]
  cases getTokens t o with
  | error e => rfl
  | ok p =>
    obtain ⟨tokens, o'⟩ := p
    simp only
    split
    · exact macfileLoop_flag hflag o' tokens
    · rfl

end Calls

/-! ## One call -/

/-- The stream `s` is `skipped`, lines without a record, then `line`, then `s'`. -/
structure NextLine (s : Bytes) (skipped : List Bytes) (line s' : Bytes) : Prop where
  bytes : s = skipped.flatten ++ line ++ s'
  taken : line ∈ CLib.lines (skipped.flatten ++ line)
  lines : lines s = skipped ++ line :: lines s'
  whole : wholeLines s = skipped ++ line :: wholeLines s'
  noRecord : ∀ l ∈ skipped, lineRecord l = none
  terminated : NewlineTerminated s' ↔ NewlineTerminated s

/-- The lines before `l` are skipped too. -/
theorem NextLine.skip {l s line s' : Bytes} {skipped : List Bytes} (hl : 10 ∉ l)
    (hr : lineRecord (l ++ [10]) = none) (h : NextLine s skipped line s') :
    NextLine (l ++ 10 :: s) ((l ++ [10]) :: skipped) line s' where
  bytes := by rw [h.bytes]; simp
  taken := by
    have := h.taken
    rw [List.flatten_cons, List.append_assoc, List.append_assoc, List.singleton_append,
      lines_line hl]
    exact List.mem_cons_of_mem _ this
  lines := by rw [lines_line hl, h.lines, List.cons_append]
  whole := by rw [wholeLines_line hl, h.whole, List.cons_append]
  noRecord := by
    intro l' hl'
    rcases List.mem_cons.mp hl' with rfl | hl'
    · exact hr
    · exact h.noRecord l' hl'
  terminated := h.terminated.trans newlineTerminated_line.symm

/-- What is left of a stream that the read loop can finish: no host overflows its array, and behind
an unterminated last line a read error waits. -/
structure Good (s : Bytes) (ending : Ending) : Prop where
  fits : ∀ line ∈ lines s, HostFits line
  ends : NewlineTerminated s ∨ ending = .error

theorem Good.of_line {l s : Bytes} {ending : Ending} (hl : 10 ∉ l)
    (h : Good (l ++ 10 :: s) ending) : HostFits (l ++ [10]) ∧ Good s ending := by
  obtain ⟨hfit, hend⟩ := h
  rw [lines_line hl] at hfit
  exact ⟨hfit _ (List.mem_cons_self ..), fun line hm => hfit line (List.mem_cons_of_mem _ hm),
    hend.imp_left newlineTerminated_line.mp⟩

theorem Good.next {s line s' : Bytes} {skipped : List Bytes} {ending : Ending}
    (h : Good s ending) (hn : NextLine s skipped line s') : Good s' ending where
  fits := fun l hl => h.fits l (by rw [hn.lines]; simp [hl])
  ends := h.ends.imp_left hn.terminated.mpr

/-- The `while` loop on a good stream, by induction on its lines: the lines without tokens are
skipped and leave the port `0`; a line with tokens ends the loop. -/
theorem macfileLoop_good {s : Bytes} {ending : Ending} (h : Good s ending) {o : Outs}
    (ho : o.port = 0) (k : UInt32) :
    (∃ x fp' o', macfileLoop (fopened s ending) o k = .ok (x, fp', o') ∧
      (x = .failed ∨ fp'.ferror = true) ∧ ∀ line ∈ wholeLines s, lineRecord line = none) ∨
    (∃ skipped line s' mask o', NextLine s skipped line s' ∧
      lineRecord line = some (record mask o') ∧
      macfileLoop (fopened s ending) o k = .ok (.left mask, fopened s' ending, o')) := by
  induction s using byLines generalizing o k with
  | nil => exact .inl ⟨_, _, _, macfileLoop_nil o k, .inl rfl, by simp [wholeLines, lines]⟩
  | tail t ht hne =>
    have hnot := not_newlineTerminated_tail ht hne
    have hend : ending = .error := h.ends.resolve_left hnot
    subst hend
    have hfit : HostFits t := h.fits t (by simp [lines_tail ht hne])
    have hnone : ∀ line ∈ wholeLines t, lineRecord line = none := by simp [wholeLines_tail ht]
    rw [macfileLoop_tail ht hne]
    cases hf : fields (cstr t) with
    | none =>
      obtain ⟨o', hok, _⟩ := getTokens_none hf o
      rw [hok]
      exact .inl ⟨_, _, _, rfl, .inr rfl, hnone⟩
    | some f =>
      obtain ⟨o', hok, _⟩ := getTokens_some hf (Nat.lt_succ_of_le (hfit f hf)) ho
      rw [hok]
      exact .inl ⟨_, _, _, rfl, .inr rfl, hnone⟩
  | line l s hl ih =>
    obtain ⟨hfit, hs⟩ := h.of_line hl
    rw [macfileLoop_line hl]
    cases hf : fields (cstr (l ++ [10])) with
    | none =>
      obtain ⟨o', hok, hport⟩ := getTokens_none hf o
      have hr := lineRecord_none hf
      simp only [hok, if_true]
      rcases ih hs (hport.trans ho) 0 with
        ⟨x, fp', o'', hloop, hx, hall⟩ | ⟨skipped, line, s', mask, o'', hn, hrec, hloop⟩
      · refine .inl ⟨x, fp', o'', hloop, hx, ?_⟩
        rw [wholeLines_line hl]
        exact List.forall_mem_cons.mpr ⟨hr, hall⟩
      · exact .inr ⟨_, line, s', mask, o'', hn.skip hl hr, hrec, hloop⟩
    | some f =>
      have hlt := Nat.lt_succ_of_le (hfit f hf)
      obtain ⟨o', hok, hro⟩ := getTokens_some hf hlt ho
      simp only [hok, if_neg f.mask_ne_zero]
      refine .inr ⟨[], l ++ [10], s, f.mask, o', ⟨by simp, by simp [lines_line hl],
        lines_line hl s, wholeLines_line hl s, by simp, newlineTerminated_line.symm⟩, ?_, rfl⟩
      rw [hro, lineRecord_some hf hlt]

theorem macfileParse_good {s : Bytes} {ending : Ending} (h : Good s ending) (junk : Outs) :
    (∃ p, macfileParse junk (fopened s ending) = .ok p ∧ p.record = none ∧
      ∀ line ∈ wholeLines s, lineRecord line = none) ∨
    (∃ skipped line s' r, NextLine s skipped line s' ∧ lineRecord line = some r ∧
      macfileParse junk (fopened s ending) = .ok ⟨some r, r.port, fopened s' ending⟩) := by
  rcases macfileLoop_good h (o := { junk with port := 0 }) rfl 0 with
    ⟨x, fp', o', hloop, hx, hall⟩ | ⟨skipped, line, s', mask, o', hn, hrec, hloop⟩
  · refine .inl ?_
    rw [macfileParse, hloop]
    cases x with
    | failed => exact ⟨_, rfl, rfl, hall⟩
    | left mask =>
      have hferr : fp'.ferror = true := by simpa using hx
      simp only [hferr, if_true]
      exact ⟨_, rfl, rfl, hall⟩
  · refine .inr ⟨skipped, line, s', record mask o', hn, hrec, ?_⟩
    rw [macfileParse, hloop]
    rfl

/-! ## The loop over the calls -/

theorem readRound_good {s : Bytes} {ending : Ending} (h : Good s ending) (junk : Nat → Outs) :
    (readRound (reader junk s ending) = ([], .done (.ok ())) ∧
      ∀ line ∈ wholeLines s, lineRecord line = none) ∨
    (∃ skipped line s' r, NextLine s skipped line s' ∧ lineRecord line = some r ∧
      readRound (reader junk s ending) =
        ([r], .next (reader (fun n => junk (n + 1)) s' ending))) := by
  rcases macfileParse_good h (junk 0) with
    ⟨p, hp, hnone, hall⟩ | ⟨skipped, line, s', r, hn, hrec, hp⟩
  · exact .inl ⟨by simp [readRound, reader, hp, hnone], hall⟩
  · exact .inr ⟨skipped, line, s', r, hn, hrec, by simp [readRound, reader, hp]⟩

end WakeOnLan
